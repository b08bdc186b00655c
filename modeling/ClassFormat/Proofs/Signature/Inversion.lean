/-
Readers that undo a printer.

`Inverts` says of a parser that it reads back what a printer writes, whatever follows,
and that everything it reads has been written so.  The first half needs care about what
follows, since a parser reads as far as it can: a name goes on as long as there are code
points for it, and a repetition as long as its lead is next.  A condition on code points
says which of them would be taken for more, and what is printed must not be followed by
one of them.  Most items end in a symbol of their own, and then anything may follow.

The laws below are one for each way in which parsers are put together.
-/
import ClassFormat.Proofs.Signature.Notation
import Mathlib.Data.List.TakeWhile

namespace ClassFormat

/-- What comes next is not one of the code points that would be taken for more. -/
def Text.Ends (more : CodePoint → Prop) (rest : Text) : Prop :=
  ∀ p ∈ rest.head?, ¬ more p

namespace Text.Ends

variable {more more' : CodePoint → Prop}

theorem nil : Text.Ends more [] := nofun

theorem cons {p : CodePoint} {rest : Text} (h : ¬ more p) : Text.Ends more (p :: rest) := by
  intro q hq
  obtain rfl : p = q := by simpa using hq
  exact h

theorem never {rest : Text} : Text.Ends (fun _ => False) rest :=
  fun _ _ => id

theorem mono {rest : Text} (h : Text.Ends more rest) (hmore : ∀ p, more' p → more p) :
    Text.Ends more' rest :=
  fun p hp hp' => h p hp (hmore p hp')

end Text.Ends

/-- The parser reads back what is printed, and nothing else. -/
structure Parser.Inverts {α : Type} (p : Parser α) (ok : α → Prop) (print : α → Text)
    (more : CodePoint → Prop) : Prop where
  /-- What is printed is read back, unless what follows would be taken for more of it. -/
  accepts : ∀ {a : α} (rest : Text), ok a → rest.Ends more → p (print a ++ rest) = some (a, rest)
  /-- What is read has been printed. -/
  explains : ∀ {t rest : Text} {a : α}, p t = some (a, rest) → ok a ∧ t = print a ++ rest

namespace Parser

variable {α β : Type} {p : Parser α} {t rest : Text}

/-- The same values by another condition. -/
theorem Inverts.congr {ok ok' : α → Prop} {print : α → Text} {more : CodePoint → Prop}
    (h : p.Inverts ok print more) (hok : ∀ a, ok a ↔ ok' a) : p.Inverts ok' print more := by
  refine ⟨fun _ ha hrest => h.accepts _ ((hok _).mpr ha) hrest, ?_⟩
  intro t rest a hread
  obtain ⟨ha, ht⟩ := h.explains hread
  exact ⟨(hok a).mp ha, ht⟩

/-! ### Steps -/

theorem bind_some {f : α → Parser β} {b : β} :
    (p >>= f) t = some (b, rest) ↔ ∃ a mid, p t = some (a, mid) ∧ f a mid = some (b, rest) := by
  show (p t).bind (fun r => f r.1 r.2) = some (b, rest) ↔ _
  rw [Option.bind_eq_some_iff]
  exact ⟨fun ⟨⟨a, mid⟩, h⟩ => ⟨a, mid, h⟩, fun ⟨a, mid, h⟩ => ⟨(a, mid), h⟩⟩

theorem bind_of_some {f : α → Parser β} {a : α} (h : p t = some (a, rest)) :
    (p >>= f) t = f a rest := by
  show (p t).bind (fun r => f r.1 r.2) = _
  rw [h]
  rfl

/-- What is printed is read back, and the reading goes on behind it. -/
theorem Inverts.bind_print {ok : α → Prop} {print : α → Text} {more : CodePoint → Prop}
    {f : α → Parser β} {a : α} (h : p.Inverts ok print more) (ha : ok a)
    (hrest : rest.Ends more) : (p >>= f) (print a ++ rest) = f a rest :=
  bind_of_some (h.accepts rest ha hrest)

/-- What is read first has been printed. -/
theorem Inverts.of_bind {ok : α → Prop} {print : α → Text} {more : CodePoint → Prop}
    {f : α → Parser β} {b : β} (h : p.Inverts ok print more)
    (hread : (p >>= f) t = some (b, rest)) :
    ∃ a mid, ok a ∧ t = print a ++ mid ∧ f a mid = some (b, rest) := by
  obtain ⟨a, mid, ha, hf⟩ := bind_some.mp hread
  obtain ⟨hok, ht⟩ := h.explains ha
  exact ⟨a, mid, hok, ht, hf⟩

theorem pure_some {a b : α} : (pure a : Parser α) t = some (b, rest) ↔ a = b ∧ t = rest := by
  show some (a, t) = some (b, rest) ↔ _
  rw [Option.some.injEq, Prod.mk.injEq]

theorem guard_some {c : Prop} [Decidable c] {u : Unit} :
    (guard c : Parser Unit) t = some (u, rest) ↔ c ∧ t = rest := by
  show (if c then pure () else failure : Parser Unit) t = some (u, rest) ↔ _
  by_cases hc : c
  · rw [if_pos hc, pure_some]
    simp [hc]
  · rw [if_neg hc]
    exact ⟨fun h => (by cases h), fun h => absurd h.1 hc⟩

/-- Going on under a condition. -/
theorem guard_bind_some {c : Prop} [Decidable c] {f : Unit → Parser β} {b : β} :
    (guard c >>= f) t = some (b, rest) ↔ c ∧ f () t = some (b, rest) := by
  rw [bind_some]
  refine ⟨?_, ?_⟩
  · intro h
    obtain ⟨⟨⟩, mid, hguard, hf⟩ := h
    obtain ⟨hc, rfl⟩ := guard_some.mp hguard
    exact ⟨hc, hf⟩
  · intro h
    exact ⟨(), t, guard_some.mpr ⟨h.1, rfl⟩, h.2⟩

theorem symbol_some {c : Char} {u : Unit} :
    symbol c t = some (u, rest) ↔ t = .scalar c :: rest := by
  cases t with
  | nil => simp [symbol]
  | cons p t =>
      unfold symbol
      split
      · rename_i hp
        simp [hp]
      · rename_i hp
        simp [hp]

/-- Reading on behind a symbol. -/
theorem symbol_bind_some {c : Char} {f : Unit → Parser β} {b : β} :
    (symbol c >>= f) t = some (b, rest) ↔
      ∃ mid, t = .scalar c :: mid ∧ f () mid = some (b, rest) := by
  rw [bind_some]
  refine ⟨?_, ?_⟩
  · intro h
    obtain ⟨⟨⟩, mid, hsymbol, hf⟩ := h
    exact ⟨mid, symbol_some.mp hsymbol, hf⟩
  · intro h
    obtain ⟨mid, hsymbol, hf⟩ := h
    exact ⟨(), mid, symbol_some.mpr hsymbol, hf⟩

theorem peek_some {o : Option CodePoint} : peek t = some (o, rest) ↔ t.head? = o ∧ t = rest := by
  show some (t.head?, t) = some (o, rest) ↔ _
  rw [Option.some.injEq, Prod.mk.injEq]

theorem next_some {p : CodePoint} : next t = some (p, rest) ↔ t = p :: rest := by
  cases t with
  | nil => simp [next]
  | cons q t => simp [next]

/-- Reading on behind the next code point. -/
theorem next_bind_some {f : CodePoint → Parser β} {b : β} :
    (next >>= f) t = some (b, rest) ↔ ∃ p mid, t = p :: mid ∧ f p mid = some (b, rest) := by
  rw [bind_some]
  exact exists_congr fun p => exists_congr fun mid => and_congr_left fun _ => next_some

theorem lift_some {o : Option α} {a : α} :
    (liftM o : Parser α) t = some (a, rest) ↔ o = some a ∧ t = rest := by
  show o.bind (fun a => some (a, t)) = some (a, rest) ↔ _
  cases o with
  | none => simp
  | some b => simp

/-- Going one of two ways, by the next code point. -/
theorem peek_bind {f : Option CodePoint → Parser β} : (peek >>= f) t = f t.head? t := rfl

/-! ### Names and repetitions -/

theorem isName_iff {n : Text} : n.IsName ↔ n ≠ [] ∧ ∀ p ∈ n, isNamePart p = true := by
  simp [Text.IsName, isNamePart]

theorem name_inverts : name.Inverts Text.IsName id (isNamePart · = true) := by
  refine ⟨?_, ?_⟩
  · intro n rest hn hrest
    obtain ⟨hne, hall⟩ := isName_iff.mp hn
    have hend : rest.takeWhile isNamePart = [] ∧ rest.dropWhile isNamePart = rest := by
      cases rest with
      | nil => exact ⟨rfl, rfl⟩
      | cons p rest =>
          have hp : ¬ isNamePart p = true := hrest p rfl
          simp [hp]
    have htake : (n ++ rest).takeWhile isNamePart = n := by
      rw [List.takeWhile_append_of_pos hall, hend.1, List.append_nil]
    have hdrop : (n ++ rest).dropWhile isNamePart = rest := by
      rw [List.dropWhile_append_of_pos hall, hend.2]
    show name (n ++ rest) = some (n, rest)
    unfold name
    rw [htake, hdrop]
    cases n with
    | nil => exact absurd rfl hne
    | cons p n => rfl
  · intro t rest n h
    have hsplit := List.takeWhile_append_dropWhile (p := isNamePart) (l := t)
    unfold name at h
    split at h
    · cases h
    · rename_i hne
      cases h
      refine ⟨isName_iff.mpr ⟨fun hnil => hne hnil, fun p hp => ?_⟩, hsplit.symm⟩
      exact List.mem_takeWhile_imp hp

/-- What is left behind an item is never longer than the text. -/
theorem length_lt_append (u v : Text) : v.length < (u ++ v).length + 1 := by
  rw [List.length_append]
  omega

section Repetition

variable {ok : α → Prop} {print : α → Text} {more : CodePoint → Prop} {item : Parser α}

/-- As many items as there are, each after its lead. -/
theorem Inverts.following (h : item.Inverts ok print more) (lead : Char)
    (hlead : ¬ more (.scalar lead)) :
    (following lead item).Inverts (fun as => ∀ a ∈ as, ok a)
      (fun as => as.flatMap fun a => .scalar lead :: print a)
      (fun p => p = .scalar lead ∨ more p) := by
  refine ⟨?_, ?_⟩
  · intro as rest hok hrest
    induction as with
    | nil =>
        cases rest with
        | nil => simp [Parser.following]
        | cons p rest =>
            have hp : p ≠ .scalar lead := fun hp => hrest p rfl (.inl hp)
            simp [Parser.following, hp]
    | cons a as ih =>
        obtain ⟨ha, has⟩ := List.forall_mem_cons.mp hok
        -- The first item is followed by the next lead, or by what follows all of them.
        have hnext : Text.Ends more ((as.flatMap fun a => .scalar lead :: print a) ++ rest) := by
          cases as with
          | nil => exact hrest.mono fun p hp => .inr hp
          | cons b as => exact .cons hlead
        have hitem := h.accepts _ ha hnext
        rw [List.flatMap_cons, List.cons_append, List.cons_append, List.append_assoc,
          Parser.following, if_pos rfl, hitem]
        simp only [if_pos (length_lt_append ..), ih has, Option.map_some]
  · intro t rest as hf
    -- The items are not known yet, so the induction is on how the text gets shorter.
    fun_induction Parser.following lead item t generalizing as with
    | case1 =>
        cases hf
        exact ⟨List.forall_mem_nil _, rfl⟩
    | case2 t hitem => cases hf
    | case3 t a mid hitem hlt ih =>
        obtain ⟨⟨as', rest'⟩, hrest, heq⟩ := Option.map_eq_some_iff.mp hf
        cases heq
        obtain ⟨ha, rfl⟩ := h.explains hitem
        obtain ⟨has, rfl⟩ := ih hrest
        refine ⟨List.forall_mem_cons.mpr ⟨ha, has⟩, ?_⟩
        simp
    | case4 t a mid hitem hlt => cases hf
    | case5 p t hp =>
        cases hf
        exact ⟨List.forall_mem_nil _, rfl⟩

/-- Where the lead is next there is at least one item. -/
theorem following_ne_nil {lead : Char} {as : List α}
    (hf : Parser.following lead item t = some (as, rest)) (ht : t.head? = some (.scalar lead)) :
    as ≠ [] := by
  cases t with
  | nil => cases ht
  | cons p t =>
      rw [List.head?_cons, Option.some.injEq] at ht
      rw [Parser.following, if_pos ht] at hf
      split at hf
      · cases hf
      · split at hf
        · obtain ⟨_, -, heq⟩ := Option.map_eq_some_iff.mp hf
          cases heq
          exact List.cons_ne_nil _ _
        · cases hf

/-- As many items as there are before the symbol that ends them. -/
theorem Inverts.untilSymbol (h : item.Inverts ok print more) (stop : Char)
    (hstop : ¬ more (.scalar stop))
    (hstart : ∀ a, ok a → ∃ p rest, print a = p :: rest ∧ p ≠ .scalar stop ∧ ¬ more p) :
    (untilSymbol stop item).Inverts (fun as => ∀ a ∈ as, ok a)
      (fun as => as.flatMap print ++ [CodePoint.scalar stop]) (fun _ => False) := by
  refine ⟨?_, ?_⟩
  · intro as rest hok hrest
    induction as with
    | nil => simp [Parser.untilSymbol]
    | cons a as ih =>
        obtain ⟨ha, has⟩ := List.forall_mem_cons.mp hok
        have hnext : Text.Ends more (as.flatMap print ++ [CodePoint.scalar stop] ++ rest) := by
          cases as with
          | nil => exact .cons hstop
          | cons b as =>
              obtain ⟨p, u, hprint, -, hp⟩ := hstart b (has b (List.mem_cons_self ..))
              rw [List.flatMap_cons, hprint]
              exact .cons hp
        have hitem := h.accepts _ ha hnext
        obtain ⟨p, u, hprint, hp, -⟩ := hstart a ha
        have htext : (a :: as).flatMap print ++ [CodePoint.scalar stop] ++ rest =
            p :: (u ++ (as.flatMap print ++ [CodePoint.scalar stop] ++ rest)) := by
          simp [hprint]
        rw [hprint, List.cons_append] at hitem
        rw [htext, Parser.untilSymbol, if_neg hp, hitem]
        simp only [if_pos (length_lt_append ..), ih has, Option.map_some]
  · intro t rest as hf
    fun_induction Parser.untilSymbol stop item t generalizing as with
    | case1 => cases hf
    | case2 t =>
        cases hf
        exact ⟨List.forall_mem_nil _, rfl⟩
    | case3 p t hp hitem => cases hf
    | case4 p t hp a mid hitem hlt ih =>
        obtain ⟨⟨as', rest'⟩, hrest, heq⟩ := Option.map_eq_some_iff.mp hf
        cases heq
        obtain ⟨ha, ht⟩ := h.explains hitem
        obtain ⟨has, rfl⟩ := ih hrest
        refine ⟨List.forall_mem_cons.mpr ⟨ha, has⟩, ?_⟩
        rw [ht]
        simp
    | case5 p t hp a mid hitem hlt => cases hf

/-- Items between brackets, at least one, or nothing at all. -/
theorem Inverts.bracketed (h : item.Inverts ok print more) (hstop : ¬ more (.scalar '>'))
    (hstart : ∀ a, ok a → ∃ p rest, print a = p :: rest ∧ p ≠ .scalar '>' ∧ ¬ more p) :
    Parser.Inverts (do
      if (← peek) = some (.scalar '<') then
        symbol '<'
        let found ← Parser.untilSymbol '>' item
        guard !found.isEmpty
        return found
      else return []) (fun as => ∀ a ∈ as, ok a) (Text.bracketed print)
        (· = .scalar '<') := by
  have hitems := h.untilSymbol '>' hstop hstart
  refine ⟨?_, ?_⟩
  · intro as rest hok hrest
    rw [peek_bind]
    cases as with
    | nil =>
        have hne : rest.head? ≠ some (.scalar '<') := fun heq => hrest _ heq rfl
        rw [Text.bracketed, List.nil_append, if_neg hne]
        rfl
    | cons a as =>
        rw [Text.bracketed, List.cons_append, List.cons_append, List.head?_cons, if_pos rfl]
        refine symbol_bind_some.mpr ⟨_, rfl, (hitems.bind_print hok .never).trans ?_⟩
        exact guard_bind_some.mpr ⟨rfl, rfl⟩
  · intro t rest as hread
    rw [peek_bind] at hread
    by_cases hopen : t.head? = some (.scalar '<')
    · rw [if_pos hopen] at hread
      obtain ⟨t₁, rfl, h₁⟩ := symbol_bind_some.mp hread
      obtain ⟨found, t₂, hall, rfl, h₂⟩ := hitems.of_bind h₁
      obtain ⟨hne, h₃⟩ := guard_bind_some.mp h₂
      obtain ⟨rfl, rfl⟩ := pure_some.mp h₃
      refine ⟨hall, ?_⟩
      cases found with
      | nil => simp at hne
      | cons a as => rfl
    · rw [if_neg hopen] at hread
      obtain ⟨rfl, rfl⟩ := pure_some.mp hread
      exact ⟨List.forall_mem_nil _, rfl⟩

end Repetition

/-- One bracket for each array dimension. -/
theorem brackets_inverts :
    (following '[' (pure ())).Inverts (fun _ => True)
      (fun us => List.replicate us.length (.scalar '[')) (· = .scalar '[') := by
  have hpure : (pure () : Parser Unit).Inverts (fun _ => True) (fun _ => []) fun _ => False :=
    ⟨fun _ _ _ => rfl, fun h => ⟨trivial, (pure_some.mp h).2⟩⟩
  have hprint : ∀ us : List Unit,
      us.flatMap (fun _ => [CodePoint.scalar '[']) = List.replicate us.length (.scalar '[') := by
    intro us
    induction us with
    | nil => rfl
    | cons u us ih => rw [List.flatMap_cons, ih, List.length_cons, List.replicate_succ]; rfl
  have hfollowing := hpure.following '[' id
  refine ⟨?_, ?_⟩
  · intro us rest _ hrest
    rw [← hprint us]
    exact hfollowing.accepts _ (fun _ _ => trivial) (hrest.mono fun p hp => hp.resolve_right id)
  · intro t rest us h
    rw [← hprint us]
    exact ⟨trivial, (hfollowing.explains h).2⟩

end Parser

end ClassFormat
