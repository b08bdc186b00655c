/-
Disks whose items make a tree.

What is stored is a tree if every item has names that a file can have, if nothing else is stored
at its location, and if there are directories all the way down to it.  On a tree the way down to
an item can be written as a path, and the path leads there (`IsTree.follow_of_mem`).  The other
way round, a path of such names leads to an item below the directory it starts from, at the
location that the names spell (`mem_of_follow`).
-/
import ClassFormat.ClassPath.Disk
import ClassFormat.Proofs.Text.Joined

namespace ClassFormat

/-- What can be the name of a file in a directory. -/
structure Path.IsFileName (name : Text) : Prop where
  nonempty : name ≠ []
  idle : name ≠ "."
  up : name ≠ Disk.up
  slash : CodePoint.scalar '/' ∉ name

instance : DecidablePred Path.IsFileName := fun name =>
  decidable_of_iff (name ≠ [] ∧ name ≠ "." ∧ name ≠ Disk.up ∧ CodePoint.scalar '/' ∉ name)
    ⟨fun ⟨h₁, h₂, h₃, h₄⟩ => ⟨h₁, h₂, h₃, h₄⟩, fun h => ⟨h.nonempty, h.idle, h.up, h.slash⟩⟩

/-! ### Paths in writing -/

namespace Path

theorem split_ne_nil (t : Text) : split t ≠ [] := by
  cases t with
  | nil => simp [split]
  | cons p t =>
      cases hsplit : split t with
      | nil => simp [split, hsplit]
      | cons part parts => by_cases hslash : p = .scalar '/' <;> simp [split, hsplit, hslash]

theorem split_of_not_mem {t : Text} (h : CodePoint.scalar '/' ∉ t) : split t = [t] := by
  induction t with
  | nil => rfl
  | cons p t ih =>
      rw [List.mem_cons, not_or] at h
      simp [split, ih h.2, Ne.symm h.1]

theorem split_append_slash {name : Text} (h : CodePoint.scalar '/' ∉ name) (t : Text) :
    split (name ++ .scalar '/' :: t) = name :: split t := by
  induction name with
  | nil =>
      cases hsplit : split t with
      | nil => exact absurd hsplit (split_ne_nil t)
      | cons part parts => simp [split, hsplit]
  | cons p name ih =>
      rw [List.mem_cons, not_or] at h
      simp [split, ih h.2, Ne.symm h.1]

/-- Names without slashes are split where they were joined. -/
theorem split_join {name : Text} {names : List Text} (hname : CodePoint.scalar '/' ∉ name)
    (hnames : ∀ n ∈ names, CodePoint.scalar '/' ∉ n) :
    split (.join "/" (name :: names)) = name :: names := by
  rw [Text.join_cons]
  induction names generalizing name with
  | nil => rw [List.flatMap_nil, List.append_nil, split_of_not_mem hname]
  | cons next names ih =>
      obtain ⟨hnext, hrest⟩ := List.forall_mem_cons.mp hnames
      rw [List.flatMap_cons, List.append_assoc]
      exact (split_append_slash hname _).trans (congrArg _ (ih hnext hrest))

theorem rootOf_of_ne {p : CodePoint} (h : p ≠ .scalar '/') (t : Text) : rootOf (p :: t) = "" := by
  unfold rootOf
  split <;> simp_all

/-- File names with slashes between them are written as the path with these parts. -/
theorem ofText_join {names : List Text} (hne : names ≠ []) (h : ∀ n ∈ names, IsFileName n) :
    ofText (.join "/" names) = ⟨"", names⟩ := by
  cases names with
  | nil => exact absurd rfl hne
  | cons name names =>
      obtain ⟨hname, hnames⟩ := List.forall_mem_cons.mp h
      have hroot : rootOf (.join "/" (name :: names)) = "" := by
        rw [Text.join_cons]
        cases name with
        | nil => exact absurd rfl hname.nonempty
        | cons p name => exact rootOf_of_ne (fun hp => hname.slash (by simp [hp])) _
      have hparts : (name :: names).filter (fun part => !part.isEmpty && part != ("." : Text)) =
          name :: names := by
        rw [List.filter_eq_self]
        intro part hpart
        simp [(h part hpart).nonempty, (h part hpart).idle]
      rw [ofText, hroot, split_join hname.slash fun n hn => (hnames n hn).slash, hparts]

end Path

/-! ### Items in a tree -/

namespace Disk

/-- Items stand at different locations, with names for files, and in directories. -/
structure IsTree (disk : Disk) : Prop where
  /-- The names on the way to an item are names for files. -/
  named : ∀ entry ∈ disk.items, ∀ name ∈ entry.1, Path.IsFileName name
  /-- There is nothing else at the location of an item. -/
  single : ∀ entry ∈ disk.items, disk.item? entry.1 = some entry.2
  /-- There are directories on the way down to an item. -/
  enclosed : ∀ entry ∈ disk.items, ∀ n < entry.1.length,
    disk.item? (entry.1.take n) = some .directory

instance : DecidablePred IsTree := fun disk =>
  decidable_of_iff
    ((∀ entry ∈ disk.items, ∀ name ∈ entry.1, Path.IsFileName name) ∧
      (∀ entry ∈ disk.items, disk.item? entry.1 = some entry.2) ∧
      ∀ entry ∈ disk.items, ∀ n < entry.1.length, disk.item? (entry.1.take n) = some .directory)
    ⟨fun ⟨h₁, h₂, h₃⟩ => ⟨h₁, h₂, h₃⟩, fun h => ⟨h.named, h.single, h.enclosed⟩⟩

variable {disk : Disk} {here : Location} {names : List Text} {item : Item}

theorem mem_of_item? {location : Location} (h : disk.item? location = some item)
    (hne : location ≠ []) : (location, item) ∈ disk.items := by
  rw [item?, if_neg hne, List.lookup_eq_some_iff] at h
  obtain ⟨before, after, hitems, -⟩ := h
  rw [hitems]
  exact List.mem_append_right before List.mem_cons_self

/-- A directory is passed on the way down. -/
theorem follow_cons {name : Text} (hup : name ≠ up) (h : disk.item? (here ++ [name]) = some .directory)
    (rest : List Text) : disk.follow here (name :: rest) = disk.follow (here ++ [name]) rest := by
  simp [follow, hup, h]

/-- The way may end at anything. -/
theorem follow_singleton {name : Text} (hup : name ≠ up)
    (h : disk.item? (here ++ [name]) = some item) :
    disk.follow here [name] = .ok (here ++ [name], item) := by
  cases item <;> simp [follow, hup, h]

/-- The way down to an item leads to it. -/
theorem IsTree.follow_of_mem (h : disk.IsTree) (hne : names ≠ [])
    (hmem : (here ++ names, item) ∈ disk.items) :
    disk.follow here names = .ok (here ++ names, item) := by
  induction names generalizing here with
  | nil => exact absurd rfl hne
  | cons name rest ih =>
      have hup : name ≠ up := (h.named _ hmem name (by simp)).up
      cases rest with
      | nil => exact follow_singleton hup (h.single _ hmem)
      | cons next rest =>
          have hdirectory : disk.item? (here ++ [name]) = some .directory := by
            have henclosed := h.enclosed _ hmem (here.length + 1) (by simp)
            rwa [List.take_length_add_append] at henclosed
          rw [List.append_cons] at hmem ⊢
          rw [follow_cons hup hdirectory, ih (List.cons_ne_nil next rest) hmem]

/-- What is no directory is found at the location that the names on the way spell. -/
theorem mem_of_follow {location : Location} (hup : ∀ name ∈ names, name ≠ up)
    (h : disk.follow here names = .ok (location, item)) (hitem : item ≠ .directory) :
    (here ++ names, item) ∈ disk.items := by
  induction names generalizing here with
  | nil =>
      cases h
      exact absurd rfl hitem
  | cons name rest ih =>
      obtain ⟨hname, hrest⟩ := List.forall_mem_cons.mp hup
      rw [List.append_cons]
      cases hnext : disk.item? (here ++ [name]) with
      | none => simp [follow, hname, hnext] at h
      | some next =>
          by_cases hdirectory : next = .directory
          · subst hdirectory
            rw [follow_cons hname hnext] at h
            exact ih hrest h
          · by_cases hlast : rest = []
            · subst hlast
              rw [follow_singleton hname hnext] at h
              cases h
              rw [List.append_nil]
              exact mem_of_item? hnext (by simp)
            · cases next <;> simp [follow, hname, hnext, hlast] at h hdirectory

end Disk

end ClassFormat
