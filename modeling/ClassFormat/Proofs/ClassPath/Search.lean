/-
Loaded classes, and what a search for them finds.

A class path remembers the classes that it has read, and a class that is loaded is found
without another look at the sources.  `Source.search` is the look-up without that: the first
source with a file of the name counts, and the file is read anew.  A class path is `Faithful`
if each class that it has loaded is the one that a search finds.

Sources are added at the end only.  A class that was found stays in the first source that
holds it, so what is loaded remains what a search finds.  What was not found, or could not be
read, is not loaded, so it is searched for again each time.
-/
import ClassFormat.ClassPath.Basic

namespace ClassFormat

/-! ### Searching without loaded classes -/

namespace Source

/-- The class of a name in the first of the sources that holds a file of it, read anew. -/
def search (disk : Disk) (policy : ReadPolicy) (name : Text) :
    List Source → Except Fault (Option ClassFile)
  | [] => .ok none
  | source :: rest =>
    match source.file? disk (name ++ classSuffix) with
    | some bytes => some <$> ClassFile.ofBytes policy bytes
    | none => search disk policy name rest

variable {disk : Disk} {policy : ReadPolicy} {name : Text} {source : Source}
  {sources more : List Source}

theorem search_cons_of_none (h : source.file? disk (name ++ classSuffix) = none) :
    search disk policy name (source :: sources) = search disk policy name sources := by
  rw [search, h]

theorem search_cons_of_some {bytes : List UInt8}
    (h : source.file? disk (name ++ classSuffix) = some bytes) :
    search disk policy name (source :: sources) = some <$> ClassFile.ofBytes policy bytes := by
  rw [search, h]

theorem map_some_ne_none {r : Except Fault ClassFile} : some <$> r ≠ .ok none := by
  intro h
  cases r <;> cases h

/-- A search finds nothing exactly if no source holds a file of the name. -/
theorem search_eq_none_iff :
    search disk policy name sources = .ok none ↔
      ∀ s ∈ sources, s.file? disk (name ++ classSuffix) = none := by
  induction sources with
  | nil => simp [search]
  | cons source rest ih =>
      rw [List.forall_mem_cons]
      cases hfile : source.file? disk (name ++ classSuffix) with
      | none => rw [search_cons_of_none hfile, ih, eq_self_iff_true, true_and]
      | some bytes =>
          rw [search_cons_of_some hfile]
          simp [map_some_ne_none]

/-- What a search finds is not affected by sources that are added behind. -/
theorem search_append_of_found (h : search disk policy name sources ≠ .ok none) :
    search disk policy name (sources ++ more) = search disk policy name sources := by
  induction sources with
  | nil => exact absurd rfl h
  | cons source rest ih =>
      rw [List.cons_append]
      cases hfile : source.file? disk (name ++ classSuffix) with
      | none =>
          rw [search_cons_of_none hfile] at h ⊢
          rw [search_cons_of_none hfile]
          exact ih h
      | some bytes => rw [search_cons_of_some hfile, search_cons_of_some hfile]

/-- A search looks for the first file of the name, and reads it. -/
theorem search_eq (disk : Disk) (policy : ReadPolicy) (name : Text) (sources : List Source) :
    search disk policy name sources =
      match sources.findSome? (file? disk (name ++ classSuffix)) with
      | none => .ok none
      | some bytes => some <$> ClassFile.ofBytes policy bytes := by
  induction sources with
  | nil => rfl
  | cons source rest ih =>
      cases hfile : source.file? disk (name ++ classSuffix) with
      | none => rw [search_cons_of_none hfile, List.findSome?_cons, hfile, ih]
      | some bytes => rw [search_cons_of_some hfile, List.findSome?_cons, hfile]

/-- What a search gives unless it finds nothing is read from a file in one of the sources. -/
theorem exists_file_of_search (h : search disk policy name sources ≠ .ok none) :
    ∃ s ∈ sources, ∃ bytes, s.file? disk (name ++ classSuffix) = some bytes ∧
      search disk policy name sources = some <$> ClassFile.ofBytes policy bytes := by
  have hsearch := search_eq disk policy name sources
  cases hfile : sources.findSome? (file? disk (name ++ classSuffix)) with
  | none =>
      rw [hfile] at hsearch
      exact absurd hsearch h
  | some bytes =>
      rw [hfile] at hsearch
      obtain ⟨s, hs, hbytes⟩ := List.exists_of_findSome?_eq_some hfile
      exact ⟨s, hs, bytes, hbytes, hsearch⟩

end Source

/-! ### Loaded classes -/

namespace ClassPath

variable {disk : Disk} {name : Text} {cp cp' cp'' : ClassPath}

/-- Every loaded class is the one that a search for its name finds. -/
def Faithful (disk : Disk) (cp : ClassPath) : Prop :=
  ∀ l ∈ cp.loaded, Source.search disk cp.policy l.name cp.sources = .ok (some l.content)

/-- If a class is loaded under the name, a search for it finds that class. -/
def FaithfulTo (disk : Disk) (name : Text) (cp : ClassPath) : Prop :=
  ∀ found, cp.loaded? name = some found →
    Source.search disk cp.policy name cp.sources = .ok (some found.2)

/-- A class is found among the loaded ones at its first place, if it is there at all. -/
theorem loaded?_eq_some_iff {position : Nat} {c : ClassFile} :
    cp.loaded? name = some (position, c) ↔
      cp.loaded.findIdx? (fun l => l.name = name) = some position ∧
        ∃ l, cp.loaded[position]? = some l ∧ l.content = c := by
  unfold loaded?
  simp only [Option.bind_eq_bind, Option.bind_eq_some_iff, Option.pure_def, Option.some.injEq,
    Prod.mk.injEq]
  constructor
  · rintro ⟨k, hk, l, hl, rfl, rfl⟩
    exact ⟨hk, l, hl, rfl⟩
  · rintro ⟨hk, l, hl, rfl⟩
    exact ⟨position, hk, l, hl, rfl, rfl⟩

theorem mem_of_loaded? {position : Nat} {c : ClassFile}
    (h : cp.loaded? name = some (position, c)) : ⟨name, c⟩ ∈ cp.loaded := by
  obtain ⟨hposition, l, hl, rfl⟩ := loaded?_eq_some_iff.mp h
  obtain ⟨hlt, hname, -⟩ := List.findIdx?_eq_some_iff_getElem.mp hposition
  rw [List.getElem?_eq_getElem hlt, Option.some.injEq] at hl
  subst hl
  have hname : cp.loaded[position].name = name := by simpa using hname
  rw [← hname]
  exact List.getElem_mem hlt

theorem Faithful.to (h : cp.Faithful disk) (name : Text) : cp.FaithfulTo disk name :=
  fun _ hfound => h _ (mem_of_loaded? hfound)

/-- A class stays where it was loaded. -/
theorem loaded?_of_append {found : Nat × ClassFile} {more : List LoadedClass}
    (h : cp.loaded? name = some found) (hmore : cp'.loaded = cp.loaded ++ more) :
    cp'.loaded? name = some found := by
  obtain ⟨position, c⟩ := found
  obtain ⟨hposition, l, hl, hc⟩ := loaded?_eq_some_iff.mp h
  refine loaded?_eq_some_iff.mpr ⟨?_, l, ?_, hc⟩
  · rw [hmore, List.findIdx?_append, hposition]
    rfl
  · obtain ⟨hlt, -⟩ := List.getElem?_eq_some_iff.mp hl
    rw [hmore, List.getElem?_append_left hlt]
    exact hl

theorem findIdx?_of_not_loaded (h : cp.loaded? name = none) :
    cp.loaded.findIdx? (fun l => l.name = name) = none := by
  cases hposition : cp.loaded.findIdx? (fun l => l.name = name) with
  | none => rfl
  | some position =>
      obtain ⟨hlt, -⟩ := List.findIdx?_eq_some_iff_getElem.mp hposition
      have hloaded := loaded?_eq_some_iff.mpr
        ⟨hposition, _, List.getElem?_eq_getElem hlt, rfl⟩
      rw [h] at hloaded
      cases hloaded

/-- A class that is loaded as a new one is found there from then on. -/
theorem loaded?_of_new {c : ClassFile} (h : cp.loaded? name = none)
    (hnew : cp'.loaded = cp.loaded ++ [⟨name, c⟩]) :
    cp'.loaded? name = some (cp.loaded.length, c) := by
  refine loaded?_eq_some_iff.mpr ⟨?_, ⟨name, c⟩, ?_, rfl⟩
  · rw [hnew, List.findIdx?_append, findIdx?_of_not_loaded h]
    simp
  · rw [hnew]
    simp

/-! ### One look-up -/

/-- The ways in which a look-up can end. -/
inductive Finds (disk : Disk) (name : Text) (cp : ClassPath) :
    Except Fault (Option (Nat × ClassFile) × ClassPath) → Prop where
  | loaded {position : Nat} {c : ClassFile} (h : cp.loaded? name = some (position, c)) :
      Finds disk name cp (.ok (some (position, c), cp))
  | nowhere (hsearch : Source.search disk cp.policy name cp.sources = .ok none) :
      Finds disk name cp (.ok (none, cp))
  | new {c : ClassFile} (h : cp.loaded? name = none)
      (hsearch : Source.search disk cp.policy name cp.sources = .ok (some c)) :
      Finds disk name cp
        (.ok (some (cp.loaded.length, c), { cp with loaded := cp.loaded ++ [⟨name, c⟩] }))
  | unreadable {e : Fault} (hsearch : Source.search disk cp.policy name cp.sources = .error e) :
      Finds disk name cp (.error e)

theorem find_finds (disk : Disk) (name : Text) (cp : ClassPath) :
    Finds disk name cp (cp.find disk name) := by
  have hsearch := Source.search_eq disk cp.policy name cp.sources
  unfold find
  cases hloaded : cp.loaded? name with
  | some found => exact .loaded hloaded
  | none =>
      cases hfile : cp.file? disk name with
      | none =>
          rw [show cp.sources.findSome? _ = none from hfile] at hsearch
          exact .nowhere hsearch
      | some bytes =>
          rw [show cp.sources.findSome? _ = some bytes from hfile] at hsearch
          change Source.search disk cp.policy name cp.sources =
            some <$> ClassFile.ofBytes cp.policy bytes at hsearch
          change Finds disk name cp (ClassFile.ofBytes cp.policy bytes >>= fun c =>
            pure (some (cp.loaded.length, c), { cp with loaded := cp.loaded ++ [⟨name, c⟩] }))
          cases hread : ClassFile.ofBytes cp.policy bytes with
          | ok c =>
              rw [hread] at hsearch
              exact .new hloaded hsearch
          | error e =>
              rw [hread] at hsearch
              exact .unreadable hsearch

/-! ### Class paths that grow -/

/-- The second class path has more sources at its end, and maybe more loaded classes. -/
structure Grows (disk : Disk) (added : List Source) (cp cp' : ClassPath) : Prop where
  policy : cp'.policy = cp.policy
  sources : cp'.sources = cp.sources ++ added
  loaded : ∃ more, cp'.loaded = cp.loaded ++ more
  faithful : cp.Faithful disk → cp'.Faithful disk

namespace Grows

variable {added added' : List Source}

theorem refl (disk : Disk) (cp : ClassPath) : cp.Grows disk [] cp :=
  ⟨rfl, (List.append_nil _).symm, ⟨[], (List.append_nil _).symm⟩, id⟩

theorem trans (h : cp.Grows disk added cp') (h' : cp'.Grows disk added' cp'') :
    cp.Grows disk (added ++ added') cp'' := by
  obtain ⟨more, hmore⟩ := h.loaded
  obtain ⟨more', hmore'⟩ := h'.loaded
  refine ⟨h'.policy.trans h.policy, ?_, ⟨more ++ more', ?_⟩, h'.faithful ∘ h.faithful⟩
  · rw [h'.sources, h.sources, List.append_assoc]
  · rw [hmore', hmore, List.append_assoc]

/-- With one more source, what is loaded is still what a search finds. -/
theorem source (disk : Disk) (cp : ClassPath) (s : Source) :
    cp.Grows disk [s] { cp with sources := cp.sources ++ [s] } := by
  refine ⟨rfl, rfl, ⟨[], (List.append_nil _).symm⟩, fun hcp l hl => ?_⟩
  have hfound := hcp l hl
  refine (Source.search_append_of_found ?_).trans hfound
  rw [hfound]
  intro h
  cases h

/-- With one more class that a search has found, what is loaded is what a search finds. -/
theorem load {c : ClassFile}
    (h : Source.search disk cp.policy name cp.sources = .ok (some c)) :
    cp.Grows disk [] { cp with loaded := cp.loaded ++ [⟨name, c⟩] } := by
  refine ⟨rfl, (List.append_nil _).symm, ⟨_, rfl⟩, fun hcp l hl => ?_⟩
  rcases List.mem_append.mp hl with hl | hl
  · exact hcp l hl
  · obtain rfl := List.mem_singleton.mp hl
    exact h

end Grows

end ClassPath

end ClassFormat
