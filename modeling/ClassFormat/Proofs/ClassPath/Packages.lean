/-
The order of listed names, their packages, and what is not left out.

The names of the sources, one source after the other, are listed with the repeated ones left
out.  A name more at the end of them is listed last if it is new, and changes nothing if it is
not (`eraseDups_concat`).  So the names that are listed stand in the order in which they come up
first, and it makes no difference whether the names of a package are picked before or after the
repeated ones are left out.

Every name belongs to one package, since there is one way to cut it at its last slash.  And a name
under which something is found is listed, if it is spelled as the ways down a disk are.
-/
import ClassFormat.Proofs.ClassPath.Listing
import Mathlib.Data.List.Induction

namespace ClassFormat

/-! ### First occurrences -/

section FirstOccurrence

variable {α : Type} [BEq α] [LawfulBEq α]

/-- One more value counts if it is new. -/
theorem eraseDups_concat (xs : List α) (a : α) :
    (xs ++ [a]).eraseDups = if a ∈ xs then xs.eraseDups else xs.eraseDups ++ [a] := by
  rw [List.eraseDups_append]
  by_cases h : a ∈ xs
  · simp [List.removeAll, h]
  · simp [List.removeAll, List.eraseDups_cons, h]

theorem nodup_eraseDups (xs : List α) : xs.eraseDups.Nodup := by
  induction xs using List.reverseRecOn with
  | nil => exact List.nodup_nil
  | append_singleton xs a ih =>
      rw [eraseDups_concat]
      by_cases h : a ∈ xs
      · rwa [if_pos h]
      · rw [if_neg h, ← List.concat_eq_append, List.nodup_concat]
        exact ⟨fun hmem => h (List.mem_eraseDups.mp hmem), ih⟩

/-- Picking values and leaving out the repeated ones can be done in either order. -/
theorem eraseDups_filter (p : α → Bool) (xs : List α) :
    (xs.filter p).eraseDups = xs.eraseDups.filter p := by
  induction xs using List.reverseRecOn with
  | nil => rfl
  | append_singleton xs a ih =>
      rw [List.filter_append, eraseDups_concat]
      cases hp : p a with
      | false =>
          rw [List.filter_cons_of_neg (by simp [hp]), List.filter_nil, List.append_nil, ih]
          by_cases h : a ∈ xs
          · rw [if_pos h]
          · simp [if_neg h, hp]
      | true =>
          rw [List.filter_cons_of_pos hp, List.filter_nil, eraseDups_concat, ih]
          by_cases h : a ∈ xs
          · rw [if_pos h, if_pos (List.mem_filter.mpr ⟨h, hp⟩)]
          · rw [if_neg h, if_neg fun hmem => h (List.mem_of_mem_filter hmem)]
            simp [hp]

/-- The values stand in the order in which they come up first. -/
theorem pairwise_eraseDups (xs : List α) :
    xs.eraseDups.Pairwise fun a b => xs.idxOf a < xs.idxOf b := by
  induction xs using List.reverseRecOn with
  | nil => exact .nil
  | append_singleton xs a ih =>
      have hxs : xs.eraseDups.Pairwise fun b b' => (xs ++ [a]).idxOf b < (xs ++ [a]).idxOf b' := by
        refine ih.imp_of_mem fun hb hb' hlt => ?_
        rwa [List.idxOf_append_of_mem (List.mem_eraseDups.mp hb),
          List.idxOf_append_of_mem (List.mem_eraseDups.mp hb')]
      rw [eraseDups_concat]
      by_cases h : a ∈ xs
      · rwa [if_pos h]
      · rw [if_neg h, List.pairwise_append]
        refine ⟨hxs, List.pairwise_singleton _ _, fun b hb b' hb' => ?_⟩
        obtain rfl := List.mem_singleton.mp hb'
        have hmem : b ∈ xs := List.mem_eraseDups.mp hb
        rw [List.idxOf_append_of_mem hmem, List.idxOf_append, if_neg h]
        have hlt : xs.idxOf b < xs.length := List.idxOf_lt_length_iff.mpr hmem
        omega

end FirstOccurrence

/-! ### Packages -/

namespace Text

/-- The text stands before the last slash of a name; it is empty for a name without slashes. -/
def IsPackageOf (package name : Text) : Prop :=
  (package = [] ∧ CodePoint.scalar '/' ∉ name) ∨
    ∃ simple, CodePoint.scalar '/' ∉ simple ∧ name = package ++ CodePoint.scalar '/' :: simple

end Text

/-- The package of a name is the one text that stands before its last slash. -/
theorem ClassPath.packageOf_eq_iff {name package : Text} :
    packageOf name = package ↔ package.IsPackageOf name := by
  unfold packageOf
  by_cases hslash : CodePoint.scalar '/' ∈ name
  · obtain ⟨before, after, hafter, rfl⟩ := Text.exists_last hslash
    rw [Text.splitLast_append hafter]
    refine ⟨?_, ?_⟩
    · rintro rfl
      exact .inr ⟨after, hafter, rfl⟩
    · rintro (⟨-, hnone⟩ | ⟨simple, hsimple, hname⟩)
      · exact absurd hslash hnone
      · have hsplit := congrArg (Text.splitLast (.scalar '/')) hname
        rw [Text.splitLast_append hafter, Text.splitLast_append hsimple] at hsplit
        exact congrArg Prod.fst hsplit
  · rw [Text.splitLast_of_not_mem hslash]
    refine ⟨?_, ?_⟩
    · rintro rfl
      exact .inl ⟨rfl, hslash⟩
    · rintro (⟨rfl, -⟩ | ⟨simple, -, rfl⟩)
      · rfl
      · exact absurd (by simp) hslash

instance (package name : Text) : Decidable (package.IsPackageOf name) :=
  decidable_of_iff _ ClassPath.packageOf_eq_iff

/-! ### Names that are found -/

namespace Source

theorem join_concat_append (separator ending : Text) (names : List Text) (last : Text) :
    Text.join separator (names ++ [last]) ++ ending =
      Text.join separator (names ++ [last ++ ending]) := by
  cases names with
  | nil => simp [Text.join_cons]
  | cons name names => simp [Text.join_cons]

/-- A file name can have the ending of class files put to it. -/
theorem isFileName_append {name : Text} (h : Path.IsFileName name) :
    Path.IsFileName (name ++ classSuffix) := by
  have hlength : classSuffix.length < (name ++ classSuffix).length := by
    have hpositive : 0 < name.length := List.length_pos_iff.mpr h.nonempty
    rw [List.length_append]
    omega
  refine ⟨?nonempty, ?idle, ?up, ?slash⟩
  case nonempty => exact List.append_ne_nil_of_left_ne_nil h.nonempty _
  case idle =>
    intro hidle
    rw [hidle] at hlength
    exact absurd hlength (by decide)
  case up =>
    intro hup
    rw [hup] at hlength
    exact absurd hlength (by decide)
  case slash =>
    rw [List.mem_append, not_or]
    exact ⟨h.slash, by decide⟩

/-- A name of segments that are names for files is the name of a class on a way down. -/
theorem exists_isWay {segments : List Text} (hne : segments ≠ [])
    (h : ∀ s ∈ segments, Path.IsFileName s) : ∃ way, IsWay (.join "/" segments) way := by
  obtain ⟨names, last, rfl⟩ := (List.eq_nil_or_concat' segments).resolve_left hne
  obtain ⟨hnames, hlast⟩ := List.forall_mem_append.mp h
  refine ⟨names ++ [last ++ classSuffix], ?named, by simp, ?ending, ?file⟩
  case named =>
    refine List.forall_mem_append.mpr ⟨hnames, List.forall_mem_singleton.mpr ?_⟩
    exact isFileName_append (List.forall_mem_singleton.mp hlast)
  case ending =>
    rw [List.getLastD_concat]
    exact Text.endsIn_append last classSuffix
  case file => exact join_concat_append "/" classSuffix names last

end Source

namespace ClassPath

variable {disk : Disk} {cp : ClassPath}

/-- A look-up that does not come back with nothing has found a file, if nothing was loaded yet. -/
theorem exists_file_of_find {name : Text} (hloaded : cp.loaded = [])
    (h : ∀ cp', cp.find disk name ≠ .ok (none, cp')) :
    ∃ s ∈ cp.sources, s.file? disk (name ++ classSuffix) ≠ none := by
  by_contra hnone
  push Not at hnone
  have hfile : cp.file? disk name = none := List.findSome?_eq_none_iff.mpr hnone
  refine h cp ?_
  unfold find loaded?
  rw [hloaded, hfile]
  rfl

theorem classNames_none (disk : Disk) (cp : ClassPath) :
    cp.classNames disk none = (cp.sources.flatMap (Source.classNames disk)).eraseDups := by
  simp only [classNames, Option.all_none, List.filter_true]

theorem classNames_some (disk : Disk) (package : Text) (cp : ClassPath) :
    cp.classNames disk (some package) =
      (cp.classNames disk none).filter fun name => decide (package.IsPackageOf name) := by
  rw [classNames_none, ← eraseDups_filter, classNames]
  simp only [Option.all_some, packageOf_eq_iff]

/-- Sorting is all that is done to the names that are listed. -/
theorem names_perm (disk : Disk) (package : Option Text) (cp : ClassPath) :
    (cp.names disk package).Perm (cp.classNames disk package) := by
  unfold names
  dsimp only
  by_cases hsorted : cp.sources.any Source.isDirectory = true
  · rw [if_pos hsorted]
    exact List.mergeSort_perm _ _
  · rw [if_neg hsorted]

/--
**Every name is listed once, at its first place, in its package, and none is missing.**  The
names of the sources, one source after the other, are listed in the order in which they come up
first.  The names of a package are listed in the same order, and each listed name is in the
listing of one package.  Names are in the package that stands before their last slash.  A name
of segments that can be names on a disk is listed if a class path that has loaded nothing yet
does not look it up in vain.
-/
theorem classNames_exact (disk : Disk) (cp : ClassPath) (hdisk : disk.IsTree) :
    let found := cp.sources.flatMap (Source.classNames disk)
    let listed := cp.classNames disk none
    (listed.Nodup ∧ (∀ name, name ∈ listed ↔ name ∈ found) ∧
      listed.Pairwise fun a b => found.idxOf a < found.idxOf b) ∧
    (∀ package : Text, cp.classNames disk (some package) =
      listed.filter fun name => decide (package.IsPackageOf name)) ∧
    (∀ name ∈ listed, ∃ package, name ∈ cp.classNames disk (some package) ∧
      ∀ other, name ∈ cp.classNames disk (some other) → other = package) ∧
    (∀ package, (cp.names disk package).Perm (cp.classNames disk package)) ∧
    ∀ segments : List Text, segments ≠ [] → (∀ s ∈ segments, Path.IsFileName s) →
      (∀ cp', find disk (.join "/" segments) { cp with loaded := [] } ≠ .ok (none, cp')) →
      Text.join "/" segments ∈ listed := by
  intro found listed
  have hlisted : listed = found.eraseDups := cp.classNames_none disk
  have hmem (name : Text) : name ∈ listed ↔ name ∈ found := by
    rw [hlisted, List.mem_eraseDups]
  have hpackage (package name : Text) : name ∈ cp.classNames disk (some package) ↔
      name ∈ listed ∧ package.IsPackageOf name := by
    rw [classNames_some, List.mem_filter, decide_eq_true_eq]
  refine ⟨⟨?once, hmem, ?order⟩, fun package => cp.classNames_some disk package, ?partition,
    fun package => cp.names_perm disk package, ?complete⟩
  case once =>
    rw [hlisted]
    exact nodup_eraseDups found
  case order =>
    rw [hlisted]
    exact pairwise_eraseDups found
  case partition =>
    intro name hname
    refine ⟨packageOf name, (hpackage _ name).mpr ⟨hname, packageOf_eq_iff.mp rfl⟩, ?_⟩
    intro other hother
    exact (packageOf_eq_iff.mpr ((hpackage other name).mp hother).2).symm
  case complete =>
    intro segments hne hsegments hfind
    obtain ⟨way, hway⟩ := Source.exists_isWay hne hsegments
    obtain ⟨s, hs, hfile⟩ := exists_file_of_find rfl hfind
    exact (hmem _).mpr (List.mem_flatMap.mpr ⟨s, hs, hway.listed hdisk hfile⟩)

/-- Two archives that repeat names, around a directory. -/
theorem classNames_exact_repeated :
    let disk : Disk :=
      ⟨[(["classes"], .directory), (["classes", "p"], .directory),
        (["classes", "p", "A.class"], .file []), (["classes", "D.class"], .file [])]⟩
    let cp : ClassPath := ⟨.standard,
      [.archive [⟨"B.class", []⟩, ⟨"p/A.class", []⟩, ⟨"B.class", [0]⟩, ⟨"README", []⟩],
        .directory ["classes"], .archive [⟨"p/q/C.class", []⟩, ⟨"p/A.class", []⟩]], []⟩
    disk.IsTree ∧ cp.classNames disk none = ["B", "p/A", "D", "p/q/C"] ∧
      cp.classNames disk (some "p") = ["p/A"] ∧ ("p/q/C" : Text) ∈ cp.classNames disk none ∧
      (cp.classNames disk none).Nodup := by
  intro disk cp
  have htree : disk.IsTree := by decide +kernel
  obtain ⟨⟨hnodup, -, -⟩, hpackage, -, -, hcomplete⟩ := classNames_exact disk cp htree
  have hlisted : cp.classNames disk none = ["B", "p/A", "D", "p/q/C"] := by decide +kernel
  refine ⟨htree, hlisted, ?_, ?_, hnodup⟩
  · rw [hpackage, hlisted]
    decide +kernel
  · refine hcomplete ["p", "q", "C"] (by decide) (by decide) fun cp' hfind => ?_
    cases hfind

end ClassPath

end ClassFormat
