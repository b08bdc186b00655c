/-
Listed names, and what is found under them.

An archive lists the names of its files, so each of them can be looked up.  A directory lists
whatever ends like a class file, a directory among it, and a directory is nothing that can be
read.  This is the only difference between the two: under a listed name nothing is found exactly
if there is nothing but directories under it, in every source that lists it.

A name that a directory lists is the way down to an item, written with slashes (`IsWay`).  The
same way leads to the item again when the name is looked up, provided that the disk is a tree.
-/
import ClassFormat.Proofs.ClassPath.Runs
import ClassFormat.Proofs.ClassPath.Tree

namespace ClassFormat

namespace Source

variable {disk : Disk} {name : Text} {here way : Location} {item : Item} {source : Source}
  {entries : List ArchiveEntry}

/-! ### Archives -/

/-- An archive lists a name exactly if it holds its file. -/
theorem mem_classNames_archive :
    name ∈ (archive entries).classNames disk ↔
      (archive entries).file? disk (name ++ classSuffix) ≠ none := by
  have hfile : (archive entries).file? disk (name ++ classSuffix) ≠ none ↔
      ∃ e ∈ entries, e.name = name ++ classSuffix := by
    simp [file?]
  rw [hfile, classNames, fileNames, List.mem_map]
  simp only [List.mem_filter, List.mem_map]
  constructor
  · rintro ⟨_, ⟨⟨e, he, rfl⟩, hending⟩, rfl⟩
    exact ⟨e, he, (Text.dropEnd_append hending).symm⟩
  · rintro ⟨e, he, hname⟩
    have hending : (e.name).endsIn classSuffix = true := by
      rw [hname]
      exact List.isSuffixOf_iff_suffix.mpr (List.suffix_append _ _)
    exact ⟨e.name, ⟨⟨e, he, rfl⟩, hending⟩, by rw [hname, Text.append_dropEnd]⟩

/-! ### Directories -/

/-- The file name of the class is a way down, written with slashes, and ends like one. -/
structure IsWay (name : Text) (way : Location) : Prop where
  named : ∀ n ∈ way, Path.IsFileName n
  nonempty : way ≠ []
  ending : (way.getLastD []).endsIn classSuffix = true
  file : name ++ classSuffix = .join "/" way

/-- Looking the name up follows the way. -/
theorem IsWay.resolve (h : IsWay name way) (here : Location) :
    disk.resolve here (.ofText (name ++ classSuffix)) = disk.follow here way := by
  rw [h.file, Path.ofText_join h.nonempty h.named]
  rfl

/-- A directory lists the ways down to the items below it that end like class files. -/
theorem mem_classNames_directory (hdisk : disk.IsTree) :
    name ∈ (directory here).classNames disk ↔
      ∃ way item, IsWay name way ∧ (here ++ way, item) ∈ disk.items := by
  rw [classNames, fileNames, List.mem_map]
  simp only [List.mem_map, List.mem_filter, Disk.below, List.mem_filterMap]
  constructor
  · rintro ⟨_, ⟨way, ⟨⟨⟨location, item⟩, hmem, hbelow⟩, hending⟩, rfl⟩, rfl⟩
    obtain ⟨hwithin, hway⟩ : (here.isPrefixOf location && here != location) = true ∧
        location.drop here.length = way := by simpa using hbelow
    simp only [Bool.and_eq_true, List.isPrefixOf_iff_prefix, bne_iff_ne] at hwithin
    obtain ⟨⟨rest, rfl⟩, hne⟩ := hwithin
    obtain rfl : rest = way := by simpa using hway
    have hnonempty : rest ≠ [] := by simpa using hne
    exact ⟨rest, item, ⟨fun n hn => hdisk.named _ hmem n (List.mem_append_right here hn),
      hnonempty, hending, Text.dropEnd_append (Text.endsIn_join hending hnonempty)⟩, hmem⟩
  · rintro ⟨way, item, hway, hmem⟩
    have hbelow : (here.isPrefixOf (here ++ way) && here != here ++ way) = true := by
      simp [hway.nonempty]
    refine ⟨_, ⟨way, ⟨⟨(here ++ way, item), hmem, ?_⟩, hway.ending⟩, rfl⟩, ?_⟩
    · rw [if_pos hbelow, List.drop_left]
    · rw [← hway.file, Text.append_dropEnd]

/-- Under the name the source has a directory. -/
def HasDirectory (disk : Disk) (name : Text) : Source → Prop
  | archive _ => False
  | directory here => ∃ location, disk.resolve here (.ofText name) = .ok (location, .directory)

/-- A source that lists a name holds no file of it exactly if it has a directory there. -/
theorem file?_eq_none_iff_of_listed (hdisk : disk.IsTree) (h : name ∈ source.classNames disk) :
    source.file? disk (name ++ classSuffix) = none ↔
      source.HasDirectory disk (name ++ classSuffix) := by
  cases source with
  | archive entries =>
      exact iff_of_false (mem_classNames_archive.mp h) id
  | directory here =>
      obtain ⟨way, item, hway, hmem⟩ := (mem_classNames_directory hdisk).mp h
      have hleads := hdisk.follow_of_mem hway.nonempty hmem
      rw [file?, HasDirectory, hway.resolve, hleads]
      cases item <;> simp

/-- A file that is found by a way down is listed. -/
theorem IsWay.listed (h : IsWay name way) (hdisk : disk.IsTree)
    (hfile : source.file? disk (name ++ classSuffix) ≠ none) : name ∈ source.classNames disk := by
  cases source with
  | archive entries => exact mem_classNames_archive.mpr hfile
  | directory here =>
      refine (mem_classNames_directory hdisk).mpr ?_
      rw [file?, h.resolve] at hfile
      have hup : ∀ n ∈ way, n ≠ Disk.up := fun n hn => (h.named n hn).up
      cases hleads : disk.follow here way with
      | error e => simp [hleads] at hfile
      | ok found =>
          obtain ⟨location, item⟩ := found
          have hitem : item ≠ .directory := by
            rintro rfl
            simp [hleads] at hfile
          exact ⟨way, item, h, Disk.mem_of_follow hup hleads hitem⟩

/--
If one of the sources lists a name, none holds a file of it exactly if those that list it have
directories there.
-/
theorem forall_file?_eq_none_iff (hdisk : disk.IsTree) {sources : List Source}
    (h : ∃ s ∈ sources, name ∈ s.classNames disk) :
    (∀ s ∈ sources, s.file? disk (name ++ classSuffix) = none) ↔
      ∀ s ∈ sources, name ∈ s.classNames disk → s.HasDirectory disk (name ++ classSuffix) := by
  constructor
  · intro hnone s hs hlisted
    exact (file?_eq_none_iff_of_listed hdisk hlisted).mp (hnone s hs)
  · intro hdirectory s hs
    by_contra hfile
    obtain ⟨lister, hlister, hlisted⟩ := h
    have hthere := hdirectory lister hlister hlisted
    cases lister with
    | archive entries => exact hthere
    | directory here =>
        obtain ⟨way, -, hway, -⟩ := (mem_classNames_directory hdisk).mp hlisted
        have hlisted := hway.listed hdisk hfile
        exact hfile ((file?_eq_none_iff_of_listed hdisk hlisted).mpr (hdirectory s hs hlisted))

end Source

/-! ### Runs -/

/-- A class path lists what its sources list, if it is in the package. -/
theorem ClassPath.mem_names_iff {disk : Disk} {package : Option Text} {cp : ClassPath}
    {name : Text} :
    name ∈ cp.names disk package ↔
      (∃ s ∈ cp.sources, name ∈ s.classNames disk) ∧
        package.all (packageOf name = ·) = true := by
  have hfound : name ∈ cp.classNames disk package ↔
      (∃ s ∈ cp.sources, name ∈ s.classNames disk) ∧
        package.all (packageOf name = ·) = true := by
    rw [ClassPath.classNames, List.mem_eraseDups, List.mem_filter, List.mem_flatMap]
  rw [← hfound, ClassPath.names]
  by_cases hsorted : cp.sources.any Source.isDirectory = true
  · rw [if_pos hsorted, List.mem_mergeSort]
  · rw [if_neg hsorted]

namespace Operation

variable {disk : Disk} {policy : ReadPolicy} {run : List Operation} {i j : Nat}

/-- A source that was added before a position is there at every later one. -/
theorem mem_sourcesAdded_of_le (hij : i ≤ j) {s : Source}
    (h : s ∈ sourcesAdded disk (run.take i)) : s ∈ sourcesAdded disk (run.take j) := by
  obtain ⟨operation, hoperation, hsource⟩ := List.mem_filterMap.mp h
  have hprefix : run.take i <+: run.take j := List.take_prefix_take_left hij
  exact List.mem_filterMap.mpr ⟨operation, hprefix.subset hoperation, hsource⟩

theorem answers_names {package : Option Text} (hlist : run[i]? = some (.names package)) :
    (answers disk policy run)[i]? =
      some (.listed ((before disk policy run i).names disk package)) :=
  getElem?_answers hlist

/-- What is listed at a position are the names in the sources that were added before it. -/
theorem mem_listed_iff (h : ∀ operation ∈ run, operation.KeepsOpen) {package : Option Text}
    {name : Text} :
    name ∈ (before disk policy run i).names disk package ↔
      (∃ s ∈ sourcesAdded disk (run.take i), name ∈ s.classNames disk) ∧
        package.all (ClassPath.packageOf name = ·) = true := by
  obtain ⟨-, hsources, -⟩ : _ ∧ (before disk policy run i).sources = _ ∧ _ := before_eq h i
  rw [ClassPath.mem_names_iff, hsources]

/--
**A listed name is not found exactly if it is the name of directories only.**  Otherwise the
look-up answers with what is read from a file of the name, a class or the fault of the file.
-/
theorem answers_find_listed (disk : Disk) (policy : ReadPolicy) (run : List Operation)
    (hdisk : disk.IsTree) (h : ∀ operation ∈ run, operation.KeepsOpen) (i j : Nat) (hij : i < j)
    (package : Option Text) (listed : List Text) (name : Text)
    (hlist : run[i]? = some (.names package))
    (hlisted : (answers disk policy run)[i]? = some (.listed listed)) (hname : name ∈ listed)
    (hfind : run[j]? = some (find name)) :
    ((answers disk policy run)[j]? = some (.found none) ↔
      ∀ s ∈ sourcesAdded disk (run.take j), name ∈ s.classNames disk →
        s.HasDirectory disk (name ++ classSuffix)) ∧
    ((answers disk policy run)[j]? ≠ some (.found none) →
      ∃ s ∈ sourcesAdded disk (run.take j), ∃ bytes,
        s.file? disk (name ++ classSuffix) = some bytes ∧
          (answers disk policy run)[j]?.bind Answer.lookup? =
            some (some <$> ClassFile.ofBytes policy bytes)) := by
  have hlister : ∃ s ∈ sourcesAdded disk (run.take j), name ∈ s.classNames disk := by
    rw [answers_names hlist, Option.some.injEq] at hlisted
    cases hlisted
    obtain ⟨⟨s, hs, hmem⟩, -⟩ := (mem_listed_iff h).mp hname
    exact ⟨s, mem_sourcesAdded_of_le (Nat.le_of_lt hij) hs, hmem⟩
  have hvain : (answers disk policy run)[j]? = some (.found none) ↔
      ∀ s ∈ sourcesAdded disk (run.take j), s.file? disk (name ++ classSuffix) = none :=
    answers_find_none_iff h hfind
  refine ⟨hvain.trans (Source.forall_file?_eq_none_iff hdisk hlister), fun hfound => ?_⟩
  rw [Ne, hvain, ← Source.search_eq_none_iff] at hfound
  obtain ⟨s, hs, bytes, hbytes, hsearch⟩ := Source.exists_file_of_search hfound
  refine ⟨s, hs, bytes, hbytes, ?_⟩
  rw [answers_find h hfind, hsearch]

/-- A directory in which one name is that of a file, and one that of a directory. -/
def cabinet : Disk :=
  ⟨[(["classes"], .directory), (["classes", "A.class"], .file [0, 0, 0, 0]),
    (["classes", "B.class"], .directory), (["classes", "B.class", "readme"], .file [])]⟩

/-- **What is listed is not always found**: a directory can be named as a class file is. -/
theorem listed_not_found :
    let run := [add (.ofText "classes"), names none, find "B"]
    cabinet.IsTree ∧ (∀ operation ∈ run, operation.KeepsOpen) ∧
      ∃ listed, (answers cabinet .standard run)[1]? = some (.listed listed) ∧
        ("B" : Text) ∈ listed ∧ (answers cabinet .standard run)[2]? = some (.found none) := by
  intro run
  have hopen : ∀ operation ∈ run, operation.KeepsOpen := by simp [run, KeepsOpen]
  refine ⟨by decide +kernel, hopen, _, answers_names rfl, (mem_listed_iff hopen).mpr ?_,
    (answers_find_none_iff hopen rfl).mpr ?_⟩
  · decide +kernel
  · decide +kernel

theorem answers_find_listed_cabinet :
    let run := [add (.ofText "classes"), names none, find "A", find "B"]
    let listed := (before cabinet .standard run 1).names cabinet none
    cabinet.IsTree ∧ (∀ operation ∈ run, operation.KeepsOpen) ∧ ("A" : Text) ∈ listed ∧
      ("B" : Text) ∈ listed ∧ (answers cabinet .standard run)[2]? ≠ some (.found none) ∧
      (answers cabinet .standard run)[3]? = some (.found none) := by
  intro run listed
  have htree : cabinet.IsTree := by decide +kernel
  have hopen : ∀ operation ∈ run, operation.KeepsOpen := by simp [run, KeepsOpen]
  have hA : ("A" : Text) ∈ listed := (mem_listed_iff hopen).mpr (by decide +kernel)
  have hB : ("B" : Text) ∈ listed := (mem_listed_iff hopen).mpr (by decide +kernel)
  obtain ⟨hfound, -⟩ := answers_find_listed cabinet .standard run htree hopen 1 2 (by decide) none
    listed "A" rfl (answers_names rfl) hA rfl
  obtain ⟨hvain, -⟩ := answers_find_listed cabinet .standard run htree hopen 1 3 (by decide) none
    listed "B" rfl (answers_names rfl) hB rfl
  have htwo : sourcesAdded cabinet (run.take 2) = [.directory ["classes"]] := rfl
  have hthree : sourcesAdded cabinet (run.take 3) = [.directory ["classes"]] := rfl
  rw [htwo, List.forall_mem_singleton] at hfound
  rw [hthree, List.forall_mem_singleton] at hvain
  refine ⟨htree, hopen, hA, hB, fun hnone => ?_, hvain.mpr fun _ => ⟨["classes", "B.class"], rfl⟩⟩
  obtain ⟨location, hlocation⟩ := hfound.mp hnone (by decide +kernel)
  cases hlocation

end Operation

end ClassFormat
