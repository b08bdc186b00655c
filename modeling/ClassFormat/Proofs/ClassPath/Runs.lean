/-
What the operations on a class path answer, in whatever order they come.

As long as nothing is closed, it makes no difference that a class path remembers the classes
that it has read.  Each look-up answers what a search through the sources would find that were
added before it, and operations that fail leave no trace.

An operation lets the class path grow (`run_grows`), so a run does, and so does each part of a
run.  That is used twice: from the start up to a look-up it keeps the loaded classes faithful,
and from one look-up to another it keeps them where they are.
-/
import ClassFormat.ClassPath.Session
import ClassFormat.Proofs.ClassFile.RoundTrip
import ClassFormat.Proofs.ClassPath.Search

namespace ClassFormat

/-- What a look-up answers, without the place of the class among the loaded ones. -/
def Answer.lookup? : Answer → Option (Except Fault (Option ClassFile))
  | found result => some (.ok (result.map Prod.snd))
  | unreadable fault => some (.error fault)
  | _ => none

theorem Answer.lookup?_eq_none_iff {answer : Answer} :
    answer.lookup? = some (.ok none) ↔ answer = .found none := by
  refine ⟨fun h => ?_, fun h => h ▸ rfl⟩
  cases answer with
  | found result =>
      cases result with
      | none => rfl
      | some found => cases h
  | _ => cases h

/-- The operation was refused, or it could not read a class. -/
def Answer.isFailure : Answer → Bool
  | refused _ | unreadable _ => true
  | _ => false

namespace Operation

/-- The operation closes nothing. -/
def KeepsOpen : Operation → Prop
  | add _ | find _ | names _ => True
  | close | block _ => False

/-- The source that the operation adds, if it adds one. -/
def added? (disk : Disk) : Operation → Option Source
  | add path => (Source.ofPath disk path).toOption
  | _ => none

/-- The sources that a run adds; operations that fail add none. -/
def sourcesAdded (disk : Disk) (run : List Operation) : List Source :=
  run.filterMap (added? disk)

/-- The answers to a run on a new class path. -/
def answers (disk : Disk) (policy : ReadPolicy) (run : List Operation) : List Answer :=
  (runAll disk run (.empty policy)).1

/-- The class path that the operation at a position of a run works on. -/
def before (disk : Disk) (policy : ReadPolicy) (run : List Operation) (i : Nat) : ClassPath :=
  (runAll disk (run.take i) (.empty policy)).2

variable {disk : Disk} {policy : ReadPolicy} {operation : Operation} {run : List Operation}
  {name : Text} {found : Nat × ClassFile} {cp : ClassPath} {i j : Nat}

theorem sourcesAdded_cons (disk : Disk) (operation : Operation) (run : List Operation) :
    sourcesAdded disk (operation :: run) =
      (operation.added? disk).toList ++ sourcesAdded disk run := by
  unfold sourcesAdded
  cases h : operation.added? disk with
  | none => rw [List.filterMap_cons_none h, Option.toList_none, List.nil_append]
  | some source => rw [List.filterMap_cons_some h, Option.toList_some, List.singleton_append]

/-! One operation. -/

/-- An operation that closes nothing lets the class path grow by what it adds. -/
theorem run_grows (h : operation.KeepsOpen) :
    cp.Grows disk (operation.added? disk).toList (operation.run disk cp).2 := by
  cases operation with
  | add path =>
      unfold Operation.run ClassPath.addPath added?
      dsimp only
      cases Source.ofPath disk path with
      | ok source => exact .source disk cp source
      | error e => exact .refl disk cp
  | find name =>
      have hfinds := cp.find_finds disk name
      unfold Operation.run
      generalize cp.find disk name = result at hfinds
      cases hfinds with
      | loaded => exact .refl disk cp
      | nowhere => exact .refl disk cp
      | new _ hsearch => exact .load hsearch
      | unreadable => exact .refl disk cp
  | names package => exact .refl disk cp
  | close => exact absurd h id
  | block operations => exact absurd h id

/-- As long as what is loaded under the name is what a search finds, so is the answer. -/
theorem run_find_lookup? (h : cp.FaithfulTo disk name) :
    ((find name).run disk cp).1.lookup? =
      some (Source.search disk cp.policy name cp.sources) := by
  have hfinds := cp.find_finds disk name
  unfold Operation.run
  generalize cp.find disk name = result at hfinds
  cases hfinds with
  | loaded hloaded => exact congrArg some (h _ hloaded).symm
  | nowhere hsearch => exact congrArg some hsearch.symm
  | new _ hsearch => exact congrArg some hsearch.symm
  | unreadable hsearch => exact congrArg some hsearch.symm

/-- A class that a look-up gives is loaded afterwards. -/
theorem loaded?_of_run_find (h : ((find name).run disk cp).1 = .found (some found)) :
    ((find name).run disk cp).2.loaded? name = some found := by
  have hfinds := cp.find_finds disk name
  unfold Operation.run at h ⊢
  generalize cp.find disk name = result at hfinds h
  cases hfinds with
  | loaded hloaded =>
      cases h
      exact hloaded
  | nowhere => cases h
  | new hloaded =>
      cases h
      exact ClassPath.loaded?_of_new hloaded rfl
  | unreadable => cases h

theorem run_find_of_loaded? (h : cp.loaded? name = some found) :
    (find name).run disk cp = (.found (some found), cp) := by
  unfold Operation.run ClassPath.find
  rw [h]

/-- An operation that fails leaves no trace. -/
theorem run_of_isFailure (h : (operation.run disk cp).1.isFailure) :
    (operation.run disk cp).2 = cp := by
  cases operation with
  | add path =>
      unfold Operation.run at h ⊢
      generalize cp.addPath disk path = result at h
      cases result with
      | ok => cases h
      | error => rfl
  | find name =>
      unfold Operation.run at h ⊢
      generalize cp.find disk name = result at h
      cases result with
      | ok => cases h
      | error => rfl
  | _ =>
      unfold Operation.run at h
      cases h

/-! A run, and its operations one after the other. -/

theorem runAll_grows (h : ∀ operation ∈ run, operation.KeepsOpen) :
    cp.Grows disk (sourcesAdded disk run) (runAll disk run cp).2 := by
  induction run generalizing cp with
  | nil => exact .refl disk cp
  | cons operation rest ih =>
      obtain ⟨hoperation, hrest⟩ := List.forall_mem_cons.mp h
      rw [sourcesAdded_cons]
      exact (run_grows hoperation).trans (ih hrest)

theorem runAll_append (disk : Disk) (run rest : List Operation) (cp : ClassPath) :
    (runAll disk (run ++ rest) cp).2 = (runAll disk rest (runAll disk run cp).2).2 := by
  induction run generalizing cp with
  | nil => rfl
  | cons operation run ih => exact ih (operation.run disk cp).2

theorem getElem?_runAll (disk : Disk) (run : List Operation) (cp : ClassPath) (i : Nat) :
    (runAll disk run cp).1[i]? =
      run[i]?.map fun operation =>
        (operation.run disk (runAll disk (run.take i) cp).2).1 := by
  induction run generalizing cp i with
  | nil => rfl
  | cons operation rest ih =>
      cases i with
      | zero => rfl
      | succ i => exact ih (operation.run disk cp).2 i

/-- Each operation is answered on the class path that the operations before it have left. -/
theorem getElem?_answers (h : run[i]? = some operation) :
    (answers disk policy run)[i]? = some (operation.run disk (before disk policy run i)).1 := by
  unfold answers
  rw [getElem?_runAll, h]
  rfl

theorem before_succ (h : run[i]? = some operation) :
    before disk policy run (i + 1) = (operation.run disk (before disk policy run i)).2 := by
  unfold before
  rw [List.take_add_one, h, runAll_append]
  rfl

/-- In a run that closes nothing, the class path never does anything but grow. -/
theorem before_grows (h : ∀ operation ∈ run, operation.KeepsOpen) (hij : i ≤ j) :
    (before disk policy run i).Grows disk (sourcesAdded disk ((run.take j).drop i))
      (before disk policy run j) := by
  have hsplit : run.take i ++ (run.take j).drop i = run.take j := by
    have hsplit := List.take_append_drop i (run.take j)
    rwa [List.take_take, Nat.min_eq_left hij] at hsplit
  have hbefore : before disk policy run j =
      (runAll disk ((run.take j).drop i) (before disk policy run i)).2 := by
    unfold before
    rw [← runAll_append, hsplit]
  rw [hbefore]
  refine runAll_grows fun operation hoperation => h operation ?_
  exact List.mem_of_mem_take (List.mem_of_mem_drop hoperation)

/-- The operation at a position of a run works on the sources that were added before it. -/
theorem before_eq (h : ∀ operation ∈ run, operation.KeepsOpen) (i : Nat) :
    (before disk policy run i).policy = policy ∧
      (before disk policy run i).sources = sourcesAdded disk (run.take i) ∧
      (before disk policy run i).Faithful disk := by
  have hgrows : ClassPath.Grows disk _ (.empty policy) (before disk policy run i) :=
    runAll_grows fun operation hoperation => h operation (List.mem_of_mem_take hoperation)
  exact ⟨hgrows.policy, hgrows.sources, hgrows.faithful (List.forall_mem_nil _)⟩

/-- A look-up answers what a search gives in the sources that were added before it. -/
theorem answers_find (h : ∀ operation ∈ run, operation.KeepsOpen)
    (hfind : run[i]? = some (find name)) :
    (answers disk policy run)[i]?.bind Answer.lookup? =
      some (Source.search disk policy name (sourcesAdded disk (run.take i))) := by
  obtain ⟨hpolicy, hsources, hfaithful⟩ := before_eq h i
  rw [getElem?_answers hfind, Option.bind_some, run_find_lookup? (hfaithful.to name), hpolicy, hsources]

/-- A look-up is in vain exactly if none of the sources added before it holds the class. -/
theorem answers_find_none_iff (h : ∀ operation ∈ run, operation.KeepsOpen)
    (hfind : run[i]? = some (find name)) :
    (answers disk policy run)[i]? = some (.found none) ↔
      ∀ s ∈ sourcesAdded disk (run.take i), s.file? disk (name ++ classSuffix) = none := by
  have hanswer : (answers disk policy run)[i]?.bind Answer.lookup? = _ := answers_find h hfind
  rw [getElem?_answers hfind] at hanswer ⊢
  rw [Option.bind_some] at hanswer
  rw [Option.some.injEq, ← Answer.lookup?_eq_none_iff, hanswer, Option.some.injEq,
    Source.search_eq_none_iff]

/-- What was found once is found in the same place by every later look-up. -/
theorem answers_find_again (h : ∀ operation ∈ run, operation.KeepsOpen)
    (hfind : run[i]? = some (find name))
    (hfound : (answers disk policy run)[i]? = some (.found (some found)))
    (hij : i ≤ j) (hagain : run[j]? = some (find name)) :
    (answers disk policy run)[j]? = some (.found (some found)) := by
  rcases Nat.eq_or_lt_of_le hij with rfl | hij
  · exact hfound
  · rw [getElem?_answers hfind, Option.some.injEq] at hfound
    have hloaded : (before disk policy run (i + 1)).loaded? name = some found := by
      rw [before_succ hfind]
      exact loaded?_of_run_find hfound
    have hgrows : ClassPath.Grows disk _ (before disk policy run (i + 1))
        (before disk policy run j) := before_grows h hij
    obtain ⟨more, hmore⟩ := hgrows.loaded
    rw [getElem?_answers hagain,
      run_find_of_loaded? (ClassPath.loaded?_of_append hloaded hmore)]

/-- An operation that fails leaves the class path to the next one as it was. -/
theorem before_succ_of_isFailure (h : (answers disk policy run)[i]?.any Answer.isFailure) :
    before disk policy run (i + 1) = before disk policy run i := by
  cases hoperation : run[i]? with
  | none =>
      have hend : run.length ≤ i := List.getElem?_eq_none_iff.mp hoperation
      unfold before
      rw [List.take_of_length_le hend, List.take_of_length_le (Nat.le_succ_of_le hend)]
  | some operation =>
      rw [getElem?_answers hoperation] at h
      rw [before_succ hoperation, run_of_isFailure h]

/-- A source that was added before a position is one of the sources there. -/
theorem mem_sourcesAdded {path : Path} {source : Source} (hadd : run[i]? = some (add path))
    (hsource : Source.ofPath disk path = .ok source) (hij : i < j) :
    source ∈ sourcesAdded disk (run.take j) := by
  refine List.mem_filterMap.mpr ⟨add path, ?_, ?_⟩
  · rw [List.mem_iff_getElem?]
    exact ⟨i, by rw [List.getElem?_take_of_lt hij, hadd]⟩
  · exact congrArg Except.toOption hsource

/--
**A class path that closes nothing answers as if it remembered nothing.**  A look-up answers
what a search anew through the sources added so far would find, and it is in vain exactly if
none of them holds a file of the name.  So a class that was found is found again, whatever is
added later, and once a source with a file of the name is added, the name is not looked up in
vain any more.  Operations that fail leave the class path as it was.
-/
theorem answers_transparent (disk : Disk) (policy : ReadPolicy) (run : List Operation)
    (h : ∀ operation ∈ run, operation.KeepsOpen) :
    (∀ (i : Nat) (name : Text), run[i]? = some (find name) →
      (answers disk policy run)[i]?.bind Answer.lookup? =
        some (Source.search disk policy name (sourcesAdded disk (run.take i)))) ∧
    (∀ (i : Nat) (name : Text), run[i]? = some (find name) →
      ((answers disk policy run)[i]? = some (.found none) ↔
        ∀ s ∈ sourcesAdded disk (run.take i), s.file? disk (name ++ classSuffix) = none)) ∧
    (∀ (i j : Nat) (name : Text) (found : Nat × ClassFile), i ≤ j →
      run[i]? = some (find name) → run[j]? = some (find name) →
      (answers disk policy run)[i]? = some (.found (some found)) →
      (answers disk policy run)[j]? = some (.found (some found))) ∧
    (∀ (i j : Nat) (name : Text) (path : Path) (source : Source), i < j →
      run[i]? = some (add path) → Source.ofPath disk path = .ok source →
      source.file? disk (name ++ classSuffix) ≠ none → run[j]? = some (find name) →
      (answers disk policy run)[j]? ≠ some (.found none)) ∧
    ∀ i : Nat, ((answers disk policy run)[i]?.any Answer.isFailure) →
      before disk policy run (i + 1) = before disk policy run i := by
  refine ⟨fun i name => answers_find h, fun i name => answers_find_none_iff h, ?again, ?added,
    fun i => before_succ_of_isFailure⟩
  case again =>
    intro i j name found hij hfind hagain hfound
    exact answers_find_again h hfind hfound hij hagain
  case added =>
    intro i j name path source hij hadd hsource hfile hfind hvain
    exact hfile ((answers_find_none_iff h hfind).mp hvain source
      (mem_sourcesAdded hadd hsource hij))

/-- A directory with a class in it, and an archive with two files that are no classes. -/
def shelf : Disk :=
  ⟨[(["classes"], .directory), (["classes", "A.class"], .file ClassFile.everyAttribute.encode),
    (["more.jar"], .archive [⟨"A.class", []⟩, ⟨"B.class", [0, 0, 0, 0]⟩])]⟩

theorem answers_transparent_shelf :
    let run := [find "A", add (.ofText "nowhere"), add (.ofText "classes"), find "A",
      add (.ofText "more.jar"), find "A", find "B"]
    let found := ClassFile.everyAttribute.view Annotation.merge
    (∀ operation ∈ run, operation.KeepsOpen) ∧
      (answers shelf .standard run)[0]? = some (.found none) ∧
      (answers shelf .standard run)[3]?.bind Answer.lookup? = some (.ok (some found)) ∧
      (answers shelf .standard run)[5]?.bind Answer.lookup? = some (.ok (some found)) ∧
      (answers shelf .standard run)[6]?.bind Answer.lookup? =
        some (.error ⟨.badMagic 0, some 0⟩) := by
  intro run found
  have hopen : ∀ operation ∈ run, operation.KeepsOpen := by simp [run, KeepsOpen]
  obtain ⟨hsearch, hvain, -⟩ := answers_transparent shelf .standard run hopen
  have hfile : (Source.directory ["classes"]).file? shelf ("A" ++ classSuffix) =
      some ClassFile.everyAttribute.encode := rfl
  have hfound (sources : List Source) :
      Source.search shelf .standard "A" (.directory ["classes"] :: sources) = .ok (some found) := by
    rw [Source.search_cons_of_some hfile, ClassFile.ofBytes_everyAttribute]
    rfl
  have hbad : ClassFile.ofBytes .standard [0, 0, 0, 0] = .error ⟨.badMagic 0, some 0⟩ := by
    decide +kernel
  refine ⟨hopen, (hvain 0 "A" rfl).mpr (List.forall_mem_nil _),
    (hsearch 3 "A" rfl).trans (congrArg some (hfound [])),
    (hsearch 5 "A" rfl).trans (congrArg some (hfound [_])),
    (hsearch 6 "B" rfl).trans (congrArg some ?_)⟩
  show some <$> ClassFile.ofBytes .standard [0, 0, 0, 0] = _
  rw [hbad]
  rfl

end Operation

end ClassFormat
