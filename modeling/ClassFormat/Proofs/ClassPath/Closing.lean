/-
Class paths that were closed, and what they still find.

Closing drops the archives among the sources and keeps the directories in their order.  It keeps
the loaded classes too, wherever they came from.  A class that was found before is therefore
found after closing as well, the same as before, even if no source that is left holds it or if
another one does.  All other look-ups answer as on a new class path that has the directories
for its sources.

For one call after the other, `loaded?_run` says which classes are loaded: those that were, and
the one that the call gives.  A run has therefore loaded exactly what it has found
(`loaded?_afterwards_iff`), and whether a look-up after closing is faithful to the directories
depends on nothing else.
-/
import ClassFormat.Proofs.ClassPath.Runs
import Mathlib.Data.List.Induction

namespace ClassFormat

namespace ClassPath

variable {disk : Disk} {name : Text} {cp cp' : ClassPath}

/-- A class path that has not loaded anything yet. -/
def fresh (policy : ReadPolicy) (sources : List Source) : ClassPath :=
  ⟨policy, sources, []⟩

theorem fresh_faithful (disk : Disk) (policy : ReadPolicy) (sources : List Source) :
    (fresh policy sources).Faithful disk :=
  List.forall_mem_nil _

/-- The sources that are no archives, in their order. -/
def directories (cp : ClassPath) : List Source :=
  cp.sources.filter Source.isDirectory

/-- Once closed, a class path has nothing left to be closed. -/
theorem directories_close (cp : ClassPath) : cp.close.directories = cp.close.sources := by
  show (cp.sources.filter _).filter _ = cp.sources.filter _
  simp [List.filter_filter]

theorem loaded?_congr (h : cp'.loaded = cp.loaded) : cp'.loaded? name = cp.loaded? name := by
  unfold loaded?
  rw [h]

/-- A class that is loaded under one name is not found under another. -/
theorem loaded?_of_new_ne {l : LoadedClass} (h : cp'.loaded = cp.loaded ++ [l])
    (hname : l.name ≠ name) : cp'.loaded? name = cp.loaded? name := by
  cases hloaded : cp.loaded? name with
  | some found => exact loaded?_of_append hloaded h
  | none =>
      have hposition : cp'.loaded.findIdx? (fun l => l.name = name) = none := by
        rw [h, List.findIdx?_append, findIdx?_of_not_loaded hloaded]
        simp [hname]
      unfold loaded?
      rw [hposition]
      rfl

end ClassPath

namespace Operation

variable {disk : Disk} {policy : ReadPolicy} {operation : Operation} {run : List Operation}
  {name : Text} {found : Nat × ClassFile} {cp : ClassPath} {i : Nat}

/-! ### One call -/

/-- The operation is a single call: it keeps the class path open, or it is the one to close it. -/
def IsCall (operation : Operation) : Prop :=
  operation.KeepsOpen ∨ operation = close

theorem policy_run (h : operation.IsCall) : (operation.run disk cp).2.policy = cp.policy := by
  rcases h with h | rfl
  · exact (run_grows h).policy
  · rfl

/-- The directories are those that were there and the one that is added. -/
theorem directories_run (h : operation.IsCall) :
    (operation.run disk cp).2.directories =
      cp.directories ++ (operation.added? disk).toList.filter Source.isDirectory := by
  rcases h with h | rfl
  · rw [ClassPath.directories, (run_grows h).sources, List.filter_append]
    rfl
  · exact (ClassPath.directories_close cp).trans (List.append_nil _).symm

/-- Only a look-up loads anything. -/
theorem loaded_run (h : operation.IsCall) (hfind : ∀ name, operation ≠ find name) :
    (operation.run disk cp).2.loaded = cp.loaded := by
  cases operation with
  | add path =>
      unfold Operation.run ClassPath.addPath
      cases Source.ofPath disk path <;> rfl
  | find name => exact absurd rfl (hfind name)
  | names package => rfl
  | close => rfl
  | block operations => simp [IsCall, KeepsOpen] at h

/-- After a look-up one class may be loaded that was not, and that is the one it gives. -/
theorem loaded?_run_find {other : Text} :
    ((find other).run disk cp).2.loaded? name = some found ↔
      cp.loaded? name = some found ∨
        other = name ∧ ((find other).run disk cp).1 = .found (some found) := by
  have hfinds := cp.find_finds disk other
  unfold Operation.run
  generalize cp.find disk other = result at hfinds
  cases hfinds with
  | loaded hloaded =>
      refine (or_iff_left_of_imp ?_).symm
      rintro ⟨rfl, hanswer⟩
      cases hanswer
      exact hloaded
  | nowhere => simp
  | unreadable => simp
  | @new c hloaded hsearch =>
      by_cases hname : other = name
      · subst hname
        dsimp only
        rw [ClassPath.loaded?_of_new hloaded rfl, hloaded]
        simp
      · dsimp only
        rw [ClassPath.loaded?_of_new_ne rfl hname]
        simp [hname]

/-- After a call those classes are loaded that were, and the one that the call gives. -/
theorem loaded?_run (h : operation.IsCall) :
    (operation.run disk cp).2.loaded? name = some found ↔
      cp.loaded? name = some found ∨
        operation = find name ∧ (operation.run disk cp).1 = .found (some found) := by
  by_cases hfind : ∃ other, operation = find other
  · obtain ⟨other, rfl⟩ := hfind
    rw [loaded?_run_find, find.injEq]
  · have hnot : operation ≠ find name := fun hname => hfind ⟨name, hname⟩
    rw [ClassPath.loaded?_congr (loaded_run h fun other hother => hfind ⟨other, hother⟩)]
    simp [hnot]

/-- A class that is not loaded is given as the next one to be loaded, if a search finds it. -/
theorem run_find_of_search {c : ClassFile} (h : cp.loaded? name = none)
    (hsearch : Source.search disk cp.policy name cp.sources = .ok (some c)) :
    ((find name).run disk cp).1 = .found (some (cp.loaded.length, c)) := by
  have hfinds := cp.find_finds disk name
  unfold Operation.run
  generalize cp.find disk name = result at hfinds
  cases hfinds with
  | loaded hloaded => simp [h] at hloaded
  | nowhere hnowhere => simp [hsearch] at hnowhere
  | unreadable hunreadable => simp [hsearch] at hunreadable
  | new _ hnew =>
      rw [hsearch] at hnew
      cases hnew
      rfl

/-! ### Runs of calls -/

/-- The class path that a run leaves. -/
def afterwards (disk : Disk) (policy : ReadPolicy) (run : List Operation) : ClassPath :=
  (runAll disk run (.empty policy)).2

/-- A look-up in the run was answered with the class. -/
def Gives (disk : Disk) (policy : ReadPolicy) (run : List Operation) (name : Text)
    (found : Nat × ClassFile) : Prop :=
  (find name, Answer.found (some found)) ∈ run.zip (answers disk policy run)

theorem afterwards_concat (disk : Disk) (policy : ReadPolicy) (run : List Operation)
    (operation : Operation) :
    afterwards disk policy (run ++ [operation]) =
      (operation.run disk (afterwards disk policy run)).2 :=
  runAll_append disk run [operation] _

theorem length_runAll (disk : Disk) (run : List Operation) (cp : ClassPath) :
    (runAll disk run cp).1.length = run.length := by
  induction run generalizing cp with
  | nil => rfl
  | cons operation run ih => exact congrArg (· + 1) (ih (operation.run disk cp).2)

theorem answers_concat (disk : Disk) (policy : ReadPolicy) (run : List Operation)
    (operation : Operation) :
    answers disk policy (run ++ [operation]) =
      answers disk policy run ++ [(operation.run disk (afterwards disk policy run)).1] := by
  unfold answers afterwards
  generalize ClassPath.empty policy = cp
  induction run generalizing cp with
  | nil => rfl
  | cons first run ih => exact congrArg (_ :: ·) (ih (first.run disk cp).2)

/-- The last call of a run may be the one that gives the class. -/
theorem gives_concat :
    Gives disk policy (run ++ [operation]) name found ↔
      Gives disk policy run name found ∨ operation = find name ∧
        (operation.run disk (afterwards disk policy run)).1 = .found (some found) := by
  have hlength : run.length = (answers disk policy run).length :=
    (length_runAll disk run _).symm
  rw [Gives, Gives, answers_concat, List.zip_append hlength, List.mem_append]
  simp only [List.zip_cons_cons, List.zip_nil_left, List.mem_singleton, Prod.mk.injEq, eq_comm]

theorem sourcesAdded_concat (disk : Disk) (run : List Operation) (operation : Operation) :
    sourcesAdded disk (run ++ [operation]) =
      sourcesAdded disk run ++ (operation.added? disk).toList := by
  have hlast := sourcesAdded_cons disk operation []
  unfold sourcesAdded at hlast ⊢
  rw [List.filterMap_append, hlast, List.filterMap_nil, List.append_nil]

theorem policy_afterwards (h : ∀ operation ∈ run, operation.IsCall) :
    (afterwards disk policy run).policy = policy := by
  induction run using List.reverseRecOn with
  | nil => rfl
  | append_singleton run operation ih =>
      obtain ⟨hrun, hoperation⟩ := List.forall_mem_append.mp h
      rw [afterwards_concat, policy_run (hoperation _ (List.mem_singleton.mpr rfl)), ih hrun]

/-- A run leaves the directories that were added, whether or not it closes the class path. -/
theorem directories_afterwards (h : ∀ operation ∈ run, operation.IsCall) :
    (afterwards disk policy run).directories =
      (sourcesAdded disk run).filter Source.isDirectory := by
  induction run using List.reverseRecOn with
  | nil => rfl
  | append_singleton run operation ih =>
      obtain ⟨hrun, hoperation⟩ := List.forall_mem_append.mp h
      rw [afterwards_concat, directories_run (hoperation _ (List.mem_singleton.mpr rfl)), ih hrun,
        ← List.filter_append, sourcesAdded_concat]

/-- A run leaves those classes loaded that it has given. -/
theorem loaded?_afterwards_iff (h : ∀ operation ∈ run, operation.IsCall) :
    (afterwards disk policy run).loaded? name = some found ↔
      Gives disk policy run name found := by
  induction run using List.reverseRecOn with
  | nil => simp [afterwards, Gives, runAll, ClassPath.loaded?, ClassPath.empty]
  | append_singleton run operation ih =>
      obtain ⟨hrun, hoperation⟩ := List.forall_mem_append.mp h
      rw [afterwards_concat, loaded?_run (hoperation _ (List.mem_singleton.mpr rfl)), ih hrun,
        gives_concat]

/-! ### Calls after closing -/

/-- The operation adds no source. -/
def AddsNothing : Operation → Prop
  | find _ | names _ | close => True
  | add _ | block _ => False

/-- The second class path has the same sources, and may have loaded more. -/
structure Keeps (disk : Disk) (name : Text) (cp cp' : ClassPath) : Prop where
  policy : cp'.policy = cp.policy
  sources : cp'.sources = cp.sources
  loaded : ∀ found, cp.loaded? name = some found → cp'.loaded? name = some found
  faithful : cp.FaithfulTo disk name → cp'.FaithfulTo disk name

theorem Keeps.trans {cp' cp'' : ClassPath} (h : Keeps disk name cp cp')
    (h' : Keeps disk name cp' cp'') : Keeps disk name cp cp'' :=
  ⟨h'.policy.trans h.policy, h'.sources.trans h.sources,
    fun found hfound => h'.loaded found (h.loaded found hfound), h'.faithful ∘ h.faithful⟩

/-- A call that adds nothing keeps a class path that has nothing to be closed. -/
theorem run_keeps (h : operation.AddsNothing) (hclosed : cp.directories = cp.sources) :
    Keeps disk name cp (operation.run disk cp).2 := by
  have hcall : operation.IsCall := by
    cases operation <;> simp_all [AddsNothing, IsCall, KeepsOpen]
  have hsources : (operation.run disk cp).2.sources = cp.sources := by
    cases operation with
    | find other =>
        have hopen : (find other).KeepsOpen := trivial
        exact (run_grows hopen).sources.trans (List.append_nil _)
    | names package => rfl
    | close => exact hclosed
    | add _ | block _ => exact absurd h id
  refine ⟨policy_run hcall, hsources, fun found hfound => (loaded?_run hcall).mpr (.inl hfound),
    fun hfaithful found hfound => ?_⟩
  rw [policy_run hcall, hsources]
  rcases (loaded?_run hcall).mp hfound with hfound | ⟨rfl, hanswer⟩
  · exact hfaithful found hfound
  · have hlookup := run_find_lookup? hfaithful
    rw [hanswer] at hlookup
    exact (Option.some.inj hlookup).symm

theorem runAll_keeps (h : ∀ operation ∈ run, operation.AddsNothing)
    (hclosed : cp.directories = cp.sources) : Keeps disk name cp (runAll disk run cp).2 := by
  induction run generalizing cp with
  | nil => exact ⟨rfl, rfl, fun _ => id, id⟩
  | cons operation rest ih =>
      obtain ⟨hoperation, hrest⟩ := List.forall_mem_cons.mp h
      have hfirst : Keeps disk name cp (operation.run disk cp).2 := run_keeps hoperation hclosed
      have hclosed' : (operation.run disk cp).2.directories = (operation.run disk cp).2.sources := by
        rw [ClassPath.directories, hfirst.sources]
        exact hclosed
      exact hfirst.trans (ih hrest hclosed')

section After

variable {later : List Operation} (hrun : ∀ operation ∈ run, operation.IsCall)
  (hlater : ∀ operation ∈ later, operation.AddsNothing)

/-- What the operations after closing work on. -/
theorem before_after_close (disk : Disk) (policy : ReadPolicy) (run later : List Operation)
    (i : Nat) :
    before disk policy (run ++ close :: later) (run.length + 1 + i) =
      (runAll disk (later.take i) (afterwards disk policy run).close).2 := by
  have htake : (run ++ close :: later).take (run.length + 1 + i) = run ++ close :: later.take i := by
    rw [Nat.add_assoc, List.take_length_add_append, Nat.add_comm 1 i, List.take_succ_cons]
  rw [before, htake, runAll_append]
  rfl

include hlater in
theorem keeps_after_close (disk : Disk) (policy : ReadPolicy) (name : Text) (i : Nat) :
    Keeps disk name (afterwards disk policy run).close
      (before disk policy (run ++ close :: later) (run.length + 1 + i)) := by
  rw [before_after_close]
  refine runAll_keeps (fun operation h => hlater operation (List.mem_of_mem_take h)) ?_
  exact ClassPath.directories_close _

theorem answers_after_close (hoperation : later[i]? = some operation) :
    (answers disk policy (run ++ close :: later))[run.length + 1 + i]? =
      some (operation.run disk
        (before disk policy (run ++ close :: later) (run.length + 1 + i))).1 := by
  refine getElem?_answers ?_
  rw [Nat.add_assoc, List.getElem?_append_right (Nat.le_add_right _ _), Nat.add_sub_cancel_left,
    Nat.add_comm 1 i, List.getElem?_cons_succ, hoperation]

include hrun hlater

/-- What was found before closing is found again. -/
theorem answers_find_of_gives (hfind : later[i]? = some (find name))
    (hgives : Gives disk policy run name found) :
    (answers disk policy (run ++ close :: later))[run.length + 1 + i]? =
      some (.found (some found)) := by
  have hloaded := (keeps_after_close hlater disk policy name i).loaded found
    ((loaded?_afterwards_iff hrun).mpr hgives)
  rw [answers_after_close hfind, run_find_of_loaded? hloaded]

/-- If what was found before closing is what the directories hold, a look-up finds that. -/
theorem answers_find_of_faithful (hfind : later[i]? = some (find name))
    (hfaithful : ∀ found, Gives disk policy run name found →
      Source.search disk policy name ((sourcesAdded disk run).filter Source.isDirectory) =
        .ok (some found.2)) :
    (answers disk policy (run ++ close :: later))[run.length + 1 + i]?.bind Answer.lookup? =
      some (Source.search disk policy name
        ((sourcesAdded disk run).filter Source.isDirectory)) := by
  obtain ⟨hpolicy, hsources, -, hkept⟩ := keeps_after_close hlater disk policy name i
  have hclosed : (afterwards disk policy run).close.policy = policy ∧
      (afterwards disk policy run).close.sources =
        (sourcesAdded disk run).filter Source.isDirectory :=
    ⟨policy_afterwards hrun, directories_afterwards hrun⟩
  have hafter : (afterwards disk policy run).close.FaithfulTo disk name := by
    intro found hloaded
    rw [hclosed.1, hclosed.2]
    exact hfaithful found ((loaded?_afterwards_iff hrun).mp hloaded)
  rw [answers_after_close hfind, Option.bind_some, run_find_lookup? (hkept hafter), hpolicy,
    hsources, hclosed.1, hclosed.2]

end After

/--
**What a look-up answers after closing.**  If the run before has given a class under the name,
the same class is given again.  The answer is that of a new class path, whose sources are the
directories that were added, exactly if the run has not given any class but the one that the
directories hold.
-/
theorem answers_find_after_close (disk : Disk) (policy : ReadPolicy) (run later : List Operation)
    (hrun : ∀ operation ∈ run, operation.IsCall)
    (hlater : ∀ operation ∈ later, operation.AddsNothing) (i : Nat) (name : Text)
    (hfind : later[i]? = some (find name)) :
    let answer? := (answers disk policy (run ++ close :: later))[run.length + 1 + i]?
    let directories := (sourcesAdded disk run).filter Source.isDirectory
    let anew := ((find name).run disk (.fresh policy directories)).1
    (∀ found, Gives disk policy run name found → answer? = some (.found (some found))) ∧
      (answer?.bind Answer.lookup? = anew.lookup? ↔
        ∀ found, Gives disk policy run name found →
          anew.lookup? = some (.ok (some found.2))) := by
  intro answer? directories anew
  have hanew : anew.lookup? = some (Source.search disk policy name directories) :=
    run_find_lookup? ((ClassPath.fresh_faithful disk policy directories).to name)
  have hagain : ∀ found, Gives disk policy run name found →
      answer? = some (.found (some found)) :=
    fun found hgives => answers_find_of_gives hrun hlater hfind hgives
  refine ⟨hagain, ?forth, ?back⟩
  case forth =>
    intro hsame found hgives
    rw [← hsame, hagain found hgives]
    rfl
  case back =>
    intro hgiven
    rw [hanew]
    refine answers_find_of_faithful hrun hlater hfind fun found hgives => ?_
    have hfound := hgiven found hgives
    rwa [hanew, Option.some.injEq] at hfound

/-- An archive with two files, one of them a class. -/
def attic : Disk :=
  ⟨[(["lib.jar"], .archive [⟨"A.class", ClassFile.everyAttribute.encode⟩, ⟨"B.class", []⟩])]⟩

/-- The class of the archive is found as long as the archive is open. -/
theorem attic_gives :
    Gives attic .standard ([add (.ofText "lib.jar")] ++ [find "A"]) "A"
      (0, ClassFile.everyAttribute.view Annotation.merge) := by
  let entries : List ArchiveEntry := [⟨"A.class", ClassFile.everyAttribute.encode⟩, ⟨"B.class", []⟩]
  have hfile : (Source.archive entries).file? attic ("A" ++ classSuffix) =
      some ClassFile.everyAttribute.encode := rfl
  have hsearch : Source.search attic .standard "A" [.archive entries] =
      .ok (some (ClassFile.everyAttribute.view Annotation.merge)) := by
    rw [Source.search_cons_of_some hfile, ClassFile.ofBytes_everyAttribute]
    rfl
  have hadded : afterwards attic .standard [add (.ofText "lib.jar")] =
      .fresh .standard [.archive entries] := rfl
  refine gives_concat.mpr (.inr ⟨rfl, ?_⟩)
  rw [hadded]
  exact run_find_of_search rfl hsearch

/-- **Closing does not drop everything**: a class of an archive is found when it is closed. -/
theorem closed_archive_found :
    let run := [add (.ofText "lib.jar"), find "A"]
    let directories := (sourcesAdded attic run).filter Source.isDirectory
    (∀ operation ∈ run, operation.IsCall) ∧
      ((find "A").run attic (.fresh .standard directories)).1 = .found none ∧
      ∃ found, (answers attic .standard (run ++ [close, find "A"]))[3]? =
        some (.found (some found)) := by
  intro run directories
  have hrun : ∀ operation ∈ run, operation.IsCall := by simp [run, IsCall, KeepsOpen]
  have hlater : ∀ operation ∈ [find "A"], operation.AddsNothing := by simp [AddsNothing]
  exact ⟨hrun, rfl, _, answers_find_of_gives (i := 0) hrun hlater rfl attic_gives⟩

theorem answers_find_after_close_attic :
    let run := [add (.ofText "lib.jar"), find "A"]
    let later := [find "A", find "B"]
    (∀ operation ∈ run, operation.IsCall) ∧ (∀ operation ∈ later, operation.AddsNothing) ∧
      (∃ found, (answers attic .standard (run ++ close :: later))[3]? =
        some (.found (some found))) ∧
      (answers attic .standard (run ++ close :: later))[4]? = some (.found none) := by
  intro run later
  have hrun : ∀ operation ∈ run, operation.IsCall := by simp [run, IsCall, KeepsOpen]
  have hlater : ∀ operation ∈ later, operation.AddsNothing := by simp [later, AddsNothing]
  obtain ⟨hagain, -⟩ := answers_find_after_close attic .standard run later hrun hlater 0 "A" rfl
  obtain ⟨-, hanew⟩ := answers_find_after_close attic .standard run later hrun hlater 1 "B" rfl
  have hnever : ∀ found, ¬ Gives attic .standard run "B" found := by
    intro found hgives
    have hmem : find "B" ∈ run := (List.of_mem_zip hgives).1
    have hne : ("B" : Text) ≠ "A" := by decide
    simp [run, hne] at hmem
  refine ⟨hrun, hlater, ⟨_, hagain _ attic_gives⟩, ?_⟩
  have hlookup := hanew.mpr fun found hgives => absurd hgives (hnever found)
  obtain ⟨answer, hanswer, hnone⟩ := Option.bind_eq_some_iff.mp hlookup
  exact hanswer.trans (congrArg some (Answer.lookup?_eq_none_iff.mp hnone))

end Operation

end ClassFormat
