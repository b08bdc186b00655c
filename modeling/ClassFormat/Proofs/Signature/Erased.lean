/-
Types without generics.

Erasure leads from a type to a text.  In between stands the tree of that text, `erased`: a
variable is replaced by the root class, and the names of nested classes become one name.  The
tree is well formed and plain, and it prints to the erasure, so the readers of descriptors have to
give it back (`JavaType.read_erasure`, `MethodType.read_erasure`).

A plain type is erased already.  That makes erasure the identity on descriptors, and it makes a
second erasure the same as the first.
-/
import ClassFormat.Signature.Erasure
import ClassFormat.Proofs.Signature.RoundTrip
import ClassFormat.Proofs.Text.Joined

namespace ClassFormat

/-! ### Trees -/

namespace ClassType

/-- The class that all classes extend. -/
def root : ClassType :=
  ⟨["java", "lang"], ⟨"Object", []⟩, []⟩

/-- The names of all segments, a dollar sign between neighbours. -/
def joinedName (c : ClassType) : Text :=
  .join "$" (c.segments.map ClassSegment.name)

/-- The class type, in arrays of the given number of dimensions, by its joined name. -/
def printJoined (c : ClassType) (n : Nat) : Text :=
  .concat [List.replicate n (.scalar '['), "L", c.package.flatMap (· ++ [CodePoint.scalar '/']),
    c.joinedName, ";"]

/-- The class type with its joined name as its only segment. -/
def erased (c : ClassType) : ClassType :=
  ⟨c.package, ⟨c.joinedName, []⟩, []⟩

end ClassType

/-- The root class in place of a variable, and one segment in place of many. -/
def ElementType.erased : ElementType → ElementType
  | .primitive p => .primitive p
  | .variable _ => .object .root
  | .object c => .object c.erased

/-- The type with its element type erased. -/
def JavaType.erased (t : JavaType) : JavaType :=
  ⟨t.element.erased, t.dimensions⟩

/-- The result with its type erased. -/
def ReturnType.erased : ReturnType → ReturnType
  | void => void
  | value t => value t.erased

/-- The parameters and the result, their types erased. -/
def MethodType.erased (m : MethodType) : MethodType where
  typeParameters := []
  parameters := m.parameters.map JavaType.erased
  result := m.result.erased
  throws := []

/-! ### Erased trees are plain -/

theorem ElementType.isPlain_erased (e : ElementType) : e.erased.IsPlain := by
  match e with
  | .primitive p => trivial
  | .variable n => exact ⟨rfl, rfl⟩
  | .object c => exact ⟨rfl, rfl⟩

theorem JavaType.isPlain_erased (t : JavaType) : t.erased.IsPlain :=
  t.element.isPlain_erased

theorem ReturnType.isPlain_erased (r : ReturnType) : r.erased.IsPlain := by
  cases r with
  | void => trivial
  | value t => exact t.isPlain_erased

theorem MethodType.isPlain_erased (m : MethodType) : m.erased.IsPlain where
  typeParameters := rfl
  parameters := List.forall_mem_map.mpr fun t _ => t.isPlain_erased
  result := m.result.isPlain_erased
  throws := rfl

/-! ### Plain trees are erased -/

theorem ClassType.erased_of_isPlain {c : ClassType} (h : c.IsPlain) : c.erased = c := by
  obtain ⟨package, ⟨name, arguments⟩, inner⟩ := c
  obtain ⟨rfl, rfl⟩ : arguments = [] ∧ inner = [] := h
  simp [erased, joinedName, segments, Text.join]

theorem ElementType.erased_of_isPlain {e : ElementType} (h : e.IsPlain) : e.erased = e := by
  match e with
  | .primitive p => rfl
  | .variable n => exact absurd h id
  | .object c => exact congrArg ElementType.object (ClassType.erased_of_isPlain h)

theorem JavaType.erased_of_isPlain {t : JavaType} (h : t.IsPlain) : t.erased = t := by
  obtain ⟨e, n⟩ := t
  rw [erased, ElementType.erased_of_isPlain h]

theorem ReturnType.erased_of_isPlain {r : ReturnType} (h : r.IsPlain) : r.erased = r := by
  cases r with
  | void => rfl
  | value t => exact congrArg ReturnType.value (JavaType.erased_of_isPlain h)

theorem MethodType.erased_of_isPlain {m : MethodType} (h : m.IsPlain) : m.erased = m := by
  obtain ⟨typeParameters, parameters, result, throws⟩ := m
  obtain ⟨rfl, hparameters, hresult, rfl⟩ := h
  have hmap : parameters.map JavaType.erased = parameters.map id :=
    List.map_congr_left fun t ht => JavaType.erased_of_isPlain (hparameters t ht)
  rw [erased, hmap, List.map_id, ReturnType.erased_of_isPlain hresult]

/-! ### Erased trees are well formed -/

/-- Dollar signs are nothing special in a name. -/
theorem Text.IsName.join_dollar {first : Text} {more : List Text}
    (h : ∀ n ∈ first :: more, n.IsName) : (Text.join "$" (first :: more)).IsName := by
  obtain ⟨hfirst, hmore⟩ := List.forall_mem_cons.mp h
  rw [join_cons]
  refine ⟨List.append_ne_nil_of_left_ne_nil hfirst.1 _, fun p hp => ?_⟩
  rcases List.mem_append.mp hp with hp | hp
  · exact hfirst.2 p hp
  · obtain ⟨n, hn, hp⟩ := List.mem_flatMap.mp hp
    rcases List.mem_append.mp hp with hp | hp
    · rw [List.mem_singleton.mp hp]
      decide
    · exact (hmore n hn).2 p hp

theorem ClassType.WellFormed.joinedName {c : ClassType} (h : c.WellFormed) :
    c.joinedName.IsName := by
  have hlevel := c.wellFormed_iff.mp h
  refine Text.IsName.join_dollar (List.forall_mem_cons.mpr ⟨hlevel.outer.1, ?_⟩)
  exact List.forall_mem_map.mpr fun s hs => (hlevel.inner s hs).1

theorem ClassType.WellFormed.erased {c : ClassType} (h : c.WellFormed) : c.erased.WellFormed :=
  ⟨(c.wellFormed_iff.mp h).package, ⟨h.joinedName, trivial⟩, trivial⟩

theorem ElementType.WellFormed.erased {e : ElementType} (h : e.WellFormed) :
    e.erased.WellFormed := by
  match e with
  | .primitive p => trivial
  | .variable n => exact show ClassType.root.WellFormed by decide
  | .object c => exact ClassType.WellFormed.erased h

theorem JavaType.WellFormed.erased {t : JavaType} (h : t.WellFormed) : t.erased.WellFormed := by
  obtain ⟨e, n⟩ := t
  exact ElementType.WellFormed.erased h

theorem ReturnType.WellFormed.erased {r : ReturnType} (h : r.WellFormed) :
    r.erased.WellFormed := by
  cases r with
  | void => trivial
  | value t => exact JavaType.WellFormed.erased h

theorem MethodType.WellFormed.erased {m : MethodType} (h : m.WellFormed) :
    m.erased.WellFormed where
  typeParameters := List.forall_mem_nil _
  parameters := List.forall_mem_map.mpr fun t ht => (h.parameters t ht).erased
  result := h.result.erased
  throws := List.forall_mem_nil _

/-! ### Erased trees print to the erasure -/

theorem ClassType.internalName_eq (c : ClassType) :
    c.internalName = c.package.flatMap (· ++ [CodePoint.scalar '/']) ++ c.joinedName := by
  rw [internalName, joinedName, segments, List.map_cons, Text.join_cons, List.flatMap_map,
    List.append_assoc]
  rfl

theorem ElementType.print_erased (e : ElementType) : e.erased.print = e.erasure := by
  match e with
  | .primitive p => rfl
  | .variable n => rfl
  | .object c =>
      rw [erasure, c.internalName_eq]
      simp [erased, ClassType.erased, print, ClassType.print, ClassSegment.print,
        ClassSegment.printInner]

theorem JavaType.print_erased (t : JavaType) : t.erased.print = t.erasure := by
  rw [erased, print, t.element.print_erased, erasure]

theorem ReturnType.print_erased (r : ReturnType) : r.erased.print = r.erasure := by
  cases r with
  | void => rfl
  | value t => exact t.print_erased

theorem MethodType.print_erased (m : MethodType) : m.erased.print = m.erasure := by
  have hparameters : (m.parameters.map JavaType.erased).flatMap JavaType.print =
      m.parameters.flatMap JavaType.erasure := by
    rw [List.flatMap_map]
    exact congrArg (List.flatMap · m.parameters) (funext JavaType.print_erased)
  rw [print, erased, hparameters, m.result.print_erased, erasure]
  simp [TypeParameter.printAll]

/-! ### Erasures are read -/

/-- Erasing twice is erasing once. -/
theorem JavaType.erasure_erased (t : JavaType) : t.erased.erasure = t.erasure := by
  rw [← print_erased, erased_of_isPlain t.isPlain_erased, print_erased]

theorem MethodType.erasure_erased (m : MethodType) : m.erased.erasure = m.erasure := by
  rw [← print_erased, erased_of_isPlain m.isPlain_erased, print_erased]

theorem JavaType.erasure_of_isPlain {t : JavaType} (h : t.IsPlain) : t.erasure = t.print := by
  rw [← print_erased, erased_of_isPlain h]

theorem MethodType.erasure_of_isPlain {m : MethodType} (h : m.IsPlain) :
    m.erasure = m.print := by
  rw [← print_erased, erased_of_isPlain h]

theorem JavaType.read_erasure {t : JavaType} (h : t.WellFormed) :
    readFieldDescriptor t.erasure = .ok t.erased :=
  readFieldDescriptor_ok_iff.mpr ⟨⟨h.erased, t.isPlain_erased⟩, t.print_erased⟩

theorem MethodType.read_erasure {m : MethodType} (h : m.WellFormed) :
    readMethodDescriptor m.erasure = .ok m.erased :=
  readMethodDescriptor_ok_iff.mpr ⟨⟨h.erased, m.isPlain_erased⟩, m.print_erased⟩

theorem ClassType.erasure_eq_printJoined (c : ClassType) (n : Nat) :
    JavaType.erasure ⟨.object c, n⟩ = c.printJoined n := by
  simp [printJoined, JavaType.erasure, ElementType.erasure, c.internalName_eq, Text.concat,
    Text.ofString]

/-- The segments of a class type, joined to one name, make a class type of the same erasure. -/
theorem ClassType.read_printJoined {c : ClassType} (h : c.WellFormed) (n : Nat) :
    readFieldSignature (c.printJoined n) = .ok (JavaType.mk (.object c) n).erased := by
  rw [← c.erasure_eq_printJoined n]
  exact readFieldSignature_ok_iff.mpr ⟨⟨rfl, JavaType.WellFormed.erased h⟩, JavaType.print_erased _⟩

/--
**The erasure of a type is a descriptor, and the erasure of a descriptor is the descriptor.**
Whatever a signature is read as, its erasure is read as a descriptor without generics and with as
many parameters, and to read and erase once more changes nothing.  In a class type dollar signs
join the names of the segments, and the text with the joined name has the same erasure.
-/
theorem read_erasure_exact :
    (∀ d t, readFieldDescriptor d = .ok t → t.erasure = d) ∧
    (∀ d m, readMethodDescriptor d = .ok m → m.erasure = d) ∧
    (∀ s t, readFieldSignature s = .ok t →
      readFieldDescriptor t.erasure = .ok t.erased ∧ t.erased.IsPlain ∧
        t.erased.erasure = t.erasure) ∧
    (∀ s m, readMethodSignature s = .ok m →
      readMethodDescriptor m.erasure = .ok m.erased ∧
        m.erased.parameters.length = m.parameters.length ∧ m.erased.IsPlain ∧
        m.erased.erasure = m.erasure) ∧
    ∀ s c n, readFieldSignature s = .ok ⟨.object c, n⟩ →
      JavaType.erasure ⟨.object c, n⟩ = c.printJoined n ∧
        ∃ t, readFieldSignature (c.printJoined n) = .ok t ∧ t.erasure = c.printJoined n := by
  refine ⟨?_, ?_, ?_, ?_, ?_⟩
  · intro d t h
    obtain ⟨⟨-, hplain⟩, hprint⟩ := readFieldDescriptor_ok_iff.mp h
    exact (JavaType.erasure_of_isPlain hplain).trans hprint
  · intro d m h
    obtain ⟨⟨-, hplain⟩, hprint⟩ := readMethodDescriptor_ok_iff.mp h
    exact (MethodType.erasure_of_isPlain hplain).trans hprint
  · intro s t h
    obtain ⟨⟨-, hwell⟩, -⟩ := readFieldSignature_ok_iff.mp h
    exact ⟨JavaType.read_erasure hwell, t.isPlain_erased, t.erasure_erased⟩
  · intro s m h
    obtain ⟨hwell, -⟩ := readMethodSignature_ok_iff.mp h
    exact ⟨MethodType.read_erasure hwell, List.length_map _, m.isPlain_erased, m.erasure_erased⟩
  · intro s c n h
    obtain ⟨⟨-, hwell⟩, -⟩ := readFieldSignature_ok_iff.mp h
    have herasure := c.erasure_eq_printJoined n
    exact ⟨herasure, _, ClassType.read_printJoined hwell n,
      (JavaType.erasure_erased _).trans herasure⟩

theorem read_erasure_exact_nested :
    let entry : ClassType := ⟨["m"], ⟨"Map", [.any]⟩,
      [⟨"Entry", [.bounded .covariant ⟨.variable "T", 1⟩]⟩]⟩
    let get : MethodType := ⟨[⟨"T", some (.ofElement (.object .root)), []⟩],
      [⟨.variable "T", 2⟩, .ofElement (.primitive .int)], .value (.ofElement (.object entry)),
      [.ofElement (.variable "T")]⟩
    readFieldSignature "[Lm/Map<*>.Entry<+[TT;>;" = .ok ⟨.object entry, 1⟩ ∧
      readFieldDescriptor "[Lm/Map$Entry;" = .ok (JavaType.mk (.object entry) 1).erased ∧
      (∃ t, readFieldSignature "[Lm/Map$Entry;" = .ok t ∧ t.erasure = "[Lm/Map$Entry;") ∧
      (JavaType.mk (.object entry) 1).erased.erasure = "[Lm/Map$Entry;" ∧
      readMethodSignature
        "<T:Ljava/lang/Object;>([[TT;I)Lm/Map<*>.Entry<+[TT;>;^TT;" = .ok get ∧
      readMethodDescriptor "([[Ljava/lang/Object;I)Lm/Map$Entry;" = .ok get.erased ∧
      get.erased.erasure = "([[Ljava/lang/Object;I)Lm/Map$Entry;" := by
  intro entry get
  have hentry : readFieldSignature "[Lm/Map<*>.Entry<+[TT;>;" = .ok ⟨.object entry, 1⟩ :=
    readFieldSignature_ok_iff.mpr ⟨⟨rfl, by decide⟩, rfl⟩
  have hget : readMethodSignature
      "<T:Ljava/lang/Object;>([[TT;I)Lm/Map<*>.Entry<+[TT;>;^TT;" = .ok get :=
    readMethodSignature_ok_iff.mpr ⟨by decide, rfl⟩
  obtain ⟨hfield, hmethod, hsignature, hgeneric, hjoined⟩ := read_erasure_exact
  have hread := (hsignature _ _ hentry).1
  have hread' := (hgeneric _ _ hget).1
  exact ⟨hentry, hread, (hjoined _ _ _ hentry).2, hfield _ _ hread, hget, hread',
    hmethod _ _ hread'⟩

end ClassFormat
