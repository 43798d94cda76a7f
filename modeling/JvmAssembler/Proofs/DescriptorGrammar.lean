import Mathlib.Data.List.TakeWhile
import Mathlib.Tactic.SplitIfs
import JvmAssembler.Descriptor
import JvmAssembler.Proofs.FieldOutcome

/-!
# The grammar of descriptors

The texts of field types and of method types are given as a grammar over bytes. Reading accepts
exactly these texts, and what it finds is the one way in which a text can be taken apart: types and
texts determine each other wherever dimensions and class names can be written at all.
-/

set_option autoImplicit false
set_option relaxedAutoImplicit false

namespace JvmAssembler

namespace Descriptor

/-- The texts of types that are not arrays: a letter, or a class name between `L` and `;`. -/
inductive IsElementText : Text → Prop where
  | base {b : UInt8} (letter : b ∈ ("BCDFIJSZ" : Text)) : IsElementText [b]
  | object {name : Text} (named : name ≠ []) (closed : 0x3B ∉ name) :
    IsElementText (0x4C :: (name ++ [0x3B]))

/-- The texts of field types: that of an element, behind at most 255 brackets. -/
inductive IsFieldText : Text → Prop where
  | element {t : Text} (element : IsElementText t) : IsFieldText t
  | array {n : Nat} {t : Text} (positive : 1 ≤ n) (few : n ≤ 255) (element : IsElementText t) :
    IsFieldText (List.replicate n 0x5B ++ t)

/-- A method descriptor taken apart into the texts of its parameters and of what it returns, where
`V` stands for nothing. -/
structure IsMethodText (t : Text) (parameters : List Text) (result : Text) : Prop where
  fields : ∀ p ∈ parameters, IsFieldText p
  returned : result = [0x56] ∨ IsFieldText result
  whole : t = 0x28 :: (parameters.flatten ++ 0x29 :: result)

end Descriptor

def ElementType.WellFormed : ElementType → Prop
  | .base _ => True
  | .object name => name ≠ [] ∧ 0x3B ∉ name

structure FieldType.WellFormed (t : FieldType) : Prop where
  dimensions : t.dimensions ≤ Descriptor.maxDimensions
  element : t.element.WellFormed

def ReturnType.WellFormed : ReturnType → Prop
  | .void => True
  | .value type => type.WellFormed

structure MethodType.WellFormed (m : MethodType) : Prop where
  parameters : ∀ p ∈ m.parameters, p.WellFormed
  result : m.result.WellFormed

private theorem BaseType.ofLetter?_eq_some_iff {b : UInt8} {type : BaseType} :
    ofLetter? b = some type ↔ type.letter = b := by
  constructor
  · intro found
    simpa using List.find?_some found
  · rintro rfl
    cases type <;> rfl

private theorem BaseType.exists_letter_iff {b : UInt8} :
    (∃ type : BaseType, type.letter = b) ↔ b ∈ ("BCDFIJSZ" : Text) := by
  have letters : ("BCDFIJSZ" : Text) = all.map letter := by decide +kernel
  rw [letters, List.mem_map]
  constructor
  · rintro ⟨type, rfl⟩
    exact ⟨type, by cases type <;> decide, rfl⟩
  · rintro ⟨type, -, same⟩
    exact ⟨type, same⟩

namespace Descriptor

variable {t rest : Text} {offset : Nat}

section Elements

variable {e : ElementType}

private theorem readElement_text (formed : e.WellFormed) (offset : Nat) (rest : Text) :
    readElement offset (e.text ++ rest) = .ok (e, rest) := by
  cases e with
  | base type =>
    have found : BaseType.ofLetter? type.letter = some type :=
      BaseType.ofLetter?_eq_some_iff.mpr rfl
    simp only [ElementType.text, List.cons_append, List.nil_append, readElement, found]
  | object name =>
    obtain ⟨named, closed⟩ := formed
    have notLetter : BaseType.ofLetter? 0x4C = none := rfl
    have inside : ∀ b ∈ name, decide (b ≠ 0x3B) = true := by
      intro b member
      exact decide_eq_true fun same => closed (same ▸ member)
    have front : (name ++ 0x3B :: rest).takeWhile (· ≠ 0x3B) = name := by
      rw [List.takeWhile_append_of_pos inside]
      simp
    have back : (name ++ 0x3B :: rest).dropWhile (· ≠ 0x3B) = 0x3B :: rest := by
      rw [List.dropWhile_append_of_pos inside]
      simp
    have whole : (ElementType.object name).text ++ rest = 0x4C :: (name ++ 0x3B :: rest) := by
      simp [ElementType.text]
    rw [whole, readElement]
    simp only [notLetter, front, back]
    cases name with
    | nil => exact absurd rfl named
    | cons b name => rfl

private theorem eq_text_of_readElement (read : readElement offset t = .ok (e, rest)) :
    e.WellFormed ∧ t = e.text ++ rest := by
  cases t with
  | nil => cases read
  | cons b t =>
    rw [readElement] at read
    rcases found : BaseType.ofLetter? b with _ | type
    · simp only [found] at read
      split_ifs at read with isVoid isObject
      subst isObject
      split at read
      · -- The name is what stands before the first semicolon, whatever marks it holds.
        rename_i b name semicolon back front_eq back_eq
        cases read
        have closing : semicolon = 0x3B := by
          have stopped := List.head?_dropWhile_not (fun x => decide (x ≠ 0x3B)) t
          rw [back_eq] at stopped
          simpa using stopped
        refine ⟨⟨?_, ?_⟩, ?_⟩
        · rw [front_eq]
          exact List.cons_ne_nil b name
        · intro member
          have other := List.mem_takeWhile_imp member
          simp at other
        · have split := List.takeWhile_append_dropWhile (p := fun x => decide (x ≠ 0x3B)) (l := t)
          rw [back_eq, closing] at split
          simp only [ElementType.text, List.cons_append, List.append_assoc, List.nil_append]
          rw [split]
      · cases read
    · simp only [found] at read
      cases read
      rw [← BaseType.ofLetter?_eq_some_iff.mp found]
      exact ⟨trivial, rfl⟩

end Elements

end Descriptor

section Kinds

private theorem ElementType.exists_text_eq_cons (e : ElementType) :
    ∃ b tail, e.text = b :: tail ∧ b ≠ 0x5B := by
  cases e with
  | base type => exact ⟨type.letter, [], rfl, by cases type <;> decide⟩
  | object name => exact ⟨0x4C, name ++ [0x3B], rfl, by decide⟩

private theorem FieldType.kind_ne (t : FieldType) : t.kind ≠ 0x29 ∧ t.kind ≠ 0x56 := by
  obtain ⟨dimensions, element⟩ := t
  cases dimensions with
  | succ n => exact ⟨by simp [kind], by simp [kind]⟩
  | zero =>
    cases element with
    | base type => cases type <;> decide
    | object name => exact ⟨by simp [kind], by simp [kind]⟩

private theorem FieldType.head?_text (t : FieldType) : t.text.head? = some t.kind := by
  obtain ⟨dimensions, element⟩ := t
  cases dimensions with
  | succ n => rfl
  | zero => cases element <;> rfl

private theorem FieldType.exists_text_eq_cons (t : FieldType) : ∃ tail, t.text = t.kind :: tail :=
  List.head?_eq_some_iff.mp t.head?_text

private theorem ReturnType.head?_text (r : ReturnType) : r.text.head? = some r.kind := by
  cases r with
  | void => rfl
  | value type => exact type.head?_text

end Kinds

namespace Descriptor

variable {t rest : Text} {offset : Nat}

section Fields

variable {type : FieldType}

private theorem readField_text (formed : type.WellFormed) (offset : Nat) (rest : Text) :
    readField offset (type.text ++ rest) = .ok (type, rest) := by
  obtain ⟨n, e⟩ := type
  obtain ⟨few, element⟩ := formed
  obtain ⟨b, tail, text_eq, other⟩ := e.exists_text_eq_cons
  have brackets : ∀ x ∈ List.replicate n (0x5B : UInt8), decide (x = 0x5B) = true := by
    intro x member
    exact decide_eq_true (List.eq_of_mem_replicate member)
  have front : ((FieldType.mk n e).text ++ rest).takeWhile (· = 0x5B) = List.replicate n 0x5B := by
    rw [FieldType.text, List.append_assoc, List.takeWhile_append_of_pos brackets, text_eq]
    simp [other]
  have back : ((FieldType.mk n e).text ++ rest).dropWhile (· = 0x5B) = e.text ++ rest := by
    rw [FieldType.text, List.append_assoc, List.dropWhile_append_of_pos brackets, text_eq]
    simp [other]
  have small : ¬ maxDimensions < n := Nat.not_lt.mpr few
  rw [readField]
  simp only [front, back, List.length_replicate, small, if_false, readElement_text element]
  rfl

private theorem eq_text_of_readField (read : readField offset t = .ok (type, rest)) :
    type.WellFormed ∧ t = type.text ++ rest := by
  rw [readField] at read
  dsimp only at read
  split_ifs at read with many
  · cases read
  · obtain ⟨⟨e, after⟩, found, read⟩ := exists_of_bind_eq_ok read
    cases read
    obtain ⟨element, back⟩ := eq_text_of_readElement found
    refine ⟨⟨Nat.le_of_not_lt many, element⟩, ?_⟩
    have front : t.takeWhile (· = 0x5B) =
        List.replicate (t.takeWhile (· = 0x5B)).length 0x5B := by
      refine List.eq_replicate_of_mem fun x member => ?_
      simpa using List.mem_takeWhile_imp member
    rw [FieldType.text, List.append_assoc, ← back, ← front, List.takeWhile_append_dropWhile]

private theorem readReturn_text {r : ReturnType} (formed : r.WellFormed) (offset : Nat)
    (rest : Text) : readReturn offset (r.text ++ rest) = .ok (r, rest) := by
  cases r with
  | void => rfl
  | value type =>
    obtain ⟨tail, text_eq⟩ := type.exists_text_eq_cons
    have notVoid : ∀ other, type.text ++ rest = 0x56 :: other → False := by
      intro other same
      rw [text_eq] at same
      exact type.kind_ne.2 (List.cons.inj same).1
    have read := readField_text formed offset rest
    rw [ReturnType.text, readReturn.eq_2 offset _ notVoid, read]
    rfl

private theorem eq_text_of_readReturn {r : ReturnType}
    (read : readReturn offset t = .ok (r, rest)) : r.WellFormed ∧ t = r.text ++ rest := by
  unfold readReturn at read
  split at read
  · cases read
    exact ⟨trivial, rfl⟩
  · rcases found : readField offset t with problem | ⟨type, after⟩
    · rw [found] at read
      cases read
    · rw [found] at read
      cases read
      exact eq_text_of_readField found

end Fields

section Parameters

variable {parameters : List FieldType}

private theorem readParameters_text (formed : ∀ p ∈ parameters, p.WellFormed) (offset : Nat)
    (found : List FieldType) (rest : Text) {fuel : Nat} (enough : parameters.length < fuel) :
    readParameters fuel offset found (parameters.flatMap FieldType.text ++ 0x29 :: rest) =
      .ok (found.reverse ++ parameters,
        offset + (parameters.flatMap FieldType.text).length + 1, rest) := by
  induction parameters generalizing fuel offset found with
  | nil =>
    obtain _ | fuel := fuel
    · cases enough
    · simp [readParameters]
  | cons p parameters ih =>
    obtain _ | fuel := fuel
    · cases enough
    · obtain ⟨own, others⟩ := List.forall_mem_cons.mp formed
      obtain ⟨tail, text_eq⟩ := p.exists_text_eq_cons
      have start : (p :: parameters).flatMap FieldType.text ++ 0x29 :: rest =
          p.kind :: (tail ++ (parameters.flatMap FieldType.text ++ 0x29 :: rest)) := by
        simp [text_eq]
      -- A parameter cannot be taken for the end, as no type starts with a parenthesis.
      have read := readField_text own offset (parameters.flatMap FieldType.text ++ 0x29 :: rest)
      rw [text_eq, List.cons_append] at read
      have later := ih others (offset + p.text.length) (p :: found)
        (Nat.lt_of_succ_lt_succ enough)
      rw [start, readParameters, if_neg p.kind_ne.1, read]
      dsimp only
      rw [later]
      simp [Nat.add_assoc]

private theorem eq_texts_of_readParameters {fuel offset' : Nat} {found all : List FieldType}
    (read : readParameters fuel offset found t = .ok (all, offset', rest)) :
    ∃ parameters, (∀ p ∈ parameters, p.WellFormed) ∧ all = found.reverse ++ parameters ∧
      t = parameters.flatMap FieldType.text ++ 0x29 :: rest := by
  fun_induction readParameters fuel offset found t with
  | case1 => cases read
  | case2 => cases read
  | case3 fuel offset found after =>
    cases read
    exact ⟨[], List.forall_mem_nil _, (List.append_nil _).symm, rfl⟩
  | case4 fuel offset found b t notEnd type after field ih =>
    obtain ⟨own, split⟩ := eq_text_of_readField field
    obtain ⟨parameters, others, rfl, rfl⟩ := ih read
    refine ⟨type :: parameters, List.forall_mem_cons.mpr ⟨own, others⟩, by simp, ?_⟩
    rw [split, List.flatMap_cons, List.append_assoc]
  | case5 => cases read

end Parameters

private theorem parseField_eq_ok_iff {type : FieldType} :
    parseField t = .ok type ↔ type.WellFormed ∧ type.text = t := by
  constructor
  · intro parsed
    unfold parseField at parsed
    split at parsed
    · rename_i found read
      cases parsed
      obtain ⟨formed, whole⟩ := eq_text_of_readField read
      exact ⟨formed, (whole.trans (List.append_nil _)).symm⟩
    · cases parsed
    · cases parsed
  · rintro ⟨formed, rfl⟩
    have read := readField_text formed 0 []
    rw [List.append_nil] at read
    rw [parseField, read]

private theorem length_le_length_flatMap_text (parameters : List FieldType) :
    parameters.length ≤ (parameters.flatMap FieldType.text).length := by
  induction parameters with
  | nil => exact Nat.le_refl 0
  | cons p parameters ih =>
    obtain ⟨tail, text_eq⟩ := p.exists_text_eq_cons
    rw [List.flatMap_cons, text_eq, List.length_append, List.length_cons, List.length_cons]
    omega

private theorem readMethod_text {m : MethodType} (formed : m.WellFormed) :
    readMethod m.text = .ok m := by
  obtain ⟨parameters, result⟩ := m
  obtain ⟨fields, returned⟩ := formed
  have enough : parameters.length <
      (parameters.flatMap FieldType.text ++ 0x29 :: result.text).length + 1 := by
    have fewer := length_le_length_flatMap_text parameters
    rw [List.length_append]
    omega
  have first := readParameters_text fields 1 [] result.text enough
  have second := readReturn_text returned
    (1 + (parameters.flatMap FieldType.text).length + 1) []
  rw [List.append_nil] at second
  rw [MethodType.text, readMethod, first]
  change (readReturn _ result.text >>= _) = _
  rw [second]
  rfl

private theorem eq_text_of_readMethod {m : MethodType} (read : readMethod t = .ok m) :
    m.WellFormed ∧ m.text = t := by
  unfold readMethod at read
  split at read
  · rename_i after
    obtain ⟨⟨parameters, offset, behind⟩, first, read⟩ := exists_of_bind_eq_ok read
    obtain ⟨⟨result, left⟩, second, read⟩ := exists_of_bind_eq_ok read
    dsimp only at first second read
    split_ifs at read with none
    cases read
    obtain ⟨_, fields, rfl, rfl⟩ := eq_texts_of_readParameters first
    obtain ⟨returned, rfl⟩ := eq_text_of_readReturn second
    rw [List.isEmpty_iff] at none
    refine ⟨⟨fields, returned⟩, ?_⟩
    rw [MethodType.text, none, List.append_nil]
  · cases read

private theorem parseMethod_eq_ok_iff {m : MethodType} :
    parseMethod t = .ok m ↔ m.WellFormed ∧ m.text = t := by
  constructor
  · intro parsed
    apply eq_text_of_readMethod
    unfold parseMethod at parsed
    split at parsed
    · rename_i read
      cases parsed
      exact read
    · cases parsed
  · rintro ⟨formed, rfl⟩
    rw [parseMethod, readMethod_text formed]

section Grammar

private theorem isElementText_iff :
    IsElementText t ↔ ∃ e : ElementType, e.WellFormed ∧ e.text = t := by
  constructor
  · rintro (⟨letter⟩ | ⟨named, closed⟩)
    · obtain ⟨type, rfl⟩ := BaseType.exists_letter_iff.mpr letter
      exact ⟨.base type, trivial, rfl⟩
    · exact ⟨.object _, ⟨named, closed⟩, rfl⟩
  · rintro ⟨e, formed, rfl⟩
    cases e with
    | base type => exact .base (BaseType.exists_letter_iff.mp ⟨type, rfl⟩)
    | object name => exact .object formed.1 formed.2

private theorem isFieldText_iff :
    IsFieldText t ↔ ∃ type : FieldType, type.WellFormed ∧ type.text = t := by
  constructor
  · rintro (⟨element⟩ | @⟨n, _, positive, few, element⟩)
    · obtain ⟨e, formed, rfl⟩ := isElementText_iff.mp element
      exact ⟨⟨0, e⟩, ⟨Nat.zero_le _, formed⟩, rfl⟩
    · obtain ⟨e, formed, rfl⟩ := isElementText_iff.mp element
      exact ⟨⟨n, e⟩, ⟨few, formed⟩, rfl⟩
  · rintro ⟨⟨n, e⟩, ⟨few, formed⟩, rfl⟩
    have element : IsElementText e.text := isElementText_iff.mpr ⟨e, formed, rfl⟩
    cases n with
    | zero => exact .element element
    | succ n => exact .array (Nat.succ_le_succ (Nat.zero_le n)) few element

private theorem isReturnText_iff :
    (t = [0x56] ∨ IsFieldText t) ↔ ∃ r : ReturnType, r.WellFormed ∧ r.text = t := by
  constructor
  · rintro (rfl | field)
    · exact ⟨.void, trivial, rfl⟩
    · obtain ⟨type, formed, rfl⟩ := isFieldText_iff.mp field
      exact ⟨.value type, formed, rfl⟩
  · rintro ⟨r, formed, rfl⟩
    cases r with
    | void => exact Or.inl rfl
    | value type => exact Or.inr (isFieldText_iff.mpr ⟨type, formed, rfl⟩)

private theorem exists_map_text {texts : List Text} (fields : ∀ p ∈ texts, IsFieldText p) :
    ∃ types : List FieldType, (∀ p ∈ types, p.WellFormed) ∧ types.map FieldType.text = texts := by
  induction texts with
  | nil => exact ⟨[], List.forall_mem_nil _, rfl⟩
  | cons p texts ih =>
    obtain ⟨own, others⟩ := List.forall_mem_cons.mp fields
    obtain ⟨type, formed, rfl⟩ := isFieldText_iff.mp own
    obtain ⟨types, all, rfl⟩ := ih others
    exact ⟨type :: types, List.forall_mem_cons.mpr ⟨formed, all⟩, rfl⟩

private theorem isMethodText_iff {parameters : List Text} {result : Text} :
    IsMethodText t parameters result ↔
      ∃ m, parseMethod t = .ok m ∧ m.parameters.map FieldType.text = parameters ∧
        m.result.text = result := by
  constructor
  · rintro ⟨fields, returned, rfl⟩
    obtain ⟨types, formed, rfl⟩ := exists_map_text fields
    obtain ⟨r, resultFormed, rfl⟩ := isReturnText_iff.mp returned
    refine ⟨⟨types, r⟩, parseMethod_eq_ok_iff.mpr ⟨⟨formed, resultFormed⟩, ?_⟩, rfl, rfl⟩
    rw [MethodType.text, List.flatMap_def]
  · rintro ⟨m, parsed, rfl, rfl⟩
    obtain ⟨formed, rfl⟩ := parseMethod_eq_ok_iff.mp parsed
    refine ⟨?_, isReturnText_iff.mpr ⟨m.result, formed.result, rfl⟩, ?_⟩
    · intro p member
      obtain ⟨type, own, rfl⟩ := List.mem_map.mp member
      exact isFieldText_iff.mpr ⟨type, formed.parameters type own, rfl⟩
    · rw [MethodType.text, List.flatMap_def]

end Grammar

/-- Parsing accepts exactly the texts of the grammar and loses nothing. A method type has the text
it was read from, its parameters and its return type are the only parts the text can be taken apart
into, and each part on its own is read as the same type, whose kind is the byte it starts with. -/
theorem parse_accepts_exactly_grammar (t : Text) :
    ((∃ m, parseMethod t = .ok m) ↔ ∃ parameters result, IsMethodText t parameters result) ∧
      (∀ m, parseMethod t = .ok m →
        m.text = t ∧
        (∀ parameters result, IsMethodText t parameters result ↔
          parameters = m.parameters.map FieldType.text ∧ result = m.result.text) ∧
        (∀ p ∈ m.parameters, p.text.head? = some p.kind ∧ parseField p.text = .ok p) ∧
        m.result.text.head? = some m.result.kind ∧
        ∀ type, m.result = .value type → parseField type.text = .ok type) ∧
      ((∃ type, parseField t = .ok type) ↔ IsFieldText t) ∧
      ∀ type, parseField t = .ok type → type.text = t ∧ t.head? = some type.kind := by
  refine ⟨?_, ?_, ?_, ?_⟩
  · constructor
    · rintro ⟨m, parsed⟩
      exact ⟨_, _, isMethodText_iff.mpr ⟨m, parsed, rfl, rfl⟩⟩
    · rintro ⟨parameters, result, parts⟩
      obtain ⟨m, parsed, -⟩ := isMethodText_iff.mp parts
      exact ⟨m, parsed⟩
  · intro m parsed
    obtain ⟨formed, whole⟩ := parseMethod_eq_ok_iff.mp parsed
    refine ⟨whole, ?_, ?_, m.result.head?_text, ?_⟩
    · intro parameters result
      constructor
      · intro parts
        obtain ⟨m', parsed', rfl, rfl⟩ := isMethodText_iff.mp parts
        rw [parsed] at parsed'
        cases parsed'
        exact ⟨rfl, rfl⟩
      · rintro ⟨rfl, rfl⟩
        exact isMethodText_iff.mpr ⟨m, parsed, rfl, rfl⟩
    · intro p member
      exact ⟨p.head?_text, parseField_eq_ok_iff.mpr ⟨formed.parameters p member, rfl⟩⟩
    · intro type value
      have returned := formed.result
      rw [value] at returned
      exact parseField_eq_ok_iff.mpr ⟨returned, rfl⟩
  · rw [isFieldText_iff]
    exact exists_congr fun type => parseField_eq_ok_iff
  · intro type parsed
    obtain ⟨-, rfl⟩ := parseField_eq_ok_iff.mp parsed
    exact ⟨rfl, type.head?_text⟩

theorem parse_accepts_mixedDescriptor :
    parseMethod "(D[[ILa(b)c;Z)L);" = .ok ⟨[⟨0, .base .double⟩, ⟨2, .base .int⟩,
        ⟨0, .object "a(b)c"⟩, ⟨0, .base .boolean⟩], .value ⟨0, .object ")"⟩⟩ ∧
      IsMethodText "(D[[ILa(b)c;Z)L);" ["D", "[[I", "La(b)c;", "Z"] "L);" ∧
      parseField "La(b)c;" = .ok ⟨0, .object "a(b)c"⟩ := by
  have parsed : parseMethod "(D[[ILa(b)c;Z)L);" = .ok ⟨[⟨0, .base .double⟩, ⟨2, .base .int⟩,
      ⟨0, .object "a(b)c"⟩, ⟨0, .base .boolean⟩], .value ⟨0, .object ")"⟩⟩ := by
    decide +kernel
  obtain ⟨-, method, -⟩ := parse_accepts_exactly_grammar "(D[[ILa(b)c;Z)L);"
  obtain ⟨-, parts, fields, -⟩ := method _ parsed
  refine ⟨parsed, (parts _ _).mpr ⟨by decide +kernel, by decide +kernel⟩, ?_⟩
  have field := (fields ⟨0, .object "a(b)c"⟩ (by decide)).2
  have text : (FieldType.mk 0 (.object "a(b)c")).text = "La(b)c;" := by decide +kernel
  rw [← text]
  exact field

end Descriptor

end JvmAssembler
