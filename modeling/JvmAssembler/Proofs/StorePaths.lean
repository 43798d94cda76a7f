import JvmAssembler.Proofs.PathSegments

/-!
# Names that stay inside their store

The names that stores accept are those whose segments all go down. Below any root or key front such
a name keeps its segments, whatever dots the root has: the path or key of a class is the clean root
followed by the name. So no name leads out of its store, and no two names lead to the same place.
-/

set_option autoImplicit false
set_option relaxedAutoImplicit false

namespace JvmAssembler

private theorem Text.join_append {separator : UInt8} {front back : List Text} (before : front ≠ [])
    (behind : back ≠ []) :
    join [separator] (front ++ back) =
      join [separator] front ++ separator :: join [separator] back := by
  obtain ⟨first, front, rfl⟩ := List.exists_cons_of_ne_nil before
  obtain ⟨next, back, rfl⟩ := List.exists_cons_of_ne_nil behind
  simp [join]

namespace Path

/-- What is put below a clean path. The current directory is not written, and the root already ends
in a slash. -/
def below (base rest : Text) : Text :=
  if base = here then rest
  else if base = [slash] then slash :: rest
  else base ++ slash :: rest

section

variable {rooted : Bool} {path first second : Text} {segments : List Text}

private theorem foldl_cleanStep_plain (plain : ∀ s ∈ segments, IsPlain s) (kept : List Text) :
    segments.foldl (cleanStep rooted) kept = segments.reverse ++ kept := by
  induction segments generalizing kept with
  | nil => rfl
  | cons segment segments ih =>
    obtain ⟨down, later⟩ := List.forall_mem_cons.mp plain
    rw [List.foldl_cons, cleanStep_plain down, ih later, List.reverse_cons, List.append_assoc]
    rfl

private theorem cleanSegments_plain (plain : ∀ s ∈ Text.splitOn slash path, IsPlain s) :
    cleanSegments path = Text.splitOn slash path := by
  rw [cleanSegments, foldl_cleanStep_plain plain, List.append_nil, List.reverse_reverse]

private theorem isRooted_append (nonempty : first ≠ []) (rest : Text) :
    isRooted (first ++ rest) = isRooted first := by
  obtain ⟨b, tail, rfl⟩ := List.exists_cons_of_ne_nil nonempty
  rfl

private theorem cleanSegments_append (nonempty : first ≠ [])
    (plain : ∀ s ∈ Text.splitOn slash second, IsPlain s) :
    cleanSegments (first ++ slash :: second) =
      cleanSegments first ++ Text.splitOn slash second := by
  rw [cleanSegments, isRooted_append nonempty, Text.splitOn_append_separator, List.foldl_append,
    foldl_cleanStep_plain plain, List.reverse_append, List.reverse_reverse, cleanSegments]

private theorem join_cleanSegments_ne_nil (left : cleanSegments path ≠ []) :
    Text.join [slash] (cleanSegments path) ≠ [] := by
  intro nothing
  exact left (eq_nil_of_join_eq_nil (fun _ => isKept_of_mem_cleanSegments) nothing)

private theorem join_cleanSegments_ne_here (left : cleanSegments path ≠ []) :
    Text.join [slash] (cleanSegments path) ≠ here := by
  intro dot
  have free : ∀ s ∈ cleanSegments path, slash ∉ s := fun s member =>
    (isKept_of_mem_cleanSegments member).free
  have parts : cleanSegments path = [here] := by
    rw [← Text.splitOn_join free left, dot]
    rfl
  have member : here ∈ cleanSegments path := by rw [parts]; exact List.mem_cons_self
  exact (isKept_of_mem_cleanSegments member).ne_here rfl

private theorem clean_of_rooted (top : isRooted path = true) :
    clean path = slash :: Text.join [slash] (cleanSegments path) := by
  rw [clean, if_pos top]

private theorem clean_of_relative (relative : isRooted path = false)
    (left : cleanSegments path ≠ []) : clean path = Text.join [slash] (cleanSegments path) := by
  rw [clean, relative, if_neg Bool.false_ne_true, if_neg (join_cleanSegments_ne_nil left)]

private theorem clean_append (nonempty : first ≠ [])
    (plain : ∀ s ∈ Text.splitOn slash second, IsPlain s) :
    clean (first ++ slash :: second) = below (clean first) second := by
  have split := cleanSegments_append nonempty plain
  have behind : Text.splitOn slash second ≠ [] := Text.splitOn_ne_nil second
  have left : cleanSegments (first ++ slash :: second) ≠ [] := by
    rw [split]
    exact List.append_ne_nil_of_right_ne_nil _ behind
  have joined : cleanSegments first ≠ [] →
      Text.join [slash] (cleanSegments (first ++ slash :: second)) =
        Text.join [slash] (cleanSegments first) ++ slash :: second := by
    intro front
    rw [split, Text.join_append front behind, Text.join_splitOn]
  have alone : cleanSegments first = [] →
      Text.join [slash] (cleanSegments (first ++ slash :: second)) = second := by
    intro nothing
    rw [split, nothing, List.nil_append, Text.join_splitOn]
  have start := isRooted_append nonempty (slash :: second)
  -- If nothing is left of the first path, it comes out as a slash when it is rooted and else as a
  -- dot, and the second path stands behind the slash or alone.
  cases top : isRooted first with
  | true =>
    rw [clean_of_rooted (start.trans top), clean_of_rooted top]
    by_cases nothing : cleanSegments first = []
    · rw [alone nothing, nothing]
      rfl
    · rw [joined nothing, below, if_neg, if_neg]
      · rfl
      · intro root
        exact join_cleanSegments_ne_nil nothing (List.cons_eq_cons.mp root).2
      · intro dot
        exact absurd (List.cons_eq_cons.mp dot).1 (by decide)
  | false =>
    rw [clean_of_relative (start.trans top) left]
    by_cases nothing : cleanSegments first = []
    · have dot : clean first = here := by
        rw [clean, top, nothing]
        rfl
      rw [alone nothing, dot, below, if_pos rfl]
    · rw [joined nothing, clean_of_relative top nothing, below,
        if_neg (join_cleanSegments_ne_here nothing), if_neg]
      intro root
      have relative := isRooted_join fun s (member : s ∈ cleanSegments first) =>
        isKept_of_mem_cleanSegments member
      rw [root] at relative
      cases relative

private theorem isRooted_plain (plain : ∀ s ∈ Text.splitOn slash path, IsPlain s) :
    isRooted path = false := by
  have joined : Text.join [slash] (cleanSegments path) = path := by
    rw [cleanSegments_plain plain, Text.join_splitOn]
  rw [← joined]
  exact isRooted_join fun s member => isKept_of_mem_cleanSegments member

private theorem clean_plain (plain : ∀ s ∈ Text.splitOn slash path, IsPlain s) :
    clean path = path := by
  have segments_eq := cleanSegments_plain plain
  have left : cleanSegments path ≠ [] := by
    rw [segments_eq]
    exact Text.splitOn_ne_nil path
  rw [clean_of_relative (isRooted_plain plain) left, segments_eq, Text.join_splitOn]

end

end Path

namespace Store

open JvmAssembler.Path (slash here above IsPlain)

/-- A name is accepted exactly when it is not empty, holds no backslash, and none of its segments is
empty, a dot or two dots. -/
theorem validateName_accepts_exactly (name : Text) :
    (validateName name = .ok () ↔
      name ≠ [] ∧ 0x5C ∉ name ∧
        ∀ s ∈ List.splitOn slash name, s ≠ [] ∧ s ≠ here ∧ s ≠ above) ∧
    ∀ problem, validateName name = .error problem →
      problem = if name = [] then .emptyName else .invalidName name := by
  rw [← Text.splitOn_eq]
  refine ⟨⟨?_, ?_⟩, ?_⟩
  · intro valid
    have plain := isPlain_of_validateName valid
    obtain ⟨nonempty, -, noBackslash, -⟩ := validateName_eq_ok_iff.mp valid
    refine ⟨nonempty, noBackslash, ?_⟩
    intro s member
    exact ⟨(plain s member).nonempty, (plain s member).ne_here, (plain s member).ne_above⟩
  · rintro ⟨nonempty, noBackslash, segments⟩
    have plain : ∀ s ∈ Text.splitOn slash name, IsPlain s := by
      intro s member
      obtain ⟨visible, ne_here, ne_above⟩ := segments s member
      exact ⟨visible, ne_here, ne_above⟩
    rw [validateName_eq_ok_iff]
    refine ⟨nonempty, Path.isRooted_plain plain, noBackslash, Path.clean_plain plain, ?_⟩
    intro s member
    exact (segments s member).2
  · intro problem refused
    unfold validateName at refused
    split_ifs at refused ⊢ with empty marked unclean dotted
    · cases refused
      rfl
    · cases refused
      rfl
    · cases refused
      rfl
    · cases refused
      rfl

private theorem pathBelow_eq (root : Text) {name : Text} (valid : validateName name = .ok ()) :
    pathBelow root name = Path.below (Path.clean root) (name ++ classExtension) := by
  have plain : ∀ s ∈ Text.splitOn slash (name ++ classExtension), IsPlain s :=
    isPlain_of_mem_segments valid
  have visible : name ++ classExtension ≠ [] := by
    obtain ⟨nonempty, -⟩ := validateName_eq_ok_iff.mp valid
    exact List.append_ne_nil_of_left_ne_nil nonempty _
  rw [pathBelow, Path.join, if_neg visible]
  split_ifs with noRoot
  · rw [noRoot, Path.clean_plain plain]
    rfl
  · exact Path.clean_append noRoot plain

/-- Below any root or key front, the path or key of a class is the clean root followed by the name.
It leads strictly below the root, and two names have different paths, keys and locations. -/
theorem paths_and_keys_stay_below (root bucket : Text) {name : Text}
    (valid : validateName name = .ok ()) :
    (FileStore.mk root).path name = Path.below (Path.clean root) (name ++ classExtension) ∧
    (ObjectStore.mk bucket root).key name = Path.below (Path.clean root) (name ++ classExtension) ∧
    (∀ s ∈ List.splitOn slash (name ++ classExtension), s ≠ [] ∧ s ≠ here ∧ s ≠ above) ∧
    (∀ t : FileTree,
      FileTree.isBelow (t.locate root) (t.locate ((FileStore.mk root).path name)) = true) ∧
    ∀ other, validateName other = .ok () → other ≠ name →
      (FileStore.mk root).path other ≠ (FileStore.mk root).path name ∧
      (ObjectStore.mk bucket root).key other ≠ (ObjectStore.mk bucket root).key name ∧
      ∀ t : FileTree,
        t.locate ((FileStore.mk root).path other) ≠ t.locate ((FileStore.mk root).path name) := by
  refine ⟨pathBelow_eq root valid, pathBelow_eq root valid, ?_, ?_, ?_⟩
  · intro s member
    rw [← Text.splitOn_eq] at member
    have plain := isPlain_of_mem_segments valid s member
    exact ⟨plain.nonempty, plain.ne_here, plain.ne_above⟩
  · intro t
    rw [FileStore.locate_path ⟨root⟩ t valid]
    exact FileTree.isBelow_append _ (segments_ne_nil name)
  · intro other valid' different
    have apart : ∀ t : FileTree,
        t.locate ((FileStore.mk root).path other) ≠ t.locate ((FileStore.mk root).path name) :=
      fun t => FileStore.locate_path_ne valid' valid different
    have paths : pathBelow root other ≠ pathBelow root name := by
      intro same
      exact apart {} (congrArg (FileTree.locate {}) same)
    exact ⟨paths, paths, apart⟩

theorem paths_stay_below_climbing_root :
    validateName "com/Hello" = .ok () ∧ validateName "Hello" = .ok () ∧
      (FileStore.mk "x/../../store/.").path "com/Hello" =
        Text.ofString "../store/com/Hello.class" ∧
      (ObjectStore.mk "b" "x/../../store/.").key "com/Hello" =
        Text.ofString "../store/com/Hello.class" ∧
      (FileStore.mk "x/../../store/.").path "Hello" ≠
        (FileStore.mk "x/../../store/.").path "com/Hello" := by
  have valid : validateName "com/Hello" = .ok () := rfl
  have valid' : validateName "Hello" = .ok () := rfl
  obtain ⟨path, key, -, -, apart⟩ := paths_and_keys_stay_below "x/../../store/." "b" valid
  have place : Path.below (Path.clean "x/../../store/.") ("com/Hello" ++ classExtension) =
      Text.ofString "../store/com/Hello.class" := by decide
  exact ⟨valid, valid', path.trans place, key.trans place, (apart _ valid' (by decide)).1⟩

end Store

end JvmAssembler
