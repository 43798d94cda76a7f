import JvmAssembler.Disk.FileTree
import JvmAssembler.Store
import Mathlib.Data.List.Basic

/-!
# Paths and the locations they name

A path names a location by its segments, whether or not anything stands there. Cleaning a path
keeps that location, and the path of a class in a store names the place that the class name, taken
apart at its slashes, has below the store's root.
-/

set_option autoImplicit false
set_option relaxedAutoImplicit false

namespace JvmAssembler

namespace Text

variable {separator : UInt8}

private theorem foldl_splitOn (t : Text) : ∀ (done : List Text) (current : Text),
    let last := t.foldl
      (fun (state : List Text × Text) b =>
        if b = separator then (state.2.reverse :: state.1, []) else (state.1, b :: state.2))
      (done, current)
    (last.2.reverse :: last.1).reverse =
      done.reverse ++ List.splitOnPPrepend (· == separator) t current := by
  induction t with
  | nil =>
    intro done current
    simp [List.splitOnPPrepend]
  | cons b t ih =>
    intro done current
    by_cases isSeparator : b = separator
    · have rest := ih (current.reverse :: done) []
      simpa [List.splitOnPPrepend, isSeparator] using rest
    · have rest := ih done (b :: current)
      simpa [List.splitOnPPrepend, isSeparator] using rest

theorem splitOn_eq (t : Text) : splitOn separator t = List.splitOn separator t := by
  have whole := @foldl_splitOn separator t [] []
  rw [List.splitOn_eq_splitOnP, List.splitOnP_eq_splitOnPPrepend]
  simpa [splitOn] using whole

private theorem join_eq (pieces : List Text) :
    join [separator] pieces = [separator].intercalate pieces := by
  induction pieces with
  | nil => rfl
  | cons piece pieces ih =>
    cases pieces with
    | nil => simp [join]
    | cons next pieces =>
      rw [List.intercalate_cons_of_ne_nil (by simp), ← ih]
      simp [join]

theorem splitOn_append_separator (front back : Text) :
    splitOn separator (front ++ separator :: back) =
      splitOn separator front ++ splitOn separator back := by
  simp only [splitOn_eq]
  exact List.splitOn_append_cons_of_beq front back (beq_self_eq_true separator)

theorem join_splitOn (t : Text) : join [separator] (splitOn separator t) = t := by
  rw [join_eq, splitOn_eq]
  exact List.intercalate_splitOn separator

theorem splitOn_join {pieces : List Text} (free : ∀ piece ∈ pieces, separator ∉ piece)
    (nonempty : pieces ≠ []) : splitOn separator (join [separator] pieces) = pieces := by
  rw [join_eq, splitOn_eq]
  exact List.splitOn_intercalate separator free nonempty

theorem splitOn_ne_nil (t : Text) : splitOn separator t ≠ [] := by
  rw [splitOn_eq, List.splitOn_eq_splitOnP]
  exact List.splitOnP_ne_nil _ t

private theorem not_mem_of_mem_splitOn {t piece : Text} (member : piece ∈ splitOn separator t) :
    separator ∉ piece := by
  rw [splitOn_eq] at member
  induction t generalizing piece with
  | nil =>
    rw [List.splitOn_nil, List.mem_singleton] at member
    subst member
    exact List.not_mem_nil
  | cons b t ih =>
    rw [List.splitOn_cons_eq_if_modifyHead] at member
    split_ifs at member with isSeparator
    · rcases List.mem_cons.mp member with rfl | later
      · exact List.not_mem_nil
      · exact ih later
    · rcases parts : List.splitOn separator t with _ | ⟨first, others⟩
      · rw [parts] at member
        cases member
      · rw [parts] at member ih
        rcases List.mem_cons.mp member with rfl | later
        · intro found
          rcases List.mem_cons.mp found with rfl | inside
          · exact isSeparator (beq_self_eq_true separator)
          · exact ih List.mem_cons_self inside
        · exact ih (List.mem_cons_of_mem first later)

private theorem splitOn_append {t extension : Text} (free : separator ∉ extension) :
    ∃ (front : List Text) (last : Text), splitOn separator t = front ++ [last] ∧
      splitOn separator (t ++ extension) = front ++ [last ++ extension] := by
  obtain ⟨front, last, parts⟩ := List.eq_nil_or_concat (splitOn separator t) |>.resolve_left
    (splitOn_ne_nil t)
  rw [List.concat_eq_append] at parts
  have pieces : ∀ piece ∈ front ++ [last], separator ∉ piece := by
    intro piece member
    exact not_mem_of_mem_splitOn (parts ▸ member)
  have extended : t ++ extension = join [separator] (front ++ [last ++ extension]) := by
    have whole : join [separator] (front ++ [last]) = t := by
      rw [← parts, join_splitOn]
    rw [← whole]
    cases front with
    | nil => simp [join]
    | cons first front => simp [join]
  refine ⟨front, last, parts, ?_⟩
  rw [extended, splitOn_join ?_ (by simp)]
  intro piece member
  rcases List.mem_append.mp member with early | final
  · exact pieces piece (List.mem_append_left [last] early)
  · cases List.mem_singleton.mp final
    intro found
    rcases List.mem_append.mp found with inLast | inExtension
    · exact pieces last (by simp) inLast
    · exact free inExtension

end Text

namespace Path

structure IsPlain (segment : Text) : Prop where
  nonempty : segment ≠ []
  ne_here : segment ≠ here
  ne_above : segment ≠ above

private theorem segment_cases (segment : Text) :
    (segment = [] ∨ segment = here) ∨ segment = above ∨ IsPlain segment := by
  by_cases skipped : segment = [] ∨ segment = here
  · exact .inl skipped
  · by_cases up : segment = above
    · exact .inr (.inl up)
    · obtain ⟨nonempty, ne_here⟩ := not_or.mp skipped
      exact .inr (.inr ⟨nonempty, ne_here, up⟩)

def step (l : Location) (segment : Text) : Location :=
  if segment = [] ∨ segment = here then l
  else if segment = above then l.dropLast
  else l ++ [segment]

def follow (l : Location) (segments : List Text) : Location := segments.foldl step l

section

variable {l : Location}

private theorem step_plain {segment : Text} (plain : IsPlain segment) :
    step l segment = l ++ [segment] := by
  rw [step, if_neg (not_or.mpr ⟨plain.nonempty, plain.ne_here⟩), if_neg plain.ne_above]

private theorem follow_append (front back : List Text) :
    follow l (front ++ back) = follow (follow l front) back := List.foldl_append

private theorem follow_plain {segments : List Text} (plain : ∀ s ∈ segments, IsPlain s) :
    follow l segments = l ++ segments := by
  induction segments generalizing l with
  | nil => exact (List.append_nil l).symm
  | cons segment segments ih =>
    obtain ⟨first, others⟩ := List.forall_mem_cons.mp plain
    change follow (step l segment) segments = _
    rw [ih others, step_plain first, List.append_assoc]
    rfl

private theorem follow_splitOn_join {segments : List Text} (free : ∀ s ∈ segments, slash ∉ s) :
    follow l (Text.splitOn slash (Text.join [slash] segments)) = follow l segments := by
  cases segments with
  | nil => rfl
  | cons segment segments => rw [Text.splitOn_join free (List.cons_ne_nil segment segments)]

end

structure IsKept (segment : Text) : Prop where
  nonempty : segment ≠ []
  ne_here : segment ≠ here
  free : slash ∉ segment

section

variable {rooted : Bool} {kept : List Text} {segment : Text}

private theorem isKept_above : IsKept above := ⟨by decide, by decide, by decide⟩

theorem cleanStep_plain (plain : IsPlain segment) :
    cleanStep rooted kept segment = segment :: kept := by
  unfold cleanStep
  rw [if_neg (not_or.mpr ⟨plain.nonempty, plain.ne_here⟩), if_neg plain.ne_above]

private theorem isKept_cleanStep (before : ∀ s ∈ kept, IsKept s) (free : slash ∉ segment) :
    ∀ s ∈ cleanStep rooted kept segment, IsKept s := by
  rcases segment_cases segment with skipped | rfl | plain
  · unfold cleanStep
    rwa [if_pos skipped]
  · cases kept with
    | nil =>
      cases rooted with
      | true => exact List.forall_mem_nil _
      | false => exact List.forall_mem_singleton.mpr isKept_above
    | cons last rest =>
      change ∀ s ∈ if last = above then above :: last :: rest else rest, IsKept s
      split_ifs with goesUp
      · exact List.forall_mem_cons.mpr ⟨isKept_above, before⟩
      · exact (List.forall_mem_cons.mp before).2
  · rw [cleanStep_plain plain]
    exact List.forall_mem_cons.mpr ⟨⟨plain.nonempty, plain.ne_here, free⟩, before⟩

private theorem follow_cleanStep {l : Location} (start : rooted = true → l = [])
    (before : ∀ s ∈ kept, IsKept s) :
    follow l (cleanStep rooted kept segment).reverse = step (follow l kept.reverse) segment := by
  rcases segment_cases segment with skipped | rfl | plain
  · unfold cleanStep step
    rw [if_pos skipped, if_pos skipped]
  · cases kept with
    | nil =>
      cases rooted with
      | true =>
        rw [start rfl]
        rfl
      | false => rfl
    | cons last rest =>
      change follow l (if last = above then above :: last :: rest else rest).reverse = _
      split_ifs with goesUp
      · rw [List.reverse_cons, follow_append]
        rfl
      · -- Going down and up again leads back, since the segment taken back is a plain one.
        have first := before last List.mem_cons_self
        rw [List.reverse_cons, follow_append]
        change _ = (step (follow l rest.reverse) last).dropLast
        rw [step_plain ⟨first.nonempty, first.ne_here, goesUp⟩, List.dropLast_concat]
  · rw [cleanStep_plain plain, List.reverse_cons, follow_append]
    rfl

private theorem foldl_cleanStep {l : Location} (start : rooted = true → l = [])
    {segments : List Text} (free : ∀ s ∈ segments, slash ∉ s) (before : ∀ s ∈ kept, IsKept s) :
    (∀ s ∈ segments.foldl (cleanStep rooted) kept, IsKept s) ∧
      follow l (segments.foldl (cleanStep rooted) kept).reverse =
        follow (follow l kept.reverse) segments := by
  induction segments generalizing kept with
  | nil => exact ⟨before, rfl⟩
  | cons segment segments ih =>
    obtain ⟨first, others⟩ := List.forall_mem_cons.mp free
    obtain ⟨all, led⟩ := ih others (isKept_cleanStep before first)
    refine ⟨all, led.trans ?_⟩
    rw [follow_cleanStep start before]
    rfl

end

theorem isKept_of_mem_cleanSegments {path s : Text} (member : s ∈ cleanSegments path) :
    IsKept s := by
  have free : ∀ s ∈ Text.splitOn slash path, slash ∉ s := fun _ => Text.not_mem_of_mem_splitOn
  have start : isRooted path = true → ([] : Location) = [] := fun _ => rfl
  exact (foldl_cleanStep start free (List.forall_mem_nil _)).1 s (List.mem_reverse.mp member)

private theorem follow_cleanSegments {path : Text} {l : Location}
    (start : isRooted path = true → l = []) :
    follow l (cleanSegments path) = follow l (Text.splitOn slash path) :=
  (foldl_cleanStep start (fun _ => Text.not_mem_of_mem_splitOn) (List.forall_mem_nil _)).2

theorem isRooted_join {segments : List Text} (kept : ∀ s ∈ segments, IsKept s) :
    isRooted (Text.join [slash] segments) = false := by
  cases segments with
  | nil => rfl
  | cons segment segments =>
    have first := kept segment List.mem_cons_self
    cases segment with
    | nil => exact absurd rfl first.nonempty
    | cons b segment =>
      have other : b ≠ slash := fun same => first.free (same ▸ List.mem_cons_self)
      simp [isRooted, Text.join, other]

theorem eq_nil_of_join_eq_nil {segments : List Text} (kept : ∀ s ∈ segments, IsKept s)
    (nothing : Text.join [slash] segments = []) : segments = [] := by
  cases segments with
  | nil => rfl
  | cons segment segments =>
    have empty := (List.append_eq_nil_iff.mp nothing).1
    exact absurd empty (kept segment List.mem_cons_self).nonempty

end Path

namespace FileTree

def base (t : FileTree) (path : Text) : Location :=
  if Path.isRooted path then [] else t.workingDirectory

def locate (t : FileTree) (path : Text) : Location :=
  Path.follow (t.base path) (Text.splitOn Path.slash path)

open JvmAssembler.Path (slash here isRooted isRooted_join eq_nil_of_join_eq_nil clean cleanSegments
  follow)

private theorem locate_clean (t : FileTree) (path : Text) :
    t.locate (clean path) = t.locate path := by
  have kept : ∀ s ∈ cleanSegments path, Path.IsKept s := fun _ => Path.isKept_of_mem_cleanSegments
  have free : ∀ s ∈ cleanSegments path, slash ∉ s := fun s member => (kept s member).free
  have start : isRooted path = true → t.base path = [] := fun rooted => if_pos rooted
  have same : follow (t.base path) (cleanSegments path) = t.locate path :=
    Path.follow_cleanSegments start
  rw [← same, clean]
  split_ifs with rooted nothing
  · have split : Text.splitOn slash (slash :: Text.join [slash] (cleanSegments path)) =
        [] :: Text.splitOn slash (Text.join [slash] (cleanSegments path)) :=
      Text.splitOn_append_separator [] _
    rw [locate, split, start rooted]
    exact Path.follow_splitOn_join free
  · rw [eq_nil_of_join_eq_nil kept nothing]
    have unrooted : isRooted here = isRooted path := (Bool.eq_false_iff.mpr rooted).symm
    rw [locate, base, base, unrooted]
    rfl
  · have unrooted : isRooted (Text.join [slash] (cleanSegments path)) = isRooted path :=
      (isRooted_join kept).trans (Bool.eq_false_iff.mpr rooted).symm
    rw [locate, Path.follow_splitOn_join free, base, base, unrooted]

private theorem locate_join (t : FileTree) (first : Text) {second : Text} (nonempty : second ≠ [])
    (relative : isRooted second = false) :
    t.locate (Path.join first second) = follow (t.locate first) (Text.splitOn slash second) := by
  rw [Path.join, if_neg nonempty]
  split_ifs with empty
  · subst empty
    rw [locate_clean, locate, base, relative]
    rfl
  · obtain ⟨b, tail, rfl⟩ := List.exists_cons_of_ne_nil empty
    rw [locate_clean, locate, Text.splitOn_append_separator, Path.follow_append]
    rfl

theorem isBelow_append (top : Location) {segments : List Text} (nonempty : segments ≠ []) :
    isBelow top (top ++ segments) = true := by
  have positive := List.length_pos_iff.mpr nonempty
  simp [isBelow, positive]

end FileTree

namespace Store

open JvmAssembler.Path (slash IsPlain)

theorem validateName_eq_ok_iff {name : Text} : validateName name = .ok () ↔
    name ≠ [] ∧ Path.isRooted name = false ∧ 0x5C ∉ name ∧ Path.clean name = name ∧
      ∀ s ∈ Text.splitOn slash name, s ≠ Path.here ∧ s ≠ Path.above := by
  unfold validateName
  split_ifs with empty marked unclean dotted
  · simp [empty]
  · rw [false_iff]
    rintro ⟨-, unrooted, noBackslash, -⟩
    rcases marked with rooted | backslash
    · rw [unrooted] at rooted
      cases rooted
    · exact noBackslash (List.contains_iff_mem.mp backslash)
  · simp [unclean]
  · rw [false_iff]
    rintro ⟨-, -, -, -, noDots⟩
    obtain ⟨s, member, dots⟩ := List.any_eq_true.mp dotted
    rcases of_decide_eq_true dots with rfl | rfl
    · exact (noDots _ member).1 rfl
    · exact (noDots _ member).2 rfl
  · obtain ⟨unrooted, noBackslash⟩ := not_or.mp marked
    refine iff_of_true rfl ⟨empty, Bool.eq_false_iff.mpr unrooted, ?_, not_not.mp unclean, ?_⟩
    · intro member
      exact noBackslash (List.contains_iff_mem.mpr member)
    · intro s member
      refine not_or.mp fun dots => dotted (List.any_eq_true.mpr ⟨s, member, ?_⟩)
      exact decide_eq_true dots

private theorem foldl_cleanStep_of_no_dots {rooted : Bool} {segments : List Text}
    (noDots : ∀ s ∈ segments, s ≠ Path.here ∧ s ≠ Path.above) (kept : List Text) :
    segments.foldl (Path.cleanStep rooted) kept = (segments.filter (· ≠ [])).reverse ++ kept := by
  induction segments generalizing kept with
  | nil => rfl
  | cons segment segments ih =>
    obtain ⟨⟨ne_here, ne_above⟩, others⟩ := List.forall_mem_cons.mp noDots
    rw [List.foldl_cons, ih others]
    by_cases empty : segment = []
    · simp [Path.cleanStep, empty]
    · simp [Path.cleanStep, empty, ne_here, ne_above]

theorem isPlain_of_validateName {name : Text} (valid : validateName name = .ok ()) :
    ∀ s ∈ Text.splitOn slash name, IsPlain s := by
  obtain ⟨notEmpty, unrooted, -, isClean, noDots⟩ := validateName_eq_ok_iff.mp valid
  have segments_eq : Path.cleanSegments name = (Text.splitOn slash name).filter (· ≠ []) := by
    rw [Path.cleanSegments, foldl_cleanStep_of_no_dots noDots, List.append_nil,
      List.reverse_reverse]
  have clean_eq : Text.join [slash] (Path.cleanSegments name) = name := by
    rw [Path.clean, unrooted, if_neg Bool.false_ne_true] at isClean
    split_ifs at isClean with nothing
    · have dot := noDots Path.here
      rw [← isClean] at dot
      exact absurd rfl (dot List.mem_cons_self).1
    · exact isClean
  have nonempty : Path.cleanSegments name ≠ [] := by
    intro nothing
    rw [nothing] at clean_eq
    exact notEmpty clean_eq.symm
  -- The name is its own clean form, so no segment was dropped as empty.
  have split_eq : Text.splitOn slash name = Path.cleanSegments name := by
    have free : ∀ s ∈ Path.cleanSegments name, slash ∉ s := fun s member =>
      (Path.isKept_of_mem_cleanSegments member).free
    rw [← Text.splitOn_join free nonempty, clean_eq]
  intro s member
  have inFilter : s ∈ (Text.splitOn slash name).filter (· ≠ []) := by
    rw [← segments_eq, ← split_eq]
    exact member
  obtain ⟨ne_here, ne_above⟩ := noDots s member
  exact ⟨by simpa using (List.mem_filter.mp inFilter).2, ne_here, ne_above⟩

def segments (name : Text) : List Text := Text.splitOn slash (name ++ classExtension)

theorem segments_ne_nil (name : Text) : segments name ≠ [] := Text.splitOn_ne_nil _

private theorem segments_injective : Function.Injective segments := by
  intro name name' same
  have joined := congrArg (Text.join [slash]) same
  rw [segments, segments, Text.join_splitOn, Text.join_splitOn] at joined
  exact List.append_cancel_right joined

theorem isPlain_of_mem_segments {name : Text} (valid : validateName name = .ok ()) :
    ∀ s ∈ segments name, IsPlain s := by
  have free : slash ∉ classExtension := by decide
  obtain ⟨front, last, parts, extended⟩ := Text.splitOn_append (t := name) free
  rw [segments, extended]
  have plain := isPlain_of_validateName valid
  rw [parts] at plain
  intro s member
  rcases List.mem_append.mp member with early | final
  · exact plain s (List.mem_append_left [last] early)
  · cases List.mem_singleton.mp final
    have long : 6 ≤ (last ++ classExtension).length := by
      rw [List.length_append]
      exact Nat.le_add_left 6 last.length
    have ne_short : ∀ segment : Text, segment.length < 6 → last ++ classExtension ≠ segment := by
      rintro segment short rfl
      omega
    exact ⟨ne_short _ (by decide), ne_short _ (by decide), ne_short _ (by decide)⟩

end Store

theorem FileStore.locate_path (s : FileStore) (t : FileTree) {name : Text}
    (valid : Store.validateName name = .ok ()) :
    t.locate (s.path name) = t.locate s.root ++ Store.segments name := by
  obtain ⟨nonempty, unrooted, -⟩ := Store.validateName_eq_ok_iff.mp valid
  obtain ⟨b, tail, rfl⟩ := List.exists_cons_of_ne_nil nonempty
  have joined := t.locate_join s.root (List.cons_ne_nil b (tail ++ Store.classExtension)) unrooted
  exact joined.trans (Path.follow_plain (Store.isPlain_of_mem_segments valid))

theorem FileStore.locate_path_ne {s : FileStore} {t : FileTree} {name name' : Text}
    (valid : Store.validateName name = .ok ()) (valid' : Store.validateName name' = .ok ())
    (other : name ≠ name') : t.locate (s.path name) ≠ t.locate (s.path name') := by
  rw [s.locate_path t valid, s.locate_path t valid']
  intro same
  exact other (Store.segments_injective (List.append_cancel_left same))

end JvmAssembler
