import JvmAssembler.Proofs.PathSegments

/-!
# What file operations do to a tree

Following a path depends only on where the directories are. Making directories adds directories and
changes nothing else, also where it fails on the way; writing a file changes the one location that
its path names.
-/

set_option autoImplicit false
set_option relaxedAutoImplicit false

namespace JvmAssembler.FileTree

variable {t t' t'' : FileTree} {l l' : Location} {n : Node} {path : Text}

theorem node?_nil : t.node? [] = some .directory := if_pos rfl

private theorem lookup_filter_ne (nodes : List (Location × Node)) (other : l' ≠ l) :
    (nodes.filter fun entry => entry.1 ≠ l).lookup l' = nodes.lookup l' := by
  induction nodes with
  | nil => rfl
  | cons entry nodes ih =>
    obtain ⟨place, node⟩ := entry
    by_cases same : place = l
    · subst same
      have apart : (l' == place) = false := beq_eq_false_iff_ne.mpr other
      simpa [List.lookup_cons, apart] using ih
    · simp only [ne_eq, same, not_false_eq_true, decide_true, List.filter_cons_of_pos,
        List.lookup_cons, ih]

private theorem node?_set_self (inside : l ≠ []) : (t.set l n).node? l = some n := by
  rw [node?, if_neg inside, set, List.lookup_cons, beq_self_eq_true]

theorem node?_set_of_ne (other : l' ≠ l) : (t.set l n).node? l' = t.node? l' := by
  unfold node? set
  split_ifs with isRoot
  · rfl
  · rw [List.lookup_cons, beq_eq_false_iff_ne.mpr other]
    exact lookup_filter_ne t.nodes other

def look (t : FileTree) (l : Location) : Lookup := t.walk l []

private theorem look_of_some (here : t.node? l = some n) : t.look l = .found l n := by
  rw [look, walk, here]

private theorem look_of_none (here : t.node? l = none) : t.look l = .free l := by
  rw [look, walk, here]

/-- All that is a directory stays one, and relative paths start at the same place. -/
structure KeepsDirectories (t t' : FileTree) : Prop where
  workingDirectory : t'.workingDirectory = t.workingDirectory
  directory : ∀ l, t.node? l = some .directory → t'.node? l = some .directory

private theorem KeepsDirectories.refl (t : FileTree) : KeepsDirectories t t := ⟨rfl, fun _ => id⟩

private theorem walk_eq_look (keeps : KeepsDirectories t t') {segments : List Text}
    (passed : ∀ reason, t.walk l segments ≠ .refused reason) :
    t'.walk l segments = t'.look (Path.follow l segments) := by
  induction segments generalizing l with
  | nil => rfl
  | cons segment segments ih =>
    -- A way goes on from directories only, and those are the same in both trees.
    unfold walk at passed ⊢
    rcases standing : t.node? l with _ | node
    · rw [standing] at passed
      exact absurd rfl (passed .notFound)
    · cases node with
      | file contents =>
        rw [standing] at passed
        exact absurd rfl (passed .notDirectory)
      | directory =>
        rw [standing] at passed
        rw [keeps.directory l standing]
        change _ = t'.look (Path.follow (Path.step l segment) segments)
        unfold Path.step
        dsimp only at passed ⊢
        split_ifs at passed ⊢ with skipped up long
        · exact ih passed
        · exact ih passed
        · exact absurd rfl (passed .nameTooLong)
        · exact ih passed

theorem locate_eq (same : t'.workingDirectory = t.workingDirectory) :
    t'.locate path = t.locate path := by
  unfold locate base
  rw [same]

private theorem find_eq_look (keeps : KeepsDirectories t t')
    (passed : ∀ reason, t.find path ≠ .refused reason) :
    t'.find path = t'.look (t.locate path) := by
  unfold find at passed ⊢
  rw [keeps.workingDirectory]
  split_ifs at passed ⊢ with bad empty long rooted
  · exact absurd rfl (passed .invalidArgument)
  · exact absurd rfl (passed .notFound)
  · exact absurd rfl (passed .nameTooLong)
  · rw [locate, base, if_pos rooted]
    exact walk_eq_look keeps passed
  · rw [locate, base, if_neg rooted]
    exact walk_eq_look keeps passed

theorem of_find_eq_found (given : t.find path = .found l n) :
    l = t.locate path ∧ t.node? l = some n := by
  have seen : t.find path = t.look (t.locate path) :=
    find_eq_look (.refl t) fun reason refused => by simp [refused] at given
  rcases here : t.node? (t.locate path) with _ | node
  · rw [seen, look_of_none here] at given
    cases given
  · rw [seen, look_of_some here] at given
    cases given
    exact ⟨rfl, here⟩

theorem of_find_eq_free (given : t.find path = .free l) :
    l = t.locate path ∧ t.node? l = none := by
  have seen : t.find path = t.look (t.locate path) :=
    find_eq_look (.refl t) fun reason refused => by simp [refused] at given
  rcases here : t.node? (t.locate path) with _ | node
  · rw [seen, look_of_none here] at given
    cases given
    exact ⟨rfl, here⟩
  · rw [seen, look_of_some here] at given
    cases given

theorem find_eq_found (keeps : KeepsDirectories t t') {m : Node} (before : t.find path = .found l m)
    (here : t'.node? l = some n) : t'.find path = .found l n := by
  obtain ⟨rfl, -⟩ := of_find_eq_found before
  rw [find_eq_look keeps fun reason refused => by simp [refused] at before]
  exact look_of_some here

/-- What a path leads to, if that is a file, it leads to still. Anything may be new, and nothing is
said about directories. -/
structure KeepsFiles (t t' : FileTree) : Prop where
  workingDirectory : t'.workingDirectory = t.workingDirectory
  file : ∀ path l contents, t.find path = .found l (.file contents) →
    t'.find path = .found l (.file contents)

namespace KeepsFiles

theorem refl (t : FileTree) : KeepsFiles t t := ⟨rfl, fun _ _ _ => id⟩

theorem trans (first : KeepsFiles t t') (second : KeepsFiles t' t'') : KeepsFiles t t'' :=
  ⟨second.workingDirectory.trans first.workingDirectory,
    fun path l contents found => second.file path l contents (first.file path l contents found)⟩

end KeepsFiles

/-- Directories may be new; all else stands as before. -/
structure GainsDirectories (t t' : FileTree) : Prop where
  workingDirectory : t'.workingDirectory = t.workingDirectory
  nodes : ∀ l, t'.node? l = t.node? l ∨ t.node? l = none ∧ t'.node? l = some .directory

namespace GainsDirectories

theorem refl (t : FileTree) : GainsDirectories t t := ⟨rfl, fun _ => .inl rfl⟩

private theorem trans (first : GainsDirectories t t') (second : GainsDirectories t' t'') :
    GainsDirectories t t'' := by
  refine ⟨second.workingDirectory.trans first.workingDirectory, fun l => ?_⟩
  rcases first.nodes l with same | ⟨free, made⟩
  · rw [← same]
    exact second.nodes l
  · rcases second.nodes l with same' | ⟨free', -⟩
    · exact .inr ⟨free, same'.trans made⟩
    · rw [free'] at made
      cases made

private theorem node?_of_some (gains : GainsDirectories t t') (standing : t.node? l = some n) :
    t'.node? l = some n := by
  rcases gains.nodes l with same | ⟨free, -⟩
  · exact same.trans standing
  · rw [free] at standing
    cases standing

private theorem keeps (gains : GainsDirectories t t') : KeepsDirectories t t' :=
  ⟨gains.workingDirectory, fun _ => gains.node?_of_some⟩

theorem file_of_after (gains : GainsDirectories t t') {contents : Bytes}
    (standing : t'.node? l = some (.file contents)) : t.node? l = some (.file contents) := by
  rcases gains.nodes l with same | ⟨-, made⟩
  · exact same.symm.trans standing
  · rw [made] at standing
    cases standing

theorem keepsFiles (gains : GainsDirectories t t') : KeepsFiles t t' := by
  refine ⟨gains.workingDirectory, fun path l contents found => ?_⟩
  have standing := (of_find_eq_found found).2
  exact find_eq_found gains.keeps found (gains.node?_of_some standing)

end GainsDirectories

private theorem gainsDirectories_set (free : t.node? l = none) :
    GainsDirectories t (t.set l .directory) := by
  have inside : l ≠ [] := by
    rintro rfl
    rw [node?_nil] at free
    cases free
  refine ⟨rfl, fun l' => ?_⟩
  by_cases here : l' = l
  · subst here
    exact .inr ⟨free, node?_set_self inside⟩
  · exact .inl (node?_set_of_ne here)

private theorem gainsDirectories_of_makeDirectory (given : t.makeDirectory path = .ok t') :
    GainsDirectories t t' := by
  unfold makeDirectory at given
  split at given
  · cases given
    exact .refl t
  · cases given
  · rename_i place found
    cases given
    exact gainsDirectories_set (of_find_eq_free found).2
  · cases given

private theorem gainsDirectories_makeEach (t : FileTree) (paths : List Text) :
    GainsDirectories t (t.makeEach paths).2 := by
  induction paths generalizing t with
  | nil => exact .refl t
  | cons path paths ih =>
    unfold makeEach
    rcases outcome : t.makeDirectory path with problem | made
    · exact .refl t
    · exact (gainsDirectories_of_makeDirectory outcome).trans (ih made)

theorem gainsDirectories_makeDirectories (t : FileTree) (path : Text) :
    GainsDirectories t (t.makeDirectories path).2 := gainsDirectories_makeEach t (pathsTo path)

/-- A file is made or replaced at a location; elsewhere only directories are new. -/
structure StoresFile (t t' : FileTree) (l : Location) (contents : Bytes) : Prop where
  workingDirectory : t'.workingDirectory = t.workingDirectory
  free : t.node? l ≠ some .directory
  file : t'.node? l = some (.file contents)
  others : ∀ l' ≠ l, t'.node? l' = t.node? l' ∨ t.node? l' = none ∧ t'.node? l' = some .directory

namespace StoresFile

variable {contents : Bytes}

theorem of_set (inside : l ≠ []) (free : t.node? l ≠ some .directory) :
    StoresFile t (t.set l (.file contents)) l contents :=
  ⟨rfl, free, node?_set_self inside, fun _ other => .inl (node?_set_of_ne other)⟩

theorem keeps (stores : StoresFile t t' l contents) : KeepsDirectories t t' := by
  refine ⟨stores.workingDirectory, fun l' standing => ?_⟩
  have other : l' ≠ l := by
    rintro rfl
    exact stores.free standing
  rcases stores.others l' other with same | ⟨free, -⟩
  · exact same.trans standing
  · rw [free] at standing
    cases standing

theorem file_iff_of_ne (stores : StoresFile t t' l contents) (other : l' ≠ l) {data : Bytes} :
    t'.node? l' = some (.file data) ↔ t.node? l' = some (.file data) := by
  rcases stores.others l' other with same | ⟨free, made⟩
  · rw [same]
  · simp [free, made]

theorem after_gain (gains : GainsDirectories t t') (stores : StoresFile t' t'' l contents) :
    StoresFile t t'' l contents := by
  refine ⟨stores.workingDirectory.trans gains.workingDirectory, ?_, stores.file, ?_⟩
  · intro standing
    exact stores.free (gains.node?_of_some standing)
  · intro l' other
    rcases stores.others l' other with same | ⟨free, made⟩
    · rw [same]
      exact gains.nodes l'
    · rcases gains.nodes l' with same' | ⟨-, made'⟩
      · exact .inr ⟨same'.symm.trans free, made⟩
      · rw [made'] at free
        cases free

end StoresFile

private theorem stores_of_set {contents : Bytes} (free : t.node? (t.locate path) ≠ some .directory)
    (passed : ∀ reason, t.find path ≠ .refused reason)
    (made : t' = t.set (t.locate path) (.file contents)) :
    StoresFile t t' (t.locate path) contents ∧
      t'.find path = .found (t.locate path) (.file contents) := by
  subst made
  have inside : t.locate path ≠ [] := by
    intro isRoot
    rw [isRoot, node?_nil] at free
    exact free rfl
  have stores : StoresFile t (t.set (t.locate path) (.file contents)) (t.locate path) contents :=
    .of_set inside free
  refine ⟨stores, ?_⟩
  rw [find_eq_look stores.keeps passed]
  exact look_of_some stores.file

theorem of_writeFile_eq_ok {contents : Bytes} (given : t.writeFile path contents = .ok t') :
    StoresFile t t' (t.locate path) contents ∧
      t'.find path = .found (t.locate path) (.file contents) := by
  unfold writeFile at given
  split at given
  · rename_i place old found
    cases given
    obtain ⟨rfl, standing⟩ := of_find_eq_found found
    exact stores_of_set (by simp [standing]) (by simp [found]) rfl
  · cases given
  · rename_i place found
    cases given
    obtain ⟨rfl, standing⟩ := of_find_eq_free found
    exact stores_of_set (by simp [standing]) (by simp [found]) rfl
  · cases given

end JvmAssembler.FileTree
