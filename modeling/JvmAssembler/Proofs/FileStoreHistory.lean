import Mathlib.Data.List.Induction
import JvmAssembler.Proofs.FileTreeOperations

/-!
# What a file store holds

A store is used again and again, with any names and any data, on a disk that may refuse any
operation. Whatever the history, every name that was stored has its file below the root of the
store, with the data that was stored under it last. A disk that gives up on the way may leave a file
behind that nobody stored; apart from those there is no other file.
-/

set_option autoImplicit false
set_option relaxedAutoImplicit false

namespace JvmAssembler

open FileTree (GainsDirectories KeepsFiles StoresFile isBelow)

variable {σ : Type}

/-- A disk that shows a tree. Making directories and writing a file either do what they do to the
tree, or fail without touching the files that are there. -/
structure Disk.ActsOrFails (disk : Disk (StateM σ)) (tree : σ → FileTree) : Prop where
  makeDirectories (path : Text) (state : σ) :
    (disk.makeDirectories path state).1 = .ok () ∧
        (tree state).makeDirectories path = (.ok (), tree (disk.makeDirectories path state).2) ∨
      (∃ problem, (disk.makeDirectories path state).1 = .error problem) ∧
        KeepsFiles (tree state) (tree (disk.makeDirectories path state).2)
  writeFile (path : Text) (contents : Bytes) (state : σ) :
    (disk.writeFile path contents state).1 = .ok () ∧
        (tree state).writeFile path contents = .ok (tree (disk.writeFile path contents state).2) ∨
      (∃ problem, (disk.writeFile path contents state).1 = .error problem) ∧
        KeepsFiles (tree state) (tree (disk.writeFile path contents state).2)

namespace FileTree

private theorem disk_makeDirectories (path : Text) (t : FileTree) :
    disk.makeDirectories path t = t.makeDirectories path := rfl

private theorem disk_makeDirectories_actsOrFails (path : Text) (t : FileTree) :
    (disk.makeDirectories path t).1 = .ok () ∧
        t.makeDirectories path = (.ok (), (disk.makeDirectories path t).2) ∨
      (∃ problem, (disk.makeDirectories path t).1 = .error problem) ∧
        KeepsFiles t (disk.makeDirectories path t).2 := by
  have gains := t.gainsDirectories_makeDirectories path
  rw [disk_makeDirectories]
  rcases outcome : t.makeDirectories path with ⟨problem | done, t'⟩
  · rw [outcome] at gains
    exact .inr ⟨⟨problem, rfl⟩, gains.keepsFiles⟩
  · exact .inl ⟨rfl, rfl⟩

private theorem disk_actsOrFails : disk.ActsOrFails id := by
  refine ⟨disk_makeDirectories_actsOrFails, ?_⟩
  intro path contents t
  rcases outcome : t.writeFile path contents with problem | t'
  · refine .inr ⟨⟨problem, ?_⟩, ?_⟩
    · simp only [disk, outcome]
    · simp only [disk, outcome]
      exact .refl t
  · refine .inl ⟨?_, ?_⟩
    · simp only [disk, outcome]
    · simp only [disk, outcome, id_eq]

/-- A disk without room. A file can be made, but nothing can be written to it, and it stays there
empty. -/
def fullDisk : Disk (StateM FileTree) :=
  { disk with
    writeFile := fun path _ t =>
      match t.find path with
      | .free l => (.error ⟨"write", path, .other "no space left on device"⟩, t.set l (.file []))
      | _ => (.error ⟨"open", path, .other "no space left on device"⟩, t) }

private theorem keepsFiles_set {t : FileTree} {l : Location} {contents : Bytes}
    (free : t.node? l = none) : KeepsFiles t (t.set l (.file contents)) := by
  have inside : l ≠ [] := by
    rintro rfl
    rw [node?_nil] at free
    cases free
  have stores : StoresFile t (t.set l (.file contents)) l contents :=
    .of_set inside (by simp [free])
  refine ⟨rfl, fun path l' data found => ?_⟩
  have standing := (of_find_eq_found found).2
  have other : l' ≠ l := by
    rintro rfl
    rw [free] at standing
    cases standing
  exact find_eq_found stores.keeps found ((node?_set_of_ne other).trans standing)

private theorem fullDisk_actsOrFails : fullDisk.ActsOrFails id := by
  refine ⟨disk_makeDirectories_actsOrFails, ?_⟩
  intro path contents t
  right
  unfold fullDisk
  dsimp only
  split
  · rename_i l found
    exact ⟨⟨_, rfl⟩, keepsFiles_set (of_find_eq_free found).2⟩
  · exact ⟨⟨_, rfl⟩, .refl t⟩

end FileTree

abbrev PutHistory := List (PutRequest × Except StoreProblem Receipt)

/-- The data of the last successful request for a name. -/
def PutHistory.last? (history : PutHistory) (name : Text) : Option Bytes :=
  (history.reverse.find? fun put => put.1.name == name && put.2.isOk).map fun put => put.1.data

namespace PutHistory

variable {history : PutHistory} {r : PutRequest} {name : Text}

private theorem last?_error {problem : StoreProblem} :
    PutHistory.last? (history ++ [(r, .error problem)]) name = history.last? name := by
  simp [last?, Except.isOk, Except.toBool]

private theorem last?_eq_none_of_all_failed (failed : history.all fun put => !put.2.isOk) :
    history.last? name = none := by
  rw [last?, Option.map_eq_none_iff, List.find?_eq_none]
  intro put member
  have answer := List.all_eq_true.mp failed put (List.mem_reverse.mp member)
  simpa using fun _ => answer

private theorem last?_self {receipt : Receipt} :
    PutHistory.last? (history ++ [(r, .ok receipt)]) r.name = some r.data := by
  simp [last?, Except.isOk, Except.toBool]

private theorem last?_other {receipt : Receipt} (other : name ≠ r.name) :
    PutHistory.last? (history ++ [(r, .ok receipt)]) name = history.last? name := by
  simp [last?, other.symm]

end PutHistory

namespace FileStore

def putAll {m : Type → Type} [Monad m] (s : FileStore) (disk : Disk m)
    (requests : List PutRequest) : m PutHistory :=
  requests.mapM fun r => do pure (r, ← s.put disk r)

/-- Every name that was stored has its file below the root, with the data stored last, and the only
other files there are the ones that were left behind. -/
structure Holds (s : FileStore) (history : PutHistory) (left : Location → Bytes → Prop)
    (t : FileTree) : Prop where
  stored : ∀ name data, history.last? name = some data →
    ∃ l, isBelow (t.locate s.root) l = true ∧ t.find (s.path name) = .found l (.file data)
  nothingElse : ∀ l data, isBelow (t.locate s.root) l = true → t.node? l = some (.file data) →
    (∃ name, history.last? name = some data ∧ t.find (s.path name) = .found l (.file data)) ∨
      left l data

/-- The files below the root are those of the names that were stored, with the data stored last. -/
def HoldsExactly (s : FileStore) (history : PutHistory) (t : FileTree) : Prop :=
  s.Holds history (fun _ _ => False) t

/-- A request of a run failed, and yet there was this file afterwards, and not before. -/
inductive LeftBehind (s : FileStore) (disk : Disk (StateM σ)) (tree : σ → FileTree) (start : σ)
    (requests : List PutRequest) (l : Location) (data : Bytes) : Prop where
  | intro {before after : List PutRequest} {r : PutRequest} {state : σ} {problem : StoreProblem}
    (run : requests = before ++ r :: after) (reached : (s.putAll disk before start).2 = state)
    (failed : (s.put disk r state).1 = .error problem)
    (missing : (tree state).node? l ≠ some (.file data))
    (made : (tree (s.put disk r state).2).node? l = some (.file data))

private theorem accept_eq_ok_iff {r : PutRequest} {receipt : Receipt} :
    accept r = .ok receipt ↔ Store.validateName r.name = .ok () ∧ r.cancelled = false ∧
      ∃ id, r.id = .ok id ∧ receipt = ⟨id, r.name, Digest.hex r.data, r.data.length, []⟩ := by
  unfold accept Store.receipt
  rcases Store.validateName r.name with problem | _
  · simp [bind, Except.bind]
  · cases r.cancelled with
    | true => simp [bind, Except.bind, throw, throwThe, MonadExceptOf.throw]
    | false =>
      rcases r.id with reason | id
      · simp [bind, Except.bind]
      · simp [bind, Except.bind, eq_comm]

section Put

variable {disk : Disk (StateM σ)} {s : FileStore} {r : PutRequest} {state mid : σ}

private theorem put_of_refused {problem : StoreProblem} (refused : accept r = .error problem) :
    s.put disk r state = (.error problem, state) := by
  unfold put
  rw [refused]
  rfl

private theorem put_of_no_directory {receipt : Receipt} {problem : DiskError}
    (accepted : accept r = .ok receipt)
    (making : disk.makeDirectories (Path.directory (s.path r.name)) state = (.error problem, mid)) :
    s.put disk r state = (.error (.disk problem), mid) := by
  unfold put
  simp only [accepted, bind, StateT.bind, making]
  rfl

private theorem put_of_directory {receipt : Receipt} (accepted : accept r = .ok receipt)
    (making : disk.makeDirectories (Path.directory (s.path r.name)) state = (.ok (), mid)) :
    s.put disk r state =
      match disk.writeFile (s.path r.name) r.data mid with
      | (.error problem, after) => (.error (.disk problem), after)
      | (.ok _, after) => (.ok { receipt with location := s.path r.name }, after) := by
  unfold put
  simp only [accepted, bind, StateT.bind, making]
  rcases disk.writeFile (s.path r.name) r.data mid with ⟨problem | done, after⟩
  · rfl
  · rfl

private theorem put_succeeds_iff :
    (∃ receipt, (s.put disk r state).1 = .ok receipt) ↔
      (∃ receipt, accept r = .ok receipt) ∧
        ∃ mid after, disk.makeDirectories (Path.directory (s.path r.name)) state = (.ok (), mid) ∧
          disk.writeFile (s.path r.name) r.data mid = (.ok (), after) := by
  constructor
  · rintro ⟨answer, answered⟩
    rcases accepted : accept r with problem | receipt
    · rw [put_of_refused accepted] at answered
      cases answered
    rcases making : disk.makeDirectories (Path.directory (s.path r.name)) state with
      ⟨problem | _, mid⟩
    · rw [put_of_no_directory accepted making] at answered
      cases answered
    · rw [put_of_directory accepted making] at answered
      rcases writing : disk.writeFile (s.path r.name) r.data mid with ⟨problem | _, after⟩
      · rw [writing] at answered
        cases answered
      · exact ⟨⟨receipt, rfl⟩, mid, after, rfl, writing⟩
  · rintro ⟨⟨receipt, accepted⟩, mid, after, making, writing⟩
    rw [put_of_directory accepted making, writing]
    exact ⟨_, rfl⟩

end Put

section Cases

variable {disk : Disk (StateM σ)} {tree : σ → FileTree} (acts : disk.ActsOrFails tree)
  (s : FileStore) (r : PutRequest) (state : σ)
include acts

private theorem put_cases :
    (∃ problem, (s.put disk r state).1 = .error problem ∧
      KeepsFiles (tree state) (tree (s.put disk r state).2)) ∨
    ∃ id, Store.validateName r.name = .ok () ∧
      (s.put disk r state).1 =
        .ok ⟨id, r.name, Digest.hex r.data, r.data.length, s.path r.name⟩ ∧
      StoresFile (tree state) (tree (s.put disk r state).2)
        ((tree state).locate (s.path r.name)) r.data ∧
      (tree (s.put disk r state).2).find (s.path r.name) =
        .found ((tree state).locate (s.path r.name)) (.file r.data) := by
  rcases accepted : accept r with problem | receipt
  · rw [put_of_refused accepted]
    exact .inl ⟨problem, rfl, .refl _⟩
  obtain ⟨valid, -, id, -, rfl⟩ := accept_eq_ok_iff.mp accepted
  have made := acts.makeDirectories (Path.directory (s.path r.name)) state
  rcases making : disk.makeDirectories (Path.directory (s.path r.name)) state with
    ⟨problem | _, mid⟩
  · rw [making] at made
    rw [put_of_no_directory accepted making]
    obtain ⟨impossible, -⟩ | ⟨-, keeps⟩ := made
    · cases impossible
    · exact .inl ⟨.disk problem, rfl, keeps⟩
  rw [making] at made
  have gains : GainsDirectories (tree state) (tree mid) := by
    obtain ⟨-, done⟩ | ⟨⟨_, impossible⟩, -⟩ := made
    · have gains := (tree state).gainsDirectories_makeDirectories
        (Path.directory (s.path r.name))
      rwa [done] at gains
    · cases impossible
  have wrote := acts.writeFile (s.path r.name) r.data mid
  rw [put_of_directory accepted making]
  rcases writing : disk.writeFile (s.path r.name) r.data mid with ⟨problem | _, after⟩
  · rw [writing] at wrote
    obtain ⟨impossible, -⟩ | ⟨-, keeps⟩ := wrote
    · cases impossible
    · exact .inl ⟨.disk problem, rfl, gains.keepsFiles.trans keeps⟩
  · rw [writing] at wrote
    obtain ⟨-, done⟩ | ⟨⟨_, impossible⟩, -⟩ := wrote
    · obtain ⟨stores, found⟩ := FileTree.of_writeFile_eq_ok done
      rw [FileTree.locate_eq gains.workingDirectory] at stores found
      exact .inr ⟨id, valid, rfl, .after_gain gains stores, found⟩
    · cases impossible

end Cases

def NamesValid (history : PutHistory) : Prop :=
  ∀ name data, history.last? name = some data → Store.validateName name = .ok ()

section Steps

variable {s : FileStore} {history : PutHistory} {left left' : Location → Bytes → Prop}
  {t t' : FileTree} {r : PutRequest}

private theorem Holds.mono (holds : s.Holds history left t)
    (more : ∀ l data, left l data → left' l data) : s.Holds history left' t :=
  ⟨holds.stored, fun l data below standing =>
    (holds.nothingElse l data below standing).imp_right (more l data)⟩

private theorem Holds.of_failure (holds : s.Holds history left t) (keeps : KeepsFiles t t')
    (problem : StoreProblem) :
    s.Holds (history ++ [(r, .error problem)])
      (fun l data => left l data ∨
        t.node? l ≠ some (.file data) ∧ t'.node? l = some (.file data)) t' := by
  have root : t'.locate s.root = t.locate s.root := FileTree.locate_eq keeps.workingDirectory
  constructor
  · intro name data last
    rw [PutHistory.last?_error] at last
    obtain ⟨l, below, found⟩ := holds.stored name data last
    rw [root]
    exact ⟨l, below, keeps.file _ l data found⟩
  · intro l data below standing
    rw [root] at below
    by_cases before : t.node? l = some (.file data)
    · rcases holds.nothingElse l data below before with ⟨name, last, found⟩ | leftBefore
      · refine .inl ⟨name, ?_, keeps.file _ l data found⟩
        rw [PutHistory.last?_error]
        exact last
      · exact .inr (.inl leftBefore)
    · exact .inr (.inr ⟨before, standing⟩)

private theorem Holds.of_store (holds : s.Holds history left t) (names : NamesValid history)
    (valid : Store.validateName r.name = .ok ())
    (stores : StoresFile t t' (t.locate (s.path r.name)) r.data)
    (found : t'.find (s.path r.name) = .found (t.locate (s.path r.name)) (.file r.data))
    (receipt : Receipt) : s.Holds (history ++ [(r, .ok receipt)]) left t' := by
  have root : t'.locate s.root = t.locate s.root := FileTree.locate_eq stores.workingDirectory
  constructor
  · intro name data last
    rw [root]
    by_cases same : name = r.name
    · subst same
      rw [PutHistory.last?_self] at last
      cases last
      refine ⟨_, ?_, found⟩
      rw [s.locate_path t valid]
      exact FileTree.isBelow_append _ (Store.segments_ne_nil r.name)
    · rw [PutHistory.last?_other same] at last
      obtain ⟨l, below, before⟩ := holds.stored name data last
      obtain ⟨rfl, standing⟩ := FileTree.of_find_eq_found before
      -- The file of another name is somewhere else, so it still stands as it did.
      have apart := locate_path_ne (t := t) (s := s) (names name data last) valid same
      have kept := (stores.file_iff_of_ne apart).mpr standing
      exact ⟨_, below, FileTree.find_eq_found stores.keeps before kept⟩
  · intro l data below standing
    rw [root] at below
    by_cases here : l = t.locate (s.path r.name)
    · subst here
      have same : Node.file r.data = .file data := Option.some.inj (stores.file.symm.trans standing)
      cases same
      exact .inl ⟨r.name, PutHistory.last?_self, found⟩
    · rcases holds.nothingElse l data below ((stores.file_iff_of_ne here).mp standing) with
        ⟨name, last, before⟩ | leftBefore
      · have other : name ≠ r.name := by
          rintro rfl
          exact here (FileTree.of_find_eq_found before).1
        refine .inl ⟨name, ?_, FileTree.find_eq_found stores.keeps before standing⟩
        rw [PutHistory.last?_other other]
        exact last
      · exact .inr leftBefore

end Steps

section Run

variable {disk : Disk (StateM σ)} {tree : σ → FileTree} (s : FileStore)

private theorem putAll_append_singleton (requests : List PutRequest) (r : PutRequest) (start : σ) :
    s.putAll disk (requests ++ [r]) start =
      ((s.putAll disk requests start).1 ++
          [(r, (s.put disk r (s.putAll disk requests start).2).1)],
        (s.put disk r (s.putAll disk requests start).2).2) := by
  unfold putAll
  rw [List.mapM_append]
  rfl

variable {s}

private theorem LeftBehind.append {start : σ} {requests : List PutRequest} {l : Location}
    {data : Bytes} (leftBehind : s.LeftBehind disk tree start requests l data) (r : PutRequest) :
    s.LeftBehind disk tree start (requests ++ [r]) l data := by
  obtain @⟨before, after, failing, state, problem, run, reached, failed, missing, made⟩ :=
    leftBehind
  have longer : requests ++ [r] = before ++ failing :: (after ++ [r]) := by
    rw [run, List.append_assoc, List.cons_append]
  exact .intro longer reached failed missing made

variable (acts : disk.ActsOrFails tree)
include acts

private theorem holds_append_singleton {start : σ} {requests : List PutRequest}
    (holds : s.Holds (s.putAll disk requests start).1 (s.LeftBehind disk tree start requests)
      (tree (s.putAll disk requests start).2))
    (names : NamesValid (s.putAll disk requests start).1) (r : PutRequest) :
    s.Holds (s.putAll disk (requests ++ [r]) start).1
        (s.LeftBehind disk tree start (requests ++ [r]))
        (tree (s.putAll disk (requests ++ [r]) start).2) ∧
      NamesValid (s.putAll disk (requests ++ [r]) start).1 := by
  rw [putAll_append_singleton]
  dsimp only
  generalize reached : (s.putAll disk requests start).2 = state at holds ⊢
  rcases put_cases acts s r state with ⟨problem, failed, keeps⟩ | ⟨id, valid, done, stores, found⟩
  · constructor
    · have held := holds.of_failure (r := r) keeps problem
      rw [← failed] at held
      refine held.mono ?_
      rintro l data (leftBefore | ⟨missing, made⟩)
      · exact leftBefore.append r
      · exact .intro rfl reached failed missing made
    · intro name data last
      rw [failed, PutHistory.last?_error] at last
      exact names name data last
  · rw [done]
    constructor
    · refine (holds.of_store names valid stores found _).mono ?_
      intro l data leftBefore
      exact leftBefore.append r
    · intro name data last
      by_cases here : name = r.name
      · rw [here]
        exact valid
      · rw [PutHistory.last?_other here] at last
        exact names name data last

private theorem holds_putAll {start : σ}
    (empty : ∀ l data, isBelow ((tree start).locate s.root) l = true →
      (tree start).node? l ≠ some (.file data)) (requests : List PutRequest) :
    s.Holds (s.putAll disk requests start).1 (s.LeftBehind disk tree start requests)
        (tree (s.putAll disk requests start).2) ∧
      NamesValid (s.putAll disk requests start).1 := by
  induction requests using List.reverseRecOn with
  | nil =>
    have unstored : ∀ name data, (s.putAll disk [] start).1.last? name ≠ some data := by
      intro name data last
      have none : (s.putAll disk [] start).1.last? name = none := rfl
      rw [none] at last
      cases last
    constructor
    · constructor
      · intro name data last
        exact absurd last (unstored name data)
      · intro l data below standing
        exact absurd standing (empty l data below)
    · intro name data last
      exact absurd last (unstored name data)
  | append_singleton requests r ih => exact holds_append_singleton acts ih.1 ih.2 r

end Run

section Main

variable {disk : Disk (StateM σ)} {tree : σ → FileTree}

/-- From a root without files, whatever is requested: the store holds what was stored last under
each name, and else only what failed requests left behind; so it holds exactly that where they left
nothing. A request that is refused at once changes nothing, and one that fails touches no file that
is there. One that succeeds gives the receipt of what is now found at its path, and none fails
unless it is refused at once or by the disk. -/
theorem holds_last_put (acts : disk.ActsOrFails tree) (s : FileStore) {start : σ}
    (empty : ∀ l data, isBelow ((tree start).locate s.root) l = true →
      (tree start).node? l ≠ some (.file data)) (requests : List PutRequest) :
    s.Holds (s.putAll disk requests start).1 (s.LeftBehind disk tree start requests)
        (tree (s.putAll disk requests start).2) ∧
      ((∀ l data, ¬ s.LeftBehind disk tree start requests l data) →
        s.HoldsExactly (s.putAll disk requests start).1
          (tree (s.putAll disk requests start).2)) ∧
      ∀ (r : PutRequest) (state : σ),
        (∀ problem, accept r = .error problem → s.put disk r state = (.error problem, state)) ∧
        (∀ problem, (s.put disk r state).1 = .error problem → ∀ path l data,
          (tree state).find path = .found l (.file data) →
            (tree (s.put disk r state).2).find path = .found l (.file data)) ∧
        (∀ receipt, (s.put disk r state).1 = .ok receipt →
          receipt.name = r.name ∧ receipt.location = s.path r.name ∧
            ∃ data, (tree (s.put disk r state).2).readFile receipt.location = .ok data ∧
              data = r.data ∧ receipt.size = data.length ∧ receipt.digest = Digest.hex data) ∧
        ((∃ receipt, (s.put disk r state).1 = .ok receipt) ↔
          (∃ receipt, accept r = .ok receipt) ∧ ∃ mid after,
            disk.makeDirectories (Path.directory (s.path r.name)) state = (.ok (), mid) ∧
              disk.writeFile (s.path r.name) r.data mid = (.ok (), after)) := by
  have holds := (holds_putAll (s := s) acts empty requests).1
  refine ⟨holds, fun nothingLeft => holds.mono nothingLeft, ?_⟩
  intro r state
  refine ⟨fun problem => put_of_refused, ?_, ?_, put_succeeds_iff⟩
  · intro problem failed
    rcases put_cases acts s r state with ⟨-, -, keeps⟩ | ⟨id, -, done, -⟩
    · exact keeps.file
    · rw [done] at failed
      cases failed
  · intro receipt answered
    rcases put_cases acts s r state with ⟨problem, failed, -⟩ | ⟨id, -, done, -, found⟩
    · rw [failed] at answered
      cases answered
    · rw [done] at answered
      cases answered
      refine ⟨rfl, rfl, r.data, ?_, rfl, rfl, rfl⟩
      rw [FileTree.readFile, found]

private theorem put_disk_gains {s : FileStore} {r : PutRequest} {t : FileTree}
    {problem : StoreProblem} (failed : (s.put FileTree.disk r t).1 = .error problem) :
    GainsDirectories t (s.put FileTree.disk r t).2 := by
  rcases accepted : accept r with refusal | receipt
  · rw [put_of_refused accepted]
    exact .refl t
  have gains := t.gainsDirectories_makeDirectories (Path.directory (s.path r.name))
  rcases making : FileTree.disk.makeDirectories (Path.directory (s.path r.name)) t with
    ⟨refusal | _, mid⟩
  · rw [put_of_no_directory accepted making]
    rw [FileTree.disk_makeDirectories] at making
    rwa [making] at gains
  · rw [put_of_directory accepted making] at failed ⊢
    rw [FileTree.disk_makeDirectories] at making
    rw [making] at gains
    rcases writing : mid.writeFile (s.path r.name) r.data with refusal | after
    · simp only [FileTree.disk, writing]
      exact gains
    · simp only [FileTree.disk, writing] at failed
      cases failed

private theorem not_leftBehind_of_disk {s : FileStore} {start : FileTree}
    {requests : List PutRequest} (l : Location) (data : Bytes) :
    ¬ s.LeftBehind FileTree.disk id start requests l data := by
  rintro ⟨-, -, failed, missing, made⟩
  exact missing ((put_disk_gains failed).file_of_after made)

private theorem no_file_in_empty_tree (top l : Location) (data : Bytes)
    (_ : isBelow top l = true) : ({} : FileTree).node? l ≠ some (.file data) := by
  unfold FileTree.node?
  split_ifs
  · simp
  · simp

/-- `A`, then `A.class/B` below what is a file by now, then `A` anew with the text `abc`, then one
that is cancelled. -/
def overwriting : List PutRequest :=
  [⟨[0x41], [1], .ok ⟨[]⟩, false⟩,
   ⟨[0x41, 0x2E, 0x63, 0x6C, 0x61, 0x73, 0x73, 0x2F, 0x42], [2], .ok ⟨[]⟩, false⟩,
   ⟨[0x41], [0x61, 0x62, 0x63], .ok ⟨[]⟩, false⟩, ⟨[0x41], [4], .ok ⟨[]⟩, true⟩]

theorem holds_last_put_overwriting :
    FileTree.disk.ActsOrFails id ∧
      (∀ l data, isBelow (({} : FileTree).locate [0x6F]) l = true →
        ({} : FileTree).node? l ≠ some (.file data)) ∧
      ((FileStore.mk [0x6F]).putAll FileTree.disk overwriting {}).1.last? [0x41] =
        some [0x61, 0x62, 0x63] ∧
      (((FileStore.mk [0x6F]).putAll FileTree.disk overwriting {}).1.map fun put =>
        put.2.toOption.map fun receipt => (receipt.digest, receipt.size)) =
        [some (.ofString "4bf5122f344554c53bde2ebb8cd2b7e3d1600ad631c385a5d7cce23c7785459a", 1),
         none,
         some (.ofString "ba7816bf8f01cfea414140de5dae2223b00361a396177a9cb410ff61f20015ad", 3),
         none] ∧
      (FileStore.mk [0x6F]).HoldsExactly
        ((FileStore.mk [0x6F]).putAll FileTree.disk overwriting {}).1
        ((FileStore.mk [0x6F]).putAll FileTree.disk overwriting {}).2 := by
  have holds := holds_last_put FileTree.disk_actsOrFails ⟨[0x6F]⟩ (no_file_in_empty_tree _)
    overwriting
  exact ⟨FileTree.disk_actsOrFails, no_file_in_empty_tree _, by decide, by decide +kernel,
    holds.2.1 not_leftBehind_of_disk⟩

/-- On a disk without room the only request fails, and then there is a file of its name although
nothing was ever stored. -/
theorem full_disk_holds_unstored_file :
    let s := FileStore.mk [0x6F]
    let run := s.putAll FileTree.fullDisk [⟨[0x41], [1], .ok ⟨[]⟩, false⟩] {}
    FileTree.fullDisk.ActsOrFails id ∧
      (∀ l data, isBelow (({} : FileTree).locate s.root) l = true →
        ({} : FileTree).node? l ≠ some (.file data)) ∧
      (∀ name, run.1.last? name = none) ∧
      run.2.find (s.path [0x41]) =
        .found [[0x6F], [0x41, 0x2E, 0x63, 0x6C, 0x61, 0x73, 0x73]] (.file []) ∧
      ¬ s.HoldsExactly run.1 run.2 := by
  intro s run
  have unstored : ∀ name, run.1.last? name = none := by
    intro name
    exact PutHistory.last?_eq_none_of_all_failed (by decide)
  refine ⟨FileTree.fullDisk_actsOrFails, no_file_in_empty_tree _, unstored, by decide, ?_⟩
  intro holds
  have standing : run.2.node? [[0x6F], [0x41, 0x2E, 0x63, 0x6C, 0x61, 0x73, 0x73]] =
      some (.file []) := by
    decide
  rcases holds.nothingElse _ [] (by decide) standing with ⟨name, last, -⟩ | none
  · rw [unstored name] at last
    cases last
  · exact none

end Main

end FileStore

end JvmAssembler
