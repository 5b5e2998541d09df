/-
The repository as git/mod.rs runs it on the objects of Git: how it is opened
and seeded (`open_or_init`, `seed_initial_commit`), the Git calls of a write
(`write_and_commit`), and the history of a file (`file_history`).

What it comes to is a log of file versions (`Holds`): HEAD is at the newest,
the parents lead through all of them, and each commit has the tree that the
versions up to it make. A write that moves HEAD adds one version
(`wrote_holds`), whether or not anybody lives to be told of it; one that ends
before that leaves objects that nothing refers to. So the history and the
contents are the log's, whatever happened in between (`Repository.is_log`).

`gix::init` is one step here, and so is each call of the Git library.
-/
import Wikikiki.CommitCalls
import Wikikiki.GitObjects
import Wikikiki.Headers
import Wikikiki.Lib.Versions

namespace Wikikiki.Git

open Objects (Entry Kind)

/-! ## The rest of the Git library -/

/-- What a commit says of itself. -/
structure CommitData where
  authorName : Text
  authorEmail : Text
  seconds : Int
  /-- `message().title` -/
  title : Text
  deriving DecidableEq

/-- A repository: its objects, and the commit that HEAD is at. -/
structure Repository (Id : Type) where
  objects : ObjectDb Id
  head : Option Id

/-- From one commit to the next by the first parent, down to one that has
none. -/
inductive Chain {Id : Type} (db : ObjectDb Id) : Option Id → List Id → Prop
  | root : Chain db none []
  | commit {id : Id} {treeId : Except Text Id} {parent : Option Id} {ids : List Id} :
    db.findCommit id = .ok (treeId, parent.toList) → Chain db parent ids → Chain db (some id) (id :: ids)

/-- Beside the objects and the trees: blobs, commits, and the walk. -/
structure Plumbing (Id : Type) extends Gix Id where
  /-- `id.to_string()` -/
  toHex : Id → Text
  fromHex_toHex : ∀ id, fromHex (Text.utf8 (toHex id)) = .ok id
  /-- `gix::init(root)`, with the objects of the new repository. -/
  init : Except Text (ObjectDb Id)
  /-- `repo.write_blob(data)` -/
  writeBlob : ObjectDb Id → Bytes → Except Text (Id × ObjectDb Id)
  writes : ∀ {db db' : ObjectDb Id} {data : Bytes} {id : Id}, writeBlob db data = .ok (id, db') →
    db.Grows db' ∧ db'.blobs id = some data
  /-- The title of a commit message. -/
  title : Text → Text
  /-- Name and email of a signature as they are read back from a commit. -/
  identity : Signature → Text × Text
  identity_eq : ∀ sig, Text.trim sig.name = sig.name → Text.trim sig.email = sig.email →
    identity sig = (sig.name, sig.email)
  /-- `commit.decode()` -/
  decode : GitObject Id → Except Text CommitData
  /-- `repo.commit_as(sig, sig, "HEAD", message, tree, parents)` -/
  commitAs : Repository Id → Signature → Text → Id → List Id → Except Text (Id × Repository Id)
  /-- The commit is there under a signature that Git takes, and HEAD is at it,
  and was at its first parent. -/
  commits : ∀ {repo repo' : Repository Id} {sig : Signature} {message : Text} {treeId id : Id} {parents : List Id},
    commitAs repo sig message treeId parents = .ok (id, repo') →
      (SignatureToken sig.name ∧ SignatureToken sig.email) ∧
      repo.objects.Grows repo'.objects ∧ repo.head = parents.head? ∧ repo'.head = some id ∧
      ∃ object, repo'.objects.find id = .ok object ∧ object.shape = .commit (.ok treeId) parents ∧
        decode object = .ok
          { authorName := (identity sig).1, authorEmail := (identity sig).2, seconds := sig.time,
            title := title message }
  /-- `repo.rev_walk([id]).all()` -/
  revWalk : ObjectDb Id → Id → Except Text (List (Except Text Id))

/-- What is relied on of the objects as they are: a blob has the id that its
content has, and the walk follows the parents. -/
structure Plumbing.Sound {Id : Type} (lib : Plumbing Id) (repo : Repository Id) : Prop where
  same : ∀ a b data, repo.objects.blobs a = some data → repo.objects.blobs b = some data → a = b
  walk : ∀ id ids, repo.head = some id → Chain repo.objects (some id) ids →
    lib.revWalk repo.objects id = .ok (ids.map .ok)

/-! ## The code -/

section

variable {Id : Type} (lib : Plumbing Id)

/-- `repo.find_commit(id)` and what it decodes to. -/
def Plumbing.decodeCommit (db : ObjectDb Id) (id : Id) : Except Text CommitData := do
  lib.decode (← db.find id)

/-- The tree that HEAD is at; there is none before the first commit. -/
def parentTree (db : ObjectDb Id) : Option Id → Except AppError (Option Id)
  | none => .ok none
  | some commitId => do
    let (treeId, _) ← (db.findCommit commitId).mapError err
    return some (← treeId.mapError err)

/-- The Git calls of `write_and_commit`. -/
def commitContent (authorTemplate : Text) (repo : Repository Id) (call : CommitCall) (now : Int) :
    Except AppError (Text × Repository Id) := do
  let (blobId, db) ← (lib.writeBlob repo.objects (Text.utf8 call.content)).mapError err
  let parentTreeId ← parentTree db repo.head
  let (newTreeId, db) ← editTreeWithBlob lib.toGix db parentTreeId (pathToBstring call.relpath) blobId
  match parseSig (renderAuthor authorTemplate call.actorType call.actorHandle) with
  -- The slice of `parse_sig` panics.
  | none => .error (.internal "join: ".toList)
  | some (name, email) =>
    let (id, repo) ← (lib.commitAs { repo with objects := db } { name, email, time := now } call.message newTreeId
      repo.head.toList).mapError err
    return (lib.toHex id, repo)

/-- `seed_initial_commit` -/
def seedInitialCommit (repo : Repository Id) (now : Int) : Except AppError (Text × Repository Id) := do
  let (blobId, db) ← (lib.writeBlob repo.objects []).mapError err
  let (treeId, db) ← editTreeWithBlob lib.toGix db none (pathToBstring [".keep".toList]) blobId
  let (id, repo) ← (lib.commitAs { repo with objects := db } (seedCommit now).author (seedCommit now).message treeId
    []).mapError err
  return (lib.toHex id, repo)

/-- `open_or_init`, where a repository may be; what is there afterwards, and
the commit that it was seeded with. -/
def openOrInit (now : Int) : Option (Repository Id) → Except AppError (Option Text) × Option (Repository Id)
  | some repo => (.ok none, some repo)
  | none =>
    match lib.init with
    | .error e => (.error (err e), none)
    | .ok objects =>
      match seedInitialCommit lib { objects, head := none } now with
      -- The directory stays, and is opened the next time.
      | .error e => (.error e, some { objects, head := none })
      | .ok (oid, repo) => (.ok (some oid), some repo)

/-- What the history says of a commit. -/
def Plumbing.commitInfo (id : Id) (data : CommitData) : CommitInfo where
  oid := lib.toHex id
  authorName := data.authorName
  authorEmail := data.authorEmail
  message := data.title
  time := data.seconds

variable [DecidableEq Id]

/-- The loop of `file_history`: `out` is what it has found. -/
def historyLoop (db : ObjectDb Id) (target : Bytes) (limit : Nat) :
    List (Except Text Id) → List CommitInfo → Except AppError (List CommitInfo)
  | [], out => .ok out
  | info :: walk, out => do
    let id ← info.mapError err
    let (treeId, parentIds) ← (db.findCommit id).mapError err
    if ← commitTouched db treeId parentIds target then
      let data ← (lib.decodeCommit db id).mapError err
      if limit ≤ (out ++ [lib.commitInfo id data]).length then return out ++ [lib.commitInfo id data]
      historyLoop db target limit walk (out ++ [lib.commitInfo id data])
    else historyLoop db target limit walk out

/-- `file_history`, for a repository that opens. -/
def fileHistory (repo : Repository Id) (relpath : PathBuf) (limit : Nat) : Except AppError (List CommitInfo) :=
  match repo.head with
  | none => .ok []
  | some headId => do
    let walk ← (lib.revWalk repo.objects headId).mapError err
    historyLoop lib repo.objects (pathToBstring relpath) limit walk []

end

/-! ## The log -/

/-- One commit, as the write that made it put it. -/
structure Version where
  oid : Text
  relpath : PathBuf
  content : Text
  author : Signature
  message : Text

namespace Version

def path (v : Version) : List Text := treePath v.relpath

/-- Its entry in the history of a file. -/
def info {Id : Type} (lib : Plumbing Id) (v : Version) : CommitInfo where
  oid := v.oid
  authorName := (lib.identity v.author).1
  authorEmail := (lib.identity v.author).2
  message := lib.title v.message
  time := v.author.time

def seed (oid : Text) (now : Int) : Version where
  oid
  relpath := [".keep".toList]
  content := []
  author := (seedCommit now).author
  message := (seedCommit now).message

/-- What a call of `write_and_commit` made. -/
def written (oid : Text) (call : CommitCall) (name email : Text) (now : Int) : Version where
  oid
  relpath := call.relpath
  content := call.content
  author := { name, email, time := now }
  message := call.message

/-- Made by a call: its file and its content, under the author of the call. -/
def IsOf (template : Text) (call : CommitCall) (now : Int) (v : Version) : Prop :=
  ∃ name email, parseSig (renderAuthor template call.actorType call.actorHandle) = some (name, email) ∧
    v = written v.oid call name email now

end Version

/-- What the log has at a file. -/
def stored (log : List Version) (relpath : PathBuf) : Option Text :=
  Versions.stored Version.path Version.content log (treePath relpath)

/-- The versions that changed a file, newest first. -/
def changes (log : List Version) (relpath : PathBuf) : List Version :=
  Versions.changes Version.path Version.content (treePath relpath) log

/-- The tree after the newest version. -/
def treeOf (log : List Version) : GitTree := Versions.tree Version.path (fun v => Text.utf8 v.content) log

theorem lookup_treeOf (log : List Version) (relpath : PathBuf) :
    Tree.lookup (treeOf log) (treePath relpath) = (stored log relpath).map Text.utf8 := by
  have hne : ∀ v ∈ log, v.path ≠ [] := fun v _ => List.splitOn_ne_nil _ _
  rw [treeOf, Versions.lookup_tree hne, Versions.stored_map, stored]

/-- The objects hold the log: its commits are there, one the parent of the
next, each with the tree that it made. -/
inductive Holds {Id : Type} (lib : Plumbing Id) (db : ObjectDb Id) : Option Id → List Version → Prop
  | empty : Holds lib db none []
  | commit {id treeId : Id} {parent : Option Id} {v : Version} {older : List Version} {object : GitObject Id} :
    lib.toHex id = v.oid → db.find id = .ok object → object.shape = .commit (.ok treeId) parent.toList →
    lib.decode object = .ok
      { authorName := (lib.identity v.author).1, authorEmail := (lib.identity v.author).2, seconds := v.author.time,
        title := lib.title v.message } →
    db.KeepsTree treeId (treeOf (v :: older)) → Holds lib db parent older → Holds lib db (some id) (v :: older)

section

variable {Id : Type} {lib : Plumbing Id} {db db' : ObjectDb Id} {head : Option Id} {repo repo' : Repository Id}
  {log older : List Version} {v : Version} {id treeId : Id}

theorem mapError_eq_ok {ε ε' α : Type} {x : Except ε α} {f : ε → ε'} {a : α} : x.mapError f = .ok a ↔ x = .ok a := by
  cases x <;> simp [Except.mapError]

theorem findCommit_of_find {object : GitObject Id} {treeId : Except Text Id} {parents : List Id}
    (h : db.find id = .ok object) (hshape : object.shape = .commit treeId parents) :
    db.findCommit id = .ok (treeId, parents) := by
  obtain ⟨data, shape⟩ := object
  cases hshape
  exact ObjectDb.findCommit_eq_ok.2 ⟨data, h⟩

theorem Chain.unique {ids ids' : List Id} (h : Chain db head ids) (h' : Chain db head ids') : ids = ids' := by
  induction h generalizing ids' with
  | root =>
    cases h'
    rfl
  | @commit id treeId parent ids hfound hrest ih =>
    cases h' with
    | @commit _ treeId' parent' ids' hfound' hrest' =>
      obtain ⟨-, hparent⟩ := Prod.mk.inj (Except.ok.inj (hfound.symm.trans hfound'))
      obtain rfl : parent = parent' := by
        cases parent <;> cases parent' <;> simp_all
      rw [ih hrest']

theorem Holds.mono (h : Holds lib db head log) (hg : db.Grows db') : Holds lib db' head log := by
  induction h with
  | empty => exact .empty
  | commit hoid hfind hshape hdecode htree _ ih =>
    exact .commit hoid (hg _ _ hfind) hshape hdecode (htree.mono hg) ih

/-- The tree of HEAD, with the empty one before the first commit. -/
theorem Holds.parentTree (h : Holds lib db head log) :
    ∃ parent, parentTree db head = .ok parent ∧ db.KeepsTree (parent.getD db.emptyTree) (treeOf log) := by
  cases h with
  | empty => exact ⟨none, rfl, db.keepsTree_empty⟩
  | @commit id treeId parent v older object hoid hfind hshape hdecode htree hrest =>
    refine ⟨some treeId, ?_, htree⟩
    simp [Git.parentTree, findCommit_of_find hfind hshape, Except.mapError, bind, Except.bind, pure, Except.pure]

/-- The ids of the log, from HEAD on. -/
theorem Holds.chain (h : Holds lib db head log) : ∃ ids, Chain db head ids ∧ ids.map lib.toHex = log.map Version.oid := by
  induction h with
  | empty => exact ⟨[], .root, rfl⟩
  | commit hoid hfind hshape _ _ _ ih =>
    obtain ⟨ids, hchain, hmap⟩ := ih
    exact ⟨_ :: ids, .commit (findCommit_of_find hfind hshape) hchain, by rw [List.map_cons, hoid, hmap, List.map_cons]⟩

theorem editTreeWithBlob_grows {parent : Option Id} {path : Bytes} {blob new : Id} {t : GitTree}
    (h : db.KeepsTree (parent.getD db.emptyTree) t)
    (hedit : editTreeWithBlob lib.toGix db parent path blob = .ok (new, db')) : db.Grows db' := by
  obtain ⟨es, hroot, hw, -⟩ := h
  exact (editTreeWithBlob_puts hroot hw hedit).1

/-! ## Writing -/

/-- The common end of a write and of the seed: a commit on top of the log. -/
theorem Holds.commitAs {db₁ db₂ : ObjectDb Id} {parent : Option Id} {blob new : Id} {content : Text}
    {relpath : PathBuf} {sig : Signature} {message : Text}
    (h : Holds lib repo.objects repo.head log) (hblob : lib.writeBlob repo.objects (Text.utf8 content) = .ok (blob, db₁))
    (hparent : Git.parentTree db₁ repo.head = .ok parent)
    (hedit : editTreeWithBlob lib.toGix db₁ parent (pathToBstring relpath) blob = .ok (new, db₂))
    (hcommit : lib.commitAs { repo with objects := db₂ } sig message new repo.head.toList = .ok (id, repo')) :
    repo.objects.Grows repo'.objects ∧
      Holds lib repo'.objects repo'.head (⟨lib.toHex id, relpath, content, sig, message⟩ :: log) := by
  obtain ⟨hgrows, hdata⟩ := lib.writes hblob
  have h₁ := h.mono hgrows
  obtain ⟨parent', hparent', htree⟩ := h₁.parentTree
  obtain rfl : parent = parent' := Except.ok.inj (hparent.symm.trans hparent')
  have hgrows' := editTreeWithBlob_grows htree hedit
  obtain ⟨-, hgrows'', -, hhead, object, hfind, hshape, hdecode⟩ := lib.commits hcommit
  refine ⟨(hgrows.trans hgrows').trans hgrows'', ?_⟩
  rw [hhead]
  exact .commit rfl hfind hshape hdecode ((htree.edit hdata hedit).mono hgrows'') ((h₁.mono hgrows').mono hgrows'')

/-- **A write that moves HEAD** puts its version on top of the log. -/
theorem wrote_holds {template : Text} {call : CommitCall} {now : Int} (h : Holds lib repo.objects repo.head log)
    (hv : v.IsOf template call now) (hok : commitContent lib template repo call now = .ok (v.oid, repo')) :
    Holds lib repo'.objects repo'.head (v :: log) := by
  obtain ⟨name', email', hsig', hv⟩ := hv
  unfold commitContent at hok
  obtain ⟨⟨blob, db₁⟩, hblob, hok⟩ := bind_eq_ok.1 hok
  obtain ⟨parent, hparent, hok⟩ := bind_eq_ok.1 hok
  obtain ⟨⟨new, db₂⟩, hedit, hok⟩ := bind_eq_ok.1 hok
  simp only at hok
  split at hok
  · cases hok
  next name email hsig =>
    obtain ⟨⟨id, repo₁⟩, hcommit, hlast⟩ := bind_eq_ok.1 hok
    obtain ⟨hoid, rfl⟩ := Prod.mk.inj (Except.ok.inj hlast)
    cases hsig.symm.trans hsig'
    have hholds := (h.commitAs (mapError_eq_ok.1 hblob) hparent hedit (mapError_eq_ok.1 hcommit)).2
    rw [hv, ← hoid]
    exact hholds

theorem seeded_holds {oid : Text} {now : Int} (hok : seedInitialCommit lib ⟨db, none⟩ now = .ok (oid, repo')) :
    db.Grows repo'.objects ∧ Holds lib repo'.objects repo'.head [.seed oid now] := by
  unfold seedInitialCommit at hok
  obtain ⟨⟨blob, db₁⟩, hblob, hok⟩ := bind_eq_ok.1 hok
  obtain ⟨⟨new, db₂⟩, hedit, hok⟩ := bind_eq_ok.1 hok
  obtain ⟨⟨id, repo₁⟩, hcommit, hok⟩ := bind_eq_ok.1 hok
  cases hok
  have hempty : Holds lib (Repository.mk db none).objects (Repository.mk db none).head [] := .empty
  exact hempty.commitAs (mapError_eq_ok.1 hblob) rfl hedit (mapError_eq_ok.1 hcommit)

/-! ## Reading -/

/-- A commit is as of its own version, whatever stands on top of it. -/
theorem Holds.suffix {newer : List Version} (h : Holds lib db head (newer ++ log)) : ∃ head', Holds lib db head' log := by
  induction newer generalizing head with
  | nil => exact ⟨head, h⟩
  | cons w newer ih =>
    cases h with
    | commit _ _ _ _ _ hrest => exact ih hrest

theorem Holds.fileAtCommit (h : Holds lib db head (v :: older)) (relpath : PathBuf) :
    fileAtCommit lib.toGix db v.oid relpath = .ok (stored (v :: older) relpath) := by
  cases h with
  | @commit id treeId parent _ _ object hoid hfind hshape hdecode htree hrest =>
    obtain ⟨o, ho, hmap⟩ := htree.lookup relpath
    rw [lookup_treeOf] at hmap
    have hhex : lib.fromHex (Text.utf8 v.oid) = .ok id := hoid ▸ lib.fromHex_toHex id
    simp only [Git.fileAtCommit, hhex, findCommit_of_find hfind hshape, Except.mapError, bind, Except.bind, ho]
    cases o with
    | none =>
      have hnone : stored (v :: older) relpath = none := by simpa using hmap.symm
      rw [hnone]
      rfl
    | some b =>
      obtain ⟨data, hdata, hblob⟩ := Option.map_eq_some_iff.1 hmap.symm
      obtain ⟨content, hcontent, rfl⟩ := Option.map_eq_some_iff.1 hdata
      simp only [ObjectDb.blobs_eq_some.1 hblob.symm, hcontent, Text.fromUtf8Lossy_utf8]
      rfl

variable [DecidableEq Id]

theorem touched_eq {parent : Option Id} (hsame : ∀ a b data, db.blobs a = some data → db.blobs b = some data → a = b)
    (htree : db.KeepsTree treeId (treeOf (v :: older))) (hrest : Holds lib db parent older) (relpath : PathBuf) :
    commitTouched db (.ok treeId) parent.toList (pathToBstring relpath) =
      .ok (decide (stored (v :: older) relpath ≠ stored older relpath)) := by
  obtain ⟨o, ho, hmap⟩ := htree.lookup relpath
  rw [lookup_treeOf] at hmap
  cases hrest with
  | empty =>
    have hsome : o.isSome = decide (stored [v] relpath ≠ stored [] relpath) := by
      have := congrArg Option.isSome hmap
      simp only [Option.isSome_map] at this
      rw [this, show stored [] relpath = none from rfl]
      cases stored [v] relpath <;> simp
    simp only [commitTouched, Option.toList_none, Except.mapError, bind, Except.bind, ho, hsome]
    rfl
  | @commit parentId parentTreeId _ w older object hoid hfind hshape hdecode htree' hrest' =>
    obtain ⟨o', ho', hmap'⟩ := htree'.lookup relpath
    rw [lookup_treeOf] at hmap'
    have hiff : o = o' ↔ stored (v :: w :: older) relpath = stored (w :: older) relpath :=
      (same_blob hsame hmap hmap').trans (Option.map_injective Text.utf8_injective).eq_iff
    simp only [commitTouched, Option.toList_some, Except.mapError, bind, Except.bind, ho,
      findCommit_of_find hfind hshape, ho', ne_eq, hiff]
    rfl

/-- The loop over the commits of the log, from HEAD on. -/
theorem Holds.historyLoop {ids : List Id} {limit : Nat} (h : Holds lib db head log)
    (hsame : ∀ a b data, db.blobs a = some data → db.blobs b = some data → a = b) (hchain : Chain db head ids)
    (relpath : PathBuf) (out : List CommitInfo) (hout : out.length < max 1 limit) :
    historyLoop lib db (pathToBstring relpath) limit (ids.map .ok) out =
      .ok (out ++ ((changes log relpath).take (max 1 limit - out.length)).map (Version.info lib)) := by
  induction h generalizing ids out with
  | empty =>
    cases hchain
    simp [Git.historyLoop, changes, Versions.changes]
  | @commit id treeId parent v older object hoid hfind hshape hdecode htree hrest ih =>
    have hfound := findCommit_of_find hfind hshape
    cases hchain with
    | @commit _ treeId' parent' ids hfound' hchain =>
      rw [hfound'] at hfound
      obtain ⟨rfl, hparent⟩ := Prod.mk.inj (Except.ok.inj hfound)
      obtain rfl : parent' = parent := by
        cases parent <;> cases parent' <;> simp_all
      have htouched := touched_eq hsame htree hrest relpath
      simp only [List.map_cons, Git.historyLoop, Except.mapError, bind, Except.bind, hfound', htouched]
      by_cases hchanged : stored (v :: older) relpath = stored older relpath
      · have hskip : changes (v :: older) relpath = changes older relpath := if_pos hchanged
        simp only [hchanged, ne_eq, not_true_eq_false, decide_false, Bool.false_eq_true, if_false, hskip]
        exact ih hchain out hout
      · have htake : changes (v :: older) relpath = v :: changes older relpath := if_neg hchanged
        have hdata : lib.decodeCommit db id = lib.decode object := by
          rw [Plumbing.decodeCommit, hfind]
          rfl
        have hlen : (out ++ [v.info lib]).length = out.length + 1 := by simp
        obtain ⟨k, hk⟩ : ∃ k, max 1 limit - out.length = k + 1 := ⟨max 1 limit - out.length - 1, by omega⟩
        rw [htake, hk, List.take_succ_cons, List.map_cons, List.append_cons]
        have hinfo : lib.commitInfo id
            { authorName := (lib.identity v.author).1, authorEmail := (lib.identity v.author).2,
              seconds := v.author.time, title := lib.title v.message } = v.info lib := by
          rw [Plumbing.commitInfo, hoid, Version.info]
        simp only [hchanged, ne_eq, not_false_eq_true, decide_true, if_true, hdata, hdecode, hinfo, pure, Except.pure]
        generalize out ++ [v.info lib] = out' at hlen ⊢
        by_cases hlimit : limit ≤ out'.length
        · have hk0 : k = 0 := by omega
          rw [if_pos hlimit, hk0, List.take_zero, List.map_nil, List.append_nil]
        · rw [if_neg hlimit, show k = max 1 limit - out'.length by omega]
          exact ih hchain _ (by omega)

end

/-! ## A small library -/

section

/-- One object more, unless another one has its id. -/
def Plumbing.smallBlob (db : ObjectDb Bytes) (data : Bytes) : Except Text (Bytes × ObjectDb Bytes) :=
  let db' := db.add (1 :: data) { data, shape := .blob }
  if db'.blobs (1 :: data) = some data then .ok (1 :: data, db') else .error "collision".toList

/-- The texts of a commit, with a byte between them that no text has. -/
def Plumbing.smallDecode (object : GitObject Bytes) : Except Text CommitData :=
  match object.data.splitOn 255 with
  | name :: email :: message :: time :: _ => .ok
    { authorName := Text.fromUtf8Lossy name, authorEmail := Text.fromUtf8Lossy email, seconds := time.length,
      title := Text.fromUtf8Lossy message }
  | _ => .error "no commit".toList

def Plumbing.smallCommit (repo : Repository Bytes) (sig : Signature) (message : Text) (treeId : Bytes)
    (parents : List Bytes) : Except Text (Bytes × Repository Bytes) :=
  let time : Bytes := List.replicate sig.time.toNat 0
  let data := Text.utf8 sig.name ++ 255 :: Text.utf8 sig.email ++ 255 :: Text.utf8 message ++ 255 :: time ++
    255 :: treeId ++ parents.flatten
  let db := repo.objects.add (7 :: data) { data, shape := .commit (.ok treeId) parents }
  if (SignatureToken sig.name ∧ SignatureToken sig.email) ∧ repo.head = parents.head? ∧
      db.findCommit (7 :: data) = .ok (.ok treeId, parents) ∧
      (db.find (7 :: data)).bind smallDecode = .ok
        { authorName := sig.name, authorEmail := sig.email, seconds := sig.time, title := message } then
    .ok (7 :: data, { objects := db, head := some (7 :: data) })
  else .error "refused".toList

/-- At most so many commits. -/
def Plumbing.smallWalk (db : ObjectDb Bytes) : Nat → Bytes → List (Except Text Bytes)
  | 0, _ => []
  | n + 1, id =>
    match db.findCommit id with
    | .ok (_, parent :: _) => .ok id :: smallWalk db n parent
    | _ => [.ok id]

/-- Nothing but the empty tree. -/
def ObjectDb.fresh : ObjectDb Bytes where
  find id := if id = [] then .ok { data := [], shape := .tree [] none } else .error "not found".toList
  otherKind _ := "other kind".toList
  emptyTree := []
  find_emptyTree := rfl

theorem ObjectDb.grows_add (db : ObjectDb Bytes) (id : Bytes) (object : GitObject Bytes) :
    db.Grows (db.add id object) := by
  intro i found hfind
  simp [add, hfind]

def Plumbing.smallName (es : List (Entry Bytes Bytes)) : Bytes := 5 :: es.flatMap fun e => e.name ++ e.id

/-- Ids are bytes here, and written as the characters of these numbers. -/
def Plumbing.small : Plumbing Bytes where
  toGix := .small smallName fun hex => .ok ((Text.fromUtf8Lossy hex).map fun c => UInt8.ofNat c.toNat)
  toHex id := id.map byteChar
  fromHex_toHex id := by
    have hbyte : ∀ b : UInt8, UInt8.ofNat (byteChar b).toNat = b := fun b =>
      forall_byte (P := fun b => UInt8.ofNat (byteChar b).toNat = b) (by decide +kernel) b
    change Except.ok ((Text.fromUtf8Lossy (Text.utf8 (id.map byteChar))).map fun c => UInt8.ofNat c.toNat) = .ok id
    rw [Text.fromUtf8Lossy_utf8, List.map_map]
    exact congrArg Except.ok ((List.map_congr_left fun b _ => hbyte b).trans (List.map_id' id))
  init := .ok .fresh
  writeBlob := smallBlob
  writes {db db' data id} h := by
    unfold smallBlob at h
    simp only at h
    split at h
    next hdata =>
      cases h
      exact ⟨db.grows_add _ _, hdata⟩
    · cases h
  title := id
  identity sig := (sig.name, sig.email)
  identity_eq _ _ _ := rfl
  decode := smallDecode
  commitAs := smallCommit
  commits {repo repo' sig message treeId id parents} h := by
    unfold smallCommit at h
    simp only at h
    split at h
    next hok =>
      obtain ⟨htokens, hhead, hfound, hdecode⟩ := hok
      cases h
      obtain ⟨data, hfind⟩ := ObjectDb.findCommit_eq_ok.1 hfound
      refine ⟨htokens, repo.objects.grows_add _ _, hhead, rfl, _, hfind, rfl, ?_⟩
      rw [hfind] at hdecode
      exact hdecode
    · cases h
  revWalk db id := .ok (smallWalk db 10 id)

/-- A blob has the id of its content. -/
def ObjectDb.Named (db : ObjectDb Bytes) : Prop := ∀ id data, db.blobs id = some data → id = 1 :: data

section

variable {db db' : ObjectDb Bytes} {id new : Bytes} {object : GitObject Bytes} {es es' : List (Entry Bytes Bytes)}

theorem ObjectDb.Named.add (h : db.Named) (hid : object.shape = .blob → id = 1 :: object.data) :
    (db.add id object).Named := by
  intro i data hdata
  rw [ObjectDb.blobs_eq_some] at hdata
  simp only [ObjectDb.add] at hdata
  split at hdata
  next found hfind =>
    cases hdata
    exact h i data (ObjectDb.blobs_eq_some.2 hfind)
  · split at hdata
    next heq =>
      cases hdata
      rw [heq, hid rfl]
    · cases hdata

theorem ObjectDb.Named.writeTree {name : List (Entry Bytes Bytes) → Bytes} (h : db.Named)
    (hok : db.writeTree name es = .ok (new, db')) : db'.Named := by
  unfold ObjectDb.writeTree at hok
  simp only at hok
  split at hok
  · cases hok
    exact h.add fun hblob => by cases hblob
  · cases hok

theorem ObjectDb.Named.writePath {name : List (Entry Bytes Bytes) → Bytes} {kind : Kind} {p : List Bytes}
    (h : db.Named) (hok : db.writePath name kind id es p = .ok (es', db')) : db'.Named := by
  induction p generalizing es es' db' with
  | nil => cases hok
  | cons n p ih =>
    cases p with
    | nil =>
      cases hok
      exact h
    | cons m p =>
      obtain ⟨⟨sub, db₁⟩, hsub, hok⟩ := bind_eq_ok.1 hok
      obtain ⟨⟨child, db₂⟩, hchild, hok⟩ := bind_eq_ok.1 hok
      cases hok
      exact (ih hsub).writeTree hchild

theorem ObjectDb.Named.edit {parent : Option Bytes} {path blob : Bytes} (h : db.Named)
    (hok : editTreeWithBlob Plumbing.small.toGix db parent path blob = .ok (new, db')) : db'.Named := by
  unfold editTreeWithBlob at hok
  simp only at hok
  split at hok
  · cases hok
  next editor heditor =>
    split at hok
    · cases hok
    next editor' hupsert =>
      split at hok
      · cases hok
      next written hwrite =>
        cases hok
        have hempty : editor.2 = [] := by
          simp only [Plumbing.small, Gix.small] at heditor
          split at heditor <;> cases heditor
          rfl
        simp only [Plumbing.small, Gix.small] at hupsert
        split at hupsert
        · cases hupsert
        · cases hupsert
          obtain ⟨⟨es, db₁⟩, hput, htree⟩ := bind_eq_ok.1 hwrite
          have hput' : db.writePath Plumbing.smallName .blob blob editor.1 (path.splitOn 47) = .ok (es, db₁) := by
            simpa [hempty] using hput
          exact (h.writePath hput').writeTree htree

theorem ObjectDb.Named.commitAs {repo repo' : Repository Bytes} {sig : Signature} {message : Text}
    {parents : List Bytes} (h : repo.objects.Named)
    (hok : Plumbing.small.commitAs repo sig message new parents = .ok (id, repo')) : repo'.objects.Named := by
  change Plumbing.smallCommit repo sig message new parents = .ok (id, repo') at hok
  unfold Plumbing.smallCommit at hok
  simp only at hok
  split at hok
  · cases hok
    exact h.add fun hblob => by cases hblob
  · cases hok

theorem ObjectDb.Named.writeBlob {data : Bytes} (h : db.Named)
    (hok : Plumbing.small.writeBlob db data = .ok (id, db')) : db'.Named := by
  change Plumbing.smallBlob db data = .ok (id, db') at hok
  unfold Plumbing.smallBlob at hok
  simp only at hok
  split at hok
  · cases hok
    exact h.add fun _ => rfl
  · cases hok

theorem ObjectDb.Named.wrote {repo repo' : Repository Bytes} {template oid : Text} {call : CommitCall} {now : Int}
    (h : repo.objects.Named) (hok : commitContent .small template repo call now = .ok (oid, repo')) :
    repo'.objects.Named := by
  unfold commitContent at hok
  obtain ⟨⟨blob, db₁⟩, hblob, hok⟩ := bind_eq_ok.1 hok
  obtain ⟨parent, -, hok⟩ := bind_eq_ok.1 hok
  obtain ⟨⟨new, db₂⟩, hedit, hok⟩ := bind_eq_ok.1 hok
  simp only at hok
  split at hok
  · cases hok
  next name email hsig =>
    obtain ⟨⟨id, repo₁⟩, hcommit, hok⟩ := bind_eq_ok.1 hok
    cases hok
    have h₂ : db₂.Named := (h.writeBlob (mapError_eq_ok.1 hblob)).edit hedit
    exact ObjectDb.Named.commitAs h₂ (mapError_eq_ok.1 hcommit)

theorem ObjectDb.Named.seeded {repo' : Repository Bytes} {oid : Text} {now : Int} (h : db.Named)
    (hok : seedInitialCommit .small ⟨db, none⟩ now = .ok (oid, repo')) : repo'.objects.Named := by
  unfold seedInitialCommit at hok
  obtain ⟨⟨blob, db₁⟩, hblob, hok⟩ := bind_eq_ok.1 hok
  obtain ⟨⟨new, db₂⟩, hedit, hok⟩ := bind_eq_ok.1 hok
  obtain ⟨⟨id, repo₁⟩, hcommit, hok⟩ := bind_eq_ok.1 hok
  cases hok
  have hempty : (Repository.mk db none).objects.Named := h
  have h₁ : db₁.Named := hempty.writeBlob (mapError_eq_ok.1 hblob)
  exact ObjectDb.Named.commitAs (h₁.edit hedit) (mapError_eq_ok.1 hcommit)

theorem ObjectDb.named_fresh : ObjectDb.fresh.Named := by
  intro id data hdata
  rw [ObjectDb.blobs_eq_some] at hdata
  simp only [ObjectDb.fresh] at hdata
  split at hdata
  · cases hdata
  · cases hdata

end

theorem Plumbing.smallWalk_eq {db : ObjectDb Bytes} {id : Bytes} {ids : List Bytes} (h : Chain db (some id) ids)
    {n : Nat} (hn : ids.length ≤ n) : smallWalk db n id = ids.map .ok := by
  induction ids generalizing id n with
  | nil => cases h
  | cons i ids ih =>
    cases h with
    | @commit _ treeId parent _ hfound hrest =>
      obtain ⟨m, rfl⟩ : ∃ m, n = m + 1 := ⟨n - 1, by simp only [List.length_cons] at hn; omega⟩
      cases parent with
      | none =>
        cases hrest
        simp [smallWalk, hfound]
      | some parent =>
        simp only [smallWalk, hfound, Option.toList_some, List.map_cons]
        rw [ih hrest (by simp only [List.length_cons] at hn; omega)]

end

/-! ## Any number of starts and writes -/

/-- A call that returned, and the id that it returned. -/
structure Returned where
  call : CommitCall
  now : Int
  oid : Text

/-- A repository as it has come to be: what is there now, the commits that
landed, newest first, and the calls that returned. -/
structure Life (Id : Type) where
  repo : Option (Repository Id)
  log : List Version
  returned : List Returned

/-- What can happen to it. -/
inductive Step {Id : Type} (lib : Plumbing Id) (template : Text) : Life Id → Life Id → Prop
  /-- A start; one that is cut off or meets an error after HEAD has moved
  leaves the same. -/
  | opened {r r' : Option (Repository Id)} {log : List Version} {returned : List Returned} {now : Int}
    {oid : Option Text} : openOrInit lib now r = (.ok oid, r') →
    Step lib template ⟨r, log, returned⟩ ⟨r', (oid.map (Version.seed · now)).toList ++ log, returned⟩
  | refused {r r' : Option (Repository Id)} {log : List Version} {returned : List Returned} {now : Int}
    {e : AppError} : openOrInit lib now r = (.error e, r') →
    Step lib template ⟨r, log, returned⟩ ⟨r', log, returned⟩
  /-- A start that is cut off between the new repository and its first commit. -/
  | interrupted {log : List Version} {returned : List Returned} {objects objects' : ObjectDb Id} :
    lib.init = .ok objects → objects.Grows objects' →
    Step lib template ⟨none, log, returned⟩ ⟨some ⟨objects', none⟩, log, returned⟩
  | wrote {repo repo' : Repository Id} {log : List Version} {returned : List Returned} {call : CommitCall} {now : Int}
    {v : Version} : v.IsOf template call now → commitContent lib template repo call now = .ok (v.oid, repo') →
    Step lib template ⟨some repo, log, returned⟩ ⟨some repo', v :: log, ⟨call, now, v.oid⟩ :: returned⟩
  /-- HEAD has moved, and nobody is told: the write was cut off between the
  move and its end, or Git met an error after it. -/
  | landed {repo repo' : Repository Id} {log : List Version} {returned : List Returned} {call : CommitCall} {now : Int}
    {v : Version} : v.IsOf template call now → commitContent lib template repo call now = .ok (v.oid, repo') →
    Step lib template ⟨some repo, log, returned⟩ ⟨some repo', v :: log, returned⟩
  /-- By a write that ends before HEAD moves, with an error or cut off, or by
  anybody else. -/
  | added {repo : Repository Id} {log : List Version} {returned : List Returned} {objects : ObjectDb Id} :
    repo.objects.Grows objects →
    Step lib template ⟨some repo, log, returned⟩ ⟨some { repo with objects }, log, returned⟩

/-- From a directory that has no repository. -/
def Reached {Id : Type} (lib : Plumbing Id) (template : Text) (x : Life Id) : Prop :=
  Relation.ReflTransGen (Step lib template) ⟨none, [], []⟩ x

/-- No repository and no log, or a repository that holds it. -/
def Life.Held {Id : Type} (lib : Plumbing Id) (x : Life Id) : Prop :=
  match x.repo with
  | none => x.log = []
  | some repo => Holds lib repo.objects repo.head x.log

/-- Every commit is a start's or a call's, and every call that returned has
its commit in the log. -/
structure Life.Attributed {Id : Type} (template : Text) (x : Life Id) : Prop where
  made : ∀ v ∈ x.log, (∃ now, v = .seed v.oid now) ∨ ∃ call now, v.IsOf template call now
  kept : ∀ r ∈ x.returned, ∃ v ∈ x.log, v.oid = r.oid ∧ v.IsOf template r.call r.now

section

variable {Id : Type} {lib : Plumbing Id} {template : Text} {x y : Life Id}

theorem Step.held (h : Step lib template x y) (hx : x.Held lib) : y.Held lib := by
  cases h with
  | @opened r r' log returned now oid hopen =>
    cases r with
    | some repo =>
      cases hopen
      exact hx
    | none =>
      obtain rfl : log = [] := hx
      simp only [openOrInit] at hopen
      split at hopen
      · cases hopen
      next objects hinit =>
        split at hopen
        · cases hopen
        next oid repo hseed =>
          cases hopen
          exact (seeded_holds hseed).2
  | @refused r r' log returned now e hopen =>
    cases r with
    | some repo => cases hopen
    | none =>
      obtain rfl : log = [] := hx
      simp only [openOrInit] at hopen
      split at hopen
      · cases hopen
        rfl
      next objects hinit =>
        split at hopen
        · cases hopen
          exact Holds.empty
        · cases hopen
  | @interrupted log returned objects objects' hinit hg =>
    obtain rfl : log = [] := hx
    exact Holds.empty
  | wrote hv hok => exact wrote_holds hx hv hok
  | landed hv hok => exact wrote_holds hx hv hok
  | added hg => exact Holds.mono hx hg

theorem Life.Attributed.cons {repo : Option (Repository Id)} {v : Version} {call : CommitCall} {now : Int}
    (h : x.Attributed template) (hv : v.IsOf template call now) :
    (Life.mk repo (v :: x.log) x.returned).Attributed template where
  made w hw := by
    rcases List.mem_cons.1 hw with rfl | hw
    · exact .inr ⟨call, now, hv⟩
    · exact h.made w hw
  kept r hr := by
    obtain ⟨w, hw, hof⟩ := h.kept r hr
    exact ⟨w, List.mem_cons_of_mem v hw, hof⟩

theorem Step.attributed (h : Step lib template x y) (hx : x.Attributed template) : y.Attributed template := by
  cases h with
  | @opened r r' log returned now oid hopen =>
    refine ⟨fun v hv => ?_, fun r hr => ?_⟩
    · rcases List.mem_append.1 hv with hv | hv
      · obtain ⟨oid', -, rfl⟩ := Option.map_eq_some_iff.1 (Option.mem_toList.1 hv)
        exact .inl ⟨now, rfl⟩
      · exact hx.made v hv
    · obtain ⟨v, hv, hof⟩ := hx.kept r hr
      exact ⟨v, List.mem_append_right _ hv, hof⟩
  | refused hopen => exact ⟨hx.made, hx.kept⟩
  | interrupted hinit hg => exact ⟨hx.made, hx.kept⟩
  | @wrote repo repo' log returned call now v hv hok =>
    have hcons : (Life.mk (some repo') (v :: log) returned).Attributed template := hx.cons hv
    refine ⟨hcons.made, fun r hr => ?_⟩
    rcases List.mem_cons.1 hr with rfl | hr
    · exact ⟨v, List.mem_cons_self, rfl, hv⟩
    · exact hcons.kept r hr
  | landed hv hok => exact hx.cons hv
  | added hg => exact ⟨hx.made, hx.kept⟩

theorem Reached.held (h : Reached lib template x) : x.Held lib := by
  induction h with
  | refl => rfl
  | tail _ hstep ih => exact hstep.held ih

theorem Reached.attributed (h : Reached lib template x) : x.Attributed template := by
  induction h with
  | refl => exact ⟨fun _ hv => absurd hv List.not_mem_nil, fun _ hr => absurd hr List.not_mem_nil⟩
  | tail _ hstep ih => exact hstep.attributed ih

theorem Reached.holds {repo : Repository Id} (h : Reached lib template x) (hrepo : x.repo = some repo) :
    Holds lib repo.objects repo.head x.log := by
  have hheld := h.held
  simp only [Life.Held, hrepo] at hheld
  exact hheld

/-- **The repository is a log of file versions.** However often it was started,
and whichever writes failed or were cut off, the history of a file is the list
of the landed commits that changed it, newest first; each of them has every
file as the log had it then, and its own file with the content of its own call;
it is a start's or a call's, under the author of that call; and the commit of
every call that returned is among them. -/
theorem Repository.is_log [DecidableEq Id] {repo : Repository Id} (hrun : Reached lib template x)
    (hrepo : x.repo = some repo) (hs : lib.Sound repo) :
    (∀ relpath limit, fileHistory lib repo relpath limit =
      .ok (((changes x.log relpath).take (max 1 limit)).map (Version.info lib))) ∧
    (∀ newer v older, x.log = newer ++ v :: older →
      (∀ relpath, fileAtCommit lib.toGix repo.objects v.oid relpath = .ok (stored (v :: older) relpath)) ∧
      fileAtCommit lib.toGix repo.objects v.oid v.relpath = .ok (some v.content)) ∧
    (∀ v ∈ x.log, (∃ now, v = .seed v.oid now) ∨ ∃ call now, v.IsOf template call now) ∧
    (∀ r ∈ x.returned, ∃ v ∈ x.log, v.oid = r.oid ∧ v.IsOf template r.call r.now) ∧
    ∀ v : Version, Text.trim v.author.name = v.author.name → Text.trim v.author.email = v.author.email →
      (v.info lib).authorName = v.author.name ∧ (v.info lib).authorEmail = v.author.email := by
  have hholds := hrun.holds hrepo
  refine ⟨fun relpath limit => ?_, fun newer v older hlog => ?_, hrun.attributed.made, hrun.attributed.kept,
    fun v hname hemail => ?_⟩
  · unfold fileHistory
    cases hhead : repo.head with
    | none =>
      rw [hhead] at hholds
      generalize x.log = log at hholds
      cases hholds
      simp [changes, Versions.changes]
    | some id =>
      rw [hhead] at hholds
      obtain ⟨ids, hchain, -⟩ := hholds.chain
      simp only [hs.walk id ids hhead hchain, Except.mapError, bind, Except.bind]
      rw [hholds.historyLoop hs.same hchain relpath [] (by rw [List.length_nil]; omega)]
      rfl
  · rw [hlog] at hholds
    obtain ⟨head, hv⟩ := hholds.suffix
    have hself : stored (v :: older) v.relpath = some v.content := Versions.stored_self _ v older
    exact ⟨hv.fileAtCommit, hself ▸ hv.fileAtCommit v.relpath⟩
  · rw [Version.info, lib.identity_eq v.author hname hemail]
    exact ⟨rfl, rfl⟩

end

/-- Two actors write the same page. -/
def smallCalls : CommitCall × CommitCall where
  fst := { relpath := ["notes.md".toList], content := "one".toList, actorType := "human".toList,
           actorHandle := "alice".toList, message := "edit: notes".toList }
  snd := { relpath := ["notes.md".toList], content := "two".toList, actorType := "agent".toList,
           actorHandle := "bob".toList, message := "edit: notes".toList }

theorem ok_of_isOk {ε α : Type} {x : Except ε α} (h : x.isOk = true) : ∃ a, x = .ok a := by
  cases x with
  | error e => cases h
  | ok a => exact ⟨a, rfl⟩

/-- Nobody is told of the first one; it is in the history all the same. -/
theorem Repository.is_log_small : ∃ repo log first second,
    Reached .small defaultAuthorTemplate ⟨some repo, log, [⟨smallCalls.2, 2, second.oid⟩]⟩ ∧
      fileHistory .small repo ["notes.md".toList] 10 = .ok [second, first] ∧
      first.authorName = "human:alice".toList ∧ second.authorName = "agent:bob".toList ∧
      fileAtCommit Plumbing.small.toGix repo.objects first.oid ["notes.md".toList] = .ok (some "one".toList) ∧
      fileAtCommit Plumbing.small.toGix repo.objects second.oid ["notes.md".toList] = .ok (some "two".toList) := by
  obtain ⟨⟨oid₂, repo₂⟩, hall⟩ := ok_of_isOk
    (show (do
        let (_, repo) ← seedInitialCommit .small { objects := .fresh, head := none } 0
        let (_, repo) ← commitContent .small defaultAuthorTemplate repo smallCalls.1 1
        commitContent .small defaultAuthorTemplate repo smallCalls.2 2).isOk = true by decide +kernel)
  obtain ⟨⟨oid₀, repo₀⟩, h₀, hall⟩ := bind_eq_ok.1 hall
  obtain ⟨⟨oid₁, repo₁⟩, h₁, h₂⟩ := bind_eq_ok.1 hall
  have hsig₁ : (Version.written oid₁ smallCalls.1 "human:alice".toList "alice@wikikiki.local".toList 1).IsOf
    defaultAuthorTemplate smallCalls.1 1 := ⟨_, _, by decide +kernel, rfl⟩
  have hsig₂ : (Version.written oid₂ smallCalls.2 "agent:bob".toList "bob@wikikiki.local".toList 2).IsOf
    defaultAuthorTemplate smallCalls.2 2 := ⟨_, _, by decide +kernel, rfl⟩
  have hopen : openOrInit .small 0 none = (.ok (some oid₀), some repo₀) := by
    simp only [openOrInit, show Plumbing.small.init = .ok .fresh from rfl, h₀]
  have hrun : Reached .small defaultAuthorTemplate ⟨some repo₂,
      [.written oid₂ smallCalls.2 "agent:bob".toList "bob@wikikiki.local".toList 2,
        .written oid₁ smallCalls.1 "human:alice".toList "alice@wikikiki.local".toList 1, .seed oid₀ 0],
      [⟨smallCalls.2, 2, oid₂⟩]⟩ :=
    ((Relation.ReflTransGen.refl.tail (.opened hopen)).tail (.landed hsig₁ h₁)).tail (.wrote hsig₂ h₂)
  have hnamed : repo₂.objects.Named := ((ObjectDb.named_fresh.seeded h₀).wrote h₁).wrote h₂
  have hsound : Plumbing.small.Sound repo₂ := by
    refine ⟨fun a b data ha hb => (hnamed a data ha).trans (hnamed b data hb).symm, fun id ids hhead hchain => ?_⟩
    obtain ⟨ids', hchain', hmap⟩ := (hrun.holds rfl).chain
    obtain rfl : ids = ids' := (hhead ▸ hchain).unique hchain'
    have hlen := congrArg List.length hmap
    rw [List.length_map, List.length_map] at hlen
    exact congrArg Except.ok (Plumbing.smallWalk_eq hchain (hlen.trans_le (Nat.le_of_ble_eq_true rfl)))
  obtain ⟨hhistory, hfile, -⟩ := Repository.is_log hrun rfl hsound
  refine ⟨repo₂, _, Version.info .small (.written oid₁ smallCalls.1 "human:alice".toList "alice@wikikiki.local".toList 1),
    Version.info .small (.written oid₂ smallCalls.2 "agent:bob".toList "bob@wikikiki.local".toList 2), hrun,
    (hhistory _ _).trans rfl, rfl, rfl, (hfile [_] _ [_] rfl).2, (hfile [] _ [_, _] rfl).2⟩

end Wikikiki.Git
