/-
The objects of the Git repository and how git/mod.rs reads them: the walk into
nested trees (`lookup_path_in_tree`), the tree that a write makes
(`edit_tree_with_blob`), whether a commit changed a file (`commit_touched`),
and a file as of a commit (`file_at_commit`).

The Git library is a parameter: what it finds under an id (`ObjectDb`), and
its tree editor (`Gix`), of which the model asks that it sets the entry at the
path, creating the trees that are missing, and nothing else.
-/
import Wikikiki.FileHistory
import Wikikiki.Lib.Objects

namespace Wikikiki.Git

open Objects (Entry Kind Leads Puts)

/-! ## The object database -/

/-- What the bytes of an object say. Of a tree, the entries up to the first
one that does not decode, and the text of its error. -/
inductive Shape (Id : Type) where
  | blob
  | tree (entries : List (Entry Bytes Id)) (broken : Option Text)
  | commit (treeId : Except Text Id) (parentIds : List Id)
  | tag

structure GitObject (Id : Type) where
  data : Bytes
  shape : Shape Id

/-- The objects of a repository. The errors are given by their texts. -/
structure ObjectDb (Id : Type) where
  /-- `repo.find_object(id)` -/
  find : Id → Except Text (GitObject Id)
  /-- What is said of an object that is of another kind than asked for. -/
  otherKind : Id → Text
  /-- `ObjectId::empty_tree`, which is found in every repository. -/
  emptyTree : Id
  find_emptyTree : find emptyTree = .ok { data := [], shape := .tree [] none }

section

variable {Id : Type} (db : ObjectDb Id)

/-- `repo.find_tree(id)` -/
def ObjectDb.findTree (id : Id) : Except Text (List (Entry Bytes Id) × Option Text) :=
  match db.find id with
  | .error e => .error e
  | .ok object =>
    match object.shape with
    | .tree entries broken => .ok (entries, broken)
    | _ => .error (db.otherKind id)

/-- `repo.find_commit(id)`, with `tree_id()` and `parent_ids()`. -/
def ObjectDb.findCommit (id : Id) : Except Text (Except Text Id × List Id) :=
  match db.find id with
  | .error e => .error e
  | .ok object =>
    match object.shape with
    | .commit treeId parentIds => .ok (treeId, parentIds)
    | _ => .error (db.otherKind id)

/-- The trees of the repository. -/
def ObjectDb.trees : Objects.Trees Bytes Id := fun id =>
  match db.findTree id with
  | .ok (entries, none) => some entries
  | _ => none

/-- The contents of its blobs. -/
def ObjectDb.blobs : Id → Option Bytes := fun id =>
  match db.find id with
  | .ok ⟨data, .blob⟩ => some data
  | _ => none

/-- Objects are only ever added. -/
def ObjectDb.Grows (db' : ObjectDb Id) : Prop := ∀ id object, db.find id = .ok object → db'.find id = .ok object

end

/-- The rest of the Git library: the editor of trees, and ids in
hexadecimal. -/
structure Gix (Id : Type) where
  Editor : Type
  /-- `repo.edit_tree(id)` -/
  editTree : ObjectDb Id → Id → Except Text Editor
  /-- `editor.upsert(path, kind, id)` -/
  upsert : Editor → Bytes → Kind → Id → Except Text Editor
  /-- `editor.write()` -/
  write : ObjectDb Id → Editor → Except Text (Id × ObjectDb Id)
  /-- `ObjectId::from_hex` -/
  fromHex : Bytes → Except Text Id
  /-- One blob upserted, and nothing else. -/
  sets : ∀ {db db' : ObjectDb Id} {start id new : Id} {es : List (Entry Bytes Id)} {editor editor' : Editor}
    {path : Bytes}, db.trees start = some es → Objects.Whole db.trees es → editTree db start = .ok editor →
    upsert editor path .blob id = .ok editor' → write db editor' = .ok (new, db') →
    db.Grows db' ∧ ∃ es', db'.trees new = some es' ∧ Puts db.trees db'.trees .blob id es (path.splitOn 47) es'

/-! ## The code -/

/-- `err` -/
def err (e : Text) : AppError := .internal ("git: ".toList ++ e)

/-- `path_to_bstring`; a path is text here. -/
def pathToBstring (p : PathBuf) : Bytes := Text.utf8 ((['/'].intercalate p).map toSlash)

section

variable {Id : Type}

/-- The inner loop of `lookup_path_in_tree`: the first entry of the name. -/
def scan (seg : Bytes) (broken : Option Text) : List (Entry Bytes Id) → Except AppError (Option (Id × Kind))
  | [] =>
    match broken with
    | some e => .error (err e)
    | none => .ok none
  | entry :: entries => if entry.name = seg then .ok (some (entry.id, entry.kind)) else scan seg broken entries

/-- The outer one, with the segments that are left. -/
def lookupSegments (db : ObjectDb Id) : Id → List Bytes → Except AppError (Option Id)
  | _, [] => .ok none
  | currentTreeId, seg :: segments =>
    match db.findTree currentTreeId with
    | .error e => .error (err e)
    | .ok (entries, broken) =>
      match scan seg broken entries with
      | .error e => .error e
      | .ok none => .ok none
      | .ok (some (oid, mode)) =>
        if segments.isEmpty then
          if mode.isBlob then .ok (some oid) else .ok none
        else if mode.isTree then lookupSegments db oid segments
        else .ok none

/-- `lookup_path_in_tree`, which splits the path at its slashes. -/
def lookupPathInTree (db : ObjectDb Id) (treeId : Id) (path : Bytes) : Except AppError (Option Id) :=
  lookupSegments db treeId (path.splitOn 47)

/-- `edit_tree_with_blob`: the id of the new tree, and the database with the
trees that were written. -/
def editTreeWithBlob (gix : Gix Id) (db : ObjectDb Id) (parentTreeId : Option Id) (path : Bytes) (blobId : Id) :
    Except AppError (Id × ObjectDb Id) :=
  let startingId := parentTreeId.getD db.emptyTree
  match gix.editTree db startingId with
  | .error e => .error (err e)
  | .ok editor =>
    match gix.upsert editor path .blob blobId with
    | .error e => .error (err e)
    | .ok editor =>
      match gix.write db editor with
      | .error e => .error (err e)
      | .ok written => .ok written

/-- `commit_touched`, on what the commit says of its tree and its parents. -/
def commitTouched [DecidableEq Id] (db : ObjectDb Id) (treeId : Except Text Id) (parentIds : List Id)
    (target : Bytes) : Except AppError Bool := do
  let thisBlob ← lookupPathInTree db (← treeId.mapError err) target
  match parentIds with
  | [] => return thisBlob.isSome
  | parent :: _ =>
    let (parentTreeId, _) ← (db.findCommit parent).mapError err
    let parentBlob ← lookupPathInTree db (← parentTreeId.mapError err) target
    return decide (thisBlob ≠ parentBlob)

/-- `file_at_commit`, for a repository that opens. -/
def fileAtCommit (gix : Gix Id) (db : ObjectDb Id) (oid : Text) (relpath : PathBuf) :
    Except AppError (Option Text) := do
  let id ← (gix.fromHex (Text.utf8 oid)).mapError err
  let (treeId, _) ← (db.findCommit id).mapError err
  match ← lookupPathInTree db (← treeId.mapError err) (pathToBstring relpath) with
  | none => return none
  | some blobId =>
    let object ← (db.find blobId).mapError err
    return some (Text.fromUtf8Lossy object.data)

end

/-! ## What the code finds -/

section

variable {Id : Type} {gix : Gix Id} {db db' : ObjectDb Id} {current root id : Id} {es : List (Entry Bytes Id)}
  {segs : List Bytes}

theorem ObjectDb.trees_eq_some : db.trees id = some es ↔ db.findTree id = .ok (es, none) := by
  unfold trees
  split
  next h => simp [h]
  next hne =>
    simp only [reduceCtorEq, false_iff]
    intro h
    exact hne _ h

theorem ObjectDb.findTree_eq_ok {broken : Option Text} :
    db.findTree id = .ok (es, broken) ↔ ∃ data, db.find id = .ok { data, shape := .tree es broken } := by
  unfold findTree
  split
  next h => simp [h]
  next object h =>
    obtain ⟨data, shape⟩ := object
    cases shape <;> simp [h]

theorem ObjectDb.findCommit_eq_ok {treeId : Except Text Id} {parentIds : List Id} :
    db.findCommit id = .ok (treeId, parentIds) ↔
      ∃ data, db.find id = .ok { data, shape := .commit treeId parentIds } := by
  unfold findCommit
  split
  next h => simp [h]
  next object h =>
    obtain ⟨data, shape⟩ := object
    cases shape <;> simp [h]

theorem ObjectDb.Grows.trees (h : db.Grows db') : Objects.Extends db.trees db'.trees := by
  intro id es hes
  rw [ObjectDb.trees_eq_some, ObjectDb.findTree_eq_ok] at hes ⊢
  obtain ⟨data, hfind⟩ := hes
  exact ⟨data, h _ _ hfind⟩

theorem ObjectDb.Grows.refl (db : ObjectDb Id) : db.Grows db := fun _ _ h => h

theorem ObjectDb.Grows.trans {db'' : ObjectDb Id} (h : db.Grows db') (h' : db'.Grows db'') : db.Grows db'' :=
  fun id object hfind => h' id object (h id object hfind)

theorem scan_eq (seg : Bytes) (entries : List (Entry Bytes Id)) :
    scan seg none entries = .ok ((Objects.named seg entries).map fun e => (e.id, e.kind)) := by
  induction entries with
  | nil => rfl
  | cons e entries ih =>
    rw [scan, Objects.named_cons]
    split
    · rfl
    · exact ih

/-- What is left of the path leads from the current tree to what the loop
returns, and the loop does return. -/
theorem lookupSegments_leads (hcurrent : db.trees current = some es) (hw : Objects.Whole db.trees es) :
    ∃ o, lookupSegments db current segs = .ok o ∧ ∀ b, o = some b ↔ Leads db.trees es segs b := by
  induction segs generalizing current es with
  | nil => exact ⟨none, rfl, fun b => iff_of_false (by simp) Objects.not_leads_nil⟩
  | cons seg segs ih =>
    rw [lookupSegments, ObjectDb.trees_eq_some.1 hcurrent]
    simp only [scan_eq]
    cases segs with
    | nil =>
      simp only [Objects.leads_last hw.unique]
      cases hn : Objects.named seg es with
      | none => exact ⟨none, rfl, by simp⟩
      | some e => by_cases hk : e.kind.isBlob = true <;> simp [hk]
    | cons seg' segs =>
      simp only [Objects.leads_inner hw.unique]
      cases hn : Objects.named seg es with
      | none => exact ⟨none, rfl, by simp⟩
      | some e =>
        by_cases hk : e.kind.isTree = true
        · obtain ⟨sub, hsub, hw'⟩ := hw.under (Objects.mem_of_named hn) hk
          obtain ⟨o, ho, hl⟩ := ih hsub hw'
          refine ⟨o, by simpa [hk] using ho, fun b => ?_⟩
          simp [hl, hk, hsub]
        · exact ⟨none, by simp [hk], by simp [hk]⟩

theorem lookupPathInTree_leads (hroot : db.trees root = some es) (hw : Objects.Whole db.trees es) (path : Bytes) :
    ∃ o, lookupPathInTree db root path = .ok o ∧ ∀ b, o = some b ↔ Leads db.trees es (path.splitOn 47) b :=
  lookupSegments_leads hroot hw

/-- What is known of a tree that was written. -/
theorem editTreeWithBlob_puts {parent : Option Id} {path : Bytes} {blob new : Id}
    (hroot : db.trees (parent.getD db.emptyTree) = some es) (hw : Objects.Whole db.trees es)
    (h : editTreeWithBlob gix db parent path blob = .ok (new, db')) :
    db.Grows db' ∧ ∃ es', db'.trees new = some es' ∧ Puts db.trees db'.trees .blob blob es (path.splitOn 47) es' := by
  unfold editTreeWithBlob at h
  simp only at h
  split at h
  · cases h
  next editor heditor =>
    split at h
    · cases h
    next editor' hupsert =>
      split at h
      · cases h
      next written hwrite =>
        cases h
        exact gix.sets hroot hw heditor hupsert hwrite

end

/-! ## A small editor -/

section

variable {Id : Type} [DecidableEq Id]

/-- The object is put under an id that nothing is found under. -/
def ObjectDb.add (db : ObjectDb Id) (id : Id) (object : GitObject Id) : ObjectDb Id where
  find i :=
    match db.find i with
    | .ok found => .ok found
    | .error e => if i = id then .ok object else .error e
  otherKind := db.otherKind
  emptyTree := db.emptyTree
  find_emptyTree := by rw [db.find_emptyTree]

/-- A tree is put under the id that its entries have, unless that is taken. -/
def ObjectDb.writeTree (name : List (Entry Bytes Id) → Id) (db : ObjectDb Id) (es : List (Entry Bytes Id)) :
    Except Text (Id × ObjectDb Id) :=
  let db' := db.add (name es) { data := [], shape := .tree es none }
  if db'.trees (name es) = some es then .ok (name es, db') else .error "collision".toList

/-- The trees below the one that is edited are put, the last one first. -/
def ObjectDb.writePath (name : List (Entry Bytes Id) → Id) (kind : Kind) (id : Id) (db : ObjectDb Id) :
    List (Entry Bytes Id) → List Bytes → Except Text (List (Entry Bytes Id) × ObjectDb Id)
  | _, [] => .error "empty path".toList
  | es, [n] => .ok (Objects.setEntry ⟨n, kind, id⟩ es, db)
  | es, n :: m :: p => do
    let (sub, db) ← db.writePath name kind id (Objects.under db.trees es n) (m :: p)
    let (child, db) ← db.writeTree name sub
    return (Objects.setEntry ⟨n, .tree, child⟩ es, db)

variable {name : List (Entry Bytes Id) → Id} {db db' : ObjectDb Id} {es es' : List (Entry Bytes Id)} {id new : Id}
  {kind : Kind} {p : List Bytes}

theorem ObjectDb.writeTree_eq_ok (h : db.writeTree name es = .ok (new, db')) :
    db.Grows db' ∧ db'.trees new = some es := by
  unfold writeTree at h
  simp only at h
  split at h
  next htree =>
    cases h
    refine ⟨fun i object hfind => ?_, htree⟩
    simp [add, hfind]
  · cases h

theorem ObjectDb.writePath_puts (h : db.writePath name kind id es p = .ok (es', db'))
    (hw : Objects.Whole db.trees es) :
    db.Grows db' ∧ Puts db.trees db'.trees kind id es p es' := by
  induction p generalizing es es' db' with
  | nil => cases h
  | cons n p ih =>
    cases p with
    | nil =>
      cases h
      exact ⟨.refl db, .last (Objects.sets_setEntry hw.unique _)⟩
    | cons m p =>
      obtain ⟨⟨sub, db₁⟩, hsub, h⟩ := bind_eq_ok.1 h
      obtain ⟨⟨child, db₂⟩, hchild, h⟩ := bind_eq_ok.1 h
      cases h
      have hunder := Objects.under_under hw n
      obtain ⟨hgrows, hput⟩ := ih hsub (hunder.whole hw)
      obtain ⟨hgrows', hthere⟩ := writeTree_eq_ok hchild
      exact ⟨hgrows.trans hgrows',
        .inner hunder (hput.mono hgrows'.trees) hthere (Objects.sets_setEntry hw.unique _)⟩

/-- An editor that writes what it was asked for when it is done. -/
def Gix.small (name : List (Entry Bytes Id) → Id) (fromHex : Bytes → Except Text Id) : Gix Id where
  Editor := List (Entry Bytes Id) × List (List Bytes × Kind × Id)
  editTree db start :=
    match db.findTree start with
    | .ok (es, none) => .ok (es, [])
    | .ok (_, some e) => .error e
    | .error e => .error e
  upsert editor path kind id :=
    if [] ∈ path.splitOn 47 then .error "empty component".toList
    else .ok (editor.1, editor.2 ++ [(path.splitOn 47, kind, id)])
  write db editor := do
    let (es, db) ← editor.2.foldlM (fun (es, db) (path, kind, id) => db.writePath name kind id es path) (editor.1, db)
    db.writeTree name es
  fromHex
  sets {db db' start id new es editor editor' path} hstart hw hedit hupsert hwrite := by
    rw [ObjectDb.trees_eq_some] at hstart
    simp only [hstart, Except.ok.injEq] at hedit
    subst hedit
    split at hupsert
    · cases hupsert
    · cases hupsert
      obtain ⟨⟨es', db₁⟩, hput, htree⟩ := bind_eq_ok.1 hwrite
      obtain ⟨hgrows, hthere⟩ := ObjectDb.writeTree_eq_ok htree
      have hput' : db.writePath name .blob id es (path.splitOn 47) = .ok (es', db₁) := by
        simpa using hput
      obtain ⟨hgrows', hputs⟩ := ObjectDb.writePath_puts hput' hw
      exact ⟨hgrows'.trans hgrows, es', hthere, hputs.mono hgrows.trees⟩

end

/-- A name that is a directory's in one tree and a file's in the other. -/
def ObjectDb.small : ObjectDb Bytes where
  find id :=
    if id = [] then .ok { data := [], shape := .tree [] none }
    else if id = [1] then .ok { data := Text.utf8 "one".toList, shape := .blob }
    else if id = [2] then .ok { data := Text.utf8 "two".toList, shape := .blob }
    else if id = [3] then .ok { data := [], shape := .tree [⟨Text.utf8 "a".toList, .blob, [1]⟩] none }
    else if id = [4] then
      .ok { data := [], shape := .tree [⟨Text.utf8 "a".toList, .tree, [3]⟩, ⟨Text.utf8 "b".toList, .blob, [2]⟩] none }
    else .error "not found".toList
  otherKind _ := "other kind".toList
  emptyTree := []
  find_emptyTree := rfl

/-- The editor for it; the id of a tree lists the names and the ids in it. -/
def smallGix : Gix Bytes := .small (fun es => 5 :: es.flatMap fun e => e.name ++ e.id) .ok

/-! ## The lookup and the edit -/

/-- **The lookup follows the path, and a write changes what stands at its own
path.** -/
theorem lookup_and_edit {Id : Type} (gix : Gix Id) {db : ObjectDb Id} {root : Id} {es : List (Entry Bytes Id)}
    (hroot : db.trees root = some es) (hw : Objects.Whole db.trees es) :
    (∀ path oid, lookupPathInTree db root path = .ok (some oid) ↔ Leads db.trees es (path.splitOn 47) oid) ∧
    (∀ path, lookupPathInTree db root path = .ok none ↔ ¬ ∃ oid, Leads db.trees es (path.splitOn 47) oid) ∧
    ∀ parent path blob new db', parent.getD db.emptyTree = root →
      editTreeWithBlob gix db parent path blob = .ok (new, db') →
      lookupPathInTree db' new path = .ok (some blob) ∧
      ∀ other, ¬ path.splitOn 47 <+: other.splitOn 47 → ¬ other.splitOn 47 <+: path.splitOn 47 →
        lookupPathInTree db' new other = lookupPathInTree db root other := by
  refine ⟨fun path oid => ?_, fun path => ?_, fun parent path blob new db' hparent hedit => ?_⟩
  · obtain ⟨o, ho, hl⟩ := lookupPathInTree_leads hroot hw path
    rw [ho, ← hl, Except.ok.injEq]
  · obtain ⟨o, ho, hl⟩ := lookupPathInTree_leads hroot hw path
    simp only [ho, ← hl, Except.ok.injEq]
    cases o <;> simp
  · subst hparent
    obtain ⟨hgrows, es', hnew, hput⟩ := editTreeWithBlob_puts hroot hw hedit
    have hw' : Objects.Whole db'.trees es' := hput.whole hw hgrows.trees rfl
    refine ⟨?_, fun other hpo hop => ?_⟩
    · obtain ⟨o, ho, hl⟩ := lookupPathInTree_leads hnew hw' path
      rw [ho, (hl blob).2 (hput.leads_self hw hgrows.trees rfl)]
    · obtain ⟨o, ho, hl⟩ := lookupPathInTree_leads hroot hw other
      obtain ⟨o', ho', hl'⟩ := lookupPathInTree_leads hnew hw' other
      have heq : o' = o := Option.ext fun b => by
        rw [hl', hl, hput.leads_other hw hgrows.trees rfl hpo hop]
      rw [ho, ho', heq]

theorem lookup_and_edit_small : ∃ new db',
    editTreeWithBlob smallGix .small (some [4]) (Text.utf8 "a/c/d".toList) [2] = .ok (new, db') ∧
      lookupPathInTree db' new (Text.utf8 "a/c/d".toList) = .ok (some [2]) ∧
      lookupPathInTree db' new (Text.utf8 "a/a".toList) = .ok (some [1]) := by
  have hsub : ObjectDb.small.trees [3] = some [⟨Text.utf8 "a".toList, .blob, [1]⟩] := rfl
  have hroot : ObjectDb.small.trees [4] =
    some [⟨Text.utf8 "a".toList, .tree, [3]⟩, ⟨Text.utf8 "b".toList, .blob, [2]⟩] := rfl
  have hw : Objects.Whole ObjectDb.small.trees
      [⟨Text.utf8 "a".toList, .tree, [3]⟩, ⟨Text.utf8 "b".toList, .blob, [2]⟩] := by
    refine Objects.whole_iff.2 ⟨by decide, fun e he hk => ?_⟩
    rcases List.mem_cons.1 he with rfl | he
    · refine ⟨_, hsub, Objects.whole_iff.2 ⟨by decide, fun e he hk => ?_⟩⟩
      rw [List.mem_singleton.1 he] at hk
      cases hk
    · rw [List.mem_singleton.1 he] at hk
      cases hk
  obtain ⟨new, db', hedit⟩ : ∃ new db',
      editTreeWithBlob smallGix .small (some [4]) (Text.utf8 "a/c/d".toList) [2] = .ok (new, db') := ⟨_, _, rfl⟩
  obtain ⟨hfollow, -, hput⟩ := lookup_and_edit smallGix hroot hw
  obtain ⟨hself, hother⟩ := hput (some [4]) _ _ _ _ rfl hedit
  refine ⟨new, db', hedit, hself, ?_⟩
  rw [hother _ (by decide) (by decide), hfollow]
  have ha : Leads ObjectDb.small.trees [⟨Text.utf8 "a".toList, .blob, [1]⟩] [Text.utf8 "a".toList] [1] :=
    .blob (List.mem_singleton_self _) rfl
  exact .tree List.mem_cons_self rfl hsub ha

/-! ## The trees of the wiki's commits -/

/-- The repository has this tree under an id. -/
def ObjectDb.KeepsTree {Id : Type} (db : ObjectDb Id) (id : Id) (t : GitTree) : Prop :=
  ∃ es, db.trees id = some es ∧ Objects.Whole db.trees es ∧ Objects.Holds db.trees Text.utf8 db.blobs es t

/-- And this commit, with the ids of its parents. -/
structure ObjectDb.KeepsCommit {Id : Type} (db : ObjectDb Id) (gix : Gix Id) (w : Wiki) (c : Commit) (id treeId : Id)
    (parentIds : List Id) : Prop where
  hex : gix.fromHex (Text.utf8 (w.ext.commitId c)) = .ok id
  found : db.findCommit id = .ok (.ok treeId, parentIds)
  tree : db.KeepsTree treeId c.tree
  parents : List.Forall₂ (fun parent parentId => gix.fromHex (Text.utf8 parent) = .ok parentId) c.parents parentIds

section

variable {Id : Type} {gix : Gix Id} {db db' : ObjectDb Id} {root id treeId : Id} {parentIds : List Id} {t : GitTree}
  {w : Wiki} {c : Commit} {older : List Commit}

theorem ObjectDb.blobs_eq_some {data : Bytes} :
    db.blobs id = some data ↔ db.find id = .ok { data, shape := .blob } := by
  unfold blobs
  split
  next d h => simp [h]
  next hne =>
    simp only [reduceCtorEq, false_iff]
    intro h
    exact hne _ h

theorem ObjectDb.Grows.blobs (h : db.Grows db') : Objects.Extends db.blobs db'.blobs := by
  intro id data hdata
  rw [ObjectDb.blobs_eq_some] at hdata ⊢
  exact h _ _ hdata

/-- The segments are the components of the path, in bytes. -/
theorem splitOn_pathToBstring (rel : PathBuf) : (pathToBstring rel).splitOn 47 = (treePath rel).map Text.utf8 :=
  Text.splitOn_utf8_slash _

theorem ObjectDb.keepsTree_empty (db : ObjectDb Id) : db.KeepsTree db.emptyTree [] := by
  refine ⟨[], ?_, .nil _, .nil _ _ _⟩
  rw [ObjectDb.trees_eq_some, ObjectDb.findTree_eq_ok]
  exact ⟨[], db.find_emptyTree⟩

/-- The lookup in the repository is the one in the tree. -/
theorem ObjectDb.KeepsTree.lookup (h : db.KeepsTree root t) (rel : PathBuf) :
    ∃ o, lookupPathInTree db root (pathToBstring rel) = .ok o ∧ o.map db.blobs =
      (Tree.lookup t (treePath rel)).map some := by
  obtain ⟨es, hroot, hw, hes⟩ := h
  obtain ⟨o, ho, hl⟩ := lookupPathInTree_leads hroot hw (pathToBstring rel)
  refine ⟨o, ho, ?_⟩
  rw [splitOn_pathToBstring] at hl
  cases hlook : Tree.lookup t (treePath rel) with
  | some data =>
    obtain ⟨b, hb, hdata⟩ := hes.leads hw hlook
    rw [(hl b).2 hb]
    exact congrArg some hdata
  | none =>
    cases o with
    | none => rfl
    | some b =>
      obtain ⟨data, -, hsome⟩ := ((hl b).1 rfl).lookup hw hes
      rw [hlook] at hsome
      cases hsome

theorem ObjectDb.KeepsTree.mono (h : db.KeepsTree root t) (hg : db.Grows db') : db'.KeepsTree root t := by
  obtain ⟨es, hroot, hw, hes⟩ := h
  exact ⟨es, hg.trees _ _ hroot, hw.mono hg.trees, fun n => (hes n).mono hg.trees hg.blobs⟩

/-- **A write makes the tree with the file in it.** -/
theorem ObjectDb.KeepsTree.edit {parent : Option Id} {blob new : Id} {rel : PathBuf} {data : Bytes}
    (h : db.KeepsTree (parent.getD db.emptyTree) t) (hblob : db.blobs blob = some data)
    (hedit : editTreeWithBlob gix db parent (pathToBstring rel) blob = .ok (new, db')) :
    db'.KeepsTree new (Tree.upsert t (treePath rel) data) := by
  obtain ⟨es, hroot, hw, hes⟩ := h
  obtain ⟨hgrows, es', hnew, hput⟩ := editTreeWithBlob_puts hroot hw hedit
  refine ⟨es', hnew, hput.whole hw hgrows.trees rfl, ?_⟩
  rw [splitOn_pathToBstring] at hput
  exact hput.holds Text.utf8_injective hw hes hgrows.trees hgrows.blobs rfl (hgrows.blobs _ _ hblob)

/-- **A file as of a commit is what the commit's tree has at its path.** -/
theorem fileAtCommit_eq (h : db.KeepsCommit gix w c id treeId parentIds) (rel : PathBuf) :
    fileAtCommit gix db (w.ext.commitId c) rel =
      .ok ((Tree.lookup c.tree (treePath rel)).map Text.fromUtf8Lossy) := by
  obtain ⟨o, ho, hmap⟩ := h.tree.lookup rel
  simp only [fileAtCommit, h.hex, h.found, Except.mapError, bind, Except.bind, ho]
  cases o with
  | none =>
    have hlook : Tree.lookup c.tree (treePath rel) = none := by simpa using hmap.symm
    rw [hlook]
    rfl
  | some b =>
    obtain ⟨data, hlook, hdata⟩ := Option.map_eq_some_iff.1 hmap.symm
    simp only [hlook, ObjectDb.blobs_eq_some.1 hdata.symm]
    rfl

/-- Where blobs of one content have one id, the ids tell the contents apart. -/
theorem same_blob (hids : ∀ a b data, db.blobs a = some data → db.blobs b = some data → a = b) {o o' : Option Id}
    {v v' : Option Bytes} (h : o.map db.blobs = v.map some) (h' : o'.map db.blobs = v'.map some) :
    o = o' ↔ v = v' := by
  have hsome : v.map some = v'.map some ↔ v = v' := Option.map_inj_right fun _ _ he => Option.some.inj he
  rw [← hsome, ← h, ← h']
  refine ⟨fun he => he ▸ rfl, fun he => ?_⟩
  cases o with
  | none => exact (Option.map_eq_none_iff.1 he.symm).symm
  | some b =>
    obtain ⟨b', rfl, hb⟩ := Option.map_eq_some_iff.1 he.symm
    obtain ⟨data, -, hdata⟩ := Option.map_eq_some_iff.1 h.symm
    rw [hids b b' data hdata.symm (hb.trans hdata.symm)]

/-- **A commit touched a file when the blob at its path is another one.** The
blobs of one content have one id, as hashes give it to them. -/
theorem commitTouched_eq [DecidableEq Id] (hids : ∀ a b data, db.blobs a = some data → db.blobs b = some data → a = b)
    (h : db.KeepsCommit gix w c id treeId parentIds)
    (holder : ∀ d ∈ older, ∃ id treeId parentIds, db.KeepsCommit gix w d id treeId parentIds) {rel : PathBuf}
    {touched : Bool} (ht : w.commitTouched older c (treePath rel) = some touched) :
    commitTouched db (.ok treeId) parentIds (pathToBstring rel) = .ok touched := by
  obtain ⟨o, ho, hmap⟩ := h.tree.lookup rel
  have hparents := h.parents
  unfold Wiki.commitTouched at ht
  simp only at ht
  generalize hc : c.parents = parents at ht hparents
  cases hparents with
  | nil =>
    cases ht
    have hsome : (Tree.lookup c.tree (treePath rel)).isSome = o.isSome := by
      have := congrArg Option.isSome hmap
      simpa using this.symm
    simp only [commitTouched, Except.mapError, bind, Except.bind, ho, hsome]
    rfl
  | @cons parent parentId _ _ hhex _ =>
    obtain ⟨d, hd, rfl⟩ := Option.map_eq_some_iff.1 ht
    have hfound : w.ext.commitId d = parent := by simpa using List.find?_some hd
    obtain ⟨id', treeId', parentIds', hd'⟩ := holder d (List.mem_of_find?_eq_some hd)
    obtain rfl : id' = parentId := by
      have := hd'.hex
      rw [hfound, hhex] at this
      exact (Except.ok.inj this).symm
    obtain ⟨o', ho', hmap'⟩ := hd'.tree.lookup rel
    simp only [commitTouched, Except.mapError, bind, Except.bind, ho, hd'.found, ho', ne_eq,
      same_blob hids hmap hmap']
    rfl

end

end Wikikiki.Git
