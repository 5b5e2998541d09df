/-
The database of the service: the tables that a page write reads and writes,
the queries it runs on them, and the transaction that records a write.

`pages.path` is UNIQUE in the schema, so it is a field of `Db` here. Of a
row, the columns that the queries below bind or return are kept; of
`PageMeta`, everything.

`project_spec` is the one lemma about the transaction. Nothing outside this
file unfolds it.
-/
import Wikikiki.Lib.Table
import Wikikiki.Precondition

namespace Wikikiki

/-! ## Tables -/

structure LayerRow where
  code : Text
  isActive : Int

structure ActorRow where
  actorType : Text
  name : Text
  handle : Text
  isAdmin : Int
  isActive : Int

structure PageRow where
  path : Text
  layer : Text
  title : Text
  contentHash : Option Text
  createdAt : Int
  updatedAt : Int
  lastEditAt : Option Int
  lastEditBy : Option Int
  deriving DecidableEq

structure EditRow where
  pageId : Int
  actorId : Int
  gitCommit : Option Text
  summary : Option Text
  createdAt : Int
  deriving DecidableEq

structure FtsRow where
  title : Text
  content : Text
  path : Text
  deriving DecidableEq

structure Db where
  layers : List LayerRow
  actors : Table ActorRow
  pages : Table PageRow
  pageEdits : Table EditRow
  pagesFts : Table FtsRow
  uniquePath : (pages.rows.map fun p => p.2.path).Nodup

/-! ## Queries -/

/-- `SELECT EXISTS(SELECT 1 FROM layers WHERE code = ? AND is_active = 1)`. -/
def Db.layerIsActive (db : Db) (code : Text) : Bool :=
  db.layers.any fun l => l.code = code && l.isActive == 1

/-- `Actor`. -/
structure Actor where
  id : Int
  actorType : Text
  name : Text
  handle : Text
  isAdmin : Bool
  isActive : Bool

/-- `actor_by_id`. -/
def Db.actorById (db : Db) (id : Int) : Option Actor :=
  (db.actors.get id).map fun (r : ActorRow) =>
    { id, actorType := r.actorType, name := r.name, handle := r.handle,
      isAdmin := r.isAdmin != 0, isActive := r.isActive != 0 }

/-- `SELECT ... FROM pages WHERE path = ?`. -/
def Db.findPage (db : Db) (path : Text) : Option (Int × PageRow) := db.pages.find fun r => r.path = path

/-- The state that a precondition is checked against. -/
def Db.currentState (db : Db) (path : Text) : CurrentState :=
  match db.findPage path with
  | some (_, row) => .present row.contentHash
  | none => .absent

/-- `PageMeta`. -/
structure PageMeta where
  id : Int
  path : Text
  layer : Text
  title : Text
  lastEditAt : Option Int
  lastEditBy : Option Int
  lastEditHandle : Option Text
  lastEditType : Option Text
  revision : Option Text
  deriving DecidableEq

/-- The row of `pages` joined with the actor of its last edit. -/
def Db.pageMeta (db : Db) (id : Int) (row : PageRow) : PageMeta :=
  let actor := row.lastEditBy.bind db.actors.get
  { id, path := row.path, layer := row.layer, title := row.title, lastEditAt := row.lastEditAt,
    lastEditBy := row.lastEditBy, lastEditHandle := actor.map (·.handle),
    lastEditType := actor.map (·.actorType), revision := row.contentHash }

/-- `read_meta`. -/
def Db.readMeta (db : Db) (path : Text) : Option PageMeta :=
  (db.findPage path).map fun p => db.pageMeta p.1 p.2

section Queries

variable {db : Db} {path : Text} {id : Int} {row : PageRow}

theorem Db.findPage_eq_some :
    db.findPage path = some (id, row) ↔ (id, row) ∈ db.pages.rows ∧ row.path = path := by
  rw [findPage, Table.find, Table.find?_eq_some db.uniquePath (k := path) (by simp)]
  simp

theorem Db.findPage_eq_none : db.findPage path = none ↔ ∀ p ∈ db.pages.rows, p.2.path ≠ path := by
  simp [findPage, Table.find, List.find?_eq_none]

theorem Db.currentState_eq_present {r : Option Text} :
    db.currentState path = .present r ↔
      ∃ id row, db.findPage path = some (id, row) ∧ row.contentHash = r := by
  simp only [currentState]
  split
  next i p h => simp [h]
  next h => simp [h]

end Queries

/-! ## The transaction -/

/-- `WriteRequest`. -/
structure WriteRequest where
  path : Text
  layer : Text
  content : Text
  actorId : Int
  actorType : Text
  actorHandle : Text
  summary : Option Text
  precondition : Precondition

/-- What the write puts into the page's row; a row that exists keeps its
creation time. -/
def WriteRequest.row (req : WriteRequest) (title hash : Text) (createdAt now : Int) : PageRow :=
  { path := req.path, layer := req.layer, title, contentHash := some hash, createdAt, updatedAt := now,
    lastEditAt := some now, lastEditBy := some req.actorId }

/-- The record of the edit. -/
def WriteRequest.edit (req : WriteRequest) (pageId : Int) (oid : Text) (now : Int) : EditRow :=
  { pageId, actorId := req.actorId, gitCommit := some oid, summary := req.summary, createdAt := now }

/-- `UPDATE pages` or `INSERT INTO pages`, with the id of the page. -/
def Db.upsertPage (db : Db) (req : WriteRequest) (title hash : Text) (now : Int) : Int × Db :=
  match h : db.findPage req.path with
  | some (id, row) =>
    (id, { db with
      pages := db.pages.modify id fun r =>
        { req.row title hash r.createdAt now with path := r.path }
      uniquePath := by
        have hp : ∀ p : Int × PageRow, (if p.1 = id then { req.row title hash p.2.createdAt now with
            path := p.2.path } else p.2).path = p.2.path := fun p => by split <;> rfl
        simpa [Table.modify, List.map_map, Function.comp_def, hp] using db.uniquePath })
  | none =>
    (db.pages.nextId, { db with
      pages := db.pages.insert (req.row title hash now now)
      uniquePath := by
        have hnew := Db.findPage_eq_none.1 h
        simp only [Table.rows_insert, List.map_append, List.map_cons, List.map_nil,
          List.nodup_append, List.mem_singleton, List.mem_map]
        refine ⟨db.uniquePath, by simp, fun a ha b hb => ?_⟩
        obtain ⟨p, hp, rfl⟩ := ha
        rw [hb]
        exact hnew p hp })

/-- The transaction of `write_serialized`: the page's row, its edit record
and its text in the index, all or nothing. -/
def Db.project (db : Db) (req : WriteRequest) (title hash oid : Text) (now : Int) : Int × Db :=
  let (id, db) := db.upsertPage req title hash now
  (id, { db with
    pageEdits := db.pageEdits.insert (req.edit id oid now)
    pagesFts := (db.pagesFts.erase id).insertAt id { title, content := req.content, path := req.path } })

/-- What the upsert leaves: the row under `id` is the new one, and `id` is the
page's. -/
theorem Db.upsertPage_spec (db : Db) (req : WriteRequest) (title hash : Text) (now : Int) :
    let id := (db.upsertPage req title hash now).1
    let db' := (db.upsertPage req title hash now).2
    (∃ at₀, ∀ i r, (i, r) ∈ db'.pages.rows ↔
      (i = id ∧ r = req.row title hash at₀ now) ∨ (i ≠ id ∧ (i, r) ∈ db.pages.rows)) ∧
    (∀ i r, (i, r) ∈ db.pages.rows → (i = id ↔ r.path = req.path)) ∧
    db'.layers = db.layers ∧ db'.actors = db.actors ∧ db'.pageEdits = db.pageEdits ∧
    db'.pagesFts = db.pagesFts := by
  intro id db'
  unfold id db' upsertPage
  split
  next i row h =>
    obtain ⟨hm, hp⟩ := Db.findPage_eq_some.1 h
    refine ⟨⟨row.createdAt, fun j r => ?_⟩, fun j r hj => ⟨?_, ?_⟩, rfl, rfl, rfl, rfl⟩
    · have hrow : ({ req.row title hash row.createdAt now with path := row.path } : PageRow) =
          req.row title hash row.createdAt now := by rw [hp]; rfl
      rw [Table.mem_modify hm, hrow]
    · intro heq
      subst heq
      rw [Table.eq_of_mem hj hm, hp]
    · intro hr
      exact congrArg Prod.fst (List.inj_on_of_nodup_map db.uniquePath hj hm (hr.trans hp.symm))
  next h =>
    refine ⟨⟨now, fun j r => Table.mem_insert⟩, fun j r hj => ⟨?_, ?_⟩, rfl, rfl, rfl, rfl⟩
    · intro heq
      subst heq
      exact absurd (db.pages.lt_nextId hj) (Int.lt_irrefl _)
    · intro hr
      exact absurd hr (Db.findPage_eq_none.1 h _ hj)

/-- What a transaction that committed did, as a relation between the database
before and after it. -/
structure Db.Projected (db : Db) (req : WriteRequest) (title hash oid : Text) (id : Int) (db' : Db) :
    Prop where
  pages : ∃ at₀ now, ∀ i r, (i, r) ∈ db'.pages.rows ↔
    (i = id ∧ r = req.row title hash at₀ now) ∨ (i ≠ id ∧ (i, r) ∈ db.pages.rows)
  page : ∀ i r, (i, r) ∈ db.pages.rows → (i = id ↔ r.path = req.path)
  edits : ∃ now, db'.pageEdits.rows = db.pageEdits.rows ++ [(db.pageEdits.nextId, req.edit id oid now)]
  fts : ∀ i f, (i, f) ∈ db'.pagesFts.rows ↔
    (i = id ∧ f = { title, content := req.content, path := req.path }) ∨
      (i ≠ id ∧ (i, f) ∈ db.pagesFts.rows)
  layers : db'.layers = db.layers
  actors : db'.actors = db.actors

theorem Db.project_spec (db : Db) (req : WriteRequest) (title hash oid : Text) (now : Int) :
    db.Projected req title hash oid (db.project req title hash oid now).1
      (db.project req title hash oid now).2 := by
  obtain ⟨⟨at₀, hp⟩, hid, hl, ha, he, hf⟩ := db.upsertPage_spec req title hash now
  simp only [project]
  refine ⟨⟨at₀, now, hp⟩, hid, ⟨now, ?_⟩, fun i f => ?_, hl, ha⟩
  · simp only [Table.rows_insert, he]
  · simp only [Table.mem_insertAt, Table.mem_erase, hf]
    constructor
    · intro hor
      rcases hor with h | ⟨hne, -, hm⟩
      · exact .inl h
      · exact .inr ⟨hne, hm⟩
    · intro hor
      rcases hor with h | ⟨hne, hm⟩
      · exact .inl h
      · exact .inr ⟨hne, hne, hm⟩

variable {db db' : Db} {req : WriteRequest} {title hash oid : Text} {id : Int}

/-- The page's row after the transaction. -/
theorem Db.Projected.findPage_self (h : db.Projected req title hash oid id db') :
    ∃ at₀ now, db'.findPage req.path = some (id, req.row title hash at₀ now) := by
  obtain ⟨at₀, now, hp⟩ := h.pages
  exact ⟨at₀, now, Db.findPage_eq_some.2 ⟨(hp _ _).2 (.inl ⟨rfl, rfl⟩), rfl⟩⟩

/-- Every other page keeps its row. -/
theorem Db.Projected.findPage_other (h : db.Projected req title hash oid id db') {p : Text}
    (hne : p ≠ req.path) :
    db'.findPage p = db.findPage p := by
  obtain ⟨at₀, now, hp⟩ := h.pages
  have hiff : ∀ i r, db'.findPage p = some (i, r) ↔ db.findPage p = some (i, r) := by
    intro i r
    rw [Db.findPage_eq_some, Db.findPage_eq_some, hp]
    constructor
    · intro hex
      rcases hex with ⟨⟨rfl, rfl⟩ | ⟨-, hm⟩, hr⟩
      · exact absurd hr.symm hne
      · exact ⟨hm, hr⟩
    · intro ⟨hm, hr⟩
      exact ⟨.inr ⟨fun he => hne (hr.symm.trans ((h.page i r hm).1 he)), hm⟩, hr⟩
  exact Option.ext fun q => hiff q.1 q.2

theorem Db.Projected.currentState_self (h : db.Projected req title hash oid id db') :
    db'.currentState req.path = .present (some hash) := by
  obtain ⟨at₀, now, hf⟩ := h.findPage_self
  simp [Db.currentState, hf, WriteRequest.row]

theorem Db.Projected.currentState_other (h : db.Projected req title hash oid id db') {p : Text}
    (hne : p ≠ req.path) : db'.currentState p = db.currentState p := by
  simp only [Db.currentState, h.findPage_other hne]

/-! ## A small database -/

/-- A row written outside the service, with whatever it has for a revision. -/
def PageRow.foreign (path : Text) (contentHash : Option Text) : PageRow :=
  { path, layer := "semantic".toList, title := path, contentHash, createdAt := 0, updatedAt := 0,
    lastEditAt := none, lastEditBy := none }

/-- One layer, one human, and at most one page. -/
def Db.small (page : Option PageRow) : Db where
  layers := [{ code := "semantic".toList, isActive := 1 }]
  actors := Table.empty.insert
    { actorType := "human".toList, name := "Alice".toList, handle := "alice".toList,
      isAdmin := 0, isActive := 1 }
  pages := page.elim .empty Table.empty.insert
  pageEdits := .empty
  pagesFts := .empty
  uniquePath := by cases page <;> simp [Table.empty]

end Wikikiki
