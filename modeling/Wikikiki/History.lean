/-
What a run of the ledger has done to Git and to the database, as two lists:
the commits that landed, each with its write, and the part of them that the
database records.

`History` ties the lists to the stores. Git is the landed commits on top of
what was there; the edit records are the recorded writes in order, behind
those that were there; and the row and the text of a page are those of the
last recorded write to it. A write between its commit and its transaction is
in the first list and not yet in the second.
-/
import Mathlib.Data.List.Forall2
import Mathlib.Logic.Relation
import Wikikiki.Ledger

namespace Wikikiki

/-! ## What a write leaves behind -/

/-- The commit of a write: its content at its file, under its actor. -/
structure CommitOf (v : Service) (t : Nat) (c : Commit) : Prop where
  blob : Tree.lookup c.tree (treePath (v.wiki.pageFile (v.req t).path)) = some (Text.utf8 (v.req t).content)
  author : parseSig (renderAuthor v.wiki.authorTemplate (v.req t).actorType (v.req t).actorHandle) =
    some (c.author.name, c.author.email)
  message : c.message = (v.req t).message

/-- The row of a page after a write. -/
structure RowOf (v : Service) (t : Nat) (row : PageRow) : Prop where
  path : row.path = (v.req t).path
  layer : row.layer = (v.req t).layer
  title : row.title = deriveTitle (v.req t).content (v.req t).path
  hash : row.contentHash = some (v.wiki.contentHash (v.req t).content)
  editor : row.lastEditBy = some (v.req t).actorId

/-- The text of a page in the index after a write. -/
def ftsOf (v : Service) (t : Nat) : FtsRow :=
  { title := deriveTitle (v.req t).content (v.req t).path, content := (v.req t).content,
    path := (v.req t).path }

/-- The edit record of a write and its commit. -/
structure EditOf (v : Service) (db : Db) (x : Nat × Commit) (e : Int × EditRow) : Prop where
  actor : e.2.actorId = (v.req x.1).actorId
  commit : e.2.gitCommit = some (v.wiki.ext.commitId x.2)
  summary : e.2.summary = (v.req x.1).summary
  page : ∃ row, (e.2.pageId, row) ∈ db.pages.rows ∧ row.path = (v.req x.1).path

/-- The last of some writes that was to the page. -/
def lastOn (v : Service) (p : Text) (xs : List (Nat × Commit)) : Option (Nat × Commit) :=
  (xs.filter fun x => (v.req x.1).path = p).getLast?

/-! ## The invariant -/

/-- Where the current write stands between the two lists. -/
def Pending (v : Service) (current : Option (Nat × Stage)) (commits recorded : List (Nat × Commit)) :
    Prop :=
  match current with
  | some (t, .project oid) =>
    ∃ init c, commits = init ++ [(t, c)] ∧ oid = v.wiki.ext.commitId c ∧ recorded.Sublist init
  | _ => recorded.Sublist commits

/-- Git holds the landed commits, and HEAD is where the current write read
it. -/
structure GitHistory (v : Service) (start l : Ledger) (commits : List (Nat × Commit)) : Prop where
  git : l.stores.git = (commits.map Prod.snd).reverse ++ start.stores.git
  landed : commits.map Prod.fst = l.landed
  own : ∀ x ∈ commits, CommitOf v x.1 x.2
  head : ∀ t rel parent, l.current = some (t, .commit rel parent) → parent = v.wiki.readHead l.stores.git

/-- The page's row and text are those of its last recorded write, or what
they were. -/
def PageHistory (v : Service) (start db : Db) (recorded : List (Nat × Commit)) (p : Text) : Prop :=
  match lastOn v p recorded with
  | some (t, _) => ∃ id row, db.findPage p = some (id, row) ∧ RowOf v t row ∧
      ∀ f, (id, f) ∈ db.pagesFts.rows ↔ f = ftsOf v t
  | none => db.findPage p = start.findPage p ∧
      ∀ id row, db.findPage p = some (id, row) → ∀ f, (id, f) ∈ db.pagesFts.rows ↔
        (id, f) ∈ start.pagesFts.rows

/-- The database records the recorded writes. -/
structure DbHistory (v : Service) (start l : Ledger) (recorded : List (Nat × Commit)) : Prop where
  succeeded : recorded.map Prod.fst = l.succeeded
  edits : ∃ new, l.stores.db.pageEdits.rows = start.stores.db.pageEdits.rows ++ new ∧
    List.Forall₂ (EditOf v l.stores.db) recorded new
  pages : ∀ p, PageHistory v start.stores.db l.stores.db recorded p

theorem Pending.sublist {v : Service} {current : Option (Nat × Stage)}
    {commits recorded : List (Nat × Commit)} (h : Pending v current commits recorded) :
    recorded.Sublist commits := by
  unfold Pending at h
  split at h
  next =>
    obtain ⟨init, c, rfl, -, hs⟩ := h
    exact hs.trans (List.sublist_append_left _ _)
  next => exact h

structure History (v : Service) (start l : Ledger) (commits recorded : List (Nat × Commit)) : Prop where
  git : GitHistory v start l commits
  db : DbHistory v start l recorded
  pending : Pending v l.current commits recorded

/-- A ledger before its first write. -/
def Ledger.Opened (l : Ledger) : Prop := l.log = [] ∧ l.current = none

theorem Ledger.Opened.history {v : Service} {l : Ledger} (h : l.Opened) : History v l l [] [] := by
  obtain ⟨s, log, current⟩ := l
  obtain ⟨rfl, rfl⟩ := h
  refine ⟨⟨rfl, rfl, by simp, by simp⟩, ⟨rfl, ⟨[], by simp, .nil⟩, fun p => ?_⟩, List.Sublist.refl _⟩
  exact ⟨rfl, fun _ _ _ _ => Iff.rfl⟩

/-! ## How far a step takes the current write -/

section

variable {s s' : Stores} {stage : Stage} {o : Outcome}

theorem Wiki.Effect.rank_stop {w : Wiki} {req : WriteRequest} (h : w.Effect req stage s (.stop o) s') :
    (o.rank = 0 ∧ stage.rank < 3) ∨ (o.rank = stage.rank ∧ stage.rank < 8) ∨
      (o.rank = 8 ∧ stage.rank = 7) := by
  cases h with
  | invalid hlt _ _ => exact .inl ⟨rfl, by omega⟩
  | stale _ => exact .inl ⟨rfl, by decide⟩
  | failed _ _ => exact .inr (.inl ⟨rfl, stage.rank_lt⟩)
  | project _ => exact .inr (.inr ⟨rfl, rfl⟩)

/-- A write that stops stays where it was, unless it is done. -/
theorem reached_stop {w : Wiki} {req : WriteRequest} (h : w.Effect req stage s (.stop o) s')
    (log : List (Nat × Outcome)) (t : Nat) {k : Nat} (hk : 3 ≤ k) :
    Ledger.reached k ⟨s', log ++ [(t, o)], none⟩ =
      Ledger.reached k ⟨s, log, some (t, stage)⟩ ++ if o.rank = 8 ∧ k = 8 then [t] else [] := by
  simp only [reached_idle, reached_running, ended_concat, List.append_assoc]
  rcases h.rank_stop with ⟨ho, hs⟩ | ⟨ho, hs⟩ | ⟨ho, hs⟩
  · rw [if_neg (by omega), if_neg (by omega), if_neg (by omega)]; simp only [List.append_nil]
  · rw [ho, if_neg (c := stage.rank = 8 ∧ k = 8) (by omega), List.append_nil]
  · rcases Nat.lt_trichotomy k 8 with hlt | heq | hlt
    · rw [if_pos (by omega), if_pos (by omega), if_neg (by omega), List.append_nil]
    · rw [if_pos (by omega), if_neg (by omega), if_pos ⟨ho, heq⟩, List.nil_append]
    · rw [if_neg (by omega), if_neg (by omega), if_neg (by omega)]; simp only [List.append_nil]

end

/-! ## What each step adds to the history -/

section

variable {v : Service} {start l l' : Ledger} {commits recorded : List (Nat × Commit)}

theorem GitHistory.same (h : GitHistory v start l commits) (hg : l'.stores.git = l.stores.git)
    (hl : l'.landed = l.landed) (hh : ∀ t rel parent, l'.current = some (t, .commit rel parent) →
      parent = v.wiki.readHead l'.stores.git) :
    GitHistory v start l' commits :=
  ⟨hg ▸ h.git, hl ▸ h.landed, h.own, hh⟩

/-- A commit lands: it is the current write's, on top of HEAD. -/
theorem GitHistory.commit {s : Stores} {log : List (Nat × Outcome)} {t : Nat} {rel : PathBuf}
    {parent : Option (Text × GitTree)} {c : Commit}
    (h : GitHistory v start ⟨s, log, some (t, .commit rel parent)⟩ commits)
    (hrel : rel = v.wiki.pageFile (v.req t).path)
    (hc : v.wiki.Committed s.git parent rel (v.req t).content (v.req t).actorType (v.req t).actorHandle
      (v.req t).message c) :
    GitHistory v start ⟨{ s with git := c :: s.git }, log, some (t, .project (v.wiki.ext.commitId c))⟩
      (commits ++ [(t, c)]) := by
  refine ⟨?_, ?_, fun x hx => ?_, fun _ _ _ he => ?_⟩
  · have hg : s.git = (commits.map Prod.snd).reverse ++ start.stores.git := h.git
    simp [hg]
  · have hl := h.landed
    simp only [Ledger.landed, reached_running, Stage.rank] at hl ⊢
    simpa using hl
  · rcases List.mem_append.1 hx with hx | hx
    · exact h.own x hx
    · cases List.mem_singleton.1 hx
      exact ⟨hrel ▸ v.wiki.ext.upsert_self hc.tree, hc.author, hc.message⟩
  · cases he

theorem EditOf.mono {db db' : Db} {x : Nat × Commit} {e : Int × EditRow} (h : EditOf v db x e)
    (hp : ∀ i r, (i, r) ∈ db.pages.rows → ∃ r', (i, r') ∈ db'.pages.rows ∧ r'.path = r.path) :
    EditOf v db' x e := by
  obtain ⟨row, hm, hr⟩ := h.page
  obtain ⟨row', hm', hr'⟩ := hp _ _ hm
  exact ⟨h.actor, h.commit, h.summary, row', hm', hr'.trans hr⟩

theorem DbHistory.same (h : DbHistory v start l recorded) (hs : l'.succeeded = l.succeeded)
    (hp : l'.stores.db.pages = l.stores.db.pages) (he : l'.stores.db.pageEdits = l.stores.db.pageEdits)
    (hf : l'.stores.db.pagesFts = l.stores.db.pagesFts) : DbHistory v start l' recorded := by
  obtain ⟨new, hnew, hall⟩ := h.edits
  refine ⟨hs ▸ h.succeeded,
    ⟨new, he ▸ hnew, hall.imp fun x e hx => hx.mono fun i r hm => ⟨r, hp ▸ hm, rfl⟩⟩,
    fun p => ?_⟩
  have hfind : ∀ q, l'.stores.db.findPage q = l.stores.db.findPage q := fun q => by
    simp only [Db.findPage, hp]
  simpa only [PageHistory, hfind, hf] using h.pages p

theorem lastOn_concat_self {t : Nat} (c : Commit) (xs : List (Nat × Commit)) :
    lastOn v (v.req t).path (xs ++ [(t, c)]) = some (t, c) := by
  simp [lastOn]

theorem lastOn_concat_other {t : Nat} {p : Text} (hp : p ≠ (v.req t).path) (c : Commit)
    (xs : List (Nat × Commit)) : lastOn v p (xs ++ [(t, c)]) = lastOn v p xs := by
  simp [lastOn, Ne.symm hp]

/-- A page that a transaction is not about keeps its row and its text. -/
theorem PageHistory.other {db₀ db db' : Db} {t : Nat} {c : Commit} {title hash oid : Text}
    {id : Int} {p : Text} (h : PageHistory v db₀ db recorded p) (hne : p ≠ (v.req t).path)
    (hpr : db.Projected (v.req t) title hash oid id db') :
    PageHistory v db₀ db' (recorded ++ [(t, c)]) p := by
  have hfts : ∀ i row, db.findPage p = some (i, row) → ∀ f,
      (i, f) ∈ db'.pagesFts.rows ↔ (i, f) ∈ db.pagesFts.rows := by
    intro i row hi f
    obtain ⟨hm, hr⟩ := Db.findPage_eq_some.1 hi
    have hid : i ≠ id := fun he => hne (hr.symm.trans ((hpr.page i row hm).1 he))
    simp [hpr.fts, hid]
  simp only [PageHistory, lastOn_concat_other hne, hpr.findPage_other hne] at h ⊢
  split at h
  next t' c' _ =>
    obtain ⟨i, row, hi, hrow, hf⟩ := h
    exact ⟨i, row, hi, hrow, fun f => (hfts i row hi f).trans (hf f)⟩
  next => exact ⟨h.1, fun i row hi f => (hfts i row hi f).trans (h.2 i row hi f)⟩

/-- A transaction commits: the database records the current write. -/
theorem DbHistory.project {s : Stores} {log : List (Nat × Outcome)} {t : Nat} {c : Commit}
    {id : Int} {db : Db} {info : PageMeta}
    (h : DbHistory v start ⟨s, log, some (t, .project (v.wiki.ext.commitId c))⟩ recorded)
    (hpr : s.db.Projected (v.req t) (deriveTitle (v.req t).content (v.req t).path)
      (v.wiki.contentHash (v.req t).content) (v.wiki.ext.commitId c) id db) :
    DbHistory v start ⟨{ s with db }, log ++ [(t, .done info)], none⟩ (recorded ++ [(t, c)]) := by
  obtain ⟨at₀, now, hpages⟩ := hpr.pages
  obtain ⟨at₁, hedits⟩ := hpr.edits
  obtain ⟨new, hnew, hall⟩ := h.edits
  have hkeep : ∀ i r, (i, r) ∈ s.db.pages.rows → ∃ r', (i, r') ∈ db.pages.rows ∧ r'.path = r.path := by
    intro i r hm
    by_cases hi : i = id
    · exact ⟨_, (hpages _ _).2 (.inl ⟨hi, rfl⟩), ((hpr.page i r hm).1 hi).symm⟩
    · exact ⟨r, (hpages _ _).2 (.inr ⟨hi, hm⟩), rfl⟩
  refine ⟨?_, ⟨new ++ [(s.db.pageEdits.nextId, (v.req t).edit id (v.wiki.ext.commitId c) at₁)], ?_, ?_⟩,
    fun p => ?_⟩
  · have hs := h.succeeded
    simp only [Ledger.succeeded, reached_running, reached_idle, ended_concat, Stage.rank,
      Outcome.rank] at hs ⊢
    simpa using hs
  · have hold : s.db.pageEdits.rows = start.stores.db.pageEdits.rows ++ new := hnew
    simp only [hedits, hold, List.append_assoc]
  · refine List.rel_append (hall.imp fun x e hx => hx.mono hkeep) (.cons ?_ .nil)
    exact ⟨rfl, rfl, rfl, _, (hpages _ _).2 (.inl ⟨rfl, rfl⟩), rfl⟩
  · by_cases hp : p = (v.req t).path
    · subst hp
      obtain ⟨at₀, now, hf⟩ := hpr.findPage_self
      simp only [PageHistory, lastOn_concat_self]
      exact ⟨id, _, hf, ⟨rfl, rfl, rfl, rfl, rfl⟩, fun f => by simp [hpr.fts, ftsOf]⟩
    · exact (h.pages p).other hp hpr

/-- **What a step adds to the history.** -/
theorem Ledger.Step.history (hstep : Step v l l') (ha : l.Aimed v)
    (h : History v start l commits recorded) :
    ∃ commits' recorded', History v start l' commits' recorded' := by
  cases hstep with
  | start hv hnew =>
    refine ⟨commits, recorded, h.git.same rfl ?_ (by simp), h.db.same ?_ rfl rfl rfl, h.pending⟩
    · simp [Ledger.landed, Stage.rank]
    · simp [Ledger.succeeded, Stage.rank]
  | @go s s' log t stage stage' he =>
    cases he with
    | commit hc =>
      refine ⟨commits ++ [(t, _)], recorded, h.git.commit (ha _ _ rfl).2.2 hc,
        h.db.same ?_ rfl rfl rfl, commits, _, rfl, rfl, h.pending⟩
      simp [Stage.rank]
    | head =>
      refine ⟨commits, recorded, h.git.same rfl ?_ ?_, h.db.same ?_ rfl rfl rfl, h.pending⟩
      · simp [Stage.rank]
      · intro t rel parent he
        cases he
        rfl
      · simp [Stage.rank]
    | _ =>
      refine ⟨commits, recorded, h.git.same rfl ?_ (by simp), h.db.same ?_ rfl rfl rfl, h.pending⟩
      · simp [Stage.rank]
      · simp [Stage.rank]
  | @stop s s' log t stage o he =>
    have h₇ := reached_stop he log t (k := 7) (by omega)
    have h₈ := reached_stop he log t (k := 8) (by omega)
    cases he with
    | project hpr =>
      obtain ⟨init, c, hcs, rfl, hsub⟩ := h.pending
      refine ⟨commits, recorded ++ [(t, c)], h.git.same rfl ?_ (by simp), h.db.project hpr, ?_⟩
      · simpa using h₇
      · rw [hcs]
        exact hsub.append (List.Sublist.refl _)
    | failed _ _ =>
      refine ⟨commits, recorded, h.git.same rfl ?_ (by simp), h.db.same ?_ rfl rfl rfl, h.pending.sublist⟩
      · simpa using h₇
      · simpa [Outcome.rank, stage.rank_lt.ne] using h₈
    | _ =>
      refine ⟨commits, recorded, h.git.same rfl ?_ (by simp), h.db.same ?_ rfl rfl rfl, h.pending.sublist⟩
      · simpa using h₇
      · simpa [Outcome.rank] using h₈
  | admin layers actors =>
    exact ⟨commits, recorded, h.git.same rfl rfl h.git.head, h.db.same rfl rfl rfl rfl, h.pending⟩

end

end Wikikiki
