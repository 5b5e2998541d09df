/-
The database as a record of the past: whatever fails and whoever gives up,
each row that the service wrote describes one commit of HEAD's ancestry, with
its text and its newest edit record, and the edit records follow the history
of commits.

Both are read off `History`. An edit record belongs to a page exactly when
its write does (`DbHistory.edits_of`), so the newest record of a page is that
of the last recorded write to it.
-/
import Wikikiki.Refinement

namespace Wikikiki

/-! ## What a row describes -/

/-- `e` is the newest edit record of the page: it has the greatest id. -/
def Db.NewestEdit (db : Db) (pageId : Int) (e : EditRow) : Prop :=
  ∃ i, (i, e) ∈ db.pageEdits.rows ∧ e.pageId = pageId ∧
    ∀ p ∈ db.pageEdits.rows, p.2.pageId = pageId → p.1 ≤ i

/-- The row of a page, its text and its newest edit record agree on a content
and a commit of it. -/
structure DescribedBy (w : Wiki) (s : Stores) (id : Int) (row : PageRow) (content : Text)
    (c : Commit) : Prop where
  mem : (id, row) ∈ s.db.pages.rows
  text : ∀ f, (id, f) ∈ s.db.pagesFts.rows ↔ f = { title := row.title, content, path := row.path }
  hash : row.contentHash = some (w.contentHash content)
  title : row.title = deriveTitle content row.path
  edit : ∃ e, s.db.NewestEdit id e ∧ row.lastEditBy = some e.actorId ∧ e.gitCommit = some (w.ext.commitId c)
  commit : c ∈ s.git
  blob : Tree.lookup c.tree (treePath (w.pageFile row.path)) = some (Text.utf8 content)

def Described (w : Wiki) (s : Stores) (id : Int) (row : PageRow) : Prop :=
  ∃ content c, DescribedBy w s id row content c

/-- The commits that the edit records name, in the order of the records, are
among HEAD's ancestry in the order in which they were made. -/
def EditsFollow (w : Wiki) (s : Stores) : Prop :=
  (s.db.pageEdits.rows.filterMap fun p => p.2.gitCommit).Sublist (w.ancestry s.git).reverse

/-! ## The records of a page -/

theorem getLast_of_forall₂ {α β : Type} {R : α → β → Prop} {xs : List α} {ys : List β} {x : α}
    (h : List.Forall₂ R xs ys) (hx : xs.getLast? = some x) : ∃ y, ys.getLast? = some y ∧ R x y := by
  obtain ⟨init, rfl⟩ := List.getLast?_eq_some_iff.1 hx
  have hr := List.rel_reverse h
  rw [List.reverse_append, List.reverse_singleton, List.singleton_append] at hr
  rw [← List.head?_reverse]
  generalize ys.reverse = zs at hr ⊢
  cases hr with
  | @cons _ y _ _ hxy _ => exact ⟨y, rfl, hxy⟩

section

variable {v : Service} {start l : Ledger} {commits recorded : List (Nat × Commit)} {id : Int} {row : PageRow}

/-- An edit record is about the page that its write was about. -/
theorem EditOf.pageId_eq {db : Db} {x : Nat × Commit} {e : Int × EditRow} (h : EditOf v db x e)
    (hrow : (id, row) ∈ db.pages.rows) : e.2.pageId = id ↔ (v.req x.1).path = row.path := by
  obtain ⟨r, hm, hr⟩ := h.page
  constructor
  · intro heq
    subst heq
    rw [← hr, Table.eq_of_mem hm hrow]
  · intro hp
    exact congrArg Prod.fst (List.inj_on_of_nodup_map db.uniquePath hm hrow (hr.trans hp))

/-- The edit records of a page are those of the writes to it, behind those
that were there. -/
theorem DbHistory.edits_of (h : DbHistory v start l recorded) (hrow : (id, row) ∈ l.stores.db.pages.rows) :
    ∃ new, (l.stores.db.pageEdits.rows.filter fun p => p.2.pageId = id) =
        (start.stores.db.pageEdits.rows.filter fun p => p.2.pageId = id) ++ new ∧
      List.Forall₂ (EditOf v l.stores.db) (recorded.filter fun x => (v.req x.1).path = row.path) new := by
  obtain ⟨new, hnew, hall⟩ := h.edits
  refine ⟨new.filter fun p => p.2.pageId = id, by rw [hnew, List.filter_append], ?_⟩
  refine List.rel_filter (fun x e hxe => ?_) hall
  simpa [eq_comm] using (hxe.pageId_eq hrow).symm

/-- The newest edit record of a page that a recorded write was to. -/
theorem DbHistory.newestEdit (h : DbHistory v start l recorded) (hrow : (id, row) ∈ l.stores.db.pages.rows)
    {x : Nat × Commit} (hx : lastOn v row.path recorded = some x) :
    ∃ i e, l.stores.db.NewestEdit id e ∧ EditOf v l.stores.db x (i, e) := by
  obtain ⟨new, heq, hall⟩ := h.edits_of hrow
  obtain ⟨⟨i, e⟩, hlast, he⟩ := getLast_of_forall₂ hall hx
  have hl : (l.stores.db.pageEdits.rows.filter fun p => p.2.pageId = id).getLast? = some (i, e) := by
    rw [heq, List.getLast?_append, hlast]
    rfl
  obtain ⟨hm, hid, hmax⟩ := Table.key_le_of_getLast hl
  exact ⟨i, e, ⟨i, hm, by simpa using hid, fun p hp hpid => hmax p hp (by simpa using hpid)⟩, he⟩

/-- A page that no recorded write was to keeps its newest edit record. -/
theorem DbHistory.newestEdit_of_none (h : DbHistory v start l recorded)
    (hrow : (id, row) ∈ l.stores.db.pages.rows) (hx : lastOn v row.path recorded = none)
    {e : EditRow} (he : start.stores.db.NewestEdit id e) :
    l.stores.db.NewestEdit id e := by
  obtain ⟨new, heq, hall⟩ := h.edits_of hrow
  rw [List.getLast?_eq_none_iff.1 hx] at hall
  cases hall
  have hmem : ∀ p, p ∈ l.stores.db.pageEdits.rows ∧ p.2.pageId = id ↔
      p ∈ start.stores.db.pageEdits.rows ∧ p.2.pageId = id := by
    intro p
    simpa using congrArg (p ∈ ·) heq
  obtain ⟨i, hi, hid, hmax⟩ := he
  have hi' := (hmem (i, e)).2 ⟨hi, hid⟩
  exact ⟨i, hi'.1, hid, fun p hp hpid => hmax p ((hmem p).1 ⟨hp, hpid⟩).1 hpid⟩

/-- The last write that succeeded on a page is the last recorded one. -/
theorem DbHistory.lastOn_eq (h : DbHistory v start l recorded) (p : Text) :
    (lastOn v p recorded).map Prod.fst = lastTo v p l.succeeded := by
  rw [lastOn_fst, h.succeeded]

/-! ## Every row is described -/

theorem GitHistory.mem_git (h : GitHistory v start l commits) {c : Commit} :
    c ∈ l.stores.git ↔ (∃ t, (t, c) ∈ commits) ∨ c ∈ start.stores.git := by
  simp [h.git]

/-- The row and the text of a page that a recorded write was to. -/
theorem DbHistory.rowOf (h : DbHistory v start l recorded) (hrow : (id, row) ∈ l.stores.db.pages.rows)
    {t : Nat} {c : Commit} (hx : lastOn v row.path recorded = some (t, c)) :
    RowOf v t row ∧ ∀ f, (id, f) ∈ l.stores.db.pagesFts.rows ↔ f = ftsOf v t := by
  have hp := h.pages row.path
  simp only [PageHistory, hx] at hp
  obtain ⟨id', row', hf, hof, hfts⟩ := hp
  rw [Db.findPage_eq_some.2 ⟨hrow, rfl⟩] at hf
  cases hf
  exact ⟨hof, hfts⟩

/-- The row and the text of a page that no recorded write was to. -/
theorem DbHistory.rowOf_none (h : DbHistory v start l recorded) (hrow : (id, row) ∈ l.stores.db.pages.rows)
    (hx : lastOn v row.path recorded = none) : (id, row) ∈ start.stores.db.pages.rows ∧
      ∀ f, (id, f) ∈ l.stores.db.pagesFts.rows ↔ (id, f) ∈ start.stores.db.pagesFts.rows := by
  have hp := h.pages row.path
  simp only [PageHistory, hx] at hp
  have hf := Db.findPage_eq_some.2 ⟨hrow, rfl⟩
  exact ⟨(Db.findPage_eq_some.1 (hp.1 ▸ hf)).1, hp.2 id row hf⟩

/-- The row of a page that a recorded write was to describes that write's
commit. -/
theorem History.described (h : History v start l commits recorded)
    (hrow : (id, row) ∈ l.stores.db.pages.rows) {t : Nat} {c : Commit}
    (hx : lastOn v row.path recorded = some (t, c)) :
    DescribedBy v.wiki l.stores id row (v.req t).content c := by
  obtain ⟨hof, hfts⟩ := h.db.rowOf hrow hx
  obtain ⟨i, e, hnew, he⟩ := h.db.newestEdit hrow hx
  have hc : (t, c) ∈ commits := h.pending.sublist.subset (List.mem_filter.1 (List.mem_of_getLast? hx)).1
  exact
    { mem := hrow
      text := fun f => by rw [hfts, hof.title, hof.path]; rfl
      hash := hof.hash
      title := by rw [hof.title, hof.path]
      edit := ⟨e, hnew, by rw [hof.editor, he.actor], he.commit⟩
      commit := h.git.mem_git.2 (.inl ⟨t, hc⟩)
      blob := by rw [hof.path]; exact (h.git.own _ hc).blob }

/-- A row that no recorded write was to describes what it described. -/
theorem History.described_of_none (h : History v start l commits recorded)
    (hrow : (id, row) ∈ l.stores.db.pages.rows) (hx : lastOn v row.path recorded = none) {content : Text}
    {c : Commit} (hd : DescribedBy v.wiki start.stores id row content c) :
    DescribedBy v.wiki l.stores id row content c := by
  obtain ⟨e, hnew, hlast, hcommit⟩ := hd.edit
  exact
    { mem := hrow
      text := fun f => ((h.db.rowOf_none hrow hx).2 f).trans (hd.text f)
      hash := hd.hash
      title := hd.title
      edit := ⟨e, h.db.newestEdit_of_none hrow hx hnew, hlast, hcommit⟩
      commit := h.git.mem_git.2 (.inr hd.commit)
      blob := hd.blob }

/-- The edit records follow the history as long as they did at the start. -/
theorem History.editsFollow (h : History v start l commits recorded)
    (hs : EditsFollow v.wiki start.stores) :
    EditsFollow v.wiki l.stores := by
  obtain ⟨new, hnew, hall⟩ := h.db.edits
  have hids : (new.filterMap fun p => p.2.gitCommit) = recorded.map fun x => v.wiki.ext.commitId x.2 := by
    clear h hnew
    induction hall with
    | nil => rfl
    | cons he _ ih => simp [he.commit, ih]
  have hgit : (v.wiki.ancestry l.stores.git).reverse =
      (v.wiki.ancestry start.stores.git).reverse ++ commits.map fun x => v.wiki.ext.commitId x.2 := by
    simp [Wiki.ancestry, h.git.git, Function.comp_def]
  rw [EditsFollow, hnew, List.filterMap_append, hids, hgit]
  exact hs.append (h.pending.sublist.map _)

/-- A write keeps the history linear. -/
theorem Wiki.Effect.linear {w : Wiki} {req : WriteRequest} {stage : Stage} {s s' : Stores} {n : Next}
    (h : w.Effect req stage s n s') (hs : w.Linear s.git) : w.Linear s'.git := by
  cases h with
  | commit hc => exact hc.linear hs
  | _ => exact hs

theorem Ledger.Steps.linear (h : Steps v start l) (hs : v.wiki.Linear start.stores.git) :
    v.wiki.Linear l.stores.git := by
  induction h with
  | refl => exact hs
  | tail _ hstep ih =>
    cases hstep with
    | go he => exact he.linear ih
    | stop he => exact he.linear ih
    | start _ _ => exact ih
    | admin _ _ => exact ih

end

/-- The service wrote the page. -/
def State.Wrote (v : Service) (s : State) (pagePath : Text) : Prop :=
  ∃ t ∈ s.succeeded, (v.req t).path = pagePath

/-- **The database describes the past.** In every state of every run, each
row that the service wrote, or that described a commit when the run began,
has its text and its newest edit record and describes one commit in HEAD's
ancestry; the edit records follow the history if they did; and the history is
linear if it was. -/
theorem rows_described {v : Service} {stores : Stores} {as : List Action} {s : State}
    (hr : v.run (.opened stores) as = some s) :
    (∀ id row, (id, row) ∈ s.stores.db.pages.rows →
      s.Wrote v row.path ∨ Described v.wiki stores id row → Described v.wiki s.stores id row) ∧
    (EditsFollow v.wiki stores → EditsFollow v.wiki s.stores) ∧
    (v.wiki.Linear stores.git → v.wiki.Linear s.stores.git) := by
  have hsteps := (Serving.opened v stores).steps hr
  obtain ⟨commits, recorded, h⟩ := hsteps.history ⟨rfl, rfl⟩
  refine ⟨fun id row hrow hw => ?_, h.editsFollow, hsteps.linear⟩
  cases hx : lastOn v row.path recorded with
  | some x => exact ⟨_, _, h.described hrow hx⟩
  | none =>
    rcases hw with ⟨t, ht, hp⟩ | ⟨content, c, hd⟩
    · -- A write that succeeded is recorded, so there is a last one.
      rw [← s.ledger_succeeded, ← h.db.succeeded] at ht
      obtain ⟨x, hm, rfl⟩ := List.mem_map.1 ht
      have hnil := List.getLast?_eq_none_iff.1 hx
      exact absurd (List.mem_filter.2 ⟨hm, by simpa using hp⟩) (hnil ▸ List.not_mem_nil)
    · exact ⟨content, c, h.described_of_none hrow hx hd⟩

theorem rows_described_small :
    ∃ s, Service.small.run (.opened (.small none)) Action.overlap = some s ∧
      s.Wrote Service.small "notes".toList ∧
      (∀ id row, (id, row) ∈ s.stores.db.pages.rows →
        s.Wrote Service.small row.path ∨ Described Wiki.small (.small none) id row →
          Described Wiki.small s.stores id row) ∧
      (EditsFollow Wiki.small (.small none) → EditsFollow Wiki.small s.stores) ∧
      (Wiki.small.Linear (Stores.small none).git → Wiki.small.Linear s.stores.git) := by
  obtain ⟨s, hs⟩ : ∃ s, Service.small.run (.opened (.small none)) Action.overlap = some s := ⟨_, rfl⟩
  refine ⟨s, hs, ⟨0, ?_, rfl⟩, rows_described hs⟩
  cases hs
  decide

end Wikikiki
