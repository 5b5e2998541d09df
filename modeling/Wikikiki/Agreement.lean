/-
The four stores when nobody writes: whatever order the writes came in and
whoever gave up, as long as no store failed, the file, HEAD, the index and the
row of a page have one content, and it is that of the last write that
succeeded.

While a write runs this is false at every stage between its file and its
transaction; `Contents` and `History` are what holds then.
-/
import Wikikiki.Recorded

namespace Wikikiki

/-! ## Agreement -/

/-- The file of a page, its blob in HEAD, its text in the index and its row
have the content. -/
structure AgreedOn (w : Wiki) (s : Stores) (id : Int) (row : PageRow) (content : Text) : Prop where
  valid : validatePath row.path = .ok ()
  placed : s.disk.Placed (filePath w.contentRoot row.path)
  file : s.disk.read (filePath w.contentRoot row.path) = some (Text.utf8 content)
  blob : headBlob s.git (w.pageFile row.path) = some (Text.utf8 content)
  text : ∀ f, (id, f) ∈ s.db.pagesFts.rows ↔ f = { title := row.title, content, path := row.path }
  hash : row.contentHash = some (w.contentHash content)
  title : row.title = deriveTitle content row.path

/-- The stores agree on every page. An empty database agrees with anything. -/
def Stores.Agree (w : Wiki) (s : Stores) : Prop :=
  ∀ id row, (id, row) ∈ s.db.pages.rows → ∃ content, AgreedOn w s id row content

/-- A page is settled since `start`: the stores agree on the content of the
last write that succeeded, and its edit records are those writes, each with a
commit of its own. -/
structure Settled (v : Service) (start : Stores) (s : State) (id : Int) (row : PageRow) : Prop where
  agreed : ∃ content, AgreedOn v.wiki s.stores id row content ∧
    match lastTo v row.path s.succeeded with
    | some t => content = (v.req t).content ∧ row.layer = (v.req t).layer ∧
      row.lastEditBy = some (v.req t).actorId
    | none => (id, row) ∈ start.db.pages.rows
  edits : ∃ xs new, (s.stores.db.pageEdits.rows.filter fun p => p.2.pageId = id) =
      (start.db.pageEdits.rows.filter fun p => p.2.pageId = id) ++ new ∧
    List.Forall₂ (EditOf v s.stores.db) xs new ∧
    xs.map Prod.fst = (s.succeeded.filter fun t => (v.req t).path = row.path) ∧
    (xs.map Prod.snd).Sublist s.stores.git.reverse ∧ ∀ x ∈ xs, CommitOf v x.1 x.2

/-! ## Quiet ledgers -/

section

variable {v : Service} {start l : Ledger} {commits recorded : List (Nat × Commit)} {id : Int} {row : PageRow}

/-- The content of a page whose file has its place: what the last of the
writes left, in the file and in HEAD. -/
theorem Contents.of_placed (h : Contents v start l) (hh : l.Healthy) (hc : l.current = none)
    (hv : validatePath row.path = .ok ())
    (hp : l.stores.disk.Placed (filePath v.wiki.contentRoot row.path)) :
    l.stores.disk.read (filePath v.wiki.contentRoot row.path) = contentAfter v row.path l.succeeded
        (start.stores.disk.read (filePath v.wiki.contentRoot row.path)) ∧
      headBlob l.stores.git (v.wiki.pageFile row.path) = contentAfter v row.path l.succeeded
        (headBlob start.stores.git (v.wiki.pageFile row.path)) := by
  have hfiled : l.filed = l.succeeded := hh.reached hc (by omega) (by omega)
  have hlanded : l.landed = l.succeeded := hh.reached hc (by omega) (by omega)
  have hfile := h.file hh row.path
  have hhead := h.head_of_placed hv hp
  rw [hfiled] at hfile
  rw [hlanded] at hhead
  exact ⟨hfile, hhead⟩

/-- A page that a write succeeded on. -/
theorem agreedOn_of_some (h : History v start l commits recorded) (hc : Contents v start l) (hh : l.Healthy)
    (hq : l.current = none) (hrow : (id, row) ∈ l.stores.db.pages.rows) {t : Nat}
    (ht : lastTo v row.path l.succeeded = some t) :
    AgreedOn v.wiki l.stores id row (v.req t).content ∧ RowOf v t row := by
  have hx := h.db.lastOn_eq row.path
  rw [ht, Option.map_eq_some_iff] at hx
  obtain ⟨⟨u, c⟩, hx, rfl⟩ := hx
  obtain ⟨hof, hfts⟩ := h.db.rowOf hrow hx
  have hd := h.described hrow hx
  obtain ⟨hmem, hpath⟩ := lastTo_mem ht
  have hfiled : l.filed = l.succeeded := hh.reached hq (by omega) (by omega)
  obtain ⟨hv, -, hp⟩ := hc.placed u (hfiled ▸ hmem)
  rw [hpath] at hv hp
  obtain ⟨hfile, hhead⟩ := hc.of_placed hh hq hv hp
  simp only [contentAfter, ht] at hfile hhead
  exact ⟨⟨hv, hp, hfile, hhead, hd.text, hd.hash, hd.title⟩, hof⟩

/-- A page that no write succeeded on. -/
theorem agreedOn_of_none (h : History v start l commits recorded) (hc : Contents v start l) (hh : l.Healthy)
    (hq : l.current = none) (hrow : (id, row) ∈ l.stores.db.pages.rows)
    (ht : lastTo v row.path l.succeeded = none) {content : Text}
    (ha : AgreedOn v.wiki start.stores id row content) : AgreedOn v.wiki l.stores id row content := by
  have hx := h.db.lastOn_eq row.path
  rw [ht, Option.map_eq_none_iff] at hx
  have hp := ha.placed.grows hc.grows
  obtain ⟨hfile, hhead⟩ := hc.of_placed hh hq ha.valid hp
  simp only [contentAfter, ht] at hfile hhead
  have hfts := (h.db.rowOf_none hrow hx).2
  exact ⟨ha.valid, hp, hfile.trans ha.file, hhead.trans ha.blob,
    fun f => (hfts f).trans (ha.text f), ha.hash, ha.title⟩

/-- The edit records of a page, with the writes and the commits that they are
of. -/
theorem History.edits_settled (h : History v start l commits recorded)
    (hrow : (id, row) ∈ l.stores.db.pages.rows) :
    ∃ xs new, (l.stores.db.pageEdits.rows.filter fun p => p.2.pageId = id) =
        (start.stores.db.pageEdits.rows.filter fun p => p.2.pageId = id) ++ new ∧
      List.Forall₂ (EditOf v l.stores.db) xs new ∧
      xs.map Prod.fst = (l.succeeded.filter fun t => (v.req t).path = row.path) ∧
      (xs.map Prod.snd).Sublist l.stores.git.reverse ∧ ∀ x ∈ xs, CommitOf v x.1 x.2 := by
  obtain ⟨new, heq, hall⟩ := h.db.edits_of hrow
  refine ⟨_, new, heq, hall, ?_, ?_, fun x hx => ?_⟩
  · rw [← h.db.succeeded, List.filter_map]
    rfl
  · have hgit : l.stores.git.reverse = start.stores.git.reverse ++ commits.map Prod.snd := by
      rw [h.git.git, List.reverse_append, List.reverse_reverse]
    rw [hgit]
    exact ((List.filter_sublist.trans h.pending.sublist).map _).trans (List.sublist_append_right _ _)
  · exact h.git.own x (h.pending.sublist.subset (List.mem_filter.1 hx).1)

/-- A page that a write succeeded on has a row. -/
theorem History.exists_row (h : History v start l commits recorded) {t : Nat} (ht : t ∈ l.succeeded) :
    ∃ id row, (id, row) ∈ l.stores.db.pages.rows ∧ row.path = (v.req t).path := by
  have hp := h.db.pages (v.req t).path
  have hne : lastOn v (v.req t).path recorded ≠ none := fun hn => by
    have hx := h.db.lastOn_eq (v.req t).path
    rw [hn, Option.map_none, eq_comm, lastTo_eq_none] at hx
    exact hx t ht rfl
  obtain ⟨x, hx⟩ := Option.ne_none_iff_exists'.1 hne
  simp only [PageHistory, hx] at hp
  obtain ⟨id, row, hf, -⟩ := hp
  exact ⟨id, row, Db.findPage_eq_some.1 hf⟩

end

/-! ## Runs -/

/-- **The stores agree.** After any run of writes from stores that agree, when
none of the writes runs and none has failed in a store, every page is
settled, and every page that a write succeeded on has a row. -/
theorem stores_agree {v : Service} {stores : Stores} {as : List Action} {s : State}
    (ha : stores.Agree v.wiki) (hr : v.run (.opened stores) as = some s) (hq : s.Quiet)
    (hh : s.Healthy) :
    (∀ id row, (id, row) ∈ s.stores.db.pages.rows → Settled v stores s id row) ∧
      ∀ t ∈ s.succeeded, ∃ id row, (id, row) ∈ s.stores.db.pages.rows ∧ row.path = (v.req t).path := by
  have hsteps := (Serving.opened v stores).steps hr
  obtain ⟨commits, recorded, h⟩ := hsteps.history ⟨rfl, rfl⟩
  have hc := hsteps.contents ⟨rfl, rfl⟩
  have hsucc := s.ledger_succeeded
  refine ⟨fun id row hrow => ⟨?_, ?_⟩, fun t ht => h.exists_row (hsucc ▸ ht)⟩
  · cases ht : lastTo v row.path s.succeeded with
    | some t =>
      obtain ⟨hon, hof⟩ := agreedOn_of_some h hc hh.ledger hq.ledger hrow (hsucc ▸ ht)
      exact ⟨_, hon, rfl, hof.layer, hof.editor⟩
    | none =>
      have hx := h.db.lastOn_eq row.path
      rw [hsucc, ht, Option.map_eq_none_iff] at hx
      have hold := (h.db.rowOf_none hrow hx).1
      obtain ⟨content, hon⟩ := ha id row hold
      exact ⟨content, agreedOn_of_none h hc hh.ledger hq.ledger hrow (hsucc ▸ ht) hon, hold⟩
  · rw [← hsucc]
    exact h.edits_settled hrow

theorem stores_agree_small :
    ∃ s, Service.small.run (.opened (.small none)) Action.overlap = some s ∧ s.succeeded = [0, 1] ∧
      (∀ id row, (id, row) ∈ s.stores.db.pages.rows → Settled Service.small (.small none) s id row) ∧
        ∀ t ∈ s.succeeded, ∃ id row, (id, row) ∈ s.stores.db.pages.rows ∧
          row.path = (Service.small.req t).path := by
  obtain ⟨s, hs⟩ : ∃ s, Service.small.run (.opened (.small none)) Action.overlap = some s := ⟨_, rfl⟩
  have hq := ((Serving.opened Service.small (.small none)).run hs).ordered.quiet_healthy
    (by cases hs; decide)
  refine ⟨s, hs, by cases hs; rfl, stores_agree (fun _ _ h => nomatch h) hs hq.1 hq.2⟩

end Wikikiki
