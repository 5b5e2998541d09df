/-
How old the content is that a read returns.

A write puts its file on disk before it changes the row, and a read takes the
row before the file. So whatever the file holds by then is from the write of
the row, or from one that came after it in the order of the lock: `Fresh`
keeps this along every run, with failures at any stage, as long as a file is
written whole or not at all.
-/
import Wikikiki.Reads

namespace Wikikiki

/-- A write that dies in its file stage has its whole content in the file, if
anything. -/
def Action.Whole (v : Service) : Action → Prop
  | .fail t _ (.file data) => data = Text.utf8 (v.req t).content
  | _ => True

/-- The page's file is that of the start while nobody has written it, and
later that of some write behind which no write of the page comes that has
written its file. -/
def Fresh (v : Service) (start : Stores) (p : Text) (s : State) : Prop :=
  (s.stores.disk.read (filePath v.wiki.contentRoot p) = start.disk.read (filePath v.wiki.contentRoot p) ∧
    ∀ t ∈ s.ledger.filed, (v.req t).path ≠ p) ∨
  ∃ pre u post, s.served = pre ++ u :: post ∧ (v.req u).path = p ∧
    s.stores.disk.read (filePath v.wiki.contentRoot p) = some (Text.utf8 (v.req u).content) ∧
    ∀ t ∈ s.ledger.filed, (v.req t).path = p → t ∉ post

section

variable {v : Service} {start : Stores} {s s' : State} {a : Action} {p : Text}

/-- What is in a page's file after its write. -/
theorem Disk.read_written {w : Wiki} {q : Text} {rel : PathBuf} {d d₁ d₂ : Disk} {data : Bytes}
    (ha : Stage.Aims w q (.writeFile rel)) (hd : d.createDirAll (w.root ++ rel).dropLast = some d₁)
    (hw : d₁.write (w.root ++ rel) data = some d₂) (p : Text) :
    d₂.read (filePath w.contentRoot p) =
      if p = q then some data else d.read (filePath w.contentRoot p) := by
  obtain ⟨hr, rfl⟩ := ha
  rw [w.root_pageFile hr] at hd hw
  split
  next hp => rw [hp, Disk.read_write_self hw]
  next hp => rw [Disk.read_write_other hw fun he => hp (filePath_injective _ he), Disk.read_createDirAll hd]

/-- A page's file changes by a write of the page, to its content. -/
theorem step_read (hs : Serving v s) (haim : s.ledger.Aimed v) (hwhole : a.Whole v)
    (hstep : step v s a = some s') (p : Text) :
    s'.stores.disk.read (filePath v.wiki.contentRoot p) = s.stores.disk.read (filePath v.wiki.contentRoot p) ∨
    ∃ t rel, s.task t = .running (.writeFile rel) ∧ (v.req t).path = p ∧
      s'.stores.disk.read (filePath v.wiki.contentRoot p) = some (Text.utf8 (v.req t).content) := by
  cases step_cases hstep with
  | @advanced t i stage n stores ht he =>
    rcases Wiki.exec_read he with hsame | ⟨rel, d, rfl, -, hd, hw⟩
    · exact .inl (congrFun hsame _)
    · have hread := Disk.read_written (haim _ _ (hs.ordered.current ht)).2 hd hw p
      by_cases hp : p = (v.req t).path
      · exact .inr ⟨t, rel, ht, hp.symm, by rw [hread, if_pos hp]⟩
      · exact .inl (by rw [hread, if_neg hp])
  | @failed t e l stage disk ht hl =>
    rcases Wiki.leave_read hl with hsame | ⟨rel, data, d, rfl, rfl, hd, hw⟩
    · exact .inl (congrFun hsame _)
    · have hread := Disk.read_written (haim _ _ (hs.ordered.current ht)).2 hd hw p
      have hdata : data = Text.utf8 (v.req t).content := hwhole
      by_cases hp : p = (v.req t).path
      · exact .inr ⟨t, rel, ht, hp.symm, by rw [← hdata, hread, if_pos hp]⟩
      · exact .inl (by rw [hread, if_neg hp])
  | _ => exact .inl rfl

/-- A write that has newly written its file finds its content in there. -/
theorem Ledger.Step.mem_filed {l l' : Ledger} (hstep : Step v l l') (haim : l.Aimed v) {t : Nat}
    (ht : t ∈ l'.filed) : t ∈ l.filed ∨ ∃ rel, l.current = some (t, .writeFile rel) ∧
      l'.stores.disk.read (filePath v.wiki.contentRoot (v.req t).path) =
        some (Text.utf8 (v.req t).content) := by
  cases hstep with
  | start _ _ =>
    left
    simpa [Stage.rank] using ht
  | @go s s' log u stage stage' he =>
    rw [Ledger.filed, reached_go he, List.mem_append] at ht
    rcases ht with ht | ht
    · exact .inl ht
    split at ht
    next h5 =>
      cases List.mem_singleton.1 ht
      cases he with
      | @file _ rel d disk hd hw =>
        refine .inr ⟨rel, rfl, ?_⟩
        have hread := Disk.read_written (haim _ _ rfl).2 hd hw (v.req t).path
        rwa [if_pos rfl] at hread
      | _ => simp [Stage.rank] at h5
    · cases ht
  | stop he =>
    rw [Ledger.filed, reached_stop he _ _ (by omega), if_neg (by omega), List.append_nil] at ht
    exact .inl ht
  | admin _ _ => exact .inl ht

theorem step_aimed (hs : Serving v s) (haim : s.ledger.Aimed v) (hstep : step v s a = some s') :
    s'.ledger.Aimed v := by
  rcases (step_moves hs.locked hstep).refines hs.locked hs.ordered with he | hstep
  · rwa [he]
  · exact hstep.aimed haim

/-- Either a step leaves the page's file and who has written it alone, or a
write of the page, the last one in the order of the lock, has its content
there. -/
theorem step_file (hs : Serving v s) (haim : s.ledger.Aimed v) (hwhole : a.Whole v)
    (hstep : step v s a = some s') (p : Text) :
    (s'.stores.disk.read (filePath v.wiki.contentRoot p) =
        s.stores.disk.read (filePath v.wiki.contentRoot p) ∧
      ∀ t ∈ s'.ledger.filed, (v.req t).path = p → t ∈ s.ledger.filed) ∨
    ∃ t rel, s.task t = .running (.writeFile rel) ∧ (v.req t).path = p ∧
      s'.stores.disk.read (filePath v.wiki.contentRoot p) = some (Text.utf8 (v.req t).content) := by
  by_cases hold : ∀ t ∈ s'.ledger.filed, (v.req t).path = p → t ∈ s.ledger.filed
  · rcases step_read hs haim hwhole hstep p with hsame | hw
    · exact .inl ⟨hsame, hold⟩
    · exact .inr hw
  · right
    simp only [not_forall] at hold
    obtain ⟨t, ht, rfl, hn⟩ := hold
    rcases (step_moves hs.locked hstep).refines hs.locked hs.ordered with he | hl
    · exact absurd (he ▸ ht) hn
    · obtain ⟨rel, hc, hread⟩ := (hl.mem_filed haim ht).resolve_left hn
      exact ⟨t, rel, (current_eq_some hc).2, rfl, hread⟩

theorem Ordered.served_of_filed (h : Ordered s) {t : Nat} (ht : t ∈ s.ledger.filed) : t ∈ s.served := by
  rw [h.served]
  rcases h.mem_reached.1 ht with ⟨stage, ht, -⟩ | ⟨o, ho, -⟩
  · exact .inl (by rw [ht]; simp [Phase.stage])
  · exact .inr (by rw [ho]; simp)

theorem step_fresh (hs : Serving v s) (haim : s.ledger.Aimed v) (hwhole : a.Whole v)
    (hstep : step v s a = some s') (h : Fresh v start p s) : Fresh v start p s' := by
  have hm := step_moves hs.locked hstep
  rcases step_file hs haim hwhole hstep p with ⟨hread, hold⟩ | ⟨t, rel, ht, hp, hread⟩
  · rcases h with ⟨hdisk, hnone⟩ | ⟨pre, u, post, hserved, hu, hdisk, hafter⟩
    · exact .inl ⟨hread.trans hdisk, fun t ht hp => hnone t (hold t ht hp) hp⟩
    · -- A write that was accepted meanwhile has not written its file.
      obtain ⟨new, hserved', hnew⟩ : ∃ new, s'.served = s.served ++ new ∧ ∀ t ∈ new, t ∉ s.served := by
        cases hm with
        | quiet _ hsv _ _ | worked _ _ _ _ _ _ hsv | admin _ _ _ _ _ hsv => exact ⟨[], by simp [hsv], by simp⟩
        | accepted t ht _ _ hsv =>
          refine ⟨[t], hsv, fun u hu => ?_⟩
          rw [List.mem_singleton.1 hu, hs.ordered.served, ht]
          simp [Phase.stage, Phase.outcome]
      refine .inr ⟨pre, u, post ++ new, by simp [hserved', hserved], hu, hread.trans hdisk, ?_⟩
      intro t ht hp hmem
      have hfiled := hold t ht hp
      rcases List.mem_append.1 hmem with hmem | hmem
      · exact hafter t hfiled hp hmem
      · exact hnew t hmem (hs.ordered.served_of_filed hfiled)
  · obtain ⟨pre, hpre, -⟩ := hs.ordered.last ht
    have hserved : s'.served = s.served := by
      cases hm with
      | accepted u hu _ _ _ =>
        have hno := hs.locked.not_running hu t
        rw [ht] at hno
        cases hno
      | quiet _ hsv _ _ | worked _ _ _ _ _ _ hsv | admin _ _ _ _ _ hsv => exact hsv
    exact .inr ⟨pre, t, [], hserved.trans hpre, hp, hread, by simp⟩

theorem run_fresh {stores : Stores} {as : List Action} (hwhole : ∀ a ∈ as, a.Whole v)
    (hr : v.run (.opened stores) as = some s) (p : Text) : Fresh v stores p s := by
  have hend : Serving v s ∧ s.ledger.Aimed v ∧ Fresh v stores p s :=
    Run.invariant_of (P := fun a => a.Whole v) (I := fun s => Serving v s ∧ s.ledger.Aimed v ∧ Fresh v stores p s)
      (fun ha hstep hI => ⟨hI.1.step hstep, step_aimed hI.1 hI.2.1 hstep, step_fresh hI.1 hI.2.1 ha hstep hI.2.2⟩)
      hwhole hr ⟨.opened v stores, Ledger.Opened.aimed ⟨rfl, rfl⟩, .inl ⟨rfl, fun t ht => by cases ht⟩⟩
  exact hend.2.2

/-! ## Reads -/

/-- The metadata are those that the write left in the page's row; with no
write, those of the row at the start. -/
def MetaFrom (v : Service) (start db : Db) (p : Text) (info : PageMeta) : Option Nat → Prop
  | some t => ∃ id row, db.findPage p = some (id, row) ∧ info = db.pageMeta id row ∧ RowOf v t row
  | none => ∃ id row, start.findPage p = some (id, row) ∧ info = db.pageMeta id row

/-- The content is that of a write to the page, the given one or a later one
in the order of the lock; with no write given, it may be that of the start. -/
def ContentSince (v : Service) (start : Stores) (served : List Nat) (p content : Text) (w : Option Nat) : Prop :=
  (∃ pre u post, served = pre ++ u :: post ∧ (v.req u).path = p ∧ (v.req u).content = content ∧
    ∀ t ∈ w, t = u ∨ t ∈ pre) ∨
  w = none ∧ start.disk.readToString (filePath v.wiki.contentRoot p) = some content

theorem fetched_meta {stores : Stores} {as : List Action} {k : Nat} {info : PageMeta}
    (hr : v.run (.opened stores) as = some s) (hf : v.fetch s.stores.db k = .fetched info) :
    MetaFrom v stores.db s.stores.db (v.page k) info (lastTo v (v.page k) s.succeeded) := by
  obtain ⟨id, row, hfind, rfl⟩ := fetch_eq_fetched hf
  obtain ⟨commits, recorded, h⟩ := ((Serving.opened v stores).steps hr).history ⟨rfl, rfl⟩
  have hlast := h.db.lastOn_eq (v.page k)
  rw [s.ledger_succeeded] at hlast
  have hpage := h.db.pages (v.page k)
  rw [← hlast]
  cases hx : lastOn v (v.page k) recorded with
  | some x =>
    simp only [PageHistory, hx] at hpage
    obtain ⟨id', row', hfind', hrow, -⟩ := hpage
    cases hfind.symm.trans hfind'
    exact ⟨id, row, hfind, rfl, hrow⟩
  | none =>
    simp only [PageHistory, hx] at hpage
    exact ⟨id, row, hpage.1 ▸ hfind, rfl⟩

/-- **Reads are fresh.** A read that returns a page returns the metadata of
the last write to it that had succeeded when the row was read, and the
content of that write or of one that came later in the order of the lock;
before the first such write, the row of the start, and the content of the
start or of any write. -/
theorem read_fresh {stores : Stores} {as : List Action} {k : Nat} {s₁ s₂ : State} {page : Page}
    (hwhole : ∀ a ∈ as, a.Whole v) (hget : Got v (.opened stores) as s k s₁ s₂ page) :
    MetaFrom v stores.db s₁.stores.db (v.page k) page.info (lastTo v (v.page k) s₁.succeeded) ∧
      ContentSince v stores s₂.served (v.page k) page.content (lastTo v (v.page k) s₁.succeeded) := by
  obtain ⟨hfetch, hfile⟩ := hget.parts
  obtain ⟨as₁, as₂, as₃, said, rfl, hr₁, hr₂, -⟩ := hget.run
  have hserving := (Serving.opened v stores).run hr₁
  refine ⟨fetched_meta hr₁ hfetch, ?_⟩
  have hfresh := run_fresh (p := v.page k) (fun a ha => hwhole a (List.mem_append_left _ ha))
    (Run.run_append.2 ⟨s₁, hr₁, hr₂⟩)
  -- The write of the row has written its file by the time the file is read.
  have hfiled : ∀ t ∈ lastTo v (v.page k) s₁.succeeded,
      t ∈ s₂.ledger.filed ∧ (v.req t).path = v.page k := by
    intro t ht
    obtain ⟨hm, hp⟩ := lastTo_mem ht
    rw [← s₁.ledger_succeeded] at hm
    exact ⟨(hserving.steps hr₂).mem_reached (by omega) (mem_reached_of_le (by omega) hm), hp⟩
  rcases hfresh with ⟨hread, hnone⟩ | ⟨pre, u, post, hserved, hu, hread, hafter⟩
  · refine .inr ⟨?_, ?_⟩
    · rw [Option.eq_none_iff_forall_not_mem]
      exact fun t ht => hnone t (hfiled t ht).1 (hfiled t ht).2
    · rwa [Disk.readToString, ← hread]
  · refine .inl ⟨pre, u, post, hserved, hu, ?_, fun t ht => ?_⟩
    · rw [Disk.readToString_of_read hread] at hfile
      exact Option.some.inj hfile
    · have hmem := (hserving.run hr₂).ordered.served_of_filed (hfiled t ht).1
      rw [hserved, List.mem_append, List.mem_cons] at hmem
      rcases hmem with hmem | hmem | hmem
      · exact .inr hmem
      · exact .inl hmem
      · exact absurd hmem (hafter t (hfiled t ht).1 (hfiled t ht).2)

end

/-- A read around the file stage of a write gets the row of the write before
it, and the new content. -/
theorem read_fresh_small :
    ∃ as s s₁ s₂ page, Got Service.small (.opened (.small none)) as s 0 s₁ s₂ page ∧
      MetaFrom Service.small (Stores.small none).db s₁.stores.db "notes".toList page.info (some 0) ∧
      page.content = "two".toList ∧
      ContentSince Service.small (.small none) [0, 1] "notes".toList "two".toList (some 0) := by
  obtain ⟨s₁, hs₁⟩ : ∃ s₁, Service.small.run (.opened (.small none)) (Action.serve 0) = some s₁ := ⟨_, rfl⟩
  obtain ⟨s₂, hs₂⟩ : ∃ s₂, Service.small.run s₁ (.fetch 0 :: Action.untilFile 1) = some s₂ := by
    cases hs₁; exact ⟨_, rfl⟩
  obtain ⟨s, hs⟩ : ∃ s, Service.small.run s₂ (.load 0 [] :: Action.sinceFile 1) = some s := by
    cases hs₁; cases hs₂; exact ⟨_, rfl⟩
  obtain ⟨page, hpage, hcontent⟩ : ∃ page, s.reader 0 = .done (.ok page) ∧ page.content = "two".toList := by
    cases hs₁; cases hs₂; cases hs; exact ⟨_, rfl, rfl⟩
  have hget : Got Service.small (.opened (.small none)) (Action.serve 0 ++ .fetch 0 :: Action.untilFile 1 ++
      .load 0 [] :: Action.sinceFile 1) s 0 s₁ s₂ page := ⟨⟨_, _, _, _, rfl, hs₁, hs₂, hs⟩, hpage⟩
  have hserved : s₁.succeeded = [0] ∧ s₂.served = [0, 1] := by cases hs₁; cases hs₂; decide
  have hwhole : ∀ a ∈ Action.serve 0 ++ .fetch 0 :: Action.untilFile 1 ++ .load 0 [] :: Action.sinceFile 1,
      a.Whole Service.small := by
    simp [Action.serve, Action.work, Action.untilFile, Action.sinceFile, Action.Whole]
  obtain ⟨hmeta, hsince⟩ := read_fresh hwhole hget
  rw [hserved.1] at hmeta hsince
  rw [hserved.2, hcontent] at hsince
  exact ⟨_, s, s₁, s₂, page, hget, hmeta, hcontent, hsince⟩

end Wikikiki
