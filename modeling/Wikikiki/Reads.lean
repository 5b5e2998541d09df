/-
Reads beside writes, and what a conditional write replaces that names the
revision of a read.

A read takes the row first and the file second, without the writer lock, while
a write changes the file first and the row second. So the content that a
client gets need not be that of the revision it gets (`unseen_replaced`). What
its write replaces always has the revision; it is the content that the client
saw when that has the revision too, as it has when no write to the page was
running while the client read (`replaced_content`).
-/
import Wikikiki.Agreement
import Wikikiki.Optimistic

namespace Wikikiki

/-! ## Reads -/

/-- In the run from `start` to `s`, the read takes the row in `s₁` and the file
in `s₂`, and answers with the page. -/
structure Got (v : Service) (start : State) (as : List Action) (s : State) (k : Nat) (s₁ s₂ : State)
    (page : Page) :
    Prop where
  run : ∃ as₁ as₂ as₃ said, as = as₁ ++ .fetch k :: as₂ ++ .load k said :: as₃ ∧ v.run start as₁ = some s₁ ∧
    v.run s₁ (.fetch k :: as₂) = some s₂ ∧ v.run s₂ (.load k said :: as₃) = some s
  answer : s.reader k = .done (.ok page)

section

variable {v : Service} {s s' s₁ s₂ start : State} {as : List Action} {k : Nat} {page : Page}

/-- What a step can do to a read. -/
theorem step_reader {a : Action} (hstep : step v s a = some s') (k : Nat) : s'.reader k = s.reader k ∨
    (s.reader k = .idle ∧ s'.reader k = v.fetch s.stores.db k) ∨
    ∃ info said, s.reader k = .fetched info ∧ s'.reader k = v.load s.stores.disk k info said := by
  cases step_cases hstep with
  | @fetched j hj =>
    by_cases hk : k = j
    · subst hk
      exact .inr (.inl ⟨hj, by simp⟩)
    · exact .inl (by simp [hk])
  | @loaded j said info hj =>
    by_cases hk : k = j
    · subst hk
      exact .inr (.inr ⟨info, said, hj, by simp⟩)
    · exact .inl (by simp [hk])
  | _ => exact .inl rfl

theorem fetch_ne_idle (v : Service) (db : Db) (k : Nat) : v.fetch db k ≠ .idle := by
  unfold Service.fetch
  repeat' split
  all_goals simp

theorem load_done (v : Service) (disk : Disk) (k : Nat) (info : PageMeta) (said : Text) :
    ∃ x, v.load disk k info said = .done x := by
  unfold Service.load
  simp only
  split <;> exact ⟨_, rfl⟩

/-- A read that has taken its row keeps it until it is done, and stays done. -/
theorem reader_run {x : ReadPhase} (hx : x ≠ .idle) (hr : v.run s as = some s') (hs : s.reader k = x) :
    s'.reader k = x ∨ ∃ y, s'.reader k = .done y := by
  refine Run.invariant (I := fun s => s.reader k = x ∨ ∃ y, s.reader k = .done y)
    (fun hstep hI => ?_) hr (.inl hs)
  rcases step_reader hstep k with he | ⟨hidle, -⟩ | ⟨info, said, -, he⟩
  · rwa [he]
  · rcases hI with hI | ⟨y, hI⟩
    · exact absurd (hI.symm.trans hidle) hx
    · rw [hI] at hidle
      cases hidle
  · obtain ⟨y, hy⟩ := load_done v _ k info said
    exact .inr ⟨y, he.trans hy⟩

theorem reader_done_run {x : Except AppError Page} (hr : v.run s as = some s') (hs : s.reader k = .done x) :
    s'.reader k = .done x := by
  refine Run.invariant (I := fun s => s.reader k = .done x) (fun hstep hI => ?_) hr hs
  rcases step_reader hstep k with he | ⟨hidle, -⟩ | ⟨info, said, hf, -⟩
  · rwa [he]
  · rw [hI] at hidle
    cases hidle
  · rw [hI] at hf
    cases hf

/-- What a read answers is the row at its first half and the file at its
second. -/
theorem Got.parts (h : Got v start as s k s₁ s₂ page) : v.fetch s₁.stores.db k = .fetched page.info ∧
    s₂.stores.disk.readToString (filePath v.wiki.contentRoot (v.page k)) = some page.content := by
  obtain ⟨as₁, as₂, as₃, said, -, -, h₁, h₂⟩ := h.run
  obtain ⟨t₁, hfetch, h₁⟩ := Run.run_cons.1 h₁
  obtain ⟨t₂, hload, h₂⟩ := Run.run_cons.1 h₂
  have hrow : t₁.reader k = v.fetch s₁.stores.db k := by
    cases step_cases hfetch with
    | fetched _ => simp
  have hkeep := reader_run (fetch_ne_idle v _ k) h₁ hrow
  cases step_cases hload with
  | @loaded _ _ info hinfo =>
    rw [hinfo] at hkeep
    have hf : v.fetch s₁.stores.db k = .fetched info := by
      rcases hkeep with hkeep | hdone
      · exact hkeep.symm
      · obtain ⟨y, hy⟩ := hdone
        cases hy
    obtain ⟨x, hx⟩ := load_done v s₂.stores.disk k info said
    have hend := reader_done_run h₂ (k := k) (x := x) (by simp [hx])
    rw [h.answer] at hend
    cases hend
    unfold Service.load at hx
    simp only at hx
    split at hx
    next content hc => cases hx; exact ⟨hf, hc⟩
    · cases hx

theorem fetch_eq_fetched {db : Db} {info : PageMeta} (h : v.fetch db k = .fetched info) :
    ∃ id row, db.findPage (v.page k) = some (id, row) ∧ info = db.pageMeta id row := by
  unfold Service.fetch at h
  split at h
  · cases h
  split at h
  · cases h
  next hmeta =>
    cases h
    obtain ⟨⟨id, row⟩, hf, rfl⟩ := Option.map_eq_some_iff.1 hmeta
    exact ⟨id, row, hf, rfl⟩

end

/-! ## What a client saw -/

/-- The stores agree, and the pages hold `init`. -/
structure Stores.AgreeWith (w : Wiki) (s : Stores) (init : Text → Option Text) : Prop where
  records : s.db.Records w init
  agreed : ∀ id row content, (id, row) ∈ s.db.pages.rows → init row.path = some content →
    AgreedOn w s id row content

/-- A content that the pages held or that somebody may write. -/
def Service.InPlay (v : Service) (init : Text → Option Text) (c : Text) : Prop :=
  (∃ t, v.value t = c) ∨ ∃ p, init p = some c

/-- No two contents in play have one hash. -/
def Service.Collisionless (v : Service) (init : Text → Option Text) : Prop :=
  ∀ a b, v.InPlay init a → v.InPlay init b → v.wiki.contentHash a = v.wiki.contentHash b → a = b

section

variable {v : Service} {init : Text → Option Text} {stores : Stores} {s₁ s₂ : State}
  {as : List Action} {p c : Text}

theorem inPlay_content {ts : List Nat} (h : v.content init ts p = some c) : v.InPlay init c := by
  unfold Service.content at h
  split at h
  next t _ => exact .inl ⟨t, Option.some.inj h⟩
  · exact .inr ⟨p, h⟩

theorem content_filter (ts : List Nat) : Register.content v.value (fun _ => True) (init p)
    (ts.filter fun t => (v.req t).path = p) = v.content init ts p := by
  simp only [Register.content, Service.content, lastTo, decide_true, List.filter_true]
  cases (ts.filter fun t => (v.req t).path = p).getLast? <;> rfl

/-- What the file of a page has in it, while no write has failed in a store. -/
theorem readToString_eq (hstart : stores.AgreeWith v.wiki init) {l : Ledger}
    (hc : Contents v (State.opened stores).ledger l) (hh : l.Healthy)
    (hnone : lastTo v p l.filed = none → init p ≠ none)
    (hread : l.stores.disk.readToString (filePath v.wiki.contentRoot p) = some c) :
    v.content init l.filed p = some c := by
  have hfile := hc.file hh p
  unfold Service.content
  cases ht : lastTo v p l.filed with
  | some t =>
    simp only [contentAfter, ht] at hfile
    rw [Disk.readToString_of_read hfile] at hread
    exact hread
  | none =>
    simp only [contentAfter, ht] at hfile
    obtain ⟨c₀, hc₀⟩ := Option.ne_none_iff_exists'.1 (hnone ht)
    have hstate := hstart.records p
    rw [hc₀] at hstate
    obtain ⟨id, row, hf, -⟩ := Db.currentState_eq_present.1 hstate
    obtain ⟨hm, rfl⟩ := Db.findPage_eq_some.1 hf
    rw [Disk.readToString_of_read (hfile.trans (hstart.agreed id row c₀ hm hc₀).file)] at hread
    rw [hc₀]
    exact hread

/-- When every write to the page that was accepted in `s₂` had ended in `s₁`,
the file is that of the last one that had succeeded. -/
theorem lastTo_filed (hs : Serving v s₁) (hr : v.run s₁ as = some s₂) (hh : s₂.Healthy)
    (hended : ∀ t ∈ s₂.served, (v.req t).path = p → (s₁.task t).outcome ≠ none) :
    lastTo v p s₂.ledger.filed = lastTo v p s₁.succeeded := by
  obtain ⟨new, hlog⟩ : s₁.ledger.log <+: s₂.ledger.log := (hs.steps hr).log_extends
  have hnd : (s₂.ledger.log.map Prod.fst).Nodup := (hs.run hr).ordered.log_nodup
  rw [← hlog, List.map_append, List.nodup_append] at hnd
  -- Of the writes to the page, those that had ended are all that there are.
  have hold : ∀ t ∈ s₂.served, (v.req t).path = p → ∃ o, (t, o) ∈ s₁.ledger.log := by
    intro t ht hp
    obtain ⟨o, ho⟩ := Option.ne_none_iff_exists'.1 (hended t ht hp)
    exact ⟨o, mem_log.2 ⟨(hs.ordered.served t).2 (.inr (by rw [ho]; simp)), ho⟩⟩
  have hnew : ((ended 5 new).filter fun t => (v.req t).path = p) = [] := by
    simp only [List.filter_eq_nil_iff, decide_eq_true_eq]
    intro t ht hp
    obtain ⟨o, ho, -⟩ := mem_ended.1 ht
    have hm : (t, o) ∈ s₂.log := by rw [show s₂.log = _ from hlog.symm]; exact List.mem_append_right _ ho
    obtain ⟨o', ho'⟩ := hold t (mem_log.1 hm).1 hp
    exact hnd.2.2 t (List.mem_map.2 ⟨_, ho', rfl⟩) t (List.mem_map.2 ⟨_, ho, rfl⟩) rfl
  have hrunning : ((running 5 s₂.ledger.current).filter fun t => (v.req t).path = p) = [] := by
    simp only [List.filter_eq_nil_iff, decide_eq_true_eq]
    intro t ht hp
    obtain ⟨stage, hc, -⟩ := mem_running.1 ht
    obtain ⟨hserved, hrun⟩ := current_eq_some hc
    obtain ⟨o, ho⟩ := hold t hserved hp
    have hm : (t, o) ∈ s₂.log := by rw [show s₂.log = _ from hlog.symm]; exact List.mem_append_left _ ho
    have hout := (mem_log.1 hm).2
    rw [hrun] at hout
    cases hout
  have hh₁ : s₁.ledger.Healthy := fun t stage e hm =>
    hh.ledger t stage e (hlog ▸ List.mem_append_left _ hm)
  have hsucc : ended 5 s₁.ledger.log = s₁.succeeded := by
    rw [hh₁.ended (by omega) (by omega), ← s₁.ledger.succeeded_eq, s₁.ledger_succeeded]
  rw [lastTo, Ledger.filed, Ledger.reached, ← hlog, ended_append, List.filter_append,
    List.filter_append, hnew, hrunning, List.append_nil, List.append_nil, hsucc]
  rfl

theorem Got.whole {start s : State} {k : Nat} {page : Page} (h : Got v start as s k s₁ s₂ page) :
    v.run start as = some s := by
  obtain ⟨as₁, as₂, as₃, said, rfl, h₁, h₂, h₃⟩ := h.run
  exact Run.run_append.2 ⟨s₂, Run.run_append.2 ⟨s₁, h₁, h₂⟩, h₃⟩

/-- The revision that a read returns is that of the last write that had
succeeded when it took the row. -/
theorem Sequential.fetched {k : Nat} {info : PageMeta} {r : Text} (h : Sequential v init s₁.ledger)
    (hf : v.fetch s₁.stores.db k = .fetched info) (hrev : info.revision = some r) :
    ∃ c, v.content init s₁.succeeded (v.page k) = some c ∧ v.wiki.contentHash c = r := by
  obtain ⟨id, row, hfind, rfl⟩ := fetch_eq_fetched hf
  have hstate := Db.currentState_eq_present.2 ⟨id, row, hfind, hrev⟩
  rw [show s₁.stores = s₁.ledger.stores from rfl, h.state, ← content_eq_held] at hstate
  cases hc : v.content init s₁.succeeded (v.page k) with
  | none => rw [hc] at hstate; cases hstate
  | some c => rw [hc] at hstate; cases hstate; exact ⟨c, rfl, rfl⟩

/-- A write that named a revision and succeeded replaced a content of that
revision. -/
theorem Sequential.replaced {s : State} {t : Nat} {r : Text} {pre post : List Nat}
    (h : Sequential v init s.ledger) (hpre : (v.req t).precondition = .revision r)
    (hs : s.succeeded = pre ++ t :: post) :
    ∃ c, v.content init pre (v.req t).path = some c ∧ v.wiki.contentHash c = r := by
  have hsplit : (s.succeeded.filter fun u => (v.req u).path = (v.req t).path) =
      (pre.filter fun u => (v.req u).path = (v.req t).path) ++ t ::
        post.filter fun u => (v.req u).path = (v.req t).path := by
    rw [hs]
    simp
  have hholds := (h.succeeded (v.req t).path _ t _ hsplit).1 trivial
  rw [content_filter, Service.cond, hpre] at hholds
  exact hholds

/-- **What a write replaces that names the revision of a read.** It has that
revision. It is the content that was read exactly when that has the revision,
too, and so it is when every write to the page that was accepted before the
file was read had ended before the row was. -/
theorem replaced_content {s : State} {k t : Nat} {page : Page} {r : Text} {pre post : List Nat}
    (hstart : stores.AgreeWith v.wiki init) (hhash : v.Collisionless init)
    (hget : Got v (.opened stores) as s k s₁ s₂ page) (hh : s.Healthy) (hrev : page.info.revision = some r)
    (hpath : (v.req t).path = v.page k) (hpre : (v.req t).precondition = .revision r)
    (hs : s.succeeded = pre ++ t :: post) :
    ∃ c, v.content init pre (v.page k) = some c ∧ v.wiki.contentHash c = r ∧
      (c = page.content ↔ v.wiki.contentHash page.content = r) ∧
      ((∀ u ∈ s₂.served, (v.req u).path = v.page k → (s₁.task u).outcome ≠ none) → c = page.content) := by
  obtain ⟨hfetch, hfile⟩ := hget.parts
  obtain ⟨as₁, as₂, as₃, said, -, hr₁, hr₂, hr₃⟩ := hget.run
  have hopened : (State.opened stores).ledger.Opened := ⟨rfl, rfl⟩
  have hopen := Serving.opened v stores
  have hserving₁ := hopen.run hr₁
  have hserving₂ := hserving₁.run hr₂
  have hseq := fun {s : State} {as : List Action} (hr : v.run (.opened stores) as = some s) =>
    (hopen.steps hr).sequential hopened.checked (hopened.sequential hstart.records)
  obtain ⟨c₁, hc₁, hr₁'⟩ := (hseq hr₁).fetched hfetch hrev
  obtain ⟨c, hc, hr⟩ := (hseq hget.whole).replaced hpre hs
  rw [hpath] at hc
  -- The file holds a content in play: that of a write, or that of the row before any.
  have hlog₁ := (hserving₁.steps hr₂).log_extends
  have hlog₂ := (hserving₂.steps hr₃).log_extends
  have hh₂ : s₂.ledger.Healthy := fun u stage e hm => hh.ledger u stage e (hlog₂.subset hm)
  have hcontents := Ledger.Steps.contents ((hopen.steps hr₁).trans (hserving₁.steps hr₂)) hopened
  have hread : v.content init s₂.ledger.filed (v.page k) = some page.content := by
    refine readToString_eq hstart hcontents hh₂ (fun hnone hinit => ?_) hfile
    have hnone₁ : lastTo v (v.page k) s₁.succeeded = none := by
      rw [lastTo_eq_none] at hnone ⊢
      intro u hu
      rw [← s₁.ledger_succeeded, s₁.ledger.succeeded_eq] at hu
      obtain ⟨o, ho, h8⟩ := mem_ended.1 hu
      exact hnone u (List.mem_append_left _ (mem_ended.2 ⟨o, hlog₁.subset ho, by omega⟩))
    rw [Service.content, hnone₁, hinit] at hc₁
    cases hc₁
  refine ⟨c, hc, hr, ⟨fun he => he ▸ hr, fun he => ?_⟩, fun hended => ?_⟩
  · exact hhash _ _ (inPlay_content hc) (inPlay_content hread) (hr.trans he.symm)
  · have hlast := lastTo_filed hserving₁ hr₂ (fun u stage e hu => ?_) hended
    · rw [Service.content, hlast] at hread
      have hsame : c₁ = page.content := Option.some.inj (hc₁.symm.trans hread)
      rw [← hsame]
      exact hhash _ _ (inPlay_content hc) (inPlay_content hc₁) (hr.trans hr₁'.symm)
    · have hserved := (hserving₂.ordered.served u).2 (.inr (by rw [hu]; simp))
      exact hh₂ u stage e (mem_log.2 ⟨hserved, hu⟩)

end

/-! ## Two schedules -/

theorem collisionless_small : Service.small.Collisionless fun _ => none := by
  have hvalue : ∀ t, Service.small.value t = "one".toList ∨ Service.small.value t = "two".toList
    | 0 | 2 => .inl rfl
    | 1 | 3 | _ + 4 => .inr rfl
  have hplay : ∀ a, Service.small.InPlay (fun _ => none) a → a = "one".toList ∨ a = "two".toList := by
    intro a ha
    rcases ha with hex | hinit
    · obtain ⟨t, rfl⟩ := hex
      exact hvalue t
    · obtain ⟨p, hp⟩ := hinit
      cases hp
  intro a b ha hb
  rcases hplay a ha with rfl | rfl <;> rcases hplay b hb with rfl | rfl <;> decide

theorem agreeWith_small : (Stores.small none).AgreeWith Wiki.small fun _ => none :=
  ⟨Db.records_of_empty rfl, fun _ _ _ h => nomatch h⟩

theorem replaced_content_small :
    ∃ s s₁ s₂ page, Got Service.small (.opened (.small none))
        (Action.serve 0 ++ .fetch 0 :: [] ++ .load 0 [] :: Action.serve 4) s 0 s₁ s₂ page ∧
      ∃ c, Service.small.content (fun _ => none) [0] "notes".toList = some c ∧
        Wiki.small.contentHash c = Wiki.small.contentHash "one".toList ∧
        (c = page.content ↔ Wiki.small.contentHash page.content = Wiki.small.contentHash "one".toList) ∧
        ((∀ u ∈ s₂.served, (Service.small.req u).path = "notes".toList → (s₁.task u).outcome ≠ none) →
          c = page.content) := by
  obtain ⟨s₁, hs₁⟩ : ∃ s₁, Service.small.run (.opened (.small none)) (Action.serve 0) = some s₁ := ⟨_, rfl⟩
  obtain ⟨s₂, hs₂⟩ : ∃ s₂, Service.small.run s₁ (.fetch 0 :: []) = some s₂ := by cases hs₁; exact ⟨_, rfl⟩
  obtain ⟨s, hs⟩ : ∃ s, Service.small.run s₂ (.load 0 [] :: Action.serve 4) = some s := by
    cases hs₁; cases hs₂; exact ⟨_, rfl⟩
  obtain ⟨page, hpage, hrev⟩ : ∃ page, s.reader 0 = .done (.ok page) ∧
      page.info.revision = some (Wiki.small.contentHash "one".toList) := by
    cases hs₁; cases hs₂; cases hs; exact ⟨_, rfl, rfl⟩
  have hget : Got Service.small (.opened (.small none))
      (Action.serve 0 ++ .fetch 0 :: [] ++ .load 0 [] :: Action.serve 4) s 0 s₁ s₂ page :=
    ⟨⟨_, _, _, _, rfl, hs₁, hs₂, hs⟩, hpage⟩
  have hserved : (∀ t ∈ s.served, (s.task t).done = true) ∧ s.succeeded = [0] ++ 4 :: [] := by
    cases hs₁; cases hs₂; cases hs; decide
  have hh := ((Serving.opened _ _).run hget.whole).ordered.quiet_healthy hserved.1
  exact ⟨s, s₁, s₂, page, hget,
    replaced_content agreeWith_small collisionless_small hget hh.2 hrev rfl rfl hserved.2⟩

/-- **An erased change.** The row is read before a write to the page and its
file after it, the old content is restored, and the client's write replaces a
content that the client never saw. -/
theorem unseen_replaced :
    (Service.small.Collisionless fun _ => none) ∧ ∃ as s s₁ s₂ page,
      Got Service.small (.opened (.small none)) as s 0 s₁ s₂ page ∧ s.Healthy ∧
      page.info.revision = some (Wiki.small.contentHash "one".toList) ∧
      (Service.small.req 4).precondition = .revision (Wiki.small.contentHash "one".toList) ∧
      4 ∉ s₂.served ∧ s.succeeded = [0, 1, 2] ++ 4 :: [] ∧
      Service.small.content (fun _ => none) [0, 1, 2] "notes".toList = some "one".toList ∧
      page.content = "two".toList := by
  refine ⟨collisionless_small, ?_⟩
  obtain ⟨s₁, hs₁⟩ : ∃ s₁, Service.small.run (.opened (.small none)) (Action.serve 0) = some s₁ := ⟨_, rfl⟩
  obtain ⟨s₂, hs₂⟩ : ∃ s₂, Service.small.run s₁ (.fetch 0 :: Action.untilFile 1) = some s₂ := by
    cases hs₁; exact ⟨_, rfl⟩
  obtain ⟨s, hs⟩ : ∃ s, Service.small.run s₂
      (.load 0 [] :: (Action.sinceFile 1 ++ Action.serve 2 ++ Action.serve 4)) = some s := by
    cases hs₁; cases hs₂; exact ⟨_, rfl⟩
  obtain ⟨page, hpage, hrev, hcontent⟩ : ∃ page, s.reader 0 = .done (.ok page) ∧
      page.info.revision = some (Wiki.small.contentHash "one".toList) ∧ page.content = "two".toList := by
    cases hs₁; cases hs₂; cases hs; exact ⟨_, rfl, rfl, rfl⟩
  have hget : Got Service.small (.opened (.small none)) _ s 0 s₁ s₂ page :=
    ⟨⟨_, _, _, _, rfl, hs₁, hs₂, hs⟩, hpage⟩
  have hserved : (∀ t ∈ s.served, (s.task t).done = true) ∧ s.succeeded = [0, 1, 2] ++ 4 :: [] ∧
      4 ∉ s₂.served := by
    cases hs₁; cases hs₂; cases hs; decide
  have hh := ((Serving.opened _ _).run hget.whole).ordered.quiet_healthy hserved.1
  exact ⟨_, s, s₁, s₂, page, hget, hh.2, hrev, rfl, hserved.2.2, hserved.2.1, rfl, hcontent⟩

end Wikikiki
