/-
What a conditional write replaces in HEAD.

The check reads the row of the page, not HEAD. The row is written after the
commit, in a transaction that may fail, and from then on it is behind HEAD
until the next write to the page is recorded. A write that lands meanwhile
replaces a commit that its condition never named (`behind_head_replaced`); one
that lands on a page whose last commit is recorded replaces what it named
(`replaced_in_head`).
-/
import Wikikiki.Optimistic

namespace Wikikiki

/-! ## Landing -/

/-- In the run from `start` to `s`, the commit of the write lands between `s₁`
and `s₂`. -/
structure Landing (v : Service) (start : State) (as : List Action) (s : State) (t : Nat)
    (s₁ s₂ : State) : Prop where
  run : ∃ as₁ a as₂, as = as₁ ++ a :: as₂ ∧ v.run start as₁ = some s₁ ∧ step v s₁ a = some s₂ ∧
    v.run s₂ as₂ = some s
  before : ∃ rel parent, s₁.task t = .running (.commit rel parent)
  after : ∃ oid, s₂.task t = .running (.project oid)

/-- What the write replaces in HEAD is what its condition names: the blob of
the revision, or no blob. -/
def ReplacesNamed (v : Service) (s : Stores) (t : Nat) : Prop :=
  (∀ r, (v.req t).precondition = .revision r →
    ∃ b, headBlob s.git (v.wiki.pageFile (v.req t).path) = some b ∧
    hexEncode (v.wiki.ext.sha256 b) = r) ∧
  ((v.req t).precondition = .absent → headBlob s.git (v.wiki.pageFile (v.req t).path) = none)

section

variable {v : Service} {s s' : State} {t : Nat}

theorem Ordered.mem_landed (h : Ordered s) : t ∈ s.ledger.landed ↔
    (∃ oid, s.task t = .running (.project oid)) ∨ ∃ o, (s.task t).outcome = some o ∧ 7 ≤ o.rank := by
  rw [Ledger.landed, h.mem_reached]
  refine or_congr ⟨fun hrun => ?_, fun hrun => ?_⟩ Iff.rfl
  · obtain ⟨stage, ht, hr⟩ := hrun
    cases stage <;> simp only [Stage.rank] at hr <;> first | omega | exact ⟨_, ht⟩
  · obtain ⟨oid, ht⟩ := hrun
    exact ⟨_, ht, Nat.le_refl 7⟩

/-- A write lands by a commit. -/
theorem Moves.landing {a : Action} (hm : Moves v s s' a) (h : Ordered s) (h' : Ordered s')
    (ht : t ∉ s.ledger.landed) (ht' : t ∈ s'.ledger.landed) :
    (∃ rel parent, s.task t = .running (.commit rel parent)) ∧
      ∃ oid, s'.task t = .running (.project oid) := by
  rw [h.mem_landed, not_or] at ht
  rw [h'.mem_landed] at ht'
  have hsame : s'.task t = s.task t → False := fun he => by rw [he] at ht'; exact ht'.elim ht.1 ht.2
  cases hm with
  | quiet _ _ hst hout =>
    rcases ht' with ⟨oid, hp⟩ | ⟨o, ho, hr⟩
    · have hs := hst t
      rw [hp] at hs
      cases htask : s.task t <;> rw [htask] at hs <;> cases hs
      exact absurd ⟨oid, htask⟩ ht.1
    · exact absurd ⟨o, hout t ▸ ho, hr⟩ ht.2
  | admin _ _ _ _ htask _ => exact absurd (by rw [htask]) hsame
  | accepted u _ _ htask _ =>
    by_cases htu : t = u
    · rw [htask, htu, Function.update_self] at ht'
      rcases ht' with ⟨oid, hp⟩ | ⟨o, ho, _⟩
      · cases hp
      · cases ho
    · exact absurd (by rw [htask, Function.update_of_ne htu]) hsame
  | worked u stage n hs heff htask _ =>
    by_cases htu : t = u
    · subst htu
      have hstage : stage.rank < 7 := by
        cases stage <;> simp only [Stage.rank] <;> first | omega | exact absurd ⟨_, hs⟩ ht.1
      rw [htask, Function.update_self] at ht' ⊢
      cases n with
      | stop o =>
        have hr := heff.rank_stop
        rcases ht' with ⟨oid, hp⟩ | ⟨o', ho, hr'⟩
        · cases hp
        · cases ho
          omega
      | go stage' =>
        have hr := heff.rank_go
        rcases ht' with ⟨oid, hp⟩ | ⟨o, ho, _⟩
        · cases hp
          refine ⟨?_, oid, rfl⟩
          cases stage <;> simp only [Stage.rank] at hr <;> first | omega | exact ⟨_, _, hs⟩
        · cases ho
    · exact absurd (by rw [htask, Function.update_of_ne htu]) hsame

/-- A write that has landed did so in some step. -/
theorem exists_landing_of_landed {stores : Stores} {as : List Action}
    (hr : v.run (.opened stores) as = some s) (ht : t ∈ s.ledger.landed) :
    ∃ s₁ s₂, Landing v (.opened stores) as s t s₁ s₂ := by
  obtain ⟨as₁, a, as₂, s₁, s₂, has, hr₁, hstep, hr₂, hn, hl⟩ :=
    Run.crosses (P := fun s => t ∈ s.ledger.landed) hr (List.not_mem_nil (a := t)) ht
  have hs₁ := (Serving.opened v stores).run hr₁
  obtain ⟨hbefore, hafter⟩ := (step_moves hs₁.locked hstep).landing hs₁.ordered
    (hs₁.step hstep).ordered hn hl
  exact ⟨s₁, s₂, ⟨as₁, a, as₂, has, hr₁, hstep, hr₂⟩, hbefore, hafter⟩

/-- Every write that succeeds has landed. -/
theorem exists_landing {stores : Stores} {as : List Action} (hr : v.run (.opened stores) as = some s)
    (ht : t ∈ s.succeeded) : ∃ s₁ s₂, Landing v (.opened stores) as s t s₁ s₂ :=
  exists_landing_of_landed hr (mem_reached_of_le (by omega) (s.ledger_succeeded ▸ ht))

end

/-! ## Rows and HEAD -/

/-- The row of a page, if it has a revision, has that of HEAD's blob, and a
page without a row has no blob. -/
structure Tied (w : Wiki) (s : Stores) (p : Text) : Prop where
  revision : ∀ r, s.db.currentState p = .present (some r) →
    ∃ b, headBlob s.git (w.pageFile p) = some b ∧ hexEncode (w.ext.sha256 b) = r
  absent : s.db.currentState p = .absent → headBlob s.git (w.pageFile p) = none

/-- A page's file is never the one that the seed commits. -/
theorem relativeFilePath_ne_keep (p : Text) : relativeFilePath p ≠ [".keep".toList] := by
  intro hrel
  have hprefix : [".keep".toList] <+: relativeFilePath p := by rw [hrel]
  obtain ⟨s, segs, hsplit⟩ := (prefix_relativeFilePath (by decide)).1 hprefix
  rw [relativeFilePath, hsplit, withMd_cons_cons, List.cons.injEq] at hrel
  exact withMd_ne_nil (by simp) hrel.2

theorem treePath_pageFile_ne_keep {p : Text} (hv : validatePath p = .ok ()) (w : Wiki) :
    treePath (w.pageFile p) ≠ [".keep".toList] := by
  rw [Wiki.pageFile, treePath_repoPath hv]
  intro h
  rcases List.append_eq_singleton_iff.1 h with ⟨-, hrel⟩ | ⟨-, hrel⟩
  · exact relativeFilePath_ne_keep p hrel
  · exact relativeFilePath_ne_nil p hrel

/-- Nothing of a page is in a new repository. -/
theorem headBlob_seed {p : Text} (hv : validatePath p = .ok ()) (w : Wiki) (time : Int) :
    headBlob [seedCommit time] (w.pageFile p) = none :=
  Tree.lookup_single (treePath_pageFile_ne_keep hv w) []

/-- A page is tied as long as its last commit is recorded. -/
theorem Contents.tied {v : Service} {start l : Ledger} {recorded : List (Nat × Commit)} {p : Text}
    (hc : Contents v start l) (h : DbHistory v start l recorded) (hv : validatePath p = .ok ())
    (hp : l.stores.disk.Placed (filePath v.wiki.contentRoot p))
    (hlast : lastTo v p l.landed = lastTo v p l.succeeded) (hs : Tied v.wiki start.stores p) :
    Tied v.wiki l.stores p := by
  have hhead := hc.head_of_placed hv hp
  have hpage := h.pages p
  have hx := h.lastOn_eq p
  rw [← hlast] at hx
  cases ht : lastTo v p l.landed with
  | some u =>
    rw [ht, Option.map_eq_some_iff] at hx
    obtain ⟨x, hx, rfl⟩ := hx
    simp only [contentAfter, ht] at hhead
    simp only [PageHistory, hx] at hpage
    obtain ⟨id, row, hf, hof, -⟩ := hpage
    have hstate : l.stores.db.currentState p =
        .present (some (v.wiki.contentHash (v.req x.1).content)) := by
      simp only [Db.currentState, hf, hof.hash]
    refine ⟨fun r hr => ⟨_, hhead, ?_⟩, fun ha => ?_⟩
    · rw [hstate] at hr
      cases hr
      rfl
    · rw [hstate] at ha
      cases ha
  | none =>
    rw [ht, Option.map_eq_none_iff] at hx
    simp only [contentAfter, ht] at hhead
    simp only [PageHistory, hx] at hpage
    have hstate : l.stores.db.currentState p = start.stores.db.currentState p := by
      simp only [Db.currentState, hpage.1]
    refine ⟨fun r hr => ?_, fun ha => ?_⟩
    · rw [hhead]
      exact hs.revision r (hstate ▸ hr)
    · rw [hhead]
      exact hs.absent (hstate ▸ ha)

/-- **What a write replaces in HEAD.** Every write that succeeds has landed
while its precondition held of the row of its page; and if the last commit of
the page was recorded then, it replaced what its condition named. -/
theorem replaced_in_head {v : Service} {stores : Stores} {as : List Action} {s : State} {t : Nat}
    (htied : ∀ p, validatePath p = .ok () → Tied v.wiki stores p) (hr : v.run (.opened stores) as = some s)
    (ht : t ∈ s.succeeded) :
    ∃ s₁ s₂, Landing v (.opened stores) as s t s₁ s₂ ∧
      (v.req t).precondition.Holds (s₁.stores.db.currentState (v.req t).path) ∧
      (lastTo v (v.req t).path s₁.ledger.landed = lastTo v (v.req t).path s₁.ledger.succeeded →
        ReplacesNamed v s₁.stores t) := by
  obtain ⟨s₁, s₂, hland⟩ := exists_landing hr ht
  obtain ⟨as₁, a, as₂, -, hr₁, -⟩ := hland.run
  obtain ⟨rel, parent, hs₁⟩ := hland.before
  have hopen := Serving.opened v stores
  have hsteps := hopen.steps hr₁
  have hopened : (State.opened stores).ledger.Opened := ⟨rfl, rfl⟩
  have hcur := (hopen.run hr₁).ordered.current hs₁
  have hpre := hsteps.checked hopened.checked t _ hcur (by simp [Stage.rank])
  refine ⟨s₁, s₂, hland, hpre, fun hlast => ?_⟩
  obtain ⟨commits, recorded, h⟩ := hsteps.history hopened
  have hc := hsteps.contents hopened
  have hfiled : t ∈ s₁.ledger.filed := by
    refine List.mem_append_right _ ?_
    rw [hcur]
    simp [running, Stage.rank]
  obtain ⟨hv, -, hp⟩ := hc.placed t hfiled
  have htie : Tied v.wiki s₁.stores (v.req t).path := hc.tied h.db hv hp hlast (htied _ hv)
  refine ⟨fun r hr => htie.revision r ?_, fun ha => htie.absent ?_⟩
  · rw [hr] at hpre
    exact hpre
  · rw [ha] at hpre
    exact hpre

/-- Nothing is out of step in a new wiki. -/
theorem tied_of_new {w : Wiki} {stores : Stores} {time : Int} {p : Text} (hgit : stores.git = [seedCommit time])
    (hdb : stores.db.pages.rows = []) (hv : validatePath p = .ok ()) : Tied w stores p := by
  have hempty : stores.db.currentState p = .absent := Db.records_of_empty (w := w) hdb p
  refine ⟨fun r hr => ?_, fun _ => hgit ▸ headBlob_seed hv w time⟩
  rw [hempty] at hr
  cases hr

theorem replaced_in_head_small :
    ∃ s, Service.small.run (.opened (.small none)) (Action.serve 0 ++ Action.serve 4) = some s ∧
      ∃ s₁ s₂, Landing Service.small (.opened (.small none)) (Action.serve 0 ++ Action.serve 4) s 4 s₁ s₂ ∧
        (Service.small.req 4).precondition.Holds (s₁.stores.db.currentState (Service.small.req 4).path) ∧
        (lastTo Service.small (Service.small.req 4).path s₁.ledger.landed =
            lastTo Service.small (Service.small.req 4).path s₁.ledger.succeeded →
          ReplacesNamed Service.small s₁.stores 4) := by
  obtain ⟨s, hs⟩ : ∃ s, Service.small.run (.opened (.small none))
      (Action.serve 0 ++ Action.serve 4) = some s := ⟨_, rfl⟩
  exact ⟨s, hs, replaced_in_head (fun _ => tied_of_new rfl rfl) hs (by cases hs; decide)⟩

/-- **A row behind HEAD.** A transaction fails after its commit has landed.
The write that names the row's revision then replaces a commit of another
one, and a write that insists on a new page replaces a page. -/
theorem behind_head_replaced :
    (∃ as s s₁ s₂, Landing Service.small (.opened (.small none)) as s 4 s₁ s₂ ∧ 4 ∈ s.succeeded ∧
      headBlob s₁.stores.git (Wiki.small.pageFile "notes".toList) = some (Text.utf8 "two".toList) ∧
      ¬ ReplacesNamed Service.small s₁.stores 4) ∧
    ∃ as s s₁ s₂, Landing Service.small (.opened (.small none)) as s 3 s₁ s₂ ∧ 3 ∈ s.succeeded ∧
      headBlob s₁.stores.git (Wiki.small.pageFile "notes".toList) = some (Text.utf8 "one".toList) ∧
      ¬ ReplacesNamed Service.small s₁.stores 3 := by
  refine ⟨⟨Action.serve 0 ++ Action.unrecorded 1 ++ Action.serve 4, ?_⟩,
    ⟨Action.unrecorded 0 ++ Action.serve 3, ?_⟩⟩
  · refine ⟨_, _, _, ⟨⟨Action.serve 0 ++ Action.unrecorded 1 ++ [.call 4, .grant, .accept 4] ++
      List.replicate 6 (.advance 4 ⟨5, []⟩), .advance 4 ⟨5, []⟩, [.advance 4 ⟨5, []⟩, .release 4],
        rfl, rfl, rfl, rfl⟩,
      ⟨_, _, rfl⟩, ⟨_, rfl⟩⟩, by decide, rfl, fun h => ?_⟩
    obtain ⟨b, hb, hr⟩ := h.1 _ rfl
    cases hb
    exact absurd hr (by decide)
  · refine ⟨_, _, _, ⟨⟨Action.unrecorded 0 ++ [.call 3, .grant, .accept 3] ++
      List.replicate 6 (.advance 3 ⟨4, []⟩), .advance 3 ⟨4, []⟩, [.advance 3 ⟨4, []⟩, .release 3],
        rfl, rfl, rfl, rfl⟩,
      ⟨_, _, rfl⟩, ⟨_, rfl⟩⟩, by decide, rfl, fun h => ?_⟩
    exact absurd (h.2 rfl) (by decide)

end Wikikiki
