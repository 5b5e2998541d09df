/-
Optimistic concurrency: every page is a register with conditional writes,
which the writers of it attempt one after the other in the order of the lock.

The check reads the row inside the lock, and the lock is kept until the row is
replaced. So the precondition that a write passed still holds when its
transaction commits (`Ledger.Checked`), and the attempts that ended are a
serial run of the register (`Sequential.serial`), whatever failed beside them.
-/
import Wikikiki.Recorded

namespace Wikikiki

/-! ## Writes as attempts on a register -/

def Outcome.isDone : Outcome → Bool
  | .done _ => true
  | _ => false

/-- The precondition decided how the write ended. -/
def Outcome.decided : Outcome → Bool
  | .done _ | .refused (.preconditionFailed _) => true
  | _ => false

/-- The writes to the page that its precondition decided. -/
def Ledger.attempts (v : Service) (p : Text) (l : Ledger) : List (Nat × Outcome) :=
  l.log.filter fun x => (v.req x.1).path = p ∧ x.2.decided = true

abbrev Service.cond (v : Service) (t : Nat) : Register.Cond Text := (v.req t).precondition.cond

abbrev Service.value (v : Service) (t : Nat) : Text := (v.req t).content

/-- What the page holds after some attempts on it, where it held `was` before
them. -/
abbrev Service.held (v : Service) (was : Option Text) (xs : List (Nat × Outcome)) : Option Text :=
  Register.content (fun x => v.value x.1) (fun x => x.2.isDone = true) was xs

/-- The pages' rows record the contents `init`. -/
def Db.Records (w : Wiki) (db : Db) (init : Text → Option Text) : Prop :=
  ∀ p, db.currentState p = .ofContent w.contentHash (init p)

/-- An empty database records that there are no pages. -/
theorem Db.records_of_empty {w : Wiki} {db : Db} (h : db.pages.rows = []) : db.Records w fun _ => none := by
  intro p
  have hf : db.findPage p = none := Db.findPage_eq_none.2 (by rw [h]; simp)
  simp [Db.currentState, hf, CurrentState.ofContent]

/-- What the current write has passed still holds. -/
def Ledger.Checked (v : Service) (l : Ledger) : Prop :=
  ∀ t stage, l.current = some (t, stage) → 3 ≤ stage.rank →
    (v.req t).precondition.Holds (l.stores.db.currentState (v.req t).path)

/-- The attempts were decided one after the other, on pages that held `init`
before them. -/
structure Sequential (v : Service) (init : Text → Option Text) (l : Ledger) : Prop where
  state : ∀ p, l.stores.db.currentState p = .ofContent v.wiki.contentHash (v.held (init p) (l.attempts v p))
  serial : ∀ p, Register.Serial (fun x => v.cond x.1) (fun x => v.value x.1) v.wiki.contentHash
    (fun x => x.2.isDone = true) (init p) (l.attempts v p)

section

variable {v : Service} {init : Text → Option Text} {l l' : Ledger} {s s' : Stores}
  {log : List (Nat × Outcome)}
  {t : Nat} {p : Text}

theorem Ledger.Opened.checked (h : l.Opened) : l.Checked v := by
  intro t stage hc
  rw [h.2] at hc
  cases hc

theorem Ledger.Step.checked (hstep : Step v l l') (h : l.Checked v) : l'.Checked v := by
  intro u stage' hc hr
  cases hstep with
  | start _ _ =>
    cases hc
    exact absurd hr (by decide)
  | go he =>
    cases hc
    have hrank := he.rank_go
    cases he with
    | check hp => exact hp
    | layer | actor => exact absurd hr (by decide)
    | _ => exact h _ _ rfl (by simp [Stage.rank])
  | stop _ => cases hc
  | admin _ _ => exact h u stage' hc hr

theorem Ledger.Steps.checked (h : Steps v l l') (hl : l.Checked v) : l'.Checked v := by
  induction h with
  | refl => exact hl
  | tail _ hstep ih => exact hstep.checked ih

theorem Ledger.Opened.sequential (h : l.Opened) (hdb : l.stores.db.Records v.wiki init) :
    Sequential v init l := by
  obtain ⟨s, log, current⟩ := l
  obtain ⟨rfl, rfl⟩ := h
  exact ⟨hdb, fun p => Register.serial_nil⟩

/-- The precondition as the check sees it is a condition on what the page
holds. -/
theorem Sequential.holds_iff (h : Sequential v init l) (t : Nat) :
    (v.req t).precondition.Holds (l.stores.db.currentState (v.req t).path) ↔
      (v.cond t).Holds v.wiki.contentHash (v.held (init (v.req t).path) (l.attempts v (v.req t).path)) := by
  rw [h.state, Precondition.holds_ofContent]

/-- Nothing ended, and the rows are the same. -/
theorem Sequential.same (h : Sequential v init l) (hlog : l'.log = l.log)
    (hdb : l'.stores.db.pages = l.stores.db.pages) : Sequential v init l' := by
  have hattempts : ∀ p, l'.attempts v p = l.attempts v p := fun p => by rw [Ledger.attempts, hlog]; rfl
  refine ⟨fun p => ?_, fun p => hattempts p ▸ h.serial p⟩
  rw [hattempts, ← h.state p]
  simp only [Db.currentState, Db.findPage, hdb]

theorem attempts_concat (v : Service) (s s' : Stores) (log : List (Nat × Outcome))
    (c : Option (Nat × Stage)) (t : Nat) (o : Outcome) (p : Text) :
    Ledger.attempts v p ⟨s', log ++ [(t, o)], none⟩ =
      Ledger.attempts v p ⟨s, log, c⟩ ++
        if (v.req t).path = p ∧ o.decided = true then [(t, o)] else [] := by
  simp only [Ledger.attempts, List.filter_append, List.filter_cons, List.filter_nil, decide_eq_true_eq]

/-- A write ends that its precondition did not decide. -/
theorem Sequential.undecided {stage : Stage} {o : Outcome} (h : Sequential v init ⟨s, log, some (t, stage)⟩)
    (ho : o.decided = false) (hdb : s'.db = s.db) : Sequential v init ⟨s', log ++ [(t, o)], none⟩ := by
  have hattempts : ∀ p, Ledger.attempts v p ⟨s', log ++ [(t, o)], none⟩ =
      Ledger.attempts v p ⟨s, log, some (t, stage)⟩ := fun p => by
    rw [attempts_concat v s s' log (some (t, stage)), if_neg (by simp [ho]), List.append_nil]
  refine ⟨fun p => ?_, fun p => hattempts p ▸ h.serial p⟩
  rw [hattempts, ← h.state p]
  simp only [hdb]

/-- A write ends that its precondition decided, as the condition on what the
page holds wants it. -/
theorem Sequential.decided {stage : Stage} {o : Outcome} (h : Sequential v init ⟨s, log, some (t, stage)⟩)
    (ho : o.decided = true)
    (hiff : o.isDone = true ↔ (v.req t).precondition.Holds (s.db.currentState (v.req t).path))
    (hself : s'.db.currentState (v.req t).path =
      if o.isDone then .present (some (v.wiki.contentHash (v.value t)))
      else s.db.currentState (v.req t).path)
    (hother : ∀ p, p ≠ (v.req t).path → s'.db.currentState p = s.db.currentState p) :
    Sequential v init ⟨s', log ++ [(t, o)], none⟩ := by
  have hconcat := fun p => attempts_concat v s s' log (some (t, stage)) t o p
  refine ⟨fun p => ?_, fun p => ?_⟩
  · by_cases hp : p = (v.req t).path
    · rw [hp, hconcat, if_pos ⟨rfl, ho⟩, Service.held, Register.content_snoc]
      refine hself.trans ?_
      split
      · rfl
      · exact h.state _
    · rw [hconcat, if_neg (fun he => hp he.1.symm), List.append_nil, ← h.state p]
      exact hother p hp
  · rw [hconcat]
    split
    next he => exact (h.serial p).snoc (hiff.trans (he.1 ▸ h.holds_iff t))
    next => rw [List.append_nil]; exact h.serial p

theorem Ledger.Step.sequential (hstep : Step v l l') (hc : l.Checked v) (h : Sequential v init l) :
    Sequential v init l' := by
  cases hstep with
  | start _ _ => exact h.same rfl rfl
  | go he => cases he <;> exact h.same rfl rfl
  | @stop s s' log t stage o he =>
    cases he with
    | invalid hlt hpf _ =>
      refine h.undecided ?_ rfl
      unfold Outcome.decided
      split
      · next heq => cases heq
      · next heq => cases heq; exact absurd rfl (hpf _)
      · rfl
    | failed _ _ => exact h.undecided rfl rfl
    | stale hn =>
      refine h.decided rfl ⟨fun hd => ?_, fun hh => absurd hh hn⟩ rfl fun _ _ => rfl
      exact absurd hd (by simp [Outcome.isDone])
    | project hpr =>
      exact h.decided rfl ⟨fun _ => hc _ _ rfl (by simp [Stage.rank]), fun _ => rfl⟩ hpr.currentState_self
        fun p hp => hpr.currentState_other hp
  | admin _ _ => exact h.same rfl rfl

theorem Ledger.Steps.sequential (h : Steps v l l') (hl : l.Checked v) (hs : Sequential v init l) :
    Sequential v init l' := by
  induction h with
  | refl => exact hs
  | tail hsteps hstep ih => exact hstep.sequential (Steps.checked hsteps hl) ih

/-- The log only grows. -/
theorem Ledger.Steps.log_extends (h : Steps v l l') : l.log <+: l'.log := by
  induction h with
  | refl => exact List.prefix_rfl
  | tail _ hstep ih =>
    refine ih.trans ?_
    cases hstep with
    | stop _ => exact List.prefix_append _ _
    | _ => exact List.prefix_rfl

theorem isDone_iff {o : Outcome} : o.isDone = true ↔ 8 ≤ o.rank := by
  rw [rank_eq_eight]
  cases o <;> simp [Outcome.isDone]

/-- The attempts that won are the writes to the page that succeeded. -/
theorem winners_eq (v : Service) (l : Ledger) (p : Text) :
    ((l.attempts v p).filter fun x => x.2.isDone = true).map Prod.fst =
      l.succeeded.filter fun t => (v.req t).path = p := by
  rw [l.succeeded_eq, ended, Ledger.attempts, List.filter_map, List.filter_filter, List.filter_filter]
  refine congrArg _ (List.filter_congr fun x _ => ?_)
  have hdec : x.2.isDone = true → x.2.decided = true := by
    cases x.2 <;> simp [Outcome.isDone, Outcome.decided]
  rw [Bool.eq_iff_iff]
  simp only [Function.comp_apply, Bool.and_eq_true, decide_eq_true_eq, ← isDone_iff]
  tauto

end

/-! ## The states of the service -/

/-- What the page holds after some writes that succeeded, where it held `init`
before them. -/
def Service.content (v : Service) (init : Text → Option Text) (ts : List Nat) (p : Text) : Option Text :=
  match lastTo v p ts with
  | some t => some (v.value t)
  | none => init p

section

variable {v : Service} {init : Text → Option Text} {s s' : State}

theorem content_eq_held (v : Service) (init : Text → Option Text) (s : State) (p : Text) :
    v.content init s.succeeded p = v.held (init p) (s.ledger.attempts v p) := by
  rw [Service.content, lastTo, ← s.ledger_succeeded, ← winners_eq, List.getLast?_map, Service.held,
    Register.content]
  cases ((s.ledger.attempts v p).filter fun x => decide (x.2.isDone = true)).getLast? <;> rfl

/-- The check of a write passes exactly when its condition holds. -/
theorem Sequential.check {t : Nat} {i : Input} (h : Sequential v init s.ledger)
    (hs : s.task t = .running .checkPrecondition)
    (hascii : ∀ want, (v.req t).precondition = .revision want → Text.Ascii want)
    (hstep : step v s (.advance t i) = some s') :
    ((v.cond t).Holds v.wiki.contentHash (v.content init s.succeeded (v.req t).path) ∧
      s'.task t = .running .contentRoot) ∨
      (¬ (v.cond t).Holds v.wiki.contentHash (v.content init s.succeeded (v.req t).path) ∧
        ∃ msg, s'.task t = .returning (.refused (.preconditionFailed msg))) := by
  have hiff := h.holds_iff t
  rw [← content_eq_held] at hiff
  simp only [step, hs, Option.some.injEq] at hstep
  rw [← hiff, ← hstep]
  simp only [State.setTask, Function.update_self, Wiki.exec]
  by_cases hp : (v.req t).precondition.Holds (s.ledger.stores.db.currentState (v.req t).path)
  · refine .inl ⟨hp, ?_⟩
    rw [show s.stores.db = s.ledger.stores.db from rfl, Precondition.check_eq_ok.2 hp]
    rfl
  · refine .inr ⟨hp, ?_⟩
    have hcut : ¬ (v.req t).precondition.CutsCharacter
        (s.ledger.stores.db.currentState (v.req t).path) := by
      refine Precondition.not_cutsCharacter hascii fun cur hcur => ?_
      rw [h.state] at hcur
      cases hheld : v.held (init (v.req t).path) (s.ledger.attempts v (v.req t).path) with
      | none => rw [hheld] at hcur; cases hcur
      | some content =>
        rw [hheld] at hcur
        cases hcur
        exact (v.wiki.isSha256_contentHash content).ascii
    rcases Precondition.check_of_not_holds hp with ⟨msg, -, he⟩ | ⟨hc, -⟩
    · refine ⟨msg, ?_⟩
      rw [show s.stores.db = s.ledger.stores.db from rfl, he]
      rfl
    · exact absurd hc hcut

/-! ## Races -/

/-- Some writes to a page run to their ends between two states: they are
valid apart from their preconditions, no store fails them, and nobody else
succeeds on the page. -/
structure Race (v : Service) (p : Text) (racers : List Nat) (s s' : State) : Prop where
  run : ∃ as, v.run s as = some s' ∧ ∀ layers actors, .admin layers actors ∉ as
  valid : ∀ t ∈ racers, (v.req t).path = p ∧ checkLayer s.stores.db (v.req t) = .ok () ∧
    checkActor s.stores.db (v.req t) = .ok ()
  fresh : ∀ t ∈ racers, t ∉ s.served
  ended : ∀ t ∈ racers, ∃ o, (s'.task t).outcome = some o ∧ ∀ stage e, o ≠ .failed stage e
  alone : ∀ t ∈ s'.succeeded, (v.req t).path = p → t ∈ s.succeeded ∨ t ∈ racers

/-- Layers and actors are as they were, and only its precondition has refused
a racer. -/
structure Admitted (racers : List Nat) (db : Db) (s : State) : Prop where
  layers : s.stores.db.layers = db.layers
  actors : s.stores.db.actors = db.actors
  refused : ∀ t ∈ racers, ∀ e, (s.task t).outcome = some (.refused e) → ∃ msg, e = .preconditionFailed msg

theorem Wiki.Effect.tables {w : Wiki} {req : WriteRequest} {stage : Stage} {r r' : Stores} {n : Next}
    (h : w.Effect req stage r n r') : r'.db.layers = r.db.layers ∧ r'.db.actors = r.db.actors := by
  cases h with
  | project hpr => exact ⟨hpr.layers, hpr.actors⟩
  | _ => exact ⟨rfl, rfl⟩

/-- Who refuses a write. -/
theorem Wiki.Effect.refused {w : Wiki} {req : WriteRequest} {stage : Stage} {r r' : Stores} {e : AppError}
    (h : w.Effect req stage r (.stop (.refused e)) r') :
    (∃ msg, e = .preconditionFailed msg) ∨ checkLayer r.db req = .error e ∨
      checkActor r.db req = .error e := by
  cases h with
  | stale _ => exact .inl ⟨_, rfl⟩
  | invalid _ _ hbad => exact .inr hbad

theorem checkLayer_congr {db db' : Db} (h : db'.layers = db.layers) (req : WriteRequest) :
    checkLayer db' req = checkLayer db req := by
  unfold checkLayer Db.layerIsActive
  rw [h]

theorem checkActor_congr {db db' : Db} (h : db'.actors = db.actors) (req : WriteRequest) :
    checkActor db' req = checkActor db req := by
  unfold checkActor Db.actorById
  rw [h]

theorem Admitted.step {racers : List Nat} {db : Db} {a : Action} (h : Admitted racers db s)
    (hv : ∀ t ∈ racers, checkLayer db (v.req t) = .ok () ∧ checkActor db (v.req t) = .ok ())
    (ha : ∀ layers actors, a ≠ .admin layers actors) (hm : Moves v s s' a) : Admitted racers db s' := by
  cases hm with
  | quiet hstores _ _ hout =>
    exact ⟨by rw [hstores, h.layers], by rw [hstores, h.actors],
      fun t ht e he => h.refused t ht e (hout t ▸ he)⟩
  | accepted u hs hstores htask _ =>
    refine ⟨by rw [hstores, h.layers], by rw [hstores, h.actors], fun t ht e he => ?_⟩
    by_cases htu : t = u
    · rw [htask, htu, Function.update_self] at he
      cases he
    · rw [htask, Function.update_of_ne htu] at he
      exact h.refused t ht e he
  | worked u stage n hs heff htask _ =>
    refine ⟨heff.tables.1.trans h.layers, heff.tables.2.trans h.actors, fun t ht e he => ?_⟩
    by_cases htu : t = u
    · subst htu
      rw [htask, Function.update_self] at he
      cases n with
      | go stage' => cases he
      | stop o =>
        cases he
        rcases heff.refused with hpf | hbad
        · exact hpf
        · -- The checks that come first read the tables that did not change.
          rw [checkLayer_congr h.layers, checkActor_congr h.actors, (hv t ht).1, (hv t ht).2] at hbad
          simp at hbad
    · rw [htask, Function.update_of_ne htu] at he
      exact h.refused t ht e he
  | admin layers actors he => exact absurd he (ha layers actors)

theorem Race.admitted {p : Text} {racers : List Nat} (h : Race v p racers s s') (hs : Serving v s) :
    Admitted racers s.stores.db s' := by
  obtain ⟨as, hr, hadmin⟩ := h.run
  have hinit : Admitted racers s.stores.db s := by
    refine ⟨rfl, rfl, fun t ht e he => absurd ?_ (h.fresh t ht)⟩
    exact (hs.ordered.served t).2 (.inr (by rw [he]; simp))
  refine (Run.invariant_of (P := fun a => ∀ layers actors, a ≠ .admin layers actors)
    (I := fun s'' => Serving v s'' ∧ Admitted racers s.stores.db s'') (fun ha hstep hI => ?_)
    (fun a ha layers actors he => by subst he; exact hadmin layers actors ha) hr ⟨hs, hinit⟩).2
  exact ⟨hI.1.step hstep, hI.2.step (fun t ht => (h.valid t ht).2) ha (step_moves hI.1.locked hstep)⟩

/-- Every racer ended as its precondition decided. -/
theorem Race.decided {p : Text} {racers : List Nat} (h : Race v p racers s s') (hs : Serving v s) {t : Nat}
    (ht : t ∈ racers) : ∃ o, (s'.task t).outcome = some o ∧ o.decided = true := by
  obtain ⟨o, ho, hne⟩ := h.ended t ht
  refine ⟨o, ho, ?_⟩
  cases o with
  | done info => rfl
  | failed stage e => exact absurd rfl (hne stage e)
  | refused e =>
    obtain ⟨msg, rfl⟩ := (h.admitted hs).refused t ht e ho
    rfl

theorem mem_succeeded {t : Nat} : t ∈ s.succeeded ↔ ∃ info, (t, .done info) ∈ s.log := by
  simp only [State.succeeded, List.mem_filter, done_iff, mem_log, exists_and_left]

/-- Each write ends once. -/
theorem Ordered.log_nodup (h : Ordered s) : (s.log.map Prod.fst).Nodup := by
  refine h.nodup.sublist ?_
  have hsub : ∀ served : List Nat, ((logOf s.task served).map Prod.fst).Sublist served := by
    intro served
    induction served with
    | nil => exact List.Sublist.refl _
    | cons t served ih =>
      simp only [logOf] at ih ⊢
      cases ho : (s.task t).outcome with
      | none => simpa [ho] using ih.cons t
      | some o => simpa [ho] using ih
  exact hsub s.served

/-- What the log of a race adds to the log before it: how each racer ended,
and no one else's success on the page. -/
theorem Race.log_eq {p : Text} {racers : List Nat} (h : Race v p racers s s') (hs : Serving v s) :
    ∃ new, s'.log = s.log ++ new ∧
      (∀ t ∈ racers, ∃ o, (s'.task t).outcome = some o ∧ (t, o) ∈ new ∧ o.decided = true) ∧
      ∀ x ∈ new, (v.req x.1).path = p → x.2.isDone = true → x.1 ∈ racers := by
  obtain ⟨as, hr, -⟩ := h.run
  have hs' := hs.run hr
  obtain ⟨new, hlog⟩ : s.log <+: s'.log := (hs.steps hr).log_extends
  have hnd := hs'.ordered.log_nodup
  rw [← hlog, List.map_append, List.nodup_append] at hnd
  refine ⟨new, hlog.symm, fun t ht => ?_, fun x hx hp hd => ?_⟩
  · obtain ⟨o, ho, hd⟩ := h.decided hs ht
    have hserved : t ∈ s'.served := (hs'.ordered.served t).2 (.inr (by rw [ho]; simp))
    have hm : (t, o) ∈ s.log ++ new := hlog ▸ mem_log.2 ⟨hserved, ho⟩
    exact ⟨o, ho, (List.mem_append.1 hm).resolve_left fun hm => h.fresh t ht (mem_log.1 hm).1, hd⟩
  · obtain ⟨info, hinfo⟩ := rank_eq_eight.1 (isDone_iff.1 hd)
    have hm : (x.1, .done info) ∈ s'.log := by rw [← hinfo, ← hlog]; exact List.mem_append_right _ hx
    rcases h.alone x.1 (mem_succeeded.2 ⟨info, hm⟩) hp with hold | hr
    · obtain ⟨info', hold⟩ := mem_succeeded.1 hold
      exact absurd rfl (hnd.2.2 x.1 (List.mem_map.2 ⟨_, hold, rfl⟩) x.1 (List.mem_map_of_mem hx))
    · exact hr

/-- The attempts since a state are serial by themselves, on what the page held
then. -/
theorem Sequential.since {new : List (Nat × Outcome)} (h : Sequential v init s'.ledger)
    (hlog : s'.log = s.log ++ new) (p : Text) :
    Register.Serial (fun x => v.cond x.1) (fun x => v.value x.1) v.wiki.contentHash
      (fun x => x.2.isDone = true)
      (v.content init s.succeeded p) (new.filter fun x => (v.req x.1).path = p ∧ x.2.decided = true) := by
  have hserial := h.serial p
  have hsplit : s'.ledger.attempts v p =
      s.ledger.attempts v p ++ new.filter fun x => (v.req x.1).path = p ∧ x.2.decided = true := by
    rw [Ledger.attempts, show s'.ledger.log = s.log ++ new from hlog, List.filter_append]
    rfl
  rw [hsplit] at hserial
  rw [content_eq_held]
  exact hserial.append_right

/-- **One winner.** -/
theorem Race.one_winner {p c : Text} {racers : List Nat} (h : Race v p racers s s') (hs : Serving v s)
    (hchecked : s.ledger.Checked v) (hseq : Sequential v init s.ledger) (hne : racers ≠ [])
    (hc : v.content init s.succeeded p = some c)
    (hpre : ∀ t ∈ racers, (v.req t).precondition = .revision (v.wiki.contentHash c) ∧
      v.wiki.contentHash (v.value t) ≠ v.wiki.contentHash c) :
    ∃ t ∈ racers, t ∈ s'.succeeded ∧
      ∀ u ∈ racers, u ≠ t → ∃ msg, (s'.task u).outcome = some (.refused (.preconditionFailed msg)) := by
  obtain ⟨as, hr, -⟩ := h.run
  obtain ⟨new, hlog, hin, hwin⟩ := h.log_eq hs
  have hrace := ((hs.steps hr).sequential hchecked hseq).since hlog p
  rw [hc] at hrace
  have hcond : ∀ t ∈ racers, v.cond t = .revision (v.wiki.contentHash c) := fun t ht => by
    rw [Service.cond, (hpre t ht).1]
    rfl
  have hattempt : ∀ {t o}, t ∈ racers → (t, o) ∈ new → o.decided = true →
      (t, o) ∈ new.filter fun x => (v.req x.1).path = p ∧ x.2.decided = true := fun ht hm hd =>
    List.mem_filter.2 ⟨hm, by simpa using ⟨(h.valid _ ht).1, hd⟩⟩
  obtain ⟨t₀, ht₀⟩ := List.exists_mem_of_ne_nil racers hne
  obtain ⟨o₀, -, hm₀, hd₀⟩ := hin t₀ ht₀
  obtain ⟨k, hk, hwk, honly⟩ := hrace.one_winner ⟨c, rfl, rfl⟩ (hattempt ht₀ hm₀ hd₀)
    (hcond t₀ ht₀) fun x hx hd => by
    have hf := List.mem_filter.1 hx
    simp only [decide_eq_true_eq] at hf
    have ht := hwin x hf.1 hf.2.1 hd
    exact ⟨hcond _ ht, (hpre _ ht).2⟩
  have hkf := List.mem_filter.1 hk
  simp only [decide_eq_true_eq] at hkf
  obtain ⟨info, hinfo⟩ := rank_eq_eight.1 (isDone_iff.1 hwk)
  refine ⟨k.1, hwin k hkf.1 hkf.2.1 hwk, mem_succeeded.2 ⟨info, ?_⟩, fun u hu hne => ?_⟩
  · rw [← hinfo, hlog]
    exact List.mem_append_right _ hkf.1
  · obtain ⟨o, ho, hm, hd⟩ := hin u hu
    cases o with
    | refused e =>
      obtain ⟨msg, rfl⟩ := (h.admitted hs).refused u hu e ho
      exact ⟨msg, ho⟩
    | done info' => exact absurd (congrArg Prod.fst (honly _ (hattempt hu hm hd) rfl)) hne
    | failed stage e => cases hd

end

/-! ## The guarantee -/

/-- The writes to a page that succeeded are a serial run of it by themselves. -/
theorem Sequential.succeeded {v : Service} {init : Text → Option Text} {s : State}
    (h : Sequential v init s.ledger) (p : Text) :
    Register.Serial v.cond v.value v.wiki.contentHash (fun _ => True) (init p)
      (s.succeeded.filter fun t => (v.req t).path = p) := by
  have hw : Register.Serial v.cond v.value v.wiki.contentHash (fun _ => True) (init p) _ :=
    (h.serial p).winners
  rwa [winners_eq, s.ledger_succeeded] at hw

/-- A page is new only once. -/
theorem Sequential.absent_unique {v : Service} {init : Text → Option Text} {s : State}
    (h : Sequential v init s.ledger) {t u : Nat} (ht : t ∈ s.succeeded) (hu : u ∈ s.succeeded)
    (hp : (v.req t).path = (v.req u).path) (hct : (v.req t).precondition = .absent)
    (hcu : (v.req u).precondition = .absent) : t = u := by
  have hserial := h.succeeded (v.req u).path
  refine hserial.vacant_unique (List.mem_filter.2 ⟨ht, by simpa using hp⟩) (List.mem_filter.2 ⟨hu, by simp⟩)
    trivial trivial ?_ ?_
  · rw [Service.cond, hct]; rfl
  · rw [Service.cond, hcu]; rfl

/-- A revision that is named twice was written in between. -/
theorem Sequential.revision_between {v : Service} {init : Text → Option Text} {s : State}
    (h : Sequential v init s.ledger) {pre mid post : List Nat} {t u : Nat} {r : Text}
    (hl : s.succeeded = pre ++ t :: mid ++ u :: post) (hp : (v.req t).path = (v.req u).path)
    (hcu : (v.req u).precondition = .revision r) : v.wiki.contentHash (v.value t) = r ∨
      ∃ k ∈ mid, (v.req k).path = (v.req t).path ∧ v.wiki.contentHash (v.value k) = r := by
  have hserial := h.succeeded (v.req t).path
  have hsplit : (s.succeeded.filter fun k => (v.req k).path = (v.req t).path) =
      (pre.filter fun k => (v.req k).path = (v.req t).path) ++ t ::
        (mid.filter fun k => (v.req k).path = (v.req t).path) ++ u ::
        post.filter fun k => (v.req k).path = (v.req t).path := by
    rw [hl]
    simp [hp]
  have hbetween := hserial.revision_between (r := r) hsplit trivial trivial (by rw [Service.cond, hcu]; rfl)
  simpa [and_assoc] using hbetween

/-- **Optimistic concurrency.** In every state of every run, whatever has
failed, where the rows recorded `init` at the start (an empty wiki: nothing):

a write at its check passes it exactly when its precondition holds of the last
write to the page that succeeded;

at most one write that insisted on a new page succeeded on a page;

of two writes to a page that succeeded and named the revision `r`, the first
one wrote a content of that revision, or a write between them did;

and of the writers in a race that name the page's revision and bring another
content, which has another hash, exactly one succeeds. -/
theorem optimistic_concurrency {v : Service} {stores : Stores} {init : Text → Option Text}
    {as : List Action} {s : State} (hinit : stores.db.Records v.wiki init)
    (hr : v.run (.opened stores) as = some s) :
    (∀ t i s', s.task t = .running .checkPrecondition →
      (∀ want, (v.req t).precondition = .revision want → Text.Ascii want) →
        step v s (.advance t i) = some s' →
        ((v.cond t).Holds v.wiki.contentHash (v.content init s.succeeded (v.req t).path) ∧
          s'.task t = .running .contentRoot) ∨
        (¬ (v.cond t).Holds v.wiki.contentHash (v.content init s.succeeded (v.req t).path) ∧
          ∃ msg, s'.task t = .returning (.refused (.preconditionFailed msg)))) ∧
    (∀ t ∈ s.succeeded, ∀ u ∈ s.succeeded, (v.req t).path = (v.req u).path →
      (v.req t).precondition = .absent → (v.req u).precondition = .absent → t = u) ∧
    (∀ r pre t mid u post, s.succeeded = pre ++ t :: mid ++ u :: post → (v.req t).path = (v.req u).path →
      (v.req t).precondition = .revision r → (v.req u).precondition = .revision r →
        v.wiki.contentHash (v.value t) = r ∨
          ∃ k ∈ mid, (v.req k).path = (v.req t).path ∧ v.wiki.contentHash (v.value k) = r) ∧
    (∀ p c racers s', Race v p racers s s' → racers ≠ [] → v.content init s.succeeded p = some c →
      (∀ t ∈ racers, (v.req t).precondition = .revision (v.wiki.contentHash c) ∧ v.value t ≠ c) →
      (∀ t ∈ racers, v.wiki.contentHash (v.value t) = v.wiki.contentHash c → v.value t = c) →
        ∃ t ∈ racers, t ∈ s'.succeeded ∧
          ∀ u ∈ racers, u ≠ t →
            ∃ msg, (s'.task u).outcome = some (.refused (.preconditionFailed msg))) := by
  have hopen := Serving.opened v stores
  have hs := hopen.run hr
  have hopened : (State.opened stores).ledger.Opened := ⟨rfl, rfl⟩
  have hchecked := (hopen.steps hr).checked hopened.checked
  have hseq := (hopen.steps hr).sequential hopened.checked (hopened.sequential hinit)
  refine ⟨fun t i s' => hseq.check, fun t ht u hu => hseq.absent_unique ht hu,
    fun r pre t mid u post hl hp _ hcu => hseq.revision_between hl hp hcu,
      fun p c racers s' hrace hne hc hpre hinj => ?_⟩
  exact hrace.one_winner hs hchecked hseq hne hc fun t ht =>
    ⟨(hpre t ht).1, fun heq => (hpre t ht).2 (hinj t ht heq)⟩

theorem optimistic_concurrency_small :
    ∃ s s', Service.small.run (.opened (.small none)) (Action.serve 0) = some s ∧
      Race Service.small "notes".toList [4, 5] s s' ∧
      ∃ t ∈ [4, 5], t ∈ s'.succeeded ∧
        ∀ u ∈ [4, 5], u ≠ t → ∃ msg, (s'.task u).outcome = some (.refused (.preconditionFailed msg)) := by
  obtain ⟨s, hs⟩ : ∃ s, Service.small.run (.opened (.small none)) (Action.serve 0) = some s := ⟨_, rfl⟩
  obtain ⟨s', hs'⟩ : ∃ s', Service.small.run s Action.compete = some s' := by cases hs; exact ⟨_, rfl⟩
  have hrace : Race Service.small "notes".toList [4, 5] s s' := by
    refine ⟨⟨_, hs', by simp [Action.compete, Action.work]⟩, ?_, ?_, ?_, ?_⟩
    all_goals cases hs; cases hs'
    all_goals simp only [List.mem_cons, List.not_mem_nil, or_false]
    · intro t hor
      rcases hor with rfl | rfl
      · exact ⟨rfl, rfl, rfl⟩
      · exact ⟨rfl, rfl, rfl⟩
    · intro t hor
      rcases hor with rfl | rfl
      · decide
      · decide
    · intro t hor
      rcases hor with rfl | rfl
      · exact ⟨_, rfl, by simp⟩
      · exact ⟨_, rfl, by simp⟩
    · decide
  refine ⟨s, s', hs, hrace, ?_⟩
  have hempty : (Db.small none).Records Wiki.small fun _ => none := Db.records_of_empty rfl
  refine (optimistic_concurrency hempty hs).2.2.2 _ "one".toList _ _ hrace (by simp)
    (by cases hs; rfl) ?_ ?_
  all_goals simp only [List.mem_cons, List.not_mem_nil, or_false]
  · intro t hor
    rcases hor with rfl | rfl
    · exact ⟨rfl, by decide⟩
    · exact ⟨rfl, by decide⟩
  · intro t hor
    rcases hor with rfl | rfl
    · exact fun h => absurd h (by decide)
    · exact fun h => absurd h (by decide)

end Wikikiki
