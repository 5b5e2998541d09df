/-
The system with its lock is the ledger: seen through `State.ledger`, every
step of it is a step of the ledger or none at all (`Moves.refines`).

The lock is what makes it so: `Locked` leaves one accepted and unfinished
write, and `Ordered` says that it is the last in the order in which they were
accepted. `Moves` is what the rest of the development knows of a step.
-/
import Wikikiki.Contents
import Wikikiki.Locking

namespace Wikikiki

/-! ## The order of the lock -/

/-- The accepted writes are those that run or have ended, and all but the
last have ended. -/
structure Ordered (s : State) : Prop where
  nodup : s.served.Nodup
  served : ∀ t, t ∈ s.served ↔ (s.task t).stage ≠ none ∨ (s.task t).outcome ≠ none
  ended : ∀ pre t, s.served = pre ++ [t] → ∀ u ∈ pre, (s.task u).stage = none

theorem State.opened_ordered (stores : Stores) : Ordered (.opened stores) :=
  ⟨List.nodup_nil, by simp [opened, Phase.stage, Phase.outcome], by simp [opened]⟩

section

variable {v : Service} {s s' : State} {task : Nat → Phase} {served : List Nat} {t : Nat} {ph : Phase}

/-- The stage and the outcome of every write, where one changes its phase to
one that shows the same. -/
theorem stage_update_same (h : ph.stage = (task t).stage) (u : Nat) :
    (Function.update task t ph u).stage = (task u).stage := by
  by_cases hu : u = t
  · subst hu; simpa using h
  · rw [Function.update_of_ne hu]

theorem outcome_update_same (h : ph.outcome = (task t).outcome) (u : Nat) :
    (Function.update task t ph u).outcome = (task u).outcome := by
  by_cases hu : u = t
  · subst hu; simpa using h
  · rw [Function.update_of_ne hu]

theorem logOf_congr {task' : Nat → Phase} (h : ∀ t ∈ served, (task' t).outcome = (task t).outcome) :
    logOf task' served = logOf task served :=
  List.filterMap_congr fun t ht => by rw [h t ht]

theorem logOf_update_notMem (h : t ∉ served) :
    logOf (Function.update task t ph) served = logOf task served :=
  logOf_congr fun u hu => by rw [Function.update_of_ne (by rintro rfl; exact h hu)]

theorem logOf_concat :
    logOf task (served ++ [t]) = logOf task served ++ ((task t).outcome.map (t, ·)).toList := by
  simp only [logOf, List.filterMap_append, List.filterMap_cons, List.filterMap_nil]
  cases (task t).outcome <;> rfl

theorem currentOf_concat : currentOf task (served ++ [t]) = (task t).stage.map (t, ·) := by
  simp [currentOf]

theorem currentOf_congr {task' : Nat → Phase} (h : ∀ t, (task' t).stage = (task t).stage) :
    currentOf task' served = currentOf task served := by
  simp only [currentOf, h]

/-- A running write was accepted last. -/
theorem Ordered.last (h : Ordered s) {stage : Stage} (hs : s.task t = .running stage) :
    ∃ pre, s.served = pre ++ [t] ∧ t ∉ pre := by
  have ht : t ∈ s.served := (h.served t).2 (.inl (by rw [hs]; simp [Phase.stage]))
  rcases List.eq_nil_or_concat s.served with he | ⟨pre, u, he⟩
  · rw [he] at ht; cases ht
  rw [List.concat_eq_append] at he
  rw [he, List.mem_append, List.mem_singleton] at ht
  rcases ht with ht | rfl
  · have := h.ended pre u he t ht
    rw [hs] at this
    cases this
  · have hnd := h.nodup
    rw [he, List.nodup_append] at hnd
    exact ⟨pre, he, fun hm => hnd.2.2 t hm t (by simp) rfl⟩

/-- A running write is the ledger's current one. -/
theorem Ordered.current (h : Ordered s) {stage : Stage} (hs : s.task t = .running stage) :
    s.ledger.current = some (t, stage) := by
  obtain ⟨pre, he, -⟩ := h.last hs
  simp [State.ledger, he, currentOf_concat, hs, Phase.stage]

/-- Once a write was handed the lock, none runs. -/
theorem Locked.not_running (h : Locked v s) (hs : s.task t = .granted) (u : Nat) :
    (s.task u).stage = none := by
  cases hu : s.task u with
  | running stage =>
    have ht : 0 < guardsOf s.task s.drain (.writer t) := by rw [guardsOf, hs]; decide
    have hu' : 0 < guardsOf s.task s.drain (.writer u) := by
      rw [guardsOf, hu, Phase.guards]
      split <;> decide
    cases h.lock.exclusive ht hu'
    rw [hs] at hu
    cases hu
  | _ => rfl

/-- A step of one call that shows the same stage and outcome. -/
theorem Ordered.same (h : Ordered s) {task' : Nat → Phase} (hst : ∀ u, (task' u).stage = (s.task u).stage)
    (hout : ∀ u, (task' u).outcome = (s.task u).outcome) {s' : State} (ht : s'.task = task')
    (hs : s'.served = s.served) : Ordered s' :=
  ⟨hs ▸ h.nodup, fun u => by rw [hs, ht, h.served, hst, hout],
    fun pre u he w hw => by rw [ht, hst]; exact h.ended pre u (hs ▸ he) w hw⟩

/-- The running write goes on or ends. -/
theorem Ordered.advance (h : Ordered s) {stage : Stage} (hs : s.task t = .running stage)
    (hph : ph.stage ≠ none ∨ ph.outcome ≠ none) {s' : State} (ht : s'.task = Function.update s.task t ph)
    (hserved : s'.served = s.served) : Ordered s' := by
  obtain ⟨pre, he, hpre⟩ := h.last hs
  refine ⟨hserved ▸ h.nodup, fun u => ?_, fun pre' u he' w hw => ?_⟩
  · by_cases hu : u = t
    · subst hu
      simpa [hserved, ht, he] using hph
    · rw [hserved, ht, Function.update_of_ne hu, h.served]
  · rw [hserved] at he'
    obtain ⟨rfl, hut⟩ := List.append_inj' (he.symm.trans he') rfl
    rw [ht, Function.update_of_ne (by rintro rfl; exact hpre hw)]
    exact h.ended pre t he w hw

/-- What a step can do to the stores and to the writes. -/
inductive Moves (v : Service) (s s' : State) (a : Action) : Prop
  | quiet (stores : s'.stores = s.stores) (served : s'.served = s.served)
      (stage : ∀ u, (s'.task u).stage = (s.task u).stage)
      (outcome : ∀ u, (s'.task u).outcome = (s.task u).outcome)
  | accepted (t : Nat) (hs : s.task t = .granted) (stores : s'.stores = s.stores)
      (task : s'.task = Function.update s.task t (.running .checkLayer))
      (served : s'.served = s.served ++ [t])
  | worked (t : Nat) (stage : Stage) (n : Next) (hs : s.task t = .running stage)
      (effect : v.wiki.Effect (v.req t) stage s.stores n s'.stores)
      (task : s'.task = Function.update s.task t n.phase) (served : s'.served = s.served)
  | admin (layers : List LayerRow) (actors : Table ActorRow) (action : a = .admin layers actors)
      (stores : s'.stores = { s.stores with db := { s.stores.db with layers, actors } })
      (task : s'.task = s.task) (served : s'.served = s.served)

/-- A call changes its phase to one that shows no more of the write. -/
theorem Moves.setTask {a : Action} (hs : s'.stores = s.stores) (hserved : s'.served = s.served)
    (ht : s'.task = Function.update s.task t ph) (hst : ph.stage = (s.task t).stage)
    (hout : ph.outcome = (s.task t).outcome) : Moves v s s' a :=
  .quiet hs hserved (fun u => by rw [ht, stage_update_same hst])
    (fun u => by rw [ht, outcome_update_same hout])

theorem step_moves {a : Action} (hl : Locked v s) (hstep : step v s a = some s') : Moves v s s' a := by
  cases step_cases hstep with
  | rejected ht _ | queued ht _ | abandoned ht | dropped ht | released ht =>
    exact .setTask rfl rfl rfl (by rw [ht]; rfl) (by rw [ht]; rfl)
  | granted hg =>
    have ht : s.task _ = .queued := hl.lock.grant_waits hg
    exact .setTask rfl rfl rfl (by rw [ht]; rfl) (by rw [ht]; rfl)
  | accepted ht => exact .accepted _ ht rfl rfl rfl
  | advanced ht he => exact .worked _ _ _ ht (Wiki.exec_effect he) rfl rfl
  | @failed t e l stage disk ht hd =>
    exact .worked t stage (.stop (.failed stage e)) ht (Wiki.leave_effect hd) rfl rfl
  | drains _ | detached _ | fetched _ | loaded _ | waits _ | drained _ =>
    exact .quiet rfl rfl (fun _ => rfl) (fun _ => rfl)
  | admin => exact .admin _ _ rfl rfl rfl rfl

theorem Moves.ordered {a : Action} (hm : Moves v s s' a) (hl : Locked v s) (h : Ordered s) :
    Ordered s' := by
  cases hm with
  | quiet _ hserved hst hout => exact h.same hst hout rfl hserved
  | admin _ _ _ _ ht hserved => exact h.same (fun _ => rfl) (fun _ => rfl) ht hserved
  | worked t stage n hs he ht hserved =>
    refine h.advance hs ?_ ht hserved
    cases n with
    | go stage' => exact .inl (by simp [Next.phase, Phase.stage])
    | stop o => exact .inr (by simp [Next.phase, Phase.outcome])
  | accepted t hs _ ht hserved =>
    have hnew : t ∉ s.served := fun hm => by
      have := (h.served t).1 hm
      simp [hs, Phase.stage, Phase.outcome] at this
    refine ⟨?_, fun u => ?_, fun pre u he w hw => ?_⟩
    · rw [hserved, List.nodup_append]
      exact ⟨h.nodup, by simp, fun a ha b hb => by rintro rfl; exact hnew (List.mem_singleton.1 hb ▸ ha)⟩
    · by_cases hu : u = t
      · subst hu; simp [hserved, ht, Phase.stage]
      · rw [hserved, ht, Function.update_of_ne hu, ← h.served]
        simp [hu]
    · rw [hserved] at he
      obtain ⟨rfl, -⟩ := List.append_inj' he rfl
      rw [ht, Function.update_of_ne (by rintro rfl; exact hnew hw)]
      exact hl.not_running hs w

/-- **The system is a ledger.** What a step does, seen as a ledger, is a step
of the ledger or nothing. -/
theorem Moves.refines {a : Action} (hm : Moves v s s' a) (hl : Locked v s) (h : Ordered s) :
    s'.ledger = s.ledger ∨ Ledger.Step v s.ledger s'.ledger := by
  cases hm with
  | quiet hstores hserved hst hout =>
    left
    simp only [State.ledger, State.log, hstores, hserved]
    rw [logOf_congr fun u _ => hout u, currentOf_congr hst]
  | admin layers actors _ hstores ht hserved =>
    right
    simp only [State.ledger, State.log, hstores, hserved, ht]
    exact .admin layers actors
  | accepted t hs hstores ht hserved =>
    right
    have hnew : t ∉ s.served := fun hm => by
      have := (h.served t).1 hm
      simp [hs, Phase.stage, Phase.outcome] at this
    have hcur : currentOf s.task s.served = none := by
      simp only [currentOf, Option.bind_eq_none_iff]
      intro u _
      rw [hl.not_running hs u]
      rfl
    simp only [State.ledger, State.log, hstores, hserved, ht, hcur, currentOf_concat, logOf_concat,
      logOf_update_notMem hnew]
    simp only [Function.update_self, Phase.stage, Phase.outcome, Option.map_some, Option.map_none,
      Option.toList_none, List.append_nil]
    refine .start (hl.valid t (.inr hs)) fun o hm => hnew ?_
    simp only [logOf, List.mem_filterMap, Option.map_eq_some_iff, Prod.mk.injEq] at hm
    obtain ⟨u, hu, _, _, rfl, _⟩ := hm
    exact hu
  | worked t stage n hs he ht hserved =>
    right
    obtain ⟨pre, hp, hpre⟩ := h.last hs
    simp only [State.ledger, State.log, hserved, ht, hp, currentOf_concat, logOf_concat,
      logOf_update_notMem hpre, Function.update_self, hs]
    cases n with
    | go stage' =>
      simp only [Next.phase, Phase.stage, Phase.outcome, Option.map_some, Option.map_none,
        Option.toList_none, List.append_nil]
      exact .go he
    | stop o =>
      simp only [Next.phase, Phase.stage, Phase.outcome, Option.map_some, Option.map_none,
        Option.toList_none, Option.toList_some, List.append_nil]
      exact .stop he

end

/-! ## Runs -/

/-- What holds of every state of a run. -/
structure Serving (v : Service) (s : State) : Prop where
  locked : Locked v s
  ordered : Ordered s

theorem Serving.opened (v : Service) (stores : Stores) : Serving v (.opened stores) :=
  ⟨State.opened_locked v stores, State.opened_ordered stores⟩

variable {v : Service} {s s' : State} {a : Action} {as : List Action}

theorem Serving.step (h : Serving v s) (hstep : step v s a = some s') : Serving v s' :=
  ⟨step_locked hstep h.locked, (step_moves h.locked hstep).ordered h.locked h.ordered⟩

theorem Serving.run (h : Serving v s) (hr : v.run s as = some s') : Serving v s' :=
  Run.invariant (fun hstep h => Serving.step h hstep) hr h

/-- What a step can do while the write is at a stage. -/
inductive Alone (v : Service) (s s' : State) (a : Action) (t : Nat) (stage : Stage) : Prop
  | still (stores : s'.stores = s.stores) (task : s'.task t = .running stage)
  | admin (layers : List LayerRow) (actors : Table ActorRow) (action : a = .admin layers actors)
      (stores : s'.stores = { s.stores with db := { s.stores.db with layers, actors } })
      (task : s'.task t = .running stage)
  | worked (i : Input) (n : Next) (action : a = .advance t i)
      (exec : v.wiki.exec (v.req t) i stage s.stores = (n, s'.stores)) (task : s'.task t = n.phase)
  | failed (e : AppError) (l : Leftover) (disk : Disk)
      (left : v.wiki.leave stage l s.stores.disk = some disk)
      (stores : s'.stores = { s.stores with disk }) (task : s'.task t = .returning (.failed stage e))

/-- While a write runs, its own steps are all that changes a page. -/
theorem step_alone {t : Nat} {stage : Stage} (h : Serving v s) (hs : s.task t = .running stage)
    (hstep : step v s a = some s') : Alone v s s' a t stage := by
  have hother : ∀ {u : Nat} {ph : Phase}, s.task u ≠ .running stage →
      Function.update s.task u ph t = .running stage := by
    intro u ph hu
    rw [Function.update_of_ne (by rintro rfl; exact hu hs), hs]
  have hself : ∀ {u : Nat} {st : Stage}, s.task u = .running st → u = t ∧ st = stage := by
    intro u st hu
    have hcur := (h.ordered.current hu).symm.trans (h.ordered.current hs)
    simpa using hcur
  cases step_cases hstep with
  | rejected ht _ | queued ht _ | accepted ht | abandoned ht | dropped ht | released ht =>
    exact .still rfl (hother (by rw [ht]; simp))
  | granted hg =>
    have ht : s.task _ = .queued := h.locked.lock.grant_waits hg
    exact .still rfl (hother (by rw [ht]; simp))
  | drains _ | detached _ | fetched _ | loaded _ | waits _ | drained _ => exact .still rfl hs
  | @advanced u i st n stores ht he =>
    obtain ⟨rfl, rfl⟩ := hself ht
    exact .worked i n rfl he (by simp [State.setTask])
  | @failed u e l st disk ht hl =>
    obtain ⟨rfl, rfl⟩ := hself ht
    exact .failed e l disk hl rfl (by simp [State.setTask])
  | admin => exact .admin _ _ rfl rfl hs

/-- The ledgers that a ledger can become. -/
abbrev Ledger.Steps (v : Service) : Ledger → Ledger → Prop := Relation.ReflTransGen (Step v)

/-- Every run of the system is one of the ledger. -/
theorem Serving.steps (h : Serving v s) (hr : v.run s as = some s') : Ledger.Steps v s.ledger s'.ledger :=
  Run.simulates (fun hstep h => Serving.step h hstep)
    (fun hstep h => (step_moves h.locked hstep).refines h.locked h.ordered) hr h

theorem Ledger.Steps.aimed {l l' : Ledger} (h : Steps v l l') (hl : l.Aimed v) : l'.Aimed v := by
  induction h with
  | refl => exact hl
  | tail _ hstep ih => exact hstep.aimed ih

theorem Ledger.Opened.aimed {l : Ledger} (h : l.Opened) : l.Aimed v := by
  intro t stage hc
  rw [h.2] at hc
  cases hc

/-- Every ledger that an opened one becomes has a history. -/
theorem Ledger.Steps.history {l l' : Ledger} (h : Steps v l l') (hl : l.Opened) :
    ∃ commits recorded, History v l l' commits recorded := by
  induction h with
  | refl => exact ⟨[], [], hl.history⟩
  | tail hs hstep ih =>
    obtain ⟨commits, recorded, hh⟩ := ih
    exact hstep.history (Steps.aimed hs hl.aimed) hh

/-- Every ledger that an opened one becomes knows its files and blobs. -/
theorem Ledger.Steps.contents {l l' : Ledger} (h : Steps v l l') (hl : l.Opened) : Contents v l l' := by
  induction h with
  | refl => exact hl.contents
  | tail hs hstep ih =>
    obtain ⟨commits, recorded, hh⟩ := Steps.history hs hl
    exact hstep.contents (Steps.aimed hs hl.aimed) hh ih

/-- A write never falls back behind a stage after the checks. -/
theorem Ledger.Steps.mem_reached {l l' : Ledger} {k t : Nat} (h : Steps v l l') (hk : 3 ≤ k)
    (ht : t ∈ l.reached k) : t ∈ l'.reached k := by
  induction h with
  | refl => exact ht
  | tail _ hstep ih =>
    cases hstep with
    | start _ _ =>
      rw [reached_idle] at ih
      exact List.mem_append_left _ ih
    | go he => rw [reached_go he]; exact List.mem_append_left _ ih
    | stop he => rw [reached_stop he _ _ hk]; exact List.mem_append_left _ ih
    | admin _ _ => exact ih

/-! ## What the states show of the ledger -/

theorem mem_log {t : Nat} {o : Outcome} : (t, o) ∈ s.log ↔ t ∈ s.served ∧ (s.task t).outcome = some o := by
  simp only [State.log, logOf, List.mem_filterMap, Option.map_eq_some_iff, Prod.mk.injEq]
  constructor
  · intro hex
    obtain ⟨u, hu, _, ho, rfl, rfl⟩ := hex
    exact ⟨hu, ho⟩
  · intro h
    exact ⟨t, h.1, o, h.2, rfl, rfl⟩

theorem current_eq_some {t : Nat} {stage : Stage} (h : s.ledger.current = some (t, stage)) :
    t ∈ s.served ∧ s.task t = .running stage := by
  obtain ⟨u, hu, hst⟩ := Option.bind_eq_some_iff.1 h
  obtain ⟨stage', hst, he⟩ := Option.map_eq_some_iff.1 hst
  cases he
  refine ⟨List.mem_of_getLast? hu, ?_⟩
  cases ht : s.task t <;> rw [ht] at hst <;> cases hst
  rfl

/-- How far the writes have got, as their phases show it. -/
theorem Ordered.mem_reached (h : Ordered s) {k t : Nat} : t ∈ s.ledger.reached k ↔
    (∃ stage, s.task t = .running stage ∧ k ≤ stage.rank) ∨
      ∃ o, (s.task t).outcome = some o ∧ k ≤ o.rank := by
  rw [Ledger.reached, List.mem_append, mem_ended, mem_running, or_comm]
  refine or_congr ?_ ?_
  · constructor
    · intro hrun
      obtain ⟨stage, hc, hr⟩ := hrun
      exact ⟨stage, (current_eq_some hc).2, hr⟩
    · intro hrun
      obtain ⟨stage, ht, hr⟩ := hrun
      exact ⟨stage, h.current ht, hr⟩
  · constructor
    · intro hend
      obtain ⟨o, hm, hr⟩ := hend
      exact ⟨o, (mem_log.1 hm).2, hr⟩
    · intro hend
      obtain ⟨o, ho, hr⟩ := hend
      have hserved : t ∈ s.served := (h.served t).2 (.inr (by rw [ho]; simp))
      exact ⟨o, mem_log.2 ⟨hserved, ho⟩, hr⟩

theorem State.Healthy.ledger (h : s.Healthy) : s.ledger.Healthy := fun t stage e hm =>
  h t stage e (mem_log.1 hm).2

theorem State.Quiet.ledger (h : s.Quiet) : s.ledger.current = none := by
  cases hc : s.ledger.current with
  | none => rfl
  | some x => exact absurd (current_eq_some hc).2 (h x.1 x.2)

/-- When every accepted write succeeded, none runs and none has failed. -/
theorem Ordered.quiet_healthy (h : Ordered s) (hd : ∀ t ∈ s.served, (s.task t).done = true) :
    s.Quiet ∧ s.Healthy := by
  constructor
  · intro t stage ht
    have := hd t ((h.served t).2 (.inl (by rw [ht]; simp [Phase.stage])))
    rw [ht] at this
    cases this
  · intro t stage e ht
    obtain ⟨info, hi⟩ := done_iff.1 (hd t ((h.served t).2 (.inr (by rw [ht]; simp))))
    rw [ht] at hi
    cases hi

/-- When none has failed in a store, the writes that ended past the checks are
those that succeeded. -/
theorem Ledger.Healthy.ended {l : Ledger} (h : l.Healthy) {k : Nat} (hk : 3 ≤ k) (hk8 : k ≤ 8) :
    ended k l.log = ended 8 l.log := by
  refine congrArg _ (List.filter_congr fun p hp => ?_)
  obtain ⟨t, o⟩ := p
  cases o with
  | refused e => simp [Outcome.rank, show k ≠ 0 by omega]
  | done info => simp [Outcome.rank, hk8]
  | failed stage e =>
    have hlt := h t stage e hp
    simp [Outcome.rank, show ¬ k ≤ stage.rank by omega, show ¬ 8 ≤ stage.rank by omega]

theorem Ledger.Healthy.reached {l : Ledger} (h : l.Healthy) (hc : l.current = none) {k : Nat} (hk : 3 ≤ k)
    (hk8 : k ≤ 8) : l.reached k = l.succeeded := by
  rw [l.succeeded_eq, ← h.ended hk hk8, Ledger.reached, hc, running, List.append_nil]

end Wikikiki
