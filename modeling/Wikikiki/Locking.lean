/-
The writer lock under load: the mutex counts the guards that the calls hold,
so that of two writes that are accepted and unfinished there is only one.

`Locked` is the invariant; `step_locked` goes through the steps.
-/
import Wikikiki.System

namespace Wikikiki

/-! ## Guards -/

/-- The clones of the guard that a call of `write` holds. -/
def Phase.guards : Phase → Nat
  | .granted => 1
  | .running stage => if stage.inWorker then 2 else 1
  | .returning _ => 1
  | _ => 0

def DrainPhase.guards : DrainPhase → Nat
  | .granted => 1
  | _ => 0

def guardsOf (task : Nat → Phase) (drain : Nat → DrainPhase) : Waiter → Nat
  | .writer t => (task t).guards
  | .drain d => (drain d).guards

def waitsOf (task : Nat → Phase) (drain : Nat → DrainPhase) : Waiter → Prop
  | .writer t => task t = .queued
  | .drain d => drain d = .queued

/-- The mutex agrees with everybody who waits for it or holds it, and whoever
waits has an accepted path. -/
structure Locked (v : Service) (s : State) : Prop where
  lock : s.lock.Tracks (waitsOf s.task s.drain) (guardsOf s.task s.drain)
  valid : ∀ t, s.task t = .queued ∨ s.task t = .granted → validatePath (v.req t).path = .ok ()

theorem State.opened_locked (v : Service) (stores : Stores) : Locked v (.opened stores) := by
  refine ⟨Mutex.tracks_free fun i => by cases i <;> rfl, fun t h => ?_⟩
  simp [opened] at h

section

variable {v : Service} {s s' : State} {task : Nat → Phase} {drain : Nat → DrainPhase} {t : Nat} {ph : Phase}
  {d : Nat} {dp : DrainPhase} {j : Waiter}

@[simp] theorem guardsOf_task_self :
    guardsOf (Function.update task t ph) drain (.writer t) = ph.guards := by
  simp [guardsOf]

theorem guardsOf_task_other (h : j ≠ .writer t) :
    guardsOf (Function.update task t ph) drain j = guardsOf task drain j := by
  cases j with
  | writer u => simp [guardsOf, Function.update_of_ne (show u ≠ t by rintro rfl; exact h rfl)]
  | drain d => rfl

theorem guardsOf_task_same (h : ph.guards = (task t).guards) (j : Waiter) :
    guardsOf (Function.update task t ph) drain j = guardsOf task drain j := by
  by_cases hj : j = .writer t
  · subst hj; rw [guardsOf_task_self, h]; rfl
  · exact guardsOf_task_other hj

theorem waitsOf_task_other (h : j ≠ .writer t) (hw : waitsOf task drain j) :
    waitsOf (Function.update task t ph) drain j := by
  cases j with
  | writer u => simpa [waitsOf, Function.update_of_ne (show u ≠ t by rintro rfl; exact h rfl)] using hw
  | drain d => exact hw

@[simp] theorem guardsOf_drain_self :
    guardsOf task (Function.update drain d dp) (.drain d) = dp.guards := by
  simp [guardsOf]

theorem guardsOf_drain_other (h : j ≠ .drain d) :
    guardsOf task (Function.update drain d dp) j = guardsOf task drain j := by
  cases j with
  | writer u => rfl
  | drain e => simp [guardsOf, Function.update_of_ne (show e ≠ d by rintro rfl; exact h rfl)]

theorem guardsOf_drain_same (h : dp.guards = (drain d).guards) (j : Waiter) :
    guardsOf task (Function.update drain d dp) j = guardsOf task drain j := by
  by_cases hj : j = .drain d
  · subst hj; rw [guardsOf_drain_self, h]; rfl
  · exact guardsOf_drain_other hj

theorem waitsOf_drain_other (h : j ≠ .drain d) (hw : waitsOf task drain j) :
    waitsOf task (Function.update drain d dp) j := by
  cases j with
  | writer u => exact hw
  | drain e => simpa [waitsOf, Function.update_of_ne (show e ≠ d by rintro rfl; exact h rfl)] using hw

/-- A step of one call that changes neither its place in the queue nor the
guards it holds. -/
theorem Locked.same (h : Locked v s) {ph : Phase} (hw : s.task t ≠ .queued)
    (hg : ph.guards = (s.task t).guards) :
    s.lock.Tracks (waitsOf (Function.update s.task t ph) s.drain)
      (guardsOf (Function.update s.task t ph) s.drain) := by
  have hq := h.lock.notMem_queue (show ¬ waitsOf s.task s.drain (.writer t) from hw)
  exact h.lock.same (fun j hj => waitsOf_task_other (hq j hj)) (guardsOf_task_same hg)

/-- A call drops one guard. -/
theorem Locked.dropped (h : Locked v s) {ph : Phase} (hw : s.task t ≠ .queued)
    (hg : ph.guards + 1 = (s.task t).guards) :
    s.lock.drop.Tracks (waitsOf (Function.update s.task t ph) s.drain)
      (guardsOf (Function.update s.task t ph) s.drain) := by
  have hq := h.lock.notMem_queue (show ¬ waitsOf s.task s.drain (.writer t) from hw)
  refine h.lock.drop (i := .writer t) (fun j hj => waitsOf_task_other (hq j hj)) ?_ fun j hj =>
    guardsOf_task_other hj
  simpa [guardsOf] using hg

/-- The worker starts or ends, or neither. -/
theorem Locked.handedOver (h : Locked v s) {stage : Stage} (hs : s.task t = .running stage) (n : Next) :
    (handOver stage.inWorker n.inWorker s.lock).Tracks (waitsOf (Function.update s.task t n.phase) s.drain)
      (guardsOf (Function.update s.task t n.phase) s.drain) := by
  have hw : s.task t ≠ .queued := by rw [hs]; simp
  have hq := h.lock.notMem_queue (show ¬ waitsOf s.task s.drain (.writer t) from hw)
  have hn : n.phase.guards = if n.inWorker then 2 else 1 := by cases n <;> rfl
  have ht : (s.task t).guards = if stage.inWorker then 2 else 1 := by rw [hs]; rfl
  cases hb : stage.inWorker <;> cases ha : n.inWorker <;> simp only [hb, ha] at hn ht <;>
    simp only [handOver]
  · exact h.same hw (by rw [hn, ht])
  · refine h.lock.clone (i := .writer t) ?_ (fun j hj => waitsOf_task_other (hq j hj)) ?_ fun j hj =>
      guardsOf_task_other hj
    · simp [guardsOf, ht]
    · simp [guardsOf, ht, hn]
  · exact h.dropped hw (by simp [hn, ht])
  · exact h.same hw (by rw [hn, ht])

theorem Locked.valid_update (h : Locked v s)
    (hph : ph = .queued ∨ ph = .granted → validatePath (v.req t).path = .ok ()) (u : Nat)
    (hu : Function.update s.task t ph u = .queued ∨ Function.update s.task t ph u = .granted) :
    validatePath (v.req u).path = .ok () := by
  by_cases hut : u = t
  · subst hut
    simp only [Function.update_self] at hu
    exact hph hu
  · simp only [Function.update_of_ne hut] at hu
    exact h.valid u hu

theorem step_locked {a : Action} (hstep : step v s a = some s') (h : Locked v s) : Locked v s' := by
  cases step_cases hstep with
  | rejected ht _ => exact ⟨h.same (by rw [ht]; simp) (by rw [ht]; rfl), h.valid_update (by simp)⟩
  | @queued t ht hv =>
    have hw : ¬ waitsOf s.task s.drain (.writer t) := by rw [waitsOf, ht]; simp
    refine ⟨h.lock.lock hw (by simp [waitsOf, State.setTask]) (fun j hj => ?_)
      (guardsOf_task_same (by rw [ht]; rfl)), h.valid_update fun _ => hv⟩
    exact waitsOf_task_other (fun he => hw (he ▸ hj)) hj
  | @granted t lock hg =>
    have hw : s.task t = .queued := h.lock.grant_waits hg
    exact ⟨h.lock.grant hg (fun j hj => waitsOf_task_other hj) (by simp [State.setTask, Phase.guards])
      (fun j hj => guardsOf_task_other hj), h.valid_update fun _ => h.valid t (.inl hw)⟩
  | drains hg =>
    exact ⟨h.lock.grant hg (fun j hj => waitsOf_drain_other hj) (by simp [DrainPhase.guards])
      (fun j hj => guardsOf_drain_other hj), h.valid⟩
  | accepted ht => exact ⟨h.same (by rw [ht]; simp) (by rw [ht]; rfl), h.valid_update (by simp)⟩
  | abandoned ht =>
    exact ⟨h.lock.abandon (fun j hj => waitsOf_task_other hj) (guardsOf_task_same (by rw [ht]; rfl)),
      h.valid_update (by simp)⟩
  | dropped ht => exact ⟨h.dropped (by rw [ht]; simp) (by rw [ht]; rfl), h.valid_update (by simp)⟩
  | detached _ => exact h
  | @advanced t i stage n stores ht _ =>
    refine ⟨h.handedOver ht n, h.valid_update fun hph => ?_⟩
    cases n <;> simp [Next.phase] at hph
  | @failed t e l stage disk ht _ =>
    exact ⟨h.handedOver ht (.stop (.failed stage e)), h.valid_update (by simp)⟩
  | released ht => exact ⟨h.dropped (by rw [ht]; simp) (by rw [ht]; rfl), h.valid_update (by simp)⟩
  | fetched _ => exact ⟨h.lock, h.valid⟩
  | loaded _ => exact ⟨h.lock, h.valid⟩
  | @waits d hd =>
    have hw : ¬ waitsOf s.task s.drain (.drain d) := by rw [waitsOf, hd]; simp
    refine ⟨h.lock.lock hw (by simp [waitsOf]) (fun j hj => ?_)
      (guardsOf_drain_same (by rw [hd]; rfl)), h.valid⟩
    exact waitsOf_drain_other (fun he => hw (he ▸ hj)) hj
  | @drained d hd =>
    have hw : ¬ waitsOf s.task s.drain (.drain d) := by rw [waitsOf, hd]; simp
    have hq := h.lock.notMem_queue hw
    refine ⟨h.lock.drop (i := .drain d) (fun j hj => waitsOf_drain_other (hq j hj)) ?_ fun j hj =>
      guardsOf_drain_other hj, h.valid⟩
    rw [guardsOf_drain_self, guardsOf, hd]
    rfl
  | admin => exact ⟨h.lock, h.valid⟩

end

end Wikikiki
