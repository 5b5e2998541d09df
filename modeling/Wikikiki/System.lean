/-
The service under load: any number of writes, reads and shutdown waits, their
steps interleaved in any order.

A write takes its place in the queue of the writer lock, and its caller may
give up there at any time. Once the lock was handed over and the caller has
resumed, the write runs in a task of its own that nobody cancels; while its
file and Git stages run, a worker holds a second clone of the guard. A read
takes the metadata first and the file second, and never the lock.

`served` is the one thing the service does not keep itself: the writes in the
order in which they were accepted.
-/
import Wikikiki.Ledger
import Wikikiki.Lib.Mutex
import Wikikiki.Lib.Run

namespace Wikikiki

/-! ## States -/

/-- Who asks for the writer lock: a write, or `wait_for_writes`. -/
inductive Waiter where
  | writer (t : Nat)
  | drain (d : Nat)
  deriving DecidableEq

/-- A call of `write`: what its caller awaits, and then what its task does. -/
inductive Phase where
  | idle
  | queued
  | granted
  | cancelled
  | rejected (e : AppError)
  | running (stage : Stage)
  | returning (o : Outcome)
  | finished (o : Outcome)

/-- What a call has become of a write: the stage that it is at, or its
outcome. -/
def Phase.stage : Phase → Option Stage
  | .running stage => some stage
  | _ => none

def Phase.outcome : Phase → Option Outcome
  | .returning o | .finished o => some o
  | _ => none

/-- What `read` answers. -/
structure Page where
  info : PageMeta
  content : Text

/-- A call of `read`. -/
inductive ReadPhase where
  | idle
  | fetched (info : PageMeta)
  | done (result : Except AppError Page)

/-- A call of `wait_for_writes`. -/
inductive DrainPhase where
  | idle
  | queued
  | granted
  | finished

structure State where
  stores : Stores
  lock : Mutex Waiter
  task : Nat → Phase
  reader : Nat → ReadPhase
  drain : Nat → DrainPhase
  served : List Nat

/-! ## Actions -/

inductive Action where
  | call (t : Nat)
  | grant
  | accept (t : Nat)
  | cancel (t : Nat)
  | advance (t : Nat) (i : Input)
  | fail (t : Nat) (e : AppError) (l : Leftover)
  | release (t : Nat)
  | fetch (k : Nat)
  | load (k : Nat) (said : Text)
  | wait (d : Nat)
  | drained (d : Nat)
  | admin (layers : List LayerRow) (actors : Table ActorRow)

/-- The stages that run in the blocking worker. -/
def Stage.inWorker : Stage → Bool
  | .writeFile _ | .readHead _ | .commit .. => true
  | _ => false

def Next.inWorker : Next → Bool
  | .go stage => stage.inWorker
  | .stop _ => false

def Next.phase : Next → Phase
  | .go stage => .running stage
  | .stop o => .returning o

/-- The worker clones the guard when it starts and drops its clone when it
ends. -/
def handOver (before after : Bool) (m : Mutex Waiter) : Mutex Waiter :=
  match before, after with
  | false, true => m.clone
  | true, false => m.drop
  | _, _ => m

def State.setTask (s : State) (t : Nat) (ph : Phase) : State :=
  { s with task := Function.update s.task t ph }

/-- The metadata half of `read`. -/
def Service.fetch (v : Service) (db : Db) (k : Nat) : ReadPhase :=
  match validatePath (v.page k) with
  | .error e => .done (.error e)
  | .ok () =>
    match db.readMeta (v.page k) with
    | none => .done (.error (.notFound ("page ".toList ++ v.page k)))
    | some info => .fetched info

/-- The file half of `read`. -/
def Service.load (v : Service) (disk : Disk) (k : Nat) (info : PageMeta) (said : Text) : ReadPhase :=
  let file := filePath v.wiki.contentRoot (v.page k)
  match disk.readToString file with
  | some content => .done (.ok { info, content })
  | none => .done (.error (.internal ("read ".toList ++ displayPath file ++ ": ".toList ++ said)))

/-- `read`, with nobody else at the stores. -/
def Wiki.read (w : Wiki) (s : Stores) (pagePath said : Text) : Except AppError Page :=
  match validatePath pagePath with
  | .error e => .error e
  | .ok () =>
    match s.db.readMeta pagePath with
    | none => .error (.notFound ("page ".toList ++ pagePath))
    | some info =>
      let file := filePath w.contentRoot pagePath
      match s.disk.readToString file with
      | some content => .ok { info, content }
      | none => .error (.internal ("read ".toList ++ displayPath file ++ ": ".toList ++ said))

/-- It is its two halves, one right after the other. -/
theorem Wiki.read_eq (v : Service) (s : Stores) (k : Nat) (said : Text) :
    (match v.fetch s.db k with
      | .fetched info => v.load s.disk k info said
      | ph => ph) = .done (v.wiki.read s (v.page k) said) := by
  unfold Wiki.read Service.fetch Service.load
  cases validatePath (v.page k) with
  | error e => rfl
  | ok u =>
    cases s.db.readMeta (v.page k) with
    | none => rfl
    | some info => cases hfile : s.disk.readToString (filePath v.wiki.contentRoot (v.page k)) <;> simp [hfile]

/-- One step of the service, `none` where the action is not enabled. -/
def step (v : Service) (s : State) : Action → Option State
  | .call t =>
    match s.task t with
    | .idle =>
      match validatePath (v.req t).path with
      | .error e => some (s.setTask t (.rejected e))
      | .ok () => some { s.setTask t .queued with lock := s.lock.lock (.writer t) }
    | _ => none
  | .grant =>
    match s.lock.grant with
    | some (.writer t, lock) => some { s.setTask t .granted with lock }
    | some (.drain d, lock) => some { s with lock, drain := Function.update s.drain d .granted }
    | none => none
  | .accept t =>
    match s.task t with
    | .granted => some { s.setTask t (.running .checkLayer) with served := s.served ++ [t] }
    | _ => none
  | .cancel t =>
    match s.task t with
    | .queued => some { s.setTask t .cancelled with lock := s.lock.abandon (.writer t) }
    | .granted => some { s.setTask t .cancelled with lock := s.lock.drop }
    -- The task was detached from its caller.
    | .running _ | .returning _ | .finished _ => some s
    | _ => none
  | .advance t i =>
    match s.task t with
    | .running stage =>
      let (n, stores) := v.wiki.exec (v.req t) i stage s.stores
      some { s.setTask t n.phase with stores, lock := handOver stage.inWorker n.inWorker s.lock }
    | _ => none
  | .fail t e l =>
    match s.task t with
    | .running stage =>
      (v.wiki.leave stage l s.stores.disk).map fun disk =>
        { s.setTask t (.returning (.failed stage e)) with
          stores := { s.stores with disk }, lock := handOver stage.inWorker false s.lock }
    | _ => none
  | .release t =>
    match s.task t with
    | .returning o => some { s.setTask t (.finished o) with lock := s.lock.drop }
    | _ => none
  | .fetch k =>
    match s.reader k with
    | .idle => some { s with reader := Function.update s.reader k (v.fetch s.stores.db k) }
    | _ => none
  | .load k said =>
    match s.reader k with
    | .fetched info =>
      some { s with reader := Function.update s.reader k (v.load s.stores.disk k info said) }
    | _ => none
  | .wait d =>
    match s.drain d with
    | .idle => some { s with lock := s.lock.lock (.drain d), drain := Function.update s.drain d .queued }
    | _ => none
  | .drained d =>
    match s.drain d with
    | .granted => some { s with lock := s.lock.drop, drain := Function.update s.drain d .finished }
    | _ => none
  | .admin layers actors =>
    some { s with stores := { s.stores with db := { s.stores.db with layers, actors } } }

/-- What an action does, where it is enabled. -/
inductive State.Step (v : Service) (s : State) : Action → State → Prop
  | rejected {t e} (ht : s.task t = .idle) (hv : validatePath (v.req t).path = .error e) :
      Step v s (.call t) (s.setTask t (.rejected e))
  | queued {t} (ht : s.task t = .idle) (hv : validatePath (v.req t).path = .ok ()) :
      Step v s (.call t) { s.setTask t .queued with lock := s.lock.lock (.writer t) }
  | granted {t lock} (hg : s.lock.grant = some (.writer t, lock)) :
      Step v s .grant { s.setTask t .granted with lock }
  | drains {d lock} (hg : s.lock.grant = some (.drain d, lock)) :
      Step v s .grant { s with lock, drain := Function.update s.drain d .granted }
  | accepted {t} (ht : s.task t = .granted) :
      Step v s (.accept t) { s.setTask t (.running .checkLayer) with served := s.served ++ [t] }
  | abandoned {t} (ht : s.task t = .queued) :
      Step v s (.cancel t) { s.setTask t .cancelled with lock := s.lock.abandon (.writer t) }
  | dropped {t} (ht : s.task t = .granted) :
      Step v s (.cancel t) { s.setTask t .cancelled with lock := s.lock.drop }
  | detached {t} (ht : (s.task t).stage ≠ none ∨ (s.task t).outcome ≠ none) : Step v s (.cancel t) s
  | advanced {t i stage n stores} (ht : s.task t = .running stage)
      (he : v.wiki.exec (v.req t) i stage s.stores = (n, stores)) :
      Step v s (.advance t i)
        { s.setTask t n.phase with stores, lock := handOver stage.inWorker n.inWorker s.lock }
  | failed {t e l stage disk} (ht : s.task t = .running stage)
      (hl : v.wiki.leave stage l s.stores.disk = some disk) :
      Step v s (.fail t e l)
        { s.setTask t (.returning (.failed stage e)) with
          stores := { s.stores with disk }, lock := handOver stage.inWorker false s.lock }
  | released {t o} (ht : s.task t = .returning o) :
      Step v s (.release t) { s.setTask t (.finished o) with lock := s.lock.drop }
  | fetched {k} (hk : s.reader k = .idle) :
      Step v s (.fetch k) { s with reader := Function.update s.reader k (v.fetch s.stores.db k) }
  | loaded {k said info} (hk : s.reader k = .fetched info) :
      Step v s (.load k said)
        { s with reader := Function.update s.reader k (v.load s.stores.disk k info said) }
  | waits {d} (hd : s.drain d = .idle) :
      Step v s (.wait d)
        { s with lock := s.lock.lock (.drain d), drain := Function.update s.drain d .queued }
  | drained {d} (hd : s.drain d = .granted) :
      Step v s (.drained d) { s with lock := s.lock.drop, drain := Function.update s.drain d .finished }
  | admin {layers actors} : Step v s (.admin layers actors)
      { s with stores := { s.stores with db := { s.stores.db with layers, actors } } }

/-- A step is one of these. Every invariant of the service goes through them. -/
theorem step_cases {v : Service} {s s' : State} {a : Action} (h : step v s a = some s') :
    s.Step v a s' := by
  cases a with
  | call t =>
    simp only [step] at h
    split at h
    next ht =>
      split at h
      next e hv => cases h; exact .rejected ht hv
      next hv => cases h; exact .queued ht hv
    · cases h
  | grant =>
    simp only [step] at h
    split at h
    next t lock hg => cases h; exact .granted hg
    next d lock hg => cases h; exact .drains hg
    · cases h
  | accept t =>
    simp only [step] at h
    split at h
    next ht => cases h; exact .accepted ht
    · cases h
  | cancel t =>
    simp only [step] at h
    split at h
    next ht => cases h; exact .abandoned ht
    next ht => cases h; exact .dropped ht
    next ht => cases h; exact .detached (.inl (by rw [ht]; simp [Phase.stage]))
    next ht => cases h; exact .detached (.inr (by rw [ht]; simp [Phase.outcome]))
    next ht => cases h; exact .detached (.inr (by rw [ht]; simp [Phase.outcome]))
    · cases h
  | advance t i =>
    simp only [step] at h
    split at h
    next stage ht => cases h; exact .advanced ht rfl
    · cases h
  | fail t e l =>
    simp only [step] at h
    split at h
    next stage ht =>
      obtain ⟨disk, hl, rfl⟩ := Option.map_eq_some_iff.1 h
      exact .failed ht hl
    · cases h
  | release t =>
    simp only [step] at h
    split at h
    next o ht => cases h; exact .released ht
    · cases h
  | fetch k =>
    simp only [step] at h
    split at h
    next hk => cases h; exact .fetched hk
    · cases h
  | load k said =>
    simp only [step] at h
    split at h
    next info hk => cases h; exact .loaded hk
    · cases h
  | wait d =>
    simp only [step] at h
    split at h
    next hd => cases h; exact .waits hd
    · cases h
  | drained d =>
    simp only [step] at h
    split at h
    next hd => cases h; exact .drained hd
    · cases h
  | admin layers actors => cases h; exact .admin

abbrev Service.run (v : Service) : State → List Action → Option State := Run.run (step v)

/-- A service that has just opened its stores. -/
def State.opened (stores : Stores) : State where
  stores
  lock := .free
  task _ := .idle
  reader _ := .idle
  drain _ := .idle
  served := []

/-! ## As a ledger -/

/-- The writes that ended, in the order of the lock, with their outcomes. -/
def logOf (task : Nat → Phase) (served : List Nat) : List (Nat × Outcome) :=
  served.filterMap fun t => (task t).outcome.map (t, ·)

/-- The last accepted write, if it still runs. -/
def currentOf (task : Nat → Phase) (served : List Nat) : Option (Nat × Stage) :=
  served.getLast?.bind fun t => (task t).stage.map (t, ·)

def State.log (s : State) : List (Nat × Outcome) := logOf s.task s.served

def State.ledger (s : State) : Ledger where
  stores := s.stores
  log := s.log
  current := currentOf s.task s.served

/-- No accepted write is still running. -/
def State.Quiet (s : State) : Prop := ∀ t stage, s.task t ≠ .running stage

/-- No write has failed in a store, though a check may have died. -/
def State.Healthy (s : State) : Prop :=
  ∀ t stage e, (s.task t).outcome = some (.failed stage e) → stage.rank < 3

/-- The call succeeded. -/
def Phase.done : Phase → Bool
  | .returning (.done _) | .finished (.done _) => true
  | _ => false

/-- The writes that succeeded, in the order of the lock. -/
def State.succeeded (s : State) : List Nat := s.served.filter fun t => (s.task t).done

theorem done_iff {ph : Phase} : ph.done = true ↔ ∃ info, ph.outcome = some (.done info) := by
  cases ph with
  | returning o | finished o => cases o <;> simp [Phase.done, Phase.outcome]
  | _ => simp [Phase.done, Phase.outcome]

theorem rank_eq_eight {o : Outcome} : 8 ≤ o.rank ↔ ∃ info, o = .done info := by
  cases o with
  | refused e => simp [Outcome.rank]
  | failed stage e => simp [Outcome.rank, stage.rank_lt]
  | done info => simp [Outcome.rank]

/-- A write that runs has not succeeded yet. -/
theorem Ledger.succeeded_eq (l : Ledger) : l.succeeded = ended 8 l.log := by
  have hrun : running 8 l.current = [] := by
    unfold running
    split
    next t stage _ => exact if_neg (by have := stage.rank_lt; omega)
    · rfl
  rw [Ledger.succeeded, Ledger.reached, hrun, List.append_nil]

theorem State.ledger_succeeded (s : State) : s.ledger.succeeded = s.succeeded := by
  have hended : ∀ served, ended 8 (logOf s.task served) = served.filter fun t => (s.task t).done := by
    intro served
    induction served with
    | nil => rfl
    | cons t served ih =>
      have ht := @done_iff (s.task t)
      simp only [ended, logOf] at ih ⊢
      cases ho : (s.task t).outcome with
      | none => simp [ho, ih, ht]
      | some o =>
        by_cases h8 : 8 ≤ o.rank
        · have hd : (s.task t).done = true := by rw [ht, ho]; simpa using rank_eq_eight.1 h8
          simp [ho, h8, hd, ih]
        · have hd : ¬ (s.task t).done = true := by
            rw [ht, ho]
            simpa using fun x hx => h8 (rank_eq_eight.2 ⟨x, hx⟩)
          simp [ho, h8, hd, ih]
  rw [s.ledger.succeeded_eq]
  exact hended s.served

/-! ## A small service -/

/-- Everybody writes the page `notes`: it is created, changed, and changed
back, somebody insists on a new page, and the other clients insist on its
first revision. -/
def Service.small : Service where
  wiki := .small
  req
    | 0 => .small "notes".toList "one".toList .absent
    | 1 => .small "notes".toList "two".toList .none
    | 2 => .small "notes".toList "one".toList .none
    | 3 => .small "notes".toList "two".toList .absent
    | _ => .small "notes".toList "two".toList (.revision (Wiki.small.contentHash "one".toList))
  page _ := "notes".toList

/-- The stages of an accepted write, and the end of it. -/
def Action.work (t : Nat) : List Action := List.replicate 8 (.advance t ⟨t + 1, []⟩) ++ [.release t]

/-- A write that nothing interrupts. -/
def Action.serve (t : Nat) : List Action := [.call t, .grant, .accept t] ++ work t

/-- Two writes at once: the second one waits, and the caller of the first one
does not. -/
def Action.overlap : List Action :=
  [.call 0, .call 1, .grant, .accept 0, .cancel 0] ++ work 0 ++ [.grant, .accept 1] ++ work 1

/-- Two writers that start from the same revision, one of which is refused at
its check. -/
def Action.compete : List Action :=
  [.call 4, .call 5, .grant, .accept 4] ++ work 4 ++ [.grant, .accept 5] ++
    List.replicate 3 (.advance 5 ⟨6, []⟩) ++ [.release 5]

/-- A write that has written its file, and the rest of it. -/
def Action.untilFile (t : Nat) : List Action :=
  [.call t, .grant, .accept t] ++ List.replicate 5 (.advance t ⟨t + 1, []⟩)

def Action.sinceFile (t : Nat) : List Action := List.replicate 3 (.advance t ⟨t + 1, []⟩) ++ [.release t]

/-- A write whose commit lands and whose transaction fails. -/
def Action.unrecorded (t : Nat) : List Action :=
  [.call t, .grant, .accept t] ++ List.replicate 7 (.advance t ⟨t + 1, []⟩) ++
    [.fail t (.database []) .nothing, .release t]

example : (Service.small.run (.opened (.small none)) (Action.serve 0 ++ Action.serve 4)).map
    State.succeeded = some [0, 4] := rfl

end Wikikiki
