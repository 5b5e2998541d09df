/-
The writes of a service as they would be if they came one after the other: a
ledger of the writes that ended and what came of each, the write that runs,
and the stores.

`Wiki.Effect` says once what a stage can do, to the write and to the stores,
whether it succeeds, refuses or dies half way; `exec_effect` is its only
proof about `exec`. Everything that holds of the stores is an induction over
`Ledger.Step`, which lets the current write take effects.
-/
import Wikikiki.Write

namespace Wikikiki

/-! ## A stage that dies -/

/-- What a stage that failed may have done on disk: nothing, a few of the
directories it wanted, or its file with some bytes in it. -/
inductive Leftover where
  | nothing
  | dirs (n : Nat)
  | file (data : Bytes)

/-- The disk after a failed stage. -/
def Wiki.leave (w : Wiki) : Stage → Leftover → Disk → Option Disk
  | _, .nothing, d => some d
  | .contentRoot, .dirs n, d => d.createDirAll (w.contentRoot.take n)
  | .writeFile rel, .dirs n, d => d.createDirAll ((w.root ++ rel).dropLast.take n)
  | .writeFile rel, .file data, d =>
    (d.createDirAll (w.root ++ rel).dropLast).bind fun d => d.write (w.root ++ rel) data
  | _, _, _ => none

/-! ## Effects -/

/-- The page's file inside the repository. -/
def Wiki.pageFile (w : Wiki) (pagePath : Text) : PathBuf :=
  repoPath (w.contentRoot.drop w.root.length) pagePath

theorem Wiki.root_pageFile {w : Wiki} (h : w.root <+: w.contentRoot) (p : Text) :
    w.root ++ w.pageFile p = filePath w.contentRoot p := by
  obtain ⟨pre, hpre⟩ := h
  simp [pageFile, repoPath, filePath, ← hpre]

/-- A stage that carries a path carries the page's. -/
def Stage.Aims (w : Wiki) (pagePath : Text) : Stage → Prop
  | .writeFile rel | .readHead rel | .commit rel _ => w.root <+: w.contentRoot ∧ rel = w.pageFile pagePath
  | _ => True

/-- What one stage of a write can do. -/
inductive Wiki.Effect (w : Wiki) (req : WriteRequest) : Stage → Stores → Next → Stores → Prop
  | layer {s} : Effect w req .checkLayer s (.go .checkActor) s
  | actor {s} : Effect w req .checkActor s (.go .checkPrecondition) s
  | check {s} (h : req.precondition.Holds (s.db.currentState req.path)) :
      Effect w req .checkPrecondition s (.go .contentRoot) s
  | invalid {stage s e} (h : stage.rank < 2) (he : ∀ msg, e ≠ .preconditionFailed msg)
      (hbad : checkLayer s.db req = .error e ∨ checkActor s.db req = .error e) :
      Effect w req stage s (.stop (.refused e)) s
  | stale {s msg} (h : ¬ req.precondition.Holds (s.db.currentState req.path)) :
      Effect w req .checkPrecondition s (.stop (.refused (.preconditionFailed msg))) s
  | failed {stage s e disk}
      (h : stage.Aims w req.path → Disk.Towards (filePath w.contentRoot req.path) s.disk disk)
      (hcheck : stage.rank < 3 → disk = s.disk) :
      Effect w req stage s (.stop (.failed stage e)) { s with disk }
  | root {s disk} (hd : s.disk.createDirAll w.contentRoot = some disk) (hr : w.root <+: w.contentRoot) :
      Effect w req .contentRoot s (.go (.writeFile (w.pageFile req.path))) { s with disk }
  | file {s rel d disk} (hd : s.disk.createDirAll (w.root ++ rel).dropLast = some d)
      (hw : d.write (w.root ++ rel) (Text.utf8 req.content) = some disk) :
      Effect w req (.writeFile rel) s (.go (.readHead rel)) { s with disk }
  | head {s rel} : Effect w req (.readHead rel) s (.go (.commit rel (w.readHead s.git))) s
  | commit {s rel parent c}
      (h : w.Committed s.git parent rel req.content req.actorType req.actorHandle req.message c) :
      Effect w req (.commit rel parent) s (.go (.project (w.ext.commitId c))) { s with git := c :: s.git }
  | project {s oid id db info}
      (h : s.db.Projected req (deriveTitle req.content req.path) (w.contentHash req.content) oid id db) :
      Effect w req (.project oid) s (.stop (.done info)) { s with db }

section

variable {w : Wiki} {req : WriteRequest} {i : Input} {s s' : Stores} {stage : Stage} {n : Next}

theorem rootAbove_filePath (w : Wiki) (p : Text) : w.contentRoot <+: filePath w.contentRoot p :=
  List.prefix_append _ _

/-- A stage that failed in no file. -/
theorem Wiki.Effect.failed_same {e : AppError} : w.Effect req stage s (.stop (.failed stage e)) s :=
  .failed (fun _ => Disk.Towards.refl _ _) fun _ => rfl

theorem exec_effect_checkPrecondition (h : w.exec req i .checkPrecondition s = (n, s')) :
    w.Effect req .checkPrecondition s n s' := by
  simp only [Wiki.exec] at h
  split at h
  next hc => cases h; exact .check (Precondition.check_eq_ok.1 hc)
  next e hc =>
    cases h
    have hn : ¬ req.precondition.Holds (s.db.currentState req.path) := fun hh => by
      rw [Precondition.check_eq_ok.2 hh] at hc
      cases hc
    rcases Precondition.check_of_not_holds hn with ⟨msg, -, he⟩ | ⟨-, he⟩
    · rw [hc] at he; cases he; exact .stale hn
    · rw [hc] at he; cases he
  next => cases h; exact .failed_same

theorem exec_effect_contentRoot (h : w.exec req i .contentRoot s = (n, s')) :
    w.Effect req .contentRoot s n s' := by
  simp only [Wiki.exec] at h
  split at h
  · cases h; exact .failed_same
  next disk hd =>
    split at h
    · cases h
      exact .failed (fun _ => Disk.towards_createDirAll hd (rootAbove_filePath w _)) (absurd · (by decide))
    next pre hpre =>
      cases h
      have hroot := relativeTo_eq_some hpre
      have hrel : repoPath pre req.path = w.pageFile req.path := by simp [Wiki.pageFile, hroot]
      rw [hrel]
      exact .root hd (hroot ▸ List.prefix_append _ _)

theorem exec_effect_writeFile {rel : PathBuf} (h : w.exec req i (.writeFile rel) s = (n, s')) :
    w.Effect req (.writeFile rel) s n s' := by
  simp only [Wiki.exec] at h
  split at h
  · cases h; exact .failed_same
  next d hd =>
    split at h
    · cases h
      refine .failed (fun ha => ?_) (absurd · (by simp [Stage.rank]))
      obtain ⟨hr, hrel⟩ := ha
      rw [hrel, w.root_pageFile hr] at hd
      exact Disk.towards_createDirAll hd (List.dropLast_prefix _)
    next disk hw => cases h; exact .file hd hw

/-- **What a stage does.** -/
theorem Wiki.exec_effect (h : w.exec req i stage s = (n, s')) : w.Effect req stage s n s' := by
  cases stage with
  | checkLayer =>
    simp only [exec] at h
    split at h
    next => cases h; exact .layer
    next e he =>
      cases h
      refine .invalid (by decide) (fun msg hm => ?_) (.inl he)
      simp only [checkLayer, hm] at he
      split at he <;> cases he
  | checkActor =>
    simp only [exec] at h
    split at h
    next => cases h; exact .actor
    next e he =>
      cases h
      rcases checkActor_spec s.db req with ⟨hok, -⟩ | ⟨-, e', he', hforb⟩
      · rw [hok] at he; cases he
      · rw [he'] at he; cases he
        exact .invalid (by decide) (by rw [show e = .forbidden from hforb]; simp) (.inr he')
  | checkPrecondition => exact exec_effect_checkPrecondition h
  | contentRoot => exact exec_effect_contentRoot h
  | writeFile rel => exact exec_effect_writeFile h
  | readHead rel => simp only [exec] at h; cases h; exact .head
  | commit rel parent =>
    simp only [exec] at h
    split at h
    · cases h; exact .failed_same
    next oid git hc =>
      cases h
      obtain ⟨c, rfl, rfl, hcom⟩ := commitFile_eq_ok hc
      exact .commit hcom
  | project oid => simp only [exec] at h; cases h; exact .project (Db.project_spec _ _ _ _ _ _)

/-- A stage that dies is an effect, too. -/
theorem Wiki.leave_effect {l : Leftover} {disk : Disk} {e : AppError}
    (h : w.leave stage l s.disk = some disk) :
    w.Effect req stage s (.stop (.failed stage e)) { s with disk } := by
  refine .failed (fun ha => ?_) fun hlt => ?_
  case refine_2 =>
    cases stage <;> cases l <;> simp_all [leave, Stage.rank]
  cases l with
  | nothing => simp only [leave, Option.some.injEq] at h; exact h ▸ Disk.Towards.refl _ _
  | dirs n =>
    cases stage with
    | contentRoot =>
      exact Disk.towards_createDirAll h ((List.take_prefix _ _).trans (rootAbove_filePath w _))
    | writeFile rel =>
      obtain ⟨hr, hrel⟩ := ha
      simp only [leave, hrel, w.root_pageFile hr] at h
      exact Disk.towards_createDirAll h ((List.take_prefix _ _).trans (List.dropLast_prefix _))
    | _ => cases h
  | file data =>
    cases stage with
    | writeFile rel =>
      obtain ⟨hr, hrel⟩ := ha
      simp only [leave, hrel, w.root_pageFile hr, Option.bind_eq_some_iff] at h
      obtain ⟨d, hd, hw⟩ := h
      exact (Disk.towards_createDirAll hd (List.dropLast_prefix _)).trans (Disk.towards_write hw)
    | _ => cases h

/-- The one file that a stage changes is the one it writes. -/
theorem Wiki.exec_read (h : w.exec req i stage s = (n, s')) : s'.disk.read = s.disk.read ∨
    ∃ rel d, stage = .writeFile rel ∧ n = .go (.readHead rel) ∧
      s.disk.createDirAll (w.root ++ rel).dropLast = some d ∧
      d.write (w.root ++ rel) (Text.utf8 req.content) = some s'.disk := by
  have hdirs : ∀ {d d' : Disk} {a : PathBuf}, d.createDirAll a = some d' → d'.read = d.read := fun hd =>
    funext (Disk.read_createDirAll hd)
  cases stage with
  | contentRoot =>
    simp only [exec] at h
    split at h
    · cases h; exact .inl rfl
    next disk hd => split at h <;> cases h <;> exact .inl (hdirs hd)
  | writeFile rel =>
    simp only [exec] at h
    split at h
    · cases h; exact .inl rfl
    next d hd =>
      split at h
      · cases h; exact .inl (hdirs hd)
      next disk hw => cases h; exact .inr ⟨rel, d, rfl, rfl, hd, hw⟩
  | _ =>
    simp only [exec] at h
    (repeat' split at h) <;> cases h <;> exact .inl rfl

/-- So it is with a stage that dies, whatever it has got into the file. -/
theorem Wiki.leave_read {l : Leftover} {d d' : Disk} (h : w.leave stage l d = some d') : d'.read = d.read ∨
    ∃ rel data d₁, stage = .writeFile rel ∧ l = .file data ∧
      d.createDirAll (w.root ++ rel).dropLast = some d₁ ∧ d₁.write (w.root ++ rel) data = some d' := by
  cases l with
  | nothing => simp only [leave, Option.some.injEq] at h; exact .inl (h ▸ rfl)
  | dirs n => cases stage <;> first | exact .inl (funext (Disk.read_createDirAll h)) | cases h
  | file data =>
    cases stage with
    | writeFile rel =>
      simp only [leave, Option.bind_eq_some_iff] at h
      obtain ⟨d₁, hd, hw⟩ := h
      exact .inr ⟨rel, data, d₁, rfl, rfl, hd, hw⟩
    | _ => cases h

/-- The page's file is all that a write works towards on disk. -/
theorem Wiki.Effect.towards (h : w.Effect req stage s n s') (ha : stage.Aims w req.path) :
    Disk.Towards (filePath w.contentRoot req.path) s.disk s'.disk := by
  cases h with
  | failed ht _ => exact ht ha
  | root hd _ => exact Disk.towards_createDirAll hd (rootAbove_filePath w _)
  | file hd hw =>
    obtain ⟨hr, hrel⟩ := ha
    rw [hrel, w.root_pageFile hr] at hd hw
    exact (Disk.towards_createDirAll hd (List.dropLast_prefix _)).trans (Disk.towards_write hw)
  | _ => exact Disk.Towards.refl _ _

end

/-! ## The ledger -/

/-- A wiki, and the requests that clients may make of it: writes and reads,
by number. -/
structure Service where
  wiki : Wiki
  req : Nat → WriteRequest
  page : Nat → Text

/-- The writes that ended, in order, and the one that runs. -/
structure Ledger where
  stores : Stores
  log : List (Nat × Outcome)
  current : Option (Nat × Stage)

/-- One write starts when none runs; the current one takes an effect; or
somebody administers the layers and the actors. -/
inductive Ledger.Step (v : Service) : Ledger → Ledger → Prop
  | start {s log t} (hv : validatePath (v.req t).path = .ok ()) (hnew : ∀ o, (t, o) ∉ log) :
      Step v ⟨s, log, none⟩ ⟨s, log, some (t, .checkLayer)⟩
  | go {s s' log t stage stage'} (h : v.wiki.Effect (v.req t) stage s (.go stage') s') :
      Step v ⟨s, log, some (t, stage)⟩ ⟨s', log, some (t, stage')⟩
  | stop {s s' log t stage o} (h : v.wiki.Effect (v.req t) stage s (.stop o) s') :
      Step v ⟨s, log, some (t, stage)⟩ ⟨s', log ++ [(t, o)], none⟩
  | admin {s log current} (layers : List LayerRow) (actors : Table ActorRow) :
      Step v ⟨s, log, current⟩ ⟨{ s with db := { s.db with layers, actors } }, log, current⟩

/-- How many stages a write that ended had behind it; a refusal counts for
nothing. -/
def Outcome.rank : Outcome → Nat
  | .refused _ => 0
  | .failed stage _ => stage.rank
  | .done _ => 8

/-- The writes of a log that got `k` stages far. -/
def ended (k : Nat) (log : List (Nat × Outcome)) : List Nat :=
  (log.filter fun p => k ≤ p.2.rank).map Prod.fst

/-- The current write, if it got `k` stages far. -/
def running (k : Nat) : Option (Nat × Stage) → List Nat
  | some (t, stage) => if k ≤ stage.rank then [t] else []
  | none => []

/-- The writes that got `k` stages far, in the order of the lock. -/
def Ledger.reached (k : Nat) (l : Ledger) : List Nat := ended k l.log ++ running k l.current

/-- The writes whose commit landed. -/
abbrev Ledger.landed (l : Ledger) : List Nat := l.reached 7

/-- The writes that succeeded. -/
abbrev Ledger.succeeded (l : Ledger) : List Nat := l.reached 8

theorem ended_append (k : Nat) (log log' : List (Nat × Outcome)) :
    ended k (log ++ log') = ended k log ++ ended k log' := by
  simp [ended]

theorem mem_ended {k : Nat} {log : List (Nat × Outcome)} {t : Nat} :
    t ∈ ended k log ↔ ∃ o, (t, o) ∈ log ∧ k ≤ o.rank := by
  simp [ended]

theorem mem_running {k : Nat} {current : Option (Nat × Stage)} {t : Nat} :
    t ∈ running k current ↔ ∃ stage, current = some (t, stage) ∧ k ≤ stage.rank := by
  unfold running
  split
  next u stage =>
    split
    next hk => simp only [List.mem_singleton, Option.some.injEq, Prod.mk.injEq]; grind
    next hk => simp only [List.not_mem_nil, Option.some.injEq, Prod.mk.injEq, false_iff]; grind
  next => simp

@[simp] theorem ended_concat (k : Nat) (log : List (Nat × Outcome)) (t : Nat) (o : Outcome) :
    ended k (log ++ [(t, o)]) = ended k log ++ if k ≤ o.rank then [t] else [] := by
  simp only [ended, List.filter_append, List.map_append, List.filter_cons, List.filter_nil]
  split <;> simp_all

@[simp] theorem reached_idle (k : Nat) (s : Stores) (log : List (Nat × Outcome)) :
    Ledger.reached k ⟨s, log, none⟩ = ended k log := by
  simp [Ledger.reached, running]

@[simp] theorem reached_running (k : Nat) (s : Stores) (log : List (Nat × Outcome)) (t : Nat)
    (stage : Stage) :
    Ledger.reached k ⟨s, log, some (t, stage)⟩ = ended k log ++ if k ≤ stage.rank then [t] else [] := rfl

/-- The current write has an accepted path and works on its own page. -/
def Ledger.Aimed (v : Service) (l : Ledger) : Prop :=
  ∀ t stage, l.current = some (t, stage) →
    validatePath (v.req t).path = .ok () ∧ stage.Aims v.wiki (v.req t).path

theorem Wiki.Effect.aims {w : Wiki} {req : WriteRequest} {s s' : Stores} {stage stage' : Stage}
    (h : w.Effect req stage s (.go stage') s') (ha : stage.Aims w req.path) : stage'.Aims w req.path := by
  cases h with
  | root _ hr => exact ⟨hr, rfl⟩
  | file _ _ => exact ha
  | head => exact ha
  | _ => trivial

theorem Ledger.Step.aimed {v : Service} {l l' : Ledger} (h : Step v l l') (hl : l.Aimed v) :
    l'.Aimed v := by
  intro t stage hc
  cases h with
  | start hv _ => cases hc; exact ⟨hv, trivial⟩
  | go he => cases hc; exact ⟨(hl _ _ rfl).1, he.aims (hl _ _ rfl).2⟩
  | stop he => cases hc
  | admin _ _ => exact hl t stage hc

end Wikikiki
