/-
Shutdown: what has become of the writes when `wait_for_writes` returns.

The lock is served first come, first served, so a wait that holds it has
behind it every write that was there before it; without new calls, nothing
else is left (`Drains`). Every accepted write has ended then. That one which
has changed a file has moved HEAD too does not follow: its Git stage may have
failed, and nothing takes the file back (`file_without_commit`).
-/
import Wikikiki.Confined
import Wikikiki.Head

namespace Wikikiki

/-! ## Open writes -/

/-- Between the lock and the end of the write: the lock was handed over, and
the session still holds it. -/
def Phase.isOpen : Phase → Bool
  | .granted | .running _ | .returning _ => true
  | _ => false

/-- Nothing is left of the call: it was not made, given up or rejected, or has
finished. -/
def Phase.isOver : Phase → Bool
  | .idle | .cancelled | .rejected _ | .finished _ => true
  | _ => false

/-- The writers in the queue. -/
def writersOf (task : Nat → Phase) : Waiter → Prop
  | .writer t => task t = .queued
  | .drain _ => False

/-- Every write that waits has its place in the queue. -/
def Enqueued (s : State) : Prop := ∀ j, writersOf s.task j → j ∈ s.lock.queue

/-- What a wait knows of the writes before and after it is served. -/
structure Drains (s : State) (d : Nat) : Prop where
  ahead : s.drain d = .queued → s.lock.Ahead (.drain d) (writersOf s.task)
  left : s.drain d = .granted ∨ s.drain d = .finished → ∀ t, (s.task t).isOver = true

section

variable {v : Service} {s s' : State} {t d : Nat} {ph : Phase} {j : Waiter}

/-- A call that is not queued is no writer in the queue. -/
theorem writersOf_update (hph : ph ≠ .queued) (h : writersOf (Function.update s.task t ph) j) :
    writersOf s.task j ∧ j ≠ .writer t := by
  cases j with
  | drain e => exact h.elim
  | writer u =>
    by_cases hu : u = t
    · subst hu
      exact absurd (by simpa [writersOf] using h) hph
    · exact ⟨by simpa [writersOf, hu] using h, fun he => hu (Waiter.writer.inj he)⟩

theorem handOver_queue (before after : Bool) (m : Mutex Waiter) :
    (handOver before after m).queue = m.queue := by
  cases before <;> cases after <;> rfl

theorem Enqueued.same (h : Enqueued s) (hph : ph ≠ .queued) {m : Mutex Waiter} (hm : m.queue = s.lock.queue) :
    ∀ j, writersOf (Function.update s.task t ph) j → j ∈ m.queue := fun j hj =>
  hm ▸ h j (writersOf_update hph hj).1

theorem step_enqueued {a : Action} (hstep : step v s a = some s') (h : Enqueued s) : Enqueued s' := by
  cases step_cases hstep with
  | rejected _ _ => exact h.same (by simp) rfl
  | @queued t _ _ =>
    intro j hj
    cases j with
    | drain e => exact hj.elim
    | writer u =>
      by_cases hu : u = t
      · simp [Mutex.lock, hu]
      · have hm := h (.writer u) (by simpa [writersOf, State.setTask, hu] using hj)
        simp [Mutex.lock, hm]
  | granted hg =>
    intro j hj
    obtain ⟨hj, hne⟩ := writersOf_update (by simp) hj
    have hm := h j hj
    rw [(Mutex.grant_eq hg).2.1] at hm
    exact (List.mem_cons.1 hm).resolve_left hne
  | drains hg =>
    intro j hj
    have hm := h j hj
    rw [(Mutex.grant_eq hg).2.1] at hm
    exact (List.mem_cons.1 hm).resolve_left (by rintro rfl; exact hj)
  | accepted _ => exact h.same (by simp) rfl
  | abandoned _ =>
    intro j hj
    obtain ⟨hj, hne⟩ := writersOf_update (by simp) hj
    simp [Mutex.abandon, h j hj, hne]
  | dropped _ => exact h.same (by simp) rfl
  | detached _ | fetched _ | loaded _ | admin => exact h
  | @advanced t i stage n _ _ _ => exact h.same (by cases n <;> simp [Next.phase]) (handOver_queue _ _ _)
  | failed _ _ => exact h.same (by simp) (handOver_queue _ _ _)
  | released _ => exact h.same (by simp) rfl
  | waits _ =>
    intro j hj
    simp [Mutex.lock, h j hj]
  | drained _ => exact h

/-! ## Waits -/

/-- A call is over after a step, if it was over before and the step is no
call. -/
theorem step_over {a : Action} (hl : Locked v s) (hstep : step v s a = some s') (ha : ∀ t, a ≠ .call t)
    (h : ∀ t, (s.task t).isOver = true) : ∀ t, (s'.task t).isOver = true := by
  have hno : ∀ {t : Nat} {ph : Phase}, s.task t = ph → ph.isOver = true := fun ht => ht ▸ h _
  cases step_cases hstep with
  | rejected _ _ | queued _ _ => exact absurd rfl (ha _)
  | granted hg =>
    have ht : s.task _ = .queued := hl.lock.grant_waits hg
    exact absurd (hno ht) (by decide)
  | accepted ht | abandoned ht | dropped ht | advanced ht _ | failed ht _ | released ht =>
    exact absurd (hno ht) (by simp [Phase.isOver])
  | _ => exact h

/-- The wait is served: every write before it is over. -/
theorem Drains.served {lock : Mutex Waiter} (h : Drains s d) (hl : Locked v s)
    (hg : s.lock.grant = some (.drain d, lock)) (t : Nat) : (s.task t).isOver = true := by
  have hq : s.drain d = .queued := hl.lock.grant_waits hg
  have hqueue := (h.ahead hq).served hl.lock.nodup hg (.writer t)
  have hfree := hl.lock.zero_of_free (Mutex.grant_eq hg).1 (.writer t)
  cases ht : s.task t with
  | queued => exact absurd ht hqueue
  | granted | running _ | returning _ =>
    rw [guardsOf, ht] at hfree
    simp only [Phase.guards] at hfree
    first | omega | (split at hfree <;> omega)
  | _ => rfl

theorem Drains.same (h : Drains s d) (hph : ph ≠ .queued) {m : Mutex Waiter} (hm : m.queue = s.lock.queue)
    (hq : s.drain d = .queued) : m.Ahead (.drain d) (writersOf (Function.update s.task t ph)) := by
  obtain ⟨pre, post, hqueue, hw⟩ := h.ahead hq
  exact ⟨pre, post, hm.trans hqueue, fun j hj => hw j (writersOf_update hph hj).1⟩

theorem step_drains {a : Action} (hl : Locked v s) (hstep : step v s a = some s') (ha : ∀ t, a ≠ .call t)
    (h : Drains s d) (hd : s.drain d ≠ .idle) : Drains s' d ∧ s'.drain d ≠ .idle := by
  have hover := step_over hl hstep ha
  cases step_cases hstep with
  | rejected _ _ | queued _ _ => exact absurd rfl (ha _)
  | granted hg =>
    refine ⟨⟨fun hq => ?_, fun hq => hover (h.left hq)⟩, hd⟩
    exact (h.ahead hq).grant hg (by simp) fun k hk => writersOf_update (by simp) hk
  | @drains e lock hg =>
    by_cases he : d = e
    · subst he
      exact ⟨⟨by simp, fun _ => h.served hl hg⟩, by simp⟩
    · refine ⟨⟨fun hq => ?_, fun hq => ?_⟩, by simpa [he] using hd⟩
      · simp only [Function.update_of_ne he] at hq
        exact (h.ahead hq).grant hg (by simp [he]) fun k hk => ⟨hk, by rintro rfl; exact hk⟩
      · simp only [Function.update_of_ne he] at hq
        exact h.left hq
  | accepted _ | dropped _ | released _ =>
    exact ⟨⟨h.same (by simp) rfl, fun hq => hover (h.left hq)⟩, hd⟩
  | abandoned _ =>
    refine ⟨⟨fun hq => ?_, fun hq => hover (h.left hq)⟩, hd⟩
    exact (h.ahead hq).abandon (by simp) fun k hk => writersOf_update (by simp) hk
  | detached _ | fetched _ | loaded _ | admin => exact ⟨⟨h.ahead, h.left⟩, hd⟩
  | @advanced t i stage n _ _ _ =>
    exact ⟨⟨h.same (by cases n <;> simp [Next.phase]) (handOver_queue _ _ _),
      fun hq => hover (h.left hq)⟩, hd⟩
  | failed _ _ =>
    exact ⟨⟨h.same (by simp) (handOver_queue _ _ _), fun hq => hover (h.left hq)⟩, hd⟩
  | @waits e he =>
    have hne : d ≠ e := by rintro rfl; exact hd he
    refine ⟨⟨fun hq => ?_, fun hq => ?_⟩, by simpa [hne] using hd⟩
    · simp only [Function.update_of_ne hne] at hq
      exact (h.ahead hq).lock _
    · simp only [Function.update_of_ne hne] at hq
      exact h.left hq
  | @drained e he =>
    by_cases hne : d = e
    · subst hne
      exact ⟨⟨by simp, fun _ => h.left (.inl he)⟩, by simp⟩
    · refine ⟨⟨fun hq => ?_, fun hq => ?_⟩, by simpa [hne] using hd⟩
      · simp only [Function.update_of_ne hne] at hq
        exact h.ahead hq
      · simp only [Function.update_of_ne hne] at hq
        exact h.left hq

end

/-- In the run from `start` to `s`, `wait_for_writes` is called, no write is
called after it, and it has returned. -/
structure Drained (v : Service) (start : State) (as : List Action) (s : State) (d : Nat) : Prop where
  run : ∃ as₁ as₂ s₁, as = as₁ ++ .wait d :: as₂ ∧ v.run start as₁ = some s₁ ∧
    v.run s₁ (.wait d :: as₂) = some s ∧ ∀ t, .call t ∉ as₂
  returned : s.drain d = .finished

section

variable {v : Service} {stores : Stores} {start s s' s₁ s₂ : State} {as : List Action} {t d : Nat}

theorem Drained.whole (h : Drained v start as s d) : v.run start as = some s := by
  obtain ⟨as₁, as₂, s₁, rfl, h₁, h₂, -⟩ := h.run
  exact Run.run_append.2 ⟨s₁, h₁, h₂⟩

/-- No call is left when the wait returns. -/
theorem Drained.left (h : Drained v (.opened stores) as s d) (t : Nat) : (s.task t).isOver = true := by
  obtain ⟨as₁, as₂, s₁, -, h₁, h₂, hcalls⟩ := h.run
  have hlocked := ((Serving.opened v stores).run h₁).locked
  have hqueue : Enqueued s₁ := Run.invariant step_enqueued h₁ fun j hj => by
    cases j with
    | writer t => cases hj
    | drain e => exact hj.elim
  obtain ⟨s₂, hwait, h₂⟩ := Run.run_cons.1 h₂
  have hl₂ := step_locked hwait hlocked
  have hstart : Drains s₂ d ∧ s₂.drain d ≠ .idle := by
    cases step_cases hwait with
    | waits _ => exact ⟨⟨fun _ => Mutex.ahead_lock hqueue _, by simp⟩, by simp⟩
  have hend : Locked v s ∧ Drains s d ∧ s.drain d ≠ .idle :=
    Run.invariant_of (P := fun a => ∀ t, a ≠ .call t)
      (I := fun s => Locked v s ∧ Drains s d ∧ s.drain d ≠ .idle)
      (fun ha hstep hI => ⟨step_locked hstep hI.1, step_drains hI.1 hstep ha hI.2.1 hI.2.2⟩)
      (fun a hm t he => hcalls t (by rw [← he]; exact hm)) h₂ ⟨hl₂, hstart⟩
  exact hend.2.1.left (.inr h.returned) t

/-! ## What the writes have done -/

/-- The write whose task an action is a step of. -/
def Action.writer : Action → Option Nat
  | .advance t _ | .fail t _ _ => some t
  | _ => none

/-- A step of the write changes a file. -/
def ChangesFile (t : Nat) (s : State) (a : Action) (s' : State) : Prop :=
  a.writer = some t ∧ ∃ p, s'.stores.disk.read p ≠ s.stores.disk.read p

/-- A step of the write moves HEAD to a new commit. -/
def MovesHead (t : Nat) (s : State) (a : Action) (s' : State) : Prop :=
  a.writer = some t ∧ ∃ c, s'.stores.git = c :: s.stores.git

/-- A write that has changed a file has got past its checks. -/
theorem ChangesFile.reached {a : Action} (h : ChangesFile t s a s') (hstep : step v s a = some s')
    (hs : Serving v s) : t ∈ s'.ledger.reached 4 := by
  have ho := (hs.step hstep).ordered
  obtain ⟨hw, p, hp⟩ := h
  rw [ho.mem_reached]
  cases step_cases hstep with
  | @advanced u i stage n stores ht he =>
    cases hw
    rcases Wiki.exec_read he with hsame | ⟨rel, d, rfl, rfl, -⟩
    · exact absurd (congrFun hsame p) hp
    · exact .inl ⟨.readHead rel, by simp [State.setTask, Next.phase], by simp [Stage.rank]⟩
  | @failed u e l stage disk ht hl =>
    cases hw
    rcases Wiki.leave_read hl with hsame | ⟨rel, data, d₁, rfl, -⟩
    · exact absurd (congrFun hsame p) hp
    · refine .inr ⟨.failed (.writeFile rel) e, by simp [State.setTask, Phase.outcome], ?_⟩
      exact Nat.le_refl 4
  | _ => cases hw

/-- A write that lands moves HEAD. -/
theorem Landing.moves (h : Landing v (.opened stores) as s t s₁ s₂) :
    Run.Took (step v) (MovesHead t) (.opened stores) as s := by
  obtain ⟨as₁, a, as₂, has, h₁, hstep, h₂⟩ := h.run
  refine ⟨as₁, a, as₂, s₁, s₂, has, h₁, hstep, h₂, ?_⟩
  obtain ⟨rel, parent, hbefore⟩ := h.before
  obtain ⟨oid, hafter⟩ := h.after
  have hserving : Serving v s₁ := (Serving.opened v stores).run h₁
  cases step_alone hserving hbefore hstep with
  | still _ htask | admin _ _ _ _ htask | failed _ _ _ _ _ htask => rw [htask] at hafter; cases hafter
  | worked i n ha he htask =>
    refine ⟨ha ▸ rfl, ?_⟩
    rw [htask] at hafter
    cases n with
    | stop o => cases hafter
    | go stage' =>
      cases hs : s₂.stores with
      | mk disk git db =>
        rw [hs] at he
        cases Wiki.exec_effect he with
        | commit _ => exact ⟨_, rfl⟩

/-- Of two open writes there is only one. -/
theorem Locked.open_unique (h : Locked v s) {t u : Nat} (ht : (s.task t).isOpen = true)
    (hu : (s.task u).isOpen = true) : t = u := by
  have hpos : ∀ {t}, (s.task t).isOpen = true → 0 < guardsOf s.task s.drain (.writer t) := by
    intro t ht
    cases hph : s.task t with
    | granted | returning _ => rw [guardsOf, hph, Phase.guards]; decide
    | running stage =>
      rw [guardsOf, hph, Phase.guards]
      split <;> decide
    | _ => rw [hph] at ht; cases ht
  exact Waiter.writer.inj (h.lock.exclusive (hpos ht) (hpos hu))

/-- What is known of a write that has changed a file, when it has ended. -/
structure Complete (v : Service) (start : State) (as : List Action) (s : State) (t : Nat) : Prop where
  head : Run.Took (step v) (MovesHead t) start as s
  recorded : (∃ info, s.task t = .finished (.done info)) ∨
    ∃ oid e, s.task t = .finished (.failed (.project oid) e)

/-- **Writes at shutdown.** At most one write is between acquiring the lock
and its end. When `wait_for_writes` returns and no write was called after it,
no call is left; and a write that has changed a file has moved HEAD and
committed or failed its transaction, or else its file or Git stage failed. -/
theorem drained_writes (v : Service) (stores : Stores) :
    (∀ as s, v.run (.opened stores) as = some s →
      ∀ t u, (s.task t).isOpen = true → (s.task u).isOpen = true → t = u) ∧
    ∀ as s d, Drained v (.opened stores) as s d → ∀ t, (s.task t).isOver = true ∧
      (Run.Took (step v) (ChangesFile t) (.opened stores) as s → Complete v (.opened stores) as s t ∨
        ∃ stage e, s.task t = .finished (.failed stage e) ∧ stage.inWorker = true) := by
  refine ⟨fun as s hr t u => ((Serving.opened v stores).run hr).locked.open_unique, ?_⟩
  intro as s d hd t
  refine ⟨hd.left t, fun htook => ?_⟩
  obtain ⟨pre, a, post, s₁, s₂, -, h₁, hstep, h₂, hchange⟩ := htook
  have hs₁ := (Serving.opened v stores).run h₁
  have hfar := ((hs₁.step hstep).steps h₂).mem_reached (by omega) (hchange.reached hstep hs₁)
  have ho := ((hs₁.step hstep).run h₂).ordered
  have hover := hd.left t
  rcases ho.mem_reached.1 hfar with ⟨stage, ht, -⟩ | ⟨o, hout, hrank⟩
  · rw [ht] at hover
    cases hover
  have ht : s.task t = .finished o := by
    cases hph : s.task t <;> rw [hph] at hout hover <;> cases hout
    · cases hover
    · rfl
  have hlands : 7 ≤ o.rank → Run.Took (step v) (MovesHead t) (.opened stores) as s := by
    intro h7
    obtain ⟨s₃, s₄, hl⟩ := exists_landing_of_landed hd.whole (ho.mem_landed.2 (.inr ⟨o, hout, h7⟩))
    exact hl.moves
  cases o with
  | refused e => exact absurd hrank (by simp [Outcome.rank])
  | done info => exact .inl ⟨hlands (by simp [Outcome.rank]), .inl ⟨info, ht⟩⟩
  | failed stage e =>
    cases stage with
    | project oid => exact .inl ⟨hlands (Nat.le_refl 7), .inr ⟨oid, e, ht⟩⟩
    | writeFile _ | readHead _ | commit _ _ => exact .inr ⟨_, _, ht, rfl⟩
    | _ => exact absurd hrank (by simp [Outcome.rank, Stage.rank])

/-- A write that has its file when the service shuts down, and one that gives
up behind it. -/
theorem drained_writes_small :
    ∃ as s, Drained Service.small (.opened (.small none)) as s 0 ∧ s.task 1 = .cancelled ∧
      (∀ t, (s.task t).isOver = true) ∧ Complete Service.small (.opened (.small none)) as s 0 := by
  obtain ⟨s₁, hs₁⟩ : ∃ s₁, Service.small.run (.opened (.small none))
      ([.call 0, .call 1, .grant, .accept 0] ++ List.replicate 4 (.advance 0 ⟨1, []⟩)) = some s₁ := ⟨_, rfl⟩
  obtain ⟨s₂, hs₂⟩ : ∃ s₂, step Service.small s₁ (.advance 0 ⟨1, []⟩) = some s₂ := by
    cases hs₁; exact ⟨_, rfl⟩
  obtain ⟨s₃, hs₃⟩ : ∃ s₃, Service.small.run s₂
      ([.wait 0, .cancel 1] ++ List.replicate 3 (.advance 0 ⟨1, []⟩) ++ [.release 0, .grant, .drained 0]) = some s₃ := by
    cases hs₁; cases hs₂; exact ⟨_, rfl⟩
  have hrun := Run.run_append.2 ⟨s₁, hs₁, Run.run_cons.2 ⟨s₂, hs₂, by rw [Run.run]⟩⟩
  obtain ⟨as, hd, htook⟩ : ∃ as, Drained Service.small (.opened (.small none)) as s₃ 0 ∧
      Run.Took (step Service.small) (ChangesFile 0) (.opened (.small none)) as s₃ := by
    refine ⟨_, ⟨⟨_, _, s₂, rfl, hrun, hs₃, by simp⟩, ?_⟩, ?_⟩
    · cases hs₁; cases hs₂; cases hs₃; rfl
    · refine ⟨_, _, _, s₁, s₂, List.append_assoc _ _ _, hs₁, hs₂, hs₃, rfl,
        filePath Wiki.small.contentRoot "notes".toList, ?_⟩
      cases hs₁; cases hs₂; decide
  have hleft := (drained_writes Service.small (.small none)).2 as s₃ 0 hd
  refine ⟨as, s₃, hd, ?_, fun t => (hleft t).1, ((hleft 0).2 htook).resolve_right ?_⟩
  · cases hs₁; cases hs₂; cases hs₃; rfl
  · rintro ⟨stage, e, ht, -⟩
    cases hs₁; cases hs₂; cases hs₃; cases ht

/-- **A file without a commit.** A page below `.git` is written, Git refuses
its path, and the service has shut down with the file changed and HEAD where
it was. -/
theorem file_without_commit :
    validatePath (Service.intruder.req 0).path = .ok () ∧ ∃ as s,
      Drained Service.intruder (.opened (.small none)) as s 0 ∧
      Run.Took (step Service.intruder) (ChangesFile 0) (.opened (.small none)) as s ∧
      s.stores.git = (Stores.small none).git ∧
      ¬ Complete Service.intruder (.opened (.small none)) as s 0 := by
  refine ⟨by decide, ?_⟩
  obtain ⟨s₁, hs₁⟩ : ∃ s₁, Service.intruder.run (.opened (.small none))
      ([.call 0, .grant, .accept 0] ++ List.replicate 4 (.advance 0 ⟨1, []⟩)) = some s₁ := ⟨_, rfl⟩
  obtain ⟨s₂, hs₂⟩ : ∃ s₂, step Service.intruder s₁ (.advance 0 ⟨1, []⟩) = some s₂ := by
    cases hs₁; exact ⟨_, rfl⟩
  obtain ⟨s₃, hs₃⟩ : ∃ s₃, Service.intruder.run s₂
      [.wait 0, .advance 0 ⟨1, []⟩, .advance 0 ⟨1, []⟩, .release 0, .grant, .drained 0] = some s₃ := by
    cases hs₁; cases hs₂; exact ⟨_, rfl⟩
  have hrun := Run.run_append.2 ⟨s₁, hs₁, Run.run_cons.2 ⟨s₂, hs₂, by rw [Run.run]⟩⟩
  refine ⟨_, s₃, ⟨⟨_, _, s₂, rfl, hrun, hs₃, by simp⟩, ?_⟩, ?_, ?_, fun hc => ?_⟩
  · cases hs₁; cases hs₂; cases hs₃; rfl
  · refine ⟨_, _, _, s₁, s₂, List.append_assoc _ _ _, hs₁, hs₂, hs₃, rfl,
      filePath Wiki.small.contentRoot ".git/refs/heads/main".toList, ?_⟩
    cases hs₁; cases hs₂; decide
  · cases hs₁; cases hs₂; cases hs₃; rfl
  · rcases hc.recorded with ⟨info, ht⟩ | ⟨oid, e, ht⟩ <;> cases hs₁ <;> cases hs₂ <;> cases hs₃ <;> cases ht

end

end Wikikiki
