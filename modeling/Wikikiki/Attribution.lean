/-
Who writes (web/mod.rs, pages/mod.rs): whatever changes a page was asked for
by a request whose credential was good when it was looked at, and is in the
name of the actor that it was good for, checked once more under the lock.

Each step on the way of a request knows what the steps before it have found
(`Web.Known`), and each write in the system knows the request behind it
(`Web.Owned`). Both are about the run so far and not about the state alone:
the credential may be long gone when the write is made.
-/
import Wikikiki.Requests
import Wikikiki.Tokens

namespace Wikikiki

/-! ## What changes the pages -/

/-- Some page store is not the same. -/
def Stores.PagesChanged (s s' : Stores) : Prop :=
  s'.disk ≠ s.disk ∨ s'.git ≠ s.git ∨ s'.db.pages ≠ s.db.pages ∨ s'.db.pageEdits ≠ s.db.pageEdits ∨
    s'.db.pagesFts ≠ s.db.pagesFts

/-- A stage of the write, or its death. -/
inductive Action.Stages : Action → Nat → Prop
  | advance (t : Nat) (i : Input) : Stages (.advance t i) t
  | fail (t : Nat) (e : AppError) (l : Leftover) : Stages (.fail t e l) t

section

variable {v : Service} {s s' : State} {a : Action}

/-- The checks leave the stores alone. -/
theorem Wiki.Effect.stores_of_check {w : Wiki} {req : WriteRequest} {stage : Stage} {d d' : Stores} {n : Next}
    (h : w.Effect req stage d n d') (hlt : stage.rank < 3) : d' = d := by
  cases h with
  | failed _ hcheck => rw [hcheck hlt]
  | root => exact absurd hlt (by decide)
  | file => exact absurd hlt (by simp [Stage.rank])
  | commit => exact absurd hlt (by simp [Stage.rank])
  | project => exact absurd hlt (by simp [Stage.rank])
  | _ => rfl

/-- The pages change in a stage of a write behind its checks. -/
theorem step_changes (hstep : step v s a = some s') (h : s.stores.PagesChanged s'.stores) :
    ∃ t stage n, a.Stages t ∧ s.task t = .running stage ∧ 3 ≤ stage.rank ∧
      v.wiki.Effect (v.req t) stage s.stores n s'.stores := by
  have hsame : ¬ s.stores.PagesChanged s.stores := by simp [Stores.PagesChanged]
  cases step_cases hstep with
  | @advanced t i stage n stores ht he =>
    have heff := Wiki.exec_effect he
    refine ⟨t, stage, n, .advance t i, ht, ?_, heff⟩
    by_contra hlt
    have hst : stores = s.stores := heff.stores_of_check (by omega)
    exact hsame (hst ▸ h)
  | @failed t e l stage disk ht hl =>
    have heff : v.wiki.Effect (v.req t) stage s.stores (.stop (.failed stage e)) { s.stores with disk } :=
      Wiki.leave_effect hl
    refine ⟨t, stage, _, .fail t e l, ht, ?_, heff⟩
    by_contra hlt
    have hst : { s.stores with disk } = s.stores := heff.stores_of_check (by omega)
    exact hsame (hst ▸ h)
  | admin => exact absurd h hsame
  | _ => exact absurd h hsame

/-- A write that runs ran before, or has just been accepted, or has finished
the stage before. -/
theorem step_running (hstep : step v s a = some s') {t : Nat} {stage : Stage} (ht : s'.task t = .running stage) :
    s.task t = .running stage ∨ stage = .checkLayer ∨
      ∃ i before stores, a = .advance t i ∧ s.task t = .running before ∧
        v.wiki.exec (v.req t) i before s.stores = (.go stage, stores) := by
  have hset : ∀ {u : Nat} {ph : Phase}, Function.update s.task u ph t = .running stage → ph ≠ .running stage →
      s.task t = .running stage := by
    intro u ph hu hne
    by_cases htu : t = u
    · subst htu
      rw [Function.update_self] at hu
      exact absurd hu hne
    · rwa [Function.update_of_ne htu] at hu
  cases step_cases hstep with
  | rejected => exact .inl (hset ht (by simp))
  | queued => exact .inl (hset ht (by simp))
  | granted => exact .inl (hset ht (by simp))
  | @accepted u hu =>
    by_cases htu : t = u
    · subst htu
      have ht' : Function.update s.task t (.running .checkLayer) t = .running stage := ht
      rw [Function.update_self] at ht'
      cases ht'
      exact .inr (.inl rfl)
    · have ht' : Function.update s.task u (.running .checkLayer) t = .running stage := ht
      rw [Function.update_of_ne htu] at ht'
      exact .inl ht'
  | abandoned => exact .inl (hset ht (by simp))
  | dropped => exact .inl (hset ht (by simp))
  | @advanced u i before n stores hu he =>
    by_cases htu : t = u
    · subst htu
      have ht' : Function.update s.task t n.phase t = .running stage := ht
      rw [Function.update_self] at ht'
      cases n with
      | go next => cases ht'; exact .inr (.inr ⟨i, before, stores, rfl, hu, he⟩)
      | stop o => cases ht'
    · have ht' : Function.update s.task u n.phase t = .running stage := ht
      rw [Function.update_of_ne htu] at ht'
      exact .inl ht'
  | failed => exact .inl (hset ht (by simp))
  | released => exact .inl (hset ht (by simp))
  | _ => exact .inl ht

/-- Only a call begins a write. -/
theorem step_idle (h : Locked v s) (hstep : step v s a = some s') {t : Nat} (hcall : a ≠ .call t)
    (ht : s.task t = .idle) : s'.task t = .idle := by
  have hset : ∀ {u : Nat} {ph : Phase}, s.task u ≠ .idle → Function.update s.task u ph t = .idle := by
    intro u ph hu
    have htu : t ≠ u := fun he => hu (he ▸ ht)
    rwa [Function.update_of_ne htu]
  cases step_cases hstep with
  | @rejected u e hu hv =>
    have htu : t ≠ u := fun he => hcall (by rw [he])
    simpa [State.setTask, Function.update_of_ne htu] using ht
  | @queued u hu hv =>
    have htu : t ≠ u := fun he => hcall (by rw [he])
    simpa [State.setTask, Function.update_of_ne htu] using ht
  | @granted u lock hg =>
    have hw : s.task u = .queued := h.lock.grant_waits hg
    exact hset (by rw [hw]; simp)
  | accepted hu => exact hset (by rw [hu]; simp)
  | abandoned hu => exact hset (by rw [hu]; simp)
  | dropped hu => exact hset (by rw [hu]; simp)
  | advanced hu => exact hset (by rw [hu]; simp)
  | failed hu => exact hset (by rw [hu]; simp)
  | released hu => exact hset (by rw [hu]; simp)
  | _ => exact ht

/-- The lock is the write's while it checks the actor. -/
theorem Locked.held {t : Nat} (h : Locked v s) (ht : s.task t = .running .checkActor) :
    s.lock.held = some (.writer t, 0) := by
  have hg : guardsOf s.task s.drain (.writer t) = 1 := by rw [guardsOf, ht]; rfl
  obtain ⟨n, hheld, hn⟩ := h.lock.held_of_pos (i := .writer t) (by omega)
  rw [hheld, show n = 0 by omega]

end

/-! ## Credentials -/

namespace Web

/-- A token that `verify` accepts: its row is there, not revoked and not
expired, holds its secret, and is that of the active actor. -/
def TokenGood (v : Web) (s : State) (token : Text) (now : Int) (actor : Actor) : Prop :=
  ∃ lookup secret id c a, parseToken token = some (lookup, secret) ∧ (id, c) ∈ s.access.credentials.rows ∧
    c.kind = "token".toList ∧ c.lookupKey = some lookup ∧ c.revokedAt = none ∧ (∀ e ∈ c.expiresAt, now < e) ∧
    acceptsSecret v.site.wiki.ext v.site.argon2 secret c.secretHash ∧ s.actors.get c.actorId = some a ∧
    a.isActive ≠ 0 ∧ a.actor c.actorId = actor

/-- A session that `lookup` finds: its row is there, not revoked and not
expired, and is the actor's. -/
def SessionGood (s : State) (sid : Text) (now actorId : Int) : Prop :=
  ∃ r ∈ s.access.sessions, r.id = sid ∧ r.revokedAt = none ∧ now < r.expiresAt ∧ r.actorId = actorId

theorem tokenGood_of_judge {v : Web} {s : State} {token : Text} {now id : Int} {actor : Actor} {digest : Option Text}
    (h : s.access.judge v.site.wiki.ext v.site.argon2 s.actors now token = .accepted actor id digest) :
    v.TokenGood s token now actor := by
  obtain ⟨lookup, secret, c, a, hp, hf, hc, ha⟩ := Access.judge_accepted.1 h
  obtain ⟨hrow, hl, hr, hget⟩ := Access.findToken_eq_some.1 hf
  obtain ⟨hm, hk⟩ := Access.tokenRow_eq_some.1 hrow
  obtain ⟨hexp, hact, hsec⟩ := checkToken_accepted.1 ⟨digest, hc⟩
  exact ⟨lookup, secret, id, c, a, hp, hm, hk, hl, hr, hexp, hsec, hget, hact, ha⟩

theorem sessionGood_of_live {s : State} {sid : Text} {now : Int} {r : SessionRow}
    (h : s.access.liveSession sid now = some r) : SessionGood s sid now r.actorId := by
  have hp := List.find?_some h
  simp only [decide_eq_true_eq] at hp
  exact ⟨r, List.mem_of_find?_eq_some h, hp.1, hp.2.1, hp.2.2, rfl⟩

/-! ## The way of a request -/

section

variable (v : Web) (s₀ : State) (as : List Action) (s : State) (k : Nat)

/-- The run has found the session of the request to be the actor's. -/
def SessionFound (actorId : Int) : Prop :=
  Run.Passed v.step (fun _ t a _ => ∃ sid now, a = .lookup k now true ∧ (v.request k).sessionId = some sid ∧
    SessionGood t sid now actorId) s₀ as s

/-- The run has found who makes the request: the actor of its token, or, when
its session had been found, the actor of that. -/
def Presented (actor : Actor) : Prop :=
  Run.Passed v.step (fun _ t a _ => ∃ token now, a = .verify k now true ∧ (v.request k).bearer = some token ∧
    v.TokenGood t token now actor) s₀ as s ∨
  ∃ actorId, Run.Passed v.step (fun pre t a _ => a = .findActor k true ∧ v.SessionFound s₀ pre t k actorId ∧
    actorById t.actors actorId = some actor ∧ actor.isActive = true) s₀ as s

/-- The run has found, under the lock, that the actor whom it had presented is
still active and the same. -/
def Rechecked (actor : Actor) : Prop :=
  Run.Passed v.step (fun pre t a _ => (∃ i, a = .core (.advance k i)) ∧ v.Presented s₀ pre t k actor ∧
    t.core.lock.held = some (.writer k, 0) ∧
    ∃ b, t.core.stores.db.actorById actor.id = some b ∧ b.isActive = true ∧ b.actorType = actor.actorType ∧
      b.handle = actor.handle) s₀ as s

/-- What a request in a phase has behind it. -/
def Known : Phase → Prop
  | .verifying token => (v.request k).bearer = some token
  | .upgrading actor _ _ | .touching actor _ => v.Presented s₀ as s k actor
  | .lookingUp sid => (v.request k).sessionId = some sid
  | .findingActor actorId => v.SessionFound s₀ as s k actorId
  | .ready (some auth) | .writing auth => v.Presented s₀ as s k auth.actor
  | _ => True

/-- A write in the system is that of a request which may write, in the name of
its actor, who was checked again when the write is past that. -/
structure Owned (actor : Actor) : Prop where
  isWrite : (v.request k).IsWrite
  by' : (s.writes k).By actor
  presented : v.Presented s₀ as s k actor
  rechecked : ∀ stage, s.core.task k = .running stage → 2 ≤ stage.rank → v.Rechecked s₀ as s k actor

/-- The invariant. -/
structure Traced : Prop where
  locked : Locked (v.service s) s.core
  known : ∀ k, v.Known s₀ as s k (s.phase k)
  early : ∀ k, (s.phase k).early = true → s.core.task k = .idle
  owned : ∀ k, s.core.task k ≠ .idle → ∃ actor, v.Owned s₀ as s k actor

end

section

variable {v : Web} {s₀ s s' : State} {as : List Action} {a : Action} {k : Nat} {actor : Actor} {ph : Phase}

/-! ### Nothing found is lost -/

theorem SessionFound.concat {actorId : Int} (h : v.SessionFound s₀ as s k actorId) (ha : v.step s a = some s') :
    v.SessionFound s₀ (as ++ [a]) s' k actorId :=
  Run.Passed.concat h ha

theorem Presented.concat (h : v.Presented s₀ as s k actor) (ha : v.step s a = some s') :
    v.Presented s₀ (as ++ [a]) s' k actor := by
  rcases h with h | ⟨actorId, h⟩
  · exact .inl (h.concat ha)
  · exact .inr ⟨actorId, h.concat ha⟩

theorem Known.concat (h : v.Known s₀ as s k ph) (ha : v.step s a = some s') :
    v.Known s₀ (as ++ [a]) s' k ph := by
  cases ph with
  | verifying token => exact h
  | upgrading actor id digest => exact Presented.concat h ha
  | touching actor id => exact Presented.concat h ha
  | lookingUp sid => exact h
  | findingActor actorId => exact SessionFound.concat h ha
  | ready auth =>
    cases auth with
    | none => trivial
    | some auth => exact Presented.concat h ha
  | writing auth => exact Presented.concat h ha
  | _ => trivial

theorem known_trySession (v : Web) (s₀ : State) (as : List Action) (s : State) (k : Nat) :
    v.Known s₀ as s k (v.trySession k) := by
  unfold trySession
  split
  next hsid => exact hsid
  · trivial

/-- What a request goes on with, it has found in this step or before. -/
theorem Move.known (hr : v.run s₀ as = some s) (ha : v.step s a = some s') (hk : v.Known s₀ as s k (s.phase k))
    (h : v.Move s a k ph) : v.Known s₀ (as ++ [a]) s' k ph := by
  cases h with
  | arrived =>
    unfold begin
    split
    next hb => exact hb
    · exact known_trySession ..
  | accepted hp hj =>
    rw [hp] at hk
    exact .inl (Run.passed_concat hr ha ⟨_, _, rfl, hk, tokenGood_of_judge hj⟩)
  | rejected => exact known_trySession ..
  | upgraded hp =>
    rw [hp] at hk
    exact Presented.concat hk ha
  | touched hp =>
    rw [hp] at hk
    exact Presented.concat hk ha
  | found hp hl =>
    rw [hp] at hk
    exact Run.passed_concat hr ha ⟨_, _, rfl, hk, sessionGood_of_live hl⟩
  | identified hp hactor hact =>
    rw [hp] at hk
    exact .inr ⟨_, Run.passed_concat hr ha ⟨rfl, hk, hactor, hact⟩⟩
  | nobody => trivial
  | answered => trivial
  | gone => trivial

/-! ### The steps -/

theorem Owned.concat (h : v.Owned s₀ as s k actor) (ha : v.step s a = some s') (hwrites : s'.writes k = s.writes k)
    (hre : ∀ stage, s'.core.task k = .running stage → 2 ≤ stage.rank → v.Rechecked s₀ (as ++ [a]) s' k actor) :
    v.Owned s₀ (as ++ [a]) s' k actor :=
  ⟨h.isWrite, hwrites ▸ h.by', h.presented.concat ha, hre⟩

/-- A step that leaves the writes alone. -/
theorem Owned.same (h : v.Owned s₀ as s k actor) (ha : v.step s a = some s') (hwrites : s'.writes k = s.writes k)
    (htask : s'.core.task k = s.core.task k) : v.Owned s₀ (as ++ [a]) s' k actor :=
  h.concat ha hwrites fun stage hs hrank => Run.Passed.concat (h.rechecked stage (htask ▸ hs) hrank) ha

/-- The check of the actor passes for the actor whom the request presented. -/
theorem rechecked_of_exec (ht : v.Traced s₀ as s) (hr : v.run s₀ as = some s) (ho : v.Owned s₀ as s k actor)
    {i : Input} (ha : v.step s (.core (.advance k i)) = some s') (htask : s.core.task k = .running .checkActor)
    {next : Stage} {stores : Stores}
    (he : v.site.wiki.exec (s.writes k) i .checkActor s.core.stores = (.go next, stores)) :
    v.Rechecked s₀ (as ++ [.core (.advance k i)]) s' k actor := by
  refine Run.passed_concat hr ha ⟨⟨i, rfl⟩, ho.presented, ht.locked.held htask, ?_⟩
  rcases checkActor_spec s.core.stores.db (s.writes k) with ⟨-, hok⟩ | ⟨-, e, hbad, -⟩
  · obtain ⟨b, hb, hact, hty, hh⟩ := Decidable.not_not.1 hok
    rw [ho.by'.actorId] at hb
    exact ⟨b, hb, hact, hty.trans ho.by'.actorType, hh.trans ho.by'.actorHandle⟩
  · simp only [Wiki.exec, hbad] at he
    cases he

/-- A write that runs behind the check of its actor has passed it. -/
theorem Owned.worked (ht : v.Traced s₀ as s) (hr : v.run s₀ as = some s) (ho : v.Owned s₀ as s k actor)
    {b : Wikikiki.Action} {core : Wikikiki.State} (hc : Wikikiki.step (v.service s) s.core b = some core)
    (ha : v.step s (.core b) = some { s with core }) : v.Owned s₀ (as ++ [.core b]) { s with core } k actor := by
  refine ho.concat ha rfl fun stage hs hrank => ?_
  rcases step_running hc hs with hbefore | rfl | ⟨i, before, stores, rfl, hbefore, he⟩
  · exact Run.Passed.concat (ho.rechecked stage hbefore hrank) ha
  · exact absurd hrank (by decide)
  · have hnext := Wiki.exec_rank he
    by_cases hlate : 2 ≤ before.rank
    · exact Run.Passed.concat (ho.rechecked before hbefore hlate) ha
    · cases before with
      | checkActor => exact rechecked_of_exec ht hr ho ha hbefore he
      | checkLayer =>
        have hfirst : Stage.checkLayer.rank = 0 := rfl
        omega
      | _ => exact absurd (by simp [Stage.rank]) hlate

/-- Where one request goes on to a phase that is known, all of them are. -/
theorem Traced.known_update (ht : v.Traced s₀ as s) (ha : v.step s a = some s')
    (hphase : s'.phase = Function.update s.phase k ph) (hk : v.Known s₀ (as ++ [a]) s' k ph) (j : Nat) :
    v.Known s₀ (as ++ [a]) s' j (s'.phase j) := by
  rw [hphase]
  by_cases hjk : j = k
  · subst hjk
    rw [Function.update_self]
    exact hk
  · rw [Function.update_of_ne hjk]
    exact (ht.known j).concat ha

/-- A write that is not in the system yet may be any. -/
theorem Traced.locked_update (ht : v.Traced s₀ as s) (hidle : s.core.task k = .idle) (wreq : WriteRequest) :
    Locked { v.service s with req := Function.update s.writes k wreq } s.core := by
  refine ⟨ht.locked.lock, fun t hqueued => ?_⟩
  have htk : t ≠ k := by
    intro he
    subst he
    rw [hidle] at hqueued
    simp at hqueued
  simp only [Function.update_of_ne htk]
  exact ht.locked.valid t hqueued

theorem Traced.step (ht : v.Traced s₀ as s) (hr : v.run s₀ as = some s) (ha : v.step s a = some s') :
    v.Traced s₀ (as ++ [a]) s' := by
  have hother : ∀ {j k : Nat} {ph : Phase}, j ≠ k → s'.phase = Function.update s.phase k ph →
      s'.phase j = s.phase j := fun hjk hphase => by rw [hphase, Function.update_of_ne hjk]
  cases step_cases ha with
  | @moved _ k ph _ hm hearly hcore hwrites hphase =>
    have hself : s'.phase k = ph := by rw [hphase, Function.update_self]
    refine ⟨?_, ht.known_update ha hphase (hm.known hr ha (ht.known k)), fun j hj => ?_, fun j hj => ?_⟩
    · have hs : v.service s' = v.service s := by simp only [service, hwrites]
      rw [hs, hcore]
      exact ht.locked
    · rw [hcore]
      by_cases hjk : j = k
      · subst hjk
        exact ht.early j (hearly (hself ▸ hj))
      · exact ht.early j (hother hjk hphase ▸ hj)
    · rw [hcore] at hj
      obtain ⟨actor, ho⟩ := ht.owned j hj
      exact ⟨actor, ho.same ha (by rw [hwrites]) (by rw [hcore])⟩
  | @started k env auth wreq core _ hp hw hby hc hcore hwrites hphase =>
    have hself : s'.phase k = .writing auth := by rw [hphase, Function.update_self]
    have hpres : v.Presented s₀ as s k auth.actor := by simpa [Known, hp] using ht.known k
    have hidle : s.core.task k = .idle := ht.early k (by rw [hp]; rfl)
    have htask : ∀ j, j ≠ k → core.task j = s.core.task j := by
      intro j hjk
      cases Wikikiki.step_cases hc with
      | rejected => exact Function.update_of_ne hjk _ _
      | queued => exact Function.update_of_ne hjk _ _
    refine ⟨?_, ht.known_update ha hphase (hpres.concat ha), fun j hj => ?_, fun j hj => ?_⟩
    · have hs : v.service s' = { v.service s with req := Function.update s.writes k wreq } := by
        simp only [service, hwrites]
      rw [hs, hcore]
      exact step_locked hc (ht.locked_update hidle wreq)
    · have hjk : j ≠ k := by
        intro he
        subst he
        rw [hself] at hj
        cases hj
      rw [hcore, htask j hjk]
      exact ht.early j (hother hjk hphase ▸ hj)
    · by_cases hjk : j = k
      · subst hjk
        refine ⟨auth.actor, hw, ?_, hpres.concat ha, fun stage hs hrank => ?_⟩
        · rwa [hwrites, Function.update_self]
        · rw [hcore] at hs
          rcases step_running hc hs with hbefore | rfl | ⟨i, before, stores, hcall, -, -⟩
          · rw [hidle] at hbefore
            cases hbefore
          · exact absurd hrank (by decide)
          · cases hcall
      · rw [hcore, htask j hjk] at hj
        obtain ⟨actor, ho⟩ := ht.owned j hj
        exact ⟨actor, ho.same ha (by rw [hwrites, Function.update_of_ne hjk]) (by rw [hcore, htask j hjk])⟩
  | @worked b core hb hc =>
    have hidle : ∀ j, s.core.task j = .idle → core.task j = .idle := fun j hj =>
      step_idle ht.locked hc (by rintro rfl; cases hb) hj
    refine ⟨step_locked hc ht.locked, fun j => (ht.known j).concat ha, fun j hj => hidle j (ht.early j hj),
      fun j hj => ?_⟩
    obtain ⟨actor, ho⟩ := ht.owned j fun he => hj (hidle j he)
    exact ⟨actor, ho.worked ht hr hc ha⟩
  | @administered access layers actors core hc =>
    have htask : core.task = s.core.task := by cases Wikikiki.step_cases hc; rfl
    refine ⟨step_locked hc ht.locked, fun j => (ht.known j).concat ha, fun j hj => ?_, fun j hj => ?_⟩
    · rw [htask]
      exact ht.early j hj
    · obtain ⟨actor, ho⟩ := ht.owned j (by rwa [← htask])
      exact ⟨actor, ho.same ha rfl (by rw [htask])⟩

theorem traced_opened (v : Web) (w : World) : v.Traced (.opened w) [] (.opened w) where
  locked := Wikikiki.State.opened_locked _ _
  known _ := trivial
  early _ _ := rfl
  owned _ h := absurd rfl h

theorem traced_run {w : World} (hr : v.run (.opened w) as = some s) : v.Traced (.opened w) as s :=
  Run.history (I := v.Traced (.opened w)) (traced_opened v w) (fun hr ha ht => ht.step hr ha) hr

end

/-! ## Attribution -/

/-- What a step has done to the pages, it has done in the actor's name: a commit
has the author line of the actor, an edit and a changed row their id. -/
structure InNameOf (v : Web) (actor : Actor) (d d' : Stores) : Prop where
  git : d'.git = d.git ∨ ∃ c, d'.git = c :: d.git ∧
    parseSig (renderAuthor v.site.wiki.authorTemplate actor.actorType actor.handle) = some (c.author.name, c.author.email)
  edits : d'.db.pageEdits.rows = d.db.pageEdits.rows ∨
    ∃ e, d'.db.pageEdits.rows = d.db.pageEdits.rows ++ [(d.db.pageEdits.nextId, e)] ∧ e.actorId = actor.id
  pages : ∀ id row, (id, row) ∈ d'.db.pages.rows → (id, row) ∈ d.db.pages.rows ∨ row.lastEditBy = some actor.id

theorem inNameOf_effect {v : Web} {wreq : WriteRequest} {actor : Actor} {stage : Stage} {d d' : Stores} {n : Next}
    (h : v.site.wiki.Effect wreq stage d n d') (hby : wreq.By actor) : v.InNameOf actor d d' := by
  cases h with
  | commit hcom =>
    refine ⟨.inr ⟨_, rfl, ?_⟩, .inl rfl, fun _ _ hm => .inl hm⟩
    rw [← hby.actorType, ← hby.actorHandle]
    exact hcom.author
  | project hproj =>
    obtain ⟨now, hedits⟩ := hproj.edits
    obtain ⟨at₀, now', hpages⟩ := hproj.pages
    refine ⟨.inl rfl, .inr ⟨_, hedits, hby.actorId⟩, fun i row hm => ?_⟩
    rcases (hpages i row).1 hm with ⟨-, rfl⟩ | ⟨-, hm⟩
    · exact .inr (congrArg some hby.actorId)
    · exact .inl hm
  | _ => exact ⟨.inl rfl, .inl rfl, fun _ _ hm => .inl hm⟩

/-- **Every write is somebody's.** Whatever step of whatever run changes a page
store, it is a stage of the write of a request that may write; that request
had presented a good credential of an actor, who was found active and
unchanged under the lock after that; and the change is in the name of that
actor. -/
theorem pages_changed (v : Web) {w : World} {as : List Action} {s s' : State} {a : Action}
    (hr : v.run (.opened w) as = some s) (ha : v.step s a = some s')
    (hchange : s.core.stores.PagesChanged s'.core.stores) :
    ∃ k actor b, a = .core b ∧ b.Stages k ∧ (v.request k).IsWrite ∧ v.Rechecked (.opened w) as s k actor ∧
      v.InNameOf actor s.core.stores s'.core.stores := by
  have ht := traced_run hr
  cases step_cases ha with
  | moved _ _ hcore => exact absurd hchange (by rw [hcore]; simp [Stores.PagesChanged])
  | started _ _ _ hc hcore =>
    obtain ⟨t, stage, n, hcall, -⟩ := step_changes hc (hcore ▸ hchange)
    cases hcall
  | administered hc =>
    obtain ⟨t, stage, n, hadmin, -⟩ := step_changes hc hchange
    cases hadmin
  | @worked b core _ hc =>
    obtain ⟨k, stage, n, hb, hk, hrank, heff⟩ := step_changes hc hchange
    obtain ⟨actor, ho⟩ := ht.owned k (by rw [hk]; simp)
    exact ⟨k, actor, b, rfl, hb, ho.isWrite, ho.rechecked stage hk (by omega), inNameOf_effect heff ho.by'⟩

/-- A token that is revoked while the request waits for the lock. -/
theorem pages_changed_small :
    ∃ s s', Web.small.run (.opened (.small none)) Action.late = some s ∧
      Web.small.step s (.core (.advance 0 ⟨1, []⟩)) = some s' ∧ s.core.stores.PagesChanged s'.core.stores ∧
      ∃ k actor b, Action.core (.advance 0 ⟨1, []⟩) = .core b ∧ b.Stages k ∧ (Web.small.request k).IsWrite ∧
        Web.small.Rechecked (.opened (.small none)) Action.late s k actor ∧
        Web.small.InNameOf actor s.core.stores s'.core.stores := by
  obtain ⟨s, hs⟩ : ∃ s, Web.small.run (.opened (.small none)) Action.late = some s := ⟨_, rfl⟩
  obtain ⟨s', hs'⟩ : ∃ s', Web.small.step s (.core (.advance 0 ⟨1, []⟩)) = some s' := by cases hs; exact ⟨_, rfl⟩
  have hchange : s.core.stores.PagesChanged s'.core.stores := by
    have hbefore : s.core.stores.git.length = 1 := by cases hs; rfl
    have hafter : s'.core.stores.git.length = 2 := by cases hs; cases hs'; rfl
    exact .inr (.inl fun he => by rw [he, hbefore] at hafter; cases hafter)
  exact ⟨s, s', hs, hs', hchange, Web.small.pages_changed hs hs' hchange⟩

end Web

end Wikikiki
