/-
Requests under load (web/mod.rs): any number of them, each on its way through
`auth_middleware` and its handler, between the steps of all the others and of
whoever administers the actors, the credentials and the sessions.

Every statement is a step of its own on that way: what `verify` reads and the
two updates that it makes, the session, its actor. A handler that writes ends
its first half with a call of `write`, whose steps are those of the system;
any other handler is one step, since it leaves the pages alone
(`Site.dispatch_stores`).
-/
import Wikikiki.Locking
import Wikikiki.Router

namespace Wikikiki

/-! ## Credentials of a request -/

/-- The bearer token of a request. -/
def Request.bearer (req : Request) : Option Text :=
  (req.header "authorization".toList).bind (Text.stripPrefix "Bearer ".toList)

/-- The session in the cookie of a request. -/
def Request.sessionId (req : Request) : Option Text :=
  (req.header "cookie".toList).bind fun c => parseCookie c sessionCookie

/-- The query of `session::lookup`. -/
def Access.liveSession (acc : Access) (sid : Text) (now : Int) : Option SessionRow :=
  acc.sessions.find? fun r => r.id = sid ∧ r.revokedAt = none ∧ now < r.expiresAt

theorem Access.lookupSession_eq (acc : Access) (actors : Table ActorRow) (sid : Text) (now : Int) :
    acc.lookupSession actors sid now =
      ((acc.liveSession sid now).bind fun r => actorById actors r.actorId).filter fun a => a.isActive := rfl

/-! ## Handlers in halves -/

/-- The handlers that write. -/
def Site.writing (site : Site) (env : Env) (req : Request) (auth : Option Auth) : Endpoint → Option Writing
  | .savePage raw => some (site.savePage env req (req.remote site) auth raw)
  | .apiPutPage raw => some (apiPutPage req auth raw)
  | _ => none

/-- The write is in the actor's name. -/
structure WriteRequest.By (wreq : WriteRequest) (actor : Actor) : Prop where
  actorId : wreq.actorId = actor.id
  actorType : wreq.actorType = actor.actorType
  actorHandle : wreq.actorHandle = actor.handle

section

variable {site : Site} {env : Env} {req : Request} {w : World} {auth : Option Auth} {e : Endpoint} {h : Writing}

/-- What the halves are halves of. -/
theorem Site.runEndpoint_of_writing (hw : site.writing env req auth e = some h) :
    site.runEndpoint env req w auth e = h.run site env w := by
  cases e <;> cases hw <;> rfl

theorem Site.writes_of_writing (hw : site.writing env req auth e = some h) : e.Writes := by
  cases e <;> cases hw
  · exact .save _
  · exact .put _

/-- After the write the pages are left alone. -/
theorem Site.finish_stores (hw : site.writing env req auth e = some h) (auth' : Auth) (wreq : WriteRequest)
    (result : Except AppError PageMeta) : (h.finish w auth' wreq result).2.stores = w.stores := by
  cases e <;> cases hw
  · cases result with
    | ok info => rfl
    | error err => cases err <;> first | rfl | exact World.logAccess_stores ..
  · rfl

theorem requireWriter_eq_ok {a : Auth} : requireWriter auth = .ok a ↔ auth = some a := by
  cases auth <;> simp [requireWriter]

theorem onPath_eq_ok {α : Type} {raw : Text} {k : Text → Except AppError α} {x : α}
    (h : onPath raw (fun path => answering (k path)) = .ok x) : ∃ path, k path = .ok x := by
  unfold onPath at h
  split at h
  · cases h
  next path _ =>
    refine ⟨path, ?_⟩
    cases hk : k path with
    | error e => simp [hk, answering] at h
    | ok x' => simpa [hk, answering] using h

/-- A write begins in the name of whoever the request is. -/
theorem Site.start_by (hw : site.writing env req auth e = some h) {a : Auth} {wreq : WriteRequest}
    (hs : h.start = .ok (a, wreq)) : auth = some a ∧ wreq.By a.actor := by
  cases e <;> cases hw
  · obtain ⟨path, hk⟩ := onPath_eq_ok hs
    obtain ⟨a', ha, hk⟩ := bind_eq_ok.1 hk
    obtain ⟨bytes, -, hk⟩ := bind_eq_ok.1 hk
    obtain ⟨input, -, hk⟩ := bind_eq_ok.1 hk
    cases hk
    exact ⟨requireWriter_eq_ok.1 ha, rfl, rfl, rfl⟩
  · obtain ⟨path, hk⟩ := onPath_eq_ok hs
    obtain ⟨a', ha, hk⟩ := bind_eq_ok.1 hk
    obtain ⟨bytes, -, hk⟩ := bind_eq_ok.1 hk
    obtain ⟨content, -, hk⟩ := bind_eq_ok.1 hk
    obtain ⟨pre, -, hk⟩ := bind_eq_ok.1 hk
    cases hk
    exact ⟨requireWriter_eq_ok.1 ha, rfl, rfl, rfl⟩

theorem Site.loginWith_stores (remote : Option Text) (input : LoginInput) :
    (site.loginWith env w remote input).2.stores = w.stores := by
  unfold loginWith
  split
  · simp only
    split
    · rfl
    · exact World.logAccess_stores ..
  · exact World.logAccess_stores ..

/-- The other handlers leave the pages alone from beginning to end. -/
theorem Site.runEndpoint_stores (hw : site.writing env req auth e = none) :
    (site.runEndpoint env req w auth e).2.stores = w.stores := by
  cases e with
  | loginSubmit =>
    simp only [runEndpoint, loginSubmit]
    split
    · rfl
    · exact loginWith_stores _ _
  | logout =>
    simp only [runEndpoint, logout]
    split
    · rfl
    · split <;> rfl
  | savePage raw => cases hw
  | apiPutPage raw => cases hw
  | _ => rfl

theorem Site.dispatch_stores (hw : ∀ e, req.endpoint = some e → site.writing env req auth e = none) :
    (site.dispatch env req w auth).2.stores = w.stores := by
  unfold dispatch
  cases hroute : routeOf req.path with
  | none => rfl
  | some route =>
    simp only
    cases hend : route.endpoint req.method with
    | none => rfl
    | some e => exact runEndpoint_stores (hw e (by simp [Request.endpoint, hroute, hend]))

end

/-! ## The system -/

/-- A site and the requests that it gets. -/
structure Web where
  site : Site
  request : Nat → Request

namespace Web

/-- Where a request is. -/
inductive Phase where
  | idle
  | verifying (token : Text)
  | upgrading (actor : Actor) (id : Int) (digest : Option Text)
  | touching (actor : Actor) (id : Int)
  | lookingUp (sid : Text)
  | findingActor (actorId : Int)
  | ready (auth : Option Auth)
  | writing (auth : Auth)
  | answered (r : Response)
  | gone

/-- The core is the system of the writes; `writes` says what each request asked
of it. -/
structure State where
  core : Wikikiki.State
  access : Access
  accessLog : List AccessEntry
  credentialUsed : Throttle
  actorSeen : Throttle
  phase : Nat → Phase
  writes : Nat → WriteRequest

inductive Action where
  | arrive (k : Nat)
  | verify (k : Nat) (now : Int) (ok : Bool)
  | upgrade (k : Nat) (ok : Bool)
  | touch (k : Nat) (now : Int) (ok : Bool)
  | lookup (k : Nat) (now : Int) (ok : Bool)
  | findActor (k : Nat) (ok : Bool)
  | enter (k : Nat) (env : Env)
  | finish (k : Nat) (env : Env)
  | disconnect (k : Nat)
  | core (a : Wikikiki.Action)
  | administer (access : Access) (layers : List LayerRow) (actors : Table ActorRow)

def State.world (s : State) : World where
  stores := s.core.stores
  access := s.access
  accessLog := s.accessLog
  credentialUsed := s.credentialUsed
  actorSeen := s.actorSeen

def State.withWorld (s : State) (w : World) : State :=
  { s with
    core := { s.core with stores := w.stores }
    access := w.access
    accessLog := w.accessLog
    credentialUsed := w.credentialUsed
    actorSeen := w.actorSeen }

def State.setPhase (s : State) (k : Nat) (ph : Phase) : State := { s with phase := Function.update s.phase k ph }

def State.actors (s : State) : Table ActorRow := s.core.stores.db.actors

/-- The writes as the system knows them. -/
def service (v : Web) (s : State) : Service where
  wiki := v.site.wiki
  req := s.writes
  page _ := []

/-- The session half of `resolve_actor`. -/
def trySession (v : Web) (k : Nat) : Phase :=
  match (v.request k).sessionId with
  | some sid => .lookingUp sid
  | none => .ready none

def begin (v : Web) (k : Nat) : Phase :=
  match (v.request k).bearer with
  | some token => .verifying token
  | none => v.trySession k

def writing (v : Web) (k : Nat) (env : Env) (auth : Option Auth) : Option Writing :=
  (v.request k).endpoint.bind (v.site.writing env (v.request k) auth)

/-- `last_seen_at` is claimed for the actor. -/
def State.seen (s : State) (auth : Option Auth) (now : Int) : State :=
  match auth with
  | some auth => { s with actorSeen := (s.actorSeen.claim auth.actor.id now).2 }
  | none => s

/-- What the caller of `write` gets, once it does. -/
def taskResult : Wikikiki.Phase → Option (Except AppError PageMeta)
  | .rejected e => some (.error e)
  | .finished o => some o.result
  | _ => none

/-- The steps of the system that are not a request's own. -/
def isWork : Wikikiki.Action → Bool
  | .grant | .accept _ | .cancel _ | .advance .. | .fail .. | .release _ | .wait _ | .drained _ => true
  | .call _ | .fetch _ | .load .. | .admin .. => false

/-- A handler begins. -/
def enter (v : Web) (s : State) (k : Nat) (env : Env) (auth : Option Auth) : Option State :=
  match v.writing k env auth with
  | none =>
    let (resp, w) := v.site.dispatch env (v.request k) s.world auth
    some ((s.withWorld w).setPhase k (.answered (securityHeaders resp)))
  | some h =>
    match h.start with
    | .error resp => some (s.setPhase k (.answered (securityHeaders resp)))
    | .ok (auth, wreq) =>
      let s := { s with writes := Function.update s.writes k wreq }
      (Wikikiki.step (v.service s) s.core (.call k)).map fun core => { s.setPhase k (.writing auth) with core }

/-- One step, `none` where the action is not enabled. -/
def step (v : Web) (s : State) : Action → Option State
  | .arrive k =>
    match s.phase k with
    | .idle => some (s.setPhase k (v.begin k))
    | _ => none
  | .verify k now ok =>
    match s.phase k with
    | .verifying token =>
      match ok, s.access.judge v.site.wiki.ext v.site.argon2 s.actors now token with
      | true, .accepted actor id digest => some (s.setPhase k (.upgrading actor id digest))
      | _, _ => some (s.setPhase k (v.trySession k))
    | _ => none
  | .upgrade k ok =>
    match s.phase k with
    | .upgrading actor id digest =>
      some { s.setPhase k (.touching actor id) with access := s.access.upgrade id digest ok }
    | _ => none
  | .touch k now ok =>
    match s.phase k with
    | .touching actor id =>
      let (claimed, credentialUsed) := s.credentialUsed.claim id now
      some { s.setPhase k (.ready (some { actor, surface := (v.request k).surface })) with
        credentialUsed
        access := if claimed && ok then s.access.touch id now else s.access }
    | _ => none
  | .lookup k now ok =>
    match s.phase k with
    | .lookingUp sid =>
      match ok, s.access.liveSession sid now with
      | true, some r => some (s.setPhase k (.findingActor r.actorId))
      | _, _ => some (s.setPhase k (.ready none))
    | _ => none
  | .findActor k ok =>
    match s.phase k with
    | .findingActor actorId =>
      match ok, (actorById s.actors actorId).filter fun a => a.isActive with
      | true, some actor => some (s.setPhase k (.ready (some { actor, surface := .ui })))
      | _, _ => some (s.setPhase k (.ready none))
    | _ => none
  | .enter k env =>
    match s.phase k with
    | .ready auth => v.enter (s.seen auth env.now) k env auth
    | _ => none
  | .finish k env =>
    match s.phase k with
    | .writing auth =>
      (taskResult (s.core.task k)).bind fun result =>
        (v.writing k env (some auth)).map fun h =>
          let (resp, w) := h.finish s.world auth (s.writes k) result
          (s.withWorld w).setPhase k (.answered (securityHeaders resp))
    | _ => none
  | .disconnect k =>
    match s.phase k with
    -- Its write is cancelled by itself, if it can be.
    | .writing _ | .answered _ | .gone => none
    | _ => some (s.setPhase k .gone)
  | .core a =>
    if isWork a then (Wikikiki.step (v.service s) s.core a).map fun core => { s with core } else none
  | .administer access layers actors =>
    (Wikikiki.step (v.service s) s.core (.admin layers actors)).map fun core => { s with core, access }

/-! ### What a step can do -/

/-- Where an action takes a request, its writes apart. -/
inductive Move (v : Web) (s : State) : Action → Nat → Phase → Prop
  | arrived {k} : Move v s (.arrive k) k (v.begin k)
  | accepted {k now token actor id digest} (hp : s.phase k = .verifying token)
      (hj : s.access.judge v.site.wiki.ext v.site.argon2 s.actors now token = .accepted actor id digest) :
      Move v s (.verify k now true) k (.upgrading actor id digest)
  | rejected {k now ok} : Move v s (.verify k now ok) k (v.trySession k)
  | upgraded {k ok actor id digest} (hp : s.phase k = .upgrading actor id digest) :
      Move v s (.upgrade k ok) k (.touching actor id)
  | touched {k now ok actor id} (hp : s.phase k = .touching actor id) :
      Move v s (.touch k now ok) k (.ready (some { actor, surface := (v.request k).surface }))
  | found {k now sid r} (hp : s.phase k = .lookingUp sid) (hr : s.access.liveSession sid now = some r) :
      Move v s (.lookup k now true) k (.findingActor r.actorId)
  | identified {k actorId actor} (hp : s.phase k = .findingActor actorId)
      (ha : actorById s.actors actorId = some actor) (hact : actor.isActive = true) :
      Move v s (.findActor k true) k (.ready (some { actor, surface := .ui }))
  | nobody {a k} : Move v s a k (.ready none)
  | answered {a k r} : Move v s a k (.answered r)
  | gone {k} : Move v s (.disconnect k) k .gone

/-- Before its handler has called `write`. -/
def Phase.early : Phase → Bool
  | .writing _ | .answered _ => false
  | _ => true

/-- What a step does: a request moves on and the pages stay, or a write
begins, or the system takes a step, or somebody administers. -/
inductive State.Step (v : Web) (s : State) : Action → State → Prop
  | moved {a k ph s'} (hm : v.Move s a k ph) (hearly : ph.early = true → (s.phase k).early = true)
      (hcore : s'.core = s.core) (hwrites : s'.writes = s.writes) (hphase : s'.phase = Function.update s.phase k ph) :
      Step v s a s'
  | started {k env auth wreq core s'} (hp : s.phase k = .ready (some auth)) (hw : (v.request k).IsWrite)
      (hby : wreq.By auth.actor)
      (hc : Wikikiki.step { v.service s with req := Function.update s.writes k wreq } s.core (.call k) = some core)
      (hcore : s'.core = core) (hwrites : s'.writes = Function.update s.writes k wreq)
      (hphase : s'.phase = Function.update s.phase k (.writing auth)) : Step v s (.enter k env) s'
  | worked {a core} (ha : isWork a = true) (hc : Wikikiki.step (v.service s) s.core a = some core) :
      Step v s (.core a) { s with core }
  | administered {access layers actors core}
      (hc : Wikikiki.step (v.service s) s.core (.admin layers actors) = some core) :
      Step v s (.administer access layers actors) { s with core, access }

section

variable {v : Web} {s s' : State} {a : Action} {k : Nat} {w : World}

theorem State.withWorld_core (h : w.stores = s.core.stores) : (s.withWorld w).core = s.core := by
  simp only [withWorld, h]

theorem State.seen_eq (s : State) (auth : Option Auth) (now : Int) :
    (s.seen auth now).core = s.core ∧ (s.seen auth now).writes = s.writes ∧ (s.seen auth now).phase = s.phase := by
  cases auth <;> exact ⟨rfl, rfl, rfl⟩

theorem enter_cases {env : Env} {auth : Option Auth} (hp : s.phase k = .ready auth)
    (h : v.enter (s.seen auth env.now) k env auth = some s') : s.Step v (.enter k env) s' := by
  obtain ⟨hcore, hwrites, hphase⟩ := s.seen_eq auth env.now
  have hearly : ∀ r, (Phase.answered r).early = true → (s.phase k).early = true := fun r hr => by cases hr
  unfold enter at h
  split at h
  next hnone =>
    have hst : (v.site.dispatch env (v.request k) (s.seen auth env.now).world auth).2.stores = s.core.stores := by
      rw [Site.dispatch_stores fun e he => by simpa [writing, he] using hnone, State.world, hcore]
    generalize v.site.dispatch env (v.request k) (s.seen auth env.now).world auth = p at h hst
    cases h
    refine .moved (.answered (r := securityHeaders p.1)) (hearly _) ?_ hwrites (by rw [← hphase]; rfl)
    rw [← hcore] at hst ⊢
    exact State.withWorld_core hst
  next hw hsome =>
    obtain ⟨e, hend, he⟩ := Option.bind_eq_some_iff.1 hsome
    split at h
    · cases h
      exact .moved .answered (hearly _) hcore hwrites (by rw [← hphase]; rfl)
    next auth' wreq hs =>
      obtain ⟨core, hc, rfl⟩ := Option.map_eq_some_iff.1 h
      obtain ⟨rfl, hby⟩ := Site.start_by he hs
      rw [hcore] at hc
      refine .started hp (Request.isWrite_of_endpoint hend (Site.writes_of_writing he)) hby ?_ rfl ?_ ?_
      · simpa only [service, hwrites] using hc
      · simp only [State.setPhase, hwrites]
      · simp only [State.setPhase, hphase]

theorem step_cases (h : v.step s a = some s') : s.Step v a s' := by
  cases a with
  | arrive k =>
    simp only [step] at h
    split at h
    next hp => cases h; exact .moved .arrived (fun _ => by rw [hp]; rfl) rfl rfl rfl
    · cases h
  | verify k now ok =>
    simp only [step] at h
    split at h
    next token hp =>
      have hearly : (s.phase k).early = true := by rw [hp]; rfl
      split at h
      next hj => cases h; exact .moved (.accepted hp hj) (fun _ => hearly) rfl rfl rfl
      next => cases h; exact .moved .rejected (fun _ => hearly) rfl rfl rfl
    · cases h
  | upgrade k ok =>
    simp only [step] at h
    split at h
    next actor id digest hp => cases h; exact .moved (.upgraded hp) (fun _ => by rw [hp]; rfl) rfl rfl rfl
    · cases h
  | touch k now ok =>
    simp only [step] at h
    split at h
    next actor id hp => cases h; exact .moved (.touched hp) (fun _ => by rw [hp]; rfl) rfl rfl rfl
    · cases h
  | lookup k now ok =>
    simp only [step] at h
    split at h
    next sid hp =>
      have hearly : (s.phase k).early = true := by rw [hp]; rfl
      split at h
      next r hr => cases h; exact .moved (.found hp hr) (fun _ => hearly) rfl rfl rfl
      next => cases h; exact .moved .nobody (fun _ => hearly) rfl rfl rfl
    · cases h
  | findActor k ok =>
    simp only [step] at h
    split at h
    next actorId hp =>
      have hearly : (s.phase k).early = true := by rw [hp]; rfl
      split at h
      next actor ha =>
        cases h
        obtain ⟨ha, hact⟩ := Option.filter_eq_some_iff.1 ha
        exact .moved (.identified hp ha hact) (fun _ => hearly) rfl rfl rfl
      next => cases h; exact .moved .nobody (fun _ => hearly) rfl rfl rfl
    · cases h
  | enter k env =>
    simp only [step] at h
    split at h
    next auth hp => exact enter_cases hp h
    · cases h
  | finish k env =>
    simp only [step] at h
    split at h
    next auth hp =>
      obtain ⟨result, -, h⟩ := Option.bind_eq_some_iff.1 h
      obtain ⟨hw, hsome, rfl⟩ := Option.map_eq_some_iff.1 h
      obtain ⟨e, -, he⟩ := Option.bind_eq_some_iff.1 hsome
      have hst : (hw.finish s.world auth (s.writes k) result).2.stores = s.core.stores := Site.finish_stores he _ _ _
      exact .moved .answered (fun hr => by cases hr) (State.withWorld_core hst) rfl rfl
    · cases h
  | disconnect k =>
    simp only [step] at h
    split at h
    · cases h
    · cases h
    · cases h
    next hwriting hanswered _ =>
      cases h
      refine .moved .gone (fun _ => ?_) rfl rfl rfl
      cases hp : s.phase k with
      | writing auth => exact absurd hp (hwriting auth)
      | answered r => exact absurd hp (hanswered r)
      | _ => rfl
  | core a =>
    simp only [step] at h
    split at h
    next ha =>
      obtain ⟨core, hc, rfl⟩ := Option.map_eq_some_iff.1 h
      exact .worked ha hc
    · cases h
  | administer access layers actors =>
    simp only [step] at h
    obtain ⟨core, hc, rfl⟩ := Option.map_eq_some_iff.1 h
    exact .administered hc

end

abbrev run (v : Web) : State → List Action → Option State := Run.run v.step

/-- A service that has just opened its stores. -/
def State.opened (w : World) : State where
  core := .opened w.stores
  access := w.access
  accessLog := w.accessLog
  credentialUsed := w.credentialUsed
  actorSeen := w.actorSeen
  phase _ := .idle
  writes _ :=
    { path := [], layer := [], content := [], actorId := 0, actorType := [], actorHandle := [], summary := none,
      precondition := .none }

/-! ### One request alone -/

/-- The middleware is through with a request, and this is what it leaves. -/
structure Resolved (s s' : State) (k : Nat) (p : Option Auth × Access × Throttle) : Prop where
  phase : s'.phase k = .ready p.1
  access : s'.access = p.2.1
  credentialUsed : s'.credentialUsed = p.2.2
  core : s'.core = s.core

section

variable {v : Web} {s : State} {k : Nat}

theorem session_alone (hp : s.phase k = v.trySession k) (now : Int) :
    ∃ as s', v.run s as = some s' ∧ Resolved s s' k
      (s.access.resolveSession s.actors now ((v.request k).header "cookie".toList), s.access, s.credentialUsed) := by
  have hcookie : ((v.request k).header "cookie".toList).bind (fun c => parseCookie c sessionCookie) =
      (v.request k).sessionId := rfl
  unfold trySession at hp
  unfold Access.resolveSession
  rw [hcookie]
  cases hsid : (v.request k).sessionId with
  | none =>
    rw [hsid] at hp
    exact ⟨[], s, rfl, hp, rfl, rfl, rfl⟩
  | some sid =>
    rw [hsid] at hp
    simp only at hp
    rw [Option.bind_some, Access.lookupSession_eq]
    cases hr : s.access.liveSession sid now with
    | none =>
      exact ⟨[.lookup k now true], s.setPhase k (.ready none), by simp [Run.run, step, hp, hr],
        by simp [State.setPhase], rfl, rfl, rfl⟩
    | some r =>
      rw [Option.bind_some]
      unfold State.actors
      cases ha : (actorById s.core.stores.db.actors r.actorId).filter fun a => a.isActive with
      | none =>
        exact ⟨[.lookup k now true, .findActor k true], (s.setPhase k (.findingActor r.actorId)).setPhase k (.ready none),
          by simp [Run.run, step, hp, hr, State.setPhase, State.actors, ha],
          by simp [State.setPhase], rfl, rfl, rfl⟩
      | some actor =>
        exact ⟨[.lookup k now true, .findActor k true],
          (s.setPhase k (.findingActor r.actorId)).setPhase k (.ready (some { actor, surface := .ui })),
          by simp [Run.run, step, hp, hr, State.setPhase, State.actors, ha],
          by simp [State.setPhase], rfl, rfl, rfl⟩

/-- A token that is not accepted leaves the cookie. -/
theorem rejected_alone {token : Text} (hp : s.phase k = .verifying token) {now : Int}
    (hj : ∀ actor id digest, s.access.judge v.site.wiki.ext v.site.argon2 s.actors now token ≠
      .accepted actor id digest) :
    ∃ as s', v.run s as = some s' ∧ Resolved s s' k
      (s.access.resolveSession s.actors now ((v.request k).header "cookie".toList), s.access, s.credentialUsed) := by
  have hverify : v.step s (.verify k now true) = some (s.setPhase k (v.trySession k)) := by
    simp only [step, hp]
    split
    next ha => exact absurd ha (hj _ _ _)
    · rfl
  obtain ⟨as, s', hr, h⟩ := session_alone (v := v) (s := s.setPhase k (v.trySession k)) (k := k)
    (by simp [State.setPhase]) now
  exact ⟨_, s', Run.run_cons.2 ⟨_, hverify, hr⟩, h.phase, h.access, h.credentialUsed, h.core⟩

/-- One that is makes its two updates. -/
theorem accepted_alone {actor : Actor} {id : Int} {digest : Option Text} (hp : s.phase k = .upgrading actor id digest)
    (now : Int) (oks : Updates) :
    ∃ s', v.run s [.upgrade k oks.upgrade, .touch k now oks.touch] = some s' ∧ Resolved s s' k
      (some { actor, surface := (v.request k).surface },
        if (s.credentialUsed.claim id now).1 && oks.touch then
          (s.access.upgrade id digest oks.upgrade).touch id now
        else s.access.upgrade id digest oks.upgrade,
        (s.credentialUsed.claim id now).2) := by
  have hafter : v.run s [.upgrade k oks.upgrade, .touch k now oks.touch] = some
      { s.setPhase k (.ready (some { actor, surface := (v.request k).surface })) with
        credentialUsed := (s.credentialUsed.claim id now).2
        access :=
          if (s.credentialUsed.claim id now).1 && oks.touch then
            (s.access.upgrade id digest oks.upgrade).touch id now
          else s.access.upgrade id digest oks.upgrade } := by
    simp [Run.run, step, hp, State.setPhase]
  exact ⟨_, hafter, by simp [State.setPhase], rfl, rfl, rfl⟩

/-- A request that nobody disturbs is whose `resolve_actor` says it is. -/
theorem resolve_alone (hp : s.phase k = .idle) (now : Int) (oks : Updates) :
    ∃ as s', v.run s as = some s' ∧ Resolved s s' k
      (s.access.resolveActor v.site.wiki.ext v.site.argon2 s.actors s.credentialUsed now (v.request k).surface
        ((v.request k).header "authorization".toList) ((v.request k).header "cookie".toList) oks) := by
  have hbearer : ((v.request k).header "authorization".toList).bind (Text.stripPrefix "Bearer ".toList) =
      (v.request k).bearer := rfl
  unfold Access.resolveActor
  rw [hbearer]
  cases hb : (v.request k).bearer with
  | none =>
    have harrive : v.step s (.arrive k) = some (s.setPhase k (v.trySession k)) := by simp [step, hp, begin, hb]
    obtain ⟨as, s', hr, h⟩ := session_alone (v := v) (s := s.setPhase k (v.trySession k)) (k := k)
      (by simp [State.setPhase]) now
    exact ⟨_, s', Run.run_cons.2 ⟨_, harrive, hr⟩, h.phase, h.access, h.credentialUsed, h.core⟩
  | some token =>
    have harrive : v.step s (.arrive k) = some (s.setPhase k (.verifying token)) := by simp [step, hp, begin, hb]
    have hverifying : (s.setPhase k (.verifying token)).phase k = .verifying token := by simp [State.setPhase]
    have hrejected : (∀ actor id digest, s.access.judge v.site.wiki.ext v.site.argon2 s.actors now token ≠
        .accepted actor id digest) → ∃ as s', v.run s as = some s' ∧ Resolved s s' k
          (s.access.resolveSession s.actors now ((v.request k).header "cookie".toList), s.access, s.credentialUsed) := by
      intro hj
      obtain ⟨as, s', hr, h⟩ := rejected_alone (v := v) hverifying hj
      exact ⟨_, s', Run.run_cons.2 ⟨_, harrive, hr⟩, h.phase, h.access, h.credentialUsed, h.core⟩
    cases hj : s.access.judge v.site.wiki.ext v.site.argon2 s.actors now token with
    | rejected =>
      simp only [Access.verify, hj]
      exact hrejected fun _ _ _ he => by rw [hj] at he; cases he
    | failed e =>
      simp only [Access.verify, hj]
      exact hrejected fun _ _ _ he => by rw [hj] at he; cases he
    | accepted actor id digest =>
      simp only [Access.verify, hj]
      have hverify : v.step (s.setPhase k (.verifying token)) (.verify k now true) =
          some ((s.setPhase k (.verifying token)).setPhase k (.upgrading actor id digest)) := by
        simp only [step, hverifying]
        rw [show (s.setPhase k (.verifying token)).access.judge _ _ (s.setPhase k (.verifying token)).actors now token =
          _ from hj]
      have hupgrading : ((s.setPhase k (.verifying token)).setPhase k (.upgrading actor id digest)).phase k =
          .upgrading actor id digest := by simp [State.setPhase]
      obtain ⟨s', hr, h⟩ := accepted_alone (v := v) hupgrading now oks
      exact ⟨_, s', Run.run_cons.2 ⟨_, harrive, Run.run_cons.2 ⟨_, hverify, hr⟩⟩, h.phase, h.access,
        h.credentialUsed, h.core⟩

end

/-! ### A small service -/

/-- Everybody puts the page `notes`, with the old token. -/
def small : Web where
  site := .small
  request _ :=
    { method := .put
      path := "/api/pages/notes".toList
      query := none
      headers :=
        [(.other "authorization".toList,
          { bytes := Text.utf8 ("Bearer ".toList ++ Gate.legacy.plaintext), legal := by decide +kernel })]
      body := Text.utf8 "one".toList
      remoteAddr := none }

/-- A request until its file is written; its token is revoked while it waits
for the lock. -/
def Action.late : List Action :=
  [.arrive 0, .verify 0 1 true, .upgrade 0 true, .touch 0 1 true, .enter 0 .small,
    .administer { Gate.smallAccess with credentials := .empty, uniqueLookup := by decide }
      (Db.small none).layers (Db.small none).actors,
    .core .grant, .core (.accept 0)] ++ List.replicate 6 (.core (.advance 0 ⟨1, []⟩))

end Web

end Wikikiki
