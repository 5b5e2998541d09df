/-
Whose a session is (auth/session.rs, web/mod.rs): the actor who logged in with
it, from then on. And what the answers do with the session cookie of whoever
gets them: a login sets it to a session of the actor whose password the form
had, a logout clears it, and no other answer has a `Set-Cookie` line.
-/
import Wikikiki.Answers
import Wikikiki.Cookies

namespace Wikikiki

/-! ## Whose a session is -/

def Access.Owns (acc : Access) (actorId : Int) (sid : Text) : Prop := ∃ r ∈ acc.sessions, r.id = sid ∧ r.actorId = actorId

/-- Every session stays its actor's. -/
def Access.Keeps (acc acc' : Access) : Prop := ∀ actorId sid, acc.Owns actorId sid → acc'.Owns actorId sid

section

variable {acc acc' : Access} {actors : Table ActorRow} {actorId now : Int} {sid : Text} {r : SessionRow}

theorem Access.Owns.of_live (h : acc.Owns actorId sid) (hl : acc.liveSession sid now = some r) :
    r.actorId = actorId := by
  obtain ⟨r', hm', hid', rfl⟩ := h
  have hid := List.find?_some hl
  simp only [decide_eq_true_eq] at hid
  rw [List.inj_on_of_nodup_map acc.uniqueId (List.mem_of_find?_eq_some hl) hm' (hid.1.trans hid'.symm)]

theorem Access.Keeps.refl (acc : Access) : acc.Keeps acc := fun _ _ h => h

theorem Access.Keeps.of_sessions (h : acc'.sessions = acc.sessions) : acc.Keeps acc' := fun _ _ ho => by
  unfold Owns
  rw [h]
  exact ho

/-- A new session is its actor's. -/
theorem Access.createSession_owns {lifetime : Int} {said : Text}
    (h : acc.createSession actors sid actorId now lifetime said = .ok acc') :
    acc.Keeps acc' ∧ acc'.Owns actorId sid := by
  unfold createSession at h
  split at h
  · split at h
    · cases h
    · cases h
      refine ⟨fun _ _ ho => ?_, ?_⟩
      · obtain ⟨r, hm, hr⟩ := ho
        exact ⟨r, List.mem_append_left _ hm, hr⟩
      · exact ⟨_, List.mem_append_right _ (List.mem_singleton_self _), rfl, rfl⟩
  · cases h

theorem Access.revokeSession_keeps (acc : Access) (sid : Text) (now : Int) : acc.Keeps (acc.revokeSession sid now) := by
  rintro actorId sid' ⟨r, hm, hid, ha⟩
  refine ⟨_, List.mem_map_of_mem hm, ?_⟩
  split
  · exact ⟨hid, ha⟩
  · exact ⟨hid, ha⟩

end

/-! ## The lines of an answer -/

def Response.setCookies (r : Response) : List Text :=
  (r.headers.filter fun h => h.1 = "set-cookie".toList).map Prod.snd

/-- The cookies stay as they are. -/
def Response.Silent (r : Response) : Prop := r.setCookies = []

/-- What an answer may do with the session of who gets it: nothing; make it one
of whoever has logged in; end it. -/
inductive Sets (acc : Access) (secure : Bool) : Option Int → List Text → Prop
  | nothing {who} : Sets acc secure who []
  | login {actorId sid n} (howns : acc.Owns actorId sid) (hsid : ∀ c ∈ sid, cookieChar c = true) :
      Sets acc secure (some actorId) [buildSessionCookie sid n secure]
  | logout : Sets acc secure none [clearSessionCookie secure]

theorem Sets.keep {acc acc' : Access} {secure : Bool} {who : Option Int} {lines : List Text}
    (h : Sets acc secure who lines) (hk : acc.Keeps acc') : Sets acc' secure who lines := by
  cases h with
  | nothing => exact .nothing
  | login howns hsid => exact .login (hk _ _ howns) hsid
  | logout => exact .logout

/-- A form of a login, as far as it is one. -/
def Site.loginForm (site : Site) (req : Request) : Except AppError LoginInput :=
  (readBody req.body (64 * 1024)).bind fun bytes => orBadRequest "form: ".toList (site.decoders.login bytes)

/-- Whose password a request logs in with. -/
def Site.claimant (site : Site) (w : World) (req : Request) : Option Actor :=
  match req.endpoint with
  | some .loginSubmit =>
    (site.loginForm req).toOption.bind fun input =>
      (w.access.verifyPasswordLogin site.argon2 w.stores.db.actors input.handle input.password).toOption
  | _ => none

section

variable {site : Site} {env : Env} {w : World} {req : Request} {auth : Option Auth} {path : Text} {r : Response}

theorem Response.setCookies_withHeader (r : Response) {name : Text} (h : name ≠ "set-cookie".toList) (value : Text) :
    (r.withHeader name value).setCookies = r.setCookies := by
  simp [-String.reduceToList, setCookies, withHeader, h]

theorem setCookies_securityHeaders (r : Response) : (securityHeaders r).setCookies = r.setCookies := by
  unfold securityHeaders
  rw [Response.setCookies_withHeader _ (by decide), Response.setCookies_withHeader _ (by decide),
    Response.setCookies_withHeader _ (by decide), Response.setCookies_withHeader _ (by decide)]

theorem silent_plain (status : Nat) (t : Text) : (Response.plain status t).Silent := rfl

theorem silent_json (j : Json) : (Response.json j).Silent := rfl

theorem silent_error (e : AppError) : e.response.Silent := rfl

theorem silent_withEtag (h : r.Silent) (rev : Option Text) : (r.withEtag rev).Silent :=
  withEtag_of h (fun value => (Response.setCookies_withHeader r (by decide) value).trans h) rev

theorem silent_bind {α : Type} {x : Except AppError α} {f : α → Except AppError Response}
    (hf : ∀ a, x = .ok a → (respond (f a)).Silent) : (respond (x >>= f)).Silent :=
  respond_bind silent_plain hf

theorem Site.viewPage_silent (q : ViewQuery) : (respond (site.viewPage env w auth path q)).Silent := by
  refine silent_bind fun _ _ => ?_
  dsimp only
  split
  · refine silent_bind fun _ _ => ?_
    split <;> rfl
  · split
    · rfl
    · rfl
    · dsimp only [respond, pure, Except.pure]
      split <;> rfl

theorem Site.apiGetPage_silent : (respond (site.apiGetPage env w auth req path)).Silent := by
  refine silent_bind fun _ _ => silent_bind fun page _ => silent_withEtag ?_ _
  split <;> rfl

/-- Every handler that neither writes nor logs in or out. -/
theorem Site.runEndpoint_silent {e : Endpoint} (he : site.writing env req auth e = none) (hin : e ≠ .loginSubmit)
    (hout : e ≠ .logout) :
    (site.runEndpoint env req w auth e).1.Silent ∧ (site.runEndpoint env req w auth e).2 = w := by
  cases e with
  | loginSubmit => exact absurd rfl hin
  | logout => exact absurd rfl hout
  | savePage raw => cases he
  | apiPutPage raw => cases he
  | home => exact ⟨silent_bind fun _ _ => silent_bind fun _ _ => rfl, rfl⟩
  | loginForm => exact ⟨rfl, rfl⟩
  | viewPage raw =>
    exact ⟨answer_onPath silent_plain fun p => answer_onQuery silent_plain fun q =>
      answer_answering _ ▸ Site.viewPage_silent q, rfl⟩
  | historyPage raw =>
    exact ⟨answer_onPath silent_plain fun p => answer_answering _ ▸
      silent_bind fun _ _ => silent_bind fun _ _ => silent_bind fun _ _ => rfl, rfl⟩
  | searchPage =>
    exact ⟨answer_onQuery silent_plain fun q => answer_answering _ ▸
      silent_bind fun _ _ => silent_bind fun _ _ => rfl, rfl⟩
  | mePage => exact ⟨silent_bind fun _ _ => rfl, rfl⟩
  | listActorsPage => exact ⟨silent_bind fun _ _ => silent_bind fun _ _ => rfl, rfl⟩
  | apiGetPage raw =>
    exact ⟨answer_onPath silent_plain fun p => answer_answering _ ▸ Site.apiGetPage_silent, rfl⟩
  | apiSearch =>
    exact ⟨answer_onQuery silent_plain fun q => answer_answering _ ▸
      silent_bind fun _ _ => silent_bind fun _ _ => rfl, rfl⟩

/-! ### Login and logout -/

theorem Site.loginWith_sets (hsid : ∀ c ∈ env.sid, cookieChar c = true) (remote : Option Text) (input : LoginInput) :
    w.access.Keeps (site.loginWith env w remote input).2.access ∧
      Sets (site.loginWith env w remote input).2.access site.config.secure
        ((w.access.verifyPasswordLogin site.argon2 w.stores.db.actors input.handle input.password).toOption.map
          Actor.id)
        (respond (site.loginWith env w remote input).1).setCookies := by
  unfold loginWith
  split
  next actor hactor =>
    rw [query_ok hactor]
    simp only
    split
    · exact ⟨.refl _, .nothing⟩
    next acc hcreate =>
      obtain ⟨hkeep, howns⟩ := Access.createSession_owns (query_ok hcreate)
      rw [World.logAccess_access]
      exact ⟨hkeep, .login howns hsid⟩
  · rw [World.logAccess_access]
    exact ⟨.refl _, .nothing⟩

theorem Site.loginSubmit_sets (hsid : ∀ c ∈ env.sid, cookieChar c = true) (hreq : req.endpoint = some .loginSubmit)
    (remote : Option Text) :
    w.access.Keeps (site.loginSubmit env w req remote).2.access ∧
      Sets (site.loginSubmit env w req remote).2.access site.config.secure
        ((site.claimant w req).map Actor.id) (respond (site.loginSubmit env w req remote).1).setCookies := by
  have hform : ((readBody req.body (64 * 1024)).bind fun bytes =>
      orBadRequest "form: ".toList (site.decoders.login bytes)) = site.loginForm req := rfl
  rw [loginSubmit, hform, claimant, hreq]
  cases site.loginForm req with
  | error e => exact ⟨.refl _, .nothing⟩
  | ok input => exact loginWith_sets hsid remote input

theorem Site.logout_sets (site : Site) (env : Env) (w : World) (req : Request) :
    w.access.Keeps (site.logout env w req).2.access ∧
      (site.logout env w req).1.setCookies = [clearSessionCookie site.config.secure] := by
  unfold logout
  simp only
  split
  · exact ⟨.refl _, rfl⟩
  next sid _ =>
    split
    · exact ⟨.refl _, rfl⟩
    · exact ⟨w.access.revokeSession_keeps sid env.now, rfl⟩

/-- **What an answer does with the session** of who gets it. -/
theorem Site.dispatch_sets (hsid : ∀ c ∈ env.sid, cookieChar c = true)
    (he : ∀ e, req.endpoint = some e → site.writing env req auth e = none) :
    w.access.Keeps (site.dispatch env req w auth).2.access ∧
      Sets (site.dispatch env req w auth).2.access site.config.secure ((site.claimant w req).map Actor.id)
        (site.dispatch env req w auth).1.setCookies := by
  unfold dispatch
  cases hroute : routeOf req.path with
  | none => exact ⟨.refl _, .nothing⟩
  | some route =>
    simp only
    cases hend : route.endpoint req.method with
    | none => exact ⟨.refl _, .nothing⟩
    | some e =>
      have hreq : req.endpoint = some e := by simp [Request.endpoint, hroute, hend]
      have hrun : w.access.Keeps (site.runEndpoint env req w auth e).2.access ∧
          Sets (site.runEndpoint env req w auth e).2.access site.config.secure ((site.claimant w req).map Actor.id)
            (site.runEndpoint env req w auth e).1.setCookies := by
        by_cases hin : e = .loginSubmit
        · subst hin
          exact loginSubmit_sets hsid hreq _
        by_cases hout : e = .logout
        · subst hout
          obtain ⟨hkeep, hset⟩ := site.logout_sets env w req
          refine ⟨hkeep, ?_⟩
          rw [runEndpoint, hset, claimant, hreq]
          exact .logout
        · obtain ⟨hsilent, hworld⟩ := runEndpoint_silent (w := w) (he e hreq) hin hout
          rw [hworld, hsilent]
          exact ⟨.refl _, .nothing⟩
      simp only
      split
      · exact hrun
      · exact hrun

theorem Site.start_silent {e : Endpoint} {h : Writing} {resp : Response} (hw : site.writing env req auth e = some h)
    (hs : h.start = .error resp) : resp.Silent := by
  have hpath : ∀ {raw : Text} {k : Text → Except AppError (Auth × WriteRequest)},
      onPath raw (fun p => answering (k p)) = .error resp → resp.Silent := by
    intro raw k hk
    unfold onPath at hk
    split at hk
    · cases hk
      exact silent_plain _ _
    next p _ =>
      cases hkp : k p with
      | error e =>
        simp only [hkp, answering] at hk
        cases hk
        exact silent_error e
      | ok x => simp [hkp, answering] at hk
  cases e <;> cases hw <;> exact hpath hs

theorem Site.finish_silent {e : Endpoint} {h : Writing} (hw : site.writing env req auth e = some h) (auth' : Auth)
    (wreq : WriteRequest) (result : Except AppError PageMeta) :
    (h.finish w auth' wreq result).1.Silent ∧ (h.finish w auth' wreq result).2.access = w.access := by
  cases e <;> cases hw
  · cases result with
    | ok info => exact ⟨rfl, rfl⟩
    | error err => cases err <;> first | exact ⟨rfl, rfl⟩ | exact ⟨rfl, World.logAccess_access ..⟩
  · cases result with
    | ok info => exact ⟨silent_withEtag (silent_json _) _, rfl⟩
    | error err => exact ⟨rfl, rfl⟩

end

/-! ## Steps -/

namespace Web

/-- The session that a handler may make is drawn. -/
def Action.Drawn : Action → Prop
  | .enter _ env => ∃ bytes, env.sid = hexEncode bytes
  | _ => True

/-- Whose password the request logs in with, if that is what it is about to
do. -/
def claimant (v : Web) (s : State) (k : Nat) : Option Int := (v.site.claimant s.world (v.request k)).map Actor.id

/-- The sessions are not what is administered. -/
def Action.Spares (s : State) : Action → Prop
  | .administer access _ _ => access.sessions = s.access.sessions
  | _ => True

section

variable {v : Web} {s s' : State} {a : Action} {k : Nat} {r : Response}

theorem hexEncode_cookieChars {bytes : Bytes} : ∀ c ∈ hexEncode bytes, cookieChar c = true := by
  intro c hc
  obtain ⟨n, rfl⟩ := mem_hexEncode hc
  have hdigit : ∀ n : Fin 16, cookieChar (Nat.digitChar n) = true := by decide
  exact hdigit n

theorem claimant_seen (s : State) (auth : Option Auth) (now : Int) :
    v.site.claimant (s.seen auth now).world (v.request k) = v.site.claimant s.world (v.request k) := by
  cases auth <;> rfl

theorem seen_access (s : State) (auth : Option Auth) (now : Int) : (s.seen auth now).access = s.access := by
  cases auth <;> rfl

/-- A handler that does not write, from beginning to end. -/
theorem handled_sets {env : Env} {auth : Option Auth} (hp : s.phase k = .ready auth) (hw : v.writing k env auth = none)
    (hdrawn : (Action.enter k env).Drawn) (h : v.step s (.enter k env) = some s') :
    s.access.Keeps s'.access ∧
      Sets s'.access v.site.config.secure (v.claimant s k)
        (v.site.dispatch env (v.request k) (s.seen auth env.now).world auth).1.setCookies := by
  obtain ⟨bytes, hsid⟩ := hdrawn
  have hchars : ∀ c ∈ env.sid, cookieChar c = true := hsid ▸ hexEncode_cookieChars
  have hnone : ∀ e, (v.request k).endpoint = some e → v.site.writing env (v.request k) auth e = none :=
    fun e he => by simpa [writing, he] using hw
  obtain ⟨hkeep, hsets⟩ := Site.dispatch_sets (w := (s.seen auth env.now).world) hchars hnone
  rw [claimant_seen] at hsets
  simp only [step, hp, enter, hw, Option.some.injEq] at h
  have haccess : s'.access = (v.site.dispatch env (v.request k) (s.seen auth env.now).world auth).2.access := by
    rw [← h]
    rfl
  rw [haccess]
  have hseen : (s.seen auth env.now).world.access = s.access := seen_access ..
  exact ⟨hseen ▸ hkeep, hsets⟩

theorem step_keeps (h : v.step s a = some s') (hdrawn : a.Drawn) (hspares : a.Spares s) : s.access.Keeps s'.access := by
  cases a with
  | arrive k =>
    simp only [step] at h
    split at h <;> cases h
    exact .refl _
  | verify k now ok =>
    simp only [step] at h
    split at h
    · split at h <;> cases h <;> exact .refl _
    · cases h
  | upgrade k ok =>
    simp only [step] at h
    split at h
    · cases h
      exact .of_sessions (Access.upgrade_sessions ..)
    · cases h
  | touch k now ok =>
    simp only [step] at h
    split at h
    · cases h
      refine .of_sessions ?_
      simp only
      split <;> rfl
    · cases h
  | lookup k now ok =>
    simp only [step] at h
    split at h
    · split at h <;> cases h <;> exact .refl _
    · cases h
  | findActor k ok =>
    simp only [step] at h
    split at h
    · split at h <;> cases h <;> exact .refl _
    · cases h
  | enter k env =>
    have henter := h
    simp only [step] at h
    split at h
    next auth hp =>
      cases hw : v.writing k env auth with
      | none => exact (handled_sets hp hw hdrawn henter).1
      | some hw' =>
        simp only [enter, hw] at h
        split at h
        · cases h
          exact .of_sessions (congrArg Access.sessions (seen_access s auth env.now))
        · obtain ⟨core, -, rfl⟩ := Option.map_eq_some_iff.1 h
          exact .of_sessions (congrArg Access.sessions (seen_access s auth env.now))
    · cases h
  | finish k env =>
    simp only [step] at h
    split at h
    next auth hp =>
      obtain ⟨result, -, h⟩ := Option.bind_eq_some_iff.1 h
      obtain ⟨hw, hsome, rfl⟩ := Option.map_eq_some_iff.1 h
      obtain ⟨e, -, he⟩ := Option.bind_eq_some_iff.1 hsome
      obtain ⟨-, haccess⟩ := Site.finish_silent (w := s.world) he auth (s.writes k) result
      exact .of_sessions (congrArg Access.sessions haccess)
    · cases h
  | disconnect k =>
    simp only [step] at h
    split at h <;> cases h
    exact .refl _
  | core b =>
    simp only [step] at h
    split at h
    · obtain ⟨core, -, rfl⟩ := Option.map_eq_some_iff.1 h
      exact .refl _
    · cases h
  | administer access layers actors =>
    simp only [step] at h
    obtain ⟨core, -, rfl⟩ := Option.map_eq_some_iff.1 h
    exact .of_sessions hspares

/-- **The answer of a step** leaves the session alone, or does with it what the
request has come for. -/
theorem Answers.sets (ha : v.Answers s a k r) (h : v.step s a = some s') (hdrawn : a.Drawn) :
    r.setCookies = [] ∨ ∃ env, a = .enter k env ∧
      Sets s'.access v.site.config.secure (v.claimant s k) r.setCookies := by
  cases ha with
  | @handled _ env auth hp hw =>
    refine .inr ⟨env, rfl, ?_⟩
    rw [setCookies_securityHeaders]
    exact (handled_sets hp hw hdrawn h).2
  | refused hp hw hs =>
    obtain ⟨e, -, he⟩ := Option.bind_eq_some_iff.1 hw
    rw [setCookies_securityHeaders]
    exact .inl (Site.start_silent he hs)
  | wrote hp hr hw =>
    obtain ⟨e, -, he⟩ := Option.bind_eq_some_iff.1 hw
    rw [setCookies_securityHeaders]
    exact .inl (Site.finish_silent he ..).1

/-- A request that is verified has been about to be. -/
theorem verifying_of_step {now : Int} {ok : Bool} (h : v.step s (.verify k now ok) = some s') :
    ∃ token, s.phase k = .verifying token := by
  simp only [step] at h
  split at h
  next token hp => exact ⟨token, hp⟩
  · cases h

theorem idle_of_step (h : v.step s (.arrive k) = some s') : s.phase k = .idle := by
  simp only [step] at h
  split at h
  next hp => exact hp
  · cases h

theorem ready_of_step {env : Env} (h : v.step s (.enter k env) = some s') : ∃ auth, s.phase k = .ready auth := by
  simp only [step] at h
  split at h
  next auth hp => exact ⟨auth, hp⟩
  · cases h

end

end Web

end Wikikiki
