/-
What a client without an actor learns where anonymous reading is off
(web/mod.rs): two services that differ in their pages only give it the same
answers, and it changes no page of either.

`Blind` is what two answers are to each other. Every handler asks
`require_read` or `require_writer` before it looks at a page
(`Site.runEndpoint_blind`), but for those of login and logout, which look at
the actors, the credentials and the sessions.
-/
import Wikikiki.Router

namespace Wikikiki

/-- The two services have the same actors, credentials and sessions. -/
structure World.Agrees (w w' : World) : Prop where
  actors : w.stores.db.actors = w'.stores.db.actors
  access : w.access = w'.access

/-- The same answer in both, and the page stores left alone. -/
structure Blind (w w' : World) (p p' : Response × World) : Prop where
  response : p.1 = p'.1
  stores : p.2.stores = w.stores
  stores' : p'.2.stores = w'.stores
  access : p.2.access = p'.2.access

section

variable {site : Site} {env : Env} {req : Request} {w w' : World} {p p' : Response × World}

theorem Blind.agrees (h : Blind w w' p p') (ha : w.Agrees w') : p.2.Agrees p'.2 where
  actors := by rw [h.stores, h.stores']; exact ha.actors
  access := h.access

/-- The same answer for both, without a step. -/
theorem World.Agrees.still (ha : w.Agrees w') (r : Response) : Blind w w' (r, w) (r, w') :=
  ⟨rfl, rfl, rfl, ha.access⟩

/-- Nothing but the answer is made of the answers. -/
theorem Blind.map (h : Blind w w' p p') (f : Response → Response) : Blind w w' (f p.1, p.2) (f p'.1, p'.2) :=
  ⟨congrArg f h.response, h.stores, h.stores', h.access⟩

/-! ## Who makes the request -/

/-- A request that is nobody's has used no credential. -/
theorem Access.resolveActor_none {acc : Access} {ext : Externals} {argon2 : Argon2} {actors : Table ActorRow}
    {used : Throttle} {now : Int} {surface : Surface} {authHeader cookie : Option Text} {oks : Updates}
    (h : (acc.resolveActor ext argon2 actors used now surface authHeader cookie oks).1 = none) :
    (acc.resolveActor ext argon2 actors used now surface authHeader cookie oks).2 = (acc, used) := by
  unfold resolveActor at h ⊢
  split at h
  next token _ =>
    have hrejected : ∀ actor id digest, acc.judge ext argon2 actors now token ≠ .accepted actor id digest := by
      intro actor id digest hj
      simp only [verify, hj] at h
      cases h
    have hv : (acc.verify ext argon2 actors used now token oks).2 = (acc, used) :=
      acc.verify_of_not_accepted hrejected
    cases hp : acc.verify ext argon2 actors used now token oks with
    | mk result rest =>
      rw [hp] at h hv
      cases hv
      cases result with
      | error e => rfl
      | ok actor =>
        cases actor with
        | none => rfl
        | some actor => cases h
  · rfl

theorem Site.authenticate_none (h : (site.resolve env req w).1 = none) : site.authenticate env req w = (none, w) := by
  have hrest : (site.resolve env req w).2 = (w.access, w.credentialUsed) := Access.resolveActor_none h
  unfold authenticate
  rw [show site.resolve env req w = (none, w.access, w.credentialUsed) from Prod.ext h hrest]

theorem World.Agrees.resolve (ha : w.Agrees w') : (site.resolve env req w).1 = (site.resolve env req w').1 := by
  unfold Site.resolve
  rw [Access.resolveActor_eq, Access.resolveActor_eq, ha.actors, ha.access]

/-! ## The handlers -/

/-- Nobody may read. -/
theorem Config.requireRead_none {c : Config} (hc : c.allowAnonymousRead = false) :
    c.requireRead none = .error .unauthorized := by
  simp [requireRead, canRead, hc]

section

variable (hc : site.config.allowAnonymousRead = false)
include hc

/-- The handlers that read begin with that, so they are refused whatever
there is to read. -/
theorem Site.home_none : site.home env w none = .error .unauthorized := by
  rw [home, Config.requireRead_none hc]
  rfl

theorem Site.viewPage_none (path : Text) (q : ViewQuery) : site.viewPage env w none path q = .error .unauthorized := by
  rw [viewPage, Config.requireRead_none hc]
  rfl

theorem Site.historyPage_none (path : Text) : site.historyPage env w none path = .error .unauthorized := by
  rw [historyPage, Config.requireRead_none hc]
  rfl

theorem Site.searchPage_none (q : Option Text) : site.searchPage env w none q = .error .unauthorized := by
  rw [searchPage, Config.requireRead_none hc]
  rfl

theorem Site.listActorsPage_none : site.listActorsPage env w none = .error .unauthorized := by
  rw [listActorsPage, Config.requireRead_none hc]
  rfl

theorem Site.apiGetPage_none (path : Text) : site.apiGetPage env w none req path = .error .unauthorized := by
  rw [apiGetPage, Config.requireRead_none hc]
  rfl

theorem Site.apiSearch_none (q : ApiSearch) : site.apiSearch env w none q = .error .unauthorized := by
  rw [apiSearch, Config.requireRead_none hc]
  rfl

end

/-- A handler that writes does not get to the write. -/
theorem Writing.run_refused {h : Writing} {resp : Response} (hs : h.start = .error resp) :
    h.run site env w = (resp, w) := by
  unfold run
  rw [hs]

/-- What stands before a refusal depends on the path only. -/
theorem onPath_error {α : Type} (raw : Text) (r : Response) :
    ∃ resp, onPath raw (fun _ => (.error r : Except Response α)) = .error resp := by
  unfold onPath
  split
  · exact ⟨_, rfl⟩
  · exact ⟨r, rfl⟩

/-- A login looks at the actors and their passwords. -/
theorem World.Agrees.loginWith (ha : w.Agrees w') (remote : Option Text) (input : LoginInput) :
    Blind w w' (respond (site.loginWith env w remote input).1, (site.loginWith env w remote input).2)
      (respond (site.loginWith env w' remote input).1, (site.loginWith env w' remote input).2) := by
  unfold Site.loginWith
  rw [ha.actors, ha.access]
  cases env.query .verifyLogin
      (w'.access.verifyPasswordLogin site.argon2 w'.stores.db.actors input.handle input.password) with
  | error e =>
    exact ⟨rfl, World.logAccess_stores .., World.logAccess_stores .., by
      rw [World.logAccess_access, World.logAccess_access]; exact ha.access⟩
  | ok actor =>
    simp only
    cases env.query .createSession (w'.access.createSession w'.stores.db.actors env.sid actor.id env.now
        (asSecs site.config.sessionLifetime) env.said) with
    | error e => exact ha.still _
    | ok access =>
      exact ⟨rfl, World.logAccess_stores .., World.logAccess_stores .., by
        rw [World.logAccess_access, World.logAccess_access]⟩

theorem World.Agrees.loginSubmit (ha : w.Agrees w') (remote : Option Text) :
    Blind w w' (respond (site.loginSubmit env w req remote).1, (site.loginSubmit env w req remote).2)
      (respond (site.loginSubmit env w' req remote).1, (site.loginSubmit env w' req remote).2) := by
  unfold Site.loginSubmit
  cases (readBody req.body (64 * 1024)).bind fun bytes => orBadRequest "form: ".toList (site.decoders.login bytes) with
  | error e => exact ha.still _
  | ok input => exact ha.loginWith remote input

theorem World.Agrees.logout (ha : w.Agrees w') : Blind w w' (site.logout env w req) (site.logout env w' req) := by
  unfold Site.logout
  cases (req.header "cookie".toList).bind fun c => parseCookie c sessionCookie with
  | none => exact ha.still _
  | some sid =>
    cases env.fault .revokeSession with
    | some e => exact ha.still _
    | none => exact ⟨rfl, rfl, rfl, congrArg (fun acc : Access => acc.revokeSession sid env.now) ha.access⟩

/-- No handler tells nobody anything about the pages. -/
theorem Site.runEndpoint_blind (hc : site.config.allowAnonymousRead = false) (ha : w.Agrees w')
    (endpoint : Endpoint) :
    Blind w w' (site.runEndpoint env req w none endpoint) (site.runEndpoint env req w' none endpoint) := by
  cases endpoint with
  | home =>
    simp only [runEndpoint, home_none hc]
    exact ha.still _
  | loginForm => exact ha.still _
  | loginSubmit => exact ha.loginSubmit _
  | logout => exact ha.logout
  | viewPage raw =>
    simp only [runEndpoint, viewPage_none hc]
    exact ha.still _
  | savePage raw =>
    obtain ⟨resp, hs⟩ := onPath_error (α := Auth × WriteRequest) raw AppError.unauthorized.response
    have hstart : ∀ remote, (site.savePage env req remote none raw).start = .error resp := fun _ => hs
    simp only [runEndpoint, Writing.run_refused (hstart _)]
    exact ha.still _
  | historyPage raw =>
    simp only [runEndpoint, historyPage_none hc]
    exact ha.still _
  | searchPage =>
    simp only [runEndpoint, searchPage_none hc]
    exact ha.still _
  | mePage => exact ha.still _
  | listActorsPage =>
    simp only [runEndpoint, listActorsPage_none hc]
    exact ha.still _
  | apiGetPage raw =>
    simp only [runEndpoint, apiGetPage_none hc]
    exact ha.still _
  | apiPutPage raw =>
    obtain ⟨resp, hs⟩ := onPath_error (α := Auth × WriteRequest) raw AppError.unauthorized.response
    have hstart : (apiPutPage req none raw).start = .error resp := hs
    simp only [runEndpoint, Writing.run_refused hstart]
    exact ha.still _
  | apiSearch =>
    simp only [runEndpoint, apiSearch_none hc]
    exact ha.still _

theorem Site.dispatch_blind (hc : site.config.allowAnonymousRead = false) (ha : w.Agrees w') :
    Blind w w' (site.dispatch env req w none) (site.dispatch env req w' none) := by
  unfold dispatch
  cases routeOf req.path with
  | none => exact ha.still _
  | some route =>
    simp only
    cases route.endpoint req.method with
    | none => exact ha.still _
    | some endpoint =>
      exact (runEndpoint_blind hc ha endpoint).map fun resp =>
        if req.method = .head then { resp with body := .empty } else resp

theorem Site.router_blind (hc : site.config.allowAnonymousRead = false) (ha : w.Agrees w')
    (hnobody : (site.resolve env req w).1 = none) : Blind w w' (site.router env req w) (site.router env req w') := by
  have hnobody' : (site.resolve env req w').1 = none := ha.resolve ▸ hnobody
  unfold router
  rw [authenticate_none hnobody, authenticate_none hnobody']
  exact (dispatch_blind hc ha).map securityHeaders

end

/-- **What nobody may read.** Where anonymous reading is off, two services
with the same actors, credentials and sessions answer a request that is
nobody's in the same way, on every route and whatever their pages are, and
their page stores stay as they were. -/
theorem Site.nobody_reads (site : Site) (hc : site.config.allowAnonymousRead = false) (w w' : World)
    (ha : w.Agrees w') (env : Env) (req : Request) (hnobody : (site.resolve env req w).1 = none) :
    (site.router env req w).1 = (site.router env req w').1 ∧ (site.router env req w).2.stores = w.stores ∧
      (site.router env req w').2.stores = w'.stores :=
  have h := router_blind hc ha hnobody
  ⟨h.response, h.stores, h.stores'⟩

/-- The editor of a page that is there, and of one that is not. -/
theorem Site.nobody_reads_small :
    let req : Request := ⟨.get, "/wiki/notes".toList, some "edit=1".toList, [], [], none⟩
    let w := World.small (some (.foreign "notes".toList none))
    let w' := World.small none
    w.stores.db.findPage "notes".toList ≠ w'.stores.db.findPage "notes".toList ∧
      (Site.small.router .small req w).1 = (Site.small.router .small req w').1 ∧
      (Site.small.router .small req w).2.stores = w.stores ∧
      (Site.small.router .small req w').2.stores = w'.stores := by
  intro req w w'
  exact ⟨by decide, Site.small.nobody_reads rfl w w' ⟨rfl, rfl⟩ .small req rfl⟩

/-- Each request is nobody's when it comes. -/
def Site.Nobodys (site : Site) : List (Env × Request) → World → Prop
  | [], _ => True
  | (env, req) :: reqs, w => (site.resolve env req w).1 = none ∧ site.Nobodys reqs (site.router env req w).2

/-- What nobody may read, no number of requests finds out. -/
theorem Site.serve_blind {site : Site} (hc : site.config.allowAnonymousRead = false) {reqs : List (Env × Request)}
    {w w' : World} (ha : w.Agrees w') (hnobody : site.Nobodys reqs w) :
    (site.serve reqs w).1 = (site.serve reqs w').1 ∧ (site.serve reqs w).2.stores = w.stores ∧
      (site.serve reqs w').2.stores = w'.stores := by
  induction reqs generalizing w w' with
  | nil => exact ⟨rfl, rfl, rfl⟩
  | cons r reqs ih =>
    obtain ⟨env, req⟩ := r
    have h := router_blind hc ha hnobody.1
    obtain ⟨hresps, hstores, hstores'⟩ := ih (h.agrees ha) hnobody.2
    simp only [serve]
    exact ⟨by rw [h.response, hresps], hstores.trans h.stores, hstores'.trans h.stores'⟩

end Wikikiki
