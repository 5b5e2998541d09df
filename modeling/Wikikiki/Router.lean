/-
The router (web/mod.rs): who makes the request, which handler it goes to, and
what the handler reads, writes and answers.

The two handlers that write are kept in two halves (`Writing`), what comes
before `pages::write` and what comes after it, since the write takes its time.
The code from outside is a parameter (`Site`), and so is what a request meets
by chance (`Env`): the clock, the random session id, and the statements that
SQLite fails.
-/
import Wikikiki.Gate
import Wikikiki.Http

namespace Wikikiki

/-! ## What the router runs on -/

/-- `Config`, as far as the router reads it. -/
structure Config where
  allowAnonymousRead : Bool
  requireAuthForWrite : Bool
  sessionLifetime : Nat
  cookieSecure : Option Bool
  publicUrl : Text
  logRemoteAddr : Text

/-- `Config::cookie_secure`. -/
def Config.secure (c : Config) : Bool := c.cookieSecure.getD ("https://".toList.isPrefixOf c.publicUrl)

/-- `ViewQuery`. -/
structure ViewQuery where
  edit : Option Nat
  source : Option Nat

/-- `LoginInput`. -/
structure LoginInput where
  handle : Text
  password : Text

/-- `ApiSearch`. -/
structure ApiSearch where
  q : Text
  limit : Option Int

/-- The form decoder of `serde_urlencoded`, at each type; its errors are
texts. -/
structure Decoders where
  login : Bytes → Except Text LoginInput
  save : Bytes → Except Text SaveInput
  viewQuery : Text → Except Text ViewQuery
  searchQuery : Text → Except Text (Option Text)
  apiSearch : Text → Except Text ApiSearch

structure Site where
  wiki : Wiki
  argon2 : Argon2
  decoders : Decoders
  config : Config
  /-- The title of a commit message. -/
  title : Text → Text
  isAlphanumeric : Char → Bool
  /-- The rows that a `MATCH` expression finds, best first, each with its
  snippet, or the text of the error. -/
  ftsMatch : Table FtsRow → Text → Except Text (List (FtsRow × Text))

/-- A row of `access_log`. -/
structure AccessEntry where
  actorId : Option Int
  attemptedHandle : Option Text
  surface : Surface
  outcome : Text
  target : Option Text
  remoteAddr : Option Text
  createdAt : Int

/-- What the service keeps. -/
structure World where
  stores : Stores
  access : Access
  accessLog : List AccessEntry
  credentialUsed : Throttle
  actorSeen : Throttle

/-- The statements of the handlers. -/
inductive Query where
  | verifyToken
  | lookupSession
  | recent
  | readMeta
  | search
  | listActors
  | verifyLogin
  | createSession
  | revokeSession
  | logAccess

structure Env where
  now : Int
  sid : Text
  oks : Updates
  fault : Query → Option Text
  said : Text
  write : Stage → Input

/-- A statement that may fail. -/
def Env.query {α : Type} (env : Env) (q : Query) (x : Except AppError α) : Except AppError α :=
  match env.fault q with
  | some e => .error (.database e)
  | none => x

/-- `log_access`; its failure is nobody's. -/
def World.logAccess (w : World) (env : Env) (actorId : Option Int) (attemptedHandle : Option Text)
    (outcome : Text) (target remoteAddr : Option Text) : World :=
  match env.fault .logAccess with
  | some _ => w
  | none =>
    let entry := { actorId, attemptedHandle, surface := .ui, outcome, target, remoteAddr, createdAt := env.now }
    { w with accessLog := w.accessLog ++ [entry] }

theorem World.logAccess_stores (w : World) (env : Env) (actorId : Option Int) (handle : Option Text) (outcome : Text)
    (target remote : Option Text) : (w.logAccess env actorId handle outcome target remote).stores = w.stores := by
  unfold logAccess
  split <;> rfl

theorem World.logAccess_access (w : World) (env : Env) (actorId : Option Int) (handle : Option Text) (outcome : Text)
    (target remote : Option Text) : (w.logAccess env actorId handle outcome target remote).access = w.access := by
  unfold logAccess
  split <;> rfl

/-! ## Queries -/

/-- `recent`. -/
def Db.recent (db : Db) (limit : Nat) : List PageMeta :=
  let touched (p : Int × PageRow) : Int := p.2.lastEditAt.getD p.2.updatedAt
  ((db.pages.rows.mergeSort fun p q => touched q ≤ touched p).take limit).map fun p => db.pageMeta p.1 p.2

/-- `list_actors`; a table is in the order of its ids. -/
def listActors (actors : Table ActorRow) : List Actor := actors.rows.map fun p => p.2.actor p.1

/-- `fts_match_query`. -/
def Site.ftsMatchQuery (site : Site) (q : Text) : Text :=
  let words := (q.splitOnP Text.isWhitespace).filter fun tok => tok ≠ []
  [' '].intercalate <| words.filterMap fun tok =>
    let t := tok.filter fun c => site.isAlphanumeric c || c = '-' || c = '_'
    if t = [] then none else some ('"' :: t ++ "\"*".toList)

/-- `search`. -/
def Site.search (site : Site) (env : Env) (db : Db) (query : Text) (limit : Nat) :
    Except AppError (List SearchHit) :=
  if Text.trim query = [] then .ok []
  else
    env.query .search <|
      match site.ftsMatch db.pagesFts (site.ftsMatchQuery query) with
      | .error e => .error (.database e)
      | .ok hits => .ok ((hits.take limit).map fun (row, snippet) => { path := row.path, title := row.title, snippet })

/-- `read`. -/
def Site.readPage (site : Site) (env : Env) (s : Stores) (path : Text) : Except AppError Page :=
  (validatePath path).bind fun _ => env.query .readMeta (site.wiki.read s path env.said)

/-! ## Access policy -/

/-- `can_read`. -/
def Config.canRead (c : Config) (auth : Option Auth) : Bool := auth.isSome || c.allowAnonymousRead

/-- `require_read`. -/
def Config.requireRead (c : Config) (auth : Option Auth) : Except AppError Unit :=
  if c.canRead auth then .ok () else .error .unauthorized

/-- `require_writer`: `require_auth_for_write` is not asked. -/
def requireWriter (auth : Option Auth) : Except AppError Auth :=
  match auth with
  | some auth => .ok auth
  | none => .error .unauthorized

/-! ## What a handler gets of a request -/

/-- `axum::body::to_bytes`. -/
def readBody (body : Bytes) (limit : Nat) : Except AppError Bytes :=
  if limit < body.length then .error (.badRequest "body: length limit exceeded".toList) else .ok body

def orBadRequest {α : Type} (what : Text) : Except Text α → Except AppError α
  | .ok x => .ok x
  | .error e => .error (.badRequest (what ++ e))

/-- A path that does not decode is answered before the handler runs. -/
def onPath {α : Type} (raw : Text) (k : Text → Except Response α) : Except Response α :=
  match pathParam raw with
  | none => .error (.plain 400 "Invalid URL: Invalid UTF-8 in `path`".toList)
  | some path => k path

/-- So is a query. -/
def onQuery {α β : Type} (q : Except Text β) (k : β → Except Response α) : Except Response α :=
  match q with
  | .error e => .error (.plain 400 ("Failed to deserialize query string: ".toList ++ e))
  | .ok x => k x

def Request.queryText (req : Request) : Text := req.query.getD []

/-- The error of a handler as its answer. -/
def answering {α : Type} : Except AppError α → Except Response α
  | .ok x => .ok x
  | .error e => .error e.response

def answer : Except Response Response → Response
  | .ok r => r
  | .error r => r

/-! ## Handlers that read -/

section

variable (site : Site) (env : Env) (w : World) (auth : Option Auth)

/-- `home`. -/
def Site.home : Except AppError Response := do
  site.config.requireRead auth
  let recent ← env.query .recent (.ok (w.stores.db.recent 25))
  return .html (.home auth recent)

/-- `seed_page_content`. -/
def seedPageContent (path : Text) : Text := "# ".toList ++ titleOfPath path ++ "\n\n".toList

/-- `view_page`: the page, its source, its editor, or the offer to create
it. -/
def Site.viewPage (path : Text) (q : ViewQuery) : Except AppError Response := do
  site.config.requireRead auth
  let page := site.readPage env w.stores path
  if q.edit = some 1 then
    let _ ← requireWriter auth
    match page with
    | .ok p => return .html (.editPage auth (editPage path p.content (some p.info) none))
    | .error (.notFound _) => return .html (.editPage auth (editPage path (seedPageContent path) none none))
    | .error e => .error e
  else
    match page with
    | .error (.notFound _) => return .html (.missingPage auth path)
    | .error e => .error e
    | .ok p => return if q.source = some 1 then .markdown p.content else .html (.viewPage auth p)

/-- `history_page`; an error of the history is an empty one. -/
def Site.historyPage (path : Text) : Except AppError Response := do
  site.config.requireRead auth
  validatePath path
  let info ← env.query .readMeta (.ok (w.stores.db.readMeta path))
  let commits := (site.wiki.history site.title w.stores.git path 50 env.said).toOption.getD []
  return .html (.history auth path info commits)

/-- `search_page`. -/
def Site.searchPage (q : Option Text) : Except AppError Response := do
  site.config.requireRead auth
  let query := q.getD []
  let hits ← site.search env w.stores.db query 50
  return .html (.search auth query hits)

/-- `me_page`. -/
def mePage (auth : Option Auth) : Except AppError Response := do
  let auth ← requireWriter auth
  return .html (.me auth)

/-- `list_actors_page`. -/
def Site.listActorsPage : Except AppError Response := do
  site.config.requireRead auth
  let actors ← env.query .listActors (.ok (listActors w.stores.db.actors))
  return .html (.actorsList auth actors)

/-- The answer of `api_get_page` to a client that accepts JSON. -/
def Page.json (page : Page) : Json :=
  .obj [("path".toList, .str page.info.path), ("title".toList, .str page.info.title),
    ("layer".toList, .str page.info.layer), ("content".toList, .str page.content),
    ("last_edit_at".toList, .ofOption .num page.info.lastEditAt),
    ("revision".toList, .ofOption .str page.info.revision)]

/-- `api_get_page`. -/
def Site.apiGetPage (req : Request) (path : Text) : Except AppError Response := do
  site.config.requireRead auth
  let page ← site.readPage env w.stores path
  let wantsJson := ((req.header "accept".toList).map fun s => decide ("application/json".toList <:+: s)).getD false
  let resp : Response := if wantsJson then .json page.json else .markdown page.content
  return resp.withEtag page.info.revision

def SearchHit.json (hit : SearchHit) : Json :=
  .obj [("path".toList, .str hit.path), ("title".toList, .str hit.title), ("snippet".toList, .str hit.snippet)]

/-- `api_search`. -/
def Site.apiSearch (q : ApiSearch) : Except AppError Response := do
  site.config.requireRead auth
  let limit := max 1 (min 100 (q.limit.getD 20))
  let hits ← site.search env w.stores.db q.q limit.toNat
  return .json (.obj [("hits".toList, .arr (hits.map SearchHit.json))])

end

/-! ## Login and logout -/

/-- `build_session_cookie`. -/
def buildSessionCookie (sid : Text) (maxAge : Int) (secure : Bool) : Text :=
  sessionCookie ++ '=' :: sid ++ "; Path=/; HttpOnly; SameSite=Lax; Max-Age=".toList ++ (toString maxAge).toList ++
    if secure then "; Secure".toList else []

/-- `clear_session_cookie`. -/
def clearSessionCookie (secure : Bool) : Text :=
  sessionCookie ++ "=; Path=/; HttpOnly; SameSite=Lax; Max-Age=0".toList ++
    if secure then "; Secure".toList else []

/-- `login_submit`, with the form that it was sent. -/
def Site.loginWith (site : Site) (env : Env) (w : World) (remote : Option Text) (input : LoginInput) :
    Except AppError Response × World :=
  match env.query .verifyLogin
      (w.access.verifyPasswordLogin site.argon2 w.stores.db.actors input.handle input.password) with
  | .ok actor =>
    let lifetime := asSecs site.config.sessionLifetime
    match env.query .createSession
        (w.access.createSession w.stores.db.actors env.sid actor.id env.now lifetime env.said) with
    | .error e => (.error e, w)
    | .ok access =>
      let cookie := buildSessionCookie env.sid lifetime site.config.secure
      (.ok ((Response.redirect "/".toList).withHeader "set-cookie".toList cookie),
        { w with access }.logAccess env (some actor.id) (some input.handle) "login_success".toList none remote)
  | .error _ =>
    (.ok { Response.html (.login none (some "invalid handle or password".toList)) with status := 401 },
      w.logAccess env none (some input.handle) "login_failure".toList none remote)

/-- `login_submit`. -/
def Site.loginSubmit (site : Site) (env : Env) (w : World) (req : Request) (remote : Option Text) :
    Except AppError Response × World :=
  match (readBody req.body (64 * 1024)).bind fun bytes => orBadRequest "form: ".toList (site.decoders.login bytes) with
  | .error e => (.error e, w)
  | .ok input => site.loginWith env w remote input

/-- `logout`. -/
def Site.logout (site : Site) (env : Env) (w : World) (req : Request) : Response × World :=
  let resp := (Response.redirect "/".toList).withHeader "set-cookie".toList (clearSessionCookie site.config.secure)
  match (req.header "cookie".toList).bind fun c => parseCookie c sessionCookie with
  | none => (resp, w)
  | some sid =>
    match env.fault .revokeSession with
    | some _ => (resp, w)
    | none => (resp, { w with access := w.access.revokeSession sid env.now })

/-! ## Handlers that write -/

/-- The largest page. -/
def bodyLimit : Nat := 4 * 1024 * 1024

/-- `save_page` up to `pages::write`. -/
def Site.savePageStart (site : Site) (req : Request) (path : Text) (auth : Option Auth) :
    Except AppError (Auth × WriteRequest) := do
  let auth ← requireWriter auth
  let bytes ← readBody req.body bodyLimit
  let input ← orBadRequest "form: ".toList (site.decoders.save bytes)
  return (auth, saveRequest path auth.actor input)

/-- `String::from_utf8`. -/
def textBody (bytes : Bytes) : Except AppError Text :=
  match Text.fromUtf8 bytes with
  | some content => .ok content
  | none => .error (.badRequest "body must be UTF-8".toList)

/-- `api_put_page` up to `pages::write`. -/
def apiPutPageStart (req : Request) (path : Text) (auth : Option Auth) :
    Except AppError (Auth × WriteRequest) := do
  let auth ← requireWriter auth
  let bytes ← readBody req.body bodyLimit
  let content ← textBody bytes
  let precondition ← preconditionFromHeaders req.headers
  return (auth,
    { path
      layer := (req.header "x-layer".toList).getD "semantic".toList
      content
      actorId := auth.actor.id
      actorType := auth.actor.actorType
      actorHandle := auth.actor.handle
      summary := req.header "x-summary".toList
      precondition })

/-- What `save_page` answers: a conflict brings the form back. -/
def savePageAnswer (env : Env) (w : World) (remote : Option Text) (auth : Auth) (wreq : WriteRequest) :
    Except AppError PageMeta → Response × World
  | .ok _ => (.redirect (wikiRoute ++ wreq.path), w)
  | .error (.preconditionFailed reason) =>
    let current := (env.query .readMeta (.ok (w.stores.db.readMeta wreq.path))).toOption.join
    let form := editPage wreq.path wreq.content current (some reason)
    ({ Response.html (.editPage (some auth) form) with status := 412 }, w)
  | .error e =>
    (e.response,
      w.logAccess env (some auth.actor.id) (some auth.actor.handle) "write_error".toList
        (some ("page:".toList ++ wreq.path)) remote)

/-- What `api_put_page` answers. -/
def apiPutPageAnswer : Except AppError PageMeta → Response
  | .ok info =>
    let body : Json :=
      .obj [("ok".toList, .bool true), ("path".toList, .str info.path), ("title".toList, .str info.title),
        ("layer".toList, .str info.layer), ("revision".toList, .ofOption .str info.revision)]
    (Response.json body).withEtag info.revision
  | .error e => e.response

def Outcome.result : Outcome → Except AppError PageMeta
  | .refused e | .failed _ e => .error e
  | .done info => .ok info

/-- What a write answers; after its eight stages none goes on. -/
def Next.result : Next → Except AppError PageMeta
  | .stop o => o.result
  | .go _ => .error (.internal [])

/-- What a handler does before `pages::write`, and what it answers after
it. -/
structure Writing where
  start : Except Response (Auth × WriteRequest)
  finish : World → Auth → WriteRequest → Except AppError PageMeta → Response × World

/-- `save_page`. -/
def Site.savePage (site : Site) (env : Env) (req : Request) (remote : Option Text) (auth : Option Auth) (raw : Text) :
    Writing where
  start := onPath raw fun path => answering (site.savePageStart req path auth)
  finish w := savePageAnswer env w remote

/-- `api_put_page`. -/
def apiPutPage (req : Request) (auth : Option Auth) (raw : Text) : Writing where
  start := onPath raw fun path => answering (apiPutPageStart req path auth)
  finish w _ _ result := (apiPutPageAnswer result, w)

/-- Both, with nobody else at the stores. -/
def Writing.run (h : Writing) (site : Site) (env : Env) (w : World) : Response × World :=
  match h.start with
  | .error resp => (resp, w)
  | .ok (auth, wreq) =>
    let (n, stores) := site.wiki.write wreq env.write w.stores
    h.finish { w with stores } auth wreq n.result

/-! ## The router -/

/-- `format_remote_addr`. -/
def Site.formatRemoteAddr (site : Site) (raw : Text) : Option Text :=
  if site.config.logRemoteAddr = "plain".toList then some raw
  else if site.config.logRemoteAddr = "hashed".toList then
    some (hexEncode ((site.wiki.ext.sha256 (Text.utf8 raw)).take 8))
  else none

def Request.remote (req : Request) (site : Site) : Option Text := req.remoteAddr.bind site.formatRemoteAddr

def Site.runEndpoint (site : Site) (env : Env) (req : Request) (w : World) (auth : Option Auth) :
    Endpoint → Response × World
  | .home => (respond (site.home env w auth), w)
  | .loginForm => (.html (.login auth none), w)
  | .loginSubmit =>
    let (r, w) := site.loginSubmit env w req (req.remote site)
    (respond r, w)
  | .logout => site.logout env w req
  | .viewPage raw =>
    (answer (onPath raw fun path =>
      onQuery (site.decoders.viewQuery req.queryText) fun q => answering (site.viewPage env w auth path q)), w)
  | .savePage raw => (site.savePage env req (req.remote site) auth raw).run site env w
  | .historyPage raw => (answer (onPath raw fun path => answering (site.historyPage env w auth path)), w)
  | .searchPage =>
    (answer (onQuery (site.decoders.searchQuery req.queryText) fun q => answering (site.searchPage env w auth q)), w)
  | .mePage => (respond (mePage auth), w)
  | .listActorsPage => (respond (site.listActorsPage env w auth), w)
  | .apiGetPage raw => (answer (onPath raw fun path => answering (site.apiGetPage env w auth req path)), w)
  | .apiPutPage raw => (apiPutPage req auth raw).run site env w
  | .apiSearch =>
    (answer (onQuery (site.decoders.apiSearch req.queryText) fun q => answering (site.apiSearch env w auth q)), w)

/-- The routes, with the answers to a path or a method that has none. -/
def Site.dispatch (site : Site) (env : Env) (req : Request) (w : World) (auth : Option Auth) : Response × World :=
  match routeOf req.path with
  | none => (⟨404, [], .empty⟩, w)
  | some route =>
    match route.endpoint req.method with
    | none => (⟨405, [("allow".toList, route.allow)], .empty⟩, w)
    | some endpoint =>
      let (resp, w) := site.runEndpoint env req w auth endpoint
      (if req.method = .head then { resp with body := .empty } else resp, w)

def csp : Text :=
  ("default-src 'self'; script-src 'none'; style-src 'self' 'unsafe-inline'; " ++
    "img-src 'self' data:; form-action 'self'; frame-ancestors 'none'; base-uri 'none'").toList

/-- `security_headers`. -/
def securityHeaders (r : Response) : Response :=
  (((r.withHeader "content-security-policy".toList csp).withHeader "x-content-type-options".toList
    "nosniff".toList).withHeader "referrer-policy".toList "same-origin".toList).withHeader
      "x-frame-options".toList "DENY".toList

/-- Who makes the request; a statement that fails finds nobody. -/
def Site.resolve (site : Site) (env : Env) (req : Request) (w : World) : Option Auth × Access × Throttle :=
  let authHeader := if (env.fault .verifyToken).isSome then none else req.header "authorization".toList
  let cookie := if (env.fault .lookupSession).isSome then none else req.header "cookie".toList
  w.access.resolveActor site.wiki.ext site.argon2 w.stores.db.actors w.credentialUsed env.now req.surface
    authHeader cookie env.oks

/-- `auth_middleware` up to the handler. -/
def Site.authenticate (site : Site) (env : Env) (req : Request) (w : World) : Option Auth × World :=
  let (auth, access, credentialUsed) := site.resolve env req w
  match auth with
  | none => (none, { w with access, credentialUsed })
  | some auth =>
    (some auth, { w with access, credentialUsed, actorSeen := (w.actorSeen.claim auth.actor.id env.now).2 })

/-- `router`. -/
def Site.router (site : Site) (env : Env) (req : Request) (w : World) : Response × World :=
  let (auth, w) := site.authenticate env req w
  let (resp, w) := site.dispatch env req w auth
  (securityHeaders resp, w)

/-- One request after the other. -/
def Site.serve (site : Site) : List (Env × Request) → World → List Response × World
  | [], w => ([], w)
  | (env, req) :: rest, w =>
    let (resp, w) := site.router env req w
    let (resps, w) := site.serve rest w
    (resp :: resps, w)

/-! ## A small site -/

/-- Decoders that know two queries and no form. -/
def Decoders.small : Decoders where
  login _ := .error "missing field `handle`".toList
  save _ := .error "missing field `content`".toList
  viewQuery q :=
    if q = [] then .ok ⟨none, none⟩
    else if q = "edit=1".toList then .ok ⟨some 1, none⟩
    else .error "invalid digit found in string".toList
  searchQuery _ := .ok none
  apiSearch _ := .error "missing field `q`".toList

/-- No anonymous reading. -/
def Site.small : Site where
  wiki := .small
  argon2 := .small
  decoders := .small
  config :=
    { allowAnonymousRead := false
      requireAuthForWrite := false
      sessionLifetime := 3600
      cookieSecure := none
      publicUrl := "http://localhost".toList
      logRemoteAddr := "hashed".toList }
  title msg := msg
  isAlphanumeric := Char.isAlphanum
  ftsMatch _ _ := .ok []

def Env.small : Env where
  now := 1
  sid := "s".toList
  oks := ⟨true, true⟩
  fault _ := none
  said := []
  write _ := ⟨1, []⟩

/-- One user with one old token, and at most one page. -/
def World.small (page : Option PageRow) : World where
  stores := .small page
  access := Gate.smallAccess
  accessLog := []
  credentialUsed := { interval := 60, last := fun _ => none }
  actorSeen := { interval := 60, last := fun _ => none }

end Wikikiki
