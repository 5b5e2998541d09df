/-
HTTP as the router sees it (web/mod.rs, error.rs): requests, responses, and
which handler a request goes to.

A page of HTML is kept as the template and what it is given; its text is
made from these and from the clock.
-/
import Wikikiki.Editor
import Wikikiki.FileHistory
import Wikikiki.Resolve
import Wikikiki.System

namespace Wikikiki

/-! ## Requests -/

inductive Method where
  | get
  | head
  | post
  | put
  | other (name : Text)
  deriving DecidableEq

structure Request where
  method : Method
  path : Text
  query : Option Text
  headers : HeaderMap
  body : Bytes
  remoteAddr : Option Text

/-- A header, where its first line is text. -/
def Request.header (req : Request) (name : Text) : Option Text := req.headers.firstText (.other name)

/-- `/api/` requests come from programs. -/
def Request.surface (req : Request) : Surface := if "/api/".toList <+: req.path then .api else .ui

def hexDigit (b : UInt8) : Option UInt8 :=
  if 48 ≤ b ∧ b ≤ 57 then some (b - 48)
  else if 65 ≤ b ∧ b ≤ 70 then some (b - 55)
  else if 97 ≤ b ∧ b ≤ 102 then some (b - 87)
  else none

/-- A percent sign and two digits are a byte, and all else is itself. -/
def percentDecode : Bytes → Bytes
  | b :: h :: l :: rest =>
    match b == 37, hexDigit h, hexDigit l with
    | true, some x, some y => (16 * x + y) :: percentDecode rest
    | _, _, _ => b :: percentDecode (h :: l :: rest)
  | b :: rest => b :: percentDecode rest
  | [] => []

/-- `Path<String>`, from what the wildcard matched. -/
def pathParam (raw : Text) : Option Text := Text.fromUtf8 (percentDecode (Text.utf8 raw))

example : pathParam "notes/v1%2e2".toList = some "notes/v1.2".toList := by decide +kernel

/-! ## Responses -/

inductive Json where
  | null
  | bool (b : Bool)
  | num (n : Int)
  | str (s : Text)
  | arr (xs : List Json)
  | obj (fields : List (Text × Json))

def Json.ofOption {α : Type} (f : α → Json) : Option α → Json
  | some x => f x
  | none => .null

/-- `SearchHit`. -/
structure SearchHit where
  path : Text
  title : Text
  snippet : Text

/-- A template and its arguments. -/
inductive View where
  | home (auth : Option Auth) (recent : List PageMeta)
  | login (auth : Option Auth) (error : Option Text)
  | viewPage (auth : Option Auth) (page : Page)
  | editPage (auth : Option Auth) (form : EditForm)
  | missingPage (auth : Option Auth) (pagePath : Text)
  | history (auth : Option Auth) (pagePath : Text) (info : Option PageMeta) (commits : List CommitInfo)
  | search (auth : Option Auth) (query : Text) (hits : List SearchHit)
  | me (auth : Auth)
  | actorsList (auth : Option Auth) (actors : List Actor)

inductive Body where
  | empty
  | text (t : Text)
  | html (view : View)
  | json (j : Json)

structure Response where
  status : Nat
  headers : List (Text × Text)
  body : Body

def Response.html (view : View) : Response where
  status := 200
  headers := [("content-type".toList, "text/html; charset=utf-8".toList)]
  body := .html view

def Response.json (j : Json) : Response where
  status := 200
  headers := [("content-type".toList, "application/json".toList)]
  body := .json j

/-- A status with a text. -/
def Response.plain (status : Nat) (t : Text) : Response where
  status
  headers := [("content-type".toList, "text/plain; charset=utf-8".toList)]
  body := .text t

def Response.markdown (content : Text) : Response where
  status := 200
  headers := [("content-type".toList, "text/markdown; charset=utf-8".toList)]
  body := .text content

/-- `Redirect::to`. -/
def Response.redirect (location : Text) : Response where
  status := 303
  headers := [("location".toList, location)]
  body := .empty

def Response.withHeader (r : Response) (name value : Text) : Response :=
  { r with headers := r.headers ++ [(name, value)] }

/-- `HeaderValue::from_str` takes the text. -/
def isHeaderText (t : Text) : Bool := (Text.utf8 t).all fun b => (32 ≤ b && b != 127) || b == 9

/-- The entity tag of a revision, where there is one and it is a header. -/
def Response.withEtag (r : Response) : Option Text → Response
  | some rev => if isHeaderText (etagFor rev) then r.withHeader "etag".toList (etagFor rev) else r
  | none => r

/-! ### Errors -/

/-- `AppError::status`. -/
def AppError.status : AppError → Nat
  | .unauthorized => 401
  | .forbidden => 403
  | .notFound _ => 404
  | .badRequest _ => 400
  | .conflict _ => 409
  | .preconditionFailed _ => 412
  | .database _ | .io _ | .config _ | .internal _ => 500

/-- The text of an error. -/
def AppError.display : AppError → Text
  | .database e => "database error: ".toList ++ e
  | .io e => "io error: ".toList ++ e
  | .config msg => "config error: ".toList ++ msg
  | .unauthorized => "unauthorized".toList
  | .forbidden => "forbidden".toList
  | .notFound msg => "not found: ".toList ++ msg
  | .badRequest msg => "bad request: ".toList ++ msg
  | .conflict msg => "conflict: ".toList ++ msg
  | .preconditionFailed msg => "precondition failed: ".toList ++ msg
  | .internal msg => "internal: ".toList ++ msg

/-- `AppError::into_response`. -/
def AppError.response (e : AppError) : Response := .plain e.status e.display

def respond : Except AppError Response → Response
  | .ok r => r
  | .error e => e.response

/-! ## Routes -/

inductive Route where
  | home
  | login
  | logout
  | wiki (raw : Text)
  | wikiHistory (raw : Text)
  | search
  | me
  | actors
  | apiPages (raw : Text)
  | apiSearch

/-- A handler, with what the wildcard of its route matched. -/
inductive Endpoint where
  | home
  | loginForm
  | loginSubmit
  | logout
  | viewPage (raw : Text)
  | savePage (raw : Text)
  | historyPage (raw : Text)
  | searchPage
  | mePage
  | listActorsPage
  | apiGetPage (raw : Text)
  | apiPutPage (raw : Text)
  | apiSearch

/-- A wildcard matches any text but the empty one. -/
def wildcard (before path : Text) : Option Text := (Text.stripPrefix before path).filter fun raw => raw ≠ []

def wikiRoute : Text := "/wiki/".toList

def wikiHistoryRoute : Text := "/wiki-history/".toList

def apiPagesRoute : Text := "/api/pages/".toList

/-- The routes of `router`. -/
def routeOf (path : Text) : Option Route :=
  if path = "/".toList then some .home
  else if path = "/login".toList then some .login
  else if path = "/logout".toList then some .logout
  else if path = "/search".toList then some .search
  else if path = "/me".toList then some .me
  else if path = "/actors".toList then some .actors
  else if path = "/api/search".toList then some .apiSearch
  else
    match wildcard wikiRoute path, wildcard wikiHistoryRoute path, wildcard apiPagesRoute path with
    | some raw, _, _ => some (.wiki raw)
    | _, some raw, _ => some (.wikiHistory raw)
    | _, _, some raw => some (.apiPages raw)
    | _, _, _ => none

/-- The handler of a route for a method; that for `GET` answers `HEAD` too. -/
def Route.endpoint : Route → Method → Option Endpoint
  | .home, .get | .home, .head => some .home
  | .login, .get | .login, .head => some .loginForm
  | .login, .post => some .loginSubmit
  | .logout, .post => some .logout
  | .wiki raw, .get | .wiki raw, .head => some (.viewPage raw)
  | .wiki raw, .post => some (.savePage raw)
  | .wikiHistory raw, .get | .wikiHistory raw, .head => some (.historyPage raw)
  | .search, .get | .search, .head => some .searchPage
  | .me, .get | .me, .head => some .mePage
  | .actors, .get | .actors, .head => some .listActorsPage
  | .apiPages raw, .get | .apiPages raw, .head => some (.apiGetPage raw)
  | .apiPages raw, .put => some (.apiPutPage raw)
  | .apiSearch, .get | .apiSearch, .head => some .apiSearch
  | _, _ => none

/-- The `Allow` header of a route. -/
def Route.allow : Route → Text
  | .login | .wiki _ => "GET,HEAD,POST".toList
  | .logout => "POST".toList
  | .apiPages _ => "GET,HEAD,PUT".toList
  | _ => "GET,HEAD".toList

/-- The handlers that write pages. -/
inductive Endpoint.Writes : Endpoint → Prop
  | save (raw : Text) : Writes (.savePage raw)
  | put (raw : Text) : Writes (.apiPutPage raw)

def Request.endpoint (req : Request) : Option Endpoint := (routeOf req.path).bind fun r => r.endpoint req.method

/-- A `PUT` of a page in the API, or a `POST` of one in the wiki. -/
def Request.IsWrite (req : Request) : Prop :=
  (req.method = .put ∧ apiPagesRoute <+: req.path) ∨ (req.method = .post ∧ wikiRoute <+: req.path)

theorem wildcard_eq_some {before path raw : Text} (h : wildcard before path = some raw) : path = before ++ raw :=
  Text.stripPrefix_eq_some.1 (Option.filter_eq_some_iff.1 h).1

/-- The path that a route matches. -/
def Route.path : Route → Text
  | .home => "/".toList
  | .login => "/login".toList
  | .logout => "/logout".toList
  | .wiki raw => wikiRoute ++ raw
  | .wikiHistory raw => wikiHistoryRoute ++ raw
  | .search => "/search".toList
  | .me => "/me".toList
  | .actors => "/actors".toList
  | .apiPages raw => apiPagesRoute ++ raw
  | .apiSearch => "/api/search".toList

theorem routeOf_eq_some {path : Text} {route : Route} (h : routeOf path = some route) : path = route.path := by
  unfold routeOf at h
  repeat' split at h
  all_goals cases h
  all_goals first
    | assumption
    | exact wildcard_eq_some (by assumption)

/-- Only these requests come to a handler that writes. -/
theorem Request.isWrite_of_endpoint {req : Request} {e : Endpoint} (h : req.endpoint = some e) (hw : e.Writes) :
    req.IsWrite := by
  obtain ⟨route, hroute, hend⟩ := Option.bind_eq_some_iff.1 h
  have hpath := routeOf_eq_some hroute
  cases hw with
  | save raw =>
    cases hm : req.method <;> cases route <;> simp [Route.endpoint, hm] at hend
    exact .inr ⟨hm, hpath ▸ List.prefix_append _ _⟩
  | put raw =>
    cases hm : req.method <;> cases route <;> simp [Route.endpoint, hm] at hend
    exact .inl ⟨hm, hpath ▸ List.prefix_append _ _⟩

end Wikikiki
