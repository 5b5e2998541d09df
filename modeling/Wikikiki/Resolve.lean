/-
Who makes a request (auth/token.rs, auth/session.rs, web/mod.rs): the bearer
token first, the session cookie after it, and nobody when neither is good.

Login, logout and `resolve_actor` read the cookie by one function;
`parseCookie_eq_some` says which of several pairs it is.
-/
import Wikikiki.Auth
import Wikikiki.Headers

namespace Wikikiki

/-! ## Tokens -/

/-- Where the checks of `verify` end, before anything is written. -/
inductive TokenVerdict where
  | rejected
  | failed (e : AppError)
  | accepted (actor : Actor) (id : Int) (upgrade : Option Text)

/-- `verify` up to its first write. -/
def Access.judge (acc : Access) (ext : Externals) (argon2 : Argon2) (actors : Table ActorRow) (now : Int)
    (token : Text) : TokenVerdict :=
  match parseToken token with
  | none => .rejected
  | some (lookup, secret) =>
    match acc.findToken actors lookup with
    | none => .rejected
    | some (id, c, a) =>
      match checkToken ext argon2 now secret c a with
      | .rejected => .rejected
      | .failed e => .failed e
      | .accepted upgrade => .accepted (a.actor c.actorId) id upgrade

/-- What `verify` answers. -/
def TokenVerdict.result : TokenVerdict → Except AppError (Option Actor)
  | .rejected => .ok none
  | .failed e => .error e
  | .accepted actor _ _ => .ok (some actor)

/-- Which of the two updates of `verify` go through; `verify` does not care. -/
structure Updates where
  upgrade : Bool
  touch : Bool

/-- The digest takes the place of the hash. -/
def Access.upgrade (acc : Access) (id : Int) (digest : Option Text) (ok : Bool) : Access :=
  match digest with
  | some digest => if ok then acc.setSecretHash id digest else acc
  | none => acc

theorem Access.upgrade_sessions (acc : Access) (id : Int) (digest : Option Text) (ok : Bool) :
    (acc.upgrade id digest ok).sessions = acc.sessions := by
  unfold upgrade
  split
  · split <;> rfl
  · rfl

/-- `verify`, with nobody else at the table. -/
def Access.verify (acc : Access) (ext : Externals) (argon2 : Argon2) (actors : Table ActorRow) (used : Throttle)
    (now : Int) (token : Text) (oks : Updates) : Except AppError (Option Actor) × Access × Throttle :=
  match acc.judge ext argon2 actors now token with
  | .accepted actor id digest =>
    let acc := acc.upgrade id digest oks.upgrade
    let (claimed, used) := used.claim id now
    (.ok (some actor), if claimed && oks.touch then acc.touch id now else acc, used)
  | verdict => (verdict.result, acc, used)

theorem Access.verify_result (acc : Access) (ext : Externals) (argon2 : Argon2) (actors : Table ActorRow)
    (used : Throttle) (now : Int) (token : Text) (oks : Updates) :
    (acc.verify ext argon2 actors used now token oks).1 = (acc.judge ext argon2 actors now token).result := by
  unfold verify
  cases acc.judge ext argon2 actors now token <;> rfl

/-! ## Cookies -/

def sessionCookie : Text := "wk_session".toList

/-- `parse_cookie`. -/
def parseCookie (header name : Text) : Option Text :=
  (header.splitOn ';').findSome? fun piece =>
    match Text.splitOnce '=' (Text.trim piece) with
    | some (k, v) => if k = name then some v else none
    | none => none

/-- A piece between semicolons is the pair of `name` and `value`. -/
def IsPair (piece name value : Text) : Prop := Text.trim piece = name ++ '=' :: value

/-- The first pair of `name` in a header. -/
def FirstPair (header name value : Text) : Prop :=
  ∃ pre piece post, header.splitOn ';' = pre ++ piece :: post ∧ IsPair piece name value ∧
    ∀ p ∈ pre, ∀ v, ¬ IsPair p name v

/-- Whatever else the header holds, the first pair counts. -/
theorem parseCookie_eq_some {header name value : Text} (hname : '=' ∉ name) :
    parseCookie header name = some value ↔ FirstPair header name value := by
  have hpair : ∀ piece v, (match Text.splitOnce '=' (Text.trim piece) with
      | some (k, v) => if k = name then some v else none
      | none => none) = some v ↔ IsPair piece name v := by
    intro piece v
    constructor
    · intro h
      split at h
      next k v' hs =>
        split at h
        next hk =>
          cases h
          rw [IsPair, (Text.splitOnce_some hs).1, hk]
        · cases h
      · cases h
    · intro h
      rw [IsPair] at h
      rw [h, Text.splitOnce_append hname]
      exact if_pos rfl
  have hnone : ∀ piece, (match Text.splitOnce '=' (Text.trim piece) with
      | some (k, v) => if k = name then some v else none
      | none => none) = none ↔ ∀ v, ¬ IsPair piece name v := by
    intro piece
    rw [Option.eq_none_iff_forall_ne_some]
    exact forall_congr' fun v => not_congr (hpair piece v)
  unfold parseCookie
  rw [List.findSome?_eq_some_iff]
  constructor
  · intro h
    obtain ⟨pre, piece, post, hs, hp, hpre⟩ := h
    exact ⟨pre, piece, post, hs, (hpair _ _).1 hp, fun p hm => (hnone p).1 (hpre p hm)⟩
  · intro h
    obtain ⟨pre, piece, post, hs, hp, hpre⟩ := h
    exact ⟨pre, piece, post, hs, (hpair _ _).2 hp, fun p hm => (hnone p).2 (hpre p hm)⟩

/-! ## Requests -/

inductive Surface where
  | ui
  | api
  | mcp
  deriving DecidableEq

/-- `Auth`. -/
structure Auth where
  actor : Actor
  surface : Surface

/-- The session half of `resolve_actor`. -/
def Access.resolveSession (acc : Access) (actors : Table ActorRow) (now : Int) (cookie : Option Text) :
    Option Auth :=
  (cookie.bind fun s => parseCookie s sessionCookie).bind fun sid =>
    (acc.lookupSession actors sid now).map fun actor => { actor, surface := .ui }

/-- `resolve_actor`, with the texts of the two headers. -/
def Access.resolveActor (acc : Access) (ext : Externals) (argon2 : Argon2) (actors : Table ActorRow)
    (used : Throttle) (now : Int) (surface : Surface) (authHeader cookie : Option Text) (oks : Updates) :
    Option Auth × Access × Throttle :=
  match authHeader.bind (Text.stripPrefix "Bearer ".toList) with
  | some token =>
    match acc.verify ext argon2 actors used now token oks with
    | (.ok (some actor), acc, used) => (some { actor, surface }, acc, used)
    | (_, acc, used) => (acc.resolveSession actors now cookie, acc, used)
  | none => (acc.resolveSession actors now cookie, acc, used)

/-- The token half: what a valid token makes of the request. -/
def Access.resolveToken (acc : Access) (ext : Externals) (argon2 : Argon2) (actors : Table ActorRow) (now : Int)
    (authHeader : Option Text) : Option Actor :=
  (authHeader.bind (Text.stripPrefix "Bearer ".toList)).bind fun token =>
    match acc.judge ext argon2 actors now token with
    | .accepted actor _ _ => some actor
    | _ => none

section

variable {acc : Access} {ext : Externals} {argon2 : Argon2} {actors : Table ActorRow} {used : Throttle}
  {now : Int} {surface : Surface} {authHeader cookie : Option Text} {oks : Updates}

/-- A token that is not accepted leaves everything as it is. -/
theorem Access.verify_of_not_accepted {token : Text}
    (h : ∀ actor id digest, acc.judge ext argon2 actors now token ≠ .accepted actor id digest) :
    (acc.verify ext argon2 actors used now token oks).2 = (acc, used) := by
  unfold verify
  cases hj : acc.judge ext argon2 actors now token with
  | accepted actor id digest => exact absurd hj (h actor id digest)
  | _ => rfl

/-- **Who a request is.** The holder of a valid token, or else the holder of
the session in the cookie. -/
theorem Access.resolveActor_eq :
    (acc.resolveActor ext argon2 actors used now surface authHeader cookie oks).1 =
      match acc.resolveToken ext argon2 actors now authHeader with
      | some actor => some { actor, surface }
      | none => acc.resolveSession actors now cookie := by
  unfold resolveActor resolveToken
  cases authHeader.bind (Text.stripPrefix "Bearer ".toList) with
  | none => rfl
  | some token =>
    simp only [Option.bind_some, verify]
    cases acc.judge ext argon2 actors now token <;> rfl

end

end Wikikiki
