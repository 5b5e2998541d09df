/-
Credentials over time: any sequence of tokens issued, verified and revoked,
of logins and logouts, of actors activated and deactivated, on any clock.

A verification is not one step: the row that it accepted may be revoked or
rewritten before its two updates arrive. `tokens` and `logins` are what the
service does not keep itself, the history of what was granted and revoked;
`step_tokens` and `step_logins` say that the tables keep it.
-/
import Wikikiki.Lib.Grants
import Wikikiki.Lib.Run
import Wikikiki.Resolve

namespace Wikikiki

open Grants (History)

/-! ## What is granted -/

/-- A token that was minted. -/
structure Minted where
  lookup : Text
  secret : Text
  actorId : Int
  expiresAt : Option Int
  lookup_len : Text.byteLen lookup = 16
  lookup_plain : '_' ∉ lookup
  secret_len : Text.byteLen secret = 48

/-- A login: for whom, when, and for how long. -/
structure Login where
  actorId : Int
  time : Int
  lifetime : Nat

theorem ascii_hexEncode (b : Bytes) : Text.Ascii (hexEncode b) := by
  intro c hc
  obtain ⟨n, rfl⟩ := mem_hexEncode hc
  exact (by decide : ∀ n : Fin 16, (Nat.digitChar n).utf8Size = 1) n

theorem notMem_hexEncode {c : Char} (h : ∀ n : Fin 16, c ≠ Nat.digitChar n) (b : Bytes) : c ∉ hexEncode b := by
  intro hc
  obtain ⟨n, hn⟩ := mem_hexEncode hc
  exact h n hn

/-- What `issue` mints. -/
def TokenBytes.minted (bytes : TokenBytes) (actorId : Int) (expiresAt : Option Int) : Minted where
  lookup := hexEncode bytes.lookup
  secret := hexEncode bytes.secret
  actorId
  expiresAt
  lookup_len := by rw [(ascii_hexEncode _).byteLen, length_hexEncode, bytes.lookup_length]
  lookup_plain := notMem_hexEncode (by decide) _
  secret_len := by rw [(ascii_hexEncode _).byteLen, length_hexEncode, bytes.secret_length]

/-- The token as its holder has it. -/
def Minted.plaintext (m : Minted) : Text := tokenPrefix ++ m.lookup ++ '_' :: m.secret

/-! ## The system -/

/-- What the service runs with. -/
structure Gate where
  ext : Externals
  argon2 : Argon2
  sessionLifetime : Nat

namespace Gate

/-- A call of `verify`: accepted, with its updates still to come, or at its
end. -/
inductive Call where
  | idle
  | upgrading (actor : Actor) (id : Int) (digest : Option Text)
  | touching (actor : Actor) (id : Int)
  | done (result : Except AppError (Option Actor))

structure State where
  actors : Table ActorRow
  access : Access
  used : Throttle
  now : Int
  call : Nat → Call
  tokens : History Int Minted
  logins : History Text Login

inductive Action where
  | issue (bytes : TokenBytes) (actorId : Int) (label : Option Text) (expiresAt : Option Int) (said : Text)
  | verify (k : Nat) (token : Text)
  | upgrade (k : Nat) (ok : Bool)
  | touch (k : Nat) (ok : Bool)
  | revoke (id : Int)
  | login (handle password sid : Text) (said : Text)
  | logout (cookie : Option Text)
  | administer (actors : Table ActorRow)
  | clock (now : Int)

def State.setCall (s : State) (k : Nat) (c : Call) : State := { s with call := Function.update s.call k c }

/-- Where a verdict leaves its call. -/
def afterVerdict : TokenVerdict → Call
  | .accepted actor id digest => .upgrading actor id digest
  | verdict => .done verdict.result

/-- `login_submit`, the session part: a session for the actor, when the
password is right. -/
def login (g : Gate) (s : State) (handle password sid said : Text) : Except AppError (Actor × Access) :=
  match s.access.verifyPasswordLogin g.argon2 s.actors handle password with
  | .error e => .error e
  | .ok actor =>
    match s.access.createSession s.actors sid actor.id s.now (asSecs g.sessionLifetime) said with
    | .error e => .error e
    | .ok access => .ok (actor, access)

/-- One step; an operation that is refused changes nothing. -/
def step (g : Gate) (s : State) : Action → Option State
  | .issue bytes actorId label expiresAt said =>
    match s.access.issue g.ext s.actors bytes actorId label expiresAt s.now said with
    | .error _ => some s
    | .ok (issued, access) =>
      some { s with
        access
        tokens := s.tokens ++ [.granted issued.credentialId (bytes.minted actorId expiresAt)] }
  | .verify k token =>
    match s.call k with
    | .idle => some (s.setCall k (afterVerdict (s.access.judge g.ext g.argon2 s.actors s.now token)))
    | _ => none
  | .upgrade k ok =>
    match s.call k with
    | .upgrading actor id digest =>
      some { s.setCall k (.touching actor id) with access := s.access.upgrade id digest ok }
    | _ => none
  | .touch k ok =>
    match s.call k with
    | .touching actor id =>
      let (claimed, used) := s.used.claim id s.now
      some { s.setCall k (.done (.ok (some actor))) with
        used
        access := if claimed && ok then s.access.touch id s.now else s.access }
    | _ => none
  | .revoke id =>
    match s.access.revoke id s.now with
    | .error _ => some s
    | .ok access => some { s with access, tokens := s.tokens ++ [.revoked id] }
  | .login handle password sid said =>
    match g.login s handle password sid said with
    | .error _ => some s
    | .ok (actor, access) =>
      some { s with
        access
        logins := s.logins ++
          [.granted sid { actorId := actor.id, time := s.now, lifetime := g.sessionLifetime }] }
  | .logout cookie =>
    match cookie.bind fun c => parseCookie c sessionCookie with
    | none => some s
    | some sid =>
      some { s with access := s.access.revokeSession sid s.now, logins := s.logins ++ [.revoked sid] }
  | .administer actors => some { s with actors }
  | .clock now => some { s with now }

/-- A login leaves the credentials alone. -/
theorem login_credentials {g : Gate} {s : State} {handle password sid said : Text} {actor : Actor} {access : Access}
    (h : g.login s handle password sid said = .ok (actor, access)) :
    access.credentials = s.access.credentials := by
  unfold login at h
  split at h
  · cases h
  split at h
  · cases h
  next hc =>
    cases h
    unfold Access.createSession at hc
    split at hc
    · split at hc <;> cases hc
      rfl
    · cases hc

abbrev run (g : Gate) : State → List Action → Option State := Run.run g.step

end Gate

/-! ## A small gate -/

/-- A hash that shows its secret. -/
def Argon2.small : Argon2 where
  hash _ secret := '$' :: secret
  verify x stored :=
    match stored with
    | '$' :: secret => some (decide (x = secret))
    | _ => none
  verify_hash _ _ _ := rfl
  hash_dollar _ _ := rfl

namespace Gate

def small (sessionLifetime : Nat) : Gate where
  ext := .small
  argon2 := .small
  sessionLifetime

/-- A token from before the digests, and the password of the one actor. -/
def legacy : Minted where
  lookup := List.replicate 16 'a'
  secret := List.replicate 48 'b'
  actorId := 1
  expiresAt := some 100
  lookup_len := by decide
  lookup_plain := by decide
  secret_len := by decide

def legacyRow : CredentialRow where
  actorId := 1
  kind := "token".toList
  lookupKey := some legacy.lookup
  secretHash := '$' :: legacy.secret
  label := none
  lastUsedAt := none
  expiresAt := some 100
  revokedAt := none
  createdAt := 0

def passwordRow : CredentialRow where
  actorId := 1
  kind := "password".toList
  lookupKey := none
  secretHash := "$hunter2".toList
  label := some "primary password".toList
  lastUsedAt := none
  expiresAt := none
  revokedAt := none
  createdAt := 0

def smallAccess : Access where
  credentials := (Table.empty.insert legacyRow).insert passwordRow
  sessions := []
  uniqueLookup := by decide
  uniqueId := by decide

def smallState : State where
  actors := (Db.small none).actors
  access := smallAccess
  used := { interval := 60, last := fun _ => none }
  now := 0
  call _ := .idle
  tokens := [.granted 1 legacy]
  logins := []

end Gate

end Wikikiki
