/-
Credentials and sessions (auth/token.rs, auth/session.rs, auth/hash.rs,
throttle.rs): the two tables, and what issues, checks and revokes their rows.

`credentials.lookup_key` is UNIQUE and `sessions.id` is the PRIMARY KEY, so
both are fields of `Access`. Argon2 stays a parameter: what it accepts for a
hash is the secret that the hash was made from.
-/
import Mathlib.Algebra.Group.Int.Defs
import Mathlib.Algebra.Group.Nat.Defs
import Wikikiki.Repo

namespace Wikikiki

/-! ## Tables -/

structure CredentialRow where
  actorId : Int
  kind : Text
  lookupKey : Option Text
  secretHash : Text
  label : Option Text
  lastUsedAt : Option Int
  expiresAt : Option Int
  revokedAt : Option Int
  createdAt : Int

structure SessionRow where
  id : Text
  actorId : Int
  createdAt : Int
  expiresAt : Int
  revokedAt : Option Int

structure Access where
  credentials : Table CredentialRow
  sessions : List SessionRow
  uniqueLookup : (credentials.rows.filterMap fun p => p.2.lookupKey).Nodup
  uniqueId : (sessions.map SessionRow.id).Nodup

/-- A row of `actors` as the queries return it. -/
def ActorRow.actor (r : ActorRow) (id : Int) : Actor where
  id
  actorType := r.actorType
  name := r.name
  handle := r.handle
  isAdmin := r.isAdmin != 0
  isActive := r.isActive != 0

/-- `actor_by_id`, on the table alone. -/
def actorById (actors : Table ActorRow) (id : Int) : Option Actor := (actors.get id).map fun r => r.actor id

theorem Db.actorById_eq (db : Db) (id : Int) : db.actorById id = Wikikiki.actorById db.actors id := rfl

/-! ## Secrets -/

/-- Argon2, as the service uses it. `verify` is `none` where the stored text
is no hash. -/
structure Argon2 where
  hash : Bytes → Text → Text
  verify : Text → Text → Option Bool
  verify_hash : ∀ salt secret x, verify x (hash salt secret) = some (decide (x = secret))
  /-- A hash is a PHC string. -/
  hash_dollar : ∀ salt secret, (hash salt secret).head? = some '$'

/-- `hash::verify`. -/
def Argon2.check (argon2 : Argon2) (secret stored : Text) : Except AppError Bool :=
  match argon2.verify secret stored with
  | none => .error (.badRequest "invalid stored hash".toList)
  | some b => .ok b

/-- `secret_digest`. -/
def secretDigest (ext : Externals) (secret : Text) : Text := hexEncode (ext.sha256 (Text.utf8 secret))

/-- `is_legacy_argon2`. -/
def isLegacyArgon2 (stored : Text) : Bool := ['$'].isPrefixOf stored

/-- `digest_matches`. -/
def digestMatches (ext : Externals) (secret stored : Text) : Bool := decide (secretDigest ext secret = stored)

/-! ## Throttling -/

/-- `Throttle`: when each key was last claimed. -/
structure Throttle where
  interval : Int
  last : Int → Option Int

/-- `Throttle::claim`. -/
def Throttle.claim (th : Throttle) (key now : Int) : Bool × Throttle :=
  match th.last key with
  | some prev =>
    if prev ≤ now ∧ now - prev < th.interval then (false, th)
    else (true, { th with last := Function.update th.last key (some now) })
  | none => (true, { th with last := Function.update th.last key (some now) })

/-! ## Tokens -/

def tokenPrefix : Text := "wk_".toList

/-- What `issue` draws. -/
structure TokenBytes where
  lookup : Bytes
  secret : Bytes
  lookup_length : lookup.length = 8
  secret_length : secret.length = 24

/-- `IssuedToken`. -/
structure IssuedToken where
  plaintext : Text
  credentialId : Int

/-- `UPDATE credentials SET ... WHERE id = ?`, of columns other than the lookup
key. -/
def Access.update (acc : Access) (id : Int) (f : CredentialRow → CredentialRow)
    (hf : ∀ r, (f r).lookupKey = r.lookupKey) : Access where
  credentials := acc.credentials.modify id f
  sessions := acc.sessions
  uniqueLookup := by
    have heq : ((acc.credentials.modify id f).rows.filterMap fun p => p.2.lookupKey) =
        acc.credentials.rows.filterMap fun p => p.2.lookupKey := by
      rw [Table.modify, List.filterMap_map]
      refine List.filterMap_congr fun p _ => ?_
      simp only [Function.comp_apply]
      split <;> simp [hf]
    rw [heq]
    exact acc.uniqueLookup
  uniqueId := acc.uniqueId

/-- The row that `issue` inserts. -/
def TokenBytes.row (bytes : TokenBytes) (ext : Externals) (actorId : Int) (label : Option Text)
    (expiresAt : Option Int) (now : Int) : CredentialRow where
  actorId
  kind := "token".toList
  lookupKey := some (hexEncode bytes.lookup)
  secretHash := secretDigest ext (hexEncode bytes.secret)
  label
  lastUsedAt := none
  expiresAt
  revokedAt := none
  createdAt := now

/-- `issue`. The insert is refused when the actor is not there, or the lookup
key is taken. -/
def Access.issue (acc : Access) (ext : Externals) (actors : Table ActorRow) (bytes : TokenBytes) (actorId : Int)
    (label : Option Text) (expiresAt : Option Int) (now : Int) (said : Text) :
    Except AppError (IssuedToken × Access) :=
  if h : ∀ p ∈ acc.credentials.rows, p.2.lookupKey ≠ some (hexEncode bytes.lookup) then
    if actors.get actorId = none then .error (.database said)
    else
      .ok ({ plaintext := tokenPrefix ++ hexEncode bytes.lookup ++ '_' :: hexEncode bytes.secret
             credentialId := acc.credentials.nextId },
        { acc with
          credentials := acc.credentials.insert (bytes.row ext actorId label expiresAt now)
          uniqueLookup := by
            have hnew : hexEncode bytes.lookup ∉ acc.credentials.rows.filterMap fun p => p.2.lookupKey := fun hm => by
              obtain ⟨p, hp, hk⟩ := List.mem_filterMap.1 hm
              exact h p hp hk
            rw [Table.rows_insert, List.filterMap_append]
            simpa [TokenBytes.row] using List.Nodup.concat hnew acc.uniqueLookup })
  else .error (.database said)

/-- `parse_token`. -/
def parseToken (t : Text) : Option (Text × Text) :=
  (Text.stripPrefix tokenPrefix t).bind fun rest =>
    (Text.splitOnce '_' rest).bind fun (lookup, secret) =>
      if Text.byteLen lookup = 16 ∧ Text.byteLen secret = 48 then some (lookup, secret) else none

/-- A live token of the lookup key, joined with its actor. -/
def joinToken (actors : Table ActorRow) (lookup : Text) (p : Int × CredentialRow) :
    Option (Int × CredentialRow × ActorRow) :=
  if p.2.lookupKey = some lookup ∧ p.2.kind = "token".toList ∧ p.2.revokedAt = none then
    (actors.get p.2.actorId).map fun a => (p.1, p.2, a)
  else none

/-- The query of `verify`. -/
def Access.findToken (acc : Access) (actors : Table ActorRow) (lookup : Text) :
    Option (Int × CredentialRow × ActorRow) :=
  (acc.credentials.rows.filterMap (joinToken actors lookup)).head?

/-- What `verify` finds about the row: refused, in error, or accepted, with
the digest that takes the place of an Argon2 hash. -/
inductive TokenCheck where
  | rejected
  | failed (e : AppError)
  | accepted (upgrade : Option Text)

/-- The checks of `verify`. -/
def checkToken (ext : Externals) (argon2 : Argon2) (now : Int) (secret : Text) (c : CredentialRow)
    (a : ActorRow) : TokenCheck :=
  if ∃ e ∈ c.expiresAt, e ≤ now then .rejected
  else if a.isActive = 0 then .rejected
  else if isLegacyArgon2 c.secretHash then
    match argon2.check secret c.secretHash with
    | .error e => .failed e
    | .ok false => .rejected
    | .ok true => .accepted (some (secretDigest ext secret))
  else if digestMatches ext secret c.secretHash then .accepted none
  else .rejected

/-- `UPDATE credentials SET secret_hash = ? WHERE id = ?`. -/
def Access.setSecretHash (acc : Access) (id : Int) (digest : Text) : Access :=
  acc.update id (fun r => { r with secretHash := digest }) fun _ => rfl

/-- `UPDATE credentials SET last_used_at = ? WHERE id = ?`. -/
def Access.touch (acc : Access) (id now : Int) : Access :=
  acc.update id (fun r => { r with lastUsedAt := some now }) fun _ => rfl

/-- `revoke`. -/
def Access.revoke (acc : Access) (id now : Int) : Except AppError Access :=
  match acc.credentials.get id with
  | some { revokedAt := none, .. } =>
    .ok (acc.update id (fun r => { r with revokedAt := some now }) fun _ => rfl)
  | _ => .error (.notFound ("credential ".toList ++ (toString id).toList))

/-! ### The sessions are not touched -/

theorem Access.issue_sessions {acc acc' : Access} {ext : Externals} {actors : Table ActorRow} {bytes : TokenBytes}
    {actorId : Int} {label : Option Text} {expiresAt : Option Int} {now : Int} {said : Text} {issued : IssuedToken}
    (h : acc.issue ext actors bytes actorId label expiresAt now said = .ok (issued, acc')) :
    acc'.sessions = acc.sessions := by
  unfold issue at h
  split at h
  · split at h <;> cases h
    rfl
  · cases h

theorem Access.revoke_sessions {acc acc' : Access} {id now : Int} (h : acc.revoke id now = .ok acc') :
    acc'.sessions = acc.sessions := by
  unfold revoke at h
  split at h <;> cases h
  rfl

/-! ## Sessions -/

/-- A sum of two `i64` in a release build. -/
def wrapI64 (x : Int) : Int := x.bmod (2 ^ 64)

/-- `HumanDuration::as_secs`: the seconds of a duration, cast to `i64`. -/
def asSecs (duration : Nat) : Int := wrapI64 duration

/-- `session::create`, with the id that was drawn. -/
def Access.createSession (acc : Access) (actors : Table ActorRow) (sid : Text) (actorId now lifetime : Int)
    (said : Text) : Except AppError Access :=
  if h : ∀ r ∈ acc.sessions, r.id ≠ sid then
    if actors.get actorId = none then .error (.database said)
    else
      .ok { acc with
        sessions := acc.sessions ++
          [{ id := sid, actorId, createdAt := now, expiresAt := wrapI64 (now + lifetime), revokedAt := none }]
        uniqueId := by
          have hnew : sid ∉ acc.sessions.map SessionRow.id := fun hm => by
            obtain ⟨r, hr, hid⟩ := List.mem_map.1 hm
            exact h r hr hid
          rw [List.map_append]
          simpa using List.Nodup.concat hnew acc.uniqueId }
  else .error (.database said)

def Access.findSession (acc : Access) (sid : Text) : Option SessionRow := acc.sessions.find? fun r => r.id = sid

/-- `session::lookup`. -/
def Access.lookupSession (acc : Access) (actors : Table ActorRow) (sid : Text) (now : Int) : Option Actor :=
  ((acc.sessions.find? fun r => r.id = sid ∧ r.revokedAt = none ∧ now < r.expiresAt).bind fun r =>
    actorById actors r.actorId).filter fun a => a.isActive

/-- `session::revoke`. -/
def Access.revokeSession (acc : Access) (sid : Text) (now : Int) : Access where
  credentials := acc.credentials
  sessions := acc.sessions.map fun r => if r.id = sid then { r with revokedAt := some now } else r
  uniqueLookup := acc.uniqueLookup
  uniqueId := by
    have heq : ((acc.sessions.map fun r => if r.id = sid then { r with revokedAt := some now } else r).map
        SessionRow.id) = acc.sessions.map SessionRow.id := by
      rw [List.map_map]
      exact List.map_congr_left fun r _ => by simp only [Function.comp_apply]; split <;> rfl
    rw [heq]
    exact acc.uniqueId

/-- `verify_password_login`: the newest password of the active actor with the
handle. -/
def Access.verifyPasswordLogin (acc : Access) (argon2 : Argon2) (actors : Table ActorRow)
    (handle password : Text) : Except AppError Actor :=
  let rows := acc.credentials.rows.filterMap fun (_, c) =>
    if c.kind = "password".toList ∧ c.revokedAt = none then
      (actors.get c.actorId).bind fun a =>
        if a.handle = handle ∧ a.isActive = 1 then some (c, a.actor c.actorId) else none
    else none
  match rows.maxOn? fun p => p.1.createdAt with
  | none => .error .unauthorized
  | some (c, actor) =>
    match argon2.check password c.secretHash with
    | .error e => .error e
    | .ok false => .error .unauthorized
    | .ok true => .ok actor

end Wikikiki
