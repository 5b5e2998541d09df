/-
The two commands that write to the database without the server (actor/mod.rs,
auth/mod.rs): `bootstrap_admin` and `issue_actor_token`, statement by
statement.

Neither opens a transaction. `actors.handle` is UNIQUE and
`credentials.actor_id` refers to an actor, with foreign keys enforced, so both
are fields of `AdminDb`; what a constraint refuses is an error of the
statement. Any other statement may fail, too, and so may the hashing
(`AdminEnv`).
-/
import Wikikiki.Lib.Json
import Wikikiki.Lib.Script
import Wikikiki.Auth

namespace Wikikiki

/-! ## Tables -/

structure ActorTypeRow where
  code : Text
  isActive : Int

/-- A row of `admin_audit`. -/
structure AuditRow where
  actorId : Int
  target : Text
  operation : Text
  beforeValue : Option Text
  afterValue : Option Text
  note : Option Text
  createdAt : Int

structure AdminDb where
  actorTypes : List ActorTypeRow
  actors : Table ActorRow
  access : Access
  adminAudit : List AuditRow
  uniqueHandle : (actors.rows.map fun p => p.2.handle).Nodup
  ownedCredential : ∀ p ∈ access.credentials.rows, actors.get p.2.actorId ≠ none

/-! ## Statements -/

/-- The row of a handle. -/
def AdminDb.findActor (db : AdminDb) (handle : Text) : Option (Int × ActorRow) :=
  db.actors.find fun r => r.handle = handle

/-- `actor_by_handle`. -/
def AdminDb.actorByHandle (db : AdminDb) (handle : Text) : Option Actor :=
  (db.findActor handle).map fun (id, row) => row.actor id

/-- `insert_actor`. -/
def AdminDb.insertActor (db : AdminDb) (actorType name handle : Text) (isAdmin : Bool) (said : Text) :
    Except AppError (Int × AdminDb) :=
  if h : ∀ p ∈ db.actors.rows, p.2.handle ≠ handle then
    if ∀ t ∈ db.actorTypes, t.code ≠ actorType then .error (.database said)
    else
      .ok (db.actors.nextId, { db with
        actors := db.actors.insert { actorType, name, handle, isAdmin := if isAdmin then 1 else 0, isActive := 1 }
        uniqueHandle := by
          have hnew : handle ∉ db.actors.rows.map fun p => p.2.handle := fun hm => by
            obtain ⟨p, hp, hh⟩ := List.mem_map.1 hm
            exact h p hp hh
          rw [Table.rows_insert, List.map_append]
          simpa using List.Nodup.concat hnew db.uniqueHandle
        ownedCredential := by
          intro p hp
          have hold := db.ownedCredential p hp
          have hne : p.2.actorId ≠ db.actors.nextId := by
            intro he
            rw [he, Table.get_nextId] at hold
            exact hold rfl
          rwa [Table.get_insert, Function.update_of_ne hne] })
  else .error (.database said)

/-- `UPDATE actors SET is_admin = 1, is_active = 1 WHERE id = ?`. -/
def AdminDb.promote (db : AdminDb) (id : Int) : AdminDb :=
  { db with
    actors := db.actors.modify id fun r => { r with isAdmin := 1, isActive := 1 }
    uniqueHandle := by
      have hp : ∀ p : Int × ActorRow, (if p.1 = id then { p.2 with isAdmin := 1, isActive := 1 } else p.2).handle =
          p.2.handle := fun p => by split <;> rfl
      simpa [Table.modify, List.map_map, Function.comp_def, hp] using db.uniqueHandle
    ownedCredential := by
      intro p hp
      rw [Table.get_modify, ne_eq, Option.map_eq_none_iff]
      exact db.ownedCredential p hp }

/-- A password of the actor that is not revoked. -/
def CredentialRow.isLivePassword (actorId : Int) (r : CredentialRow) : Bool :=
  r.actorId = actorId && r.kind = "password".toList && r.revokedAt = none

/-- `UPDATE credentials SET revoked_at = ? WHERE actor_id = ? AND kind =
'password' AND revoked_at IS NULL`. -/
def Access.revokePasswords (acc : Access) (actorId now : Int) : Access where
  credentials := acc.credentials.mapRows fun r =>
    if r.isLivePassword actorId then { r with revokedAt := some now } else r
  sessions := acc.sessions
  uniqueLookup := by
    have heq : ((acc.credentials.mapRows fun r =>
        if r.isLivePassword actorId then { r with revokedAt := some now } else r).rows.filterMap
          fun p => p.2.lookupKey) = acc.credentials.rows.filterMap fun p => p.2.lookupKey := by
      rw [Table.mapRows, List.filterMap_map]
      refine List.filterMap_congr fun p _ => ?_
      simp only [Function.comp_apply]
      split <;> rfl
    rw [heq]
    exact acc.uniqueLookup
  uniqueId := acc.uniqueId

def AdminDb.revokePasswords (db : AdminDb) (actorId now : Int) : AdminDb :=
  { db with
    access := db.access.revokePasswords actorId now
    ownedCredential := by
      intro p hp
      obtain ⟨q, hq, rfl⟩ := List.mem_map.1 hp
      have hold := db.ownedCredential q hq
      simp only
      split <;> exact hold }

/-- The row of a new password. -/
def passwordRow (actorId : Int) (pwHash : Text) (now : Int) : CredentialRow where
  actorId
  kind := "password".toList
  lookupKey := none
  secretHash := pwHash
  label := some "primary password".toList
  lastUsedAt := none
  expiresAt := none
  revokedAt := none
  createdAt := now

/-- `INSERT INTO credentials(...) VALUES (?, 'password', ...)`. -/
def AdminDb.insertPassword (db : AdminDb) (actorId : Int) (pwHash : Text) (now : Int) (said : Text) :
    Except AppError AdminDb :=
  if h : db.actors.get actorId = none then .error (.database said)
  else
    .ok { db with
      access := { db.access with
        credentials := db.access.credentials.insert (passwordRow actorId pwHash now)
        uniqueLookup := by
          rw [Table.rows_insert, List.filterMap_append]
          simpa [passwordRow] using db.access.uniqueLookup }
      ownedCredential := by
        intro p hp
        rw [Table.rows_insert, List.mem_append, List.mem_singleton] at hp
        rcases hp with hp | rfl
        · exact db.ownedCredential p hp
        · exact h }

/-- `token::issue`. -/
def AdminDb.issue (db : AdminDb) (ext : Externals) (bytes : TokenBytes) (actorId : Int) (label : Option Text)
    (expiresAt : Option Int) (now : Int) (said : Text) : Except AppError (IssuedToken × AdminDb) :=
  match h : db.access.issue ext db.actors bytes actorId label expiresAt now said with
  | .error e => .error e
  | .ok (issued, access) =>
    .ok (issued, { db with
      access
      ownedCredential := by
        intro p hp
        unfold Access.issue at h
        split at h
        · split at h
          · cases h
          · next hactor =>
            cases h
            rw [Table.rows_insert, List.mem_append, List.mem_singleton] at hp
            rcases hp with hp | rfl
            · exact db.ownedCredential p hp
            · exact hactor
        · cases h })

/-- `log_admin`. -/
def AdminDb.logAdmin (db : AdminDb) (row : AuditRow) (said : Text) : Except AppError AdminDb :=
  if db.actors.get row.actorId = none then .error (.database said)
  else .ok { db with adminAudit := db.adminAudit ++ [row] }

/-! ## Commands -/

/-- What the commands run, in the order of the source. -/
inductive AdminStatement where
  | actorType
  | actorByHandle
  | saveActor
  | revokePasswords
  | hash
  | insertPassword
  | issue
  | logAdmin
  deriving DecidableEq

/-- What a command meets by chance: the clock, the bytes that it draws, and
what fails. `said` is what SQLite says of a constraint. -/
structure AdminEnv where
  now : AdminStatement → Int
  salt : Bytes
  bytes : TokenBytes
  fault : AdminStatement → Option AppError
  said : Text

def AdminEnv.run {α : Type} (env : AdminEnv) (q : AdminStatement)
    (f : AdminDb → Except AppError (α × AdminDb)) : Script AdminDb AppError α :=
  Script.stmt fun db =>
    match env.fault q with
    | some e => .error e
    | none => f db

/-- A statement with nothing to return. -/
def AdminEnv.execute (env : AdminEnv) (q : AdminStatement) (f : AdminDb → Except AppError AdminDb) :
    Script AdminDb AppError Unit :=
  env.run q fun db => (f db).map fun db' => ((), db')

/-- The first half of `bootstrap_admin`: the actor, an admin from then on. -/
def AdminEnv.saveAdmin (env : AdminEnv) (handle : Text) (name : Option Text) :
    Option Actor → Script AdminDb AppError Int
  | some a =>
    if a.actorType ≠ "human".toList then
      .fail (.conflict ("actor ".toList ++ handle ++ " exists with type ".toList ++ a.actorType ++
        " (not 'human')".toList))
    else do
      env.execute .saveActor fun db => .ok (db.promote a.id)
      pure a.id
  | none => env.run .saveActor fun db => db.insertActor "human".toList (name.getD handle) handle true env.said

/-- The `after_value` of a bootstrap. -/
def bootstrapValue (handle : Text) : Text := "\x7b\"handle\":\"".toList ++ handle ++ "\",\"is_admin\":true\x7d".toList

/-- The row that `bootstrap_admin` hands to `log_admin`. -/
def bootstrapAudit (actorId : Int) (handle : Text) (now : Int) : AuditRow where
  actorId
  target := "actors:".toList ++ Json.ofInt actorId
  operation := "bootstrap".toList
  beforeValue := none
  afterValue := some (bootstrapValue handle)
  note := some "bootstrap admin via CLI".toList
  createdAt := now

/-- `bootstrap_admin`. -/
def bootstrapAdmin (argon2 : Argon2) (env : AdminEnv) (handle : Text) (name : Option Text) (password : Text) :
    Script AdminDb AppError Int := do
  let existing ← env.run .actorByHandle fun db => .ok (db.actorByHandle handle, db)
  let actorId ← env.saveAdmin handle name existing
  env.execute .revokePasswords fun db => .ok (db.revokePasswords actorId (env.now .revokePasswords))
  let pwHash ← env.run .hash fun db => .ok (argon2.hash env.salt password, db)
  env.execute .insertPassword fun db => db.insertPassword actorId pwHash (env.now .insertPassword) env.said
  env.execute .logAdmin fun db => db.logAdmin (bootstrapAudit actorId handle (env.now .logAdmin)) env.said
  pure actorId

/-- `actor_type` is one that is in use. -/
def AdminDb.typeExists (db : AdminDb) (actorType : Text) : Bool :=
  db.actorTypes.any fun t => t.code = actorType && t.isActive = 1

/-- The actor of `issue_actor_token`. -/
def AdminEnv.actorFor (env : AdminEnv) (handle actorType : Text) (name : Option Text) :
    Option Actor → Script AdminDb AppError Int
  | some a =>
    if a.actorType ≠ actorType then
      .fail (.conflict ("actor ".toList ++ handle ++ " already exists with type ".toList ++ a.actorType ++
        " (requested ".toList ++ actorType ++ ")".toList))
    else pure a.id
  | none => env.run .saveActor fun db => db.insertActor actorType (name.getD handle) handle false env.said

/-- `serde_json::to_string(&label)`. -/
def labelJson : Option Text → Text
  | some label => Json.quote label
  | none => "null".toList

/-- The `after_value` of an issued token. -/
def issueValue (actorId : Int) (label : Option Text) : Text :=
  "\x7b\"actor_id\":".toList ++ Json.ofInt actorId ++ ",\"label\":".toList ++ labelJson label ++ "\x7d".toList

/-- The row that `issue_actor_token` hands to `log_admin`. -/
def issueAudit (issuer credentialId actorId : Int) (handle : Text) (label : Option Text) (now : Int) :
    AuditRow where
  actorId := issuer
  target := "credentials:".toList ++ Json.ofInt credentialId
  operation := "issue_token".toList
  beforeValue := none
  afterValue := some (issueValue actorId label)
  note := some ("issued to ".toList ++ handle)
  createdAt := now

/-- The arguments of `issue_actor_token`. -/
structure IssueInput where
  handle : Text
  actorType : Text
  name : Option Text
  label : Option Text
  expiresAt : Option Int
  issuer : Int

/-- `issue_actor_token`. -/
def issueActorToken (ext : Externals) (env : AdminEnv) (input : IssueInput) :
    Script AdminDb AppError (Int × Text) := do
  let known ← env.run .actorType fun db => .ok (db.typeExists input.actorType, db)
  if known = false then .fail (.badRequest ("unknown actor_type: ".toList ++ input.actorType))
  else do
    let existing ← env.run .actorByHandle fun db => .ok (db.actorByHandle input.handle, db)
    let actorId ← env.actorFor input.handle input.actorType input.name existing
    let issued ← env.run .issue fun db =>
      db.issue ext env.bytes actorId input.label input.expiresAt (env.now .issue) env.said
    env.execute .logAdmin fun db =>
      db.logAdmin (issueAudit input.issuer issued.credentialId actorId input.handle input.label (env.now .logAdmin))
        env.said
    pure (actorId, issued.plaintext)

/-! ## When a statement succeeds -/

section

variable {env : AdminEnv} {q : AdminStatement} {db db' : AdminDb} {e : AppError}

theorem AdminEnv.run_ok {α : Type} {f : AdminDb → Except AppError (α × AdminDb)} {a : α} :
    env.run q f db = (.ok a, db') ↔ env.fault q = none ∧ f db = .ok (a, db') := by
  rw [run, Script.stmt_ok]
  cases env.fault q <;> simp

theorem AdminEnv.run_error {α : Type} {f : AdminDb → Except AppError (α × AdminDb)} :
    env.run q f db = (.error e, db') ↔ (env.fault q = some e ∨ env.fault q = none ∧ f db = .error e) ∧ db' = db := by
  rw [run, Script.stmt_error]
  cases env.fault q <;> simp

theorem AdminEnv.execute_ok {f : AdminDb → Except AppError AdminDb} {u : Unit} :
    env.execute q f db = (.ok u, db') ↔ env.fault q = none ∧ f db = .ok db' := by
  rw [execute, run_ok]
  cases f db <;> simp [Except.map]

theorem AdminEnv.execute_error {f : AdminDb → Except AppError AdminDb} :
    env.execute q f db = (.error e, db') ↔
      (env.fault q = some e ∨ env.fault q = none ∧ f db = .error e) ∧ db' = db := by
  rw [execute, run_error]
  cases f db <;> simp [Except.map]

/-- A statement that is never refused fails only by itself. -/
theorem AdminEnv.run_fault {α : Type} {g : AdminDb → α × AdminDb}
    (h : env.run q (fun s => .ok (g s)) db = (.error e, db')) : env.fault q ≠ none ∧ db' = db := by
  obtain ⟨hor, hdb⟩ := run_error.1 h
  rcases hor with hfault | ⟨-, hrefused⟩
  · rw [hfault]
    exact ⟨Option.some_ne_none e, hdb⟩
  · cases hrefused

theorem AdminEnv.execute_fault {g : AdminDb → AdminDb}
    (h : env.execute q (fun s => .ok (g s)) db = (.error e, db')) : env.fault q ≠ none ∧ db' = db :=
  run_fault (g := fun s => ((), g s)) h

theorem AdminDb.findActor_eq_some {handle : Text} {id : Int} {row : ActorRow} :
    db.findActor handle = some (id, row) ↔ (id, row) ∈ db.actors.rows ∧ row.handle = handle := by
  rw [findActor, Table.find, Table.find?_eq_some db.uniqueHandle (k := handle) (by simp)]
  simp

theorem AdminDb.findActor_eq_none {handle : Text} :
    db.findActor handle = none ↔ ∀ p ∈ db.actors.rows, p.2.handle ≠ handle := by
  simp [findActor, Table.find, List.find?_eq_none]

/-! ### What they do then -/

theorem AdminDb.insertActor_ok {actorType name handle said : Text} {isAdmin : Bool} {id : Int}
    (h : db.insertActor actorType name handle isAdmin said = .ok (id, db')) :
    id = db.actors.nextId ∧
      db'.actors = db.actors.insert { actorType, name, handle, isAdmin := if isAdmin then 1 else 0, isActive := 1 } ∧
      db'.access = db.access ∧ db'.adminAudit = db.adminAudit := by
  unfold insertActor at h
  split at h
  · split at h <;> cases h
    exact ⟨rfl, rfl, rfl, rfl⟩
  · cases h

theorem AdminDb.insertActor_type {actorType name handle said : Text} {isAdmin : Bool} {id : Int}
    (h : db.insertActor actorType name handle isAdmin said = .ok (id, db')) :
    ¬ ∀ t ∈ db.actorTypes, t.code ≠ actorType := by
  unfold insertActor at h
  split at h
  · split at h
    · cases h
    · next htype => exact htype
  · cases h

theorem AdminDb.insertActor_error {actorType name handle said : Text} {isAdmin : Bool}
    (hnew : db.findActor handle = none) (h : db.insertActor actorType name handle isAdmin said = .error e) :
    ∀ t ∈ db.actorTypes, t.code ≠ actorType := by
  unfold insertActor at h
  rw [dif_pos (findActor_eq_none.1 hnew)] at h
  split at h
  · next htype => exact htype
  · cases h

theorem AdminDb.insertPassword_ok {actorId now : Int} {pwHash said : Text}
    (h : db.insertPassword actorId pwHash now said = .ok db') :
    db.actors.get actorId ≠ none ∧ db'.actors = db.actors ∧
      db'.access.credentials = db.access.credentials.insert (passwordRow actorId pwHash now) ∧
      db'.adminAudit = db.adminAudit := by
  unfold insertPassword at h
  split at h
  · cases h
  · next hactor =>
    cases h
    exact ⟨hactor, rfl, rfl, rfl⟩

theorem AdminDb.insertPassword_error {actorId now : Int} {pwHash said : Text}
    (h : db.insertPassword actorId pwHash now said = .error e) : db.actors.get actorId = none := by
  unfold insertPassword at h
  split at h
  · next hactor => exact hactor
  · cases h

/-- No credential has the key that was drawn. -/
def AdminDb.KeyFree (db : AdminDb) (bytes : TokenBytes) : Prop :=
  ∀ p ∈ db.access.credentials.rows, p.2.lookupKey ≠ some (hexEncode bytes.lookup)

theorem AdminDb.issue_ok {ext : Externals} {bytes : TokenBytes} {actorId now : Int} {label : Option Text}
    {expiresAt : Option Int} {said : Text} {issued : IssuedToken}
    (h : db.issue ext bytes actorId label expiresAt now said = .ok (issued, db')) :
    db.KeyFree bytes ∧ issued.credentialId = db.access.credentials.nextId ∧
      db'.access.credentials = db.access.credentials.insert (bytes.row ext actorId label expiresAt now) ∧
      db'.actors = db.actors ∧ db'.adminAudit = db.adminAudit := by
  unfold issue at h
  split at h
  · cases h
  · next hissue =>
    cases h
    unfold Access.issue at hissue
    split at hissue
    · next hfree =>
      split at hissue <;> cases hissue
      exact ⟨hfree, rfl, rfl, rfl, rfl⟩
    · cases hissue

theorem AdminDb.issue_error {ext : Externals} {bytes : TokenBytes} {actorId now : Int} {label : Option Text}
    {expiresAt : Option Int} {said : Text}
    (h : db.issue ext bytes actorId label expiresAt now said = .error e) :
    ¬ db.KeyFree bytes ∨ db.actors.get actorId = none := by
  unfold issue at h
  split at h
  · next hissue =>
    unfold Access.issue at hissue
    split at hissue
    · split at hissue
      · next hactor => exact .inr hactor
      · cases hissue
    · next hfree => exact .inl hfree
  · cases h

theorem AdminDb.logAdmin_ok {row : AuditRow} {said : Text} (h : db.logAdmin row said = .ok db') :
    db.actors.get row.actorId ≠ none ∧ db' = { db with adminAudit := db.adminAudit ++ [row] } := by
  unfold logAdmin at h
  split at h
  · cases h
  · next hactor =>
    cases h
    exact ⟨hactor, rfl⟩

theorem AdminDb.logAdmin_error {row : AuditRow} {said : Text} (h : db.logAdmin row said = .error e) :
    db.actors.get row.actorId = none := by
  unfold logAdmin at h
  split at h
  · next hactor => exact hactor
  · cases h

end

/-! ## What a command can do -/

section

variable {argon2 : Argon2} {ext : Externals} {env : AdminEnv} {db db' : AdminDb} {e : AppError} {id : Int}
  {handle actorType password : Text} {name : Option Text} {existing : Option Actor}

theorem AdminEnv.saveAdmin_ok : env.saveAdmin handle name existing db = (.ok id, db') ↔
    env.fault .saveActor = none ∧
      match existing with
      | some a => a.actorType = "human".toList ∧ a.id = id ∧ db' = db.promote id
      | none => db.insertActor "human".toList (name.getD handle) handle true env.said = .ok (id, db') := by
  cases existing with
  | some a =>
    by_cases ha : a.actorType = "human".toList
    · rw [saveAdmin, if_neg (not_not.2 ha), Script.bind_ok]
      simp only [execute_ok, Script.pure_apply, Except.ok.injEq, Prod.mk.injEq]
      constructor
      · intro h
        obtain ⟨_, t, ⟨hf, rfl⟩, rfl, rfl⟩ := h
        exact ⟨hf, ha, rfl, rfl⟩
      · intro h
        obtain ⟨hf, -, rfl, rfl⟩ := h
        exact ⟨(), _, ⟨hf, rfl⟩, rfl, rfl⟩
    · rw [saveAdmin, if_pos ha, Script.fail_apply]
      refine ⟨fun h => ?_, fun h => absurd h.2.1 ha⟩
      cases h
  | none => rw [saveAdmin, run_ok]

/-- Where the first half fails, nothing was done. -/
theorem AdminEnv.saveAdmin_error : env.saveAdmin handle name existing db = (.error e, db') ↔
    db' = db ∧
      match existing with
      | some a =>
        a.actorType ≠ "human".toList ∧ .conflict ("actor ".toList ++ handle ++ " exists with type ".toList ++
          a.actorType ++ " (not 'human')".toList) = e ∨
        a.actorType = "human".toList ∧ env.fault .saveActor = some e
      | none =>
        env.fault .saveActor = some e ∨
        env.fault .saveActor = none ∧
          db.insertActor "human".toList (name.getD handle) handle true env.said = .error e := by
  cases existing with
  | some a =>
    by_cases ha : a.actorType = "human".toList
    · rw [saveAdmin, if_neg (not_not.2 ha), Script.bind_error]
      simp only [execute_error, Script.pure_apply, ha, ne_eq, not_true_eq_false, false_and, true_and, false_or,
        reduceCtorEq, or_false, Prod.mk.injEq, exists_false, and_comm]
    · rw [saveAdmin, if_pos ha, Script.fail_apply]
      simp only [ha, ne_eq, not_false_eq_true, true_and, false_and, or_false, Prod.mk.injEq, Except.error.injEq,
        eq_comm, and_comm]
  | none => rw [saveAdmin, run_error, and_comm]

theorem bootstrapAdmin_ok (h : bootstrapAdmin argon2 env handle name password db = (.ok id, db')) :
    ∃ db₁ db₂, env.saveAdmin handle name (db.actorByHandle handle) db = (.ok id, db₁) ∧
      (db₁.revokePasswords id (env.now .revokePasswords)).insertPassword id (argon2.hash env.salt password)
        (env.now .insertPassword) env.said = .ok db₂ ∧
      db₂.logAdmin (bootstrapAudit id handle (env.now .logAdmin)) env.said = .ok db' := by
  obtain ⟨existing, t₁, hfind, h⟩ := Script.bind_ok.1 h
  obtain ⟨actorId, db₁, hsave, h⟩ := Script.bind_ok.1 h
  obtain ⟨_, t₂, hrevoke, h⟩ := Script.bind_ok.1 h
  obtain ⟨pwHash, t₃, hhash, h⟩ := Script.bind_ok.1 h
  obtain ⟨_, db₂, hinsert, h⟩ := Script.bind_ok.1 h
  obtain ⟨_, t₄, hlog, h⟩ := Script.bind_ok.1 h
  cases h
  cases (AdminEnv.run_ok.1 hfind).2
  cases (AdminEnv.execute_ok.1 hrevoke).2
  cases (AdminEnv.run_ok.1 hhash).2
  exact ⟨db₁, db₂, hsave, (AdminEnv.execute_ok.1 hinsert).2, (AdminEnv.execute_ok.1 hlog).2⟩

theorem AdminEnv.actorFor_ok : env.actorFor handle actorType name existing db = (.ok id, db') ↔
    match existing with
    | some a => a.actorType = actorType ∧ a.id = id ∧ db' = db
    | none =>
      env.fault .saveActor = none ∧
        db.insertActor actorType (name.getD handle) handle false env.said = .ok (id, db') := by
  cases existing with
  | some a =>
    by_cases ha : a.actorType = actorType
    · rw [actorFor, if_neg (not_not.2 ha), Script.pure_apply]
      simp [ha, eq_comm]
    · rw [actorFor, if_pos ha, Script.fail_apply]
      simp [ha]
  | none => rw [actorFor, run_ok]

theorem AdminEnv.actorFor_error : env.actorFor handle actorType name existing db = (.error e, db') ↔
    db' = db ∧
      match existing with
      | some a =>
        a.actorType ≠ actorType ∧ .conflict ("actor ".toList ++ handle ++ " already exists with type ".toList ++
          a.actorType ++ " (requested ".toList ++ actorType ++ ")".toList) = e
      | none =>
        env.fault .saveActor = some e ∨
        env.fault .saveActor = none ∧ db.insertActor actorType (name.getD handle) handle false env.said = .error e := by
  cases existing with
  | some a =>
    by_cases ha : a.actorType = actorType
    · rw [actorFor, if_neg (not_not.2 ha), Script.pure_apply]
      simp [ha]
    · rw [actorFor, if_pos ha, Script.fail_apply]
      simp only [ha, ne_eq, not_false_eq_true, true_and, Prod.mk.injEq, Except.error.injEq, eq_comm, and_comm]
  | none => rw [actorFor, run_error, and_comm]

theorem issueActorToken_ok {input : IssueInput} {r : Int × Text}
    (h : issueActorToken ext env input db = (.ok r, db')) :
    ∃ db₁ db₂ issued,
      env.actorFor input.handle input.actorType input.name (db.actorByHandle input.handle) db = (.ok r.1, db₁) ∧
      db₁.issue ext env.bytes r.1 input.label input.expiresAt (env.now .issue) env.said = .ok (issued, db₂) ∧
      db₂.logAdmin (issueAudit input.issuer issued.credentialId r.1 input.handle input.label (env.now .logAdmin))
        env.said = .ok db' := by
  obtain ⟨known, t₁, hknown, h⟩ := Script.bind_ok.1 h
  cases (AdminEnv.run_ok.1 hknown).2
  by_cases hk : db.typeExists input.actorType = false
  · rw [if_pos hk, Script.fail_apply] at h
    cases h
  · rw [if_neg hk] at h
    obtain ⟨existing, t₂, hfind, h⟩ := Script.bind_ok.1 h
    obtain ⟨actorId, db₁, hactor, h⟩ := Script.bind_ok.1 h
    obtain ⟨issued, db₂, hissue, h⟩ := Script.bind_ok.1 h
    obtain ⟨_, t₃, hlog, h⟩ := Script.bind_ok.1 h
    cases h
    cases (AdminEnv.run_ok.1 hfind).2
    exact ⟨db₁, db₂, issued, hactor, (AdminEnv.run_ok.1 hissue).2, (AdminEnv.execute_ok.1 hlog).2⟩

end

/-! ## A small installation -/

/-- The database that the migrations make. -/
def AdminDb.migrated : AdminDb where
  actorTypes := ["human".toList, "agent".toList, "system".toList, "external".toList].map fun code =>
    { code, isActive := 1 }
  actors := .empty
  access := { credentials := .empty, sessions := [], uniqueLookup := List.nodup_nil, uniqueId := List.nodup_nil }
  adminAudit := []
  uniqueHandle := by decide
  ownedCredential := fun _ hp => absurd hp List.not_mem_nil

/-- Nothing fails but what is named. -/
def AdminEnv.small (fault : AdminStatement → Option AppError) : AdminEnv where
  now _ := 0
  salt := []
  bytes := { lookup := List.replicate 8 0, secret := List.replicate 24 0, lookup_length := rfl, secret_length := rfl }
  fault
  said := []

end Wikikiki
