/-
What a bootstrap that fails leaves behind (actor/mod.rs, auth/session.rs).

The statements before the one that failed stay done, so the possible final
states are the prefixes of `bootstrap_admin` (`Stopped`), and what decides is
who can log in after each of them. A login reads the passwords of one handle
(`AdminDb.passwords`), so every statement is described by what it does to
that list. `bootstrap_failed_iff` says when a failed call was harmless.
-/
import Wikikiki.Admin
import Wikikiki.Gate

namespace Wikikiki

/-! ## Logins -/

/-- A password of the handle, joined with its actor. -/
def joinPassword (actors : Table ActorRow) (handle : Text) (c : CredentialRow) : Option (CredentialRow × Actor) :=
  if c.kind = "password".toList ∧ c.revokedAt = none then
    (actors.get c.actorId).bind fun a =>
      if a.handle = handle ∧ a.isActive = 1 then some (c, a.actor c.actorId) else none
  else none

/-- The passwords that `verify_password_login` chooses from. -/
def AdminDb.passwords (db : AdminDb) (handle : Text) : List (CredentialRow × Actor) :=
  db.access.credentials.rows.filterMap fun p => joinPassword db.actors handle p.2

/-- `verify_password_login` accepts the pair. -/
def AdminDb.Accepts (db : AdminDb) (argon2 : Argon2) (handle password : Text) : Prop :=
  ∃ actor, db.access.verifyPasswordLogin argon2 db.actors handle password = .ok actor

def SameLogins (argon2 : Argon2) (db db' : AdminDb) : Prop :=
  ∀ handle password, db'.Accepts argon2 handle password ↔ db.Accepts argon2 handle password

/-- `is_admin` and `is_active`. -/
def AdminDb.flags (db : AdminDb) (id : Int) : Option (Int × Int) :=
  (db.actors.get id).map fun r => (r.isAdmin, r.isActive)

/-- Every actor that was there has the flags that it had. -/
def SameFlags (db db' : AdminDb) : Prop := ∀ id flags, db.flags id = some flags → db'.flags id = some flags

section

variable {argon2 : Argon2} {db db' : AdminDb} {handle password : Text} {id now : Int} {row : ActorRow}

theorem joinPassword_eq_some {actors : Table ActorRow} {c c' : CredentialRow} {a : Actor} :
    joinPassword actors handle c = some (c', a) ↔ (c.kind = "password".toList ∧ c.revokedAt = none) ∧
      ∃ r, actors.get c.actorId = some r ∧ (r.handle = handle ∧ r.isActive = 1) ∧ c = c' ∧ r.actor c.actorId = a := by
  simp only [joinPassword, Option.ite_none_right_eq_some, Option.bind_eq_some_iff, Option.some.injEq, Prod.mk.injEq]

theorem AdminDb.accepts_iff : db.Accepts argon2 handle password ↔
    ∃ c a, (db.passwords handle).maxOn? (fun p => p.1.createdAt) = some (c, a) ∧
      argon2.check password c.secretHash = .ok true := by
  unfold Accepts Access.verifyPasswordLogin
  generalize hrows : db.access.credentials.rows.filterMap _ = rows
  have hpasswords : db.passwords handle = rows := hrows
  rw [hpasswords]
  dsimp only
  cases rows.maxOn? fun p => p.1.createdAt with
  | none => simp
  | some p =>
    obtain ⟨c, a⟩ := p
    cases hcheck : argon2.check password c.secretHash with
    | error e => simp [hcheck]
    | ok b => cases b <;> simp [hcheck]

theorem AdminDb.accepts_congr (h : db'.passwords handle = db.passwords handle) :
    db'.Accepts argon2 handle password ↔ db.Accepts argon2 handle password := by
  rw [accepts_iff, accepts_iff, h]

theorem AdminDb.not_accepts (h : db.passwords handle = []) : ¬ db.Accepts argon2 handle password := by
  rw [accepts_iff, h]
  simp

/-- With one password, that is the one. -/
theorem AdminDb.accepts_single {c : CredentialRow} {a : Actor} {secret : Text} {salt : Bytes}
    (h : db.passwords handle = [(c, a)]) (hc : c.secretHash = argon2.hash salt secret) :
    db.Accepts argon2 handle password ↔ password = secret := by
  rw [accepts_iff, h, List.maxOn?_singleton]
  simp [hc, Argon2.check, argon2.verify_hash]

/-- Where only one handle's passwords change, the logins are the same if that
handle's are. -/
theorem sameLogins_iff (handle : Text) (h : ∀ other, other ≠ handle → db'.passwords other = db.passwords other) :
    SameLogins argon2 db db' ↔
      ∀ password, db'.Accepts argon2 handle password ↔ db.Accepts argon2 handle password := by
  constructor
  · intro hsame password
    exact hsame handle password
  · intro hsame other password
    by_cases ho : other = handle
    · subst ho
      exact hsame password
    · exact AdminDb.accepts_congr (h other ho)

theorem SameLogins.of_passwords (h : ∀ handle, db'.passwords handle = db.passwords handle) :
    SameLogins argon2 db db' := fun handle _ => AdminDb.accepts_congr (h handle)

/-! ## What a statement does to the passwords -/

theorem AdminDb.passwords_insertActor {actorType name said : Text} {isAdmin : Bool}
    (h : db.insertActor actorType name handle isAdmin said = .ok (id, db')) (other : Text) :
    db'.passwords other = db.passwords other := by
  obtain ⟨-, hactors, haccess, -⟩ := AdminDb.insertActor_ok h
  unfold passwords
  rw [haccess]
  refine List.filterMap_congr fun p hp => ?_
  have hne : p.2.actorId ≠ db.actors.nextId := by
    intro he
    exact db.ownedCredential p hp (by rw [he, Table.get_nextId])
  simp only [joinPassword, hactors, Table.get_insert, Function.update_of_ne hne]

/-- The actor's own passwords are gone, and those of others are not. -/
theorem AdminDb.passwords_revokePasswords (other : Text) :
    (db.revokePasswords id now).passwords other = (db.passwords other).filter fun p => p.1.actorId ≠ id := by
  unfold passwords
  rw [List.filter_filterMap]
  change List.filterMap _ (List.map _ _) = _
  rw [List.filterMap_map]
  refine List.filterMap_congr fun p _ => ?_
  have hlive : p.2.isLivePassword id = true ↔
      p.2.actorId = id ∧ p.2.kind = "password".toList ∧ p.2.revokedAt = none := by
    simp only [CredentialRow.isLivePassword, Bool.and_eq_true, decide_eq_true_eq, and_assoc]
  simp only [Function.comp_apply, revokePasswords]
  by_cases hid : p.2.isLivePassword id = true
  · have hnone : joinPassword db.actors other { p.2 with revokedAt := some now } = none :=
      if_neg fun h => by cases h.2
    rw [if_pos hid, hnone, eq_comm, Option.filter_eq_none_iff]
    intro q hq
    obtain ⟨-, _, -, -, hc, -⟩ := joinPassword_eq_some.1 hq
    rw [← hc]
    simp [(hlive.1 hid).1]
  · rw [if_neg hid]
    cases hq : joinPassword db.actors other p.2 with
    | none => rfl
    | some q =>
      obtain ⟨hpw, _, -, -, hc, -⟩ := joinPassword_eq_some.1 hq
      refine (Option.filter_some_pos ?_).symm
      rw [← hc, decide_eq_true_eq]
      intro he
      exact hid (hlive.2 ⟨he, hpw⟩)

/-- The passwords of a handle are its actor's. -/
theorem AdminDb.mem_passwords {p : CredentialRow × Actor} (h : p ∈ db.passwords handle) :
    ∃ row, db.findActor handle = some (p.1.actorId, row) := by
  obtain ⟨q, -, hq⟩ := List.mem_filterMap.1 h
  obtain ⟨-, row, hrow, ⟨hhandle, -⟩, hc, -⟩ := joinPassword_eq_some.1 hq
  rw [hc] at hrow
  exact ⟨row, AdminDb.findActor_eq_some.2 ⟨Table.get_eq_some.1 hrow, hhandle⟩⟩

/-- The handle of the actor has no passwords left, and the others have theirs. -/
theorem AdminDb.passwords_revoked (now : Int) (h : db.findActor handle = some (id, row)) (other : Text) :
    (db.revokePasswords id now).passwords other = if other = handle then [] else db.passwords other := by
  rw [passwords_revokePasswords]
  split
  · next ho =>
    subst ho
    rw [List.filter_eq_nil_iff]
    intro p hp
    obtain ⟨row', hrow'⟩ := mem_passwords hp
    rw [h] at hrow'
    cases hrow'
    simp
  · next ho =>
    rw [List.filter_eq_self]
    intro p hp
    obtain ⟨row', hrow'⟩ := mem_passwords hp
    rw [decide_eq_true_eq]
    intro he
    rw [he] at hrow'
    obtain ⟨hm, hhandle⟩ := AdminDb.findActor_eq_some.1 h
    obtain ⟨hm', hhandle'⟩ := AdminDb.findActor_eq_some.1 hrow'
    rw [Table.eq_of_mem hm' hm] at hhandle'
    exact ho (hhandle'.symm.trans hhandle)

/-- A new password is the last of its handle's. -/
theorem AdminDb.passwords_insertPassword {pwHash said : Text}
    (h : db.insertPassword id pwHash now said = .ok db') (hrow : db.actors.get id = some row) (other : Text) :
    db'.passwords other = db.passwords other ++
      if row.handle = other ∧ row.isActive = 1 then [(passwordRow id pwHash now, row.actor id)] else [] := by
  obtain ⟨-, hactors, hcredentials, -⟩ := AdminDb.insertPassword_ok h
  have hjoin : joinPassword db.actors other (passwordRow id pwHash now) =
      if row.handle = other ∧ row.isActive = 1 then some (passwordRow id pwHash now, row.actor id) else none := by
    rw [joinPassword, if_pos ⟨rfl, rfl⟩, show (passwordRow id pwHash now).actorId = id from rfl, hrow,
      Option.bind_some]
  unfold passwords
  rw [hactors, hcredentials, Table.rows_insert, List.filterMap_append]
  by_cases hlogin : row.handle = other ∧ row.isActive = 1
  · rw [if_pos hlogin] at hjoin ⊢
    exact congrArg (_ ++ ·) (List.filterMap_cons_some hjoin)
  · rw [if_neg hlogin] at hjoin ⊢
    exact congrArg (_ ++ ·) (List.filterMap_cons_none hjoin)

/-! ## Flags -/

theorem sameFlags_congr {db'' : AdminDb} (h : db''.actors = db'.actors) : SameFlags db db'' ↔ SameFlags db db' := by
  unfold SameFlags AdminDb.flags
  rw [h]

theorem sameFlags_revokePasswords : SameFlags db (db'.revokePasswords id now) ↔ SameFlags db db' :=
  sameFlags_congr rfl

theorem SameFlags.insertActor {actorType name said : Text} {isAdmin : Bool}
    (h : db.insertActor actorType name handle isAdmin said = .ok (id, db')) : SameFlags db db' := by
  obtain ⟨-, hactors, -, -⟩ := AdminDb.insertActor_ok h
  intro j flags hj
  have hne : j ≠ db.actors.nextId := by
    rintro rfl
    rw [AdminDb.flags, Table.get_nextId] at hj
    cases hj
  rwa [AdminDb.flags, hactors, Table.get_insert, Function.update_of_ne hne]

theorem AdminDb.promote_actors (h : db.actors.get id = some row) (hadmin : row.isAdmin = 1)
    (hactive : row.isActive = 1) : (db.promote id).actors = db.actors := by
  refine Table.ext ?_
  refine (List.map_congr_left fun p hp => ?_).trans (List.map_id _)
  split
  · next hid =>
    have hrow : p.2 = row := Table.eq_of_mem (by rwa [← hid]) (Table.get_eq_some.1 h)
    refine Prod.ext rfl (Eq.trans ?_ hrow.symm)
    rw [hrow]
    cases row
    cases hadmin
    cases hactive
    rfl
  · rfl

theorem sameFlags_promote (h : db.actors.get id = some row) :
    SameFlags db (db.promote id) ↔ row.isAdmin = 1 ∧ row.isActive = 1 := by
  constructor
  · intro hsame
    have hflags := hsame id (row.isAdmin, row.isActive) (by rw [AdminDb.flags, h]; rfl)
    rw [AdminDb.flags, AdminDb.promote, Table.get_modify, h] at hflags
    simpa [eq_comm] using hflags
  · intro hflags
    rw [sameFlags_congr (AdminDb.promote_actors h hflags.1 hflags.2)]
    exact fun _ _ hj => hj

/-! ## Where a bootstrap stops -/

end

/-- The first statement that failed, and what it leaves. -/
inductive AdminEnv.Stopped (env : AdminEnv) (argon2 : Argon2) (handle : Text) (name : Option Text)
    (password : Text) (db : AdminDb) : AdminDb → Prop
  | lookup (hlookup : env.fault .actorByHandle ≠ none) : Stopped env argon2 handle name password db db
  | save {e : AppError} (hlookup : env.fault .actorByHandle = none)
    (hsave : env.saveAdmin handle name (db.actorByHandle handle) db = (.error e, db)) :
    Stopped env argon2 handle name password db db
  | revoke {id : Int} {db₁ : AdminDb} (hlookup : env.fault .actorByHandle = none)
    (hsave : env.saveAdmin handle name (db.actorByHandle handle) db = (.ok id, db₁))
    (hrevoke : env.fault .revokePasswords ≠ none) : Stopped env argon2 handle name password db db₁
  | hash {id : Int} {db₁ : AdminDb} (hlookup : env.fault .actorByHandle = none)
    (hsave : env.saveAdmin handle name (db.actorByHandle handle) db = (.ok id, db₁))
    (hrevoke : env.fault .revokePasswords = none)
    (hhash : env.fault .hash ≠ none ∨ env.fault .insertPassword ≠ none) :
    Stopped env argon2 handle name password db (db₁.revokePasswords id (env.now .revokePasswords))
  | audit {id : Int} {db₁ db₂ : AdminDb} (hlookup : env.fault .actorByHandle = none)
    (hsave : env.saveAdmin handle name (db.actorByHandle handle) db = (.ok id, db₁))
    (hrevoke : env.fault .revokePasswords = none) (hhash : env.fault .hash = none)
    (hinsert : env.fault .insertPassword = none)
    (hdb : (db₁.revokePasswords id (env.now .revokePasswords)).insertPassword id (argon2.hash env.salt password)
      (env.now .insertPassword) env.said = .ok db₂) : Stopped env argon2 handle name password db db₂

section

variable {argon2 : Argon2} {env : AdminEnv} {db db' : AdminDb} {handle password : Text} {name : Option Text} {id : Int}
  {row : ActorRow} {e : AppError}

/-- The first half went through: for a new actor, or for one that was there. -/
theorem AdminEnv.saved (h : env.saveAdmin handle name (db.actorByHandle handle) db = (.ok id, db')) :
    env.fault .saveActor = none ∧
      (db.findActor handle = none ∧ db.insertActor "human".toList (name.getD handle) handle true env.said =
          .ok (id, db') ∨
        ∃ row, db.findActor handle = some (id, row) ∧ row.actorType = "human".toList ∧ db' = db.promote id) := by
  obtain ⟨hfault, h⟩ := AdminEnv.saveAdmin_ok.1 h
  refine ⟨hfault, ?_⟩
  unfold AdminDb.actorByHandle at h
  cases hf : db.findActor handle with
  | none =>
    rw [hf] at h
    exact .inl ⟨rfl, h⟩
  | some p =>
    rw [hf] at h
    obtain ⟨htype, rfl, hdb⟩ := h
    exact .inr ⟨p.2, rfl, htype, hdb⟩

theorem AdminEnv.unsaved (h : env.saveAdmin handle name (db.actorByHandle handle) db = (.error e, db')) :
    env.fault .saveActor ≠ none ∨
      db.findActor handle = none ∧ (∀ t ∈ db.actorTypes, t.code ≠ "human".toList) ∨
      ∃ id row, db.findActor handle = some (id, row) ∧ row.actorType ≠ "human".toList := by
  obtain ⟨-, h⟩ := AdminEnv.saveAdmin_error.1 h
  unfold AdminDb.actorByHandle at h
  cases hf : db.findActor handle with
  | none =>
    rw [hf] at h
    rcases h with hfault | ⟨-, hinsert⟩
    · exact .inl (by rw [hfault]; exact Option.some_ne_none e)
    · exact .inr (.inl ⟨rfl, AdminDb.insertActor_error hf hinsert⟩)
  | some p =>
    rw [hf] at h
    rcases h with ⟨htype, -⟩ | ⟨-, hfault⟩
    · exact .inr (.inr ⟨p.1, p.2, rfl, htype⟩)
    · exact .inl (by rw [hfault]; exact Option.some_ne_none e)

/-- Whoever was saved is there. -/
theorem AdminEnv.saved_actor (h : env.saveAdmin handle name (db.actorByHandle handle) db = (.ok id, db')) :
    db'.actors.get id ≠ none := by
  obtain ⟨-, ⟨-, hinsert⟩ | ⟨row, hfind, -, rfl⟩⟩ := AdminEnv.saved h
  · obtain ⟨rfl, hactors, -, -⟩ := AdminDb.insertActor_ok hinsert
    simp [hactors, Table.get_insert]
  · have hrow := Table.get_eq_some.2 (AdminDb.findActor_eq_some.1 hfind).1
    simp [AdminDb.promote, Table.get_modify, hrow]

theorem bootstrapAdmin_stopped (h : bootstrapAdmin argon2 env handle name password db = (.error e, db')) :
    env.Stopped argon2 handle name password db db' := by
  rcases Script.bind_error.1 h with hfind | ⟨existing, t₁, hfind, h⟩
  · obtain ⟨hfault, rfl⟩ := AdminEnv.run_fault hfind
    exact .lookup hfault
  obtain ⟨hlookup, hfind⟩ := AdminEnv.run_ok.1 hfind
  cases hfind
  rcases Script.bind_error.1 h with hsave | ⟨id, db₁, hsave, h⟩
  · have hsame := (AdminEnv.saveAdmin_error.1 hsave).1
    subst hsame
    exact .save hlookup hsave
  rcases Script.bind_error.1 h with hrevoke | ⟨_, t₂, hrevoke, h⟩
  · obtain ⟨hfault, rfl⟩ := AdminEnv.execute_fault hrevoke
    exact .revoke hlookup hsave hfault
  obtain ⟨hrevoked, ht⟩ := AdminEnv.execute_ok.1 hrevoke
  cases ht
  rcases Script.bind_error.1 h with hhash | ⟨pwHash, t₃, hhash, h⟩
  · obtain ⟨hfault, rfl⟩ := AdminEnv.run_fault hhash
    exact .hash hlookup hsave hrevoked (.inl hfault)
  obtain ⟨hhashed, ht⟩ := AdminEnv.run_ok.1 hhash
  cases ht
  rcases Script.bind_error.1 h with hinsert | ⟨_, db₂, hinsert, h⟩
  · obtain ⟨hor, rfl⟩ := AdminEnv.execute_error.1 hinsert
    rcases hor with hfault | ⟨-, hrefused⟩
    · exact .hash hlookup hsave hrevoked (.inr (by rw [hfault]; exact Option.some_ne_none e))
    · exact absurd (AdminDb.insertPassword_error hrefused) (show db₁.actors.get id ≠ none from AdminEnv.saved_actor hsave)
  obtain ⟨hinserted, hdb⟩ := AdminEnv.execute_ok.1 hinsert
  rcases Script.bind_error.1 h with hlog | ⟨_, t₄, -, h⟩
  · obtain ⟨-, rfl⟩ := AdminEnv.execute_error.1 hlog
    exact .audit hlookup hsave hrevoked hhashed hinserted hdb
  · cases h

/-! ## What each stop leaves -/

/-- `db'` has the actor of the handle, active, and nothing else that a login
reads is new. -/
structure AdminDb.Ready (db db' : AdminDb) (handle : Text) (id : Int) : Prop where
  actor : ∃ row, db'.findActor handle = some (id, row) ∧ row.isActive = 1
  passwords : ∀ other, db'.passwords other = db.passwords other

theorem AdminDb.Ready.insertActor {actorType name said : Text} {isAdmin : Bool}
    (h : db.insertActor actorType name handle isAdmin said = .ok (id, db')) : db.Ready db' handle id := by
  obtain ⟨rfl, hactors, -, -⟩ := AdminDb.insertActor_ok h
  have hm := List.mem_append_right db.actors.rows (List.mem_singleton_self (db.actors.nextId,
    { actorType, name, handle, isAdmin := if isAdmin then 1 else 0, isActive := 1 : ActorRow }))
  rw [← Table.rows_insert, ← hactors] at hm
  exact ⟨⟨_, AdminDb.findActor_eq_some.2 ⟨hm, rfl⟩, rfl⟩, AdminDb.passwords_insertActor h⟩

theorem AdminDb.Ready.promote (hrow : db.findActor handle = some (id, row)) (hadmin : row.isAdmin = 1)
    (hactive : row.isActive = 1) : db.Ready (db.promote id) handle id := by
  obtain ⟨hm, hhandle⟩ := AdminDb.findActor_eq_some.1 hrow
  have hactors := AdminDb.promote_actors (Table.get_eq_some.2 hm) hadmin hactive
  refine ⟨⟨row, AdminDb.findActor_eq_some.2 ⟨by rwa [hactors], hhandle⟩, hactive⟩, fun other => ?_⟩
  unfold AdminDb.passwords
  rw [hactors, AdminDb.promote]

/-- Once the passwords are revoked, nobody logs in with the handle. -/
theorem AdminDb.Ready.revoked {now : Int} (h : db.Ready db' handle id) :
    SameLogins argon2 db (db'.revokePasswords id now) ↔ ∀ p, ¬ db.Accepts argon2 handle p := by
  obtain ⟨row, hrow, -⟩ := h.actor
  have hpass := AdminDb.passwords_revoked now hrow
  rw [sameLogins_iff handle]
  · refine forall_congr' fun p => iff_false_left (AdminDb.not_accepts ?_)
    rw [hpass, if_pos rfl]
  · intro other ho
    rw [hpass, if_neg ho, h.passwords]

/-- Once the new one is there, it is the one that the handle has. -/
theorem AdminDb.Ready.replaced {db'' : AdminDb} {salt : Bytes} {now now' : Int} {said : Text}
    (h : db.Ready db' handle id)
    (hinsert : (db'.revokePasswords id now).insertPassword id (argon2.hash salt password) now' said = .ok db'') :
    SameLogins argon2 db db'' ↔ ∀ p, db.Accepts argon2 handle p ↔ p = password := by
  obtain ⟨row, hrow, hactive⟩ := h.actor
  obtain ⟨hm, hhandle⟩ := AdminDb.findActor_eq_some.1 hrow
  have hrevoked := AdminDb.passwords_revoked now hrow
  have hpass := AdminDb.passwords_insertPassword hinsert (Table.get_eq_some.2 hm)
  rw [sameLogins_iff handle]
  · have hnew : db''.passwords handle = [(passwordRow id (argon2.hash salt password) now', row.actor id)] := by
      rw [hpass, hrevoked, if_pos rfl, if_pos ⟨hhandle, hactive⟩, List.nil_append]
    refine forall_congr' fun p => ?_
    rw [AdminDb.accepts_single hnew rfl]
    exact iff_comm
  · intro other ho
    rw [hpass, hrevoked, if_neg ho, if_neg (fun hlogin => ho (hlogin.1.symm.trans hhandle)), List.append_nil,
      h.passwords]

/-! ## Harmless failures -/

/-- The part of the reset that was done changed no login. -/
def AdminEnv.HarmlessReset (env : AdminEnv) (argon2 : Argon2) (db : AdminDb) (handle password : Text) : Prop :=
  if env.fault .revokePasswords ≠ none then True
  else if env.fault .hash ≠ none ∨ env.fault .insertPassword ≠ none then ∀ p, ¬ db.Accepts argon2 handle p
  else ∀ p, db.Accepts argon2 handle p ↔ p = password

/-- A bootstrap that fails failed before it changed anything, or for a new
actor that has no password yet, or for one who is an active admin and whose
logins the part that was done leaves alone. -/
def AdminEnv.Harmless (env : AdminEnv) (argon2 : Argon2) (db : AdminDb) (handle password : Text) : Prop :=
  env.fault .actorByHandle ≠ none ∨ env.fault .saveActor ≠ none ∨
    match db.findActor handle with
    | none =>
      (∀ t ∈ db.actorTypes, t.code ≠ "human".toList) ∨ env.fault .revokePasswords ≠ none ∨
        env.fault .hash ≠ none ∨ env.fault .insertPassword ≠ none
    | some (_, row) =>
      row.actorType ≠ "human".toList ∨
        row.isAdmin = 1 ∧ row.isActive = 1 ∧ env.HarmlessReset argon2 db handle password

theorem SameLogins.refl (argon2 : Argon2) (db : AdminDb) : SameLogins argon2 db db := fun _ _ => Iff.rfl

theorem SameFlags.refl (db : AdminDb) : SameFlags db db := fun _ _ h => h

theorem AdminEnv.harmless_none (h : db.findActor handle = none) :
    env.Harmless argon2 db handle password ↔
      env.fault .actorByHandle ≠ none ∨ env.fault .saveActor ≠ none ∨
        (∀ t ∈ db.actorTypes, t.code ≠ "human".toList) ∨ env.fault .revokePasswords ≠ none ∨
        env.fault .hash ≠ none ∨ env.fault .insertPassword ≠ none := by
  unfold Harmless
  rw [h]

theorem AdminEnv.harmless_some (h : db.findActor handle = some (id, row)) :
    env.Harmless argon2 db handle password ↔
      env.fault .actorByHandle ≠ none ∨ env.fault .saveActor ≠ none ∨ row.actorType ≠ "human".toList ∨
        row.isAdmin = 1 ∧ row.isActive = 1 ∧ env.HarmlessReset argon2 db handle password := by
  unfold Harmless
  rw [h]

/-- For a handle that nobody has: only the audit fails too late. -/
theorem AdminEnv.Stopped.of_none (h : env.Stopped argon2 handle name password db db')
    (hnone : db.findActor handle = none) :
    SameLogins argon2 db db' ∧ SameFlags db db' ↔ env.Harmless argon2 db handle password := by
  have hnobody : ∀ p, ¬ db.Accepts argon2 handle p := fun p => AdminDb.not_accepts (by
    refine List.eq_nil_iff_forall_not_mem.2 fun q hq => ?_
    obtain ⟨row, hrow⟩ := AdminDb.mem_passwords hq
    rw [hnone] at hrow
    cases hrow)
  have hsaved : ∀ {id db₁}, env.saveAdmin handle name (db.actorByHandle handle) db = (.ok id, db₁) →
      env.fault .saveActor = none ∧
        db.insertActor "human".toList (name.getD handle) handle true env.said = .ok (id, db₁) := by
    intro id db₁ hsave
    obtain ⟨hfault, ⟨-, hinsert⟩ | ⟨row, hrow, -⟩⟩ := AdminEnv.saved hsave
    · exact ⟨hfault, hinsert⟩
    · rw [hnone] at hrow
      cases hrow
  rw [AdminEnv.harmless_none hnone]
  cases h with
  | lookup hlookup => exact iff_of_true ⟨.refl argon2 db, .refl db⟩ (.inl hlookup)
  | save hlookup hsave =>
    refine iff_of_true ⟨.refl argon2 db, .refl db⟩ ?_
    rcases AdminEnv.unsaved hsave with hfault | ⟨-, htype⟩ | ⟨_, _, hrow, -⟩
    · exact .inr (.inl hfault)
    · exact .inr (.inr (.inl htype))
    · rw [hnone] at hrow
      cases hrow
  | revoke hlookup hsave hrevoke =>
    have hinsert := (hsaved hsave).2
    refine iff_of_true ⟨.of_passwords (AdminDb.Ready.insertActor hinsert).passwords, .insertActor hinsert⟩ ?_
    exact .inr (.inr (.inr (.inl hrevoke)))
  | hash hlookup hsave hrevoke hhash =>
    have hinsert := (hsaved hsave).2
    refine iff_of_true ⟨(AdminDb.Ready.insertActor hinsert).revoked.2 hnobody, ?_⟩
      (.inr (.inr (.inr (.inr hhash))))
    exact sameFlags_revokePasswords.2 (.insertActor hinsert)
  | audit hlookup hsave hrevoke hhash hinsert hdb =>
    obtain ⟨hfault, hactor⟩ := hsaved hsave
    refine iff_of_false (fun hsame => ?_) ?_
    · exact hnobody password (((AdminDb.Ready.insertActor hactor).replaced hdb).1 hsame.1 password |>.2 rfl)
    · simp only [hlookup, hfault, hrevoke, hhash, hinsert, AdminDb.insertActor_type hactor, ne_eq, not_true_eq_false,
        or_self, not_false_eq_true]

/-- For the handle of an actor: the flags must have been set, and the logins
must survive. -/
theorem AdminEnv.Stopped.of_some (h : env.Stopped argon2 handle name password db db')
    (hrow : db.findActor handle = some (id, row)) :
    SameLogins argon2 db db' ∧ SameFlags db db' ↔ env.Harmless argon2 db handle password := by
  have hget : db.actors.get id = some row := Table.get_eq_some.2 (AdminDb.findActor_eq_some.1 hrow).1
  have hsaved : ∀ {id' db₁}, env.saveAdmin handle name (db.actorByHandle handle) db = (.ok id', db₁) →
      env.fault .saveActor = none ∧ id' = id ∧ row.actorType = "human".toList ∧ db₁ = db.promote id := by
    intro id' db₁ hsave
    obtain ⟨hfault, ⟨hnone, -⟩ | ⟨row', hrow', htype, hdb⟩⟩ := AdminEnv.saved hsave
    · rw [hrow] at hnone
      cases hnone
    · rw [hrow] at hrow'
      cases hrow'
      exact ⟨hfault, rfl, htype, hdb⟩
  -- What is left of the condition once the actor was promoted.
  have hpromoted : env.fault .actorByHandle = none → env.fault .saveActor = none →
      row.actorType = "human".toList → (env.Harmless argon2 db handle password ↔
        row.isAdmin = 1 ∧ row.isActive = 1 ∧ env.HarmlessReset argon2 db handle password) := by
    intro hlookup hfault htype
    rw [AdminEnv.harmless_some hrow]
    simp only [hlookup, hfault, htype, ne_eq, not_true_eq_false, false_or]
  cases h with
  | lookup hlookup =>
    exact iff_of_true ⟨.refl argon2 db, .refl db⟩ ((AdminEnv.harmless_some hrow).2 (.inl hlookup))
  | save hlookup hsave =>
    refine iff_of_true ⟨.refl argon2 db, .refl db⟩ ((AdminEnv.harmless_some hrow).2 (.inr ?_))
    rcases AdminEnv.unsaved hsave with hfault | ⟨hnone, -⟩ | ⟨_, _, hrow', htype⟩
    · exact .inl hfault
    · rw [hrow] at hnone
      cases hnone
    · rw [hrow] at hrow'
      cases hrow'
      exact .inr (.inl htype)
  | revoke hlookup hsave hrevoke =>
    obtain ⟨hfault, rfl, htype, rfl⟩ := hsaved hsave
    rw [hpromoted hlookup hfault htype, sameFlags_promote hget, AdminEnv.HarmlessReset, if_pos hrevoke, and_comm,
      and_assoc]
    refine and_congr_right fun hadmin => and_congr_right fun hactive => iff_true_intro ?_
    exact .of_passwords (AdminDb.Ready.promote hrow hadmin hactive).passwords
  | hash hlookup hsave hrevoke hhash =>
    obtain ⟨hfault, rfl, htype, rfl⟩ := hsaved hsave
    rw [hpromoted hlookup hfault htype, sameFlags_revokePasswords, sameFlags_promote hget, AdminEnv.HarmlessReset,
      if_neg (not_not.2 hrevoke), if_pos hhash, and_comm, and_assoc]
    exact and_congr_right fun hadmin => and_congr_right fun hactive =>
      (AdminDb.Ready.promote hrow hadmin hactive).revoked
  | audit hlookup hsave hrevoke hhash hinsert hdb =>
    obtain ⟨hfault, rfl, htype, rfl⟩ := hsaved hsave
    obtain ⟨-, hactors, -, -⟩ := AdminDb.insertPassword_ok hdb
    have hneither : ¬ (env.fault .hash ≠ none ∨ env.fault .insertPassword ≠ none) := by simp [hhash, hinsert]
    rw [hpromoted hlookup hfault htype, sameFlags_congr hactors, sameFlags_revokePasswords, sameFlags_promote hget,
      AdminEnv.HarmlessReset, if_neg (not_not.2 hrevoke), if_neg hneither, and_comm, and_assoc]
    exact and_congr_right fun hadmin => and_congr_right fun hactive =>
      (AdminDb.Ready.promote hrow hadmin hactive).replaced hdb

/-- **When a failed bootstrap was harmless**: nobody's logins and nobody's
flags are other than they were. -/
theorem bootstrap_failed_iff (h : bootstrapAdmin argon2 env handle name password db = (.error e, db')) :
    SameLogins argon2 db db' ∧ SameFlags db db' ↔ env.Harmless argon2 db handle password := by
  have hstopped := bootstrapAdmin_stopped h
  cases hfind : db.findActor handle with
  | none => exact hstopped.of_none hfind
  | some p => exact hstopped.of_some hfind

end

/-- Another process holds the database when the new password is to be stored. -/
def AdminEnv.locked : AdminEnv :=
  .small fun q => if q = .insertPassword then some (.database "database is locked".toList) else none

/-- The first bootstrap of all fails, and may be run again. -/
theorem bootstrap_failed_first :
    ∃ e db', bootstrapAdmin .small .locked "ana".toList none "new".toList .migrated = (.error e, db') ∧
      SameLogins .small .migrated db' ∧ SameFlags .migrated db' := by
  obtain ⟨e, db', h⟩ : ∃ e db',
      bootstrapAdmin .small .locked "ana".toList none "new".toList .migrated = (.error e, db') := ⟨_, _, rfl⟩
  refine ⟨e, db', h, (bootstrap_failed_iff h).2 ?_⟩
  exact .inr (.inr (.inr (.inr (.inr (Option.some_ne_none _)))))

/-- A reset fails after the old password was revoked: the admin, who could log
in before, no longer can. -/
theorem bootstrap_locks_out :
    ∃ db e db', bootstrapAdmin .small (.small fun _ => none) "ana".toList none "old".toList .migrated = (.ok 1, db) ∧
      bootstrapAdmin .small .locked "ana".toList none "new".toList db = (.error e, db') ∧
      db.Accepts .small "ana".toList "old".toList ∧ ¬ db'.Accepts .small "ana".toList "old".toList ∧
      ¬ (SameLogins .small db db' ∧ SameFlags db db') := by
  obtain ⟨db, e, db', hfirst, hreset, hold, hnew⟩ : ∃ db e db',
      bootstrapAdmin .small (.small fun _ => none) "ana".toList none "old".toList .migrated = (.ok 1, db) ∧
      bootstrapAdmin .small .locked "ana".toList none "new".toList db = (.error e, db') ∧
      db.Accepts .small "ana".toList "old".toList ∧ db'.passwords "ana".toList = [] :=
    ⟨_, _, _, rfl, rfl, ⟨_, rfl⟩, rfl⟩
  refine ⟨db, e, db', hfirst, hreset, hold, AdminDb.not_accepts hnew, fun hsame => ?_⟩
  exact AdminDb.not_accepts hnew ((hsame.1 _ _).2 hold)

end Wikikiki
