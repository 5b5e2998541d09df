/-
What a failed `issue_actor_token` leaves behind (actor/mod.rs), and which
tokens of a run have an audit record.

The actor, the token and the record are three inserts, and only the last one
looks at the issuer. `Issuing` lists where a call can end; `issue_error_iff`
says when a failed call added nothing, and `tokens_recorded_iff` when every
token that a run has made is in `admin_audit`.
-/
import Wikikiki.Admin
import Wikikiki.Gate
import Wikikiki.Lib.Run
import Wikikiki.Resolve

namespace Wikikiki

/-! ## One call -/

/-- The call gets to the token: the type is known, and the actor is there. -/
def AdminEnv.Reaches (env : AdminEnv) (input : IssueInput) (db : AdminDb) : Prop :=
  env.fault .actorType = none ∧ db.typeExists input.actorType = true ∧ env.fault .actorByHandle = none ∧
    match db.findActor input.handle with
    | none => env.fault .saveActor = none
    | some (_, row) => row.actorType = input.actorType

/-- The token goes in. -/
def AdminEnv.Mints (env : AdminEnv) (db : AdminDb) : Prop := env.fault .issue = none ∧ db.KeyFree env.bytes

/-- The record does not: the statement fails, or the issuer is nobody, and not
the actor that is made by the call itself either. -/
def AdminEnv.Unrecorded (env : AdminEnv) (input : IssueInput) (db : AdminDb) : Prop :=
  env.fault .logAdmin ≠ none ∨
    db.actors.get input.issuer = none ∧ ¬ (db.findActor input.handle = none ∧ input.issuer = db.actors.nextId)

/-- The call makes a token, and no record of it. -/
def AdminEnv.Orphans (env : AdminEnv) (input : IssueInput) (db : AdminDb) : Prop :=
  env.Reaches input db ∧ env.Mints db ∧ env.Unrecorded input db

/-- The call adds neither actor nor token. -/
def AdminEnv.Refuses (env : AdminEnv) (input : IssueInput) (db : AdminDb) : Prop :=
  env.Reaches input db → db.findActor input.handle ≠ none ∧ ¬ env.Mints db

/-- How a call ends. -/
inductive AdminEnv.Issuing (env : AdminEnv) (ext : Externals) (input : IssueInput) (db : AdminDb) :
    Except AppError (Int × Text) → AdminDb → Prop
  | refused {e : AppError} (href : env.Refuses input db) : Issuing env ext input db (.error e) db
  | actorOnly {e : AppError} {id : Int} {db₁ : AdminDb} (hreach : env.Reaches input db)
    (hnew : db.findActor input.handle = none) (hmint : ¬ env.Mints db)
    (hactor : db.insertActor input.actorType (input.name.getD input.handle) input.handle false env.said =
      .ok (id, db₁)) : Issuing env ext input db (.error e) db₁
  | orphaned {e : AppError} {id : Int} {db₁ db₂ : AdminDb} {issued : IssuedToken} (horphan : env.Orphans input db)
    (haccess : db₁.access = db.access) (haudit : db₁.adminAudit = db.adminAudit)
    (hissue : db₁.issue ext env.bytes id input.label input.expiresAt (env.now .issue) env.said = .ok (issued, db₂)) :
    Issuing env ext input db (.error e) db₂
  | recorded {id : Int} {db₁ db₂ : AdminDb} {issued : IssuedToken} (hrecord : ¬ env.Unrecorded input db)
    (haccess : db₁.access = db.access) (haudit : db₁.adminAudit = db.adminAudit)
    (hissue : db₁.issue ext env.bytes id input.label input.expiresAt (env.now .issue) env.said = .ok (issued, db₂)) :
    Issuing env ext input db (.ok (id, issued.plaintext))
      { db₂ with
        adminAudit := db₂.adminAudit ++
          [issueAudit input.issuer issued.credentialId id input.handle input.label (env.now .logAdmin)] }

section

variable {ext : Externals} {env : AdminEnv} {input : IssueInput} {db db' : AdminDb} {id : Int} {e : AppError}
  {r : Except AppError (Int × Text)}

/-- What the first half of a call leaves. -/
theorem AdminEnv.actorFor_spec
    (h : env.actorFor input.handle input.actorType input.name (db.actorByHandle input.handle) db = (.ok id, db')) :
    db'.access = db.access ∧ db'.adminAudit = db.adminAudit ∧ db'.actors.get id ≠ none ∧
      (db'.actors.get input.issuer = none ↔ db.actors.get input.issuer = none ∧
        ¬ (db.findActor input.handle = none ∧ input.issuer = db.actors.nextId)) ∧
      match db.findActor input.handle with
      | none =>
        env.fault .saveActor = none ∧ db.insertActor input.actorType (input.name.getD input.handle) input.handle false
          env.said = .ok (id, db')
      | some (_, row) => row.actorType = input.actorType ∧ db' = db := by
  have h := AdminEnv.actorFor_ok.1 h
  unfold AdminDb.actorByHandle at h
  cases hf : db.findActor input.handle with
  | none =>
    rw [hf] at h
    obtain ⟨hfault, hinsert⟩ := h
    obtain ⟨rfl, hactors, haccess, haudit⟩ := AdminDb.insertActor_ok hinsert
    refine ⟨haccess, haudit, ?_, ?_, hfault, hinsert⟩
    · rw [hactors, Table.get_insert, Function.update_self]
      exact Option.some_ne_none _
    · rw [hactors, Table.get_insert]
      by_cases hi : input.issuer = db.actors.nextId
      · rw [hi, Function.update_self]
        simp
      · rw [Function.update_of_ne hi]
        simp [hi]
  | some p =>
    obtain ⟨k, row⟩ := p
    rw [hf] at h
    obtain ⟨htype, rfl, rfl⟩ := h
    have hrow : db'.actors.get k = some row := Table.get_eq_some.2 (AdminDb.findActor_eq_some.1 hf).1
    refine ⟨rfl, rfl, ?_, by simp, htype, rfl⟩
    change db'.actors.get k ≠ none
    rw [hrow]
    exact Option.some_ne_none _

theorem AdminEnv.actorFor_fails (hknown : db.typeExists input.actorType = true)
    (h : env.actorFor input.handle input.actorType input.name (db.actorByHandle input.handle) db = (.error e, db')) :
    db' = db ∧
      match db.findActor input.handle with
      | none => env.fault .saveActor ≠ none
      | some (_, row) => row.actorType ≠ input.actorType := by
  obtain ⟨rfl, h⟩ := AdminEnv.actorFor_error.1 h
  refine ⟨rfl, ?_⟩
  unfold AdminDb.actorByHandle at h
  cases hf : db'.findActor input.handle with
  | none =>
    rw [hf] at h
    rcases h with hfault | ⟨-, hinsert⟩
    · rw [hfault]
      exact Option.some_ne_none e
    · unfold AdminDb.typeExists at hknown
      obtain ⟨t, ht, hcode⟩ := List.any_eq_true.1 hknown
      simp only [Bool.and_eq_true, decide_eq_true_eq] at hcode
      exact absurd hcode.1 (AdminDb.insertActor_error hf hinsert t ht)
  | some p =>
    rw [hf] at h
    exact h.1

theorem AdminEnv.not_mints {db₁ : AdminDb} (haccess : db₁.access = db.access) (hthere : db₁.actors.get id ≠ none)
    (h : env.run .issue (fun s => s.issue ext env.bytes id input.label input.expiresAt (env.now .issue) env.said) db₁ =
      (.error e, db')) : db' = db₁ ∧ ¬ env.Mints db := by
  obtain ⟨hor, hdb⟩ := AdminEnv.run_error.1 h
  refine ⟨hdb, fun hmint => ?_⟩
  rcases hor with hfault | ⟨-, hrefused⟩
  · rw [hmint.1] at hfault
    cases hfault
  · rcases AdminDb.issue_error hrefused with htaken | hnone
    · rw [AdminDb.KeyFree, haccess] at htaken
      exact htaken hmint.2
    · exact hthere hnone

section

variable {db₂ : AdminDb} {row : AuditRow} (hrow : row.actorId = input.issuer)
  (hissuer : db₂.actors.get input.issuer = none ↔ db.actors.get input.issuer = none ∧
    ¬ (db.findActor input.handle = none ∧ input.issuer = db.actors.nextId))

include hrow hissuer

theorem AdminEnv.unrecorded_of_error
    (h : env.execute .logAdmin (fun s => s.logAdmin row env.said) db₂ = (.error e, db')) :
    db' = db₂ ∧ env.Unrecorded input db := by
  obtain ⟨hor, hdb⟩ := AdminEnv.execute_error.1 h
  refine ⟨hdb, ?_⟩
  rcases hor with hfault | ⟨-, hrefused⟩
  · exact .inl (by rw [hfault]; exact Option.some_ne_none e)
  · have hnone := AdminDb.logAdmin_error hrefused
    rw [hrow] at hnone
    exact .inr (hissuer.1 hnone)

theorem AdminEnv.recorded_of_ok {u : Unit}
    (h : env.execute .logAdmin (fun s => s.logAdmin row env.said) db₂ = (.ok u, db')) :
    db' = { db₂ with adminAudit := db₂.adminAudit ++ [row] } ∧ ¬ env.Unrecorded input db := by
  obtain ⟨hlogged, hinsert⟩ := AdminEnv.execute_ok.1 h
  obtain ⟨hknown, hdb⟩ := AdminDb.logAdmin_ok hinsert
  refine ⟨hdb, fun hun => ?_⟩
  rcases hun with hfault | hnone
  · exact hfault hlogged
  · rw [hrow] at hknown
    exact hknown (hissuer.2 hnone)

end

theorem issueActorToken_issuing (h : issueActorToken ext env input db = (r, db')) :
    env.Issuing ext input db r db' := by
  rcases Script.bind_eq.1 h with ⟨e, hknown, rfl⟩ | ⟨known, t₁, hknown, h⟩
  · obtain ⟨hfault, rfl⟩ := AdminEnv.run_fault hknown
    exact .refused fun hreach => absurd hreach.1 hfault
  obtain ⟨htype, hdb⟩ := AdminEnv.run_ok.1 hknown
  cases hdb
  by_cases hk : db.typeExists input.actorType = false
  · rw [if_pos hk, Script.fail_apply] at h
    cases h
    refine .refused fun hreach => ?_
    rw [hreach.2.1] at hk
    cases hk
  rw [if_neg hk] at h
  have hexists : db.typeExists input.actorType = true := by simpa using hk
  rcases Script.bind_eq.1 h with ⟨e, hfind, rfl⟩ | ⟨existing, t₂, hfind, h⟩
  · obtain ⟨hfault, rfl⟩ := AdminEnv.run_fault hfind
    exact .refused fun hreach => absurd hreach.2.2.1 hfault
  obtain ⟨hlookup, hdb⟩ := AdminEnv.run_ok.1 hfind
  cases hdb
  rcases Script.bind_eq.1 h with ⟨e, hactor, rfl⟩ | ⟨id, db₁, hactor, h⟩
  · obtain ⟨rfl, hfail⟩ := AdminEnv.actorFor_fails hexists hactor
    refine .refused fun hreach => absurd hreach.2.2.2 ?_
    revert hfail
    cases db'.findActor input.handle with
    | none => exact fun hfail => hfail
    | some p => exact fun hfail => hfail
  obtain ⟨haccess, haudit, hthere, hissuer, hspec⟩ := AdminEnv.actorFor_spec hactor
  have hreach : env.Reaches input db := by
    refine ⟨htype, hexists, hlookup, ?_⟩
    revert hspec
    cases db.findActor input.handle with
    | none => exact fun hspec => hspec.1
    | some p => exact fun hspec => hspec.1
  rcases Script.bind_eq.1 h with ⟨e, hissue, rfl⟩ | ⟨issued, db₂, hissue, h⟩
  · obtain ⟨rfl, hmint⟩ := AdminEnv.not_mints haccess hthere hissue
    cases hf : db.findActor input.handle with
    | none =>
      rw [hf] at hspec
      exact .actorOnly hreach hf hmint hspec.2
    | some p =>
      rw [hf] at hspec
      obtain ⟨-, rfl⟩ := hspec
      exact .refused fun _ => ⟨by rw [hf]; exact Option.some_ne_none p, hmint⟩
  obtain ⟨hfault, hissue⟩ := AdminEnv.run_ok.1 hissue
  obtain ⟨hfree, -, -, hactors, -⟩ := AdminDb.issue_ok hissue
  rw [← hactors] at hissuer
  have hmint : env.Mints db := ⟨hfault, by rwa [AdminDb.KeyFree, haccess] at hfree⟩
  rcases Script.bind_eq.1 h with ⟨e, hlog, rfl⟩ | ⟨_, t₃, hlog, h⟩
  · obtain ⟨rfl, hun⟩ := AdminEnv.unrecorded_of_error rfl hissuer hlog
    exact .orphaned ⟨hreach, hmint, hun⟩ haccess haudit hissue
  · cases h
    obtain ⟨rfl, hun⟩ := AdminEnv.recorded_of_ok rfl hissuer hlog
    exact .recorded hun haccess haudit hissue

/-- Every row of the two tables was there before. -/
structure NothingAdded (db db' : AdminDb) : Prop where
  actors : db'.actors.rows ⊆ db.actors.rows
  credentials : db'.access.credentials.rows ⊆ db.access.credentials.rows

theorem issue_error_iff (h : issueActorToken ext env input db = (.error e, db')) :
    NothingAdded db db' ↔ env.Refuses input db := by
  cases issueActorToken_issuing h with
  | refused href => exact iff_of_true ⟨List.Subset.refl _, List.Subset.refl _⟩ href
  | actorOnly hreach hnew hmint hactor =>
    obtain ⟨-, hactors, -, -⟩ := AdminDb.insertActor_ok hactor
    refine iff_of_false (fun hadd => ?_) fun href => (href hreach).1 hnew
    have hsub := hadd.actors
    rw [hactors] at hsub
    exact Table.not_subset_insert _ _ hsub
  | orphaned horphan haccess haudit hissue =>
    obtain ⟨-, -, hcredentials, -, -⟩ := AdminDb.issue_ok hissue
    refine iff_of_false (fun hadd => ?_) fun href => (href horphan.1).2 horphan.2.1
    have hsub := hadd.credentials
    rw [hcredentials, haccess] at hsub
    exact Table.not_subset_insert _ _ hsub

end

/-! ## Runs -/

/-- What the program does to these tables: the two commands, the actor that
`issue-token` makes for itself, and what the server does to the credentials
and the sessions. -/
inductive AdminAction where
  | bootstrap (argon2 : Argon2) (env : AdminEnv) (handle : Text) (name : Option Text) (password : Text)
  | issueToken (ext : Externals) (env : AdminEnv) (input : IssueInput)
  | insertActor (actorType name handle : Text) (isAdmin : Bool) (said : Text)
  | upgrade (id : Int) (digest : Text)
  | touch (id now : Int)
  | revoke (id now : Int)
  | createSession (sid : Text) (actorId now lifetime : Int) (said : Text)
  | revokeSession (sid : Text) (now : Int)

/-- The table keeps its rows, with other values in columns that do not say
whose credential it is or of what kind. -/
structure Access.SameOwners (acc acc' : Access) : Prop where
  rows : acc'.credentials.rows.map (fun p => (p.1, p.2.actorId, p.2.kind)) =
    acc.credentials.rows.map fun p => (p.1, p.2.actorId, p.2.kind)

theorem Access.SameOwners.of_map {acc acc' : Access} (f : Int × CredentialRow → Int × CredentialRow)
    (hrows : acc'.credentials.rows = acc.credentials.rows.map f)
    (hf : ∀ p, ((f p).1, (f p).2.actorId, (f p).2.kind) = (p.1, p.2.actorId, p.2.kind)) : acc.SameOwners acc' := by
  refine ⟨?_⟩
  rw [hrows, List.map_map]
  exact List.map_congr_left fun p _ => hf p

theorem Access.SameOwners.update (acc : Access) (id : Int) {f : CredentialRow → CredentialRow}
    (hf : ∀ r, (f r).lookupKey = r.lookupKey) (hactor : ∀ r, (f r).actorId = r.actorId)
    (hkind : ∀ r, (f r).kind = r.kind) : acc.SameOwners (acc.update id f hf) := by
  refine .of_map _ rfl fun p => ?_
  dsimp only
  split
  · rw [hactor, hkind]
  · rfl

theorem Access.SameOwners.of_credentials {acc acc' : Access} (h : acc'.credentials = acc.credentials) :
    acc.SameOwners acc' := ⟨by rw [h]⟩

/-- A change of the server's. -/
def AdminDb.serve (db : AdminDb) (access : Access) (h : db.access.SameOwners access) : AdminDb :=
  { db with
    access
    ownedCredential := by
      intro p hp
      have hm := List.mem_map_of_mem (f := fun p : Int × CredentialRow => (p.1, p.2.actorId, p.2.kind)) hp
      rw [h.rows] at hm
      obtain ⟨q, hq, he⟩ := List.mem_map.1 hm
      simp only [Prod.mk.injEq] at he
      rw [← he.2.1]
      exact db.ownedCredential q hq }

theorem Access.SameOwners.revoke {acc acc' : Access} {id now : Int} (h : acc.revoke id now = .ok acc') :
    acc.SameOwners acc' := by
  unfold Access.revoke at h
  split at h <;> cases h
  exact .update acc id _ (fun _ => rfl) fun _ => rfl

theorem Access.SameOwners.createSession {acc acc' : Access} {actors : Table ActorRow} {sid : Text}
    {actorId now lifetime : Int} {said : Text}
    (h : acc.createSession actors sid actorId now lifetime said = .ok acc') : acc.SameOwners acc' := by
  unfold Access.createSession at h
  split at h
  · split at h <;> cases h
    exact .of_credentials rfl
  · cases h

theorem Access.SameOwners.revokePasswords (acc : Access) (actorId now : Int) :
    acc.SameOwners (acc.revokePasswords actorId now) := by
  refine .of_map _ rfl fun p => ?_
  dsimp only
  split <;> rfl

/-- One step; what is refused changes nothing. -/
def AdminDb.step (db : AdminDb) : AdminAction → Option AdminDb
  | .bootstrap argon2 env handle name password => some (bootstrapAdmin argon2 env handle name password db).2
  | .issueToken ext env input => some (issueActorToken ext env input db).2
  | .insertActor actorType name handle isAdmin said =>
    match db.insertActor actorType name handle isAdmin said with
    | .ok (_, db') => some db'
    | .error _ => some db
  | .upgrade id digest =>
    some (db.serve (db.access.setSecretHash id digest) (.update db.access id _ (fun _ => rfl) fun _ => rfl))
  | .touch id now => some (db.serve (db.access.touch id now) (.update db.access id _ (fun _ => rfl) fun _ => rfl))
  | .revoke id now =>
    match h : db.access.revoke id now with
    | .ok access => some (db.serve access (.revoke h))
    | .error _ => some db
  | .createSession sid actorId now lifetime said =>
    match h : db.access.createSession db.actors sid actorId now lifetime said with
    | .ok access => some (db.serve access (.createSession h))
    | .error _ => some db
  | .revokeSession sid now => some (db.serve (db.access.revokeSession sid now) (.of_credentials rfl))

/-! ## Records -/

/-- The credential is a token. -/
def AdminDb.IsToken (db : AdminDb) (id : Int) : Prop :=
  ∃ c, (id, c) ∈ db.access.credentials.rows ∧ c.kind = "token".toList

/-- The row says that the credential was issued. -/
def AuditRow.recordsToken (id : Int) (r : AuditRow) : Bool :=
  r.operation = "issue_token".toList && r.target = "credentials:".toList ++ Json.ofInt id

/-- How many rows of `admin_audit` say so. -/
def AdminDb.records (db : AdminDb) (id : Int) : Nat := db.adminAudit.countP (AuditRow.recordsToken id)

/-- Every token has exactly one record. -/
def AdminDb.Recorded (db : AdminDb) : Prop := ∀ id, db.IsToken id → db.records id = 1

/-- No credential is on record before it exists. -/
def AdminDb.Foreseen (db : AdminDb) : Prop := ∀ id, db.access.credentials.nextId ≤ id → db.records id = 0

/-- Nothing has happened to the tokens and their records. -/
structure AdminDb.Quiet (db db' : AdminDb) : Prop where
  tokens : ∀ id, db'.IsToken id ↔ db.IsToken id
  records : ∀ id, db'.records id = db.records id
  nextId : db.access.credentials.nextId ≤ db'.access.credentials.nextId

/-- One token more, with `n` records. -/
structure AdminDb.Minted (db db' : AdminDb) (n : Nat) : Prop where
  tokens : ∀ id, db'.IsToken id ↔ db.IsToken id ∨ id = db.access.credentials.nextId
  records : ∀ id, db'.records id = db.records id + if id = db.access.credentials.nextId then n else 0
  nextId : db'.access.credentials.nextId = db.access.credentials.nextId + 1

section

variable {db db' db'' : AdminDb} {n : Nat}

theorem AdminDb.Quiet.refl (db : AdminDb) : db.Quiet db := ⟨fun _ => Iff.rfl, fun _ => rfl, Int.le_refl _⟩

theorem AdminDb.Quiet.trans (h : db.Quiet db') (h' : db'.Quiet db'') : db.Quiet db'' :=
  ⟨fun id => (h'.tokens id).trans (h.tokens id), fun id => (h'.records id).trans (h.records id),
    Int.le_trans h.nextId h'.nextId⟩

theorem AdminDb.Quiet.recorded (h : db.Quiet db') : db'.Recorded ↔ db.Recorded := by
  simp only [Recorded, h.tokens, h.records]

theorem AdminDb.Quiet.foreseen (h : db.Quiet db') (hf : db.Foreseen) : db'.Foreseen := by
  intro id hid
  rw [h.records]
  exact hf id (Int.le_trans h.nextId hid)

theorem AdminDb.Minted.foreseen (h : db.Minted db' n) (hf : db.Foreseen) : db'.Foreseen := by
  intro id hid
  rw [h.nextId] at hid
  rw [h.records, if_neg (by omega), hf id (by omega)]

/-- The new token has as many records as were made. -/
theorem AdminDb.Minted.recorded (h : db.Minted db' n) (hf : db.Foreseen) :
    db'.Recorded ↔ db.Recorded ∧ n = 1 := by
  have hold : ∀ id, db.IsToken id → id ≠ db.access.credentials.nextId := by
    intro id hid
    obtain ⟨c, hc, -⟩ := hid
    have hlt : id < db.access.credentials.nextId := db.access.credentials.lt_nextId hc
    omega
  constructor
  · intro hr
    constructor
    · intro id hid
      have hone := hr id ((h.tokens id).2 (.inl hid))
      rwa [h.records, if_neg (hold id hid)] at hone
    · have hone := hr _ ((h.tokens _).2 (.inr rfl))
      rwa [h.records, if_pos rfl, hf _ (Int.le_refl _), Nat.zero_add] at hone
  · intro hr id hid
    rw [h.records]
    rcases (h.tokens id).1 hid with hid | rfl
    · rw [if_neg (hold id hid), hr.1 id hid]
    · rw [if_pos rfl, hf _ (Int.le_refl _), hr.2]

/-! ## What a statement does to them -/

theorem AdminDb.records_congr (h : db'.adminAudit = db.adminAudit) (id : Int) : db'.records id = db.records id := by
  unfold AdminDb.records
  rw [h]

theorem AdminDb.isToken_iff (id : Int) : db.IsToken id ↔
    ∃ a, (id, a, "token".toList) ∈ db.access.credentials.rows.map fun p => (p.1, p.2.actorId, p.2.kind) := by
  constructor
  · intro h
    obtain ⟨c, hc, hkind⟩ := h
    exact ⟨c.actorId, List.mem_map.2 ⟨(id, c), hc, by rw [hkind]⟩⟩
  · intro h
    obtain ⟨a, ha⟩ := h
    obtain ⟨p, hp, he⟩ := List.mem_map.1 ha
    simp only [Prod.mk.injEq] at he
    exact ⟨p.2, he.1 ▸ hp, he.2.2⟩

theorem AdminDb.Quiet.of_access (haudit : db'.adminAudit = db.adminAudit)
    (haccess : db.access.SameOwners db'.access) : db.Quiet db' := by
  refine ⟨fun id => ?_, records_congr haudit, Int.le_of_eq (Table.nextId_congr ?_)⟩
  · rw [isToken_iff, haccess.rows, isToken_iff]
  · have hkeys := congrArg (List.map Prod.fst) haccess.rows
    rw [List.map_map, List.map_map] at hkeys
    exact hkeys.symm

theorem AdminDb.Quiet.insertActor {actorType name handle said : Text} {isAdmin : Bool} {id : Int}
    (h : db.insertActor actorType name handle isAdmin said = .ok (id, db')) : db.Quiet db' := by
  obtain ⟨-, -, haccess, haudit⟩ := AdminDb.insertActor_ok h
  exact .of_access haudit (.of_credentials (by rw [haccess]))

theorem AdminDb.isToken_insert {c : CredentialRow}
    (h : db'.access.credentials = db.access.credentials.insert c) (id : Int) :
    db'.IsToken id ↔ db.IsToken id ∨ id = db.access.credentials.nextId ∧ c.kind = "token".toList := by
  unfold IsToken
  rw [h, Table.rows_insert]
  simp only [List.mem_append, List.mem_singleton, Prod.mk.injEq, or_and_right, exists_or]
  simp only [and_assoc, exists_and_left, exists_eq_left]

theorem AdminDb.Quiet.insertPassword {actorId now : Int} {pwHash said : Text}
    (h : db.insertPassword actorId pwHash now said = .ok db') : db.Quiet db' := by
  obtain ⟨-, -, hcredentials, haudit⟩ := AdminDb.insertPassword_ok h
  have hkind : (passwordRow actorId pwHash now).kind ≠ "token".toList :=
    show "password".toList ≠ "token".toList by decide
  refine ⟨fun id => ?_, records_congr haudit, ?_⟩
  · rw [isToken_insert hcredentials, or_iff_left fun h => hkind h.2]
  · rw [hcredentials, Table.nextId_insert]
    omega

theorem AuditRow.recordsToken_iff {r : AuditRow} {id : Int} : r.recordsToken id = true ↔
    r.operation = "issue_token".toList ∧ r.target = "credentials:".toList ++ Json.ofInt id := by
  rw [recordsToken, Bool.and_eq_true, decide_eq_true_eq, decide_eq_true_eq]

theorem AdminDb.records_append {row : AuditRow} (h : db'.adminAudit = db.adminAudit ++ [row]) (id : Int) :
    db'.records id = db.records id + if row.recordsToken id then 1 else 0 := by
  unfold AdminDb.records
  rw [h, List.countP_append, List.countP_singleton]

theorem AdminDb.Quiet.logAdmin {row : AuditRow} {said : Text} (hrow : row.operation ≠ "issue_token".toList)
    (h : db.logAdmin row said = .ok db') : db.Quiet db' := by
  obtain ⟨-, rfl⟩ := AdminDb.logAdmin_ok h
  refine ⟨fun _ => Iff.rfl, fun id => ?_, Int.le_refl _⟩
  rw [records_append rfl, if_neg fun hr => hrow (AuditRow.recordsToken_iff.1 hr).1, Nat.add_zero]

/-! ## What a command does to them -/

theorem AdminEnv.keeps_run {env : AdminEnv} {q : AdminStatement} {α : Type} {I : AdminDb → Prop}
    {f : AdminDb → Except AppError (α × AdminDb)} (hf : ∀ s a s', f s = .ok (a, s') → I s → I s') :
    Script.Keeps I (env.run q f) := by
  refine Script.keeps_stmt fun s a s' h => ?_
  split at h
  · cases h
  · exact hf s a s' h

theorem AdminEnv.keeps_execute {env : AdminEnv} {q : AdminStatement} {I : AdminDb → Prop}
    {f : AdminDb → Except AppError AdminDb} (hf : ∀ s s', f s = .ok s' → I s → I s') :
    Script.Keeps I (env.execute q f) := by
  refine keeps_run fun s a s' h => hf s s' ?_
  cases hs : f s with
  | error e => rw [hs] at h; cases h
  | ok t => rw [hs] at h; cases h; rfl

theorem AdminDb.Quiet.promote (db : AdminDb) (id : Int) : db.Quiet (db.promote id) :=
  .of_access rfl (.of_credentials rfl)

theorem AdminDb.Quiet.revokePasswords (db : AdminDb) (id now : Int) : db.Quiet (db.revokePasswords id now) :=
  .of_access rfl (.revokePasswords db.access id now)

theorem AdminEnv.keeps_saveAdmin (env : AdminEnv) (handle : Text) (name : Option Text) (existing : Option Actor) :
    Script.Keeps db.Quiet (env.saveAdmin handle name existing) := by
  intro s hs
  cases hend : env.saveAdmin handle name existing s with
  | mk r t =>
    cases r with
    | error e => rwa [(AdminEnv.saveAdmin_error.1 hend).1]
    | ok id =>
      have hend := (AdminEnv.saveAdmin_ok.1 hend).2
      cases existing with
      | some a => exact hend.2.2 ▸ hs.trans (.promote s id)
      | none => exact hs.trans (.insertActor hend)

/-- A bootstrap makes no token and records none. -/
theorem AdminDb.Quiet.bootstrapAdmin (db : AdminDb) (argon2 : Argon2) (env : AdminEnv) (handle : Text)
    (name : Option Text) (password : Text) :
    db.Quiet (Wikikiki.bootstrapAdmin argon2 env handle name password db).2 := by
  have hkeeps : Script.Keeps db.Quiet (Wikikiki.bootstrapAdmin argon2 env handle name password) := by
    refine Script.keeps_bind (AdminEnv.keeps_run fun s _ s' h hs => ?_) fun existing =>
      Script.keeps_bind (env.keeps_saveAdmin handle name existing) fun id =>
      Script.keeps_bind (AdminEnv.keeps_execute fun s s' h hs => ?_) fun _ =>
      Script.keeps_bind (AdminEnv.keeps_run fun s _ s' h hs => ?_) fun pwHash =>
      Script.keeps_bind (AdminEnv.keeps_execute fun s s' h hs => hs.trans (.insertPassword h)) fun _ =>
      Script.keeps_bind (AdminEnv.keeps_execute fun s s' h hs => hs.trans (.logAdmin ?_ h)) fun _ =>
      Script.keeps_pure id
    · cases h
      exact hs
    · cases h
      exact hs.trans (.revokePasswords s id _)
    · cases h
      exact hs
    · exact show "bootstrap".toList ≠ "issue_token".toList by decide
  exact hkeeps db (.refl db)

/-- The token of a call that got to it, with no record yet. -/
theorem AdminDb.Minted.issue {db₁ : AdminDb} {ext : Externals} {bytes : TokenBytes} {actorId now : Int}
    {label : Option Text} {expiresAt : Option Int} {said : Text} {issued : IssuedToken}
    (haccess : db₁.access = db.access) (haudit : db₁.adminAudit = db.adminAudit)
    (h : db₁.issue ext bytes actorId label expiresAt now said = .ok (issued, db')) : db.Minted db' 0 := by
  obtain ⟨-, -, hcredentials, -, haudit'⟩ := AdminDb.issue_ok h
  rw [haccess] at hcredentials
  refine ⟨fun id => ?_, fun id => ?_, ?_⟩
  · rw [isToken_insert hcredentials, and_iff_left (show (bytes.row ..).kind = "token".toList from rfl)]
  · rw [records_congr (haudit'.trans haudit), ite_self, Nat.add_zero]
  · rw [hcredentials, Table.nextId_insert]

/-- A call that succeeds records the token that it made. -/
theorem AdminDb.Minted.record {row : AuditRow} (h : db.Minted db' 0)
    (hrow : ∀ id, row.recordsToken id = true ↔ id = db.access.credentials.nextId)
    (haudit : db''.adminAudit = db'.adminAudit ++ [row]) (haccess : db''.access = db'.access) : db.Minted db'' 1 := by
  refine ⟨fun id => ?_, fun id => ?_, ?_⟩
  · rw [← h.tokens]
    unfold IsToken
    rw [haccess]
  · rw [records_append haudit, h.records, ite_self, Nat.add_zero]
    simp only [hrow]
  · rw [haccess, h.nextId]

/-- What a call does, by whether it leaves a token without a record. -/
theorem issueActorToken_minted (db : AdminDb) (ext : Externals) (env : AdminEnv) (input : IssueInput) :
    env.Orphans input db ∧ db.Minted (issueActorToken ext env input db).2 0 ∨
      ¬ env.Orphans input db ∧ (db.Quiet (issueActorToken ext env input db).2 ∨
        db.Minted (issueActorToken ext env input db).2 1) := by
  cases hend : issueActorToken ext env input db with
  | mk r db' =>
    cases issueActorToken_issuing hend with
    | refused href => exact .inr ⟨fun ho => (href ho.1).2 ho.2.1, .inl (.refl db)⟩
    | actorOnly hreach hnew hmint hactor => exact .inr ⟨fun ho => hmint ho.2.1, .inl (.insertActor hactor)⟩
    | orphaned horphan haccess haudit hissue => exact .inl ⟨horphan, .issue haccess haudit hissue⟩
    | recorded hrecord haccess haudit hissue =>
      refine .inr ⟨fun ho => hrecord ho.2.2, .inr ?_⟩
      refine (AdminDb.Minted.issue haccess haudit hissue).record (fun id => ?_) rfl rfl
      obtain ⟨-, hid, -⟩ := AdminDb.issue_ok hissue
      rw [AuditRow.recordsToken_iff, ← haccess, ← hid]
      constructor
      · intro hrow
        exact (Json.ofInt_injective (List.append_cancel_left hrow.2)).symm
      · rintro rfl
        exact ⟨rfl, rfl⟩

/-! ## What a step does to them -/

/-- The action is a call that leaves a token without a record. -/
def AdminAction.Orphans (db : AdminDb) : AdminAction → Prop
  | .issueToken _ env input => env.Orphans input db
  | _ => False

theorem AdminDb.Quiet.serve (db : AdminDb) (access : Access) (h : db.access.SameOwners access) :
    db.Quiet (db.serve access h) := .of_access rfl h

theorem AdminDb.step_cases {a : AdminAction} (h : db.step a = some db') :
    a.Orphans db ∧ db.Minted db' 0 ∨ ¬ a.Orphans db ∧ (db.Quiet db' ∨ db.Minted db' 1) := by
  have hquiet : ∀ {a : AdminAction}, a.Orphans db = False → db.Quiet db' →
      a.Orphans db ∧ db.Minted db' 0 ∨ ¬ a.Orphans db ∧ (db.Quiet db' ∨ db.Minted db' 1) := by
    intro a ha hq
    exact .inr ⟨by simp [ha], .inl hq⟩
  cases a with
  | bootstrap argon2 env handle name password =>
    cases h
    exact hquiet rfl (.bootstrapAdmin db argon2 env handle name password)
  | issueToken ext env input =>
    cases h
    exact issueActorToken_minted db ext env input
  | insertActor actorType name handle isAdmin said =>
    simp only [step] at h
    split at h
    · next hinsert =>
      cases h
      exact hquiet rfl (.insertActor hinsert)
    · cases h
      exact hquiet rfl (.refl db)
  | upgrade id digest | touch id now | revokeSession sid now =>
    cases h
    exact hquiet rfl (.serve db _ _)
  | revoke id now | createSession sid actorId now lifetime said =>
    simp only [step] at h
    split at h <;> cases h
    · exact hquiet rfl (.serve db _ _)
    · exact hquiet rfl (.refl db)

theorem AdminDb.step_recorded {a : AdminAction} (h : db.step a = some db') (hf : db.Foreseen) :
    db'.Foreseen ∧ (db'.Recorded ↔ db.Recorded ∧ ¬ a.Orphans db) := by
  rcases step_cases h with ⟨horphan, hmint⟩ | ⟨horphan, hquiet | hmint⟩
  · refine ⟨hmint.foreseen hf, ?_⟩
    rw [hmint.recorded hf]
    simp [horphan]
  · refine ⟨hquiet.foreseen hf, ?_⟩
    rw [hquiet.recorded, and_iff_left horphan]
  · refine ⟨hmint.foreseen hf, ?_⟩
    rw [hmint.recorded hf]
    simp [horphan]

abbrev AdminDb.run : AdminDb → List AdminAction → Option AdminDb := Run.run AdminDb.step

theorem migrated_foreseen : AdminDb.migrated.Foreseen := fun _ _ => rfl

theorem migrated_recorded : AdminDb.migrated.Recorded := by
  intro id hid
  obtain ⟨_, hc, -⟩ := hid
  exact absurd hc List.not_mem_nil

/-- Every token that a run has made is on record just when no call of the run
left one without. -/
theorem tokens_recorded_iff {as : List AdminAction} (hr : AdminDb.migrated.run as = some db) :
    db.Recorded ↔ Run.Every AdminDb.step (fun t a => ¬ a.Orphans t) .migrated as := by
  rw [Run.every_iff AdminDb.step_recorded hr migrated_foreseen, and_iff_right migrated_recorded]

/-- **Tokens and their records.** A call that fails has added nothing just when
it did not get to the token, or was for an actor that was there and whose
token did not go in. The tokens of a run are all on record, once each, just
when no call of it failed between the token and the record. -/
theorem issue_atomic_iff {ext : Externals} {env : AdminEnv} {input : IssueInput} {e : AppError}
    (h : issueActorToken ext env input db = (.error e, db')) {as : List AdminAction} {s : AdminDb}
    (hr : AdminDb.migrated.run as = some s) :
    (NothingAdded db db' ↔ env.Refuses input db) ∧
      (s.Recorded ↔ Run.Every AdminDb.step (fun t a => ¬ a.Orphans t) .migrated as) :=
  ⟨issue_error_iff h, tokens_recorded_iff hr⟩

end

/-- A token for a new agent. -/
def IssueInput.small (actorType : Text) (issuer : Int) : IssueInput where
  handle := "bot".toList
  actorType
  name := none
  label := none
  expiresAt := none
  issuer

/-- An admin, and a token that the admin issues. -/
def AdminAction.first : List AdminAction :=
  [.bootstrap .small (.small fun _ => none) "ana".toList none "hunter2".toList,
    .issueToken .small (.small fun _ => none) (.small "agent".toList 1)]

theorem issue_atomic_small :
    ∃ e db' s, issueActorToken .small (.small fun _ => none) (.small "robot".toList 1) .migrated = (.error e, db') ∧
      AdminDb.migrated.run AdminAction.first = some s ∧ NothingAdded .migrated db' ∧ s.IsToken 2 ∧ s.Recorded := by
  obtain ⟨e, db', h⟩ : ∃ e db', issueActorToken .small (.small fun _ => none) (.small "robot".toList 1) .migrated =
      (.error e, db') := ⟨_, _, rfl⟩
  obtain ⟨t, s, ht, hs, hactor, htoken⟩ : ∃ t s,
      AdminDb.migrated.step (.bootstrap .small (.small fun _ => none) "ana".toList none "hunter2".toList) = some t ∧
      t.step (.issueToken .small (.small fun _ => none) (.small "agent".toList 1)) = some s ∧
      (t.actors.get 1).isSome = true ∧ (s.access.credentials.get 2).map CredentialRow.kind = some "token".toList :=
    ⟨_, _, rfl, rfl, rfl, rfl⟩
  have hr : AdminDb.migrated.run AdminAction.first = some s :=
    Run.run_cons.2 ⟨t, ht, Run.run_cons.2 ⟨s, hs, rfl⟩⟩
  obtain ⟨hadded, hrecorded⟩ := issue_atomic_iff h hr
  refine ⟨e, db', s, h, hr, hadded.2 fun hreach => ?_, ?_, hrecorded.2 ?_⟩
  · exact absurd hreach.2.1 (by decide)
  · obtain ⟨c, hc, hkind⟩ := Option.map_eq_some_iff.1 htoken
    exact ⟨c, Table.get_eq_some.1 hc, hkind⟩
  · rw [AdminAction.first, Run.every_cons ht, Run.every_cons hs]
    refine ⟨fun ho => ho, fun ho => ?_, Run.every_nil⟩
    rcases ho.2.2 with hfault | hnone
    · exact hfault rfl
    · exact absurd hnone.1 (Option.isSome_iff_ne_none.1 hactor)

/-- The issuer is nobody: the token is there, and no record of it. -/
theorem issue_orphan :
    ∃ e db', issueActorToken .small (.small fun _ => none) (.small "agent".toList 7) .migrated = (.error e, db') ∧
      AdminDb.migrated.run [.issueToken .small (.small fun _ => none) (.small "agent".toList 7)] = some db' ∧
      ¬ NothingAdded .migrated db' ∧ db'.IsToken 1 ∧ ¬ db'.Recorded := by
  obtain ⟨e, db', h, hr, htoken, haudit⟩ : ∃ e db',
      issueActorToken .small (.small fun _ => none) (.small "agent".toList 7) .migrated = (.error e, db') ∧
      AdminDb.migrated.run [.issueToken .small (.small fun _ => none) (.small "agent".toList 7)] = some db' ∧
      (db'.access.credentials.get 1).map CredentialRow.kind = some "token".toList ∧ db'.adminAudit = [] :=
    ⟨_, _, rfl, rfl, rfl, rfl⟩
  obtain ⟨c, hc, hkind⟩ := Option.map_eq_some_iff.1 htoken
  have hm := Table.get_eq_some.1 hc
  refine ⟨e, db', h, hr, fun hadd => ?_, ⟨c, hm, hkind⟩, fun hrec => ?_⟩
  · exact absurd (hadd.credentials hm) List.not_mem_nil
  · have hone := hrec 1 ⟨c, hm, hkind⟩
    rw [AdminDb.records, haudit] at hone
    exact absurd hone (by decide)

end Wikikiki
