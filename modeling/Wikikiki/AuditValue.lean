/-
What the two commands write to `admin_audit` as the value after them
(actor/mod.rs), read back as JSON.

`issue_actor_token` has serde write its label, `bootstrap_admin` puts the handle
between two quotes as it is: `audit_values_iff` says for which handles the row
still says what was done.
-/
import Mathlib.Data.List.Permutation
import Wikikiki.Admin
import Wikikiki.Gate

namespace Wikikiki

/-! ## The rows of a command -/

section

variable {env : AdminEnv} {handle actorType : Text} {name : Option Text} {existing : Option Actor} {id : Int}
  {db db' : AdminDb}

theorem AdminEnv.saveAdmin_audit (h : env.saveAdmin handle name existing db = (.ok id, db')) :
    db'.adminAudit = db.adminAudit := by
  have h := (AdminEnv.saveAdmin_ok.1 h).2
  cases existing with
  | some a => rw [h.2.2, AdminDb.promote]
  | none => exact (AdminDb.insertActor_ok h).2.2.2

theorem AdminEnv.actorFor_audit (h : env.actorFor handle actorType name existing db = (.ok id, db')) :
    db'.adminAudit = db.adminAudit := by
  have h := AdminEnv.actorFor_ok.1 h
  cases existing with
  | some a => rw [h.2.2]
  | none => exact (AdminDb.insertActor_ok h.2).2.2.2

theorem bootstrapAdmin_audit {argon2 : Argon2} {password : Text}
    (h : bootstrapAdmin argon2 env handle name password db = (.ok id, db')) :
    db'.adminAudit = db.adminAudit ++ [bootstrapAudit id handle (env.now .logAdmin)] := by
  obtain ⟨db₁, db₂, hsave, hinsert, hlog⟩ := bootstrapAdmin_ok h
  obtain ⟨-, -, -, haudit⟩ := AdminDb.insertPassword_ok hinsert
  rw [(AdminDb.logAdmin_ok hlog).2, haudit, AdminDb.revokePasswords, AdminEnv.saveAdmin_audit hsave]

theorem issueActorToken_audit {ext : Externals} {input : IssueInput} {r : Int × Text}
    (h : issueActorToken ext env input db = (.ok r, db')) :
    ∃ credentialId, db'.adminAudit = db.adminAudit ++
      [issueAudit input.issuer credentialId r.1 input.handle input.label (env.now .logAdmin)] := by
  obtain ⟨db₁, db₂, issued, hactor, hissue, hlog⟩ := issueActorToken_ok h
  obtain ⟨-, -, -, -, haudit⟩ := AdminDb.issue_ok hissue
  refine ⟨issued.credentialId, ?_⟩
  rw [(AdminDb.logAdmin_ok hlog).2, haudit, AdminEnv.actorFor_audit hactor]

end

/-! ## The values -/

section

variable {handle : Text} {ms : List (Text × Json)}

/-- The row's value is an object of these members, in whatever order. -/
def AuditRow.Says (row : AuditRow) (members : List (Text × Json)) : Prop :=
  ∃ ms, row.afterValue.bind Json.decode = some (.object ms) ∧ ms.Perm members

/-- What a bootstrap has to say. -/
def adminMembers (handle : Text) : List (Text × Json) :=
  [("handle".toList, .string handle), ("is_admin".toList, .bool true)]

/-- What an issued token has to say. -/
def tokenMembers (actorId : Int) (label : Option Text) : List (Text × Json) :=
  [("actor_id".toList, .number (Json.ofInt actorId)), ("label".toList, (label.map Json.string).getD .null)]

/-- What stands behind the handle. -/
def bootstrapTail : Text := "\",\"is_admin\":true\x7d".toList

theorem bootstrapValue_eq (handle : Text) :
    bootstrapValue handle = '{' :: (Json.quote "handle".toList ++ ':' :: '"' :: (handle ++ bootstrapTail)) := by
  have hname : Json.quote "handle".toList = "\"handle\"".toList := rfl
  rw [hname]
  unfold bootstrapValue bootstrapTail
  simp

theorem bootstrapTail_eq :
    bootstrapTail = '"' :: ',' :: (Json.quote "is_admin".toList ++ ':' :: "true\x7d".toList) := rfl

theorem length_bootstrapValue (handle : Text) : (bootstrapValue handle).length = handle.length + 29 := by
  unfold bootstrapValue
  simp

theorem decode_bootstrapValue (h : Json.Plain handle) :
    Json.decode (bootstrapValue handle) = some (.object (adminMembers handle)) := by
  have hquote : '"' :: (handle ++ bootstrapTail) =
      Json.quote handle ++ ',' :: (Json.quote "is_admin".toList ++ ':' :: "true\x7d".toList) := by
    rw [h.quote, bootstrapTail_eq]
    simp
  have hn : (bootstrapValue handle).length + 1 = handle.length + 26 + 4 := by rw [length_bootstrapValue]
  refine Json.decode_eq_some.2 ⟨[], ?_, rfl⟩
  rw [hn, bootstrapValue_eq, hquote, Json.readValue_object, Json.readMembers_quote, Json.readValue_quote]
  simp only [Json.skipSpace_cons (show Json.isSpace ',' = false by decide), Json.readMembers_quote]
  rfl

/-- What is read as the handle takes all that stands before the tail, so it
stands there as it is. -/
theorem plain_of_decode (h : Json.decode (bootstrapValue handle) = some (.object ms))
    (hms : ms.Perm (adminMembers handle)) : Json.Plain handle := by
  have hn : (bootstrapValue handle).length + 1 = handle.length + 26 + 4 := by rw [length_bootstrapValue]
  obtain ⟨rest, hread, -⟩ := Json.decode_eq_some.1 h
  rw [hn, bootstrapValue_eq, Json.readValue_object] at hread
  simp only [Option.map_eq_some_iff, Prod.mk.injEq, Json.object.injEq] at hread
  obtain ⟨p, hp, rfl, rfl⟩ := hread
  obtain ⟨value, t, hv, hor⟩ := Json.readMembers_cons (show Json.readMembers (handle.length + 29) _ = some (p.1, p.2) from hp)
  obtain ⟨v, rfl, hstring⟩ := Json.readValue_string hv
  rcases hor with hone | ⟨u, tail, hu, htail, hcons⟩
  · rw [hone] at hms
    exact absurd hms.length_eq (by simp [adminMembers])
  · -- The first member is the handle, so the other one is the flag.
    have hpair : v = handle ∧ tail = [("is_admin".toList, .bool true)] := by
      rw [hcons] at hms
      rcases List.perm_pair.1 hms with heq | heq
      · simp only [List.cons.injEq, Prod.mk.injEq, Json.string.injEq] at heq
        exact ⟨heq.1.2, heq.2⟩
      · simp at heq
    obtain ⟨rfl, rfl⟩ := hpair
    have hflag := Json.readMembers_true htail
    obtain ⟨hle, heq⟩ := Json.readString_spec hstring
    have hspace := Json.skipSpace_length t
    have htail : bootstrapTail.length = 18 := by decide
    have hname : "is_admin".toList.length = 8 := by decide
    rw [hu, List.length_cons] at hspace
    rw [hname] at hflag
    rw [List.length_append, htail] at hle heq
    exact (heq (by omega)).2

theorem decode_issueValue (actorId : Int) (label : Option Text) :
    Json.decode (issueValue actorId label) = some (.object (tokenMembers actorId label)) := by
  have hvalue : issueValue actorId label = '{' :: (Json.quote "actor_id".toList ++ ':' ::
      (Json.ofInt actorId ++ ',' :: (Json.quote "label".toList ++ ':' :: (labelJson label ++ ['}'])))) := by
    have hid : Json.quote "actor_id".toList = "\"actor_id\"".toList := rfl
    have hlabel : Json.quote "label".toList = "\"label\"".toList := rfl
    rw [hid, hlabel]
    unfold issueValue
    simp
  obtain ⟨n, hn⟩ : ∃ n, (issueValue actorId label).length + 1 = n + 4 := by
    refine ⟨(issueValue actorId label).length - 3, ?_⟩
    unfold issueValue
    simp
  have hread : Json.readValue (n + 1) (labelJson label ++ ['}']) =
      some ((label.map Json.string).getD .null, ['}']) := by
    cases label with
    | some label => exact Json.readValue_quote label ['}']
    | none => rfl
  refine Json.decode_eq_some.2 ⟨[], ?_, rfl⟩
  rw [hn, hvalue, Json.readValue_object, Json.readMembers_quote, Json.readValue_ofInt (by decide)]
  simp only [Json.skipSpace_cons (show Json.isSpace ',' = false by decide), Json.readMembers_quote, hread]
  rfl

theorem bootstrapAudit_says {id now : Int} :
    (bootstrapAudit id handle now).Says (adminMembers handle) ↔ Json.Plain handle := by
  have hvalue : (bootstrapAudit id handle now).afterValue.bind Json.decode = Json.decode (bootstrapValue handle) :=
    Option.bind_some _ _
  unfold AuditRow.Says
  rw [hvalue]
  constructor
  · intro h
    obtain ⟨ms, hdecode, hms⟩ := h
    exact plain_of_decode hdecode hms
  · intro h
    exact ⟨_, decode_bootstrapValue h, .rfl⟩

theorem issueAudit_says (issuer credentialId actorId now : Int) (label : Option Text) :
    (issueAudit issuer credentialId actorId handle label now).Says (tokenMembers actorId label) := by
  refine ⟨_, ?_, .rfl⟩
  rw [← decode_issueValue]
  exact Option.bind_some _ _

/-! ## What the rows say -/

/-- Every bootstrap with the handle writes one row, and it says so. -/
def BootstrapsSaid (handle : Text) : Prop :=
  ∀ argon2 env name password db id db', bootstrapAdmin argon2 env handle name password db = (.ok id, db') →
    ∃ row, db'.adminAudit = db.adminAudit ++ [row] ∧ row.Says (adminMembers handle)

/-- Every token issued with the label has one row written, and it says so. -/
def TokensSaid (label : Option Text) : Prop :=
  ∀ ext env input db r db', input.label = label → issueActorToken ext env input db = (.ok r, db') →
    ∃ row, db'.adminAudit = db.adminAudit ++ [row] ∧ row.Says (tokenMembers r.1 label)

theorem tokensSaid (label : Option Text) : TokensSaid label := by
  intro ext env input db r db' hlabel h
  obtain ⟨credentialId, haudit⟩ := issueActorToken_audit h
  subst hlabel
  exact ⟨_, haudit, issueAudit_says _ _ _ _ _⟩

theorem bootstrap_migrated (handle : Text) :
    ∃ db', bootstrapAdmin .small (.small fun _ => none) handle none [] .migrated = (.ok 1, db') := ⟨_, rfl⟩

theorem bootstrapsSaid_iff : BootstrapsSaid handle ↔ Json.Plain handle := by
  constructor
  · intro h
    obtain ⟨db', hrun⟩ := bootstrap_migrated handle
    obtain ⟨row, haudit, hsays⟩ := h _ _ _ _ _ _ _ hrun
    rw [bootstrapAdmin_audit hrun] at haudit
    rw [← List.singleton_inj.1 (List.append_cancel_left haudit)] at hsays
    exact bootstrapAudit_says.1 hsays
  · intro h argon2 env name password db id db' hrun
    exact ⟨_, bootstrapAdmin_audit hrun, bootstrapAudit_says.2 h⟩

/-- **The audit record says what was done**, whatever the label, and for a
handle that needs no escape in JSON. For any other it does not. -/
theorem audit_values_iff (handle : Text) (label : Option Text) :
    BootstrapsSaid handle ∧ TokensSaid label ↔ Json.Plain handle := by
  rw [bootstrapsSaid_iff, and_iff_left (tokensSaid label)]

/-- What a handle holds that takes the flag back before the tail sets it. -/
def forgedTail : Text := "\",\"is_admin\":false,\"x\":\"".toList

theorem forgedTail_eq :
    forgedTail = '"' :: ',' :: (Json.quote "is_admin".toList ++ ':' :: ("false".toList ++ ',' ::
      (Json.quote "x".toList ++ [':', '"']))) := rfl

/-- A record that says nobody became an admin. -/
theorem decode_forged (h : Json.Plain handle) : Json.decode (bootstrapValue (handle ++ forgedTail)) =
    some (.object [("handle".toList, .string handle), ("is_admin".toList, .bool false), ("x".toList, .string []),
      ("is_admin".toList, .bool true)]) := by
  have hquote : '"' :: (handle ++ forgedTail ++ bootstrapTail) =
      Json.quote handle ++ ',' :: (Json.quote "is_admin".toList ++ ':' :: ("false".toList ++ ',' ::
        (Json.quote "x".toList ++ ':' :: (Json.quote [] ++ ',' ::
          (Json.quote "is_admin".toList ++ ':' :: "true\x7d".toList))))) := by
    have hnil : Json.quote [] = ['"', '"'] := rfl
    rw [h.quote, forgedTail_eq, bootstrapTail_eq, hnil]
    simp
  have hfalse : ∀ n rest, Json.readValue (n + 1) ("false".toList ++ ',' :: rest) = some (.bool false, ',' :: rest) :=
    fun _ _ => rfl
  have hn : (bootstrapValue (handle ++ forgedTail)).length + 1 = (handle ++ forgedTail).length + 24 + 6 := by
    rw [length_bootstrapValue]
  refine Json.decode_eq_some.2 ⟨[], ?_, rfl⟩
  rw [hn, bootstrapValue_eq, hquote, Json.readValue_object, Json.readMembers_quote, Json.readValue_quote]
  simp only [Json.skipSpace_cons (show Json.isSpace ',' = false by decide), Json.readMembers_quote, hfalse,
    Json.readValue_quote]
  rfl

theorem audit_value_forged :
    ∃ db', bootstrapAdmin .small (.small fun _ => none) ("a".toList ++ forgedTail) none [] .migrated = (.ok 1, db') ∧
      (∃ row ∈ db'.adminAudit, row.Says [("handle".toList, .string "a".toList), ("is_admin".toList, .bool false),
        ("x".toList, .string []), ("is_admin".toList, .bool true)]) ∧
      ¬ BootstrapsSaid ("a".toList ++ forgedTail) := by
  obtain ⟨db', hrun⟩ := bootstrap_migrated ("a".toList ++ forgedTail)
  have hrow : bootstrapAudit 1 ("a".toList ++ forgedTail) 0 ∈ db'.adminAudit := by
    rw [bootstrapAdmin_audit hrun]
    exact List.mem_append_right _ (List.mem_singleton_self _)
  have ha : Json.Plain "a".toList := by simp [Json.Plain, Json.plainChar]
  refine ⟨db', hrun, ⟨_, hrow, _, ?_, .rfl⟩, fun h => ?_⟩
  · rw [← decode_forged ha]
    exact Option.bind_some _ _
  · have hquote := bootstrapsSaid_iff.1 h '"' (List.mem_append_right _ (by unfold forgedTail; simp))
    exact absurd hquote (by decide)

end

end Wikikiki
