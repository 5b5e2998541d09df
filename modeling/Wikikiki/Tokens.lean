/-
Which tokens are valid (auth/token.rs).

Of each token the table keeps the lookup key, the actor, the expiry and one of
two encodings of the secret, and `verify` turns the one into the other.
`TokenKept` says what a row keeps of the token that was minted, whichever
encoding it has; every step keeps it (`step_tokens`), and what it keeps is all
that `verify` asks (`Access.judge_iff`).
-/
import Wikikiki.Gate

namespace Wikikiki

open Grants (History)

/-! ## One row -/

/-- A stored text made from the secret: a digest, or an Argon2 hash. -/
def Encodes (ext : Externals) (argon2 : Argon2) (stored secret : Text) : Prop :=
  stored = secretDigest ext secret ∨ ∃ salt, stored = argon2.hash salt secret

/-- What the row of a token keeps of it. -/
structure TokenKept (ext : Externals) (argon2 : Argon2) (c : CredentialRow) (m : Minted) : Prop where
  lookupKey : c.lookupKey = some m.lookup
  actorId : c.actorId = m.actorId
  expiresAt : c.expiresAt = m.expiresAt
  secretHash : Encodes ext argon2 c.secretHash m.secret

/-- SHA-256 tells the secret from every minted one. -/
def NoCollision (ext : Externals) (h : History Int Minted) (secret : Text) : Prop :=
  ∀ id m, .granted id m ∈ h → ext.sha256 (Text.utf8 secret) = ext.sha256 (Text.utf8 m.secret) → secret = m.secret

/-- The check of the secret, by the kind of the stored text. -/
def acceptsSecret (ext : Externals) (argon2 : Argon2) (secret stored : Text) : Prop :=
  if isLegacyArgon2 stored then argon2.verify secret stored = some true else digestMatches ext secret stored = true

section

variable {ext : Externals} {argon2 : Argon2} {secret stored x : Text}

theorem hexEncode_injective {a b : Bytes} (h : hexEncode a = hexEncode b) : a = b := by
  induction a generalizing b with
  | nil =>
    cases b with
    | nil => rfl
    | cons y b => cases h
  | cons x a ih =>
    cases b with
    | nil => cases h
    | cons y b =>
      simp only [hexEncode, List.flatMap_cons, List.cons_append, List.nil_append, List.cons.injEq] at h
      have hdigit : ∀ m n : Fin 16, Nat.digitChar m = Nat.digitChar n → m = n := by decide
      have hx : x.toNat < 256 := x.toNat_lt
      have hy : y.toNat < 256 := y.toNat_lt
      have hhigh := hdigit ⟨x.toNat / 16, by omega⟩ ⟨y.toNat / 16, by omega⟩ h.1
      have hlow := hdigit ⟨x.toNat % 16, by omega⟩ ⟨y.toNat % 16, by omega⟩ h.2.1
      simp only [Fin.mk.injEq] at hhigh hlow
      have hxy : x = y := UInt8.toNat_inj.1 (by omega)
      rw [hxy, ih h.2.2]

theorem isLegacyArgon2_iff : isLegacyArgon2 stored = true ↔ stored.head? = some '$' := by
  rw [isLegacyArgon2, List.isPrefixOf_iff_prefix]
  cases stored with
  | nil => simp
  | cons c s =>
    rw [List.cons_prefix_cons, List.head?_cons, Option.some.injEq]
    exact ⟨fun h => h.1.symm, fun h => ⟨h.symm, List.nil_prefix⟩⟩

/-- A digest is bare hex, so it never looks like a hash. -/
theorem digest_not_legacy : isLegacyArgon2 (secretDigest ext secret) = false := by
  rw [Bool.eq_false_iff]
  intro h
  have hm : '$' ∈ secretDigest ext secret := List.mem_of_mem_head? (isLegacyArgon2_iff.1 h)
  exact notMem_hexEncode (by decide) _ hm

/-- Either encoding accepts the secret that it was made from, and no other. -/
theorem acceptsSecret_iff (h : Encodes ext argon2 stored secret)
    (hx : ext.sha256 (Text.utf8 x) = ext.sha256 (Text.utf8 secret) → x = secret) :
    acceptsSecret ext argon2 x stored ↔ x = secret := by
  unfold acceptsSecret
  rcases h with rfl | ⟨salt, rfl⟩
  · rw [digest_not_legacy, if_neg (by simp), digestMatches, decide_eq_true_eq]
    exact ⟨fun he => hx (hexEncode_injective he), fun he => by rw [he]⟩
  · rw [if_pos (isLegacyArgon2_iff.2 (argon2.hash_dollar salt secret)), argon2.verify_hash]
    simp

/-- What an Argon2 hash accepts is its secret, and its digest is that of the
secret. -/
theorem upgrade_digest (h : Encodes ext argon2 stored secret) (hl : isLegacyArgon2 stored = true)
    (hv : argon2.check x stored = .ok true) : secretDigest ext x = secretDigest ext secret := by
  rcases h with rfl | ⟨salt, rfl⟩
  · rw [digest_not_legacy] at hl
    cases hl
  · unfold Argon2.check at hv
    rw [argon2.verify_hash] at hv
    simp only [Except.ok.injEq, decide_eq_true_eq] at hv
    rw [hv]

end

/-! ## Parsing -/

theorem parseToken_eq_some {t lookup secret : Text} : parseToken t = some (lookup, secret) ↔
    t = tokenPrefix ++ lookup ++ '_' :: secret ∧ '_' ∉ lookup ∧ Text.byteLen lookup = 16 ∧
      Text.byteLen secret = 48 := by
  simp only [parseToken, Option.bind_eq_some_iff, Text.stripPrefix_eq_some, Prod.exists]
  constructor
  · intro h
    obtain ⟨rest, rfl, l, x, hs, hif⟩ := h
    split at hif
    next hlen =>
      cases hif
      obtain ⟨rfl, hl⟩ := Text.splitOnce_some hs
      exact ⟨by simp, hl, hlen⟩
    · cases hif
  · intro h
    obtain ⟨rfl, hl, hlen⟩ := h
    exact ⟨lookup ++ '_' :: secret, by simp, lookup, secret, Text.splitOnce_append hl, if_pos hlen⟩

theorem Minted.parseToken (m : Minted) : parseToken m.plaintext = some (m.lookup, m.secret) :=
  parseToken_eq_some.2 ⟨rfl, m.lookup_plain, m.lookup_len, m.secret_len⟩

/-! ## The table -/

/-- The rows of tokens, by their ids. -/
def Access.tokenRow (acc : Access) (id : Int) : Option CredentialRow :=
  (acc.credentials.get id).filter fun c => c.kind = "token".toList

theorem Access.tokenRow_eq_some {acc : Access} {id : Int} {c : CredentialRow} :
    acc.tokenRow id = some c ↔ (id, c) ∈ acc.credentials.rows ∧ c.kind = "token".toList := by
  simp [tokenRow, Option.filter_eq_some_iff, Table.get_eq_some]

section

variable {ext : Externals} {argon2 : Argon2} {acc acc' : Access} {actors : Table ActorRow} {now id : Int}
  {lookup secret token : Text} {c c' : CredentialRow} {a : ActorRow} {digest : Option Text} {actor : Actor}
  {h : History Int Minted}

/-- Two rows with one lookup key are one row. -/
theorem Access.eq_of_lookupKey {id' : Int} (hc : (id, c) ∈ acc.credentials.rows)
    (hc' : (id', c') ∈ acc.credentials.rows) (hl : c.lookupKey = some lookup) (hl' : c'.lookupKey = some lookup) :
    (id, c) = (id', c') := by
  have hnd := acc.uniqueLookup
  rw [List.Nodup, List.pairwise_filterMap] at hnd
  by_contra hne
  have hp := List.Pairwise.forall_of_forall_of_flip (R := fun p q : Int × CredentialRow =>
      p ≠ q → p.2.lookupKey = some lookup → q.2.lookupKey ≠ some lookup)
    (fun _ _ hx => absurd rfl hx)
    (hnd.imp fun hpq _ hp hq => hpq _ hp _ hq rfl)
    (hnd.imp fun hpq _ hp hq => hpq _ hq _ hp rfl) hc hc' hne hl
  exact hp hl'

theorem joinToken_eq_some {p : Int × CredentialRow} {x : Int × CredentialRow × ActorRow} :
    joinToken actors lookup p = some x ↔
      (p.2.lookupKey = some lookup ∧ p.2.kind = "token".toList ∧ p.2.revokedAt = none) ∧
        ∃ a, actors.get p.2.actorId = some a ∧ (p.1, p.2, a) = x := by
  unfold joinToken
  split
  next hc => simp only [Option.map_eq_some_iff, hc, and_self, true_and]
  next hc => exact ⟨fun h => (by cases h), fun h => absurd h.1 hc⟩

theorem Access.findToken_eq_some : acc.findToken actors lookup = some (id, c, a) ↔
    acc.tokenRow id = some c ∧ c.lookupKey = some lookup ∧ c.revokedAt = none ∧ actors.get c.actorId = some a := by
  unfold findToken
  constructor
  · intro hf
    obtain ⟨p, hp, hx⟩ := List.mem_filterMap.1 (List.mem_of_mem_head? hf)
    obtain ⟨⟨hl, hk, hr⟩, b, hb, hx⟩ := joinToken_eq_some.1 hx
    cases hx
    exact ⟨tokenRow_eq_some.2 ⟨hp, hk⟩, hl, hr, hb⟩
  · intro hc
    obtain ⟨hc, hl, hr, ha⟩ := hc
    obtain ⟨hm, hk⟩ := tokenRow_eq_some.1 hc
    have hjoin : joinToken actors lookup (id, c) = some (id, c, a) :=
      joinToken_eq_some.2 ⟨⟨hl, hk, hr⟩, a, ha, rfl⟩
    have hin := List.mem_filterMap.2 ⟨(id, c), hm, hjoin⟩
    -- Only this row can come first, for its lookup key is its own.
    cases hf : (acc.credentials.rows.filterMap (joinToken actors lookup)).head? with
    | none => rw [List.head?_eq_none_iff.1 hf] at hin; cases hin
    | some x =>
      obtain ⟨p, hp, hx⟩ := List.mem_filterMap.1 (List.mem_of_mem_head? hf)
      obtain ⟨⟨hl', -, -⟩, b, hb, rfl⟩ := joinToken_eq_some.1 hx
      cases eq_of_lookupKey hm hp hl hl'
      rw [ha] at hb
      cases hb
      rfl

/-- What the checks of `verify` come to. -/
theorem checkToken_accepted : (∃ digest, checkToken ext argon2 now secret c a = .accepted digest) ↔
    (∀ e ∈ c.expiresAt, now < e) ∧ a.isActive ≠ 0 ∧ acceptsSecret ext argon2 secret c.secretHash := by
  unfold checkToken acceptsSecret Argon2.check
  split
  next hexp =>
    refine iff_of_false (by simp) fun h => ?_
    obtain ⟨e, he, hle⟩ := hexp
    have := h.1 e he
    omega
  next hexp =>
  have hall : ∀ e ∈ c.expiresAt, now < e := fun e he => by
    by_contra hle
    exact hexp ⟨e, he, by omega⟩
  split
  next hact => exact iff_of_false (by simp) fun h => h.2.1 hact
  next hact =>
  by_cases hleg : isLegacyArgon2 c.secretHash = true
  · rw [if_pos hleg, if_pos hleg]
    cases argon2.verify secret c.secretHash with
    | none => exact iff_of_false (by simp) fun h => by simpa using h.2.2
    | some b =>
      cases b with
      | false => exact iff_of_false (by simp) fun h => by simpa using h.2.2
      | true => exact iff_of_true ⟨_, rfl⟩ ⟨hall, hact, rfl⟩
  · rw [if_neg hleg, if_neg hleg]
    split
    next hd => exact iff_of_true ⟨_, rfl⟩ ⟨hall, hact, hd⟩
    next hd => exact iff_of_false (by simp) fun h => hd h.2.2

/-- A digest takes the place of a hash that accepted the secret. -/
theorem checkToken_upgrade {d : Text} (hc : checkToken ext argon2 now secret c a = .accepted (some d)) :
    isLegacyArgon2 c.secretHash = true ∧ argon2.check secret c.secretHash = .ok true ∧
      d = secretDigest ext secret := by
  unfold checkToken at hc
  split at hc
  · cases hc
  split at hc
  · cases hc
  split at hc
  next hleg =>
    split at hc
    next => cases hc
    next => cases hc
    next hv => cases hc; exact ⟨hleg, hv, rfl⟩
  next => split at hc <;> cases hc

theorem Access.judge_accepted : acc.judge ext argon2 actors now token = .accepted actor id digest ↔
    ∃ lookup secret c a, parseToken token = some (lookup, secret) ∧ acc.findToken actors lookup = some (id, c, a) ∧
      checkToken ext argon2 now secret c a = .accepted digest ∧ a.actor c.actorId = actor := by
  unfold judge
  constructor
  · intro h
    split at h
    · cases h
    next lookup secret hp =>
      split at h
      · cases h
      next x c a hf =>
        split at h
        · cases h
        · cases h
        next hc =>
          cases h
          exact ⟨lookup, secret, c, a, hp, hf, hc, rfl⟩
  · intro h
    obtain ⟨lookup, secret, c, a, hp, hf, hc, rfl⟩ := h
    simp only [hp, hf, hc]

/-- The table keeps the tokens that were minted and not revoked. -/
abbrev Access.KeepsTokens (acc : Access) (ext : Externals) (argon2 : Argon2) (h : History Int Minted) : Prop :=
  Grants.Kept (TokenKept ext argon2) (fun c => c.revokedAt = none) h acc.tokenRow

/-- **Which tokens a table accepts.** -/
theorem Access.judge_iff (hk : acc.KeepsTokens ext argon2 h)
    (hcol : ∀ lookup secret, parseToken token = some (lookup, secret) → NoCollision ext h secret) :
    (∃ id digest, acc.judge ext argon2 actors now token = .accepted actor id digest) ↔
      ∃ id m, Grants.Live h id m ∧ token = m.plaintext ∧ (∀ e ∈ m.expiresAt, now < e) ∧
        actorById actors m.actorId = some actor ∧ actor.isActive = true := by
  constructor
  · intro hj
    obtain ⟨id, digest, hj⟩ := hj
    obtain ⟨lookup, secret, c, a, hp, hf, hc, rfl⟩ := judge_accepted.1 hj
    obtain ⟨hrow, hl, hr, ha⟩ := findToken_eq_some.1 hf
    obtain ⟨hexp, hact, hsec⟩ := checkToken_accepted.1 ⟨digest, hc⟩
    obtain ⟨m, hm, hkeep⟩ := hk.granted id c hrow
    have hlive : Grants.Live h id m := hk.live_iff.2 ⟨hm, c, hrow, hkeep, hr⟩
    have hsecret := (acceptsSecret_iff hkeep.secretHash (hcol lookup secret hp id m hm)).1 hsec
    have hlookup : lookup = m.lookup := Option.some.inj (hl.symm.trans hkeep.lookupKey)
    refine ⟨id, m, hlive, ?_, hkeep.expiresAt ▸ hexp, ?_, by simpa [ActorRow.actor] using hact⟩
    · rw [(parseToken_eq_some.1 hp).1, hlookup, hsecret, Minted.plaintext]
    · rw [actorById, ← hkeep.actorId, ha]
      rfl
  · intro hl
    obtain ⟨id, m, hlive, rfl, hexp, hactor, hact⟩ := hl
    obtain ⟨hm, c, hrow, hkeep, hr⟩ := hk.live_iff.1 hlive
    obtain ⟨a, ha, rfl⟩ := Option.map_eq_some_iff.1 hactor
    have hsec : acceptsSecret ext argon2 m.secret c.secretHash :=
      (acceptsSecret_iff hkeep.secretHash fun _ => rfl).2 rfl
    have hfind := findToken_eq_some.2 ⟨hrow, hkeep.lookupKey, hr, hkeep.actorId ▸ ha⟩
    obtain ⟨digest, hc⟩ := checkToken_accepted.2
      ⟨hkeep.expiresAt ▸ hexp, show a.isActive ≠ 0 by simpa [ActorRow.actor] using hact, hsec⟩
    exact ⟨id, digest, judge_accepted.2 ⟨_, _, c, a, m.parseToken, hfind, hc, by rw [hkeep.actorId]⟩⟩

/-- The digest that goes with a verdict is that of a minted secret. -/
theorem Access.KeepsTokens.digest_minted (hk : acc.KeepsTokens ext argon2 h) {d : Text}
    (hj : acc.judge ext argon2 actors now token = .accepted actor id (some d)) :
    ∃ m, .granted id m ∈ h ∧ d = secretDigest ext m.secret := by
  obtain ⟨lookup, secret, c, a, -, hf, hc, -⟩ := Access.judge_accepted.1 hj
  obtain ⟨m, hm, hkeep⟩ := hk.granted id c (Access.findToken_eq_some.1 hf).1
  obtain ⟨hleg, hv, rfl⟩ := checkToken_upgrade hc
  exact ⟨m, hm, upgrade_digest hkeep.secretHash hleg hv⟩

/-! ## What the operations do to the rows -/

theorem Access.tokenRow_update {f : CredentialRow → CredentialRow} (hf : ∀ r, (f r).lookupKey = r.lookupKey)
    (hkind : ∀ r, (f r).kind = r.kind) (j : Int) :
    (acc.update id f hf).tokenRow j = (acc.tokenRow j).map fun r => if j = id then f r else r := by
  rw [tokenRow, update, Table.get_modify, tokenRow]
  cases acc.credentials.get j with
  | none => rfl
  | some r =>
    have hk : (if j = id then f r else r).kind = r.kind := by split <;> simp [hkind]
    by_cases hr : r.kind = "token".toList
    · rw [Option.map_some, Option.filter_some_pos (by simpa [hr] using hk), Option.filter_some_pos (by simpa using hr)]
      rfl
    · rw [Option.map_some, Option.filter_some_neg (by simpa [hk] using hr),
        Option.filter_some_neg (by simpa using hr)]
      rfl

/-- The update of a column that `TokenKept` does not look at. -/
theorem Access.KeepsTokens.update (hk : acc.KeepsTokens ext argon2 h) {f : CredentialRow → CredentialRow}
    (hf : ∀ r, (f r).lookupKey = r.lookupKey) (hkind : ∀ r, (f r).kind = r.kind)
    (hkeep : ∀ r m, acc.tokenRow id = some r → .granted id m ∈ h → TokenKept ext argon2 r m →
      TokenKept ext argon2 (f r) m)
    (hopen : ∀ r, (f r).revokedAt = r.revokedAt) : (acc.update id f hf).KeepsTokens ext argon2 h := by
  refine Grants.Kept.rewrite hk (Access.tokenRow_update hf hkind) (fun j r m hr hm hg => ?_) fun j r => ?_
  · split
    next hj => subst hj; exact hkeep r m hr hm hg
    · exact hg
  · split
    · rw [hopen]
    · rfl

theorem Access.KeepsTokens.of_credentials (hk : acc.KeepsTokens ext argon2 h)
    (hc : acc'.credentials = acc.credentials) : acc'.KeepsTokens ext argon2 h :=
  Grants.Kept.of_eq hk fun j => by rw [Access.tokenRow, hc, Access.tokenRow]

theorem Access.KeepsTokens.touch (hk : acc.KeepsTokens ext argon2 h) :
    (acc.touch id now).KeepsTokens ext argon2 h :=
  hk.update _ (fun _ => rfl) (fun _ _ _ _ hg => ⟨hg.lookupKey, hg.actorId, hg.expiresAt, hg.secretHash⟩)
    fun _ => rfl

/-- The digest that is written is that of the minted secret. -/
theorem Access.KeepsTokens.upgrade (hk : acc.KeepsTokens ext argon2 h) (ok : Bool)
    (hd : ∀ d, digest = some d → ∃ m, .granted id m ∈ h ∧ d = secretDigest ext m.secret) :
    (acc.upgrade id digest ok).KeepsTokens ext argon2 h := by
  unfold Access.upgrade
  split
  next d =>
    split
    · obtain ⟨m, hm, rfl⟩ := hd d rfl
      refine hk.update _ (fun _ => rfl) (fun r m' _ hm' hg => ?_) fun _ => rfl
      rw [hk.unique id m' m hm' hm] at hg ⊢
      exact ⟨hg.lookupKey, hg.actorId, hg.expiresAt, .inl rfl⟩
    · exact hk
  · exact hk

theorem Access.KeepsTokens.issue (hk : acc.KeepsTokens ext argon2 h) {bytes : TokenBytes} {actorId : Int}
    {label : Option Text} {expiresAt : Option Int} {said : Text} {issued : IssuedToken}
    (hi : acc.issue ext actors bytes actorId label expiresAt now said = .ok (issued, acc')) :
    acc'.KeepsTokens ext argon2 (h ++ [.granted issued.credentialId (bytes.minted actorId expiresAt)]) := by
  unfold Access.issue at hi
  split at hi
  next hnew =>
    split at hi
    · cases hi
    · cases hi
      have hnone : acc.tokenRow acc.credentials.nextId = none := by
        rw [Access.tokenRow, Table.get_nextId]
        rfl
      have hkeep : TokenKept ext argon2 (bytes.row ext actorId label expiresAt now)
          (bytes.minted actorId expiresAt) := ⟨rfl, rfl, rfl, .inl rfl⟩
      have hrows := Grants.Kept.grant hk hnone hkeep rfl
      refine hrows.of_eq fun j => ?_
      rw [Access.tokenRow, Table.get_insert]
      by_cases hj : j = acc.credentials.nextId
      · subst hj
        rw [Function.update_self, Function.update_self]
        rfl
      · rw [Function.update_of_ne hj, Function.update_of_ne hj]
        rfl
  · cases hi

theorem Access.KeepsTokens.revoke (hk : acc.KeepsTokens ext argon2 h) (hr : acc.revoke id now = .ok acc') :
    acc'.KeepsTokens ext argon2 (h ++ [.revoked id]) := by
  unfold Access.revoke at hr
  split at hr
  · cases hr
    have hrow : ∀ j, (acc.update id (fun r => { r with revokedAt := some now }) fun _ => rfl).tokenRow j =
        (acc.tokenRow j).map fun r => if j = id then { r with revokedAt := some now } else r :=
      Access.tokenRow_update (f := fun r => { r with revokedAt := some now }) (fun _ => rfl) fun _ => rfl
    refine Grants.Kept.revoke hk (fun r => { r with revokedAt := some now }) ?_ (fun j hj => ?_)
      (fun r m => ⟨fun hg => ⟨hg.lookupKey, hg.actorId, hg.expiresAt, hg.secretHash⟩,
        fun hg => ⟨hg.lookupKey, hg.actorId, hg.expiresAt, hg.secretHash⟩⟩) fun r _ => by simp
    · rw [hrow]
      simp
    · rw [hrow]
      simp [hj]
  · cases hr

end

/-! ## Runs -/

namespace Gate

/-- The table keeps the tokens, and a digest on its way to the table is that
of the minted secret. -/
structure State.TokensKept (g : Gate) (s : State) : Prop where
  kept : s.access.KeepsTokens g.ext g.argon2 s.tokens
  digest : ∀ k actor id d, s.call k = .upgrading actor id (some d) →
    ∃ m, .granted id m ∈ s.tokens ∧ d = secretDigest g.ext m.secret

section

variable {g : Gate} {s s' : State} {a : Action}

/-- One call moves; if it is about to write a digest, then a right one. -/
theorem State.TokensKept.setCall (h : s.TokensKept g) {k : Nat} {c : Call}
    (hc : ∀ actor id d, c = .upgrading actor id (some d) →
      ∃ m, .granted id m ∈ s.tokens ∧ d = secretDigest g.ext m.secret) {access : Access}
    (hk : access.KeepsTokens g.ext g.argon2 s.tokens) (used : Throttle) :
    State.TokensKept g { s.setCall k c with access, used } := by
  refine ⟨hk, fun j actor id d hj => ?_⟩
  have hj' : Function.update s.call k c j = .upgrading actor id (some d) := hj
  by_cases hjk : j = k
  · subst hjk
    rw [Function.update_self] at hj'
    exact hc actor id d hj'
  · rw [Function.update_of_ne hjk] at hj'
    exact h.digest j actor id d hj'

/-- More is granted or revoked, and no call moves. -/
theorem State.TokensKept.history (h : s.TokensKept g) {access : Access} {e : Grants.Event Int Minted}
    (hk : access.KeepsTokens g.ext g.argon2 (s.tokens ++ [e])) :
    State.TokensKept g { s with access, tokens := s.tokens ++ [e] } :=
  ⟨hk, fun k actor id d hc => by
    obtain ⟨m, hm, hd⟩ := h.digest k actor id d hc
    exact ⟨m, List.mem_append_left _ hm, hd⟩⟩

theorem step_tokens (hstep : g.step s a = some s') (h : s.TokensKept g) : s'.TokensKept g := by
  cases a with
  | issue bytes actorId label expiresAt said =>
    simp only [step] at hstep
    split at hstep
    · cases hstep; exact h
    next issued access hi => cases hstep; exact h.history (h.kept.issue hi)
  | verify k token =>
    simp only [step] at hstep
    split at hstep
    · cases hstep
      refine h.setCall (fun actor id d hc => ?_) h.kept s.used
      cases hv : s.access.judge g.ext g.argon2 s.actors s.now token with
      | accepted actor' id' digest =>
        rw [hv] at hc
        cases hc
        exact h.kept.digest_minted hv
      | _ => rw [hv] at hc; cases hc
    · cases hstep
  | upgrade k ok =>
    simp only [step] at hstep
    split at hstep
    next actor id digest hc =>
      cases hstep
      exact h.setCall (fun _ _ _ hc => by cases hc) (h.kept.upgrade ok fun d hd => h.digest k actor id d (hd ▸ hc)) s.used
    · cases hstep
  | touch k ok =>
    simp only [step] at hstep
    split at hstep
    next actor id hc =>
      cases hstep
      refine h.setCall (fun _ _ _ hc => by cases hc) ?_ _
      split
      · exact h.kept.touch
      · exact h.kept
    · cases hstep
  | revoke id =>
    simp only [step] at hstep
    split at hstep
    · cases hstep; exact h
    next access hr => cases hstep; exact h.history (h.kept.revoke hr)
  | login handle password sid said =>
    simp only [step] at hstep
    split at hstep
    · cases hstep; exact h
    next actor access hl => cases hstep; exact ⟨h.kept.of_credentials (login_credentials hl), h.digest⟩
  | logout cookie =>
    simp only [step] at hstep
    split at hstep <;> cases hstep <;> exact ⟨h.kept, h.digest⟩
  | administer actors => cases hstep; exact ⟨h.kept, h.digest⟩
  | clock now => cases hstep; exact ⟨h.kept, h.digest⟩

end

/-- A call of `verify`, from its start to its end, in a state. -/
def verify (g : Gate) (s : State) (token : Text) (oks : Updates) :
    Except AppError (Option Actor) × Access × Throttle :=
  s.access.verify g.ext g.argon2 s.actors s.used s.now token oks

/-- The token was minted for the actor and not revoked since, it has not
expired, and the actor is active. -/
def State.Valid (s : State) (token : Text) (actor : Actor) : Prop :=
  ∃ id m, Grants.Live s.tokens id m ∧ token = m.plaintext ∧ (∀ e ∈ m.expiresAt, s.now < e) ∧
    actorById s.actors m.actorId = some actor ∧ actor.isActive = true

/-- SHA-256 tells the secret of the token from every minted one. -/
def Told (g : Gate) (s : State) (token : Text) : Prop :=
  ∀ lookup secret, parseToken token = some (lookup, secret) → NoCollision g.ext s.tokens secret

/-- The state after a call of `verify`, at another time and with other
actors. -/
def State.later (s : State) (after : Except AppError (Option Actor) × Access × Throttle) (actors : Table ActorRow)
    (now : Int) : State :=
  { s with access := after.2.1, used := after.2.2, actors, now }

section

variable {g : Gate} {s s₀ : State} {as : List Action} {token : Text} {actor : Actor} {oks : Updates}

theorem verify_eq_some : (g.verify s token oks).1 = .ok (some actor) ↔
    ∃ id digest, s.access.judge g.ext g.argon2 s.actors s.now token = .accepted actor id digest := by
  rw [verify, Access.verify_result]
  cases s.access.judge g.ext g.argon2 s.actors s.now token <;> simp [TokenVerdict.result]

/-- A call of `verify` keeps what the table keeps. -/
theorem verify_kept (h : s.access.KeepsTokens g.ext g.argon2 s.tokens) :
    (g.verify s token oks).2.1.KeepsTokens g.ext g.argon2 s.tokens := by
  unfold verify Access.verify
  cases hj : s.access.judge g.ext g.argon2 s.actors s.now token with
  | accepted actor id digest =>
    have hup : (s.access.upgrade id digest oks.upgrade).KeepsTokens g.ext g.argon2 s.tokens :=
      h.upgrade _ fun d hd => h.digest_minted (by rw [hj, hd])
    simp only
    split
    · exact hup.touch
    · exact hup
  | _ => exact h

/-- **Which tokens are valid.** In every state of every run, whatever
verifications are under way: `verify` accepts a token for an actor exactly when
it was minted for that actor and not revoked, has not expired, and the actor is
active; and a call of `verify` changes nothing about which tokens are accepted
after it, at any time and with any actors. -/
theorem verify_iff (h₀ : s₀.access.KeepsTokens g.ext g.argon2 s₀.tokens) (hidle : ∀ k, s₀.call k = .idle)
    (hr : g.run s₀ as = some s) (htold : g.Told s token) :
    (∀ oks actor, (g.verify s token oks).1 = .ok (some actor) ↔ s.Valid token actor) ∧
      ∀ token' oks actors now oks' actor,
        (g.verify (s.later (g.verify s token' oks) actors now) token oks').1 = .ok (some actor) ↔
          (g.verify { s with actors, now } token oks').1 = .ok (some actor) := by
  have hstart : s₀.TokensKept g := ⟨h₀, fun k actor id d hc => by rw [hidle k] at hc; cases hc⟩
  have hk := (Run.invariant step_tokens hr hstart).kept
  refine ⟨fun oks actor => verify_eq_some.trans (Access.judge_iff hk htold), ?_⟩
  intro token' oks actors now oks' actor
  have hafter : (g.verify s token' oks).2.1.KeepsTokens g.ext g.argon2 s.tokens := verify_kept hk
  rw [verify_eq_some, verify_eq_some]
  have hlater : (∃ id digest, (g.verify s token' oks).2.1.judge g.ext g.argon2 actors now token =
      .accepted actor id digest) ↔ _ := Access.judge_iff hafter htold
  exact hlater.trans (Access.judge_iff hk htold).symm

end

theorem smallState_kept : smallState.access.KeepsTokens (small 60).ext (small 60).argon2 smallState.tokens := by
  obtain ⟨c, hc, hkeep, hopen⟩ : ∃ c, (∀ id, smallAccess.tokenRow id = if id = 1 then some c else none) ∧
      TokenKept .small .small c legacy ∧ c.revokedAt = none := by
    refine ⟨legacyRow, fun id => Option.ext fun c => ?_, ⟨rfl, rfl, rfl, .inr ⟨[], rfl⟩⟩, rfl⟩
    have hrows : smallAccess.credentials.rows = [(1, legacyRow), (2, passwordRow)] := rfl
    rw [Access.tokenRow_eq_some, hrows]
    simp only [List.mem_cons, List.not_mem_nil, or_false, Prod.mk.injEq]
    constructor
    · intro h
      rcases h with ⟨⟨rfl, rfl⟩ | ⟨rfl, rfl⟩, hk⟩
      · rfl
      · exact absurd hk (by decide)
    · intro h
      split at h
      next hid => cases h; exact ⟨.inl ⟨hid, rfl⟩, rfl⟩
      · cases h
  have hrows : ∀ id, smallAccess.tokenRow id = Function.update (fun _ => none) 1 (some c) id := fun id => by
    rw [hc, Function.update_apply]
  exact ((Grants.kept_nil fun _ => rfl).grant rfl hkeep hopen).of_eq hrows

/-- The old token in use: verified, with its hash rewritten, and verified
again; a call with another secret is refused. -/
theorem verify_iff_small :
    ∃ s, (small 60).run smallState [.verify 0 legacy.plaintext, .upgrade 0 true, .touch 0 true, .clock 99] =
        some s ∧
      (∀ oks actor, ((small 60).verify s legacy.plaintext oks).1 = .ok (some actor) ↔
        s.Valid legacy.plaintext actor) ∧
      ∀ token' oks actors now oks' actor,
        ((small 60).verify (s.later ((small 60).verify s token' oks) actors now) legacy.plaintext oks').1 =
            .ok (some actor) ↔
          ((small 60).verify { s with actors, now } legacy.plaintext oks').1 = .ok (some actor) := by
  obtain ⟨s, hs⟩ : ∃ s, (small 60).run smallState
      [.verify 0 legacy.plaintext, .upgrade 0 true, .touch 0 true, .clock 99] = some s := ⟨_, rfl⟩
  have htokens : s.tokens = [.granted 1 legacy] := by cases hs; rfl
  refine ⟨s, hs, verify_iff smallState_kept (fun _ => rfl) hs fun lookup secret hp id m hm _ => ?_⟩
  rw [htokens, List.mem_singleton] at hm
  cases hm
  rw [legacy.parseToken] at hp
  cases hp
  rfl

end Gate

end Wikikiki
