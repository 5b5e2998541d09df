/-
Expiry (config/mod.rs, main.rs, auth/session.rs): from the text of a duration
to the time that is stored, and where the two parsers of that text differ.

Every result here is exact about the builds: nothing is assumed of the clock,
and a duration that is too long for a step on the way is a panic or a wrapped
value, whichever the profile makes of it.
-/
import Wikikiki.Duration

namespace Wikikiki

/-! ## From the text to the expiry -/

/-- Where a duration comes from: `session_lifetime` and
`token_default_lifetime`, or `--lifetime`. -/
inductive DurationSource where
  | config
  | option

/-- The text is a duration, and its number fits the integer that it is parsed
into. -/
def DurationSource.Accepts : DurationSource → Text → Nat → Nat → Prop
  | .config, s, n, mult => Denotes (Text.trim s) n mult ∧ n < 2 ^ 64
  | .option, s, n, mult => Denotes s n mult ∧ n < 2 ^ 63

/-- The seconds come out as `x`; those of the configuration from `as_secs`,
too. -/
def DurationSource.Seconds (b : Profile) (x : Nat) : DurationSource → Text → Prop
  | .config, s => parseDuration b s = some (.ok x) ∧ asSecs x = x
  | .option, s => lifetimeSecs b s = some (.ok (x : Int))

/-- Any session that is created with the lifetime is stored, and expires at
`x`. -/
def SessionExpires (b : Profile) (now lifetime x : Int) : Prop :=
  ∀ (acc : Access) (actors : Table ActorRow) sid actorId said,
    (∀ r ∈ acc.sessions, r.id ≠ sid) → actors.get actorId ≠ none →
      ∃ acc', acc.createSessionIn b actors sid actorId now lifetime said = some (.ok acc') ∧
        acc'.findSession sid = some { id := sid, actorId, createdAt := now, expiresAt := x, revokedAt := none }

/-- What is stored at `now` expires at `x`: sessions and tokens for the
configuration, tokens for `--lifetime`. -/
def DurationSource.Expires (b : Profile) (now x : Int) : DurationSource → Text → Prop
  | .config, s => ∃ d, parseDuration b s = some (.ok d) ∧
      parseLifetime b (some d) now none = some (.ok (some x)) ∧ SessionExpires b now (asSecs d) x
  | .option, s => ∀ dflt, parseLifetime b dflt now (some s) = some (.ok (some x))

section

variable {b : Profile} {now lifetime x x' : Int} {s : Text} {n mult : Nat}

theorem createSession_findSession {acc : Access} {actors : Table ActorRow} {sid : Text} {actorId : Int}
    (hsid : ∀ r ∈ acc.sessions, r.id ≠ sid) (hactor : actors.get actorId ≠ none) (now lifetime : Int) (said : Text) :
    ∃ acc', acc.createSession actors sid actorId now lifetime said = .ok acc' ∧
      acc'.findSession sid =
        some { id := sid, actorId, createdAt := now, expiresAt := wrapI64 (now + lifetime), revokedAt := none } := by
  refine ⟨_, by rw [Access.createSession, dif_pos hsid, if_neg hactor], ?_⟩
  have hold : acc.sessions.find? (fun r => decide (r.id = sid)) = none := by
    simpa [List.find?_eq_none] using hsid
  simp [Access.findSession, List.find?_append, hold]

/-- A session in an empty table, for an actor that is there. -/
theorem exists_fresh_session : ∃ (acc : Access) (actors : Table ActorRow) (sid : Text) (actorId : Int),
    (∀ r ∈ acc.sessions, r.id ≠ sid) ∧ actors.get actorId ≠ none := by
  refine ⟨⟨.empty, [], by simp [Table.empty], by simp⟩, (Db.small none).actors, [], 1, by simp, ?_⟩
  simp [Db.small, Table.get, Table.empty, Table.insert, Table.nextId]

/-- The expiry of a session is the sum, as the build has it. -/
theorem sessionExpires_iff : SessionExpires b now lifetime x ↔ b.toI64 (now + lifetime) = some x := by
  have hval : ∀ y, b.toI64 (now + lifetime) = some y → wrapI64 (now + lifetime) = y := by
    intro y hy
    cases b with
    | debug =>
      obtain ⟨hfits, rfl⟩ := Profile.toI64_debug.1 hy
      exact hfits.wrap
    | release => exact Option.some.inj hy
  constructor
  · intro h
    obtain ⟨acc, actors, sid, actorId, hsid, hactor⟩ := exists_fresh_session
    obtain ⟨acc', hc, hf⟩ := h acc actors sid actorId [] hsid hactor
    obtain ⟨acc₁, hok, hf₁⟩ := createSession_findSession hsid hactor now lifetime []
    simp only [Access.createSessionIn, hok, Option.map_eq_some_iff, Except.ok.injEq] at hc
    obtain ⟨y, hy, rfl⟩ := hc
    rw [hf₁, Option.some.injEq, SessionRow.mk.injEq] at hf
    rw [hy, ← hval y hy, hf.2.2.2.1]
  · intro h acc actors sid actorId said hsid hactor
    obtain ⟨acc', hok, hf⟩ := createSession_findSession hsid hactor now lifetime said
    refine ⟨acc', by simp [Access.createSessionIn, h, hok], ?_⟩
    rw [hf, hval x h]

/-- The expiry of the default lifetime. -/
theorem parseLifetime_none {d : Nat} :
    parseLifetime b (some d) now none = some (.ok (some x)) ↔ b.toI64 (now + asSecs d) = some x := by
  simp [parseLifetime]

/-- A text has one expiry. -/
theorem DurationSource.Expires.unique {src : DurationSource} (h : src.Expires b now x s)
    (h' : src.Expires b now x' s) : x' = x := by
  cases src with
  | config =>
    obtain ⟨d, hd, hx, -⟩ := h
    obtain ⟨d', hd', hx', -⟩ := h'
    obtain rfl : d' = d := by simpa [hd] using hd'.symm
    simpa [hx] using hx'.symm
  | option => simpa [h none] using (h' none).symm

/-- The seconds are the product exactly where it fits `i64`: below that,
neither product is wrapped, and the cast changes nothing. -/
theorem DurationSource.seconds_iff {src : DurationSource} (hs : src.Accepts s n mult) :
    src.Seconds b (n * mult) s ↔ n * mult < 2 ^ 63 := by
  cases src with
  | config =>
    obtain ⟨hden, hn⟩ := hs
    have hcast : asSecs (n * mult) = (n * mult : Nat) ↔ n * mult < 2 ^ 63 := by
      rw [asSecs, wrapI64_self, fitsI64_natCast]
    simp only [Seconds, hcast, and_iff_right_iff_imp, parseDuration_eq_ok]
    intro hlt
    exact ⟨n, mult, hden, hn, Profile.toU64_self.2 (by omega)⟩
  | option =>
    obtain ⟨hden, hn⟩ := hs
    simp only [Seconds, lifetimeSecs_eq_ok]
    constructor
    · intro h
      obtain ⟨n', mult', hden', -, hx⟩ := h
      obtain ⟨rfl, rfl⟩ := hden.unique hden'
      rw [← Int.natCast_mul, Profile.toI64_self, fitsI64_natCast] at hx
      exact hx
    · intro hlt
      refine ⟨n, mult, hden, hn, ?_⟩
      rw [← Int.natCast_mul, Profile.toI64_self, fitsI64_natCast]
      exact hlt

/-- Seconds that are right are added to the clock. -/
theorem DurationSource.expires_iff {src : DurationSource} (hs : src.Accepts s n mult)
    (hsecs : src.Seconds b (n * mult) s) :
    src.Expires b now (now + (n * mult : Nat)) s ↔ FitsI64 (now + (n * mult : Nat)) := by
  cases src with
  | config =>
    obtain ⟨hd, hcast⟩ := hsecs
    simp only [Expires, hd, Option.some.injEq, Except.ok.injEq, exists_eq_left', parseLifetime_none,
      sessionExpires_iff, hcast, Profile.toI64_self, and_self]
  | option =>
    have hsecs : lifetimeSecs b s = some (.ok ((n * mult : Nat) : Int)) := hsecs
    simp only [Expires, parseLifetime_eq_ok hs.1.ne_nil, hsecs, Option.some.injEq, Except.ok.injEq,
      exists_and_left, exists_eq_left', forall_const]
    simp [Profile.toI64_self]

end

/-- **How long things last.** The seconds of a duration are its number times
its unit, and what is stored expires that much later than now, exactly when
that product is below `2^63` and the sum with the clock fits `i64`. Of two
such durations the longer one does not expire earlier. -/
theorem durations_exact (b : Profile) (now : Int) :
    (∀ (src : DurationSource) s n mult, src.Accepts s n mult →
      (src.Seconds b (n * mult) s ∧ src.Expires b now (now + (n * mult : Nat)) s ↔
        n * mult < 2 ^ 63 ∧ FitsI64 (now + (n * mult : Nat)))) ∧
    ∀ (src src' : DurationSource) s s' n n' mult mult' x x', src.Accepts s n mult → src'.Accepts s' n' mult' →
      n * mult < 2 ^ 63 ∧ FitsI64 (now + (n * mult : Nat)) →
      n' * mult' < 2 ^ 63 ∧ FitsI64 (now + (n' * mult' : Nat)) →
      n * mult ≤ n' * mult' → src.Expires b now x s → src'.Expires b now x' s' → x ≤ x' := by
  have hexact : ∀ (src : DurationSource) s n mult, src.Accepts s n mult →
      (src.Seconds b (n * mult) s ∧ src.Expires b now (now + (n * mult : Nat)) s ↔
        n * mult < 2 ^ 63 ∧ FitsI64 (now + (n * mult : Nat))) := by
    intro src s n mult hs
    rw [← src.seconds_iff hs (b := b)]
    exact and_congr_right fun hsecs => src.expires_iff hs hsecs
  refine ⟨hexact, ?_⟩
  intro src src' s s' n n' mult mult' x x' hs hs' hfit hfit' hle hx hx'
  have hxeq := ((hexact src s n mult hs).2 hfit).2.unique hx
  have hxeq' := ((hexact src' s' n' mult' hs').2 hfit').2.unique hx'
  omega

/-- Three hundred billion years: its seconds fit `u64` and not `i64`, so in
either build a session expires before it starts, and one that is created to
last a year outlives it. -/
theorem ages_expire_at_once :
    DurationSource.config.Accepts "300000000000y".toList 300000000000 (365 * 86400) ∧
      DurationSource.config.Accepts "1y".toList 1 (365 * 86400) ∧
      ∀ b, ¬ DurationSource.config.Seconds b (300000000000 * (365 * 86400)) "300000000000y".toList ∧
        DurationSource.config.Expires b 0 (-8985944073709551616) "300000000000y".toList ∧
        DurationSource.config.Expires b 0 31536000 "1y".toList := by
  have hages : DurationSource.config.Accepts "300000000000y".toList 300000000000 (365 * 86400) :=
    ⟨denotes_iff.2 ⟨by decide, by decide, by decide⟩, by decide⟩
  have hyear : DurationSource.config.Accepts "1y".toList 1 (365 * 86400) :=
    ⟨denotes_iff.2 ⟨by decide, by decide, by decide⟩, by decide⟩
  refine ⟨hages, hyear, fun b => ⟨?_, ?_, ?_⟩⟩
  · rw [DurationSource.seconds_iff hages]
    decide
  · refine ⟨9460800000000000000, ?_, ?_, ?_⟩
    · exact parseDuration_eq_ok.2 ⟨_, _, hages.1, hages.2, Profile.toU64_self.2 (by decide)⟩
    · rw [parseLifetime_none]
      exact Profile.toI64_self.2 (by decide)
    · rw [sessionExpires_iff]
      exact Profile.toI64_self.2 (by decide)
  · exact (DurationSource.expires_iff hyear ((DurationSource.seconds_iff hyear).2 (by decide))).2 (by decide)

/-! ## One grammar, two parsers -/

/-- The two parsers accept the same, and what `--lifetime` makes expires the
seconds of the configuration's parser later than now. -/
def ParsersAgree (b : Profile) (dflt : Option Nat) (now : Int) (s : Text) : Prop :=
  ((∃ e, parseLifetime b dflt now (some s) = some (.ok e)) ↔ ∃ d, parseDuration b s = some (.ok d)) ∧
    ∀ d, parseDuration b s = some (.ok d) → parseLifetime b dflt now (some s) = some (.ok (some (now + d)))

/-- The seconds of a duration and the sum with the clock, for both parsers. A
release build may wrap both products, to the same residue. -/
def Profile.LifetimeFits (now : Int) (secs : Nat) : Profile → Prop
  | .debug => secs < 2 ^ 63 ∧ FitsI64 (now + secs)
  | .release => FitsI64 (now + (secs % 2 ^ 64 : Nat))

/-- Either the text, trimmed, is no duration that the configuration takes, or
it has no whitespace around it, a number that fits `i64` and seconds that fit. -/
def AgreesWhen (b : Profile) (now : Int) (s : Text) : Prop :=
  ∀ n mult, Denotes (Text.trim s) n mult → n < 2 ^ 64 → (b = .debug → n * mult < 2 ^ 64) →
    Text.trim s = s ∧ n < 2 ^ 63 ∧ b.LifetimeFits now (n * mult)

section

variable {b : Profile} {dflt : Option Nat} {now : Int} {s : Text}

theorem wrapI64_add_mod (now : Int) (p : Nat) : wrapI64 (now + (p % 2 ^ 64 : Nat)) = wrapI64 (now + p) := by
  unfold wrapI64
  rw [Int.natCast_emod]
  exact Int.add_emod_bmod p (2 ^ 64)

/-- The two products and the sum, where they fit. -/
theorem Profile.LifetimeFits.sum {p d : Nat} (h : b.LifetimeFits now p) (hd : b.toU64 p = some d) :
    ∃ secs, b.toI64 p = some secs ∧ b.toI64 (now + secs) = some (now + d) := by
  cases b with
  | debug =>
    obtain ⟨hp, hsum⟩ := h
    obtain ⟨-, rfl⟩ := toU64_debug.1 hd
    exact ⟨p, toI64_self.2 (fitsI64_natCast.2 hp), toI64_self.2 hsum⟩
  | release =>
    obtain rfl : p % 2 ^ 64 = d := Option.some.inj hd
    refine ⟨_, rfl, ?_⟩
    simp only [toI64, wrapI64_add, Option.some.injEq]
    rw [← wrapI64_add_mod, FitsI64.wrap h]

/-- Where `--lifetime` is accepted, so is the same text in the configuration. -/
theorem parseDuration_of_parseLifetime {e : Option Int} (hs : s ≠ [])
    (h : parseLifetime b dflt now (some s) = some (.ok e)) : ∃ d, parseDuration b s = some (.ok d) := by
  obtain ⟨secs, expires, hsecs, -, -⟩ := (parseLifetime_eq_ok hs).1 h
  obtain ⟨n, mult, hden, hn, hprod⟩ := lifetimeSecs_eq_ok.1 hsecs
  have hparse : ∀ d, b.toU64 (n * mult) = some d → parseDuration b s = some (.ok d) := fun d hd =>
    parseDuration_eq_ok.2 ⟨n, mult, by rwa [hden.trim], by omega, hd⟩
  cases b with
  | debug =>
    have hfits := (Profile.toI64_debug.1 hprod).1
    rw [← Int.natCast_mul, fitsI64_natCast] at hfits
    exact ⟨n * mult, hparse _ (Profile.toU64_self.2 (by omega))⟩
  | release => exact ⟨_, hparse _ rfl⟩

/-- **The parsers agree** on a text exactly when it is a duration for neither,
or has no whitespace around it and numbers that fit. -/
theorem parsers_agree_iff (hs : s ≠ []) : ParsersAgree b dflt now s ↔ AgreesWhen b now s := by
  constructor
  · intro h n mult hden hn hdebug
    obtain ⟨d, hd⟩ : ∃ d, b.toU64 (n * mult) = some d := by
      cases b with
      | debug => exact ⟨_, Profile.toU64_self.2 (hdebug rfl)⟩
      | release => exact ⟨_, rfl⟩
    obtain ⟨secs, expires, hsecs, hsum, he⟩ :=
      (parseLifetime_eq_ok hs).1 (h.2 d (parseDuration_eq_ok.2 ⟨n, mult, hden, hn, hd⟩))
    obtain ⟨n', mult', hden', hn', hprod⟩ := lifetimeSecs_eq_ok.1 hsecs
    have htrim := hden'.trim
    rw [htrim] at hden
    obtain ⟨rfl, rfl⟩ := hden.unique hden'
    obtain rfl : now + d = expires := Option.some.inj he
    refine ⟨htrim, hn', ?_⟩
    cases b with
    | debug =>
      have hfits := (Profile.toI64_debug.1 hprod).1
      rw [← Int.natCast_mul, fitsI64_natCast] at hfits
      obtain ⟨-, rfl⟩ := Profile.toU64_debug.1 hd
      exact ⟨hfits, Profile.toI64_fits hsum⟩
    | release =>
      obtain rfl : n' * mult' % 2 ^ 64 = d := Option.some.inj hd
      exact Profile.toI64_fits hsum
  · intro h
    have hsame : ∀ d, parseDuration b s = some (.ok d) →
        parseLifetime b dflt now (some s) = some (.ok (some (now + d))) := by
      intro d hd
      obtain ⟨n, mult, hden, hn, hprod⟩ := parseDuration_eq_ok.1 hd
      have hdebug : b = .debug → n * mult < 2 ^ 64 := by
        rintro rfl
        exact (Profile.toU64_debug.1 hprod).1
      obtain ⟨htrim, hn', hfits⟩ := h n mult hden hn hdebug
      rw [htrim] at hden
      obtain ⟨secs, hsecs, hsum⟩ := hfits.sum hprod
      rw [Int.natCast_mul] at hsecs
      exact (parseLifetime_eq_ok hs).2 ⟨secs, _, lifetimeSecs_eq_ok.2 ⟨n, mult, hden, hn', hsecs⟩, hsum, rfl⟩
    refine ⟨⟨?_, ?_⟩, hsame⟩
    · rintro ⟨e, he⟩
      exact parseDuration_of_parseLifetime hs he
    · rintro ⟨d, hd⟩
      exact ⟨_, hsame d hd⟩

end

/-- Thirty days, as they are usually written. -/
theorem parsers_agree_days : ParsersAgree .release none 0 "30d".toList := by
  refine (parsers_agree_iff (by decide)).2 fun n mult hden _ _ => ?_
  have h : Denotes "30d".toList 30 86400 := denotes_iff.2 ⟨by decide, by decide, by decide⟩
  obtain ⟨rfl, rfl⟩ := h.unique (h.trim ▸ hden)
  exact ⟨h.trim, by decide, (by decide : FitsI64 (0 + (30 * 86400 % 2 ^ 64 : Nat)))⟩

/-- A space in front of them is nothing to the configuration, and no number
on the command line. -/
theorem parsers_disagree_space :
    (∀ b, parseDuration b " 30d".toList = some (.ok 2592000)) ∧
      (∀ b dflt now, parseLifetime b dflt now (some " 30d".toList) =
        some (.error (.badRequest "invalid lifetime:  30d".toList))) ∧
      ∀ b dflt now, ¬ ParsersAgree b dflt now " 30d".toList := by
  have h : Denotes (Text.trim " 30d".toList) 30 86400 := denotes_iff.2 ⟨by decide, by decide, by decide⟩
  have hok : ∀ b, parseDuration b " 30d".toList = some (.ok 2592000) := fun b =>
    parseDuration_eq_ok.2 ⟨_, _, h, by decide, Profile.toU64_self.2 (by decide)⟩
  refine ⟨hok, fun b dflt now => rfl, fun b dflt now hagree => ?_⟩
  have hlife := hagree.2 _ (hok b)
  cases hlife

end Wikikiki
