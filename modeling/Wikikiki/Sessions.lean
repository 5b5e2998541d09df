/-
Which sessions are valid (auth/session.rs, web/mod.rs): a login makes one, a
logout with its cookie ends it, and in between the cookie is the actor's until
the session expires.

The expiry is a sum of two `i64`, and the configured lifetime was cast to one:
`resolve_iff` is for logins whose expiry fits, `forever_expires_at_once` is
what becomes of another.
-/
import Wikikiki.Gate

namespace Wikikiki

open Grants (History)

/-! ## Expiry -/

def FitsI64 (x : Int) : Prop := -2 ^ 63 ≤ x ∧ x < 2 ^ 63

theorem wrapI64_add (x y : Int) : wrapI64 (x + wrapI64 y) = wrapI64 (x + y) := by
  unfold wrapI64
  exact Int.add_bmod_bmod

theorem FitsI64.wrap {x : Int} (h : FitsI64 x) : wrapI64 x = x := by
  obtain ⟨hlo, hhi⟩ := h
  exact Int.bmod_eq_of_le (by omega) (by omega)

/-! ## The table -/

/-- What the row of a session keeps of the login. -/
structure LoginKept (r : SessionRow) (l : Login) : Prop where
  actorId : r.actorId = l.actorId
  expiresAt : r.expiresAt = wrapI64 (l.time + l.lifetime)

abbrev Access.KeepsLogins (acc : Access) (h : History Text Login) : Prop :=
  Grants.Kept LoginKept (fun r => r.revokedAt = none) h acc.findSession

section

variable {acc acc' : Access} {actors : Table ActorRow} {now : Int} {sid : Text} {actor : Actor}
  {h : History Text Login} {r : SessionRow}

theorem Access.findSession_eq_some : acc.findSession sid = some r ↔ r ∈ acc.sessions ∧ r.id = sid := by
  rw [findSession, Table.find?_eq_some acc.uniqueId (k := sid) (by simp)]
  simp

theorem Access.lookupSession_eq_some : acc.lookupSession actors sid now = some actor ↔
    ∃ r, acc.findSession sid = some r ∧ r.revokedAt = none ∧ now < r.expiresAt ∧
      actorById actors r.actorId = some actor ∧ actor.isActive = true := by
  -- The row with the id is the only one that the query can return.
  have hfind : ∀ r, (acc.sessions.find? fun r => r.id = sid ∧ r.revokedAt = none ∧ now < r.expiresAt) = some r ↔
      acc.findSession sid = some r ∧ r.revokedAt = none ∧ now < r.expiresAt := by
    intro r
    rw [Table.find?_eq_some acc.uniqueId (k := sid) (by simp +contextual), findSession_eq_some]
    simp only [decide_eq_true_eq, and_assoc]
  simp only [lookupSession, Option.filter_eq_some_iff, Option.bind_eq_some_iff, hfind]
  constructor
  · intro hl
    obtain ⟨⟨r, ⟨hr, hrev, hnow⟩, ha⟩, hact⟩ := hl
    exact ⟨r, hr, hrev, hnow, ha, hact⟩
  · intro hl
    obtain ⟨r, hr, hrev, hnow, ha, hact⟩ := hl
    exact ⟨⟨r, ⟨hr, hrev, hnow⟩, ha⟩, hact⟩

theorem Access.KeepsLogins.create (hk : acc.KeepsLogins h) {actorId : Int} {lifetime : Nat} {said : Text}
    (hc : acc.createSession actors sid actorId now (asSecs lifetime) said = .ok acc') :
    acc'.KeepsLogins (h ++ [.granted sid { actorId, time := now, lifetime }]) := by
  unfold Access.createSession at hc
  split at hc
  next hnew =>
    split at hc
    · cases hc
    · cases hc
      have hnone : acc.findSession sid = none := by
        cases hf : acc.findSession sid with
        | none => rfl
        | some r =>
          obtain ⟨hm, hid⟩ := Access.findSession_eq_some.1 hf
          exact absurd hid (hnew r hm)
      have hkeep : LoginKept
          { id := sid, actorId, createdAt := now, expiresAt := wrapI64 (now + asSecs lifetime), revokedAt := none }
          { actorId, time := now, lifetime } := ⟨rfl, wrapI64_add _ _⟩
      refine (Grants.Kept.grant hk hnone hkeep rfl).of_eq fun j => ?_
      by_cases hj : j = sid
      · subst hj
        rw [Function.update_self, Access.findSession, List.find?_append,
          show acc.sessions.find? (fun r => r.id = j) = none from hnone]
        simp
      · rw [Function.update_of_ne hj, Access.findSession, List.find?_append, Access.findSession]
        simp [Ne.symm hj]
  · cases hc

theorem Access.KeepsLogins.revoke (hk : acc.KeepsLogins h) (sid : Text) (now : Int) :
    (acc.revokeSession sid now).KeepsLogins (h ++ [.revoked sid]) := by
  have hfind : ∀ j, (acc.revokeSession sid now).findSession j =
      (acc.findSession j).map fun r => if r.id = sid then { r with revokedAt := some now } else r := by
    intro j
    rw [Access.findSession, Access.revokeSession, List.find?_map, Access.findSession]
    congr 2
    funext r
    simp only [Function.comp_apply]
    split <;> rfl
  refine Grants.Kept.revoke hk (fun r => { r with revokedAt := some now }) ?_ (fun j hj => ?_)
    (fun r l => ⟨fun hg => ⟨hg.actorId, hg.expiresAt⟩, fun hg => ⟨hg.actorId, hg.expiresAt⟩⟩) fun r _ => by simp
  · rw [hfind]
    cases hr : acc.findSession sid with
    | none => rfl
    | some r => simp [(Access.findSession_eq_some.1 hr).2]
  · rw [hfind]
    cases hr : acc.findSession j with
    | none => rfl
    | some r => simp [(Access.findSession_eq_some.1 hr).2, hj]

theorem Access.KeepsLogins.of_sessions (hk : acc.KeepsLogins h) (hs : acc'.sessions = acc.sessions) :
    acc'.KeepsLogins h :=
  Grants.Kept.of_eq hk fun j => by rw [Access.findSession, hs, Access.findSession]

end

/-! ## Runs -/

namespace Gate

section

variable {g : Gate} {s s' s₀ : State} {a : Action} {as : List Action} {cookie : Text} {actor : Actor}

theorem step_logins (hstep : g.step s a = some s') (h : s.access.KeepsLogins s.logins) :
    s'.access.KeepsLogins s'.logins := by
  cases a with
  | issue bytes actorId label expiresAt said =>
    simp only [step] at hstep
    split at hstep
    · cases hstep; exact h
    next issued access hi => cases hstep; exact h.of_sessions (Access.issue_sessions hi)
  | verify k token =>
    simp only [step] at hstep
    split at hstep <;> cases hstep
    exact h
  | upgrade k ok =>
    simp only [step] at hstep
    split at hstep <;> cases hstep
    exact h.of_sessions (Access.upgrade_sessions _ _ _ _)
  | touch k ok =>
    simp only [step] at hstep
    split at hstep <;> cases hstep
    refine h.of_sessions ?_
    split <;> rfl
  | revoke id =>
    simp only [step] at hstep
    split at hstep
    · cases hstep; exact h
    next access hr => cases hstep; exact h.of_sessions (Access.revoke_sessions hr)
  | login handle password sid said =>
    simp only [step] at hstep
    split at hstep
    · cases hstep; exact h
    next actor access hl =>
      cases hstep
      unfold login at hl
      split at hl
      · cases hl
      split at hl
      · cases hl
      next hc => cases hl; exact h.create hc
  | logout cookie =>
    simp only [step] at hstep
    split at hstep <;> cases hstep
    · exact h
    · exact h.revoke _ _
  | administer actors => cases hstep; exact h
  | clock now => cases hstep; exact h

/-- What happened stays in the history. -/
theorem step_logins_mono (hstep : g.step s a = some s') : s.logins <+: s'.logins := by
  cases a <;> simp only [step] at hstep <;> (try split at hstep) <;> cases hstep <;>
    first | exact List.prefix_rfl | exact List.prefix_append _ _

end

/-- `resolve_actor` in a state. -/
def resolve (g : Gate) (s : State) (surface : Surface) (authHeader cookie : Option Text) (oks : Updates) :
    Option Auth :=
  (s.access.resolveActor g.ext g.argon2 s.actors s.used s.now surface authHeader cookie oks).1

/-- No token in the header is valid. -/
def NoToken (g : Gate) (s : State) (authHeader : Option Text) : Prop :=
  s.access.resolveToken g.ext g.argon2 s.actors s.now authHeader = none

/-- The first session in the cookie is of a login for the actor, it has not
expired, nobody has logged out with it, and the actor is active. -/
def State.LoggedIn (s : State) (cookie : Text) (actor : Actor) : Prop :=
  ∃ sid l, FirstPair cookie sessionCookie sid ∧ .granted sid l ∈ s.logins ∧ s.now < l.time + l.lifetime ∧
    .revoked sid ∉ s.logins ∧ actorById s.actors l.actorId = some actor ∧ actor.isActive = true

/-- Session ids are unique: nobody has named one before it was drawn. -/
def UniqueIds (h : History Text Login) : Prop :=
  ∀ pre post sid l, h = pre ++ .granted sid l :: post → .revoked sid ∉ pre

/-- The expiry of every login fits an `i64`. -/
def ExpiriesFit (h : History Text Login) : Prop := ∀ sid l, .granted sid l ∈ h → FitsI64 (l.time + l.lifetime)

section

variable {g : Gate} {s s' s₀ : State} {a : Action} {as : List Action} {cookie : Text} {actor : Actor}

theorem lookupSession_iff (h : s.access.KeepsLogins s.logins) (hu : UniqueIds s.logins)
    (hfit : ExpiriesFit s.logins) {sid : Text} :
    s.access.lookupSession s.actors sid s.now = some actor ↔
      ∃ l, .granted sid l ∈ s.logins ∧ s.now < l.time + l.lifetime ∧ .revoked sid ∉ s.logins ∧
        actorById s.actors l.actorId = some actor ∧ actor.isActive = true := by
  rw [Access.lookupSession_eq_some]
  have hlive : ∀ l, Grants.Live s.logins sid l ↔ .granted sid l ∈ s.logins ∧ .revoked sid ∉ s.logins := fun l =>
    Grants.live_iff_of_fresh fun pre post he => hu pre post sid l he
  constructor
  · intro hr
    obtain ⟨r, hr, hrev, hnow, ha, hact⟩ := hr
    obtain ⟨l, hm, hkeep⟩ := h.granted sid r hr
    have hl := (hlive l).1 (h.live_iff.2 ⟨hm, r, hr, hkeep, hrev⟩)
    rw [hkeep.expiresAt, (hfit sid l hm).wrap] at hnow
    exact ⟨l, hm, hnow, hl.2, hkeep.actorId ▸ ha, hact⟩
  · intro hl
    obtain ⟨l, hm, hnow, hrev, ha, hact⟩ := hl
    obtain ⟨-, r, hr, hkeep, hopen⟩ := h.live_iff.1 ((hlive l).2 ⟨hm, hrev⟩)
    refine ⟨r, hr, hopen, ?_, hkeep.actorId ▸ ha, hact⟩
    rwa [hkeep.expiresAt, (hfit sid l hm).wrap]

/-- A logout is in the history for good. -/
theorem logged_out (hr : g.run s₀ as = some s) (hout : .logout (some cookie) ∈ as) {sid : Text}
    (hp : FirstPair cookie sessionCookie sid) : .revoked sid ∈ s.logins := by
  obtain ⟨pre, post, rfl⟩ := List.append_of_mem hout
  obtain ⟨t, -, hr⟩ := Run.run_append.1 hr
  obtain ⟨t', ht, hr⟩ := Run.run_cons.1 hr
  refine Run.invariant (fun hstep hm => (step_logins_mono hstep).subset hm) hr ?_
  simp only [step, Option.bind_some, (parseCookie_eq_some (by decide)).2 hp] at ht
  cases ht
  simp

/-- **Which sessions are valid.** In every state of every run in which the
expiries of all logins fit an `i64`: a request without a valid token is the
actor's exactly when the first session in its cookie is of a login for that
actor, has not expired, has not been logged out, and the actor is active. So a
cookie that somebody has logged out with is nobody's from then on. -/
theorem resolve_iff (h₀ : s₀.access.KeepsLogins s₀.logins) (hr : g.run s₀ as = some s)
    (hu : UniqueIds s.logins) (hfit : ExpiriesFit s.logins) :
    (∀ surface authHeader oks, g.NoToken s authHeader → ∀ actor,
      (∃ auth, g.resolve s surface authHeader (some cookie) oks = some auth ∧ auth.actor = actor) ↔
        s.LoggedIn cookie actor) ∧
    (.logout (some cookie) ∈ as → ∀ surface authHeader oks, g.NoToken s authHeader →
      g.resolve s surface authHeader (some cookie) oks = none) := by
  have hk := Run.invariant (I := fun s => s.access.KeepsLogins s.logins) step_logins hr h₀
  have hiff : ∀ surface authHeader oks, g.NoToken s authHeader → ∀ actor,
      (∃ auth, g.resolve s surface authHeader (some cookie) oks = some auth ∧ auth.actor = actor) ↔
        s.LoggedIn cookie actor := by
    intro surface authHeader oks hno actor
    rw [resolve, Access.resolveActor_eq, show s.access.resolveToken _ _ _ _ authHeader = none from hno]
    simp only [Access.resolveSession, Option.bind_some, Option.bind_eq_some_iff, Option.map_eq_some_iff]
    constructor
    · intro hex
      obtain ⟨auth, ⟨sid, hp, actor, hl, rfl⟩, rfl⟩ := hex
      obtain ⟨l, hl⟩ := (lookupSession_iff hk hu hfit).1 hl
      exact ⟨sid, l, (parseCookie_eq_some (by decide)).1 hp, hl⟩
    · intro hex
      obtain ⟨sid, l, hp, hl⟩ := hex
      have hl := (lookupSession_iff hk hu hfit).2 ⟨l, hl⟩
      exact ⟨_, ⟨sid, (parseCookie_eq_some (by decide)).2 hp, actor, hl, rfl⟩, rfl⟩
  refine ⟨hiff, fun hout surface authHeader oks hno => ?_⟩
  rw [Option.eq_none_iff_forall_ne_some]
  intro auth hauth
  obtain ⟨sid, l, hp, -, -, hrev, -⟩ := (hiff surface authHeader oks hno auth.actor).1 ⟨auth, hauth, rfl⟩
  exact hrev (logged_out hr hout hp)

end

def smallActor : Actor where
  id := 1
  actorType := "human".toList
  name := "Alice".toList
  handle := "alice".toList
  isAdmin := false
  isActive := true

/-- A login, a request later, a logout with another session in the same
header, and the first one again. -/
theorem resolve_iff_small :
    ∃ s, (small 60).run smallState
        [.login "alice".toList "hunter2".toList "s".toList [], .clock 59,
          .logout (some "wk_session=t; wk_session=s".toList)] = some s ∧
      ((∀ surface authHeader oks, (small 60).NoToken s authHeader → ∀ actor,
        (∃ auth, (small 60).resolve s surface authHeader (some "a=b; wk_session=s".toList) oks = some auth ∧
          auth.actor = actor) ↔ s.LoggedIn "a=b; wk_session=s".toList actor) ∧
      (.logout (some "a=b; wk_session=s".toList) ∈ [Action.login "alice".toList "hunter2".toList "s".toList [],
          .clock 59, .logout (some "wk_session=t; wk_session=s".toList)] → ∀ surface authHeader oks,
        (small 60).NoToken s authHeader →
          (small 60).resolve s surface authHeader (some "a=b; wk_session=s".toList) oks = none)) ∧
      (∃ auth, (small 60).resolve s .ui none (some "a=b; wk_session=s".toList) ⟨true, true⟩ = some auth) := by
  obtain ⟨s, hs⟩ : ∃ s, (small 60).run smallState
      [.login "alice".toList "hunter2".toList "s".toList [], .clock 59,
        .logout (some "wk_session=t; wk_session=s".toList)] = some s := ⟨_, rfl⟩
  have hlogins : s.logins = [.granted "s".toList ⟨1, 0, 60⟩, .revoked "t".toList] := by cases hs; rfl
  have hunique : UniqueIds s.logins := by
    intro pre post sid l he
    rw [hlogins] at he
    cases pre with
    | nil => exact List.not_mem_nil
    | cons e pre =>
      obtain ⟨-, htail⟩ := List.cons.inj he
      have hm : .granted sid l ∈ ([.revoked "t".toList] : History Text Login) := by rw [htail]; simp
      cases List.mem_singleton.1 hm
  have hfit : ExpiriesFit s.logins := by
    intro sid l hm
    rw [hlogins] at hm
    simp only [List.mem_cons, Grants.Event.granted.injEq, reduceCtorEq, List.not_mem_nil, or_false] at hm
    obtain ⟨-, rfl⟩ := hm
    exact ⟨by decide, by decide⟩
  refine ⟨s, hs, resolve_iff (Grants.kept_nil fun _ => rfl) hs hunique hfit, ?_⟩
  cases hs
  exact ⟨⟨smallActor, .ui⟩, rfl⟩

/-- **A session for ever.** A lifetime of three hundred thousand million years
is accepted, and its seconds are a negative `i64`: the login succeeds and the
session has expired. -/
theorem forever_expires_at_once :
    ∃ s, (small 9460800000000000000).run smallState
        [.login "alice".toList "hunter2".toList "s".toList []] = some s ∧
      (∃ actor, s.LoggedIn "wk_session=s".toList actor) ∧
      (small 9460800000000000000).NoToken s none ∧
      (small 9460800000000000000).resolve s .ui none (some "wk_session=s".toList) ⟨true, true⟩ = none := by
  obtain ⟨s, hs⟩ : ∃ s, (small 9460800000000000000).run smallState
      [.login "alice".toList "hunter2".toList "s".toList []] = some s := ⟨_, rfl⟩
  have hlogins : s.logins = [.granted "s".toList ⟨1, 0, 9460800000000000000⟩] := by cases hs; rfl
  have hnow : s.now = 0 := by cases hs; rfl
  have hactors : s.actors = (Db.small none).actors := by cases hs; rfl
  have hpair : FirstPair "wk_session=s".toList sessionCookie "s".toList :=
    (parseCookie_eq_some (by decide)).1 (by decide)
  have hrevoked : .revoked "s".toList ∉ s.logins := by rw [hlogins]; simp
  refine ⟨s, hs, ⟨smallActor, "s".toList, ⟨1, 0, 9460800000000000000⟩, hpair, ?_, ?_, hrevoked, ?_, rfl⟩, rfl, ?_⟩
  · rw [hlogins]
    exact List.mem_singleton_self _
  · rw [hnow]
    decide
  · rw [hactors]
    rfl
  · cases hs
    rfl

end Gate

end Wikikiki
