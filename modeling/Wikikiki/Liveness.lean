/-
Liveness bookkeeping under concurrency (throttle.rs, and its two callers in
web/mod.rs and auth/token.rs): requests that each read the clock and later
call `claim` with what they read, in any interleaving.

`claim` takes the lock of the map, so claims come one after the other, but
not in the order of their readings: a request can be overtaken between the
two. `claim` takes an earlier reading for a clock that was set back and grants
it. `claims_spaced` is about the runs in which nobody is overtaken;
`overtaken_claim` is a run with two grants within a second.
-/
import Wikikiki.Auth
import Wikikiki.Lib.Run

namespace Wikikiki

/-- `Throttle::new`. -/
def Throttle.new (intervalSecs : Int) : Throttle where
  interval := max intervalSecs 0
  last _ := none

namespace Liveness

/-! ## Requests at a throttle -/

/-- One call of `claim`, and what it returned. -/
structure Claim where
  key : Int
  reading : Int
  granted : Bool

structure St where
  clock : Int
  throttle : Throttle
  /-- What each request has read and not yet used. -/
  held : Nat → Option Int
  /-- The calls so far, in the order in which they held the lock. -/
  claims : List Claim

inductive Action where
  | tick (secs : Nat)
  | read (request : Nat)
  | claim (request : Nat) (key : Int)

def step (s : St) : Action → Option St
  | .tick secs => some { s with clock := s.clock + secs }
  | .read request =>
    if s.held request = none then some { s with held := Function.update s.held request (some s.clock) }
    else none
  | .claim request key =>
    match s.held request with
    | none => none
    | some reading =>
      let (granted, throttle) := s.throttle.claim key reading
      some { s with
        throttle
        held := Function.update s.held request none
        claims := s.claims ++ [{ key, reading, granted }] }

def start (interval clock : Int) : St where
  clock
  throttle := .new interval
  held _ := none
  claims := []

/-- The calls for one key, with their readings and their results. -/
def readings (key : Int) (claims : List Claim) : List Int :=
  (claims.filter fun c => c.key = key).map (·.reading)

def results (key : Int) (claims : List Claim) : List Bool :=
  (claims.filter fun c => c.key = key).map (·.granted)

/-- Two grants of one key have readings at least `interval` apart. -/
def Spaced (interval : Int) (claims : List Claim) : Prop :=
  claims.Pairwise fun a b => a.key = b.key → a.granted = true → b.granted = true →
    interval ≤ b.reading - a.reading ∨ interval ≤ a.reading - b.reading

/-! ## One key alone -/

/-- Whether a key that was last claimed at `last` may be claimed at `now`. -/
def mayClaim (interval : Int) (last : Option Int) (now : Int) : Bool :=
  match last with
  | some prev => ! decide (prev ≤ now ∧ now - prev < interval)
  | none => true

/-- A key nobody else has anything to do with: when it was last claimed, and
the results. -/
def replay (interval : Int) (readings : List Int) : Option Int × List Bool :=
  readings.foldl (fun (last, results) now =>
    if mayClaim interval last now then (some now, results ++ [true]) else (last, results ++ [false])) (none, [])

theorem replay_concat (interval : Int) (readings : List Int) (now : Int) :
    replay interval (readings ++ [now]) =
      if mayClaim interval (replay interval readings).1 now then (some now, (replay interval readings).2 ++ [true])
      else ((replay interval readings).1, (replay interval readings).2 ++ [false]) := by
  rw [replay, List.foldl_concat]
  rfl

section

variable {s s' : St} {th : Throttle} {key reading interval clock : Int} {as : List Action}

/-- What a claim does: it looks at its own key, and writes only there. -/
theorem claim_spec (th : Throttle) (key now : Int) :
    (th.claim key now).1 = mayClaim th.interval (th.last key) now ∧
    (th.claim key now).2 = if (th.claim key now).1
      then { th with last := Function.update th.last key (some now) } else th := by
  unfold Throttle.claim mayClaim
  cases th.last key with
  | none => exact ⟨rfl, rfl⟩
  | some prev => by_cases h : prev ≤ now ∧ now - prev < th.interval <;> simp [h]

/-- What a step can do to the throttle and the calls. -/
theorem step_cases {a : Action} (h : step s a = some s') :
    (s'.throttle = s.throttle ∧ s'.claims = s.claims) ∨
    ∃ c : Claim, (∃ request, a = .claim request c.key ∧ s.held request = some c.reading) ∧
      c.granted = mayClaim s.throttle.interval (s.throttle.last c.key) c.reading ∧
      s'.claims = s.claims ++ [c] ∧
      s'.throttle = if c.granted
        then { s.throttle with last := Function.update s.throttle.last c.key (some c.reading) }
        else s.throttle := by
  cases a with
  | tick secs => cases h; exact .inl ⟨rfl, rfl⟩
  | read request =>
    simp only [step] at h
    split at h
    · cases h; exact .inl ⟨rfl, rfl⟩
    · cases h
  | claim request key =>
    simp only [step] at h
    cases hheld : s.held request with
    | none => simp [hheld] at h
    | some reading =>
      simp only [hheld, Option.some.injEq] at h
      subst h
      obtain ⟨hgrant, hmap⟩ := claim_spec s.throttle key reading
      exact .inr ⟨⟨key, reading, (s.throttle.claim key reading).1⟩, ⟨request, rfl, hheld⟩, hgrant, rfl, hmap⟩

/-! ## Every key by itself -/

/-- The map holds for each key what its own calls made of it. -/
structure Separate (interval : Int) (s : St) : Prop where
  interval_eq : s.throttle.interval = max interval 0
  replay_eq : ∀ key, replay (max interval 0) (readings key s.claims) =
    (s.throttle.last key, results key s.claims)

theorem Separate.step {a : Action} (hi : Separate interval s) (h : step s a = some s') :
    Separate interval s' := by
  rcases step_cases h with ⟨hth, hcl⟩ | ⟨c, -, hgrant, hcl, hth⟩
  · exact ⟨hth ▸ hi.interval_eq, fun k => by rw [hth, hcl, hi.replay_eq]⟩
  refine ⟨?_, fun k => ?_⟩
  · rw [hth]
    split
    · exact hi.interval_eq
    · exact hi.interval_eq
  · rw [hi.interval_eq] at hgrant
    by_cases hk : c.key = k
    · subst hk
      have hr : readings c.key s'.claims = readings c.key s.claims ++ [c.reading] := by simp [readings, hcl]
      have hres : results c.key s'.claims = results c.key s.claims ++ [c.granted] := by simp [results, hcl]
      rw [hr, hres, replay_concat, hi.replay_eq, hth, ← hgrant]
      cases c.granted <;> simp
    · have hr : readings k s'.claims = readings k s.claims := by simp [readings, hcl, hk]
      have hres : results k s'.claims = results k s.claims := by simp [results, hcl, hk]
      rw [hr, hres, hi.replay_eq, hth]
      split
      · simp [Function.update_of_ne (Ne.symm hk)]
      · rfl

/-! ## Runs in clock order -/

/-- A claim does not come with an earlier reading than the one that its key
was last granted at. -/
def InOrder (s : St) (a : Action) : Prop :=
  ∀ request key reading prev, a = .claim request key → s.held request = some reading →
    s.throttle.last key = some prev → prev ≤ reading

/-- The grants so far are spaced, and the map has the last one of each key. -/
structure Ordered (interval : Int) (s : St) : Prop where
  interval_le : interval ≤ s.throttle.interval
  last_le : ∀ c ∈ s.claims, c.granted = true → ∃ prev, s.throttle.last c.key = some prev ∧ c.reading ≤ prev
  spaced : Spaced interval s.claims

/-- A claim at the end of a spaced list has to be apart from the grants of its
own key only. -/
theorem Spaced.concat {claims : List Claim} {c : Claim} (h : Spaced interval claims)
    (hc : ∀ a ∈ claims, a.key = c.key → a.granted = true → c.granted = true → interval ≤ c.reading - a.reading) :
    Spaced interval (claims ++ [c]) := by
  rw [Spaced, List.pairwise_append]
  refine ⟨h, by simp, fun a ha b hb hkey hga hgb => ?_⟩
  rw [List.mem_singleton.1 hb] at hkey hgb ⊢
  exact .inl (hc a ha hkey hga hgb)

theorem Ordered.step {a : Action} (hin : InOrder s a) (h : step s a = some s') (hi : Ordered interval s) :
    Ordered interval s' := by
  rcases step_cases h with ⟨hth, hcl⟩ | ⟨c, ⟨request, rfl, hheld⟩, hgrant, hcl, hth⟩
  · exact ⟨hth ▸ hi.interval_le, by rw [hth, hcl]; exact hi.last_le, hcl ▸ hi.spaced⟩
  have hlast : ∀ prev, s.throttle.last c.key = some prev → prev ≤ c.reading := fun prev =>
    hin request c.key c.reading prev rfl hheld
  cases hg : c.granted with
  | false =>
    -- A refusal changes the list of the calls only.
    simp only [hg, Bool.false_eq_true, if_false] at hth
    refine ⟨hth ▸ hi.interval_le, fun d hd hgd => ?_, ?_⟩
    · rw [hcl] at hd
      rw [hth]
      rcases List.mem_append.1 hd with hd | hd
      · exact hi.last_le d hd hgd
      · rw [List.mem_singleton.1 hd, hg] at hgd
        cases hgd
    · rw [hcl]
      exact hi.spaced.concat fun d _ _ _ hgc => absurd (hg.symm.trans hgc) (by decide)
  | true =>
    simp only [hg, if_true] at hth
    rw [hg] at hgrant
    refine ⟨by rw [hth]; exact hi.interval_le, fun d hd hgd => ?_, ?_⟩
    · rw [hcl] at hd
      rw [hth]
      by_cases hk : d.key = c.key
      · refine ⟨c.reading, by simp [hk], ?_⟩
        rcases List.mem_append.1 hd with hd | hd
        · obtain ⟨prev, hprev, hle⟩ := hi.last_le d hd hgd
          rw [hk] at hprev
          exact Int.le_trans hle (hlast prev hprev)
        · exact Int.le_of_eq (by rw [List.mem_singleton.1 hd])
      · have hd : d ∈ s.claims := by
          rcases List.mem_append.1 hd with hd | hd
          · exact hd
          · exact absurd (congrArg Claim.key (List.mem_singleton.1 hd)) hk
        obtain ⟨prev, hprev, hle⟩ := hi.last_le d hd hgd
        exact ⟨prev, by simpa [Function.update_of_ne hk] using hprev, hle⟩
    · rw [hcl]
      refine hi.spaced.concat fun d hd hk hgd _ => ?_
      -- The key was granted at `prev`, and the new reading is far enough behind it.
      obtain ⟨prev, hprev, hle⟩ := hi.last_le d hd hgd
      rw [hk] at hprev
      have hafter := hlast prev hprev
      have hfar : s.throttle.interval ≤ c.reading - prev := by
        simpa [mayClaim, hprev, hafter] using hgrant.symm
      have hint := hi.interval_le
      omega

end

/-- **At most one grant an interval.** In every run the results for a key are
what its own readings give, whatever is claimed for other keys; and when no
claim arrives with an earlier reading than its key was last granted at, two
grants of one key are at least an interval apart. -/
theorem claims_spaced {interval clock : Int} {as : List Action} {s : St}
    (hr : Run.run step (start interval clock) as = some s) :
    (∀ key, results key s.claims = (replay (max interval 0) (readings key s.claims)).2) ∧
    (Run.Every step InOrder (start interval clock) as → Spaced interval s.claims) := by
  constructor
  · intro key
    have h₀ : Separate interval (start interval clock) := ⟨rfl, fun _ => rfl⟩
    have hsep := Run.invariant (I := Separate interval) (fun h hi => hi.step h) hr h₀
    rw [hsep.replay_eq]
  · intro hev
    have h₀ : Ordered interval (start interval clock) :=
      ⟨by simp only [start, Throttle.new]; omega, by simp [start], .nil⟩
    exact (hev.invariant (I := Ordered interval) (fun hR h hi => hi.step hR h) hr h₀).spaced

/-- Two requests a minute apart. -/
def minuteApart : List Action := [.read 0, .claim 0 7, .tick 60, .read 1, .claim 1 7]

theorem claims_spaced_minute : ∃ s, Run.run step (start 60 100) minuteApart = some s ∧
    results 7 s.claims = [true, true] ∧ Spaced 60 s.claims := by
  have hread : ∀ s r, InOrder s (.read r) := by
    intro s r _ _ _ _ h
    cases h
  have htick : ∀ s n, InOrder s (.tick n) := by
    intro s n _ _ _ _ h
    cases h
  have hev : Run.Every step InOrder (start 60 100) minuteApart := by
    refine (Run.every_cons rfl).2 ⟨hread _ _, (Run.every_cons rfl).2 ⟨?_, (Run.every_cons rfl).2 ⟨htick _ _,
      (Run.every_cons rfl).2 ⟨hread _ _, (Run.every_cons rfl).2 ⟨?_, Run.every_nil⟩⟩⟩⟩⟩
    · intro request key reading prev ha hh hl
      cases ha
      cases hl
    · intro request key reading prev ha hh hl
      cases ha
      cases hh
      cases hl
      decide
  obtain ⟨s, hs⟩ : ∃ s, Run.run step (start 60 100) minuteApart = some s := ⟨_, rfl⟩
  have hspaced := claims_spaced hs
  refine ⟨s, hs, ?_, hspaced.2 hev⟩
  cases hs
  rfl

/-- Request 0 reads the clock, request 1 reads it a second later and claims
first: both are granted. -/
theorem overtaken_claim :
    (∃ s, Run.run step (start 60 99) [.read 0, .tick 1, .read 1, .claim 1 7, .claim 0 7] = some s ∧
      s.claims = [⟨7, 100, true⟩, ⟨7, 99, true⟩]) ∧
    ¬ ∀ (interval clock : Int) (as : List Action) (s : St),
        Run.run step (start interval clock) as = some s → Spaced interval s.claims := by
  have hex : ∃ s, Run.run step (start 60 99) [.read 0, .tick 1, .read 1, .claim 1 7, .claim 0 7] = some s ∧
      s.claims = [⟨7, 100, true⟩, ⟨7, 99, true⟩] := ⟨_, rfl, rfl⟩
  refine ⟨hex, fun hall => ?_⟩
  obtain ⟨s, hr, hclaims⟩ := hex
  have hs := hall _ _ _ _ hr
  rw [hclaims, Spaced, List.pairwise_cons] at hs
  exact absurd (hs.1 _ List.mem_cons_self rfl rfl rfl) (by decide)

end Liveness

end Wikikiki
