/-
What it does to deactivate an actor, or a layer, while requests are on their
way (pages/mod.rs, auth/session.rs, auth/token.rs): nobody is found to be the
actor any more, and no page is written in their name, or in the layer, except
by the one write that was already behind its check and held the lock.

Each of the two has one check under the lock (`Bar.rank`), and behind it
nothing asks again.
-/
import Wikikiki.Attribution
import Wikikiki.Optimistic

namespace Wikikiki

/-! ## The two checks under the lock -/

/-- What can be deactivated. -/
inductive Bar where
  | layer (code : Text)
  | actor (id : Int)

namespace Bar

/-- It is not active, if it is there at all. -/
def Shut (layers : List LayerRow) (actors : Table ActorRow) : Bar → Prop
  | .layer code => ∀ l ∈ layers, l.code = code → l.isActive ≠ 1
  | .actor id => ∀ row, actors.get id = some row → row.isActive = 0

/-- The write is to the layer, or by the actor. -/
def Meets (wreq : WriteRequest) : Bar → Prop
  | .layer code => wreq.layer = code
  | .actor id => wreq.actorId = id

/-- The rank of its check. -/
def rank : Bar → Nat
  | .layer _ => 0
  | .actor _ => 1

/-- The check lets nobody through. -/
theorem stops {bar : Bar} {w : Wiki} {wreq : WriteRequest} {i : Input} {before next : Stage} {d d' : Stores}
    (hshut : bar.Shut d.db.layers d.db.actors) (hm : bar.Meets wreq)
    (he : w.exec wreq i before d = (.go next, d')) (hrank : bar.rank < next.rank) : bar.rank < before.rank := by
  have hnext := Wiki.exec_rank he
  by_contra hlt
  have hsame : before.rank = bar.rank := by omega
  cases bar with
  | layer code =>
    cases before with
    | checkLayer =>
      rcases checkLayer_spec d.db wreq with ⟨-, hok⟩ | ⟨-, e, hbad, -⟩
      · obtain ⟨l, hl, hcode, hact⟩ := Decidable.not_not.1 hok
        exact hshut l hl (hcode.trans hm) hact
      · simp only [Wiki.exec, hbad] at he
        cases he
    | _ => simp [Stage.rank, rank] at hsame
  | actor id =>
    cases before with
    | checkActor =>
      rcases checkActor_spec d.db wreq with ⟨-, hok⟩ | ⟨-, e, hbad, -⟩
      · obtain ⟨a, ha, hact, -⟩ := Decidable.not_not.1 hok
        obtain ⟨row, hrow, rfl⟩ := Option.map_eq_some_iff.1 ha
        simp [hshut row (hm ▸ hrow)] at hact
      · simp only [Wiki.exec, hbad] at he
        cases he
    | _ => simp [Stage.rank, rank] at hsame

end Bar

/-- Nobody but the administration changes layers and actors. -/
theorem step_tables {v : Service} {s s' : State} {a : Action} (h : step v s a = some s')
    (hadmin : ∀ layers actors, a ≠ .admin layers actors) :
    s'.stores.db.layers = s.stores.db.layers ∧ s'.stores.db.actors = s.stores.db.actors := by
  cases step_cases h with
  | advanced ht he => exact (Wiki.exec_effect he).tables
  | admin => exact absurd rfl (hadmin _ _)
  | _ => exact ⟨rfl, rfl⟩

namespace Web

section

variable (s : State) (bar : Bar) (k : Nat)

def State.Shut : Prop := bar.Shut s.core.stores.db.layers s.core.stores.db.actors

/-- The write is behind the check. -/
def State.Past : Prop :=
  ∃ stage, s.core.task k = .running stage ∧ bar.rank < stage.rank ∧ bar.Meets (s.writes k)

/-- Who a request has been found to be made by. -/
def Phase.actor : Phase → Option Actor
  | .upgrading actor _ _ | .touching actor _ => some actor
  | .ready auth => auth.map Auth.actor
  | .writing auth => some auth.actor
  | _ => none

end

/-- It is not activated again. -/
def Action.KeepsShut (bar : Bar) : Action → Prop
  | .administer _ layers actors => bar.Shut layers actors
  | _ => True

section

variable {v : Web} {s s' t : State} {bar : Bar} {a : Action} {k : Nat} {id : Int} {w : World} {pre post : List Action}

theorem State.Shut.step (h : s.Shut bar) (ha : v.step s a = some s') (hkeep : a.KeepsShut bar) : s'.Shut bar := by
  cases step_cases ha with
  | moved hm hearly hcore =>
    rw [State.Shut, hcore]
    exact h
  | started hp hw hby hc hcore =>
    obtain ⟨hlayers, hactors⟩ := step_tables hc (by simp)
    rw [State.Shut, hcore, hlayers, hactors]
    exact h
  | @worked c core hwork hc =>
    obtain ⟨hlayers, hactors⟩ := step_tables hc fun layers actors he => by
      subst he
      cases hwork
    rw [State.Shut, hlayers, hactors]
    exact h
  | administered hc =>
    cases Wikikiki.step_cases hc
    exact hkeep

/-- Nobody gets behind the check. -/
theorem State.Past.before (h : s'.Past bar k) (hshut : s.Shut bar) (ha : v.step s a = some s') : s.Past bar k := by
  obtain ⟨stage, hstage, hrank, hm⟩ := h
  cases step_cases ha with
  | moved hmove hearly hcore hwrites => exact ⟨stage, hcore ▸ hstage, hrank, hwrites ▸ hm⟩
  | @started j env auth wreq core _ hp hw hby hc hcore hwrites hphase =>
    have hkj : k ≠ j := by
      rintro rfl
      rw [hcore] at hstage
      cases Wikikiki.step_cases hc with
      | rejected => simp [Wikikiki.State.setTask] at hstage
      | queued => simp [Wikikiki.State.setTask] at hstage
    rw [hwrites, Function.update_of_ne hkj] at hm
    rw [hcore] at hstage
    rcases step_running hc hstage with hbefore | rfl | ⟨i, before, stores, hcall, -⟩
    · exact ⟨stage, hbefore, hrank, hm⟩
    · exact absurd hrank (by simp [Stage.rank])
    · cases hcall
  | worked hwork hc =>
    rcases step_running hc hstage with hbefore | rfl | ⟨i, before, stores, -, hbefore, he⟩
    · exact ⟨stage, hbefore, hrank, hm⟩
    · exact absurd hrank (by simp [Stage.rank])
    · exact ⟨before, hbefore, Bar.stops hshut hm he hrank, hm⟩
  | @administered access layers actors core hc =>
    have htask : core.task = s.core.task := by cases Wikikiki.step_cases hc; rfl
    exact ⟨stage, htask ▸ hstage, hrank, hm⟩

/-- Nobody is found to be the actor. -/
theorem actor_before {actor : Actor} (h : (s'.phase k).actor = some actor) (hshut : s.Shut (.actor actor.id))
    (ha : v.step s a = some s') : (s.phase k).actor = some actor := by
  cases step_cases ha with
  | @moved _ j ph _ hm hearly hcore hwrites hphase =>
    by_cases hkj : k = j
    · subst hkj
      rw [hphase, Function.update_self] at h
      have hnobody : ∀ j, (v.trySession j).actor = none := fun j => by
        unfold trySession
        split <;> rfl
      cases hm with
      | arrived =>
        unfold begin at h
        split at h
        · cases h
        · rw [hnobody] at h
          cases h
      | accepted hp hj =>
        obtain ⟨lookup, secret, c, row, -, hf, hc, rfl⟩ := Access.judge_accepted.1 hj
        obtain rfl := Option.some.inj h
        obtain ⟨-, hact, -⟩ := checkToken_accepted.1 ⟨_, hc⟩
        obtain ⟨-, -, -, hget⟩ := Access.findToken_eq_some.1 hf
        exact absurd (hshut row hget) hact
      | rejected =>
        rw [hnobody] at h
        cases h
      | upgraded hp =>
        rw [hp]
        exact h
      | touched hp =>
        rw [hp]
        exact h
      | found hp hr => cases h
      | identified hp hactor hact =>
        obtain ⟨row, hrow, rfl⟩ := Option.map_eq_some_iff.1 hactor
        obtain rfl := Option.some.inj h
        have hinactive : row.isActive = 0 := hshut row hrow
        simp [ActorRow.actor, hinactive] at hact
      | nobody => cases h
      | answered => cases h
      | gone => cases h
    · rw [hphase, Function.update_of_ne hkj] at h
      exact h
  | @started j env auth wreq core _ hp hw hby hc hcore hwrites hphase =>
    by_cases hkj : k = j
    · subst hkj
      rw [hphase, Function.update_self] at h
      rw [hp]
      exact h
    · rw [hphase, Function.update_of_ne hkj] at h
      exact h
  | worked => exact h
  | administered => exact h

/-- What has held when it was shut. -/
structure Shutting (bar : Bar) (t s : State) : Prop where
  shut : s.Shut bar
  past : ∀ k, s.Past bar k → t.Past bar k
  found : ∀ k actor, bar = .actor actor.id → (s.phase k).actor = some actor → (t.phase k).actor = some actor

theorem Shutting.step (h : Shutting bar t s) (ha : v.step s a = some s') (hkeep : a.KeepsShut bar) :
    Shutting bar t s' where
  shut := h.shut.step ha hkeep
  past k hpast := h.past k (hpast.before h.shut ha)
  found k actor hbar hactor := h.found k actor hbar (actor_before hactor (hbar ▸ h.shut) ha)

theorem shutting_run (hshut : t.Shut bar) (hkeep : ∀ a ∈ post, a.KeepsShut bar) (hpost : v.run t post = some s) :
    Shutting bar t s :=
  Run.invariant_of (P := Action.KeepsShut bar) (I := Shutting bar t) (fun hk ha h => h.step ha hk) hkeep hpost
    ⟨hshut, fun _ h => h, fun _ _ _ h => h⟩

/-- Whoever is behind a check holds the lock. -/
theorem State.Past.holds (h : s.Past bar k) (hl : Locked (v.service s) s.core) :
    ∃ n, s.core.lock.held = some (.writer k, n) := by
  obtain ⟨stage, hstage, -⟩ := h
  have hpos : 0 < guardsOf s.core.task s.core.drain (.writer k) := by
    rw [guardsOf, hstage, Phase.guards]
    split <;> decide
  obtain ⟨n, hheld, -⟩ := hl.lock.held_of_pos hpos
  exact ⟨n, hheld⟩

/-- **To deactivate takes effect at once.** From the state in which an actor or
a layer is not active, and for as long as nobody activates it again, no request
is found to be the actor's that was not before, and of all the writes by the
actor, or to the layer, only the one that held the lock in that state and was
behind the check can still change a page. -/
theorem shut_takes_effect (hpre : v.run (.opened w) pre = some t) (hshut : t.Shut bar)
    (hkeep : ∀ a ∈ post, a.KeepsShut bar) (hpost : v.run t post = some s) :
    (∀ k actor, bar = .actor actor.id → (s.phase k).actor = some actor → (t.phase k).actor = some actor) ∧
      ∀ a s', v.step s a = some s' → s.core.stores.PagesChanged s'.core.stores →
        ∃ k c stage n, a = .core c ∧ c.Stages k ∧
          v.site.wiki.Effect (s.writes k) stage s.core.stores n s'.core.stores ∧
          (bar.Meets (s.writes k) → t.Past bar k ∧ ∃ m, t.core.lock.held = some (.writer k, m)) := by
  have hs := shutting_run hshut hkeep hpost
  refine ⟨hs.found, fun a s' ha hchange => ?_⟩
  cases step_cases ha with
  | moved hm hearly hcore => exact absurd hchange (by rw [hcore]; simp [Stores.PagesChanged])
  | started hp hw hby hc hcore =>
    obtain ⟨j, stage, n, hcall, -⟩ := step_changes hc (hcore ▸ hchange)
    cases hcall
  | administered hc =>
    obtain ⟨j, stage, n, hadmin, -⟩ := step_changes hc hchange
    cases hadmin
  | @worked c core hwork hc =>
    obtain ⟨k, stage, n, hstages, hk, hrank, heff⟩ := step_changes hc hchange
    refine ⟨k, c, stage, n, rfl, hstages, heff, fun hm => ?_⟩
    have hlate : bar.rank < stage.rank := by cases bar <;> simp only [Bar.rank] <;> omega
    have hpast := hs.past k ⟨stage, hk, hlate, hm⟩
    exact ⟨hpast, hpast.holds (traced_run hpre).locked⟩

/-- Alice is deactivated. -/
def alumni : Table ActorRow := (Db.small none).actors.modify 1 fun r => { r with isActive := 0 }

/-- A write of hers is behind the check by then. -/
def Action.behind : List Action :=
  [.arrive 0, .verify 0 1 true, .upgrade 0 true, .touch 0 1 true, .enter 0 .small, .core .grant, .core (.accept 0)] ++
    List.replicate 2 (.core (.advance 0 ⟨1, []⟩)) ++ [.administer Gate.smallAccess (Db.small none).layers alumni]

theorem shut_takes_effect_small :
    ∃ t s s', Web.small.run (.opened (.small none)) Action.behind = some t ∧
      Web.small.run t (List.replicate 4 (.core (.advance 0 ⟨1, []⟩))) = some s ∧
      Web.small.step s (.core (.advance 0 ⟨1, []⟩)) = some s' ∧ s.core.stores.PagesChanged s'.core.stores ∧
      ∃ k c stage n, Action.core (.advance 0 ⟨1, []⟩) = .core c ∧ c.Stages k ∧
        Web.small.site.wiki.Effect (s.writes k) stage s.core.stores n s'.core.stores ∧
        (Bar.Meets (s.writes k) (.actor 1) → t.Past (.actor 1) k ∧ ∃ m, t.core.lock.held = some (.writer k, m)) := by
  obtain ⟨t, ht⟩ : ∃ t, Web.small.run (.opened (.small none)) Action.behind = some t := ⟨_, rfl⟩
  obtain ⟨s, hs⟩ : ∃ s, Web.small.run t (List.replicate 4 (.core (.advance 0 ⟨1, []⟩))) = some s := by
    cases ht
    exact ⟨_, rfl⟩
  obtain ⟨s', hs'⟩ : ∃ s', Web.small.step s (.core (.advance 0 ⟨1, []⟩)) = some s' := by
    cases ht
    cases hs
    exact ⟨_, rfl⟩
  have hactors : t.core.stores.db.actors = alumni := by
    cases ht
    rfl
  have hshut : t.Shut (.actor 1) := by
    intro row hrow
    rw [hactors] at hrow
    cases hrow
    rfl
  have hkeep : ∀ a ∈ List.replicate 4 (Action.core (.advance 0 ⟨1, []⟩)), a.KeepsShut (.actor 1) := by
    intro a ha
    rw [List.eq_of_mem_replicate ha]
    trivial
  have hchange : s.core.stores.PagesChanged s'.core.stores := by
    have hbefore : s.core.stores.git.length = 1 := by
      cases ht
      cases hs
      rfl
    have hafter : s'.core.stores.git.length = 2 := by
      cases ht
      cases hs
      cases hs'
      rfl
    exact .inr (.inl fun he => by rw [he, hbefore] at hafter; cases hafter)
  exact ⟨t, s, s', ht, hs, hs', hchange, (shut_takes_effect ht hshut hkeep hs).2 _ _ hs' hchange⟩

end

end Web

end Wikikiki
