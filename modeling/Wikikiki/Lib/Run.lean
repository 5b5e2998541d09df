/-
Runs of a system given by a partial step function: what a step preserves, a
run preserves.
-/
import Mathlib.Data.List.Induction
import Mathlib.Logic.Relation

namespace Run

variable {σ α : Type} (step : σ → α → Option σ)

/-- The state after a sequence of actions, `none` when one of them is not
enabled. -/
def run (s : σ) : List α → Option σ
  | [] => some s
  | a :: as => (step s a).bind fun s' => run s' as

variable {step}

theorem run_cons {s s' : σ} {a : α} {as : List α} :
    run step s (a :: as) = some s' ↔ ∃ t, step s a = some t ∧ run step t as = some s' := by
  simp [run, Option.bind_eq_some_iff]

theorem run_append {s s' : σ} {as bs : List α} :
    run step s (as ++ bs) = some s' ↔ ∃ t, run step s as = some t ∧ run step t bs = some s' := by
  induction as generalizing s with
  | nil => simp [run]
  | cons a as ih =>
    simp only [List.cons_append, run_cons, ih]
    constructor
    · intro hex
      obtain ⟨t, ha, u, hs, hb⟩ := hex
      exact ⟨u, ⟨t, ha, hs⟩, hb⟩
    · intro hex
      obtain ⟨u, ⟨t, ha, hs⟩, hb⟩ := hex
      exact ⟨t, ha, u, hs, hb⟩

/-- An invariant of the steps whose actions satisfy `P` holds at the end of
every run of such actions that starts in it. -/
theorem invariant_of {P : α → Prop} {I : σ → Prop}
    (hstep : ∀ {s a s'}, P a → step s a = some s' → I s → I s') {s s' : σ} {as : List α}
    (hP : ∀ a ∈ as, P a) (hr : run step s as = some s') (hs : I s) : I s' := by
  induction as generalizing s with
  | nil => simp only [run, Option.some.injEq] at hr; exact hr ▸ hs
  | cons a as ih =>
    obtain ⟨t, ha, hr⟩ := run_cons.1 hr
    exact ih (fun b hb => hP b (by simp [hb])) hr (hstep (hP a (by simp)) ha hs)

theorem invariant {I : σ → Prop} (hstep : ∀ {s a s'}, step s a = some s' → I s → I s') {s s' : σ}
    {as : List α} (hr : run step s as = some s') (hs : I s) : I s' :=
  invariant_of (P := fun _ => True) (fun _ => hstep) (fun _ _ => trivial) hr hs

/-- Every step of the run from `s` meets `R`. -/
def Every (step : σ → α → Option σ) (R : σ → α → Prop) (s : σ) (as : List α) : Prop :=
  ∀ pre a post t, as = pre ++ a :: post → run step s pre = some t → R t a

theorem every_nil {R : σ → α → Prop} {s : σ} : Every step R s [] := by
  intro pre a post t h
  simp at h

theorem every_cons {R : σ → α → Prop} {s t : σ} {a : α} {as : List α} (ha : step s a = some t) :
    Every step R s (a :: as) ↔ R s a ∧ Every step R t as := by
  constructor
  · intro h
    refine ⟨h [] a as s rfl rfl, fun pre b post u hsplit hu => ?_⟩
    exact h (a :: pre) b post u (by rw [hsplit, List.cons_append]) (run_cons.2 ⟨t, ha, hu⟩)
  · intro h pre b post u hsplit hu
    cases pre with
    | nil =>
      obtain ⟨rfl, rfl⟩ := List.cons.inj hsplit
      simp only [run, Option.some.injEq] at hu
      exact hu ▸ h.1
    | cons c pre =>
      obtain ⟨rfl, rfl⟩ := List.cons.inj hsplit
      obtain ⟨t', ha', hu⟩ := run_cons.1 hu
      cases ha.symm.trans ha'
      exact h.2 pre b post u rfl hu

/-- A part of a run of such steps is one. -/
theorem Every.part {R : σ → α → Prop} {s t : σ} {as bs cs : List α} (h : Every step R s (as ++ bs ++ cs))
    (hr : run step s as = some t) : Every step R t bs := by
  intro pre a post u hsplit hu
  exact h (as ++ pre) a (post ++ cs) u (by simp [hsplit]) (run_append.2 ⟨t, hr, hu⟩)

/-- An invariant of the steps that meet `R` holds at the end of every run of
such steps. -/
theorem Every.invariant {R : σ → α → Prop} {I : σ → Prop}
    (hstep : ∀ {s a s'}, R s a → step s a = some s' → I s → I s') {s s' : σ} {as : List α}
    (h : Every step R s as) (hr : run step s as = some s') (hs : I s) : I s' := by
  induction as generalizing s with
  | nil => simp only [run, Option.some.injEq] at hr; exact hr ▸ hs
  | cons a as ih =>
    obtain ⟨t, ha, hr⟩ := run_cons.1 hr
    obtain ⟨hR, htail⟩ := (every_cons ha).1 h
    exact ih htail hr (hstep hR ha hs)

/-- What holds after a step just when it held before and the step met `R`
holds after a run just when it held before and every step met `R`. -/
theorem every_iff {R : σ → α → Prop} {I P : σ → Prop}
    (hstep : ∀ {s a s'}, step s a = some s' → I s → I s' ∧ (P s' ↔ P s ∧ R s a)) {s s' : σ} {as : List α}
    (hr : run step s as = some s') (hs : I s) : P s' ↔ P s ∧ Every step R s as := by
  induction as generalizing s with
  | nil =>
    simp only [run, Option.some.injEq] at hr
    rw [hr, and_iff_left every_nil]
  | cons a as ih =>
    obtain ⟨t, ha, hr⟩ := run_cons.1 hr
    obtain ⟨hI, hP⟩ := hstep ha hs
    rw [ih hr hI, hP, every_cons ha, and_assoc]

/-! ## Simulation -/

/-- When every step from a state in `I` is a step of another system under the
abstraction `f`, or none, every run is a run of that system. -/
theorem simulates {τ : Type} {I : σ → Prop} {f : σ → τ} {R : τ → τ → Prop}
    (hI : ∀ {s a s'}, step s a = some s' → I s → I s')
    (hstep : ∀ {s a s'}, step s a = some s' → I s → f s' = f s ∨ R (f s) (f s')) {s s' : σ} {as : List α}
    (hr : run step s as = some s') (hs : I s) : Relation.ReflTransGen R (f s) (f s') := by
  induction as generalizing s with
  | nil =>
    simp only [run, Option.some.injEq] at hr
    rw [hr]
  | cons a as ih =>
    obtain ⟨t, ha, hr⟩ := run_cons.1 hr
    have htail := ih hr (hI ha hs)
    rcases hstep ha hs with he | hR
    · rwa [he] at htail
    · exact .head hR htail

/-- A run into `P` from outside has a step into `P`. -/
theorem crosses {P : σ → Prop} {s s' : σ} {as : List α} (hr : run step s as = some s') (hs : ¬ P s)
    (hs' : P s') :
    ∃ pre a post t t', as = pre ++ a :: post ∧ run step s pre = some t ∧ step t a = some t' ∧
      run step t' post = some s' ∧ ¬ P t ∧ P t' := by
  induction as generalizing s with
  | nil =>
    simp only [run, Option.some.injEq] at hr
    exact absurd (hr ▸ hs') hs
  | cons a as ih =>
    obtain ⟨t, ha, hr⟩ := run_cons.1 hr
    by_cases ht : P t
    · exact ⟨[], a, as, s, t, rfl, rfl, ha, hr, hs, ht⟩
    · obtain ⟨pre, b, post, u, u', rfl, hpre, hb, hpost, hu, hu'⟩ := ih hr ht
      exact ⟨a :: pre, b, post, u, u', rfl, run_cons.2 ⟨t, ha, hpre⟩, hb, hpost, hu, hu'⟩

/-! ## Steps within a run -/

/-- Some step of the run from `s` to `s'` is in `R`. -/
def Took (step : σ → α → Option σ) (R : σ → α → σ → Prop) (s : σ) (as : List α) (s' : σ) : Prop :=
  ∃ pre a post t t', as = pre ++ a :: post ∧ run step s pre = some t ∧ step t a = some t' ∧
    run step t' post = some s' ∧ R t a t'

/-- Some step of the run from `s` to `s'` is in `R`, which is told the run up to
there. -/
def Passed (step : σ → α → Option σ) (R : List α → σ → α → σ → Prop) (s : σ) (as : List α) (s' : σ) : Prop :=
  ∃ pre a post t t', as = pre ++ a :: post ∧ run step s pre = some t ∧ step t a = some t' ∧
    run step t' post = some s' ∧ R pre t a t'

theorem run_concat {s t t' : σ} {as : List α} {a : α} (hr : run step s as = some t) (ha : step t a = some t') :
    run step s (as ++ [a]) = some t' :=
  run_append.2 ⟨t, hr, run_cons.2 ⟨t', ha, rfl⟩⟩

section

variable {R : List α → σ → α → σ → Prop} {s t t' : σ} {as : List α} {a : α}

/-- What a run has passed stays behind it. -/
theorem Passed.concat (h : Passed step R s as t) (ha : step t a = some t') : Passed step R s (as ++ [a]) t' := by
  obtain ⟨pre, b, post, u, u', rfl, hpre, hb, hpost, hR⟩ := h
  exact ⟨pre, b, post ++ [a], u, u', by simp, hpre, hb, run_concat hpost ha, hR⟩

theorem passed_concat (hr : run step s as = some t) (ha : step t a = some t') (hR : R as t a t') :
    Passed step R s (as ++ [a]) t' :=
  ⟨as, a, [], t, t', rfl, hr, ha, rfl, hR⟩

/-- An invariant that remembers the run. -/
theorem history {I : List α → σ → Prop} (h₀ : I [] s)
    (hstep : ∀ {pre u a u'}, run step s pre = some u → step u a = some u' → I pre u → I (pre ++ [a]) u')
    (hr : run step s as = some t) : I as t := by
  induction as using List.reverseRecOn generalizing t with
  | nil =>
    simp only [run, Option.some.injEq] at hr
    exact hr ▸ h₀
  | append_singleton as a ih =>
    obtain ⟨u, hu, hlast⟩ := run_append.1 hr
    obtain ⟨u', ha, hnil⟩ := run_cons.1 hlast
    simp only [run, Option.some.injEq] at hnil
    exact hnil ▸ hstep hu ha (ih hu)

end

end Run
