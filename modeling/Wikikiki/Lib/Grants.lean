/-
Grants that are made, looked up and revoked: sessions, tokens, leases.

A history says what was granted and what was revoked, in order. A store keeps
one row for each grant and closes it when the grant is revoked.
`Grants.Kept` ties the two together: a grant is live in the history exactly
when its row is there and open (`Kept.live_iff`). What rows look like, and
which grant a row keeps, is up to the store; a row may be rewritten as long as
it keeps the same grants (`Kept.rewrite`).
-/
import Mathlib.Logic.Function.Basic

namespace Grants

inductive Event (ι γ : Type) where
  | granted (i : ι) (g : γ)
  | revoked (i : ι)

/-- What happened, oldest first. -/
abbrev History (ι γ : Type) := List (Event ι γ)

variable {ι γ ρ : Type} {h : History ι γ} {i j : ι} {g g' : γ}

/-- Granted, and not revoked since. -/
def Live (h : History ι γ) (i : ι) (g : γ) : Prop :=
  ∃ pre post, h = pre ++ .granted i g :: post ∧ .revoked i ∉ post

theorem concat_eq_append_cons {α : Type} {h pre post : List α} {x e : α} (he : h ++ [e] = pre ++ x :: post) :
    (post = [] ∧ x = e) ∨ ∃ post', post = post' ++ [e] ∧ h = pre ++ x :: post' := by
  rcases List.eq_nil_or_concat post with rfl | ⟨post', e', rfl⟩
  · obtain ⟨-, hlast⟩ := List.append_inj' he rfl
    exact .inl ⟨rfl, (List.singleton_inj.1 hlast).symm⟩
  · rw [List.concat_eq_append, ← List.cons_append, ← List.append_assoc] at he
    obtain ⟨hinit, hlast⟩ := List.append_inj' he rfl
    rw [List.concat_eq_append, List.singleton_inj.1 hlast]
    exact .inr ⟨post', rfl, hinit⟩

theorem live_concat_granted : Live (h ++ [.granted j g']) i g ↔ (i = j ∧ g = g') ∨ Live h i g := by
  constructor
  · intro hl
    obtain ⟨pre, post, he, hp⟩ := hl
    rcases concat_eq_append_cons he with ⟨-, hg⟩ | ⟨post', rfl, hinit⟩
    · exact .inl (by simpa using hg)
    · exact .inr ⟨pre, post', hinit, fun hm => hp (by simp [hm])⟩
  · intro hor
    rcases hor with ⟨rfl, rfl⟩ | ⟨pre, post, rfl, hp⟩
    · exact ⟨h, [], rfl, List.not_mem_nil⟩
    · exact ⟨pre, post ++ [.granted j g'], by simp, by simpa using hp⟩

theorem live_concat_revoked : Live (h ++ [.revoked j]) i g ↔ i ≠ j ∧ Live h i g := by
  constructor
  · intro hl
    obtain ⟨pre, post, he, hp⟩ := hl
    rcases concat_eq_append_cons he with ⟨-, hg⟩ | ⟨post', rfl, hinit⟩
    · cases hg
    · refine ⟨?_, pre, post', hinit, fun hm => hp (by simp [hm])⟩
      rintro rfl
      exact hp (by simp)
  · intro hl
    obtain ⟨hne, pre, post, rfl, hp⟩ := hl
    exact ⟨pre, post ++ [.revoked j], by simp, by simpa [hp] using hne⟩

/-- Where no grant was revoked before it was made, a live one was never
revoked at all. -/
theorem live_iff_of_fresh (hfresh : ∀ pre post, h = pre ++ .granted i g :: post → .revoked i ∉ pre) :
    Live h i g ↔ .granted i g ∈ h ∧ .revoked i ∉ h := by
  constructor
  · intro hl
    obtain ⟨pre, post, he, hp⟩ := hl
    have hpre := hfresh pre post he
    subst he
    exact ⟨by simp, by simp [hpre, hp]⟩
  · intro hl
    obtain ⟨pre, post, rfl⟩ := List.append_of_mem hl.1
    exact ⟨pre, post, rfl, fun hm => hl.2 (by simp [hm])⟩

/-! ## Stores -/

/-- The rows of a store keep what the history granted, each under its own key;
an open row is one whose grant is live. -/
structure Kept (keeps : ρ → γ → Prop) (isOpen : ρ → Prop) (h : History ι γ) (rows : ι → Option ρ) : Prop where
  unique : ∀ i g g', .granted i g ∈ h → .granted i g' ∈ h → g = g'
  granted : ∀ i r, rows i = some r → ∃ g, .granted i g ∈ h ∧ keeps r g
  row : ∀ i g, .granted i g ∈ h → ∃ r, rows i = some r ∧ keeps r g
  live : ∀ i r g, rows i = some r → .granted i g ∈ h → (Live h i g ↔ isOpen r)

variable {keeps : ρ → γ → Prop} {isOpen : ρ → Prop} {rows rows' : ι → Option ρ}

theorem Live.mem (hl : Live h i g) : .granted i g ∈ h := by
  obtain ⟨pre, post, rfl, -⟩ := hl
  simp

theorem kept_nil (hr : ∀ i, rows i = none) : Kept keeps isOpen ([] : History ι γ) rows :=
  ⟨fun i g g' h _ => (by cases h), fun i r h => (by rw [hr] at h; cases h), fun i g h => (by cases h),
    fun i r g _ h => (by cases h)⟩

theorem Kept.of_eq (hk : Kept keeps isOpen h rows) (heq : ∀ i, rows' i = rows i) : Kept keeps isOpen h rows' := by
  rwa [funext heq]

/-- A live grant is one with an open row that keeps it. -/
theorem Kept.live_iff (hk : Kept keeps isOpen h rows) :
    Live h i g ↔ .granted i g ∈ h ∧ ∃ r, rows i = some r ∧ keeps r g ∧ isOpen r := by
  constructor
  · intro hl
    obtain ⟨r, hr, hg⟩ := hk.row i g hl.mem
    exact ⟨hl.mem, r, hr, hg, (hk.live i r g hr hl.mem).1 hl⟩
  · intro hl
    obtain ⟨hm, r, hr, -, ho⟩ := hl
    exact (hk.live i r g hr hm).2 ho

variable [DecidableEq ι]

/-- A grant under a new key gets an open row. -/
theorem Kept.grant (hk : Kept keeps isOpen h rows) {r : ρ} (hnew : rows i = none) (hg : keeps r g)
    (ho : isOpen r) : Kept keeps isOpen (h ++ [.granted i g]) (Function.update rows i (some r)) := by
  have hno : ∀ g, .granted i g ∉ h := fun g hm => by
    obtain ⟨r, hr, -⟩ := hk.row i g hm
    rw [hnew] at hr
    cases hr
  refine ⟨fun j x y hx hy => ?_, fun j x hx => ?_, fun j x hx => ?_, fun j x y hx hy => ?_⟩
  · simp only [List.mem_append, List.mem_singleton, Event.granted.injEq] at hx hy
    rcases hx with hx | ⟨rfl, rfl⟩ <;> rcases hy with hy | ⟨hji, rfl⟩
    · exact hk.unique j x y hx hy
    · exact absurd (hji ▸ hx) (hno x)
    · exact absurd hy (hno y)
    · rfl
  · by_cases hj : j = i
    · subst hj
      simp only [Function.update_self, Option.some.injEq] at hx
      exact ⟨g, by simp, hx ▸ hg⟩
    · rw [Function.update_of_ne hj] at hx
      obtain ⟨g', hm, hg'⟩ := hk.granted j x hx
      exact ⟨g', by simp [hm], hg'⟩
  · simp only [List.mem_append, List.mem_singleton, Event.granted.injEq] at hx
    rcases hx with hx | ⟨rfl, rfl⟩
    · have hj : j ≠ i := by rintro rfl; exact hno x hx
      rw [Function.update_of_ne hj]
      exact hk.row j x hx
    · exact ⟨r, by simp, hg⟩
  · rw [live_concat_granted]
    simp only [List.mem_append, List.mem_singleton, Event.granted.injEq] at hy
    by_cases hj : j = i
    · subst hj
      simp only [Function.update_self, Option.some.injEq] at hx
      have hy' := hy.resolve_left (hno y)
      exact iff_of_true (.inl hy') (hx ▸ ho)
    · rw [Function.update_of_ne hj] at hx
      simp only [hj, false_and, false_or, or_false] at hy ⊢
      exact hk.live j x y hx hy

/-- A revocation closes the row, if there is one. -/
theorem Kept.revoke (hk : Kept keeps isOpen h rows) (close : ρ → ρ) (hi : rows' i = (rows i).map close)
    (hother : ∀ j, j ≠ i → rows' j = rows j) (hkeep : ∀ r g, keeps (close r) g ↔ keeps r g)
    (hclose : ∀ r, rows i = some r → ¬ isOpen (close r)) : Kept keeps isOpen (h ++ [.revoked i]) rows' := by
  have hmem : ∀ j g, (Event.granted j g ∈ h ++ [.revoked i]) ↔ Event.granted j g ∈ h := by simp
  refine ⟨fun j x y hx hy => hk.unique j x y ((hmem j x).1 hx) ((hmem j y).1 hy), fun j x hx => ?_,
    fun j x hx => ?_, fun j x y hx hy => ?_⟩
  · by_cases hj : j = i
    · subst hj
      rw [hi, Option.map_eq_some_iff] at hx
      obtain ⟨r, hr, rfl⟩ := hx
      obtain ⟨g, hm, hg⟩ := hk.granted j r hr
      exact ⟨g, (hmem j g).2 hm, (hkeep r g).2 hg⟩
    · rw [hother j hj] at hx
      obtain ⟨g, hm, hg⟩ := hk.granted j x hx
      exact ⟨g, (hmem j g).2 hm, hg⟩
  · obtain ⟨r, hr, hg⟩ := hk.row j x ((hmem j x).1 hx)
    by_cases hj : j = i
    · subst hj
      exact ⟨close r, by rw [hi, hr]; rfl, (hkeep r x).2 hg⟩
    · exact ⟨r, by rw [hother j hj, hr], hg⟩
  · rw [live_concat_revoked]
    by_cases hj : j = i
    · subst hj
      rw [hi, Option.map_eq_some_iff] at hx
      obtain ⟨r, hr, rfl⟩ := hx
      exact iff_of_false (fun hl => hl.1 rfl) (hclose r hr)
    · rw [hother j hj] at hx
      simp only [ne_eq, hj, not_false_eq_true, true_and]
      exact hk.live j x y hx ((hmem j y).1 hy)

omit [DecidableEq ι] in
/-- A row may change as long as it keeps the same grants and stays as open as
it was. -/
theorem Kept.rewrite (hk : Kept keeps isOpen h rows) {f : ι → ρ → ρ} (hr : ∀ j, rows' j = (rows j).map (f j))
    (hkeep : ∀ j r g, rows j = some r → .granted j g ∈ h → keeps r g → keeps (f j r) g)
    (hopen : ∀ j r, isOpen (f j r) ↔ isOpen r) : Kept keeps isOpen h rows' := by
  refine ⟨hk.unique, fun j x hx => ?_, fun j x hx => ?_, fun j x y hx hy => ?_⟩
  · rw [hr, Option.map_eq_some_iff] at hx
    obtain ⟨r, hr, rfl⟩ := hx
    obtain ⟨g, hm, hg⟩ := hk.granted j r hr
    exact ⟨g, hm, hkeep j r g hr hm hg⟩
  · obtain ⟨r, hrow, hg⟩ := hk.row j x hx
    exact ⟨f j r, by rw [hr, hrow]; rfl, hkeep j r x hrow hx hg⟩
  · rw [hr, Option.map_eq_some_iff] at hx
    obtain ⟨r, hrow, rfl⟩ := hx
    rw [hopen]
    exact hk.live j r y hrow hy

end Grants
