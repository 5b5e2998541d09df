/-
Statements that run one after another on a store, with no transaction around
them: one that fails changes nothing and ends the script, and what the ones
before it did stays.
-/

/-- What a script comes to, and the store it leaves. -/
def Script (σ ε α : Type) : Type := σ → Except ε α × σ

namespace Script

variable {σ ε α β : Type}

instance : Monad (Script σ ε) where
  pure a := fun s => (.ok a, s)
  bind x f := fun s =>
    match x s with
    | (.ok a, s') => f a s'
    | (.error e, s') => (.error e, s')

/-- An early `return Err`. -/
def fail (e : ε) : Script σ ε α := fun s => (.error e, s)

/-- One statement, which commits or changes nothing. -/
def stmt (f : σ → Except ε (α × σ)) : Script σ ε α := fun s =>
  match f s with
  | .ok (a, s') => (.ok a, s')
  | .error e => (.error e, s)

section

variable {x : Script σ ε α} {f : α → Script σ ε β} {g : σ → Except ε (α × σ)} {s s' : σ} {a : α} {b : β} {e : ε}

theorem pure_apply : (pure a : Script σ ε α) s = (.ok a, s) := rfl

theorem fail_apply : (fail e : Script σ ε α) s = (.error e, s) := rfl

theorem bind_apply : (x >>= f) s =
    match x s with
    | (.ok a, s') => f a s'
    | (.error e, s') => (.error e, s') := rfl

/-- A script in two parts fails in the first one, or ends as the second one
does on what the first one left. -/
theorem bind_eq {r : Except ε β} : (x >>= f) s = (r, s') ↔
    (∃ e, x s = (.error e, s') ∧ r = .error e) ∨ ∃ a t, x s = (.ok a, t) ∧ f a t = (r, s') := by
  rw [bind_apply]
  split
  · next a t h =>
    rw [h]
    refine ⟨fun hf => .inr ⟨a, t, rfl, hf⟩, fun hor => ?_⟩
    rcases hor with ⟨_, hat, -⟩ | ⟨_, _, hat, hf⟩
    · cases hat
    · cases hat
      exact hf
  · next e t h =>
    rw [h]
    refine ⟨fun he => ?_, fun hor => ?_⟩
    · cases he
      exact .inl ⟨e, rfl, rfl⟩
    · rcases hor with ⟨_, he, rfl⟩ | ⟨_, _, he, -⟩
      · cases he
        rfl
      · cases he

theorem bind_ok : (x >>= f) s = (.ok b, s') ↔ ∃ a t, x s = (.ok a, t) ∧ f a t = (.ok b, s') := by
  simp [bind_eq]

theorem bind_error : (x >>= f) s = (.error e, s') ↔
    x s = (.error e, s') ∨ ∃ a t, x s = (.ok a, t) ∧ f a t = (.error e, s') := by
  simp [bind_eq]

theorem stmt_ok : stmt g s = (.ok a, s') ↔ g s = .ok (a, s') := by
  rw [stmt]
  split
  · next a t h => simp [h]
  · next e h => simp [h]

theorem stmt_error : (stmt g : Script σ ε α) s = (.error e, s') ↔ g s = .error e ∧ s' = s := by
  rw [stmt]
  split
  · next a t h => simp [h]
  · next e' h => simp [h, eq_comm]

end

/-! ## What a script keeps -/

/-- The script keeps `I`, however it ends. -/
def Keeps (I : σ → Prop) (x : Script σ ε α) : Prop := ∀ s, I s → I (x s).2

variable {I : σ → Prop} {x : Script σ ε α} {f : α → Script σ ε β}

theorem keeps_pure (a : α) : Keeps I (pure a : Script σ ε α) := fun _ hs => hs

theorem keeps_bind (hx : Keeps I x) (hf : ∀ a, Keeps I (f a)) : Keeps I (x >>= f) := by
  intro s hs
  have hxs := hx s hs
  rw [bind_apply]
  split
  · next a t h => exact hf a t (by rwa [h] at hxs)
  · next e t h => rwa [h] at hxs

theorem keeps_stmt {g : σ → Except ε (α × σ)} (hg : ∀ s a s', g s = .ok (a, s') → I s → I s') :
    Keeps I (stmt g : Script σ ε α) := by
  intro s hs
  rw [stmt]
  split
  · next a t h => exact hg s a t h hs
  · exact hs

end Script
