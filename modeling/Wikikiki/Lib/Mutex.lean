/-
An asynchronous mutex that serves its waiters first come, first served, and
whose guard is counted: a holder may clone it, and the lock is free again
when the last clone is dropped.

`Mutex.Tracks` ties the mutex to the parties that use it. Each party waits or
not and holds so many clones of the guard; the mutex agrees with all of them
at once. Exclusion is one consequence (`Tracks.exclusive`). `Mutex.Ahead` says
who is served before a party (`Ahead.served`).
-/
import Mathlib.Logic.Function.Basic

/-- `held` is the party that was served and how many clones of its guard live
beyond the first, so that a held lock always has a guard. -/
structure Mutex (ι : Type) where
  held : Option (ι × Nat)
  queue : List ι

namespace Mutex

variable {ι : Type} [DecidableEq ι]

def free : Mutex ι := ⟨none, []⟩

/-- A party starts to wait. -/
def lock (m : Mutex ι) (i : ι) : Mutex ι := { m with queue := m.queue ++ [i] }

/-- The free lock goes to the first waiter. -/
def grant (m : Mutex ι) : Option (ι × Mutex ι) :=
  match m.held, m.queue with
  | none, i :: q => some (i, ⟨some (i, 0), q⟩)
  | _, _ => none

/-- A waiter gives up its place. -/
def abandon (m : Mutex ι) (i : ι) : Mutex ι := { m with queue := m.queue.filter (· ≠ i) }

def clone (m : Mutex ι) : Mutex ι := { m with held := m.held.map fun (i, n) => (i, n + 1) }

def drop (m : Mutex ι) : Mutex ι :=
  { m with held := match m.held with
      | some (i, n + 1) => some (i, n)
      | _ => none }

/-- The live guards of a party. -/
def guards (m : Mutex ι) (i : ι) : Nat :=
  match m.held with
  | some (j, n) => if j = i then n + 1 else 0
  | none => 0

/-- The mutex knows who waits and how many guards everyone holds. -/
structure Tracks (m : Mutex ι) (waits : ι → Prop) (holds : ι → Nat) : Prop where
  guards : ∀ i, holds i = m.guards i
  waits : ∀ i ∈ m.queue, waits i
  nodup : m.queue.Nodup

variable {m : Mutex ι} {w w' : ι → Prop} {g g' : ι → Nat} {i j : ι}

theorem tracks_free (hg : ∀ i, g i = 0) : (free : Mutex ι).Tracks w g :=
  ⟨hg, by simp [free], by simp [free]⟩

/-- Two parties that hold guards are one party. -/
theorem Tracks.exclusive (h : m.Tracks w g) (hi : 0 < g i) (hj : 0 < g j) : i = j := by
  rw [h.guards] at hi hj
  unfold Mutex.guards at hi hj
  cases hm : m.held with
  | none => simp [hm] at hi
  | some p =>
    simp only [hm] at hi hj
    have h₁ : p.1 = i := by by_contra hne; simp [hne] at hi
    have h₂ : p.1 = j := by by_contra hne; simp [hne] at hj
    exact h₁.symm.trans h₂

theorem Tracks.held_of_pos (h : m.Tracks w g) (hi : 0 < g i) : ∃ n, m.held = some (i, n) ∧ g i = n + 1 := by
  have hg := h.guards i
  unfold Mutex.guards at hg
  split at hg
  next k n hm =>
    split at hg
    next hk => exact ⟨n, by rw [hm, hk], hg⟩
    · omega
  · omega

theorem Tracks.zero_of_free (h : m.Tracks w g) (hm : m.held = none) (i : ι) : g i = 0 := by
  rw [h.guards, Mutex.guards, hm]

/-- A party that does not wait is not in the queue. -/
theorem Tracks.notMem_queue (h : m.Tracks w g) (hi : ¬ w i) : ∀ j ∈ m.queue, j ≠ i := by
  intro j hj heq
  subst heq
  exact hi (h.waits j hj)

/-- A step of one party that neither waits nor holds guards differently. -/
theorem Tracks.same (h : m.Tracks w g) (hw : ∀ j ∈ m.queue, w j → w' j) (hg : ∀ j, g' j = g j) :
    m.Tracks w' g' :=
  ⟨fun j => by rw [hg, h.guards], fun j hj => hw j hj (h.waits j hj), h.nodup⟩

theorem Tracks.lock (h : m.Tracks w g) (hi : ¬ w i) (hi' : w' i) (hw : ∀ j, w j → w' j)
    (hg : ∀ j, g' j = g j) : (m.lock i).Tracks w' g' := by
  have hq : i ∉ m.queue := fun hm => hi (h.waits i hm)
  refine ⟨fun j => by rw [hg, h.guards]; rfl, fun j hj => ?_, ?_⟩
  · simp only [Mutex.lock, List.mem_append, List.mem_singleton] at hj
    rcases hj with hj | rfl
    · exact hw j (h.waits j hj)
    · exact hi'
  · simp only [Mutex.lock, List.nodup_append, List.mem_singleton]
    exact ⟨h.nodup, by simp, fun a ha b hb => by rintro rfl; exact hq (hb ▸ ha)⟩

omit [DecidableEq ι] in
theorem grant_eq {m' : Mutex ι} (hg : m.grant = some (i, m')) :
    m.held = none ∧ m.queue = i :: m'.queue ∧ m'.held = some (i, 0) := by
  unfold grant at hg
  split at hg
  next i' q hh hq =>
    simp only [Option.some.injEq, Prod.mk.injEq] at hg
    obtain ⟨rfl, rfl⟩ := hg
    exact ⟨hh, hq, rfl⟩
  · cases hg

/-- Whoever is served was waiting. -/
theorem Tracks.grant_waits {m' : Mutex ι} (h : m.Tracks w g) (hm : m.grant = some (i, m')) : w i :=
  h.waits i (by rw [(grant_eq hm).2.1]; simp)

theorem Tracks.grant {m' : Mutex ι} (h : m.Tracks w g) (hm : m.grant = some (i, m'))
    (hw : ∀ j, j ≠ i → w j → w' j) (hi : g' i = 1) (hg : ∀ j, j ≠ i → g' j = g j) : m'.Tracks w' g' := by
  obtain ⟨hfree, hq, hheld⟩ := grant_eq hm
  have hnd := h.nodup
  rw [hq, List.nodup_cons] at hnd
  refine ⟨fun j => ?_, fun j hj => ?_, hnd.2⟩
  · by_cases hj : j = i
    · subst hj; simp [hi, Mutex.guards, hheld]
    · rw [hg j hj, h.zero_of_free hfree, Mutex.guards, hheld]
      simp [Ne.symm hj]
  · exact hw j (fun he => hnd.1 (he ▸ hj)) (h.waits j (by rw [hq]; exact List.mem_cons_of_mem _ hj))

theorem Tracks.abandon (h : m.Tracks w g) (hw : ∀ j, j ≠ i → w j → w' j) (hg : ∀ j, g' j = g j) :
    (m.abandon i).Tracks w' g' := by
  refine ⟨fun j => by rw [hg, h.guards]; rfl, fun j hj => ?_, h.nodup.filter _⟩
  simp only [Mutex.abandon, List.mem_filter, decide_eq_true_eq] at hj
  exact hw j hj.2 (h.waits j hj.1)

theorem Tracks.clone (h : m.Tracks w g) (hi : 0 < g i) (hw : ∀ j ∈ m.queue, w j → w' j)
    (hi' : g' i = g i + 1) (hg : ∀ j, j ≠ i → g' j = g j) : m.clone.Tracks w' g' := by
  obtain ⟨n, hh, hn⟩ := h.held_of_pos hi
  refine ⟨fun j => ?_, fun j hj => hw j hj (h.waits j hj), h.nodup⟩
  by_cases hj : j = i
  · subst hj; simp [hi', hn, Mutex.guards, Mutex.clone, hh]
  · rw [hg j hj, h.guards]; simp [Mutex.guards, Mutex.clone, hh, Ne.symm hj]

/-- One clone goes; the last one frees the lock. -/
theorem Tracks.drop (h : m.Tracks w g) (hw : ∀ j ∈ m.queue, w j → w' j) (hi' : g' i + 1 = g i)
    (hg : ∀ j, j ≠ i → g' j = g j) : m.drop.Tracks w' g' := by
  obtain ⟨n, hh, hn⟩ := h.held_of_pos (i := i) (by omega)
  refine ⟨fun j => ?_, fun j hj => hw j hj (h.waits j hj), h.nodup⟩
  by_cases hj : j = i
  · subst hj
    cases n with
    | zero => simp [Mutex.guards, Mutex.drop, hh]; omega
    | succ n => simp [Mutex.guards, Mutex.drop, hh]; omega
  · rw [hg j hj, h.guards]
    cases n <;> simp [Mutex.guards, Mutex.drop, hh, Ne.symm hj]

/-! ## First come, first served -/

/-- Everybody in `w` waits ahead of `i`. -/
def Ahead (m : Mutex ι) (i : ι) (w : ι → Prop) : Prop :=
  ∃ pre post, m.queue = pre ++ i :: post ∧ ∀ j, w j → j ∈ pre

omit [DecidableEq ι] in
/-- Whoever comes last has all the others ahead. -/
theorem ahead_lock (hw : ∀ j, w j → j ∈ m.queue) (i : ι) : (m.lock i).Ahead i w :=
  ⟨m.queue, [], rfl, hw⟩

omit [DecidableEq ι] in
theorem Ahead.lock (h : m.Ahead i w) (j : ι) : (m.lock j).Ahead i w := by
  obtain ⟨pre, post, hq, hw⟩ := h
  exact ⟨pre, post ++ [j], by simp [Mutex.lock, hq], hw⟩

theorem Ahead.abandon (h : m.Ahead i w) (hne : i ≠ j) (hw' : ∀ k, w' k → w k ∧ k ≠ j) :
    (m.abandon j).Ahead i w' := by
  obtain ⟨pre, post, hq, hw⟩ := h
  refine ⟨pre.filter (· ≠ j), post.filter (· ≠ j), by simp [Mutex.abandon, hq, hne], fun k hk => ?_⟩
  obtain ⟨hk, hkj⟩ := hw' k hk
  simp [hw k hk, hkj]

omit [DecidableEq ι] in
/-- The lock goes to somebody else: it was one of those ahead. -/
theorem Ahead.grant {m' : Mutex ι} (h : m.Ahead i w) (hm : m.grant = some (j, m')) (hne : i ≠ j)
    (hw' : ∀ k, w' k → w k ∧ k ≠ j) : m'.Ahead i w' := by
  obtain ⟨pre, post, hq, hw⟩ := h
  rw [(grant_eq hm).2.1] at hq
  cases pre with
  | nil => exact absurd (List.cons.inj hq).1.symm hne
  | cons k pre =>
    obtain ⟨rfl, hq'⟩ := List.cons.inj hq
    refine ⟨pre, post, hq', fun l hl => ?_⟩
    obtain ⟨hl, hlj⟩ := hw' l hl
    exact (List.mem_cons.1 (hw l hl)).resolve_left hlj

omit [DecidableEq ι] in
/-- The lock goes to `i`: nobody was left ahead. -/
theorem Ahead.served {m' : Mutex ι} (h : m.Ahead i w) (hnd : m.queue.Nodup) (hm : m.grant = some (i, m')) :
    ∀ j, ¬ w j := by
  obtain ⟨pre, post, hq, hw⟩ := h
  intro j hj
  have hpre := hw j hj
  rw [(grant_eq hm).2.1] at hq
  cases pre with
  | nil => cases hpre
  | cons k pre =>
    obtain ⟨rfl, -⟩ := List.cons.inj hq
    rw [(grant_eq hm).2.1, List.nodup_cons] at hnd
    obtain ⟨-, hq⟩ := List.cons.inj hq
    exact hnd.1 (by rw [hq]; simp)

end Mutex
