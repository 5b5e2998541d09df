/-
A table keyed by an integer rowid, kept in key order, as SQLite keeps a
rowid table (an FTS5 table is one too). The order is a field of the
structure, so that a table with two rows under one key cannot be built.

A row that is inserted without a key gets one more than the largest key in
use, or 1 in an empty table.
-/
import Mathlib.Data.List.Nodup
import Mathlib.Data.List.Pairwise
import Mathlib.Logic.Function.Basic

structure Table (ρ : Type) where
  rows : List (Int × ρ)
  sorted : (rows.map Prod.fst).Pairwise (· < ·)

namespace Table

variable {ρ : Type}

/-- Where no two rows share a key, a search that asks for one key finds every
row that it can find. -/
theorem find?_eq_some {α κ : Type} {xs : List α} {key : α → κ} (hkey : (xs.map key).Nodup) {q : α → Bool}
    {k : κ} (hq : ∀ x, q x = true → key x = k) {x : α} : xs.find? q = some x ↔ x ∈ xs ∧ q x = true := by
  constructor
  · intro h
    exact ⟨List.mem_of_find?_eq_some h, List.find?_some h⟩
  · intro h
    obtain ⟨hm, hx⟩ := h
    cases hf : xs.find? q with
    | none => exact absurd hx (List.find?_eq_none.1 hf x hm)
    | some y =>
      have hy := List.find?_some hf
      rw [List.inj_on_of_nodup_map hkey (List.mem_of_find?_eq_some hf) hm ((hq y hy).trans (hq x hx).symm)]

@[ext] theorem ext {t u : Table ρ} (h : t.rows = u.rows) : t = u := by
  cases t; cases u; simp_all

def empty : Table ρ := ⟨[], by simp⟩

/-- The key the next `INSERT` without one gets. -/
def nextId (t : Table ρ) : Int :=
  match t.rows.getLast? with
  | some (k, _) => k + 1
  | none => 1

/-- The first row, in key order, that satisfies `q`. -/
def find (t : Table ρ) (q : ρ → Bool) : Option (Int × ρ) := t.rows.find? fun p => q p.2

def get (t : Table ρ) (k : Int) : Option ρ := (t.rows.find? fun p => p.1 == k).map Prod.snd

theorem pairwise_rows (t : Table ρ) : t.rows.Pairwise fun p q => p.1 < q.1 :=
  List.pairwise_map.1 t.sorted

theorem lt_nextId (t : Table ρ) {p : Int × ρ} (hp : p ∈ t.rows) : p.1 < t.nextId := by
  have hs := t.pairwise_rows
  unfold nextId
  rcases List.eq_nil_or_concat t.rows with h | ⟨l, q, h⟩
  · simp [h] at hp
  · rw [h] at hp hs ⊢
    simp only [List.concat_eq_append, List.getLast?_concat, List.mem_append, List.mem_singleton,
      List.pairwise_append, forall_eq] at hp hs ⊢
    rcases hp with hp | rfl
    · have := hs.2.2 p hp
      omega
    · omega

/-- `INSERT`, the key chosen by the table. -/
def insert (t : Table ρ) (r : ρ) : Table ρ where
  rows := t.rows ++ [(t.nextId, r)]
  sorted := by
    rw [List.pairwise_map, List.pairwise_append]
    refine ⟨t.pairwise_rows, by simp, fun p hp q hq => ?_⟩
    rw [List.mem_singleton.1 hq]
    exact t.lt_nextId hp

/-- `DELETE ... WHERE rowid = k`. -/
def erase (t : Table ρ) (k : Int) : Table ρ where
  rows := t.rows.filter fun p => p.1 ≠ k
  sorted := List.pairwise_map.2 (t.pairwise_rows.filter _)

/-- `UPDATE ... WHERE id = k`. -/
def modify (t : Table ρ) (k : Int) (f : ρ → ρ) : Table ρ where
  rows := t.rows.map fun p => (p.1, if p.1 = k then f p.2 else p.2)
  sorted := by simpa [List.map_map, Function.comp_def] using t.sorted

/-- `UPDATE` of every row. -/
def mapRows (t : Table ρ) (f : ρ → ρ) : Table ρ where
  rows := t.rows.map fun p => (p.1, f p.2)
  sorted := by simpa [List.map_map, Function.comp_def] using t.sorted

/-- `INSERT` under the key `k`, in its place; a row already there gives way. -/
def insertAt (t : Table ρ) (k : Int) (r : ρ) : Table ρ where
  rows := (t.rows.filter fun p => p.1 < k) ++ (k, r) :: t.rows.filter fun p => k < p.1
  sorted := by
    rw [List.pairwise_map, List.pairwise_append, List.pairwise_cons]
    refine ⟨t.pairwise_rows.filter _, ⟨?_, t.pairwise_rows.filter _⟩, ?_⟩
    · intro p hp
      simpa using (List.mem_filter.1 hp).2
    · intro p hp q hq
      have hpk : p.1 < k := by simpa using (List.mem_filter.1 hp).2
      rcases List.mem_cons.1 hq with rfl | hq
      · exact hpk
      · have hkq : k < q.1 := by simpa using (List.mem_filter.1 hq).2
        omega

@[simp] theorem rows_insert (t : Table ρ) (r : ρ) : (t.insert r).rows = t.rows ++ [(t.nextId, r)] :=
  rfl

theorem nextId_insert (t : Table ρ) (r : ρ) : (t.insert r).nextId = t.nextId + 1 := by
  rw [nextId, rows_insert, List.getLast?_concat]

/-- The next key depends on the keys only. -/
theorem nextId_congr {t u : Table ρ} (h : t.rows.map Prod.fst = u.rows.map Prod.fst) : t.nextId = u.nextId := by
  have hlast := congrArg List.getLast? h
  rw [List.getLast?_map, List.getLast?_map] at hlast
  unfold nextId
  cases ht : t.rows.getLast? with
  | none =>
    rw [ht, Option.map_none, eq_comm, Option.map_eq_none_iff] at hlast
    rw [hlast]
  | some p =>
    rw [ht, Option.map_some, eq_comm, Option.map_eq_some_iff] at hlast
    obtain ⟨q, hq, he⟩ := hlast
    rw [hq]
    exact congrArg (· + 1) he.symm

/-- A row under the next key is new. -/
theorem not_subset_insert (t : Table ρ) (r : ρ) : ¬ (t.insert r).rows ⊆ t.rows := by
  intro hsub
  have hnew : (t.nextId, r) ∈ t.rows := hsub (by simp)
  exact absurd (t.lt_nextId hnew) (Int.lt_irrefl _)

/-! ## Keys are unique -/

theorem eq_of_mem {t : Table ρ} {k : Int} {r r' : ρ} (h : (k, r) ∈ t.rows) (h' : (k, r') ∈ t.rows) :
    r = r' := by
  have hs := t.pairwise_rows
  by_contra hne
  have hp := List.Pairwise.forall_of_forall_of_flip (R := fun p q : Int × ρ => p.1 = q.1 → p = q)
    (fun _ _ _ => rfl) (hs.imp fun {p q} hlt heq => absurd heq (by omega))
    (hs.imp fun {p q} hlt heq => absurd heq (by omega)) h h' rfl
  exact hne (Prod.mk.inj hp).2

/-- The last of the rows that satisfy `q` has the greatest key among them. -/
theorem key_le_of_getLast {t : Table ρ} {q : Int × ρ → Bool} {p : Int × ρ}
    (h : (t.rows.filter q).getLast? = some p) :
    p ∈ t.rows ∧ q p = true ∧ ∀ p' ∈ t.rows, q p' = true → p'.1 ≤ p.1 := by
  obtain ⟨hm, hq⟩ := List.mem_filter.1 (List.mem_of_getLast? h)
  refine ⟨hm, hq, fun p' hm' hq' => ?_⟩
  obtain ⟨init, hinit⟩ := List.getLast?_eq_some_iff.1 h
  have hs := t.pairwise_rows.filter q
  have hp' : p' ∈ t.rows.filter q := List.mem_filter.2 ⟨hm', hq'⟩
  rw [hinit, List.pairwise_append] at hs
  rw [hinit, List.mem_append, List.mem_singleton] at hp'
  rcases hp' with hp' | rfl
  · have := hs.2.2 p' hp' p (by simp)
    omega
  · omega

/-! ## What each statement leaves in the table -/

theorem mem_erase {t : Table ρ} {k i : Int} {r : ρ} :
    (i, r) ∈ (t.erase k).rows ↔ i ≠ k ∧ (i, r) ∈ t.rows := by
  simp [erase, and_comm]

theorem mem_insertAt {t : Table ρ} {k i : Int} {r r' : ρ} :
    (i, r') ∈ (t.insertAt k r).rows ↔ (i = k ∧ r' = r) ∨ (i ≠ k ∧ (i, r') ∈ t.rows) := by
  simp only [insertAt, List.mem_append, List.mem_cons, List.mem_filter, decide_eq_true_eq,
    Prod.mk.injEq]
  constructor
  · intro hor
    rcases hor with ⟨hm, hlt⟩ | ⟨rfl, rfl⟩ | ⟨hm, hlt⟩
    · exact .inr ⟨by omega, hm⟩
    · exact .inl ⟨rfl, rfl⟩
    · exact .inr ⟨by omega, hm⟩
  · intro hor
    rcases hor with ⟨rfl, rfl⟩ | ⟨hne, hm⟩
    · exact .inr (.inl ⟨rfl, rfl⟩)
    · rcases Int.lt_or_gt_of_ne hne with hlt | hlt
      · exact .inl ⟨hm, hlt⟩
      · exact .inr (.inr ⟨hm, hlt⟩)

theorem mem_insert {t : Table ρ} {i : Int} {r r' : ρ} :
    (i, r') ∈ (t.insert r).rows ↔ (i = t.nextId ∧ r' = r) ∨ (i ≠ t.nextId ∧ (i, r') ∈ t.rows) := by
  simp only [rows_insert, List.mem_append, List.mem_singleton, Prod.mk.injEq]
  constructor
  · intro hor
    rcases hor with hm | h
    · exact .inr ⟨Int.ne_of_lt (t.lt_nextId hm), hm⟩
    · exact .inl h
  · intro hor
    rcases hor with h | h
    · exact .inr h
    · exact .inl h.2

theorem mem_modify {t : Table ρ} {k i : Int} {f : ρ → ρ} {r : ρ} (hk : (k, r) ∈ t.rows) {r' : ρ} :
    (i, r') ∈ (t.modify k f).rows ↔ (i = k ∧ r' = f r) ∨ (i ≠ k ∧ (i, r') ∈ t.rows) := by
  simp only [modify, List.mem_map, Prod.mk.injEq, Prod.exists]
  constructor
  · intro hex
    obtain ⟨j, x, hm, rfl, rfl⟩ := hex
    by_cases hj : j = k
    · subst hj
      exact .inl ⟨rfl, by rw [if_pos rfl, eq_of_mem hm hk]⟩
    · exact .inr ⟨hj, by rwa [if_neg hj]⟩
  · intro hor
    rcases hor with ⟨rfl, rfl⟩ | ⟨hne, hm⟩
    · exact ⟨_, _, hk, rfl, if_pos rfl⟩
    · exact ⟨_, _, hm, rfl, if_neg hne⟩

/-! ## By key -/

theorem get_eq_some {t : Table ρ} {k : Int} {r : ρ} : t.get k = some r ↔ (k, r) ∈ t.rows := by
  have hkeys : (t.rows.map Prod.fst).Nodup := t.sorted.imp fun {a b} hlt => Int.ne_of_lt hlt
  have hfind := fun j => find?_eq_some hkeys (q := fun p => p.1 == k) (k := k) (by simp) (x := (j, r))
  simp only [get, Option.map_eq_some_iff, Prod.exists, exists_eq_right, hfind]
  simp

theorem get_nextId (t : Table ρ) : t.get t.nextId = none := by
  cases hg : t.get t.nextId with
  | none => rfl
  | some r => exact absurd (t.lt_nextId (get_eq_some.1 hg)) (Int.lt_irrefl _)

theorem get_insert (t : Table ρ) (r : ρ) : (t.insert r).get = Function.update t.get t.nextId (some r) := by
  funext j
  refine Option.ext fun x => ?_
  rw [get_eq_some, mem_insert]
  by_cases hj : j = t.nextId
  · subst hj; simp [eq_comm]
  · simp [hj, get_eq_some]

theorem get_modify (t : Table ρ) (k : Int) (f : ρ → ρ) (j : Int) :
    (t.modify k f).get j = (t.get j).map fun r => if j = k then f r else r := by
  refine Option.ext fun x => ?_
  simp only [get_eq_some, modify, List.mem_map, Prod.mk.injEq, Prod.exists, Option.map_eq_some_iff]
  constructor
  · intro hex
    obtain ⟨i, y, hm, rfl, rfl⟩ := hex
    exact ⟨y, hm, rfl⟩
  · intro hex
    obtain ⟨y, hm, rfl⟩ := hex
    exact ⟨j, y, hm, rfl, rfl⟩

end Table
