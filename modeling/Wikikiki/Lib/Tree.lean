/-
Trees of named entries, as a content-addressed store keeps a directory: an
entry is a blob, a subtree, or something else (a link, a submodule) that
neither of the two operations below looks into.

`lookup` follows a path; `upsert` puts a blob at a path and creates the
subtrees it needs. They are inverse where they meet (`lookup_upsert_self`)
and do not meet anywhere else (`lookup_upsert_other`).
-/
import Mathlib.Data.List.Infix

namespace Tree

variable {N β : Type} [DecidableEq N]

/-- What stands under a name. -/
inductive Entry (N β : Type) where
  | blob (b : β)
  | tree (entries : List (N × Entry N β))
  | other

/-- The entries of one directory. -/
abbrev Entries (N β : Type) := List (N × Entry N β)

/-- The first entry of a name. -/
def entry (n : N) (es : Entries N β) : Option (Entry N β) := (es.find? fun p => p.1 = n).map Prod.snd

/-- The blob at a path: inner segments must be trees, the last one a blob. -/
def lookup : Entries N β → List N → Option β
  | _, [] => none
  | es, [n] =>
    match entry n es with
    | some (.blob b) => some b
    | _ => none
  | es, n :: m :: ns =>
    match entry n es with
    | some (.tree es') => lookup es' (m :: ns)
    | _ => none

/-- Puts an entry under a name, in the place of the one that has it. -/
def setEntry (n : N) (e : Entry N β) : Entries N β → Entries N β
  | [] => [(n, e)]
  | (m, f) :: es => if m = n then (n, e) :: es else (m, f) :: setEntry n e es

/-- The subtree under a name, empty where there is none. -/
def subtree (n : N) (es : Entries N β) : Entries N β :=
  match entry n es with
  | some (.tree es') => es'
  | _ => []

def upsert : Entries N β → List N → β → Entries N β
  | es, [], _ => es
  | es, [n], b => setEntry n (.blob b) es
  | es, n :: m :: ns, b => setEntry n (.tree (upsert (subtree n es) (m :: ns) b)) es

@[simp] theorem entry_setEntry_self (n : N) (e : Entry N β) (es : Entries N β) :
    entry n (setEntry n e es) = some e := by
  induction es with
  | nil => simp [setEntry, entry]
  | cons p es ih =>
    obtain ⟨m, f⟩ := p
    by_cases hm : m = n
    · simp [setEntry, entry, hm]
    · simpa [setEntry, entry, hm] using ih

theorem entry_setEntry_other {n m : N} (h : m ≠ n) (e : Entry N β) (es : Entries N β) :
    entry m (setEntry n e es) = entry m es := by
  induction es with
  | nil => simp [setEntry, entry, Ne.symm h]
  | cons p es ih =>
    obtain ⟨k, f⟩ := p
    by_cases hk : k = n
    · subst hk; simp [setEntry, entry, Ne.symm h]
    · by_cases hkm : k = m
      · simp [setEntry, entry, hkm, h]
      · simpa [setEntry, entry, hk, hkm] using ih

theorem lookup_upsert_self (es : Entries N β) {p : List N} (hp : p ≠ []) (b : β) :
    lookup (upsert es p b) p = some b := by
  induction p generalizing es with
  | nil => exact absurd rfl hp
  | cons n p ih =>
    cases p with
    | nil => simp [upsert, lookup]
    | cons m ns => simp [upsert, lookup, ih (subtree n es) (by simp)]

theorem lookup_nil (p : List N) : lookup ([] : Entries N β) p = none := by
  match p with
  | [] => rfl
  | [_] => rfl
  | _ :: _ :: _ => rfl

/-- A single blob is all there is. -/
theorem lookup_single {n : N} {p : List N} (h : p ≠ [n]) (b : β) : lookup [(n, Entry.blob b)] p = none := by
  match p with
  | [] => rfl
  | [m] =>
    have hm : ¬ n = m := fun he => h (by rw [he])
    simp [lookup, entry, hm]
  | m :: k :: ns => by_cases hm : n = m <;> simp [lookup, entry, hm]

/-- A subtree answers for the paths below its name. -/
theorem lookup_subtree (es : Entries N β) (n m : N) (ns : List N) :
    lookup (subtree n es) (m :: ns) = lookup es (n :: m :: ns) := by
  simp only [lookup, subtree]
  split
  · rfl
  · exact lookup_nil _

/-- There is no blob above a blob: what leads to one is a tree. -/
theorem lookup_above {es : Entries N β} {p q : List N} {b : β} (h : lookup es q = some b) (hpq : p <+: q)
    (hne : p ≠ q) : lookup es p = none := by
  induction p generalizing es q with
  | nil => cases es <;> rfl
  | cons n p ih =>
    obtain ⟨t, rfl⟩ := hpq
    cases p with
    | nil =>
      cases t with
      | nil => exact absurd rfl hne
      | cons m t =>
        simp only [List.cons_append, List.nil_append, lookup] at h ⊢
        split at h
        next he => rw [he]
        · cases h
    | cons m p =>
      simp only [List.cons_append, lookup] at h ⊢
      split at h
      next es' he => exact ih h (List.prefix_append _ _) fun he => hne (congrArg (n :: ·) he)
      · cases h

/-- And there is none below it. -/
theorem lookup_below {es : Entries N β} {p q : List N} {b : β} (h : lookup es p = some b) (hpq : p <+: q)
    (hne : p ≠ q) : lookup es q = none := by
  cases hq : lookup es q with
  | none => rfl
  | some c =>
    rw [lookup_above hq hpq hne] at h
    cases h

/-- A path that the written one neither extends nor is extended by keeps its
blob. -/
theorem lookup_upsert_other (es : Entries N β) {p q : List N} (hpq : ¬ p <+: q) (hqp : ¬ q <+: p) (b : β) :
    lookup (upsert es p b) q = lookup es q := by
  induction p generalizing es q with
  | nil => exact absurd (List.nil_prefix) hpq
  | cons n p ih =>
    cases q with
    | nil => exact absurd (List.nil_prefix) hqp
    | cons k q =>
      by_cases hk : k = n
      · subst hk
        simp only [List.cons_prefix_cons, true_and] at hpq hqp
        cases p with
        | nil => exact absurd (List.nil_prefix) hpq
        | cons m ns =>
          cases q with
          | nil => exact absurd (List.nil_prefix) hqp
          | cons j q =>
            simp only [upsert, lookup, entry_setEntry_self]
            rw [ih (subtree k es) hpq hqp, lookup_subtree]
            rfl
      · cases p <;> cases q <;> simp [upsert, lookup, entry_setEntry_other hk]

end Tree
