/-
A store of file versions as what it is for: a log, newest first, of what was
put where.

`stored` is what the log has at a path. The newest version that meets the path
decides: at the path itself it is the content, and above or below it there is
no file any more. `changes` are the versions after which the path has another
content than before them.

A tree that is made by one `Tree.upsert` after the other keeps such a log
(`lookup_tree`).
-/
import Wikikiki.Lib.Tree

namespace Versions

variable {V N β γ : Type} [DecidableEq N] (path : V → List N)

/-- Two paths that no tree has a file at both of, unless they are one. -/
def Meets (p q : List N) : Prop := p <+: q ∨ q <+: p

instance (p q : List N) : Decidable (Meets p q) := inferInstanceAs (Decidable (p <+: q ∨ q <+: p))

/-- What the log has at a path. -/
def stored (data : V → β) (log : List V) (q : List N) : Option β :=
  match log.find? fun v => Meets (path v) q with
  | none => none
  | some v => if path v = q then some (data v) else none

/-- The versions that changed what is at a path, in the order of the log. -/
def changes [DecidableEq β] (data : V → β) (q : List N) : List V → List V
  | [] => []
  | v :: older =>
    if stored path data (v :: older) q = stored path data older q then changes data q older
    else v :: changes data q older

/-- The tree that the versions make. -/
def tree (data : V → β) : List V → Tree.Entries N β
  | [] => []
  | v :: older => Tree.upsert (tree data older) (path v) (data v)

section

variable {path} {data : V → β} {log older : List V} {v : V} {q : List N}

theorem stored_self (data : V → β) (v : V) (older : List V) :
    stored path data (v :: older) (path v) = some (data v) := by
  simp [stored, Meets]

theorem stored_other (h : ¬ Meets (path v) q) : stored path data (v :: older) q = stored path data older q := by
  simp [stored, h]

theorem stored_beside (h : Meets (path v) q) (hne : path v ≠ q) : stored path data (v :: older) q = none := by
  simp [stored, h, hne]

theorem stored_map (f : β → γ) (log : List V) (q : List N) :
    stored path (fun v => f (data v)) log q = (stored path data log q).map f := by
  unfold stored
  cases log.find? fun v => Meets (path v) q with
  | none => rfl
  | some v => by_cases h : path v = q <;> simp [h]

/-- The tree has at a path what the log has. -/
theorem lookup_tree (hne : ∀ v ∈ log, path v ≠ []) (q : List N) :
    Tree.lookup (tree path data log) q = stored path data log q := by
  induction log with
  | nil => exact Tree.lookup_nil q
  | cons v older ih =>
    have hself : Tree.lookup (tree path data (v :: older)) (path v) = some (data v) :=
      Tree.lookup_upsert_self _ (hne v List.mem_cons_self) _
    by_cases hv : path v = q
    · subst hv
      rw [hself, stored_self]
    by_cases hm : Meets (path v) q
    · rw [stored_beside hm hv]
      rcases hm with hm | hm
      · exact Tree.lookup_below hself hm hv
      · exact Tree.lookup_above hself hm (Ne.symm hv)
    · rw [stored_other hm, ← ih fun w hw => hne w (List.mem_cons_of_mem _ hw)]
      exact Tree.lookup_upsert_other _ (fun h => hm (.inl h)) (fun h => hm (.inr h)) _

end

end Versions
