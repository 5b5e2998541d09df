/-
The trees of the commits of a run: each is the tree before it with one page's
file put in (`Grown`). In a new repository, then, HEAD has blobs at the files
of its pages and nowhere else, but for the seed (`Grown.blob`).
-/
import Wikikiki.FileHistory
import Wikikiki.Head

namespace Wikikiki

/-- Where a page's file is in the tree. -/
def Wiki.pageTree (w : Wiki) (pagePath : Text) : List Text := treePath (w.pageFile pagePath)

/-- The commits of some writes on top of the history `start`, newest first:
each has the tree of the commit before it, with the file of its page. -/
def Grown (v : Service) (start : List Commit) : List (Nat × Commit) → Prop
  | [] => True
  | (t, c) :: older =>
    v.wiki.ext.upsert (headTree (older.map Prod.snd ++ start)) (v.wiki.pageTree (v.req t).path)
        (Text.utf8 (v.req t).content) = some c.tree ∧
      Grown v start older

section

variable {v : Service} {start : List Commit} {older : List (Nat × Commit)} {t : Nat} {c : Commit} {p : Text}
  {l l' : Ledger}

/-! ## Runs -/

/-- What a step does to Git: nothing, or it lands the current write's commit. -/
theorem Ledger.Step.git_cases (hstep : Step v l l') :
    (l'.stores.git = l.stores.git ∧ l'.landed = l.landed) ∨
    ∃ t rel parent c, l.current = some (t, .commit rel parent) ∧ l'.stores.git = c :: l.stores.git ∧
      l'.landed = l.landed ++ [t] ∧ v.wiki.Committed l.stores.git parent rel (v.req t).content
        (v.req t).actorType (v.req t).actorHandle (v.req t).message c := by
  cases hstep with
  | start _ _ => exact .inl ⟨rfl, by simp [Stage.rank]⟩
  | @go s s' log t stage stage' he =>
    have hlanded := reached_go he log t 7
    cases he with
    | commit hc => exact .inr ⟨t, _, _, _, rfl, rfl, hlanded, hc⟩
    | _ => exact .inl ⟨rfl, by simp [Stage.rank]⟩
  | @stop s s' log t stage o he =>
    have hlanded := reached_stop he log t (k := 7) (by omega)
    rw [if_neg (by omega), List.append_nil] at hlanded
    cases he <;> exact .inl ⟨rfl, hlanded⟩
  | admin _ _ => exact .inl ⟨rfl, rfl⟩

theorem ext_of_map {α β : Type} {xs ys : List (α × β)} (h₁ : xs.map Prod.fst = ys.map Prod.fst)
    (h₂ : xs.map Prod.snd = ys.map Prod.snd) : xs = ys := by
  rw [← List.zip_unzip xs, ← List.zip_unzip ys]
  simp [List.unzip_eq_map, h₁, h₂]

/-- The commits of a ledger are all that its Git history says. -/
theorem GitHistory.unique {start : Ledger} {commits : List (Nat × Commit)}
    (h : GitHistory v start l commits) (xs : List (Nat × Commit)) (hfst : xs.map Prod.fst = l.landed)
    (hsnd : l.stores.git = (xs.map Prod.snd).reverse ++ start.stores.git) : commits = xs := by
  refine ext_of_map (h.landed.trans hfst.symm) ?_
  have hrev := List.append_cancel_right (h.git.symm.trans hsnd)
  exact List.reverse_injective hrev

/-- The landed commits grow on top of one another. -/
theorem Ledger.Steps.grown {commits : List (Nat × Commit)} (h : Steps v l l') (hl : l.Opened)
    (hh : GitHistory v l l' commits) : Grown v l.stores.git commits.reverse := by
  induction h generalizing commits with
  | refl =>
    have hnil : GitHistory v l l [] := hl.history.git
    rw [hh.unique [] hnil.landed hnil.git]
    trivial
  | @tail l₁ l₂ hsteps hstep ih =>
    obtain ⟨commits₁, recorded₁, hh₁⟩ := Steps.history hsteps hl
    have hg := ih hh₁.git
    rcases hstep.git_cases with ⟨hgit, hlanded⟩ | ⟨t, rel, parent, c, hcur, hgit, hlanded, hc⟩
    · rw [hh.unique commits₁ (hh₁.git.landed.trans hlanded.symm) (hgit.trans hh₁.git.git)]
      exact hg
    · have hcommits := hh.unique (commits₁ ++ [(t, c)])
        (by rw [hlanded, ← hh₁.git.landed]; simp) (by rw [hgit, hh₁.git.git]; simp)
      rw [hcommits, List.reverse_append, List.reverse_singleton, List.singleton_append]
      refine ⟨?_, hg⟩
      have haims := (Steps.aimed hsteps hl.aimed _ _ hcur).2
      have htree := hc.tree
      rw [hh₁.git.head _ _ _ hcur, headTree_readHead, hh₁.git.git, haims.2, ← List.map_reverse] at htree
      exact htree

/-! ## What stands where -/

/-- A commit leaves the pages apart from its own as they were. -/
theorem Grown.unchanged (h : Grown v start ((t, c) :: older)) (hap : v.wiki.Apart (v.req t).path p) :
    Tree.lookup c.tree (v.wiki.pageTree p) =
      Tree.lookup (headTree (older.map Prod.snd ++ start)) (v.wiki.pageTree p) :=
  v.wiki.ext.upsert_other h.1 hap.1 hap.2

theorem Grown.own (h : Grown v start ((t, c) :: older)) :
    Tree.lookup c.tree (v.wiki.pageTree (v.req t).path) = some (Text.utf8 (v.req t).content) :=
  v.wiki.ext.upsert_self h.1

/-- In a new repository, blobs are the pages' that were committed, and the
seed's. -/
theorem Grown.blob {time : Int} (h : Grown v [seedCommit time] older) {q : List Text}
    (hq : Tree.lookup (headTree (older.map Prod.snd ++ [seedCommit time])) q ≠ none) :
    q = [".keep".toList] ∨ ∃ x ∈ older, q = v.wiki.pageTree (v.req x.1).path := by
  induction older with
  | nil =>
    by_contra hne
    exact hq (Tree.lookup_single (fun he => hne (.inl he)) [])
  | cons x older ih =>
    obtain ⟨t, c⟩ := x
    have hself : Tree.lookup c.tree (v.wiki.pageTree (v.req t).path) = _ := h.own
    have hq' : Tree.lookup c.tree q ≠ none := hq
    by_cases heq : q = v.wiki.pageTree (v.req t).path
    · exact .inr ⟨(t, c), List.mem_cons_self, heq⟩
    -- Neither above the new blob nor below it is another one.
    have habove : ¬ q <+: v.wiki.pageTree (v.req t).path := fun hpre =>
      hq' (Tree.lookup_above hself hpre heq)
    have hbelow : ¬ v.wiki.pageTree (v.req t).path <+: q := fun hpre =>
      hq' (Tree.lookup_below hself hpre (Ne.symm heq))
    rw [v.wiki.ext.upsert_other h.1 hbelow habove] at hq'
    rcases ih h.2 hq' with hk | ⟨x, hx, he⟩
    · exact .inl hk
    · exact .inr ⟨x, List.mem_cons_of_mem _ hx, he⟩

end

end Wikikiki
