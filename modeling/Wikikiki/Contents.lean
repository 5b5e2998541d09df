/-
What the disk and HEAD hold of the pages, along a run of the ledger.

A page's file is what the last write that wrote it left there, as long as no
write has failed in a store. HEAD's blob is the content of the last write
whose commit landed, whatever failed: a commit changes no other page's blob,
because two files that lie in their places on disk are never one below the
other.
-/
import Wikikiki.History

namespace Wikikiki

/-! ## The last write to a page -/

/-- The last of some writes that was to the page. -/
def lastTo (v : Service) (p : Text) (ts : List Nat) : Option Nat :=
  (ts.filter fun t => (v.req t).path = p).getLast?

/-- What a store holds of the page after some writes to it, each of which
replaced what was there. -/
def contentAfter (v : Service) (p : Text) (ts : List Nat) (was : Option Bytes) : Option Bytes :=
  match lastTo v p ts with
  | some t => some (Text.utf8 (v.req t).content)
  | none => was

section

variable {v : Service} {p : Text} {t : Nat} {ts : List Nat} {was : Option Bytes}

theorem lastTo_mem (h : lastTo v p ts = some t) : t ∈ ts ∧ (v.req t).path = p := by
  simpa using List.mem_filter.1 (List.mem_of_getLast? h)

theorem lastTo_eq_none : lastTo v p ts = none ↔ ∀ t ∈ ts, (v.req t).path ≠ p := by
  simp [lastTo]

theorem lastOn_fst (p : Text) (xs : List (Nat × Commit)) :
    (lastOn v p xs).map Prod.fst = lastTo v p (xs.map Prod.fst) := by
  simp [lastOn, lastTo, List.filter_map, List.getLast?_map, Function.comp_def]

theorem contentAfter_concat_self : contentAfter v (v.req t).path (ts ++ [t]) was =
    some (Text.utf8 (v.req t).content) := by
  simp [contentAfter, lastTo]

theorem contentAfter_concat_other (hp : p ≠ (v.req t).path) :
    contentAfter v p (ts ++ [t]) was = contentAfter v p ts was := by
  simp [contentAfter, lastTo, Ne.symm hp]

end

/-! ## The invariant -/

/-- Neither of the two pages' files lies below the other in the tree. -/
def Wiki.Apart (w : Wiki) (p q : Text) : Prop :=
  ¬ treePath (w.pageFile p) <+: treePath (w.pageFile q) ∧
    ¬ treePath (w.pageFile q) <+: treePath (w.pageFile p)

/-- Two files that lie in their places are apart in the tree, too. -/
theorem Wiki.apart_of_placed {w : Wiki} (hroot : w.root <+: w.contentRoot) {d : Disk} {p q : Text}
    (hp : validatePath p = .ok ()) (hq : validatePath q = .ok ())
    (hdp : d.Placed (filePath w.contentRoot p)) (hdq : d.Placed (filePath w.contentRoot q))
    (hne : p ≠ q) : w.Apart p q := by
  have hfile : ∀ {a b : Text}, w.pageFile a <+: w.pageFile b →
      filePath w.contentRoot a <+: filePath w.contentRoot b := by
    intro a b h
    rw [← w.root_pageFile hroot, ← w.root_pageFile hroot]
    exact (List.prefix_append_right_inj _).2 h
  refine ⟨fun h => ?_, fun h => ?_⟩
  · exact hne (filePath_injective _ (hdp.eq_of_prefix hdq (hfile (prefix_of_treePath hp hq h))))
  · exact hne (filePath_injective _ (hdq.eq_of_prefix hdp (hfile (prefix_of_treePath hq hp h)))).symm

/-- No write in the ledger has failed in a store. -/
def Ledger.Healthy (l : Ledger) : Prop := ∀ t stage e, (t, .failed stage e) ∈ l.log → stage.rank < 3

/-- The writes that wrote their file. -/
abbrev Ledger.filed (l : Ledger) : List Nat := l.reached 5

/-- What the disk and HEAD hold since the ledger `start`. -/
structure Contents (v : Service) (start l : Ledger) : Prop where
  grows : start.stores.disk.Grows l.stores.disk
  placed : ∀ t ∈ l.filed, validatePath (v.req t).path = .ok () ∧ v.wiki.root <+: v.wiki.contentRoot ∧
    l.stores.disk.Placed (filePath v.wiki.contentRoot (v.req t).path)
  file : l.Healthy → ∀ p, l.stores.disk.read (filePath v.wiki.contentRoot p) =
    contentAfter v p l.filed (start.stores.disk.read (filePath v.wiki.contentRoot p))
  head : ∀ p, (∀ t ∈ l.landed, (v.req t).path ≠ p → v.wiki.Apart (v.req t).path p) →
    headBlob l.stores.git (v.wiki.pageFile p) =
      contentAfter v p l.landed (headBlob start.stores.git (v.wiki.pageFile p))

theorem Ledger.Opened.contents {v : Service} {l : Ledger} (h : l.Opened) : Contents v l l := by
  obtain ⟨s, log, current⟩ := l
  obtain ⟨rfl, rfl⟩ := h
  exact ⟨Disk.Grows.refl _, by simp [ended], fun _ _ => rfl, fun _ _ => rfl⟩

/-! ## What each step adds -/

section

variable {v : Service} {start l l' : Ledger} {s s' : Stores} {log : List (Nat × Outcome)} {t : Nat}

/-- A stage that goes on goes to the next one. -/
theorem Wiki.Effect.rank_go {w : Wiki} {req : WriteRequest} {stage stage' : Stage}
    (h : w.Effect req stage s (.go stage') s') : stage'.rank = stage.rank + 1 := by
  cases h <;> rfl

/-- A write that goes on has got one stage further. -/
theorem reached_go {w : Wiki} {req : WriteRequest} {stage stage' : Stage}
    (h : w.Effect req stage s (.go stage') s') (log : List (Nat × Outcome)) (t k : Nat) :
    Ledger.reached k ⟨s', log, some (t, stage')⟩ =
      Ledger.reached k ⟨s, log, some (t, stage)⟩ ++ if stage'.rank = k then [t] else [] := by
  have hr := h.rank_go
  simp only [reached_running, List.append_assoc]
  rcases Nat.lt_trichotomy stage'.rank k with hlt | heq | hlt
  · rw [if_neg (by omega), if_neg (by omega), if_neg (by omega)]; rfl
  · rw [if_pos (by omega), if_neg (by omega), if_pos heq]; rfl
  · rw [if_pos (by omega), if_pos (by omega), if_neg (by omega)]; rfl

/-- A step that writes no file and lands no commit. -/
theorem Contents.same (h : Contents v start l) (hfiled : l'.filed = l.filed)
    (hlanded : l'.landed = l.landed) (hgit : l'.stores.git = l.stores.git)
    (hgrows : l.stores.disk.Grows l'.stores.disk)
    (hread : l'.Healthy → l.Healthy ∧ ∀ p, l'.stores.disk.read p = l.stores.disk.read p) :
    Contents v start l' := by
  refine ⟨h.grows.trans hgrows, fun t ht => ?_, fun hh p => ?_, fun p hp => ?_⟩
  · obtain ⟨hv, hr, hpl⟩ := h.placed t (hfiled ▸ ht)
    exact ⟨hv, hr, hpl.grows hgrows⟩
  · obtain ⟨hl, hd⟩ := hread hh
    rw [hd, hfiled, h.file hl p]
  · rw [hlanded] at hp ⊢
    rw [hgit, h.head p hp]

/-- A write writes its file. -/
theorem Contents.filed {rel : PathBuf} {d disk : Disk}
    (h : Contents v start ⟨s, log, some (t, .writeFile rel)⟩)
    (hv : validatePath (v.req t).path = .ok ()) (ha : Stage.Aims v.wiki (v.req t).path (.writeFile rel))
    (hd : s.disk.createDirAll (v.wiki.root ++ rel).dropLast = some d)
    (hw : d.write (v.wiki.root ++ rel) (Text.utf8 (v.req t).content) = some disk) :
    Contents v start ⟨{ s with disk }, log, some (t, .readHead rel)⟩ := by
  have he : v.wiki.Effect (v.req t) (.writeFile rel) s (.go (.readHead rel)) { s with disk } := .file hd hw
  have hfiled : Ledger.filed ⟨{ s with disk }, log, some (t, .readHead rel)⟩ =
      Ledger.filed ⟨s, log, some (t, .writeFile rel)⟩ ++ [t] := reached_go he log t 5
  have hlanded : Ledger.landed ⟨{ s with disk }, log, some (t, .readHead rel)⟩ =
      Ledger.landed ⟨s, log, some (t, .writeFile rel)⟩ := by simp [Stage.rank]
  have hgrows := (he.towards ha).grows
  obtain ⟨hr, rfl⟩ := ha
  rw [v.wiki.root_pageFile hr] at hd hw
  refine ⟨h.grows.trans hgrows, fun u hu => ?_, fun hh p => ?_, fun p hp => ?_⟩
  · rw [hfiled, List.mem_append, List.mem_singleton] at hu
    rcases hu with hu | rfl
    · obtain ⟨hvu, hru, hpl⟩ := h.placed u hu
      exact ⟨hvu, hru, hpl.grows hgrows⟩
    · exact ⟨hv, hr, Disk.placed_of_write hd hw⟩
  · rw [hfiled]
    by_cases hp : p = (v.req t).path
    · rw [hp, contentAfter_concat_self]
      exact Disk.read_write_self hw
    · have hne : filePath v.wiki.contentRoot p ≠ filePath v.wiki.contentRoot (v.req t).path := fun he =>
        hp (filePath_injective _ he)
      rw [contentAfter_concat_other hp, ← h.file hh p]
      exact (Disk.read_write_other hw hne).trans (Disk.read_createDirAll hd _)
  · rw [hlanded] at hp ⊢
    exact h.head p hp

/-- What HEAD holds is what a commit on top of it starts from. -/
theorem headBlob_readHead (w : Wiki) (git : List Commit) (rel : PathBuf) :
    headBlob git rel = Tree.lookup (((w.readHead git).map Prod.snd).getD []) (treePath rel) := by
  cases git with
  | nil => exact (Tree.lookup_nil _).symm
  | cons c git => rfl

/-- A commit lands. -/
theorem Contents.landed {rel : PathBuf} {parent : Option (Text × GitTree)} {c : Commit}
    (h : Contents v start ⟨s, log, some (t, .commit rel parent)⟩)
    (hrel : rel = v.wiki.pageFile (v.req t).path) (hparent : parent = v.wiki.readHead s.git)
    (hc : v.wiki.Committed s.git parent rel (v.req t).content (v.req t).actorType (v.req t).actorHandle
      (v.req t).message c) :
    Contents v start ⟨{ s with git := c :: s.git }, log, some (t, .project (v.wiki.ext.commitId c))⟩ := by
  have he : v.wiki.Effect (v.req t) (.commit rel parent) s (.go (.project (v.wiki.ext.commitId c)))
      { s with git := c :: s.git } := .commit hc
  have hfiled : Ledger.filed ⟨{ s with git := c :: s.git }, log,
      some (t, .project (v.wiki.ext.commitId c))⟩ =
        Ledger.filed ⟨s, log, some (t, .commit rel parent)⟩ := by simp [Stage.rank]
  have hlanded : Ledger.landed ⟨{ s with git := c :: s.git }, log,
      some (t, .project (v.wiki.ext.commitId c))⟩ =
        Ledger.landed ⟨s, log, some (t, .commit rel parent)⟩ ++ [t] := reached_go he log t 7
  refine ⟨h.grows, fun u hu => h.placed u (hfiled ▸ hu), fun hh p => ?_, fun p hp => ?_⟩
  · rw [hfiled]
    exact h.file hh p
  · rw [hlanded] at hp ⊢
    by_cases hpt : p = (v.req t).path
    · rw [hpt, contentAfter_concat_self, ← hrel]
      exact v.wiki.ext.upsert_self hc.tree
    · have hapart := hp t (by simp) (Ne.symm hpt)
      have hold : headBlob s.git (v.wiki.pageFile p) = _ :=
        h.head p fun u hu => hp u (List.mem_append_left _ hu)
      rw [contentAfter_concat_other hpt, ← hold, headBlob_readHead v.wiki s.git, ← hparent]
      exact v.wiki.ext.upsert_other hc.tree (hrel ▸ hapart.1) (hrel ▸ hapart.2)

theorem Ledger.Step.contents {commits recorded : List (Nat × Commit)} (hstep : Step v l l') (ha : l.Aimed v)
    (hh : History v start l commits recorded) (h : Contents v start l) : Contents v start l' := by
  cases hstep with
  | start hv hnew =>
    refine h.same ?_ ?_ rfl (Disk.Grows.refl _) fun hh => ⟨hh, fun _ => rfl⟩
    · simp [Stage.rank]
    · simp [Stage.rank]
  | @go s s' log t stage stage' he =>
    have hgrows := (he.towards (ha _ _ rfl).2).grows
    cases he with
    | file hd hw => exact h.filed (ha _ _ rfl).1 (ha _ _ rfl).2 hd hw
    | commit hc => exact h.landed (ha _ _ rfl).2.2 (hh.git.head _ _ _ rfl) hc
    | root hd _ =>
      exact h.same (by simp [Stage.rank]) (by simp [Stage.rank]) rfl hgrows fun hh =>
        ⟨hh, Disk.read_createDirAll hd⟩
    | _ =>
      exact h.same (by simp [Stage.rank]) (by simp [Stage.rank]) rfl hgrows fun hh =>
        ⟨hh, fun _ => rfl⟩
  | @stop s s' log t stage o he =>
    have h₅ := reached_stop he log t (k := 5) (by omega)
    have h₇ := reached_stop he log t (k := 7) (by omega)
    have hgrows := (he.towards (ha _ _ rfl).2).grows
    rw [if_neg (by omega), List.append_nil] at h₅ h₇
    have hlog : Ledger.Healthy ⟨s', log ++ [(t, o)], none⟩ → Ledger.Healthy ⟨s, log, some (t, stage)⟩ :=
      fun hh u st e hm => hh u st e (by simp [show (u, Outcome.failed st e) ∈ log from hm])
    cases he with
    | @failed _ _ e disk _ hcheck =>
      refine h.same h₅ h₇ rfl hgrows fun hh => ⟨hlog hh, fun p => ?_⟩
      have hlt := hh t stage e (by simp)
      simp only [hcheck hlt]
    | _ => exact h.same h₅ h₇ rfl hgrows fun hh => ⟨hlog hh, fun _ => rfl⟩
  | admin _ _ => exact h.same rfl rfl rfl (Disk.Grows.refl _) fun hh => ⟨hh, fun _ => rfl⟩

/-! ## Reading it -/

theorem mem_reached_of_le {j k : Nat} (hjk : j ≤ k) (ht : t ∈ l.reached k) : t ∈ l.reached j := by
  rcases List.mem_append.1 ht with hm | hm
  · obtain ⟨o, ho, hk⟩ := mem_ended.1 hm
    exact List.mem_append_left _ (mem_ended.2 ⟨o, ho, hjk.trans hk⟩)
  · obtain ⟨stage, hc, hk⟩ := mem_running.1 hm
    exact List.mem_append_right _ (mem_running.2 ⟨stage, hc, hjk.trans hk⟩)

/-- HEAD's blob of a page whose file has its place is the content of the last
write to it whose commit landed. -/
theorem Contents.head_of_placed (h : Contents v start l) {p : Text} (hv : validatePath p = .ok ())
    (hp : l.stores.disk.Placed (filePath v.wiki.contentRoot p)) :
    headBlob l.stores.git (v.wiki.pageFile p) =
      contentAfter v p l.landed (headBlob start.stores.git (v.wiki.pageFile p)) := by
  refine h.head p fun t ht hne => ?_
  obtain ⟨hvt, hroot, hpt⟩ := h.placed t (mem_reached_of_le (by omega) ht)
  exact Wiki.apart_of_placed hroot hvt hv hpt hp hne

end

end Wikikiki
