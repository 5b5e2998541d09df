/-
The history of a page beside the writes to it.

A write commits the page at its file below the content root, seen from the
root of the repository; the history looks for the file as if the two roots
were one. So it lists the commits of a page exactly when they are, and none of
them otherwise (`history_complete_iff`). Where they are, it lists the saves
that changed the page, not those that put back what was there
(`history_of_edits`).
-/
import Wikikiki.Trees

namespace Wikikiki

/-! ## The commits of a run -/

/-- The commits of a run in a new repository, newest first, with their
writes. -/
structure Trail (v : Service) (time : Int) (git : List Commit) (ys : List (Nat × Commit)) : Prop where
  git : git = ys.map Prod.snd ++ [seedCommit time]
  grown : Grown v [seedCommit time] ys
  valid : ∀ x ∈ ys, validatePath (v.req x.1).path = .ok ()
  apart : ∀ x ∈ ys, ∀ y ∈ ys, (v.req x.1).path ≠ (v.req y.1).path →
    v.wiki.Apart (v.req x.1).path (v.req y.1).path

section

variable {v : Service} {start : List Commit} {git newer older : List Commit} {ys ys₁ ys₂ : List (Nat × Commit)}
  {time : Int} {t : Nat} {c : Commit} {p : Text}

theorem run_trail {stores : Stores} {as : List Action} {s : State} {commits : List (Nat × Commit)}
    (hgit : stores.git = [seedCommit time]) (hr : v.run (.opened stores) as = some s)
    (hh : GitHistory v (State.opened stores).ledger s.ledger commits) :
    Trail v time s.stores.git commits.reverse := by
  have hopened : (State.opened stores).ledger.Opened := ⟨rfl, rfl⟩
  have hsteps := (Serving.opened v stores).steps hr
  have hc := hsteps.contents hopened
  have hplaced : ∀ x ∈ commits.reverse, validatePath (v.req x.1).path = .ok () ∧
      v.wiki.root <+: v.wiki.contentRoot ∧
      s.stores.disk.Placed (filePath v.wiki.contentRoot (v.req x.1).path) := by
    intro x hx
    have hlanded : x.1 ∈ s.ledger.landed := by
      rw [← hh.landed]
      exact List.mem_map_of_mem (List.mem_reverse.1 hx)
    exact hc.placed x.1 (mem_reached_of_le (by omega) hlanded)
  refine ⟨?_, ?_, fun x hx => (hplaced x hx).1, fun x hx y hy hne => ?_⟩
  · rw [List.map_reverse, ← hgit]
    exact hh.git
  · rw [← hgit]
    exact hsteps.grown hopened hh
  · obtain ⟨hvx, hroot, hpx⟩ := hplaced x hx
    obtain ⟨hvy, -, hpy⟩ := hplaced y hy
    exact Wiki.apart_of_placed hroot hvx hvy hpx hpy hne

theorem Grown.suffix (h : Grown v start (ys₁ ++ ys₂)) : Grown v start ys₂ := by
  induction ys₁ with
  | nil => exact h
  | cons x ys₁ ih => exact ih h.2

/-- Each commit is one of the run's, on top of those before it, or the seed. -/
theorem Trail.split (h : Trail v time git ys) (hsplit : git = newer ++ c :: older) :
    (∃ ys₁ t ys₂, ys = ys₁ ++ (t, c) :: ys₂ ∧ older = ys₂.map Prod.snd ++ [seedCommit time]) ∨
      (c = seedCommit time ∧ older = []) := by
  rw [h.git, List.append_eq_append_iff] at hsplit
  rcases hsplit with ⟨rest, rfl, hrest⟩ | ⟨rest, hmap, hrest⟩
  · right
    rcases List.append_eq_singleton_iff.1 hrest.symm with ⟨-, hcons⟩ | ⟨-, hcons⟩
    · exact ⟨(List.cons.inj hcons).1, (List.cons.inj hcons).2⟩
    · cases hcons
  · cases rest with
    | nil =>
      right
      obtain ⟨rfl, rfl⟩ := List.cons.inj hrest
      exact ⟨rfl, rfl⟩
    | cons d rest =>
      left
      obtain ⟨rfl, rfl⟩ := List.cons.inj hrest
      obtain ⟨ys₁, ys', rfl, -, hys'⟩ := List.map_eq_append_iff.1 hmap
      obtain ⟨x, ys₂, rfl, rfl, rfl⟩ := List.map_eq_cons_iff.1 hys'
      exact ⟨ys₁, x.1, ys₂, rfl, rfl⟩

theorem Wiki.pageTree_eq (hv : validatePath p = .ok ()) (w : Wiki) :
    w.pageTree p = (w.contentRoot.drop w.root.length).flatMap treeComponents ++ relativeFilePath p :=
  treePath_repoPath hv _

theorem Wiki.pageTree_injective {w : Wiki} {q : Text} (hp : validatePath p = .ok ())
    (hq : validatePath q = .ok ()) (h : w.pageTree p = w.pageTree q) : p = q := by
  rw [pageTree_eq hp, pageTree_eq hq] at h
  exact relativeFilePath_injective (List.append_cancel_left h)

/-- Who has a blob at a page's place in the tree is the page. -/
theorem Trail.of_blob (h : Trail v time git (ys₁ ++ ys₂)) (hv : validatePath p = .ok ())
    (hb : Tree.lookup (headTree (ys₂.map Prod.snd ++ [seedCommit time])) (v.wiki.pageTree p) ≠ none) :
    ∃ x ∈ ys₂, (v.req x.1).path = p := by
  rcases h.grown.suffix.blob hb with hk | ⟨x, hx, he⟩
  · exact absurd hk (treePath_pageFile_ne_keep hv _)
  · exact ⟨x, hx, (Wiki.pageTree_injective hv (h.valid x (List.mem_append_right _ hx)) he).symm⟩

/-- Only its own commits change the blob of a page. -/
theorem Trail.own (h : Trail v time git ys) (hv : validatePath p = .ok ())
    (hc : ChangedBlob git (v.wiki.pageTree p) c) : ∃ t, (t, c) ∈ ys ∧ (v.req t).path = p := by
  obtain ⟨newer, older, hsplit, hne⟩ := hc
  rcases h.split hsplit with ⟨ys₁, t, ys₂, rfl, rfl⟩ | ⟨rfl, rfl⟩
  · refine ⟨t, by simp, ?_⟩
    by_contra hother
    obtain ⟨x, hx, hxp⟩ : ∃ x ∈ (t, c) :: ys₂, (v.req x.1).path = p := by
      by_cases hnew : Tree.lookup c.tree (v.wiki.pageTree p) = none
      · rw [hnew] at hne
        have h' : Trail v time git ((ys₁ ++ [(t, c)]) ++ ys₂) := by simpa using h
        obtain ⟨x, hx, hxp⟩ := h'.of_blob hv (Ne.symm hne)
        exact ⟨x, List.mem_cons_of_mem _ hx, hxp⟩
      · exact h.of_blob hv hnew
    subst hxp
    have hap := h.apart (t, c) (by simp) x (List.mem_append_right _ hx) hother
    exact hne (h.grown.suffix.unchanged hap)
  · exact absurd (headBlob_seed hv v.wiki time) fun hnone => hne (hnone.trans (Tree.lookup_nil _).symm)

/-! ## Two roots -/

theorem treePath_relativeFilePath (hv : validatePath p = .ok ()) :
    treePath (relativeFilePath p) = relativeFilePath p :=
  treePath_repoPath hv []

theorem Wiki.drop_ne_nil {w : Wiki} (hroot : w.root <+: w.contentRoot) (hne : w.contentRoot ≠ w.root) :
    (w.contentRoot.drop w.root.length).flatMap treeComponents ≠ [] := by
  obtain ⟨pre, hpre⟩ := hroot
  rw [← hpre, List.drop_left]
  intro hnil
  cases pre with
  | nil => exact hne (by rw [← hpre, List.append_nil])
  | cons seg pre =>
    rw [List.flatMap_cons, List.append_eq_nil_iff] at hnil
    exact List.splitOn_ne_nil '/' (seg.map toSlash) hnil.1

/-- The write and the history look at one place for one root, and at no other
time. -/
theorem Wiki.pageTree_eq_history {w : Wiki} (hroot : w.root <+: w.contentRoot) (hv : validatePath p = .ok ()) :
    treePath (relativeFilePath p) = w.pageTree p ↔ w.contentRoot = w.root := by
  rw [treePath_relativeFilePath hv, pageTree_eq hv]
  constructor
  · intro h
    by_contra hne
    exact drop_ne_nil hroot hne (List.append_left_eq_self.1 h.symm)
  · intro h
    simp [h]

/-- Below the root, nothing that a page's own commit changes is where the
history looks. -/
theorem Trail.elsewhere (h : Trail v time git ys) (hroot : v.wiki.root <+: v.wiki.contentRoot)
    (hne : v.wiki.contentRoot ≠ v.wiki.root) (hv : validatePath p = .ok ())
    (hc : ChangedBlob git (relativeFilePath p) c) : ∃ t, (t, c) ∈ ys ∧ (v.req t).path ≠ p := by
  obtain ⟨newer, older, hsplit, hchange⟩ := hc
  rcases h.split hsplit with ⟨ys₁, t, ys₂, rfl, rfl⟩ | ⟨rfl, rfl⟩
  · refine ⟨t, by simp, ?_⟩
    rintro rfl
    have hpre := Wiki.drop_ne_nil hroot hne
    have htree := Wiki.pageTree_eq hv v.wiki
    have hlen : (relativeFilePath (v.req t).path).length < (v.wiki.pageTree (v.req t).path).length := by
      have hpos := List.length_pos_iff.2 hpre
      simp only [htree, List.length_append]
      omega
    have hdiff : relativeFilePath (v.req t).path ≠ v.wiki.pageTree (v.req t).path := fun he =>
      Nat.lt_irrefl _ (he ▸ hlen)
    have hg := h.grown.suffix
    by_cases habove : relativeFilePath (v.req t).path <+: v.wiki.pageTree (v.req t).path
    · -- The commit has a directory there, so it can only have taken a blob away.
      rw [Tree.lookup_above hg.own habove hdiff] at hchange
      have hg₂ := hg.2
      rcases hg₂.blob (Ne.symm hchange) with hk | ⟨x, hx, he⟩
      · exact relativeFilePath_ne_keep _ hk
      · have hxp : (v.req x.1).path ≠ (v.req t).path := fun hp => hdiff (he.trans (by rw [hp]))
        have hap := h.apart x (by simp [hx]) (t, c) (by simp) hxp
        rw [he] at habove
        exact hap.1 habove
    · refine hchange (v.wiki.ext.upsert_other hg.1 (fun hpre => ?_) habove)
      exact absurd hpre.length_le (by omega)
  · exact absurd (Tree.lookup_single (relativeFilePath_ne_keep p) []) fun hnone =>
      hchange (hnone.trans (Tree.lookup_nil _).symm)

end

/-- Every commit that changed the page's blob is in the page's history, for
every limit that is large enough. -/
def HistoryComplete (w : Wiki) (title : Text → Text) (git : List Commit) (p : Text) : Prop :=
  ∀ c, ChangedBlob git (w.pageTree p) c → ∃ n, ∀ limit ≥ n, ∀ said, ∃ infos,
    w.history title git p limit said = .ok infos ∧ w.ext.commitId c ∈ infos.map CommitInfo.oid

section

variable {w : Wiki} {git : List Commit} {p : Text} {c : Commit}

/-- What a page's history lists. -/
theorem Wiki.history_of_linear (h : w.Linear git) (hv : validatePath p = .ok ()) (title : Text → Text)
    (limit : Nat) (said : Text) : w.history title git p limit said =
      .ok (((touching (relativeFilePath p) git).take (max 1 limit)).map (w.commitInfo title)) := by
  simp only [history, hv, fileHistory_of_linear h, treePath_relativeFilePath hv]

theorem mem_oids {title : Text → Text} {cs : List Commit}
    (h : w.ext.commitId c ∈ (cs.map (w.commitInfo title)).map CommitInfo.oid) :
    ∃ d ∈ cs, w.ext.commitId d = w.ext.commitId c := by
  obtain ⟨info, hinfo, hoid⟩ := List.mem_map.1 h
  obtain ⟨d, hd, rfl⟩ := List.mem_map.1 hinfo
  exact ⟨d, hd, hoid⟩

/-- With one root, nothing is missing. -/
theorem historyComplete_of_root (h : w.Linear git) (hroot : w.contentRoot = w.root)
    (hv : validatePath p = .ok ()) (title : Text → Text) : HistoryComplete w title git p := by
  intro c hc
  have htree : w.pageTree p = relativeFilePath p := by
    rw [← (Wiki.pageTree_eq_history (hroot ▸ List.prefix_rfl) hv).2 hroot, treePath_relativeFilePath hv]
  refine ⟨(touching (relativeFilePath p) git).length, fun limit hlimit said => ?_⟩
  refine ⟨_, Wiki.history_of_linear h hv title limit said, ?_⟩
  rw [List.take_of_length_le (by omega)]
  have hmem := mem_touching.2 (htree ▸ hc)
  exact List.mem_map.2 ⟨_, List.mem_map_of_mem hmem, rfl⟩

end

theorem ChangedBlob.mem {git : List Commit} {target : List Text} {c : Commit} (h : ChangedBlob git target c) :
    c ∈ git := by
  obtain ⟨newer, older, rfl, -⟩ := h
  simp

/-- A linear history of a new repository stays linear. -/
theorem run_linear {v : Service} {stores : Stores} {as : List Action} {s : State} {time : Int}
    (hgit : stores.git = [seedCommit time]) (hr : v.run (.opened stores) as = some s) :
    v.wiki.Linear s.stores.git := by
  refine ((Serving.opened v stores).steps hr).linear ?_
  show v.wiki.Linear stores.git
  rw [hgit]
  exact ⟨rfl, trivial⟩

/-- **When the history is complete.** In every state of every run in a new
repository, every commit that changed a page is in the page's history exactly
if the content root is the root of the repository, or nothing has changed the
page yet; and it is for the same roots that the history looks where the write
commits. -/
theorem history_complete_iff {v : Service} {stores : Stores} {as : List Action} {s : State} {time : Int}
    {p : Text} (title : Text → Text) (hroot : v.wiki.root <+: v.wiki.contentRoot)
    (hgit : stores.git = [seedCommit time]) (hr : v.run (.opened stores) as = some s)
    (hids : (v.wiki.ancestry s.stores.git).Nodup) (hv : validatePath p = .ok ()) :
    (treePath (relativeFilePath p) = v.wiki.pageTree p ↔ v.wiki.contentRoot = v.wiki.root) ∧
    (HistoryComplete v.wiki title s.stores.git p ↔
      v.wiki.contentRoot = v.wiki.root ∨ ∀ c, ¬ ChangedBlob s.stores.git (v.wiki.pageTree p) c) := by
  have hlinear := run_linear hgit hr
  refine ⟨Wiki.pageTree_eq_history hroot hv, fun hcomplete => ?_, fun hor => ?_⟩
  · by_contra hno
    simp only [not_or, not_forall, Classical.not_not] at hno
    obtain ⟨hne, c, hc⟩ := hno
    obtain ⟨n, hn⟩ := hcomplete c hc
    obtain ⟨infos, hinfos, hmem⟩ := hn n (Nat.le_refl n) []
    rw [Wiki.history_of_linear hlinear hv] at hinfos
    cases hinfos
    obtain ⟨d, hd, hid⟩ := mem_oids hmem
    have hd' := mem_touching.1 (List.mem_of_mem_take hd)
    -- The two commits are one by their id, and it is of the page and is not.
    obtain rfl : d = c := List.inj_on_of_nodup_map hids hd'.mem hc.mem hid
    obtain ⟨commits, recorded, hh⟩ := ((Serving.opened v stores).steps hr).history ⟨rfl, rfl⟩
    have htrail := run_trail hgit hr hh.git
    obtain ⟨t, ht, htp⟩ := htrail.own hv hc
    obtain ⟨u, hu, hup⟩ := htrail.elsewhere hroot hne hv hd'
    have hnodup : (commits.reverse.map fun x => v.wiki.ext.commitId x.2).Nodup := by
      rw [htrail.git, Wiki.ancestry, List.map_append, List.map_map] at hids
      exact (List.nodup_append.1 hids).1
    cases List.inj_on_of_nodup_map hnodup ht hu rfl
    exact hup htp
  · rcases hor with hsame | hnone
    · exact historyComplete_of_root hlinear hsame hv title
    · exact fun c hc => absurd hc (hnone c)

theorem history_complete_small :
    ∃ s, Service.small.run (.opened (.small none)) (Action.serve 0) = some s ∧
      HistoryComplete Wiki.small id s.stores.git "notes".toList := by
  obtain ⟨s, hs⟩ : ∃ s, Service.small.run (.opened (.small none)) (Action.serve 0) = some s := ⟨_, rfl⟩
  refine ⟨s, hs, ?_⟩
  exact ((history_complete_iff id List.prefix_rfl rfl hs (by cases hs; decide) (by decide)).2).2 (.inl rfl)

/-- The small service, with its pages in a directory of the repository. -/
def Service.nested : Service :=
  { Service.small with wiki := { Wiki.small with contentRoot := ["wiki".toList, "pages".toList] } }

/-- A page below the root is written, and its history stays empty. -/
theorem history_lost :
    ∃ s, Service.nested.run (.opened (.small none)) (Action.serve 0) = some s ∧ s.succeeded = [0] ∧
      (∃ c, ChangedBlob s.stores.git (Service.nested.wiki.pageTree "notes".toList) c) ∧
      (∀ title limit said,
        Service.nested.wiki.history title s.stores.git "notes".toList limit said = .ok []) ∧
      ¬ HistoryComplete Service.nested.wiki id s.stores.git "notes".toList := by
  obtain ⟨s, hs⟩ : ∃ s, Service.nested.run (.opened (.small none)) (Action.serve 0) = some s := ⟨_, rfl⟩
  have hchanged : ∃ c, ChangedBlob s.stores.git (Service.nested.wiki.pageTree "notes".toList) c := by
    cases hs
    exact ⟨_, [], _, rfl, by decide⟩
  have hempty : ∀ title limit said,
      Service.nested.wiki.history title s.stores.git "notes".toList limit said = .ok [] := by
    cases hs
    intro title limit said
    rfl
  refine ⟨s, hs, by cases hs; rfl, hchanged, hempty, fun h => ?_⟩
  obtain ⟨c, hc⟩ := hchanged
  obtain ⟨n, hn⟩ := h c hc
  obtain ⟨infos, hinfos, hmem⟩ := hn n (Nat.le_refl n) []
  rw [hempty] at hinfos
  cases hinfos
  cases hmem

/-! ## Saves and entries -/

/-- Of some writes to one page, newest first, those that changed it: whose
content is not that of the write before. -/
def changes (v : Service) : List (Nat × Commit) → List (Nat × Commit)
  | [] => []
  | x :: older =>
    if older.head?.map (fun y => (v.req y.1).content) = some (v.req x.1).content then changes v older
    else x :: changes v older

section

variable {v : Service} {ys : List (Nat × Commit)} {time : Int} {p : Text}

theorem length_changes (ys : List (Nat × Commit)) : (changes v ys).length ≤ ys.length := by
  induction ys with
  | nil => simp [changes]
  | cons x ys ih =>
    unfold changes
    split
    · exact ih.trans (Nat.le_succ _)
    · simpa using ih

/-- HEAD has the content of the page's newest commit. -/
theorem Grown.newest (h : Grown v [seedCommit time] ys) (hv : validatePath p = .ok ())
    (hap : ∀ x ∈ ys, (v.req x.1).path ≠ p → v.wiki.Apart (v.req x.1).path p) :
    Tree.lookup (headTree (ys.map Prod.snd ++ [seedCommit time])) (v.wiki.pageTree p) =
      (ys.filter fun x => (v.req x.1).path = p).head?.map fun x => Text.utf8 (v.req x.1).content := by
  induction ys with
  | nil => exact headBlob_seed hv v.wiki time
  | cons x ys ih =>
    obtain ⟨t, c⟩ := x
    by_cases hp : (v.req t).path = p
    · subst hp
      rw [List.filter_cons_of_pos (by simp)]
      exact h.own
    · rw [List.filter_cons_of_neg (by simpa using hp), ← ih h.2 fun x hx => hap x (List.mem_cons_of_mem _ hx)]
      exact h.unchanged (hap _ List.mem_cons_self hp)

/-- The commits that changed a page are those of the writes that did. -/
theorem Grown.touching_eq (h : Grown v [seedCommit time] ys) (hv : validatePath p = .ok ())
    (hap : ∀ x ∈ ys, (v.req x.1).path ≠ p → v.wiki.Apart (v.req x.1).path p) :
    touching (v.wiki.pageTree p) (ys.map Prod.snd ++ [seedCommit time]) =
      (changes v (ys.filter fun x => (v.req x.1).path = p)).map Prod.snd := by
  induction ys with
  | nil =>
    have hseed : Tree.lookup (seedCommit time).tree (v.wiki.pageTree p) = none := headBlob_seed hv v.wiki time
    simp [touching, hseed, headTree, Tree.lookup_nil, changes]
  | cons x ys ih =>
    obtain ⟨t, c⟩ := x
    have hap' : ∀ x ∈ ys, (v.req x.1).path ≠ p → v.wiki.Apart (v.req x.1).path p := fun x hx =>
      hap x (List.mem_cons_of_mem _ hx)
    have ih := ih h.2 hap'
    rw [List.map_cons, List.cons_append, touching]
    by_cases hp : (v.req t).path = p
    · subst hp
      rw [List.filter_cons_of_pos (by simp), changes, h.own, h.2.newest hv hap', ih]
      have hiff : some (Text.utf8 (v.req t).content) =
          ((ys.filter fun x => (v.req x.1).path = (v.req t).path).head?.map fun x =>
            Text.utf8 (v.req x.1).content) ↔
          ((ys.filter fun x => (v.req x.1).path = (v.req t).path).head?.map fun x =>
            (v.req x.1).content) = some (v.req t).content := by
        cases (ys.filter fun x => (v.req x.1).path = (v.req t).path).head? with
        | none => simp
        | some x => simp [Text.utf8_injective.eq_iff, eq_comm]
      simp only [hiff]
      split
      · rfl
      · rfl
    · rw [if_pos (h.unchanged (hap _ List.mem_cons_self hp)), List.filter_cons_of_neg (by simpa using hp), ih]

/-- While nothing fails and no write runs, what landed is recorded. -/
theorem History.recorded_eq {start l : Ledger} {commits recorded : List (Nat × Commit)}
    (h : History v start l commits recorded) (hh : l.Healthy) (hc : l.current = none) :
    recorded = commits := by
  refine h.pending.sublist.eq_of_length ?_
  have hlanded := congrArg List.length h.git.landed
  have hsucceeded := congrArg List.length h.db.succeeded
  rw [List.length_map] at hlanded hsucceeded
  rw [hlanded, hsucceeded, Ledger.landed, hh.reached hc (by omega) (by omega)]

/-- **Saves and history.** In a wiki that began empty, with one root and no
write failed or running: the edit records of a page are those of its saves,
and the page's history lists, newest first and each under its own author, the
commits of the saves that changed the page, and nothing else. -/
theorem history_of_edits {stores : Stores} {as : List Action} {s : State} {id : Int} {row : PageRow}
    (title : Text → Text) (hroot : v.wiki.contentRoot = v.wiki.root) (hgit : stores.git = [seedCommit time])
    (hpages : stores.db.pages.rows = []) (hedits : stores.db.pageEdits.rows = [])
    (hr : v.run (.opened stores) as = some s) (hq : s.Quiet) (hh : s.Healthy)
    (hrow : (id, row) ∈ s.stores.db.pages.rows) :
    ∃ saves : List (Nat × Commit),
      saves.map Prod.fst = (s.succeeded.filter fun t => (v.req t).path = row.path).reverse ∧
      (∀ x ∈ saves, CommitOf v x.1 x.2) ∧
      List.Forall₂ (EditOf v s.stores.db) saves
        (s.stores.db.pageEdits.rows.filter fun e => e.2.pageId = id).reverse ∧
      ∀ limit ≥ saves.length, ∀ said, v.wiki.history title s.stores.git row.path limit said =
        .ok ((changes v saves).map fun x => v.wiki.commitInfo title x.2) := by
  obtain ⟨commits, recorded, h⟩ := ((Serving.opened v stores).steps hr).history ⟨rfl, rfl⟩
  obtain rfl := h.recorded_eq hh.ledger hq.ledger
  have htrail := run_trail hgit hr h.git
  obtain ⟨new, hnew, hall⟩ := h.db.edits_of hrow
  rw [show (State.opened stores).ledger.stores = stores from rfl, hedits, List.filter_nil, List.nil_append] at hnew
  -- The row is there, so somebody has written the page.
  obtain ⟨x, hx, hxp⟩ : ∃ x ∈ recorded, (v.req x.1).path = row.path := by
    have hpage := h.db.pages row.path
    have hfind : s.ledger.stores.db.findPage row.path = some (id, row) := Db.findPage_eq_some.2 ⟨hrow, rfl⟩
    have hnone : stores.db.findPage row.path = none := Db.findPage_eq_none.2 (by simp [hpages])
    cases hlast : lastOn v row.path recorded with
    | some x => exact ⟨x, by simpa using List.mem_filter.1 (List.mem_of_getLast? hlast)⟩
    | none =>
      simp only [PageHistory, hlast] at hpage
      rw [hfind] at hpage
      cases hpage.1.trans hnone
  have hv : validatePath row.path = .ok () := hxp ▸ htrail.valid x (List.mem_reverse.2 hx)
  have htouching := htrail.grown.touching_eq hv fun y hy hne =>
    hxp ▸ htrail.apart y hy x (List.mem_reverse.2 hx) (hxp ▸ hne)
  have htree : v.wiki.pageTree row.path = relativeFilePath row.path := by
    rw [← (Wiki.pageTree_eq_history (hroot ▸ List.prefix_rfl) hv).2 hroot, treePath_relativeFilePath hv]
  refine ⟨recorded.reverse.filter fun x => (v.req x.1).path = row.path, ?_, fun y hy => ?_, ?_, ?_⟩
  · rw [← s.ledger_succeeded, ← h.db.succeeded, List.filter_reverse, List.map_reverse, List.filter_map]
    rfl
  · exact h.git.own y (List.mem_reverse.1 (List.mem_filter.1 hy).1)
  · rw [List.filter_reverse, show s.stores.db.pageEdits = s.ledger.stores.db.pageEdits from rfl, hnew]
    exact List.forall₂_reverse_iff.2 hall
  · intro limit hlimit said
    have hlen := length_changes (v := v) (recorded.reverse.filter fun x => (v.req x.1).path = row.path)
    rw [Wiki.history_of_linear (run_linear hgit hr) hv, ← htree, htrail.git, htouching,
      List.take_of_length_le (by rw [List.length_map]; omega), List.map_map]
    rfl

end

theorem history_of_edits_small :
    ∃ s row, Service.small.run (.opened (.small none)) (Action.serve 0 ++ Action.serve 1) = some s ∧
      (1, row) ∈ s.stores.db.pages.rows ∧ ∃ saves : List (Nat × Commit),
        saves.map Prod.fst = [1, 0] ∧
        (∀ x ∈ saves, CommitOf Service.small x.1 x.2) ∧
        List.Forall₂ (EditOf Service.small s.stores.db) saves
          (s.stores.db.pageEdits.rows.filter fun e => e.2.pageId = 1).reverse ∧
        ∀ limit ≥ saves.length, ∀ said, Wiki.small.history id s.stores.git row.path limit said =
          .ok ((changes Service.small saves).map fun x => Wiki.small.commitInfo id x.2) := by
  obtain ⟨s, hs⟩ : ∃ s, Service.small.run (.opened (.small none))
      (Action.serve 0 ++ Action.serve 1) = some s := ⟨_, rfl⟩
  have hdone : (∀ t ∈ s.served, (s.task t).done = true) ∧ s.succeeded = [0, 1] := by cases hs; decide
  have hend := ((Serving.opened _ _).run hs).ordered.quiet_healthy hdone.1
  obtain ⟨row, hrow, hpath⟩ : ∃ row, (1, row) ∈ s.stores.db.pages.rows ∧ row.path = "notes".toList := by
    cases hs
    exact ⟨_, List.mem_cons_self, rfl⟩
  obtain ⟨saves, hfst, hrest⟩ := history_of_edits id rfl rfl rfl rfl hs hend.1 hend.2 hrow
  refine ⟨s, row, hs, hrow, saves, ?_, hrest⟩
  rw [hfst, hdone.2, hpath]
  decide

/-- **A save without an entry.** The page is saved twice with one content; the
second save is acknowledged, with a commit of its own, and the history does
not list it. -/
theorem save_not_listed :
    ∃ s, Service.small.run (.opened (.small none)) (Action.serve 0 ++ Action.serve 2) = some s ∧
      s.succeeded = [0, 2] ∧ ∃ e oid, (2, e) ∈ s.stores.db.pageEdits.rows ∧ e.gitCommit = some oid ∧
        ∀ title limit said infos,
          Wiki.small.history title s.stores.git "notes".toList limit said = .ok infos →
          oid ∉ infos.map CommitInfo.oid := by
  obtain ⟨s, hs⟩ : ∃ s, Service.small.run (.opened (.small none))
      (Action.serve 0 ++ Action.serve 2) = some s := ⟨_, rfl⟩
  refine ⟨s, hs, by cases hs; decide, ?_⟩
  obtain ⟨first, e, oid, he, hoid, hfirst, hne⟩ : ∃ first e oid, (2, e) ∈ s.stores.db.pageEdits.rows ∧
      e.gitCommit = some oid ∧ touching (relativeFilePath "notes".toList) s.stores.git = [first] ∧
      Wiki.small.ext.commitId first ≠ oid := by
    cases hs
    exact ⟨_, _, _, List.mem_cons_of_mem _ List.mem_cons_self, rfl, rfl, by decide⟩
  have hlinear : Wiki.small.Linear s.stores.git := run_linear rfl hs
  refine ⟨e, oid, he, hoid, fun title limit said infos hinfos hmem => ?_⟩
  rw [Wiki.history_of_linear hlinear (by decide), hfirst] at hinfos
  cases hinfos
  obtain ⟨d, hd, rfl⟩ := List.mem_map.1 hmem
  obtain ⟨c, hc, rfl⟩ := List.mem_map.1 hd
  cases List.mem_singleton.1 (List.mem_of_mem_take hc)
  exact hne rfl

end Wikikiki
