/-
The history of one file (`file_history` and `commit_touched`, git/mod.rs) and
of one page (`history`, pages/mod.rs).

The walk goes from HEAD to the first commit and keeps those that touched the
file, which is to say that the blob at its path is not the one that the first
parent has there. In a linear history (`fileHistory_of_linear`) the parent is
the next commit of the walk.

The title of a commit message is cut out by the Git library; it is a
parameter here.
-/
import Wikikiki.Repo

namespace Wikikiki

/-! ## The walk -/

/-- `CommitInfo`. -/
structure CommitInfo where
  oid : Text
  authorName : Text
  authorEmail : Text
  message : Text
  time : Int
  deriving DecidableEq

/-- What the history says of a commit. -/
def Wiki.commitInfo (w : Wiki) (title : Text → Text) (c : Commit) : CommitInfo :=
  { oid := w.ext.commitId c, authorName := c.author.name, authorEmail := c.author.email,
    message := title c.message, time := c.author.time }

/-- `commit_touched`, where `older` are the commits that the walk has yet to
come to; `none` when the parent is not found. -/
def Wiki.commitTouched (w : Wiki) (older : List Commit) (c : Commit) (target : List Text) : Option Bool :=
  let thisBlob := Tree.lookup c.tree target
  match c.parents with
  | [] => some thisBlob.isSome
  | parent :: _ =>
    (older.find? fun d => w.ext.commitId d = parent).map fun d =>
      decide (thisBlob ≠ Tree.lookup d.tree target)

/-- The loop of `file_history`: `out` is what it has found. -/
def Wiki.historyLoop (w : Wiki) (title : Text → Text) (target : List Text) (limit : Nat) :
    List Commit → List CommitInfo → Option (List CommitInfo)
  | [], out => some out
  | c :: older, out =>
    match w.commitTouched older c target with
    | none => none
    | some false => w.historyLoop title target limit older out
    | some true =>
      -- The limit is checked after the push, so that 0 counts for 1.
      let out := out ++ [w.commitInfo title c]
      if limit ≤ out.length then some out else w.historyLoop title target limit older out

/-- `file_history`; `none` for the errors of the walk. -/
def Wiki.fileHistory (w : Wiki) (title : Text → Text) (git : List Commit) (rel : PathBuf) (limit : Nat) :
    Option (List CommitInfo) :=
  w.historyLoop title (treePath rel) limit git []

/-- `history`: the page's file relative to the content root, looked up from
the root of the repository. -/
def Wiki.history (w : Wiki) (title : Text → Text) (git : List Commit) (pagePath : Text) (limit : Nat)
    (said : Text) : Except AppError (List CommitInfo) :=
  match validatePath pagePath with
  | .error e => .error e
  | .ok () =>
    match w.fileHistory title git (relativeFilePath pagePath) limit with
    | none => .error (.internal ("git: ".toList ++ said))
    | some infos => .ok infos

/-! ## What the walk finds -/

/-- The tree that HEAD is at, empty before the first commit. -/
def headTree (git : List Commit) : GitTree := (git.head?.map Commit.tree).getD []

theorem headTree_readHead (w : Wiki) (git : List Commit) :
    ((w.readHead git).map Prod.snd).getD [] = headTree git := by
  cases git <;> rfl

theorem headBlob_eq (git : List Commit) (rel : PathBuf) :
    headBlob git rel = Tree.lookup (headTree git) (treePath rel) := by
  cases git with
  | nil => exact (Tree.lookup_nil _).symm
  | cons c git => rfl

/-- The commit has another blob at the path than the commit before it. -/
def ChangedBlob (git : List Commit) (target : List Text) (c : Commit) : Prop :=
  ∃ newer older, git = newer ++ c :: older ∧ Tree.lookup c.tree target ≠ Tree.lookup (headTree older) target

/-- These commits, in the order of the list. -/
def touching (target : List Text) : List Commit → List Commit
  | [] => []
  | c :: older =>
    if Tree.lookup c.tree target = Tree.lookup (headTree older) target then touching target older
    else c :: touching target older

section

variable {w : Wiki} {git older : List Commit} {c : Commit} {target : List Text} {limit : Nat}

theorem mem_touching : c ∈ touching target git ↔ ChangedBlob git target c := by
  unfold ChangedBlob
  induction git with
  | nil => simp [touching]
  | cons d git ih =>
    unfold touching
    split
    next heq =>
      rw [ih]
      constructor
      · intro hex
        obtain ⟨newer, older, rfl, hne⟩ := hex
        exact ⟨d :: newer, older, rfl, hne⟩
      · intro hex
        obtain ⟨newer, older, hsplit, hne⟩ := hex
        cases newer with
        | nil =>
          obtain ⟨rfl, rfl⟩ := List.cons.inj hsplit
          exact absurd heq hne
        | cons e newer => exact ⟨newer, older, (List.cons.inj hsplit).2, hne⟩
    next hneq =>
      rw [List.mem_cons, ih]
      constructor
      · intro hor
        rcases hor with rfl | ⟨newer, older, rfl, hne⟩
        · exact ⟨[], git, rfl, hneq⟩
        · exact ⟨d :: newer, older, rfl, hne⟩
      · intro hex
        obtain ⟨newer, older, hsplit, hne⟩ := hex
        cases newer with
        | nil => exact .inl (List.cons.inj hsplit).1.symm
        | cons e newer => exact .inr ⟨newer, older, (List.cons.inj hsplit).2, hne⟩

/-- In a linear history the parent is found, and it is the commit before. -/
theorem Wiki.commitTouched_of_linear (h : w.Linear (c :: older)) (target : List Text) :
    w.commitTouched older c target =
      some (decide (Tree.lookup c.tree target ≠ Tree.lookup (headTree older) target)) := by
  obtain ⟨hparents, -⟩ := h
  cases older with
  | nil =>
    simp only [readHead, List.head?_nil, Option.map_none, Option.toList_none] at hparents
    simp only [commitTouched, hparents, headTree, List.head?_nil, Option.map_none, Option.getD_none,
      Tree.lookup_nil, Option.some.injEq]
    cases Tree.lookup c.tree target <;> simp
  | cons d older =>
    simp only [readHead, List.head?_cons, Option.map_some, Option.toList_some] at hparents
    simp only [commitTouched, hparents, List.find?_cons, decide_true, Option.map_some, headTree,
      List.head?_cons, Option.getD_some]
    rfl

theorem Wiki.historyLoop_of_linear (h : w.Linear git) (title : Text → Text) (target : List Text)
    (out : List CommitInfo) (hout : out.length < max 1 limit) : w.historyLoop title target limit git out =
      some (out ++ ((touching target git).take (max 1 limit - out.length)).map (w.commitInfo title)) := by
  induction git generalizing out with
  | nil => simp [historyLoop, touching]
  | cons c older ih =>
    rw [historyLoop, commitTouched_of_linear h, touching]
    by_cases hsame : Tree.lookup c.tree target = Tree.lookup (headTree older) target
    · simp only [hsame, ne_eq, not_true_eq_false, decide_false, if_true]
      exact ih h.2 out hout
    · simp only [hsame, ne_eq, not_false_eq_true, decide_true, if_false, List.length_append, List.length_singleton]
      obtain ⟨k, hk⟩ : ∃ k, max 1 limit - out.length = k + 1 := ⟨max 1 limit - out.length - 1, by omega⟩
      rw [hk, List.take_succ_cons, List.map_cons]
      split
      next hlimit =>
        have hk0 : k = 0 := by omega
        rw [hk0, List.take_zero, List.map_nil]
      next hlimit =>
        have hlen : (out ++ [w.commitInfo title c]).length = out.length + 1 := by simp
        rw [ih h.2 _ (by rw [hlen]; omega), hlen, show max 1 limit - (out.length + 1) = k by omega]
        simp

/-- **What the history lists.** In a linear history, the commits that changed
the blob at the path, newest first, up to the limit. -/
theorem Wiki.fileHistory_of_linear (h : w.Linear git) (title : Text → Text) (rel : PathBuf) (limit : Nat) :
    w.fileHistory title git rel limit =
      some (((touching (treePath rel) git).take (max 1 limit)).map (w.commitInfo title)) := by
  have hnil : ([] : List CommitInfo).length < max 1 limit := by
    rw [List.length_nil]
    omega
  simpa [fileHistory] using historyLoop_of_linear h title (treePath rel) [] hnil

end

/-! ## The limit -/

/-- **The limit of the history.** The history is the first entries of the list
of commits that touched the file, and no longer than the limit, exactly when
the limit is not 0 or there is no such commit; and a smaller limit gives the
beginning of what a larger one gives. -/
theorem Wiki.fileHistory_limit {w : Wiki} {git : List Commit} (h : w.Linear git) (title : Text → Text)
    (rel : PathBuf) (limit : Nat) :
    (w.fileHistory title git rel limit =
        some (((touching (treePath rel) git).take limit).map (w.commitInfo title)) ↔
      limit ≠ 0 ∨ touching (treePath rel) git = []) ∧
    ((∃ infos, w.fileHistory title git rel limit = some infos ∧ infos.length ≤ limit) ↔
      limit ≠ 0 ∨ touching (treePath rel) git = []) ∧
    ∀ m ≤ limit, ∃ short long, w.fileHistory title git rel m = some short ∧
      w.fileHistory title git rel limit = some long ∧ short <+: long := by
  simp only [Wiki.fileHistory_of_linear h, Option.some.injEq]
  refine ⟨?_, ?_, fun m hm => ?_⟩
  · cases limit with
    | zero => cases touching (treePath rel) git <;> simp
    | succ n => simp
  · cases limit with
    | zero => cases touching (treePath rel) git <;> simp
    | succ n =>
      refine iff_of_true ⟨_, rfl, ?_⟩ (.inl (Nat.succ_ne_zero n))
      rw [List.length_map, Nat.max_eq_right (by omega)]
      exact List.length_take_le _ _
  · have hle : max 1 m ≤ max 1 limit := by omega
    exact ⟨_, _, rfl, rfl, (List.take_prefix_take_left hle).map _⟩

/-- Two commits of one page, and one entry asked for. -/
theorem Wiki.fileHistory_limit_small :
    let one : Commit := { seedCommit 1 with tree := [("notes.md".toList, .blob [49])] }
    let two : Commit := { seedCommit 2 with
      tree := [("notes.md".toList, .blob [50])], parents := [Wiki.small.ext.commitId one] }
    Wiki.small.Linear [two, one] ∧
      Wiki.small.fileHistory id [two, one] ["notes.md".toList] 1 =
        some [Wiki.small.commitInfo id two] := by
  intro one two
  have hlin : Wiki.small.Linear [two, one] := ⟨by decide, by decide, trivial⟩
  refine ⟨hlin, ((Wiki.fileHistory_limit hlin id ["notes.md".toList] 1).1.2 (.inl (by decide))).trans ?_⟩
  rfl

/-- Nothing asked for, and one entry given. -/
theorem Wiki.fileHistory_zero :
    let one : Commit := { seedCommit 1 with tree := [("notes.md".toList, .blob [49])] }
    Wiki.small.Linear [one] ∧
      Wiki.small.fileHistory id [one] ["notes.md".toList] 0 = some [Wiki.small.commitInfo id one] := by
  intro one
  exact ⟨⟨by decide, trivial⟩, rfl⟩

end Wikikiki
