/-
The Git repository (git/mod.rs): commits, the tree path of a file, and the
commit that `write_and_commit` builds on the commit it read HEAD at.

Four things are not in the source and stay parameters, with what the code
relies on: SHA-256, the ids of Git objects, the tree editor of the Git library,
which may refuse a path, and its signatures, which take no bracket and no
newline. Blobs are kept by their bytes; an object id names nothing else here.

HEAD's ancestry is a list, newest commit first: the history is linear
(`Wiki.Linear`), since every commit has the one HEAD was at for its only
parent.
-/
import Wikikiki.Author
import Wikikiki.Db
import Wikikiki.Lib.Files
import Wikikiki.Lib.Tree
import Wikikiki.Path

namespace Wikikiki

/-! ## Commits and what the code takes from outside -/

structure Signature where
  name : Text
  email : Text
  time : Int
  deriving DecidableEq

abbrev GitTree := Tree.Entries Text Bytes

/-- A commit; its committer is its author. -/
structure Commit where
  tree : GitTree
  parents : List Text
  author : Signature
  message : Text

/-- The code outside the repository that a write runs on. -/
structure Externals where
  sha256 : Bytes → Bytes
  sha256_length : ∀ b, (sha256 b).length = 32
  /-- The id of a commit, in hexadecimal. -/
  commitId : Commit → Text
  /-- `edit_tree(t)`, `upsert(p, Blob, b)` and `write()`, `none` when the
  editor refuses. -/
  upsert : GitTree → List Text → Bytes → Option GitTree
  upsert_self : ∀ {t p b t'}, upsert t p b = some t' → Tree.lookup t' p = some b
  upsert_other : ∀ {t p b t' q}, upsert t p b = some t' → ¬ p <+: q → ¬ q <+: p →
    Tree.lookup t' q = Tree.lookup t q
  /-- Whether `commit_as` writes a name and an email into a commit. -/
  signs : Text → Text → Bool
  signs_iff : ∀ {name email}, signs name email = true ↔ SignatureToken name ∧ SignatureToken email

/-- Where the wiki lives and how it signs. -/
structure Wiki where
  ext : Externals
  root : PathBuf
  contentRoot : PathBuf
  authorTemplate : Text

/-! ## Hashes -/

/-- `hex::encode`. -/
def hexEncode (b : Bytes) : Text :=
  b.flatMap fun x => [Nat.digitChar (x.toNat / 16), Nat.digitChar (x.toNat % 16)]

/-- `content_hash`. -/
def Wiki.contentHash (w : Wiki) (s : Text) : Text := hexEncode (w.ext.sha256 (Text.utf8 s))

theorem digitChar_mem {n : Nat} (h : n < 16) : Nat.digitChar n ∈ "0123456789abcdef".toList :=
  (by decide : ∀ n : Fin 16, Nat.digitChar n ∈ "0123456789abcdef".toList) ⟨n, h⟩

theorem length_hexEncode (b : Bytes) : (hexEncode b).length = 2 * b.length := by
  induction b with
  | nil => rfl
  | cons x b ih =>
    simp only [hexEncode, List.flatMap_cons, List.length_append, List.length_cons, List.length_nil] at ih ⊢
    omega

theorem mem_hexEncode {b : Bytes} {c : Char} (h : c ∈ hexEncode b) : ∃ n : Fin 16, c = Nat.digitChar n := by
  obtain ⟨x, -, hx⟩ := List.mem_flatMap.1 h
  have hlt : x.toNat < 256 := x.toNat_lt
  simp only [List.mem_cons, List.not_mem_nil, or_false] at hx
  rcases hx with rfl | rfl
  · exact ⟨⟨x.toNat / 16, by omega⟩, rfl⟩
  · exact ⟨⟨x.toNat % 16, by omega⟩, rfl⟩

theorem Wiki.isSha256_contentHash (w : Wiki) (s : Text) : IsSha256 (w.contentHash s) := by
  refine ⟨by rw [contentHash, length_hexEncode, w.ext.sha256_length], fun c hc => ?_⟩
  obtain ⟨n, rfl⟩ := mem_hexEncode hc
  exact digitChar_mem n.isLt

/-! ## Paths in the tree -/

/-- A backslash counts as a separator. -/
def toSlash (c : Char) : Char := if c = '\\' then '/' else c

/-- `path_to_bstring`, and the components the tree editor makes of it. -/
def treePath (rel : PathBuf) : List Text := ((['/'].intercalate rel).map toSlash).splitOn '/'

/-- `relative_to`: both paths are resolved, so both must exist. -/
def relativeTo (d : Disk) (root child : PathBuf) : Option PathBuf :=
  if d root = none ∨ d child = none ∨ ¬ root <+: child then none else some (child.drop root.length)

/-- The file's path inside the repository, for a content root at `pre` in it. -/
def repoPath (pre : PathBuf) (pagePath : Text) : PathBuf := pre ++ relativeFilePath pagePath

theorem relativeTo_eq_some {d : Disk} {root child pre : PathBuf} (h : relativeTo d root child = some pre) :
    child = root ++ pre := by
  unfold relativeTo at h
  split at h
  · cases h
  next hc =>
    simp only [not_or, Decidable.not_not] at hc
    obtain ⟨t, rfl⟩ := hc.2.2
    cases h
    simp

/-- What one component of a file's path becomes in the tree. -/
def treeComponents (seg : Text) : List Text := (seg.map toSlash).splitOn '/'

theorem treePath_eq {rel : PathBuf} (hne : rel ≠ []) : treePath rel = rel.flatMap treeComponents := by
  induction rel with
  | nil => exact absurd rfl hne
  | cons s rel ih =>
    cases rel with
    | nil => simp [treePath, treeComponents]
    | cons t rel =>
      have h := ih (by simp)
      have hmap : (['/'].intercalate (s :: t :: rel)).map toSlash =
          s.map toSlash ++ '/' :: (['/'].intercalate (t :: rel)).map toSlash := by
        simp [List.intercalate_cons_cons, toSlash]
      rw [List.flatMap_cons, ← h, treePath, hmap, List.splitOn_append_cons_self]
      rfl

theorem treeComponents_plain {seg : Text} (hslash : '/' ∉ seg) (hback : '\\' ∉ seg) :
    treeComponents seg = [seg] := by
  have hmap : seg.map toSlash = seg := by
    refine (List.map_congr_left fun c hc => if_neg ?_).trans (List.map_id' seg)
    intro heq
    subst heq
    exact hback hc
  rw [treeComponents, hmap, List.splitOn_eq_singleton hslash]

theorem treeComponents_legal {seg : Text} (h : ∀ c ∈ seg, legalChar c = true) :
    treeComponents seg = [seg] :=
  treeComponents_plain (fun hc => absurd (h _ hc) (by decide)) fun hc => absurd (h _ hc) (by decide)

/-- The tree path of a page ends in the page's own path; what stands before
it depends on the content root only. -/
theorem treePath_repoPath {p : Text} (h : validatePath p = .ok ()) (pre : PathBuf) :
    treePath (repoPath pre p) = pre.flatMap treeComponents ++ relativeFilePath p := by
  have hne : repoPath pre p ≠ [] := by simp [repoPath, relativeFilePath_ne_nil]
  have hrel : (relativeFilePath p).flatMap treeComponents = relativeFilePath p := by
    have := List.flatMap_congr (l := relativeFilePath p) (f := treeComponents) (g := fun s => [s])
      fun seg hs => treeComponents_legal (legal_relativeFilePath h seg hs)
    simpa using this
  rw [treePath_eq hne, repoPath, List.flatMap_append, hrel]

/-- Two pages whose files meet in the tree meet on disk. -/
theorem prefix_of_treePath {p q : Text} (hp : validatePath p = .ok ())
    (hq : validatePath q = .ok ()) {pre : PathBuf}
    (h : treePath (repoPath pre p) <+: treePath (repoPath pre q)) : repoPath pre p <+: repoPath pre q := by
  rw [treePath_repoPath hp, treePath_repoPath hq, List.prefix_append_right_inj] at h
  exact (List.prefix_append_right_inj _).2 h

/-! ## HEAD -/

/-- The blob at a file in the newest commit. -/
def headBlob (git : List Commit) (rel : PathBuf) : Option Bytes :=
  git.head?.bind fun c => Tree.lookup c.tree (treePath rel)

/-- `repo.head_id()`, and the tree of that commit. -/
def Wiki.readHead (w : Wiki) (git : List Commit) : Option (Text × GitTree) :=
  git.head?.map fun c => (w.ext.commitId c, c.tree)

/-- The list is what the commits say of their parents. -/
def Wiki.Linear (w : Wiki) : List Commit → Prop
  | [] => True
  | c :: git => c.parents = ((w.readHead git).map Prod.fst).toList ∧ w.Linear git

/-- The ids of HEAD's ancestry, newest first. -/
def Wiki.ancestry (w : Wiki) (git : List Commit) : List Text := git.map w.ext.commitId

/-- The commit of a new repository (`seed_initial_commit`). -/
def seedCommit (time : Int) : Commit where
  tree := [(".keep".toList, .blob [])]
  parents := []
  author := { name := "wikikiki".toList, email := "init@wikikiki.local".toList, time }
  message := "init: wikikiki content repo".toList

/-- The Git half of `write_and_commit`, on the commit that HEAD was read at:
the tree with the file in it, the author line, the commit, which Git refuses
for a name or an email that it does not sign with, and the move of HEAD, which
it refuses when HEAD is no longer there. `said` is the text of the error that
the step meets, if it meets one. -/
def Wiki.commitFile (w : Wiki) (git : List Commit) (parent : Option (Text × GitTree)) (rel : PathBuf)
    (content actorType actorHandle message : Text) (time : Int) (said : Text) :
    Except AppError (Text × List Commit) :=
  match w.ext.upsert ((parent.map Prod.snd).getD []) (treePath rel) (Text.utf8 content) with
  | none => .error (.internal ("git: ".toList ++ said))
  | some tree =>
    match parseSig (renderAuthor w.authorTemplate actorType actorHandle) with
    | none => .error (.internal ("join: ".toList ++ said))
    | some (name, email) =>
      if w.ext.signs name email = true ∧ (w.readHead git).map Prod.fst = parent.map Prod.fst then
        let c : Commit :=
          { tree, parents := (parent.map Prod.fst).toList, author := { name, email, time }, message }
        .ok (w.ext.commitId c, c :: git)
      else .error (.internal ("git: ".toList ++ said))

/-- What is known of a commit that landed. -/
structure Wiki.Committed (w : Wiki) (git : List Commit) (parent : Option (Text × GitTree)) (rel : PathBuf)
    (content actorType actorHandle message : Text) (c : Commit) : Prop where
  tree : w.ext.upsert ((parent.map Prod.snd).getD []) (treePath rel) (Text.utf8 content) = some c.tree
  head : (w.readHead git).map Prod.fst = parent.map Prod.fst
  parents : c.parents = (parent.map Prod.fst).toList
  author : parseSig (renderAuthor w.authorTemplate actorType actorHandle) =
    some (c.author.name, c.author.email)
  signed : w.ext.signs c.author.name c.author.email = true
  message : c.message = message

theorem Wiki.Committed.linear {w : Wiki} {git : List Commit} {parent : Option (Text × GitTree)}
    {rel : PathBuf} {content ty handle message : Text} {c : Commit}
    (h : w.Committed git parent rel content ty handle message c) (hg : w.Linear git) :
    w.Linear (c :: git) :=
  ⟨by rw [h.parents, h.head], hg⟩

theorem Wiki.commitFile_eq_ok {w : Wiki} {git git' : List Commit} {parent : Option (Text × GitTree)}
    {rel : PathBuf} {content ty handle message oid said : Text} {time : Int}
    (h : w.commitFile git parent rel content ty handle message time said = .ok (oid, git')) :
    ∃ c, git' = c :: git ∧ oid = w.ext.commitId c ∧
      w.Committed git parent rel content ty handle message c := by
  unfold commitFile at h
  split at h
  · cases h
  next tree htree =>
    split at h
    · cases h
    next name email hsig =>
      split at h
      next hc =>
        cases h
        exact ⟨_, rfl, rfl, htree, hc.2, rfl, hsig, hc.1, rfl⟩
      · cases h

theorem Wiki.Committed.signable {w : Wiki} {git : List Commit} {parent : Option (Text × GitTree)}
    {rel : PathBuf} {content ty handle message : Text} {c : Commit}
    (h : w.Committed git parent rel content ty handle message c) :
    Signable (renderAuthor w.authorTemplate ty handle) :=
  signable_iff.2 ⟨_, _, h.author, w.ext.signs_iff.1 h.signed⟩

/-- **Attribution does not abort a write.** The author line of an actor is read
back exactly when no closing bracket of it stands before its first opening one;
and a commit that the tree editor accepts lands on an unmoved HEAD exactly when
Git signs with what is read back. -/
theorem Wiki.signature_iff (w : Wiki) (actorType actorHandle : Text) :
    ((∃ name email, parseSig (renderAuthor w.authorTemplate actorType actorHandle) = some (name, email)) ↔
      ¬ BracketsCrossed (renderAuthor w.authorTemplate actorType actorHandle)) ∧
    ∀ (git : List Commit) (rel : PathBuf) (content message said : Text) (time : Int) (tree : GitTree),
      w.ext.upsert (((w.readHead git).map Prod.snd).getD []) (treePath rel) (Text.utf8 content) = some tree →
      ((∃ oid git', w.commitFile git (w.readHead git) rel content actorType actorHandle message time said =
          .ok (oid, git')) ↔
        Signable (renderAuthor w.authorTemplate actorType actorHandle)) := by
  constructor
  · rw [← parseSig_eq_none, ← ne_eq, Option.ne_none_iff_exists']
    simp only [Prod.exists]
  intro git rel content message said time tree htree
  constructor
  · intro hok
    obtain ⟨oid, git', h⟩ := hok
    obtain ⟨c, -, -, hc⟩ := commitFile_eq_ok h
    exact hc.signable
  · intro hline
    obtain ⟨name, email, hsig, htokens⟩ := signable_iff.1 hline
    simp only [commitFile, htree, hsig, w.ext.signs_iff.2 htokens, and_self, if_true]
    exact ⟨_, _, rfl⟩

/-! ## A small wiki -/

/-- SHA-256 of two short texts. -/
def smallSha256 (b : Bytes) : Bytes :=
  if b = Text.utf8 "one".toList then
    [118, 146, 195, 173, 53, 64, 187, 128, 60, 2, 11, 58, 238, 102, 205, 136,
      135, 18, 50, 52, 234, 12, 110, 113, 67, 192, 173, 215, 63, 244, 49, 237]
  else if b = Text.utf8 "two".toList then
    [63, 196, 204, 254, 116, 88, 112, 226, 192, 217, 159, 113, 243, 15, 240, 101,
      108, 141, 237, 212, 28, 193, 215, 211, 211, 118, 176, 219, 230, 133, 226, 243]
  else List.replicate 32 0

/-- Commits are numbered by their time; the tree editor refuses what Git does
not let into a tree. -/
def Externals.small : Externals where
  sha256 := smallSha256
  sha256_length b := by
    unfold smallSha256
    split
    · rfl
    split
    · rfl
    · simp
  commitId c := hexEncode (List.replicate 19 0 ++ [UInt8.ofNat c.author.time.toNat])
  upsert t p b := if p = [] ∨ [] ∈ p ∨ ".git".toList ∈ p then none else some (Tree.upsert t p b)
  upsert_self {t p b t'} h := by
    split at h
    · cases h
    next hc =>
      simp only [not_or] at hc
      cases h
      exact Tree.lookup_upsert_self t hc.1 b
  upsert_other {t p b t' q} h hpq hqp := by
    split at h
    · cases h
    · cases h
      exact Tree.lookup_upsert_other t hpq hqp b
  signs name email := decide (SignatureToken name ∧ SignatureToken email)
  signs_iff := decide_eq_true_iff

/-- The configuration by default: the content root is the repository. -/
def Wiki.small : Wiki where
  ext := .small
  root := ["wiki".toList]
  contentRoot := ["wiki".toList]
  authorTemplate := defaultAuthorTemplate

/-- Two handles with brackets, on which no commit lands after the file was
written. With `>x<` the brackets of the line are the wrong way around and the
worker panics; from `a<b` an email with a bracket is read, and Git refuses it. -/
theorem crossed_handle_panics :
    (parseSig (renderAuthor Wiki.small.authorTemplate "human".toList ">x<".toList) = none ∧
      Wiki.small.commitFile [seedCommit 0] (Wiki.small.readHead [seedCommit 0]) ["notes.md".toList]
        "one".toList "human".toList ">x<".toList "edit: notes".toList 1 [] =
          .error (.internal "join: ".toList)) ∧
    Wiki.small.commitFile [seedCommit 0] (Wiki.small.readHead [seedCommit 0]) ["notes.md".toList]
      "one".toList "human".toList "a<b".toList "edit: notes".toList 1 [] =
        .error (.internal "git: ".toList) := by
  refine ⟨⟨by decide, ?_⟩, ?_⟩
  · rfl
  · rfl

end Wikikiki
