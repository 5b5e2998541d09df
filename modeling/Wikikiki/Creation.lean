/-
Creating pages: which of them can be there together.

`.md` is appended to a path, so no two pages have one file; but the file of a
page may be a directory that another page needs, as `a.md` is for the page
`a.md/b`. Whichever comes first makes the other impossible
(`create_all_iff`).
-/
import Wikikiki.System

namespace Wikikiki

/-! ## One write -/

/-- What a write needs beyond its checks: the page's file can be put, and Git
takes its path and signs with its author line. -/
structure Wiki.Writable (w : Wiki) (takes : List Text → Prop) (d : Disk) (req : WriteRequest) : Prop where
  clear : d.Clear (filePath w.contentRoot req.path)
  takes : takes (treePath (w.pageFile req.path))
  signature : Signable (renderAuthor w.authorTemplate req.actorType req.actorHandle)

/-- The tree editor takes a path or not, whatever the tree and the blob. -/
def Externals.Takes (ext : Externals) (takes : List Text → Prop) : Prop :=
  ∀ t p b, ext.upsert t p b ≠ none ↔ takes p

/-- What a write has done that succeeded. -/
structure Wiki.Wrote (w : Wiki) (req : WriteRequest) (s s' : Stores) : Prop where
  disk : s'.disk = s.disk.put (filePath w.contentRoot req.path) (Text.utf8 req.content)
  db : ∃ title hash oid id, s.db.Projected req title hash oid id s'.db

section

variable {w : Wiki} {takes : List Text → Prop} {req : WriteRequest} {env : Stage → Input} {s s' : Stores}

theorem filePath_ne_nil (root : PathBuf) (p : Text) : filePath root p ≠ [] := by
  simp [filePath, relativeFilePath_ne_nil]

theorem root_prefix_dropLast (root : PathBuf) (p : Text) : root <+: (filePath root p).dropLast := by
  rw [filePath, List.dropLast_append_of_ne_nil (relativeFilePath_ne_nil p)]
  exact List.prefix_append _ _

/-- The content root is there once it was made. -/
theorem relativeTo_withDirs (hroot : w.root <+: w.contentRoot) (d : Disk) :
    ∃ pre, relativeTo (d.withDirs w.contentRoot) w.root w.contentRoot = some pre ∧
      ∀ p, repoPath pre p = w.pageFile p := by
  have hsome : ∀ {p : PathBuf}, p <+: w.contentRoot → d.withDirs w.contentRoot p ≠ none := by
    intro p hp hn
    cases hd : d p with
    | none => simp [Disk.withDirs, hp, hd] at hn
    | some n => rw [Disk.withDirs_of_some hd] at hn; cases hn
  exact ⟨_, if_neg (by simp [hsome hroot, hsome List.prefix_rfl, hroot]), fun _ => rfl⟩

/-- A write with all that it needs succeeds. -/
theorem Wiki.write_of_writable (htakes : w.ext.Takes takes) (hroot : w.root <+: w.contentRoot)
    (hc : ∀ c : Check, ¬ c.Fails req s.db) (h : w.Writable takes s.disk req) :
    ∃ info s', w.write req env s = (.stop (.done info), s') ∧ w.Wrote req s s' := by
  have hdrop := root_prefix_dropLast w.contentRoot req.path
  have hd : s.disk.createDirAll w.contentRoot = some (s.disk.withDirs w.contentRoot) :=
    Disk.createDirAll_of_noFile fun q data hq => h.clear.1 q data (hq.trans hdrop)
  obtain ⟨pre, hpre, hrel⟩ := relativeTo_withDirs hroot s.disk
  have hne := filePath_ne_nil w.contentRoot req.path
  obtain ⟨d₁, hd₁, hw⟩ := Disk.write_of_clear hne ((Disk.clear_withDirs hne hdrop).2 h.clear)
    (Text.utf8 req.content)
  rw [Disk.put_withDirs _ hdrop] at hw
  obtain ⟨tree, htree⟩ := Option.ne_none_iff_exists'.1
    ((htakes (((w.readHead s.git).map Prod.snd).getD []) _ (Text.utf8 req.content)).2 h.takes)
  obtain ⟨name, email, hsig, htokens⟩ := signable_iff.1 h.signature
  rw [write_of_checks hc]
  simp only [Function.iterate_succ_apply, Function.iterate_zero_apply, advance, exec, hd, hpre, hrel,
    w.root_pageFile hroot, hd₁, hw, commitFile, htree, hsig, w.ext.signs_iff.2 htokens, and_self,
    if_true]
  exact ⟨_, _, rfl, rfl, _, _, _, _, Db.project_spec _ _ _ _ _ _⟩

/-- A write that succeeds in the end gets past the stage it is at. -/
theorem Wiki.go_of_done {info : PageMeta} {n : Nat} {stage : Stage} (hstage : stage.rank < 7)
    (h : (w.advance req env)^[n + 1] (.go stage, s) = (.stop (.done info), s')) :
    ∃ stage' s₁, w.Effect req stage s (.go stage') s₁ ∧
      (w.advance req env)^[n] (.go stage', s₁) = (.stop (.done info), s') := by
  rw [Function.iterate_succ_apply, advance] at h
  cases he : w.exec req (env stage) stage s with
  | mk next s₁ =>
    rw [he] at h
    cases next with
    | go stage' => exact ⟨stage', s₁, exec_effect he, h⟩
    | stop o =>
      rw [iterate_stop] at h
      cases h
      cases exec_effect he
      exact absurd hstage (by simp [Stage.rank])

/-- A write that succeeds had what it needs. -/
theorem Wiki.writable_of_write {info : PageMeta} (htakes : w.ext.Takes takes)
    (hc : ∀ c : Check, ¬ c.Fails req s.db) (h : w.write req env s = (.stop (.done info), s')) :
    w.Writable takes s.disk req := by
  have hdrop := root_prefix_dropLast w.contentRoot req.path
  have hne := filePath_ne_nil w.contentRoot req.path
  rw [write_of_checks hc] at h
  obtain ⟨stage₁, s₁, he₁, h⟩ := go_of_done (by decide) h
  cases he₁ with
  | root hd hroot =>
    obtain ⟨rfl, -⟩ := Disk.createDirAll_eq hd
    obtain ⟨stage₂, s₂, he₂, h⟩ := go_of_done (by simp [Stage.rank]) h
    cases he₂ with
    | file hd₁ hw =>
      rw [w.root_pageFile hroot] at hd₁ hw
      have hclear := (Disk.clear_of_write hne hd₁ hw).1
      obtain ⟨stage₃, s₃, he₃, h⟩ := go_of_done (by simp [Stage.rank]) h
      cases he₃ with
      | head =>
        obtain ⟨stage₄, s₄, he₄, -⟩ := go_of_done (by simp [Stage.rank]) h
        cases he₄ with
        | commit hcom =>
          exact ⟨(Disk.clear_withDirs hne hdrop).1 hclear, (htakes _ _ _).1 (by rw [hcom.tree]; simp),
            hcom.signable⟩

theorem Wiki.write_done_iff (htakes : w.ext.Takes takes) (hroot : w.root <+: w.contentRoot)
    (hc : ∀ c : Check, ¬ c.Fails req s.db) (env : Stage → Input) :
    (w.Writable takes s.disk req ∧ ∃ info s', w.write req env s = (.stop (.done info), s') ∧ w.Wrote req s s') ∨
      (¬ w.Writable takes s.disk req ∧ ∀ info s', w.write req env s ≠ (.stop (.done info), s')) := by
  by_cases h : w.Writable takes s.disk req
  · exact .inl ⟨h, write_of_writable htakes hroot hc h⟩
  · exact .inr ⟨h, fun info s' hw => h (writable_of_write htakes hc hw)⟩

/-- The checks that a request passes, it passes after any write. -/
theorem Wiki.Wrote.checks {r : WriteRequest} (h : w.Wrote r s s') (hpre : req.precondition = .none)
    (hc : ∀ c : Check, ¬ c.Fails req s.db) (c : Check) : ¬ c.Fails req s'.db := by
  obtain ⟨title, hash, oid, id, hp⟩ := h.db
  cases c with
  | path => exact hc .path
  | layer =>
    have hl := hc .layer
    simp only [Check.Fails] at hl ⊢
    rwa [hp.layers]
  | actor =>
    have ha := hc .actor
    simp only [Check.Fails, Db.actorById] at ha ⊢
    rwa [hp.actors]
  | precondition => simp [Check.Fails, hpre, Precondition.Holds]

end

/-! ## Many writes -/

/-- Writes one after the other, as long as they succeed; each with its clock
and its errors. -/
def Wiki.writeAll (w : Wiki) : List (WriteRequest × (Stage → Input)) → Stores → Option Stores
  | [], s => some s
  | (req, env) :: jobs, s =>
    match w.write req env s with
    | (.stop (.done _), s') => w.writeAll jobs s'
    | _ => none

/-- All the writes succeed, and every page reads back what was written to
it. -/
def Wiki.AllCreated (w : Wiki) (jobs : List (WriteRequest × (Stage → Input))) (s : Stores) : Prop :=
  ∃ s', w.writeAll jobs s = some s' ∧ ∀ job ∈ jobs, ∀ said, ∃ page,
    w.read s' job.1.path said = .ok page ∧ page.content = job.1.content

/-- The file of the one page is a directory of the other's. -/
def InTheWay (p q : Text) : Prop := p ++ ".md/".toList <+: q

instance (p q : Text) : Decidable (InTheWay p q) := inferInstanceAs (Decidable (_ <+: _))

/-- The page has its row and its file. -/
structure Wiki.HasPage (w : Wiki) (s : Stores) (p content : Text) : Prop where
  row : s.db.findPage p ≠ none
  file : s.disk.read (filePath w.contentRoot p) = some (Text.utf8 content)

section

variable {w : Wiki} {takes : List Text → Prop} {req : WriteRequest} {s s' : Stores}
  {jobs : List (WriteRequest × (Stage → Input))}

theorem filePath_prefix_iff {root : PathBuf} {p q : Text} (hne : p ≠ q) :
    filePath root p <+: filePath root q ↔ InTheWay p q := by
  rw [filePath, filePath, List.prefix_append_right_inj, relativeFilePath_prefix]
  simp [hne, InTheWay]

/-- What another request still needs after a write. -/
theorem Wiki.Wrote.writable_iff {r : WriteRequest} (h : w.Wrote r s s') (hr : w.Writable takes s.disk r)
    (hne : r.path ≠ req.path) : w.Writable takes s'.disk req ↔
      w.Writable takes s.disk req ∧ ¬ InTheWay r.path req.path ∧ ¬ InTheWay req.path r.path := by
  have hfile : filePath w.contentRoot r.path ≠ filePath w.contentRoot req.path := fun he =>
    hne (filePath_injective _ he)
  have hne' := filePath_ne_nil w.contentRoot r.path
  have hclear : (s.disk.put _ (Text.utf8 r.content)).Clear _ ↔ _ := Disk.clear_put hne' hr.clear hfile
  rw [filePath_prefix_iff hne, filePath_prefix_iff (Ne.symm hne), ← h.disk] at hclear
  constructor
  · intro hw
    exact ⟨⟨(hclear.1 hw.clear).1, hw.takes, hw.signature⟩, (hclear.1 hw.clear).2⟩
  · intro hw
    exact ⟨hclear.2 ⟨hw.1.clear, hw.2⟩, hw.1.takes, hw.1.signature⟩

theorem Wiki.Wrote.self (h : w.Wrote req s s') : w.HasPage s' req.path req.content := by
  obtain ⟨title, hash, oid, id, hp⟩ := h.db
  obtain ⟨at₀, now, hfind⟩ := hp.findPage_self
  exact ⟨by rw [hfind]; simp, by rw [h.disk, Disk.read_put_self]⟩

theorem Wiki.Wrote.other {r : WriteRequest} {p content : Text} (h : w.Wrote r s s') (hne : p ≠ r.path)
    (hp : w.HasPage s p content) : w.HasPage s' p content := by
  obtain ⟨title, hash, oid, id, hproj⟩ := h.db
  refine ⟨by rw [hproj.findPage_other hne]; exact hp.row, ?_⟩
  rw [h.disk, Disk.read_put_other _ fun he => hne (filePath_injective _ he)]
  exact hp.file

theorem Wiki.HasPage.read {p content : Text} (h : w.HasPage s p content) (hv : validatePath p = .ok ())
    (said : Text) : ∃ page, w.read s p said = .ok page ∧ page.content = content := by
  obtain ⟨x, hx⟩ := Option.ne_none_iff_exists'.1 h.row
  simp only [Wiki.read, hv, Db.readMeta, hx, Option.map_some, Disk.readToString_of_read h.file]
  exact ⟨_, rfl, rfl⟩

/-- All the writes of a list succeed exactly when each has what it needs at
the start and none is in the way of another. -/
theorem Wiki.writeAll_iff (htakes : w.ext.Takes takes) (hroot : w.root <+: w.contentRoot)
    (hc : ∀ job ∈ jobs, ∀ c : Check, ¬ c.Fails job.1 s.db) (hpre : ∀ job ∈ jobs, job.1.precondition = .none)
    (hnd : (jobs.map fun job => job.1.path).Nodup) :
    (∃ s', w.writeAll jobs s = some s') ↔ (∀ job ∈ jobs, w.Writable takes s.disk job.1) ∧
      jobs.Pairwise fun a b => ¬ InTheWay a.1.path b.1.path ∧ ¬ InTheWay b.1.path a.1.path := by
  induction jobs generalizing s with
  | nil => simp [writeAll]
  | cons job jobs ih =>
    obtain ⟨req, env⟩ := job
    rw [List.map_cons, List.nodup_cons] at hnd
    rw [writeAll, List.pairwise_cons]
    rcases write_done_iff htakes hroot (hc (req, env) List.mem_cons_self) env with
      ⟨hreq, info, s₁, hw, hwrote⟩ | ⟨hreq, hno⟩
    · rw [hw]
      have hne : ∀ job ∈ jobs, req.path ≠ job.1.path := fun job hj he =>
        hnd.1 (List.mem_map.2 ⟨job, hj, he.symm⟩)
      have ih := ih (s := s₁)
        (fun job hj => hwrote.checks (hpre job (List.mem_cons_of_mem _ hj)) (hc job (List.mem_cons_of_mem _ hj)))
        (fun job hj => hpre job (List.mem_cons_of_mem _ hj)) hnd.2
      rw [ih]
      constructor
      · intro h
        have hall := fun job hj => (hwrote.writable_iff hreq (hne job hj)).1 (h.1 job hj)
        refine ⟨fun job hj => ?_, fun job hj => (hall job hj).2, h.2⟩
        rcases List.mem_cons.1 hj with rfl | hj
        · exact hreq
        · exact (hall job hj).1
      · intro h
        refine ⟨fun job hj => (hwrote.writable_iff hreq (hne job hj)).2 ?_, h.2.2⟩
        exact ⟨h.1 job (List.mem_cons_of_mem _ hj), h.2.1 job hj⟩
    · constructor
      · intro h
        exfalso
        obtain ⟨s', h⟩ := h
        split at h
        next hw => exact hno _ _ hw
        · cases h
      · intro h
        exact absurd (h.1 _ List.mem_cons_self) hreq

/-- After the writes the pages are there, and those that were there before and
were not written. -/
theorem Wiki.writeAll_pages (htakes : w.ext.Takes takes) (hroot : w.root <+: w.contentRoot)
    (hc : ∀ job ∈ jobs, ∀ c : Check, ¬ c.Fails job.1 s.db) (hpre : ∀ job ∈ jobs, job.1.precondition = .none)
    (hnd : (jobs.map fun job => job.1.path).Nodup) (h : w.writeAll jobs s = some s') :
    (∀ p content, (∀ job ∈ jobs, p ≠ job.1.path) → w.HasPage s p content → w.HasPage s' p content) ∧
      ∀ job ∈ jobs, w.HasPage s' job.1.path job.1.content := by
  induction jobs generalizing s with
  | nil =>
    cases h
    exact ⟨fun _ _ _ hp => hp, by simp⟩
  | cons job jobs ih =>
    obtain ⟨req, env⟩ := job
    rw [List.map_cons, List.nodup_cons] at hnd
    rw [writeAll] at h
    rcases write_done_iff htakes hroot (hc (req, env) List.mem_cons_self) env with
      ⟨-, info, s₁, hw, hwrote⟩ | ⟨-, hno⟩
    · rw [hw] at h
      obtain ⟨hkeep, hnew⟩ := ih (s := s₁)
        (fun job hj => hwrote.checks (hpre job (List.mem_cons_of_mem _ hj)) (hc job (List.mem_cons_of_mem _ hj)))
        (fun job hj => hpre job (List.mem_cons_of_mem _ hj)) hnd.2 h
      refine ⟨fun p content hp hpage => ?_, fun job hj => ?_⟩
      · exact hkeep p content (fun job hj => hp job (List.mem_cons_of_mem _ hj))
          (hwrote.other (hp (req, env) List.mem_cons_self) hpage)
      · rcases List.mem_cons.1 hj with rfl | hj
        · exact hkeep _ _ (fun job hj he => hnd.1 (List.mem_map.2 ⟨job, hj, he.symm⟩)) hwrote.self
        · exact hnew job hj
    · split at h
      next hw => exact absurd hw (hno _ _)
      · cases h

/-- **Which pages can be created together.** Distinct accepted paths are all
written, in a given order, and all read back, exactly when nothing that is on
disk is in the way of their files, Git takes their paths and signs with the
author lines, and no path starts with another one and `.md/`. -/
theorem create_all_iff (htakes : w.ext.Takes takes) (hroot : w.root <+: w.contentRoot)
    (hc : ∀ job ∈ jobs, ∀ c : Check, ¬ c.Fails job.1 s.db) (hpre : ∀ job ∈ jobs, job.1.precondition = .none)
    (hnd : (jobs.map fun job => job.1.path).Nodup) :
    w.AllCreated jobs s ↔ (∀ job ∈ jobs, w.Writable takes s.disk job.1) ∧
      jobs.Pairwise fun a b => ¬ InTheWay a.1.path b.1.path ∧ ¬ InTheWay b.1.path a.1.path := by
  rw [← Wiki.writeAll_iff htakes hroot hc hpre hnd]
  constructor
  · intro h
    obtain ⟨s', hs', -⟩ := h
    exact ⟨s', hs'⟩
  · intro h
    obtain ⟨s', hs'⟩ := h
    refine ⟨s', hs', fun job hj said => ?_⟩
    have hv : validatePath job.1.path = .ok () := Decidable.not_not.1 (hc job hj .path)
    exact ((Wiki.writeAll_pages htakes hroot hc hpre hnd hs').2 job hj).read hv said

end

/-! ## Two small lists -/

/-- A request to create the page, by the one actor. -/
def Creation (path : Text) : WriteRequest × (Stage → Input) :=
  (.small path "one".toList .none, fun _ => ⟨1, []⟩)

theorem takes_small : Externals.small.Takes fun p => ¬ (p = [] ∨ [] ∈ p ∨ ".git".toList ∈ p) := by
  intro t p b
  simp only [Externals.small]
  split
  next h => exact ⟨fun hne => absurd rfl hne, fun hn => absurd h hn⟩
  next h => exact ⟨fun _ => h, fun _ => by simp⟩

theorem checks_small {path : Text} (hv : validatePath path = .ok ()) (c : Check) :
    ¬ c.Fails (Creation path).1 (Stores.small none).db := by
  cases c with
  | path => exact fun h => h hv
  | layer => exact fun h => h ⟨_, List.mem_cons_self, rfl, rfl⟩
  | actor => exact fun h => h ⟨_, rfl, rfl, rfl, rfl⟩
  | precondition => exact fun h => h trivial

/-- A new repository has no file in anybody's way. -/
theorem writable_small {path : Text}
    (ht : let tree := treePath (Wiki.small.pageFile path); ¬ (tree = [] ∨ [] ∈ tree ∨ ".git".toList ∈ tree)) :
    Wiki.small.Writable (fun p => ¬ (p = [] ∨ [] ∈ p ∨ ".git".toList ∈ p)) (Stores.small none).disk
      (Creation path).1 := by
  have hsig : Signable (renderAuthor defaultAuthorTemplate "human".toList "alice".toList) :=
    signable_iff.2 ⟨_, _, rfl, by decide⟩
  refine ⟨⟨fun q data _ hf => ?_, fun hd => ?_⟩, ht, hsig⟩
  · simp only [Stores.small] at hf
    split at hf <;> cases hf
  · have hne := relativeFilePath_ne_nil path
    simp [Stores.small, filePath, Wiki.small, Creation, WriteRequest.small, hne] at hd

theorem create_all_small : Wiki.small.AllCreated [Creation "a".toList, Creation "b/c".toList] (.small none) := by
  have hjobs : ∀ job ∈ [Creation "a".toList, Creation "b/c".toList], ∃ path, job = Creation path ∧
      validatePath path = .ok () ∧ let tree := treePath (Wiki.small.pageFile path)
        ¬ (tree = [] ∨ [] ∈ tree ∨ ".git".toList ∈ tree) := by
    intro job hj
    simp only [List.mem_cons, List.not_mem_nil, or_false] at hj
    rcases hj with rfl | rfl
    · exact ⟨"a".toList, rfl, by decide, by decide⟩
    · exact ⟨"b/c".toList, rfl, by decide, by decide⟩
  refine (create_all_iff takes_small List.prefix_rfl (fun job hj => ?_) (fun job hj => ?_) (by decide)).2
    ⟨fun job hj => ?_, by decide⟩
  all_goals obtain ⟨path, rfl, hv, ht⟩ := hjobs job hj
  · exact checks_small hv
  · rfl
  · exact writable_small ht

/-- **Pages in each other's way.** The page `a` lives in `a.md`, which the
page `a.md/b` needs for a directory: whichever comes second is refused by the
file system. -/
theorem created_in_the_way :
    validatePath "a".toList = .ok () ∧ validatePath "a.md/b".toList = .ok () ∧
      ¬ Wiki.small.AllCreated [Creation "a".toList, Creation "a.md/b".toList] (.small none) ∧
      ¬ Wiki.small.AllCreated [Creation "a.md/b".toList, Creation "a".toList] (.small none) := by
  refine ⟨by decide, by decide, fun h => ?_, fun h => ?_⟩
  · obtain ⟨s', hs', -⟩ := h
    cases hs'
  · obtain ⟨s', hs', -⟩ := h
    cases hs'

end Wikikiki
