/-
Where page writes leave the repository's own directory alone.

A write works towards the file of its page and no other (`Disk.Towards`), and
no stage before the commit asks Git whether it would take the path. By default
the pages lie in the root of the repository, and `validate_path` accepts `.git`
as a segment like any other.
-/
import Wikikiki.Refinement

namespace Wikikiki

/-- The directory that Git keeps for itself. -/
def Wiki.gitDir (w : Wiki) : PathBuf := w.root ++ [".git".toList]

/-- The page's path leads into a directory `.git`. -/
def IntoGit (pagePath : Text) : Prop := ∃ seg segs, pagePath.splitOn '/' = ".git".toList :: seg :: segs

/-- The file of a page is Git's own exactly when the path leads there. -/
theorem inGitDir_iff {w : Wiki} (hroot : w.contentRoot = w.root) (p : Text) :
    w.gitDir <+: filePath w.contentRoot p ↔ IntoGit p := by
  rw [Wiki.gitDir, filePath, hroot, List.prefix_append_right_inj, prefix_relativeFilePath (by decide)]
  rfl

section

variable {v : Service} {l l' : Ledger} {q : PathBuf}

/-- A step leaves alone what the current write does not work towards. -/
theorem Ledger.Step.disk_eq (hstep : Step v l l') (ha : l.Aimed v)
    (hq : ∀ t, validatePath (v.req t).path = .ok () → ¬ q <+: filePath v.wiki.contentRoot (v.req t).path) :
    l'.stores.disk q = l.stores.disk q := by
  cases hstep with
  | start _ _ => rfl
  | go he => exact (he.towards (ha _ _ rfl).2).elsewhere q (hq _ (ha _ _ rfl).1)
  | stop he => exact (he.towards (ha _ _ rfl).2).elsewhere q (hq _ (ha _ _ rfl).1)
  | admin _ _ => rfl

theorem Ledger.Steps.disk_eq (h : Steps v l l') (ha : l.Aimed v)
    (hq : ∀ t, validatePath (v.req t).path = .ok () → ¬ q <+: filePath v.wiki.contentRoot (v.req t).path) :
    l'.stores.disk q = l.stores.disk q := by
  induction h with
  | refl => rfl
  | tail hs hstep ih => exact (hstep.disk_eq (Steps.aimed hs ha) hq).trans ih

end

/-! ## A write that gets to its file -/

/-- A row that meets the precondition, where it asks for one. -/
def WriteRequest.wantedRow (req : WriteRequest) : Option PageRow :=
  match req.precondition with
  | .none | .absent => none
  | .existing => some (.foreign req.path none)
  | .revision want => some (.foreign req.path (some want))

/-- Stores of a new repository in which nothing stops the request: its layer
and its actor are there, and its page is as it asks. -/
def Wiki.welcoming (w : Wiki) (req : WriteRequest) : Stores where
  disk := Disk.withDirs (fun _ => none) w.root
  git := [seedCommit 0]
  db := { Db.small req.wantedRow with
    layers := [{ code := req.layer, isActive := 1 }]
    actors := ⟨[(req.actorId, ⟨req.actorType, [], req.actorHandle, 0, 1⟩)], by simp⟩ }

section

variable (w : Wiki) (req : WriteRequest)

theorem Wiki.checkLayer_welcoming : checkLayer (w.welcoming req).db req = .ok () := by
  simp [checkLayer, Db.layerIsActive, welcoming]

theorem Wiki.checkActor_welcoming : checkActor (w.welcoming req).db req = .ok () := by
  simp [checkActor, Db.actorById, Table.get, welcoming]

theorem Wiki.check_welcoming :
    req.precondition.check ((w.welcoming req).db.currentState req.path) = .ok () := by
  rw [Precondition.check_eq_ok]
  cases h : req.precondition <;>
    simp [Precondition.Holds, Db.currentState, Db.findPage, Table.find, Table.insert, Table.empty,
      welcoming, Db.small, WriteRequest.wantedRow, PageRow.foreign, h]

/-- The new repository has directories only, and those only down to itself. -/
theorem Wiki.welcoming_eq_none {rel : PathBuf} (hne : rel ≠ []) :
    (w.welcoming req).disk (w.root ++ rel) = none :=
  Disk.withDirs_below (fun _ => none) w.root hne

variable {w} in
/-- A page's file in the new repository can be made. -/
theorem Wiki.write_welcoming (hroot : w.contentRoot = w.root) (data : Bytes) : ∃ d d₁ d₂,
    (w.welcoming req).disk.createDirAll w.contentRoot = some d ∧
      relativeTo d w.root w.contentRoot = some [] ∧
      d.createDirAll (w.root ++ repoPath [] req.path).dropLast = some d₁ ∧
      d₁.write (w.root ++ repoPath [] req.path) data = some d₂ := by
  have hnofile : ∀ q data, (w.welcoming req).disk q ≠ some (.file data) := fun q data => by
    simp [welcoming, Disk.withDirs]
  have hd := Disk.createDirAll_of_noFile (p := w.contentRoot) fun q data _ => hnofile q data
  obtain ⟨-, hdirs⟩ := Disk.createDirAll_eq hd
  have hrel : relativeTo ((w.welcoming req).disk.withDirs w.contentRoot) w.root w.contentRoot =
      some [] := by
    simp [relativeTo, ← hroot, hdirs _ List.prefix_rfl]
  have hd₁ := Disk.createDirAll_of_noFile (d := (w.welcoming req).disk.withDirs w.contentRoot)
    (p := (w.root ++ repoPath [] req.path).dropLast) fun q data _ => by
      rw [ne_eq, Disk.withDirs_file]
      exact hnofile q data
  have hne : repoPath [] req.path ≠ [] := relativeFilePath_ne_nil _
  have hnew : (w.welcoming req).disk.withDirs w.contentRoot (w.root ++ repoPath [] req.path) = none := by
    rw [hroot, Disk.withDirs_below _ _ hne, welcoming_eq_none w req hne]
  obtain ⟨d₂, hd₂⟩ := Disk.write_of_noFile (by simp [hne]) hd₁ hnew data
  exact ⟨_, _, d₂, hd, hrel, hd₁, hd₂⟩

end

/-- Some run takes an accepted request as far as its file, which was not
there before. -/
theorem Service.exists_written {v : Service} (hroot : v.wiki.contentRoot = v.wiki.root) {t : Nat}
    (hv : validatePath (v.req t).path = .ok ()) :
    ∃ stores s, v.run (.opened stores) (Action.untilFile t) = some s ∧
      stores.disk (filePath v.wiki.contentRoot (v.req t).path) = none ∧
      s.stores.disk (filePath v.wiki.contentRoot (v.req t).path) =
        some (.file (Text.utf8 (v.req t).content)) := by
  obtain ⟨d, d₁, d₂, hd, hrel, hd₁, hd₂⟩ :=
    Wiki.write_welcoming (v.req t) hroot (Text.utf8 (v.req t).content)
  have hl := Wiki.checkLayer_welcoming v.wiki (v.req t)
  have ha := Wiki.checkActor_welcoming v.wiki (v.req t)
  have hc := Wiki.check_welcoming v.wiki (v.req t)
  have hfile : filePath v.wiki.contentRoot (v.req t).path =
      v.wiki.root ++ relativeFilePath (v.req t).path := by
    rw [filePath, hroot]
  have hnone := Wiki.welcoming_eq_none v.wiki (v.req t) (relativeFilePath_ne_nil (v.req t).path)
  have hland := Disk.read_eq_some.1 (Disk.read_write_self hd₂)
  refine ⟨v.wiki.welcoming (v.req t), ?_⟩
  rw [hfile]
  simp [Service.run, Run.run, Action.untilFile, List.replicate_succ, step, State.opened,
    State.setTask, Mutex.lock, Mutex.grant, Mutex.free, Wiki.exec, Next.phase, hv, hl, ha, hc, hd,
    hrel, hd₁, hd₂, hnone]
  exact hland

/-! ## Git's own directory -/

/-- **Git's own directory.** The accepted requests have their files outside
`.git` exactly when no accepted path leads into `.git`, and it is on the same
condition that no run of the requests, whatever fails in it, changes anything
there. -/
theorem git_untouched {v : Service} (hroot : v.wiki.contentRoot = v.wiki.root) :
    ((∀ t, validatePath (v.req t).path = .ok () →
        ¬ v.wiki.gitDir <+: filePath v.wiki.contentRoot (v.req t).path) ↔
      ∀ t, validatePath (v.req t).path = .ok () → ¬ IntoGit (v.req t).path) ∧
    ((∀ stores as s, v.run (.opened stores) as = some s →
        ∀ q, v.wiki.gitDir <+: q → s.stores.disk q = stores.disk q) ↔
      ∀ t, validatePath (v.req t).path = .ok () → ¬ IntoGit (v.req t).path) := by
  refine ⟨by simp only [inGitDir_iff hroot], ?_, ?_⟩
  · intro huntouched t hv hinto
    obtain ⟨stores, s, hr, hbefore, hafter⟩ := Service.exists_written hroot hv
    have hsame := huntouched stores _ s hr _ ((inGitDir_iff hroot _).2 hinto)
    rw [hbefore, hafter] at hsame
    cases hsame
  · intro hout stores as s hr q hq
    have hopened : (State.opened stores).ledger.Opened := ⟨rfl, rfl⟩
    refine Ledger.Steps.disk_eq ((Serving.opened v stores).steps hr) hopened.aimed fun t hv hp => ?_
    exact hout t hv ((inGitDir_iff hroot _).1 (hq.trans hp))

theorem git_untouched_small :
    ∃ s, Service.small.run (.opened (.small none)) Action.overlap = some s ∧
      ∀ q, Wiki.small.gitDir <+: q → s.stores.disk q = (Stores.small none).disk q := by
  obtain ⟨s, hs⟩ : ∃ s, Service.small.run (.opened (.small none)) Action.overlap = some s := ⟨_, rfl⟩
  have hpath : ∀ t, (Service.small.req t).path = "notes".toList
    | 0 | 1 | 2 | 3 | _ + 4 => rfl
  have hout : ∀ t, validatePath (Service.small.req t).path = .ok () →
      ¬ IntoGit (Service.small.req t).path := by
    intro t _ ⟨seg, segs, h⟩
    rw [hpath, show "notes".toList.splitOn '/' = ["notes".toList] by decide] at h
    cases h
  exact ⟨s, hs, (git_untouched rfl).2.2 hout _ _ _ hs⟩

/-- The small service, with everybody after a branch. -/
def Service.intruder : Service where
  wiki := .small
  req _ := .small ".git/refs/heads/main".toList "one".toList .none
  page _ := "notes".toList

/-- A write to a page below `.git` puts its file there, although Git goes on
to refuse the path and the write fails. -/
theorem ref_overwritten :
    let file := Wiki.small.gitDir ++ ["refs".toList, "heads".toList, "main.md".toList]
    validatePath ".git/refs/heads/main".toList = .ok () ∧ (Stores.small none).disk file = none ∧
      ∃ s, Service.intruder.run (.opened (.small none))
            (Action.untilFile 0 ++ [.advance 0 ⟨1, []⟩, .advance 0 ⟨1, []⟩, .release 0]) = some s ∧
        s.stores.disk file = some (.file (Text.utf8 "one".toList)) ∧ s.succeeded = [] := by
  refine ⟨by decide, rfl, ?_⟩
  obtain ⟨s, hs⟩ : ∃ s, Service.intruder.run (.opened (.small none))
      (Action.untilFile 0 ++ [.advance 0 ⟨1, []⟩, .advance 0 ⟨1, []⟩, .release 0]) = some s := ⟨_, rfl⟩
  refine ⟨s, hs, ?_, ?_⟩ <;> cases hs <;> rfl

end Wikikiki
