/-
`Repo::write_and_commit` under load (git/mod.rs): any number of calls on one
repository handle, for files of any name, whose callers may go away at every
`await`.

A call's work is done by a blocking worker with a clone of the call's guard.
Nobody stops a worker: when its caller goes, the worker keeps the lock until it
has ended. So the calls work one after the other, in the order of `started`
(`calls_in_order`), and what they leave in Git and on disk is one commit each.
The page writes use the same worker (`Wiki.exec_work`).
-/
import Wikikiki.FileHistory
import Wikikiki.System

namespace Wikikiki

/-! ## The worker -/

/-- The arguments of `write_and_commit`. -/
structure CommitCall where
  relpath : PathBuf
  content : Text
  actorType : Text
  actorHandle : Text
  message : Text

/-- What the worker writes to. -/
structure Storage where
  disk : Disk
  git : List Commit

/-- What the worker does next. -/
inductive Work where
  | writeFile
  | readHead
  | commit (parent : Option (Text × GitTree))

/-- What a step of the worker comes to: more work, or what the call returns. -/
inductive Worked where
  | go (work : Work)
  | ended (r : Except AppError Text)

/-- One step of the blocking closure of `write_and_commit`. -/
def Wiki.work (w : Wiki) (call : CommitCall) (i : Input) : Work → Storage → Worked × Storage
  | .writeFile, f =>
    match f.disk.createDirAll (w.root ++ call.relpath).dropLast with
    | none => (.ended (.error (.io i.said)), f)
    | some disk =>
      match disk.write (w.root ++ call.relpath) (Text.utf8 call.content) with
      | none => (.ended (.error (.io i.said)), { f with disk })
      | some disk => (.go .readHead, { f with disk })
  | .readHead, f => (.go (.commit (w.readHead f.git)), f)
  | .commit parent, f =>
    match w.commitFile f.git parent call.relpath call.content call.actorType call.actorHandle call.message
      i.now i.said with
    | .error e => (.ended (.error e), f)
    | .ok (oid, git) => (.ended (.ok oid), { f with git })

/-! ### In a page write -/

/-- The call that a page write makes of its session. -/
def WriteRequest.call (req : WriteRequest) (rel : PathBuf) : CommitCall where
  relpath := rel
  content := req.content
  actorType := req.actorType
  actorHandle := req.actorHandle
  message := req.message

def Work.stage (rel : PathBuf) : Work → Stage
  | .writeFile => .writeFile rel
  | .readHead => .readHead rel
  | .commit parent => .commit rel parent

def Worked.next (stage : Stage) (rel : PathBuf) : Worked → Next
  | .go work => .go (work.stage rel)
  | .ended (.ok oid) => .go (.project oid)
  | .ended (.error e) => .stop (.failed stage e)

/-- **The worker of a page write.** Its stages are the steps of the worker. -/
theorem Wiki.exec_work (w : Wiki) (req : WriteRequest) (i : Input) (work : Work) (rel : PathBuf) (s : Stores) :
    w.exec req i (work.stage rel) s =
      let (r, f) := w.work (req.call rel) i work ⟨s.disk, s.git⟩
      (r.next (work.stage rel) rel, { s with disk := f.disk, git := f.git }) := by
  cases work with
  | writeFile =>
    simp only [Work.stage, exec, Wiki.work, WriteRequest.call]
    cases s.disk.createDirAll (w.root ++ rel).dropLast with
    | none => rfl
    | some d =>
      simp only
      cases d.write (w.root ++ rel) (Text.utf8 req.content) <;> rfl
  | readHead => rfl
  | commit parent =>
    simp only [Work.stage, exec, Wiki.work, WriteRequest.call]
    cases w.commitFile s.git parent rel req.content req.actorType req.actorHandle req.message i.now i.said with
    | error e => rfl
    | ok p => rfl

/-! ### What it can do -/

/-- A step of the worker that does not fail. -/
inductive Wiki.Works (w : Wiki) (call : CommitCall) : Work → Storage → Worked → Storage → Prop
  | wrote {f d disk} (hd : f.disk.createDirAll (w.root ++ call.relpath).dropLast = some d)
      (hw : d.write (w.root ++ call.relpath) (Text.utf8 call.content) = some disk) :
      Works w call .writeFile f (.go .readHead) { f with disk }
  | head {f} : Works w call .readHead f (.go (.commit (w.readHead f.git))) f
  | committed {f parent c}
      (hc : w.Committed f.git parent call.relpath call.content call.actorType call.actorHandle call.message c) :
      Works w call (.commit parent) f (.ended (.ok (w.ext.commitId c))) { f with git := c :: f.git }

theorem Wiki.work_cases {w : Wiki} {call : CommitCall} {i : Input} {work : Work} {f f' : Storage} {r : Worked}
    (h : w.work call i work f = (r, f')) : (∃ e, r = .ended (.error e)) ∨ w.Works call work f r f' := by
  cases work with
  | writeFile =>
    simp only [Wiki.work] at h
    split at h
    · cases h; exact .inl ⟨_, rfl⟩
    next d hd =>
      split at h
      · cases h; exact .inl ⟨_, rfl⟩
      next disk hw => cases h; exact .inr (.wrote hd hw)
  | readHead => simp only [Wiki.work] at h; cases h; exact .inr .head
  | commit parent =>
    simp only [Wiki.work] at h
    split at h
    · cases h; exact .inl ⟨_, rfl⟩
    next oid git hc =>
      cases h
      obtain ⟨c, rfl, rfl, hcom⟩ := commitFile_eq_ok hc
      exact .inr (.committed hcom)

/-! ## The calls -/

/-- A repository handle and the calls that are made of it, by number. -/
structure Handle where
  wiki : Wiki
  call : Nat → CommitCall

/-- A call: what its caller awaits, and once the worker was started, whether
there is still a caller. -/
inductive CallPhase where
  | idle
  | queued
  | granted
  | cancelled
  | working (work : Work) (held : Bool)
  | returning (r : Except AppError Text)
  | ended (r : Except AppError Text)

def CallPhase.work : CallPhase → Option Work
  | .working work _ => some work
  | _ => none

def CallPhase.result : CallPhase → Option (Except AppError Text)
  | .returning r | .ended r => some r
  | _ => none

/-- The clones of the guard that a call has: its session's and its worker's. -/
def CallPhase.guards : CallPhase → Nat
  | .granted | .returning _ => 1
  | .working _ held => if held then 2 else 1
  | _ => 0

/-- Where a step of the worker leaves its call. -/
def Worked.phase (held : Bool) : Worked → CallPhase
  | .go work => .working work held
  | .ended r => if held then .returning r else .ended r

/-- The worker's guard goes when the worker ends. -/
def Worked.lock (m : Mutex Nat) : Worked → Mutex Nat
  | .go _ => m
  | .ended _ => m.drop

namespace Handle

structure State where
  files : Storage
  lock : Mutex Nat
  task : Nat → CallPhase
  started : List Nat

inductive Action where
  | call (t : Nat)
  | grant
  | start (t : Nat)
  | cancel (t : Nat)
  | work (t : Nat) (i : Input)
  | fail (t : Nat) (e : AppError) (disk : Disk)
  | resume (t : Nat)

def State.setTask (s : State) (t : Nat) (ph : CallPhase) : State :=
  { s with task := Function.update s.task t ph }

/-- One step of the handle. A step of a worker may fail at any time, and then
nobody knows what it has left on disk. -/
def step (h : Handle) (s : State) : Action → Option State
  | .call t =>
    match s.task t with
    | .idle => some { s.setTask t .queued with lock := s.lock.lock t }
    | _ => none
  | .grant =>
    match s.lock.grant with
    | some (t, lock) => some { s.setTask t .granted with lock }
    | none => none
  | .start t =>
    match s.task t with
    | .granted =>
      some { s.setTask t (.working .writeFile true) with lock := s.lock.clone, started := s.started ++ [t] }
    | _ => none
  | .cancel t =>
    match s.task t with
    | .queued => some { s.setTask t .cancelled with lock := s.lock.abandon t }
    | .granted => some { s.setTask t .cancelled with lock := s.lock.drop }
    | .working work true => some { s.setTask t (.working work false) with lock := s.lock.drop }
    | .returning r => some { s.setTask t (.ended r) with lock := s.lock.drop }
    | _ => none
  | .work t i =>
    match s.task t with
    | .working work held =>
      let (r, files) := h.wiki.work (h.call t) i work s.files
      some { s.setTask t (r.phase held) with files, lock := r.lock s.lock }
    | _ => none
  | .fail t e disk =>
    match s.task t with
    | .working _ held =>
      let r : Worked := .ended (.error e)
      some { s.setTask t (r.phase held) with files := { s.files with disk }, lock := r.lock s.lock }
    | _ => none
  | .resume t =>
    match s.task t with
    | .returning r => some { s.setTask t (.ended r) with lock := s.lock.drop }
    | _ => none

/-- What an action does, where it is enabled. -/
inductive State.Step (h : Handle) (s : State) : Action → State → Prop
  | queued {t} (ht : s.task t = .idle) :
      Step h s (.call t) { s.setTask t .queued with lock := s.lock.lock t }
  | granted {t lock} (hg : s.lock.grant = some (t, lock)) :
      Step h s .grant { s.setTask t .granted with lock }
  | started {t} (ht : s.task t = .granted) :
      Step h s (.start t)
        { s.setTask t (.working .writeFile true) with lock := s.lock.clone, started := s.started ++ [t] }
  | abandoned {t} (ht : s.task t = .queued) :
      Step h s (.cancel t) { s.setTask t .cancelled with lock := s.lock.abandon t }
  | dropped {t} (ht : s.task t = .granted) :
      Step h s (.cancel t) { s.setTask t .cancelled with lock := s.lock.drop }
  | orphaned {t work} (ht : s.task t = .working work true) :
      Step h s (.cancel t) { s.setTask t (.working work false) with lock := s.lock.drop }
  | worked {t i work held r files} (ht : s.task t = .working work held)
      (hw : h.wiki.work (h.call t) i work s.files = (r, files)) :
      Step h s (.work t i) { s.setTask t (r.phase held) with files, lock := r.lock s.lock }
  | failed {t e disk work held} (ht : s.task t = .working work held) :
      Step h s (.fail t e disk)
        { s.setTask t ((Worked.ended (.error e)).phase held) with
          files := { s.files with disk }, lock := s.lock.drop }
  | left {t r a} (ht : s.task t = .returning r) :
      Step h s a { s.setTask t (.ended r) with lock := s.lock.drop }

theorem step_cases {h : Handle} {s s' : State} {a : Action} (hs : h.step s a = some s') : s.Step h a s' := by
  cases a with
  | call t =>
    simp only [step] at hs
    split at hs
    next ht => cases hs; exact .queued ht
    · cases hs
  | grant =>
    simp only [step] at hs
    split at hs
    next t lock hg => cases hs; exact .granted hg
    · cases hs
  | start t =>
    simp only [step] at hs
    split at hs
    next ht => cases hs; exact .started ht
    · cases hs
  | cancel t =>
    simp only [step] at hs
    split at hs
    next ht => cases hs; exact .abandoned ht
    next ht => cases hs; exact .dropped ht
    next work ht => cases hs; exact .orphaned ht
    next r ht => cases hs; exact .left ht
    · cases hs
  | work t i =>
    simp only [step] at hs
    split at hs
    next work held ht => cases hs; exact .worked ht rfl
    · cases hs
  | fail t e disk =>
    simp only [step] at hs
    split at hs
    next work held ht => cases hs; exact .failed ht
    · cases hs
  | resume t =>
    simp only [step] at hs
    split at hs
    next r ht => cases hs; exact .left ht
    · cases hs

abbrev run (h : Handle) : State → List Action → Option State := Run.run h.step

def State.opened (files : Storage) : State where
  files
  lock := .free
  task _ := .idle
  started := []

/-! ## The lock -/

def waits (task : Nat → CallPhase) (t : Nat) : Prop := task t = .queued

def guards (task : Nat → CallPhase) (t : Nat) : Nat := (task t).guards

/-- The mutex agrees with the calls that wait for it or hold it. -/
def State.Locked (s : State) : Prop := s.lock.Tracks (waits s.task) (guards s.task)

section

variable {h : Handle} {s s' : State} {t u : Nat} {ph : CallPhase}

theorem waits_of_ne (hu : u ≠ t) (hw : waits s.task u) : waits (Function.update s.task t ph) u := by
  rwa [waits, Function.update_of_ne hu]

theorem guards_self : guards (Function.update s.task t ph) t = ph.guards := by simp [guards]

theorem guards_of_ne (hu : u ≠ t) : guards (Function.update s.task t ph) u = guards s.task u := by
  simp [guards, hu]

theorem guards_same (hg : ph.guards = (s.task t).guards) (u : Nat) :
    guards (Function.update s.task t ph) u = guards s.task u := by
  by_cases hu : u = t
  · subst hu; rw [guards_self, hg]; rfl
  · exact guards_of_ne hu

/-- A call that does not wait drops a guard. -/
theorem State.Locked.dropped (hl : s.Locked) (hw : s.task t ≠ .queued) (hg : ph.guards + 1 = (s.task t).guards) :
    s.lock.drop.Tracks (waits (Function.update s.task t ph)) (guards (Function.update s.task t ph)) := by
  have hq := hl.notMem_queue (show ¬ waits s.task t from hw)
  exact hl.drop (fun u hu => waits_of_ne (hq u hu)) (by rw [guards_self, hg]; rfl) fun u => guards_of_ne

/-- The worker goes on with the guards as they are, or ends and drops its
own. -/
theorem State.Locked.worked (hl : s.Locked) {work : Work} {held : Bool} (ht : s.task t = .working work held)
    (r : Worked) : (r.lock s.lock).Tracks (waits (Function.update s.task t (r.phase held)))
      (guards (Function.update s.task t (r.phase held))) := by
  have hw : s.task t ≠ .queued := by rw [ht]; simp
  have hq := hl.notMem_queue (show ¬ waits s.task t from hw)
  cases r with
  | go work' => exact hl.same (fun u hu => waits_of_ne (hq u hu)) (guards_same (by rw [ht]; rfl))
  | ended r => exact hl.dropped hw (by rw [ht]; cases held <;> rfl)

theorem step_locked {a : Action} (hstep : h.step s a = some s') (hl : s.Locked) : s'.Locked := by
  cases step_cases hstep with
  | @queued t ht =>
    have hw : ¬ waits s.task t := by rw [waits, ht]; simp
    refine hl.lock hw (by simp [waits, State.setTask]) (fun u hu => ?_) (guards_same (by rw [ht]; rfl))
    exact waits_of_ne (fun he => hw (he ▸ hu)) hu
  | granted hg =>
    exact hl.grant hg (fun u => waits_of_ne) (by rw [State.setTask, guards_self]; rfl) fun u => guards_of_ne
  | @started t ht =>
    have hw : s.task t ≠ .queued := by rw [ht]; simp
    have hq := hl.notMem_queue (show ¬ waits s.task t from hw)
    have hg : guards s.task t = 1 := by rw [guards, ht]; rfl
    exact hl.clone (by omega) (fun u hu => waits_of_ne (hq u hu)) (by rw [State.setTask, guards_self, hg]; rfl)
      fun u => guards_of_ne
  | abandoned ht => exact hl.abandon (fun u => waits_of_ne) (guards_same (by rw [ht]; rfl))
  | dropped ht => exact hl.dropped (by rw [ht]; simp) (by rw [ht]; rfl)
  | orphaned ht => exact hl.dropped (by rw [ht]; simp) (by rw [ht]; rfl)
  | worked ht _ => exact hl.worked ht _
  | failed ht => exact hl.worked ht (.ended _)
  | left ht => exact hl.dropped (by rw [ht]; simp) (by rw [ht]; rfl)

/-- While a call has a guard, only that call can have a worker. -/
theorem State.Locked.only (hl : s.Locked) (ht : 0 < (s.task t).guards) (hu : (s.task u).work ≠ none) : u = t := by
  refine hl.exclusive ?_ ht
  cases hp : s.task u with
  | working work held => rw [guards, hp]; cases held <;> exact Nat.succ_pos _
  | _ => rw [hp] at hu; exact absurd rfl hu

end

/-! ## One commit each -/

/-- A file whose path stands in the tree as it stands on disk: no component has
a slash of either kind, and the file system resolves none. -/
structure PlainPath (rel : PathBuf) : Prop where
  ne_nil : rel ≠ []
  normal : ∀ seg ∈ rel, seg ≠ [] ∧ seg ≠ ".".toList ∧ seg ≠ "..".toList
  slash : ∀ seg ∈ rel, '/' ∉ seg
  backslash : ∀ seg ∈ rel, '\\' ∉ seg

theorem PlainPath.treePath {rel : PathBuf} (h : PlainPath rel) : treePath rel = rel := by
  have hseg := List.flatMap_congr (l := rel) (f := treeComponents) (g := fun s => [s])
    fun seg hs => treeComponents_plain (h.slash seg hs) (h.backslash seg hs)
  rw [treePath_eq h.ne_nil, hseg]
  simp

/-- The commit `c` of the call `t`, on top of `before`: by the call's actor,
with the call's content at its file, and nothing else changed. -/
structure CommitOf (h : Handle) (t : Nat) (before : List Commit) (c : Commit) : Prop where
  parents : c.parents = (before.head?.map h.wiki.ext.commitId).toList
  author : parseSig (renderAuthor h.wiki.authorTemplate (h.call t).actorType (h.call t).actorHandle) =
    some (c.author.name, c.author.email)
  own : Tree.lookup c.tree (treePath (h.call t).relpath) = some (Text.utf8 (h.call t).content)
  others : ∀ q, q ≠ treePath (h.call t).relpath → Tree.lookup c.tree q = Tree.lookup (headTree before) q

/-- The commits of some calls on top of `seed`, newest first. -/
def Stacked (h : Handle) (seed : List Commit) : List (Nat × Commit) → Prop
  | [] => True
  | (t, c) :: older => h.CommitOf t (older.map Prod.snd ++ seed) c ∧ h.Stacked seed older

/-- The started calls whose worker still runs. -/
def State.working (s : State) : List Nat := s.started.filter fun t => (s.task t).work.isSome

/-- No call has failed. -/
def State.Healthy (s : State) : Prop := ∀ t e, (s.task t).result ≠ some (.error e)

/-- Every started call has made its one commit, in the order of the lock, but
for the one that is still at work. -/
def State.InOrder (h : Handle) (seed : Commit) (s : State) : Prop :=
  ∃ commits, s.files.git = commits.map Prod.snd ++ [seed] ∧ h.Stacked [seed] commits ∧
    (commits.map Prod.fst).reverse ++ s.working = s.started ∧ s.started.Nodup ∧ s.working.length ≤ 1

/-- The files that were written are the blobs in HEAD. -/
def State.Agrees (h : Handle) (s : State) : Prop :=
  ∀ t ∈ s.started, s.files.disk.read (h.wiki.root ++ (h.call t).relpath) =
    headBlob s.files.git (h.call t).relpath

/-- What the worker has done that is at `work`. -/
structure Wrote (h : Handle) (f : Storage) (t : Nat) : Prop where
  placed : f.disk.Placed (h.wiki.root ++ (h.call t).relpath)
  read : f.disk.read (h.wiki.root ++ (h.call t).relpath) = some (Text.utf8 (h.call t).content)

def At (h : Handle) (f : Storage) (t : Nat) : Work → Prop
  | .writeFile => True
  | .readHead => h.Wrote f t
  | .commit parent => h.Wrote f t ∧ parent = h.wiki.readHead f.git

/-- The invariant: `commits` have landed, and `current` is at work. -/
structure Sound (h : Handle) (seed : Commit) (s : State) (commits : List (Nat × Commit))
    (current : Option (Nat × Work)) : Prop where
  git : s.files.git = commits.map Prod.snd ++ [seed]
  stacked : h.Stacked [seed] commits
  started : s.started = (commits.map Prod.fst).reverse ++ (current.map Prod.fst).toList
  nodup : s.started.Nodup
  begun : ∀ t ∈ s.started, (s.task t).work ≠ none ∨ (s.task t).result ≠ none
  work : ∀ t work, (s.task t).work = some work ↔ current = some (t, work)
  at_work : ∀ t work, current = some (t, work) → h.At s.files t work
  /-- Blobs in HEAD are files on disk, so none is above another one. -/
  placed : ∀ q, Tree.lookup (headTree s.files.git) q ≠ none → s.files.disk.Placed (h.wiki.root ++ q)
  agrees : ∀ t ∈ commits.map Prod.fst,
    (∀ u work, current = some (u, work) → (h.call u).relpath ≠ (h.call t).relpath) →
      s.files.disk.read (h.wiki.root ++ (h.call t).relpath) = headBlob s.files.git (h.call t).relpath

section

variable {h : Handle} {seed : Commit} {s s' : State} {commits : List (Nat × Commit)}
  {current : Option (Nat × Work)} {t : Nat}

theorem Sound.inOrder (hs : h.Sound seed s commits current) : s.InOrder h seed := by
  have hfilter : s.working = (current.map Prod.fst).toList := by
    rw [State.working, hs.started, List.filter_append]
    have hold : ((commits.map Prod.fst).reverse.filter fun t => (s.task t).work.isSome) = [] := by
      refine List.filter_eq_nil_iff.2 fun t ht hw => ?_
      obtain ⟨work, hwork⟩ := Option.isSome_iff_exists.1 hw
      have hcur := (hs.work t work).1 hwork
      have hnd := hs.nodup
      rw [hs.started, hcur, List.nodup_append] at hnd
      exact hnd.2.2 t ht t (by simp) rfl
    rw [hold, List.nil_append]
    cases hcur : current with
    | none => rfl
    | some p =>
      have hw := (hs.work p.1 p.2).2 hcur
      simp [hw]
  refine ⟨commits, hs.git, hs.stacked, by rw [hfilter, hs.started], hs.nodup, ?_⟩
  rw [hfilter]
  cases current <;> simp

theorem Sound.agrees_of_quiet (hs : h.Sound seed s commits current) (hq : s.working = []) : s.Agrees h := by
  intro t ht
  have hnone : current = none := by
    cases hcur : current with
    | none => rfl
    | some p =>
      have hw := (hs.work p.1 p.2).2 hcur
      have hm : p.1 ∈ s.started := by rw [hs.started, hcur]; simp
      have hidle := List.filter_eq_nil_iff.1 hq p.1 hm
      rw [hw] at hidle
      exact absurd rfl hidle
  refine hs.agrees t ?_ fun u work hu => ?_
  · rw [hs.started, hnone] at ht
    simpa using ht
  · rw [hnone] at hu
    cases hu

/-- A step at which no worker moves. -/
theorem Sound.same (hs : h.Sound seed s commits current) (hf : s'.files = s.files)
    (hstarted : s'.started = s.started) (hw : ∀ u, (s'.task u).work = (s.task u).work)
    (hr : ∀ u, (s.task u).result ≠ none → (s'.task u).result ≠ none) : h.Sound seed s' commits current where
  git := hf ▸ hs.git
  stacked := hs.stacked
  started := hstarted ▸ hs.started
  nodup := hstarted ▸ hs.nodup
  begun u hu := by
    rw [hw]
    exact (hs.begun u (hstarted ▸ hu)).imp id (hr u)
  work u work := by rw [hw, hs.work]
  at_work := hf ▸ hs.at_work
  placed := hf ▸ hs.placed
  agrees := hf ▸ hs.agrees

/-! ### The worker at work -/

/-- When a call moves, and no other is at work, then whoever is at work now is
that call. -/
theorem Sound.work_setTask (hs : h.Sound seed s commits current) (hcur : ∀ u work, current = some (u, work) → u = t)
    (ph : CallPhase) (u : Nat) (work : Work) :
    ((s.setTask t ph).task u).work = some work ↔ ph.work.map (Prod.mk t) = some (u, work) := by
  by_cases hut : u = t
  · subst hut
    simp [State.setTask]
  · have hidle : (s.task u).work ≠ some work := fun hw => hut (hcur u work ((hs.work u work).1 hw))
    simp [State.setTask, hut, hidle, Ne.symm hut]

theorem Sound.begun_setTask (hs : h.Sound seed s commits current) (ph : CallPhase)
    (hph : ph.work ≠ none ∨ ph.result ≠ none) {u : Nat} (hu : u ≠ t → u ∈ s.started) :
    ((s.setTask t ph).task u).work ≠ none ∨ ((s.setTask t ph).task u).result ≠ none := by
  by_cases hut : u = t
  · subst hut
    simpa [State.setTask] using hph
  · simpa [State.setTask, hut] using hs.begun u (hu hut)

/-- A worker starts when none runs. -/
theorem Sound.start (hs : h.Sound seed s commits none) (hnew : t ∉ s.started) (lock : Mutex Nat) :
    h.Sound seed { s.setTask t (.working .writeFile true) with lock, started := s.started ++ [t] } commits
      (some (t, .writeFile)) where
  git := hs.git
  stacked := hs.stacked
  started := by have := hs.started; simp_all
  nodup := by
    rw [List.nodup_append]
    exact ⟨hs.nodup, by simp, fun u hu v hv he => hnew (List.mem_singleton.1 hv ▸ he ▸ hu)⟩
  begun u hu := by
    have hold : u ≠ t → u ∈ s.started := fun hut => (List.mem_append.1 hu).resolve_right (by simpa using hut)
    exact hs.begun_setTask (.working .writeFile true) (.inl (Option.some_ne_none _)) hold
  work := hs.work_setTask (fun _ _ hu => by cases hu) _
  at_work u work hu := by cases hu; trivial
  placed := hs.placed
  agrees u hu _ := hs.agrees u hu fun _ _ hv => by cases hv

/-- The worker of `t` goes on, and Git is as it was. -/
theorem Sound.go {work work' : Work} {held : Bool} {disk : Disk} (hs : h.Sound seed s commits (some (t, work)))
    (hat : h.At ⟨disk, s.files.git⟩ t work') (hg : s.files.disk.Grows disk)
    (hread : ∀ p, p ≠ h.wiki.root ++ (h.call t).relpath → disk.read p = s.files.disk.read p) (lock : Mutex Nat) :
    h.Sound seed { s.setTask t (.working work' held) with files := { s.files with disk }, lock } commits
      (some (t, work')) where
  git := hs.git
  stacked := hs.stacked
  started := hs.started
  nodup := hs.nodup
  begun _ hu := hs.begun_setTask (.working work' held) (.inl (Option.some_ne_none _)) fun _ => hu
  work := hs.work_setTask (fun _ _ hu => by cases hu; rfl) _
  at_work u work hu := by cases hu; exact hat
  placed q hq := (hs.placed q hq).grows hg
  agrees u hu hother := by
    have hne : (h.call t).relpath ≠ (h.call u).relpath := hother t work' rfl
    rw [← hs.agrees u hu fun v work hv => by cases hv; exact hne]
    exact hread _ fun he => hne (List.append_cancel_left he).symm

/-- The tree of a commit is the one before, with the call's file. -/
theorem Sound.tree {parent : Option (Text × GitTree)} {c : Commit} (hplain : PlainPath (h.call t).relpath)
    (hs : h.Sound seed s commits (some (t, .commit parent)))
    (htree : h.wiki.ext.upsert ((parent.map Prod.snd).getD []) (treePath (h.call t).relpath)
      (Text.utf8 (h.call t).content) = some c.tree) :
    Tree.lookup c.tree (h.call t).relpath = some (Text.utf8 (h.call t).content) ∧
      ∀ q, q ≠ (h.call t).relpath → Tree.lookup c.tree q = Tree.lookup (headTree s.files.git) q := by
  obtain ⟨hwrote, hparent⟩ := hs.at_work _ _ rfl
  rw [hplain.treePath, hparent, headTree_readHead] at htree
  have hown := h.wiki.ext.upsert_self htree
  refine ⟨hown, fun q hq => ?_⟩
  by_cases hpre : (h.call t).relpath <+: q ∨ q <+: (h.call t).relpath
  · -- Above and below a blob there is no blob, and what is in HEAD is a file on disk.
    have hold : Tree.lookup (headTree s.files.git) q = none := by
      by_contra hne
      have hp := hs.placed q hne
      rcases hpre with hpre | hpre
      · have he := hwrote.placed.eq_of_prefix hp ((List.prefix_append_right_inj _).2 hpre)
        exact hq (List.append_cancel_left he).symm
      · have he := hp.eq_of_prefix hwrote.placed ((List.prefix_append_right_inj _).2 hpre)
        exact hq (List.append_cancel_left he)
    rw [hold]
    rcases hpre with hpre | hpre
    · exact Tree.lookup_below hown hpre (Ne.symm hq)
    · exact Tree.lookup_above hown hpre hq
  · simp only [not_or] at hpre
    exact h.wiki.ext.upsert_other htree hpre.1 hpre.2

/-- The worker of `t` commits: its file, which is written, is in HEAD now. -/
theorem Sound.commit {parent : Option (Text × GitTree)} {held : Bool} {c : Commit}
    (hplain : ∀ t, PlainPath (h.call t).relpath) (hs : h.Sound seed s commits (some (t, .commit parent)))
    (hc : h.wiki.Committed s.files.git parent (h.call t).relpath (h.call t).content (h.call t).actorType
      (h.call t).actorHandle (h.call t).message c) (lock : Mutex Nat) :
    h.Sound seed
      { s.setTask t ((Worked.ended (.ok (h.wiki.ext.commitId c))).phase held) with
        files := { s.files with git := c :: s.files.git }, lock } ((t, c) :: commits) none := by
  obtain ⟨hwrote, hparent⟩ := hs.at_work _ _ rfl
  obtain ⟨hown, hother⟩ := hs.tree (hplain t) hc.tree
  have hphase : ((Worked.ended (.ok (h.wiki.ext.commitId c))).phase held).work = none ∧
      ((Worked.ended (.ok (h.wiki.ext.commitId c))).phase held).result ≠ none := by
    cases held <;> exact ⟨rfl, by simp [Worked.phase, CallPhase.result]⟩
  have hblob : ∀ u, headBlob (c :: s.files.git) (h.call u).relpath = Tree.lookup c.tree (h.call u).relpath :=
    fun u => by rw [headBlob_eq, (hplain u).treePath]; rfl
  have hcommit : h.CommitOf t (commits.map Prod.snd ++ [seed]) c := by
    refine ⟨?_, hc.author, by rwa [(hplain t).treePath], fun q hq => ?_⟩
    · rw [hc.parents, hparent, ← hs.git]
      cases s.files.git <;> rfl
    · rw [← hs.git]
      exact hother q ((hplain t).treePath ▸ hq)
  refine { git := by simp [hs.git], stacked := ⟨hcommit, hs.stacked⟩, started := ?_, nodup := hs.nodup,
           begun := fun u hu => ?_, work := fun u work => ?_, at_work := fun u work hu => (by cases hu),
           placed := fun q hq => ?_, agrees := fun u hu _ => ?_ }
  · have := hs.started
    simp_all [State.setTask]
  · exact hs.begun_setTask _ (.inr hphase.2) fun _ => hu
  · have hw := hs.work_setTask (fun _ _ hu => by cases hu; rfl)
      ((Worked.ended (.ok (h.wiki.ext.commitId c))).phase held) u work
    rwa [hphase.1] at hw
  · by_cases hqt : q = (h.call t).relpath
    · exact hqt ▸ hwrote.placed
    · exact hs.placed q (by rw [← hother q hqt]; exact hq)
  · refine Eq.trans ?_ (hblob u).symm
    by_cases hut : (h.call u).relpath = (h.call t).relpath
    · rw [hut, hown]
      exact hwrote.read
    · have hold : u ∈ commits.map Prod.fst :=
        (List.mem_cons.1 hu).resolve_left fun he => hut (congrArg (fun v => (h.call v).relpath) he)
      rw [hother _ hut, ← (hplain u).treePath, ← headBlob_eq, (hplain u).treePath]
      exact hs.agrees u hold fun v work hv => by cases hv; exact Ne.symm hut

/-! ### Runs -/

/-- A result stays. -/
theorem State.Step.result {a : Action} (hstep : s.Step h a s') (hl : s.Locked) {r : Except AppError Text}
    (hr : (s.task t).result = some r) : (s'.task t).result = some r := by
  have hset : ∀ {u ph}, (s.task u).result = none ∨ ph.result = (s.task u).result →
      (Function.update s.task u ph t).result = some r := by
    intro u ph hu
    by_cases htu : t = u
    · subst htu
      rw [hr] at hu
      simpa using hu
    · simpa [htu] using hr
  cases hstep with
  | granted hg => exact hset (.inl (by rw [show s.task _ = _ from hl.grant_waits hg]; rfl))
  | left ht => exact hset (.inr (by rw [ht]; rfl))
  | queued ht => exact hset (.inl (by rw [ht]; rfl))
  | started ht => exact hset (.inl (by rw [ht]; rfl))
  | abandoned ht => exact hset (.inl (by rw [ht]; rfl))
  | dropped ht => exact hset (.inl (by rw [ht]; rfl))
  | orphaned ht => exact hset (.inl (by rw [ht]; rfl))
  | worked ht _ => exact hset (.inl (by rw [ht]; rfl))
  | failed ht => exact hset (.inl (by rw [ht]; rfl))

/-- A step of one call that shows the same work and the same result. -/
theorem Sound.shows (hs : h.Sound seed s commits current) {ph : CallPhase} (hw : ph.work = (s.task t).work)
    (hr : ph.result = (s.task t).result) (lock : Mutex Nat) :
    h.Sound seed { s.setTask t ph with lock } commits current := by
  have hset : ∀ u, (Function.update s.task t ph u).work = (s.task u).work ∧
      (Function.update s.task t ph u).result = (s.task u).result := by
    intro u
    by_cases hut : u = t
    · subst hut; simp [hw, hr]
    · simp [hut]
  exact hs.same rfl rfl (fun u => (hset u).1) fun u hu he => hu ((hset u).2.symm.trans he)

/-- What holds in every state: the lock, and the invariant while nothing has
failed. -/
structure Kept (h : Handle) (seed : Commit) (s : State) : Prop where
  locked : s.Locked
  sound : s.Healthy → ∃ commits current, h.Sound seed s commits current

theorem step_kept {a : Action} (hplain : ∀ t, PlainPath (h.call t).relpath) (hstep : h.step s a = some s')
    (hk : h.Kept seed s) : h.Kept seed s' := by
  refine ⟨step_locked hstep hk.locked, fun hh => ?_⟩
  have hcases := step_cases hstep
  obtain ⟨commits, current, hs⟩ := hk.sound fun t e he => hh t e (hcases.result hk.locked he)
  cases hcases with
  | queued ht => exact ⟨commits, current, hs.shows (by rw [ht]; rfl) (by rw [ht]; rfl) _⟩
  | granted hg =>
    have ht : s.task _ = .queued := hk.locked.grant_waits hg
    exact ⟨commits, current, hs.shows (by rw [ht]; rfl) (by rw [ht]; rfl) _⟩
  | abandoned ht => exact ⟨commits, current, hs.shows (by rw [ht]; rfl) (by rw [ht]; rfl) _⟩
  | dropped ht => exact ⟨commits, current, hs.shows (by rw [ht]; rfl) (by rw [ht]; rfl) _⟩
  | orphaned ht => exact ⟨commits, current, hs.shows (by rw [ht]; rfl) (by rw [ht]; rfl) _⟩
  | left ht => exact ⟨commits, current, hs.shows (by rw [ht]; rfl) (by rw [ht]; rfl) _⟩
  | @started t ht =>
    have hnone : current = none := by
      cases hc : current with
      | none => rfl
      | some p =>
        have hw := (hs.work p.1 p.2).2 hc
        have hp := hk.locked.only (t := t) (by rw [ht]; decide) (hw ▸ Option.some_ne_none _)
        rw [hp, ht] at hw
        cases hw
    subst hnone
    refine ⟨commits, _, hs.start (fun hm => ?_) _⟩
    have hb := hs.begun t hm
    rw [ht] at hb
    exact hb.elim (absurd rfl) (absurd rfl)
  | @failed t e disk work held ht =>
    refine absurd ?_ (hh t e)
    cases held <;> simp [State.setTask, Worked.phase, CallPhase.result]
  | @worked t i work held r files ht hw =>
    have hcur : current = some (t, work) := (hs.work t work).1 (by rw [ht]; rfl)
    subst hcur
    rcases Wiki.work_cases hw with ⟨e, rfl⟩ | hworks
    · refine absurd ?_ (hh t e)
      cases held <;> simp [State.setTask, Worked.phase, CallPhase.result]
    cases hworks with
    | @wrote f d disk hd hwrite =>
      have hplaced := Disk.placed_of_write hd hwrite
      have hat : h.At ⟨disk, s.files.git⟩ t .readHead := ⟨hplaced, Disk.read_write_self hwrite⟩
      refine ⟨commits, _, hs.go hat ?_ (fun p hp => ?_) _⟩
      · obtain ⟨rfl, -⟩ := Disk.createDirAll_eq hd
        exact (Disk.grows_withDirs _ _).trans (Disk.grows_write hwrite)
      · rw [Disk.read_write_other hwrite hp, Disk.read_createDirAll hd]
    | head =>
      have hat : h.At s.files t (.commit (h.wiki.readHead s.files.git)) := ⟨hs.at_work _ _ rfl, rfl⟩
      exact ⟨commits, _, hs.go hat (Disk.Grows.refl _) (fun _ _ => rfl) _⟩
    | committed hc => exact ⟨_, none, hs.commit hplain hc _⟩

theorem opened_kept {files : Storage} (hgit : files.git = [seed])
    (hplaced : ∀ q, Tree.lookup seed.tree q ≠ none → files.disk.Placed (h.wiki.root ++ q)) :
    h.Kept seed (.opened files) := by
  refine ⟨Mutex.tracks_free fun _ => rfl, fun _ => ⟨[], none, ?_⟩⟩
  exact { git := hgit, stacked := trivial, started := rfl, nodup := List.nodup_nil,
          begun := fun t ht => (by cases ht), work := fun t work => by simp [State.opened, CallPhase.work],
          at_work := fun t work hc => (by cases hc),
          placed := fun q hq => hplaced q (by simpa [State.opened, hgit, headTree] using hq),
          agrees := fun t ht => (by cases ht) }

/-- **One commit for each call, under its author.** In every run of calls for
plain paths in a new repository, whoever goes away and when: while nothing has
failed, every started call has made its one commit, or is the one at work; and
when none is at work, the files on disk are the blobs in HEAD. -/
theorem calls_in_order {files : Storage} {time : Int} {as : List Action}
    (hplain : ∀ t, PlainPath (h.call t).relpath) (hgit : files.git = [seedCommit time])
    (hkeep : files.disk.Placed (h.wiki.root ++ [".keep".toList])) (hr : h.run (.opened files) as = some s)
    (hh : s.Healthy) : s.InOrder h (seedCommit time) ∧ (s.working = [] → s.Agrees h) := by
  have hopen : h.Kept (seedCommit time) (.opened files) := by
    refine opened_kept hgit fun q hq => ?_
    by_cases hkq : q = [".keep".toList]
    · exact hkq ▸ hkeep
    · exact absurd (Tree.lookup_single hkq []) hq
  obtain ⟨commits, current, hs⟩ := (Run.invariant (step_kept hplain) hr hopen).sound hh
  exact ⟨hs.inOrder, hs.agrees_of_quiet⟩

end

/-! ## A small handle -/

/-- A new repository. -/
def smallStorage : Storage where
  disk p :=
    if p = [] ∨ p = ["wiki".toList] then some .dir
    else if p = ["wiki".toList, ".keep".toList] then some (.file [])
    else none
  git := [seedCommit 0]

/-- Two calls, by two actors. -/
def small (rel₀ rel₁ : PathBuf) (handle : Text) : Handle where
  wiki := .small
  call
    | 0 => ⟨rel₀, "one".toList, "human".toList, handle, "first".toList⟩
    | _ => ⟨rel₁, "two".toList, "agent".toList, "bot".toList, "second".toList⟩

/-- Two files, two names of one file in the tree, and an author line that the
worker panics over. -/
def neighbours : Handle := small ["a.md".toList] ["b".toList, "c.md".toList] "alice".toList

def twins : Handle := small ["a\\b".toList] ["a".toList, "b".toList] "alice".toList

def unreadable : Handle := small ["a.md".toList] ["b.md".toList] ">x<".toList

/-- A worker from its start to its end. -/
def Action.workOff (t : Nat) : List Action := List.replicate 3 (.work t ⟨t + 1, []⟩)

/-- Both calls at once; the caller of the first one goes away while the worker
has done nothing yet. -/
def Action.orphaned : List Action :=
  [.call 0, .call 1, .grant, .start 0, .cancel 0] ++ workOff 0 ++ [.grant, .start 1] ++ workOff 1 ++ [.resume 1]

theorem placed_keep : smallStorage.disk.Placed ["wiki".toList, ".keep".toList] := by
  refine ⟨⟨[], rfl⟩, fun q hq hne => ?_⟩
  have hq' : q ∈ [[], ["wiki".toList], ["wiki".toList, ".keep".toList]] := (List.mem_inits _ _).2 hq
  simp only [List.mem_cons, List.not_mem_nil, or_false] at hq'
  rcases hq' with rfl | rfl | rfl
  · rfl
  · rfl
  · exact absurd rfl hne

/-- The two calls of a small handle are all that can fail. -/
theorem healthy_of_two {s : State} (h₀ : ∃ oid, (s.task 0).result = some (.ok oid))
    (h₁ : ∃ oid, (s.task 1).result = some (.ok oid)) (hidle : ∀ t, s.task (t + 2) = .idle) : s.Healthy := by
  intro t e
  match t with
  | 0 => rw [h₀.choose_spec]; simp
  | 1 => rw [h₁.choose_spec]; simp
  | t + 2 => rw [hidle t]; simp [CallPhase.result]

theorem calls_in_order_small :
    ∃ s, neighbours.run (.opened smallStorage) Action.orphaned = some s ∧
      s.InOrder neighbours (seedCommit 0) ∧ (s.working = [] → s.Agrees neighbours) := by
  obtain ⟨s, hs⟩ : ∃ s, neighbours.run (.opened smallStorage) Action.orphaned = some s := ⟨_, rfl⟩
  have hplain : ∀ t, PlainPath (neighbours.call t).relpath := by
    have h₀ : PlainPath ["a.md".toList] := ⟨by decide, by decide, by decide, by decide⟩
    have h₁ : PlainPath ["b".toList, "c.md".toList] := ⟨by decide, by decide, by decide, by decide⟩
    intro t
    cases t with
    | zero => exact h₀
    | succ t => exact h₁
  have hh : s.Healthy := healthy_of_two (by cases hs; exact ⟨_, rfl⟩) (by cases hs; exact ⟨_, rfl⟩)
    fun t => by cases hs; rfl
  exact ⟨s, hs, calls_in_order hplain rfl placed_keep hs hh⟩

/-- **Where a call goes wrong.** Two files that are one path in the tree: the
second commit takes the first one's place, and both files are on disk. And an
author line that cannot be read back: the worker panics over it once its file
is written, and makes no commit. -/
theorem calls_go_wrong :
    (∃ s, twins.run (.opened smallStorage) Action.orphaned = some s ∧
      s.Healthy ∧ s.working = [] ∧ ¬ s.Agrees twins) ∧
    ∃ s, unreadable.run (.opened smallStorage) ([.call 0, .grant, .start 0] ++ Action.workOff 0) = some s ∧
      s.started = [0] ∧ s.working = [] ∧ s.files.git = [seedCommit 0] ∧
      ¬ s.InOrder unreadable (seedCommit 0) := by
  refine ⟨?_, ?_⟩
  · obtain ⟨s, hs⟩ : ∃ s, twins.run (.opened smallStorage) Action.orphaned = some s := ⟨_, rfl⟩
    have hworking : s.working = [] := by cases hs; rfl
    have hh : s.Healthy := healthy_of_two (by cases hs; exact ⟨_, rfl⟩) (by cases hs; exact ⟨_, rfl⟩)
      fun t => by cases hs; rfl
    refine ⟨s, hs, hh, hworking, fun ha => ?_⟩
    have hone : s.files.disk.read (twins.wiki.root ++ (twins.call 0).relpath) =
        some (Text.utf8 "one".toList) := by cases hs; rfl
    have htwo : headBlob s.files.git (twins.call 0).relpath = some (Text.utf8 "two".toList) := by cases hs; rfl
    have hsame := ha 0 (by cases hs; exact List.mem_cons_self)
    rw [hone, htwo] at hsame
    exact absurd hsame (by decide)
  · obtain ⟨s, hs⟩ : ∃ s, unreadable.run (.opened smallStorage)
        ([.call 0, .grant, .start 0] ++ Action.workOff 0) = some s := ⟨_, rfl⟩
    have hgit : s.files.git = [seedCommit 0] := by cases hs; rfl
    have hstarted : s.started = [0] := by cases hs; rfl
    have hworking : s.working = [] := by cases hs; rfl
    refine ⟨s, hs, hstarted, hworking, hgit, fun hi => ?_⟩
    obtain ⟨commits, hc, -, ho, -⟩ := hi
    rw [hgit] at hc
    rw [hworking, hstarted] at ho
    cases commits with
    | nil => cases ho
    | cons x xs =>
      have := congrArg List.length hc
      simp at this

end Handle

end Wikikiki
