/-
An accepted write beside the stores in which it was accepted: what it has
changed so far, and what it leaves when it ends.

From its acceptance on nobody else touches the pages in them (`step_alone`), so
at each of its stages they are those of its acceptance with its own changes
(`Underway`). A write that fails behind its file stage leaves the file: no
stage takes back what an earlier one did (`failed_write_remains`).
-/
import Wikikiki.Confined
import Wikikiki.Trees

namespace Wikikiki

/-! ## The stores on the way -/

/-- The bytes of a page's file. -/
def Wiki.fileBytes (w : Wiki) (s : Stores) (p : Text) : Option Bytes := s.disk.read (filePath w.contentRoot p)

/-- A write at its stage in the stores `s`, if it was accepted in `b`. -/
structure Underway (v : Service) (b : Stores) (t : Nat) (stage : Stage) (s : Stores) : Prop where
  aims : stage.Aims v.wiki (v.req t).path
  grows : b.disk.Grows s.disk
  others : ∀ p, p ≠ (v.req t).path → v.wiki.fileBytes s p = v.wiki.fileBytes b p
  before : stage.rank < 5 → v.wiki.fileBytes s (v.req t).path = v.wiki.fileBytes b (v.req t).path
  file : 5 ≤ stage.rank → v.wiki.fileBytes s (v.req t).path = some (Text.utf8 (v.req t).content)
  head : ∀ rel parent, stage = .commit rel parent → parent = v.wiki.readHead s.git
  git : stage.rank < 7 → s.git = b.git
  landed : 7 ≤ stage.rank → ∃ c, s.git = c :: b.git ∧ v.wiki.ext.upsert (headTree b.git)
    (v.wiki.pageTree (v.req t).path) (Text.utf8 (v.req t).content) = some c.tree
  pages : s.db.pages = b.db.pages
  edits : s.db.pageEdits = b.db.pageEdits
  texts : s.db.pagesFts = b.db.pagesFts

section

variable {v : Service} {s s' : State} {b d d' : Stores} {a : Action} {t : Nat} {stage stage' : Stage} {p : Text}

theorem Underway.accepted (v : Service) (b : Stores) (t : Nat) : Underway v b t .checkLayer b where
  aims := trivial
  grows := Disk.Grows.refl _
  others _ _ := rfl
  before _ := rfl
  file h := absurd h (by simp [Stage.rank])
  head _ _ h := by cases h
  git _ := rfl
  landed h := absurd h (by simp [Stage.rank])
  pages := rfl
  edits := rfl
  texts := rfl

/-- A stage that changes no more than directories, before the file's. -/
theorem Underway.check (h : Underway v b t stage d) (ha : stage'.Aims v.wiki (v.req t).path)
    (hrank : stage'.rank < 5) (hlt : stage.rank < 5) (hg : d.disk.Grows d'.disk) (hr : d'.disk.read = d.disk.read)
    (hgit : d'.git = d.git) (hdb : d'.db = d.db) : Underway v b t stage' d' where
  aims := ha
  grows := h.grows.trans hg
  others p hp := (congrFun hr _).trans (h.others p hp)
  before _ := (congrFun hr _).trans (h.before hlt)
  file h₅ := absurd h₅ (by omega)
  head rel parent he := by subst he; simp [Stage.rank] at hrank
  git _ := hgit.trans (h.git (by omega))
  landed h₇ := absurd h₇ (by omega)
  pages := by rw [hdb, h.pages]
  edits := by rw [hdb, h.edits]
  texts := by rw [hdb, h.texts]

/-- The file is written. -/
theorem Underway.written {rel : PathBuf} {disk₁ disk : Disk} (h : Underway v b t (.writeFile rel) d)
    (hd : d.disk.createDirAll (v.wiki.root ++ rel).dropLast = some disk₁)
    (hw : disk₁.write (v.wiki.root ++ rel) (Text.utf8 (v.req t).content) = some disk) :
    Underway v b t (.readHead rel) { d with disk } := by
  have hfile : v.wiki.root ++ rel = filePath v.wiki.contentRoot (v.req t).path := by
    rw [h.aims.2, v.wiki.root_pageFile h.aims.1]
  have hdirs := Disk.towards_createDirAll hd (List.dropLast_prefix _)
  have hgrows := (hdirs.trans (Disk.towards_write hw)).grows
  have hothers : ∀ p, p ≠ (v.req t).path → v.wiki.fileBytes { d with disk } p = v.wiki.fileBytes b p := by
    intro p hp
    have hne : filePath v.wiki.contentRoot p ≠ v.wiki.root ++ rel := fun he =>
      hp (filePath_injective _ (he.trans hfile))
    rw [← h.others p hp]
    exact (Disk.read_write_other hw hne).trans (Disk.read_createDirAll hd _)
  exact {
    aims := h.aims
    grows := h.grows.trans hgrows
    others := hothers
    before := fun h₅ => absurd h₅ (by simp [Stage.rank])
    file := fun _ => by rw [Wiki.fileBytes, ← hfile]; exact Disk.read_write_self hw
    head := fun _ _ he => by cases he
    git := fun _ => h.git (by simp [Stage.rank])
    landed := fun h₇ => absurd h₇ (by simp [Stage.rank])
    pages := h.pages
    edits := h.edits
    texts := h.texts }

/-- HEAD moves. -/
theorem Underway.committed {rel : PathBuf} {parent : Option (Text × GitTree)} {c : Commit}
    (h : Underway v b t (.commit rel parent) d)
    (hc : v.wiki.Committed d.git parent rel (v.req t).content (v.req t).actorType (v.req t).actorHandle
      (v.req t).message c) :
    Underway v b t (.project (v.wiki.ext.commitId c)) { d with git := c :: d.git } := by
  have hgit := h.git (by simp [Stage.rank])
  have htree := hc.tree
  rw [h.head rel parent rfl, headTree_readHead, hgit, h.aims.2] at htree
  exact {
    aims := trivial
    grows := h.grows
    others := h.others
    before := fun h₅ => absurd h₅ (by simp [Stage.rank])
    file := fun _ => h.file (by simp [Stage.rank])
    head := fun _ _ he => by cases he
    git := fun h₇ => absurd h₇ (by simp [Stage.rank])
    landed := fun _ => ⟨c, by rw [hgit], htree⟩
    pages := h.pages
    edits := h.edits
    texts := h.texts }

/-- **A stage goes on.** -/
theorem Underway.go {i : Input} (h : Underway v b t stage d)
    (he : v.wiki.exec (v.req t) i stage d = (.go stage', d')) : Underway v b t stage' d' := by
  have heff := Wiki.exec_effect he
  have haims := heff.aims h.aims
  cases heff with
  | layer | actor | check _ =>
    exact h.check haims (by simp [Stage.rank]) (by simp [Stage.rank]) (Disk.Grows.refl _) rfl rfl rfl
  | root hd hr =>
    exact h.check haims (by simp [Stage.rank]) (by simp [Stage.rank])
      (Disk.towards_createDirAll hd List.prefix_rfl).grows (funext (Disk.read_createDirAll hd)) rfl rfl
  | file hd hw => exact h.written hd hw
  | head =>
    exact { h with
      aims := haims
      before := fun h₅ => absurd h₅ (by simp [Stage.rank])
      file := fun _ => h.file (by simp [Stage.rank])
      head := fun _ _ he => by cases he; rfl
      git := fun _ => h.git (by simp [Stage.rank])
      landed := fun h₇ => absurd h₇ (by simp [Stage.rank]) }
  | commit hc => exact h.committed hc

/-- An administrator changes no page. -/
theorem Underway.admin (h : Underway v b t stage d) (layers : List LayerRow) (actors : Table ActorRow) :
    Underway v b t stage { d with db := { d.db with layers, actors } } :=
  ⟨h.aims, h.grows, h.others, h.before, h.file, h.head, h.git, h.landed, h.pages, h.edits, h.texts⟩

/-! ## Runs -/

/-- What has ended stays so. -/
theorem Moves.outcome_ne_none (hm : Moves v s s' a) (h : (s.task t).outcome ≠ none) :
    (s'.task t).outcome ≠ none := by
  cases hm with
  | quiet _ _ _ hout => rwa [hout]
  | admin _ _ _ _ htask _ => rwa [htask]
  | accepted u hu _ htask _ =>
    rwa [htask, Function.update_of_ne (by rintro rfl; rw [hu] at h; exact h rfl)]
  | worked u st n hu _ htask _ =>
    rwa [htask, Function.update_of_ne (by rintro rfl; rw [hu] at h; exact h rfl)]

/-- A write that was accepted has ended, or is at a stage where `P` holds of
the stores. -/
def Accepted (t : Nat) (P : Stage → Stores → Prop) (s : State) : Prop :=
  (s.task t).outcome ≠ none ∨ ∃ stage, s.task t = .running stage ∧ P stage s.stores

theorem step_accepted {P : Stage → Stores → Prop}
    (hgo : ∀ {i stage stage' d d'}, v.wiki.exec (v.req t) i stage d = (.go stage', d') → P stage d → P stage' d')
    (hadmin : ∀ {stage} layers actors, a = .admin layers actors → P stage s.stores →
      P stage { s.stores with db := { s.stores.db with layers, actors } })
    (hs : Serving v s) (hstep : step v s a = some s') (h : Accepted t P s) : Accepted t P s' := by
  rcases h with hout | ⟨stage, ht, h⟩
  · exact .inl ((step_moves hs.locked hstep).outcome_ne_none hout)
  · cases step_alone hs ht hstep with
    | still hstores htask => exact .inr ⟨stage, htask, hstores ▸ h⟩
    | admin layers actors ha hstores htask =>
      exact .inr ⟨stage, htask, hstores ▸ hadmin layers actors ha h⟩
    | worked i n _ he htask =>
      cases n with
      | go stage' => exact .inr ⟨stage', htask, hgo he h⟩
      | stop o => exact .inl (by rw [htask]; simp [Next.phase, Phase.outcome])
    | failed e l disk _ _ htask => exact .inl (by rw [htask]; simp [Phase.outcome])

end

/-- A run from `start` in which the write is accepted in `s₁` and ends, with
the outcome `o`, in its last step, from `s₂` to `s`. -/
structure Ending (v : Service) (start : State) (as : List Action) (t : Nat) (s₁ s₂ s : State) (o : Outcome) :
    Prop where
  run : ∃ as₁ as₂ a, as = as₁ ++ .accept t :: as₂ ++ [a] ∧ v.run start as₁ = some s₁ ∧
    v.run s₁ (.accept t :: as₂) = some s₂ ∧ step v s₂ a = some s
  before : (s₂.task t).outcome = none
  after : (s.task t).outcome = some o

section

variable {v : Service} {stores : Stores} {as : List Action} {t : Nat} {s₁ s₂ s : State} {o : Outcome}

theorem Ending.valid (h : Ending v (.opened stores) as t s₁ s₂ s o) : validatePath (v.req t).path = .ok () := by
  obtain ⟨as₁, as₂, a, -, h₁, h₂, -⟩ := h.run
  obtain ⟨s₁', haccept, -⟩ := Run.run_cons.1 h₂
  cases step_cases haccept with
  | accepted ht => exact ((Serving.opened v stores).run h₁).locked.valid t (.inr ht)

/-- The write is at a stage when it ends; and what its stages keep, beside
administrators who meet `R`, holds there. -/
theorem Ending.running {R : State → Action → Prop} {P : Stage → Stores → Prop}
    (h : Ending v (.opened stores) as t s₁ s₂ s o) (hR : Run.Every (step v) R (.opened stores) as)
    (h₀ : P .checkLayer s₁.stores)
    (hgo : ∀ {i stage stage' d d'}, v.wiki.exec (v.req t) i stage d = (.go stage', d') → P stage d → P stage' d')
    (hadmin : ∀ {s stage} layers actors, R s (.admin layers actors) → P stage s.stores →
      P stage { s.stores with db := { s.stores.db with layers, actors } }) :
    ∃ stage, s₂.task t = .running stage ∧ P stage s₂.stores ∧ Serving v s₂ := by
  obtain ⟨as₁, as₂, a, rfl, h₁, h₂, -⟩ := h.run
  have hR₂ : Run.Every (step v) R s₁ (.accept t :: as₂) := hR.part h₁
  obtain ⟨s₁', haccept, h₂⟩ := Run.run_cons.1 h₂
  have hs₁ := ((Serving.opened v stores).run h₁).step haccept
  have hstart : Accepted t P s₁' := by
    cases step_cases haccept with
    | accepted _ => exact .inr ⟨.checkLayer, by simp [State.setTask], h₀⟩
  have hend : Serving v s₂ ∧ Accepted t P s₂ := by
    refine Run.Every.invariant (I := fun s => Serving v s ∧ Accepted t P s) (fun hRa hstep hI => ?_)
      ((Run.every_cons haccept).1 hR₂).2 h₂ ⟨hs₁, hstart⟩
    refine ⟨hI.1.step hstep, step_accepted hgo (fun layers actors ha => ?_) hI.1 hstep hI.2⟩
    exact hadmin layers actors (ha ▸ hRa)
  obtain ⟨hs₂, hout | ⟨stage, ht, hP⟩⟩ := hend
  · exact absurd h.before hout
  · exact ⟨stage, ht, hP, hs₂⟩

theorem Ending.underway (h : Ending v (.opened stores) as t s₁ s₂ s o) :
    ∃ stage, s₂.task t = .running stage ∧ Underway v s₁.stores t stage s₂.stores ∧ Serving v s₂ :=
  h.running (R := fun _ _ => True) (fun _ _ _ _ _ _ => trivial) (Underway.accepted v s₁.stores t)
    (fun he h => h.go he) fun layers actors _ h => h.admin layers actors

/-! ## What a failed write leaves -/

/-- What a write leaves in the stores `s` that was accepted in `b` and has
failed at the stage, before HEAD moved. -/
structure Remains (v : Service) (b : Stores) (t : Nat) (stage : Stage) (s : Stores) : Prop where
  unwritten : stage.rank < 4 → v.wiki.fileBytes s (v.req t).path = v.wiki.fileBytes b (v.req t).path
  written : 4 < stage.rank → v.wiki.fileBytes s (v.req t).path = some (Text.utf8 (v.req t).content)
  others : ∀ p, p ≠ (v.req t).path → v.wiki.fileBytes s p = v.wiki.fileBytes b p
  pages : s.db.pages = b.db.pages
  edits : s.db.pageEdits = b.db.pageEdits
  texts : s.db.pagesFts = b.db.pagesFts
  read : 4 < stage.rank → ∀ id row said, b.db.findPage (v.req t).path = some (id, row) →
    v.wiki.read s (v.req t).path said = .ok ⟨s.db.pageMeta id row, (v.req t).content⟩

/-- A stage that fails changes no file but its own, and no other store. -/
structure Fails (v : Service) (t : Nat) (stage : Stage) (s s' : Stores) : Prop where
  read : stage.rank ≠ 4 → s'.disk.read = s.disk.read
  others : ∀ p, p ≠ (v.req t).path → v.wiki.fileBytes s' p = v.wiki.fileBytes s p
  git : s'.git = s.git
  db : s'.db = s.db

theorem Alone.fails {a : Action} {stage stage' : Stage} {e : AppError} (h : Alone v s₂ s a t stage)
    (ha : stage.Aims v.wiki (v.req t).path) (hout : (s.task t).outcome = some (.failed stage' e)) :
    stage' = stage ∧ Fails v t stage s₂.stores s.stores := by
  cases h with
  | still _ htask => rw [htask] at hout; cases hout
  | admin _ _ _ _ htask => rw [htask] at hout; cases hout
  | worked i n _ he htask =>
    rw [htask] at hout
    cases n with
    | go _ => cases hout
    | stop o =>
      cases hout
      have hread : s.stores.disk.read = s₂.stores.disk.read := by
        rcases Wiki.exec_read he with hr | ⟨_, _, _, hgo, -⟩
        · exact hr
        · cases hgo
      cases hs : s.stores with
      | mk disk git db =>
        rw [hs] at he hread
        cases Wiki.exec_effect he with
        | failed _ _ => exact ⟨rfl, fun _ => hread, fun p _ => congrFun hread _, rfl, rfl⟩
  | failed e' l disk hl hstores htask =>
    rw [htask] at hout
    cases hout
    rw [hstores]
    rcases Wiki.leave_read hl with hr | ⟨rel, data, d₁, rfl, rfl, hd, hw⟩
    · exact ⟨rfl, fun _ => hr, fun p _ => congrFun hr _, rfl, rfl⟩
    · refine ⟨rfl, fun h₄ => absurd rfl h₄, fun p hp => ?_, rfl, rfl⟩
      have hne : filePath v.wiki.contentRoot p ≠ v.wiki.root ++ rel := by
        rw [ha.2, v.wiki.root_pageFile ha.1]
        exact fun he => hp (filePath_injective _ he)
      exact (Disk.read_write_other hw hne).trans (Disk.read_createDirAll hd _)

/-- **What a failed write leaves.** When an accepted write fails and HEAD is
where it was, the file is where the write left it: as it was, as long as the
file stage was not reached, and with the submitted content behind it. All
else is as it was, so a read answers with the row of before. -/
theorem failed_write_remains {stage : Stage} {e : AppError}
    (h : Ending v (.opened stores) as t s₁ s₂ s (.failed stage e)) (hhead : s.stores.git = s₁.stores.git) :
    Remains v s₁.stores t stage s.stores := by
  obtain ⟨stage', ht, hu, hs₂⟩ := h.underway
  obtain ⟨-, -, a, -, -, -, hstep⟩ := h.run
  obtain ⟨rfl, hf⟩ := (step_alone hs₂ ht hstep).fails hu.aims h.after
  have hlt : stage.rank < 7 := by
    by_contra hge
    obtain ⟨c, hgit, -⟩ := hu.landed (by omega)
    rw [hf.git, hgit] at hhead
    exact List.cons_ne_self _ _ hhead
  have hwritten : 4 < stage.rank →
      v.wiki.fileBytes s.stores (v.req t).path = some (Text.utf8 (v.req t).content) := fun h₅ =>
    (congrFun (hf.read (by omega)) _).trans (hu.file h₅)
  refine ⟨fun h₄ => ?_, hwritten, fun p hp => (hf.others p hp).trans (hu.others p hp), ?_, ?_, ?_, ?_⟩
  · exact (congrFun (hf.read (by omega)) _).trans (hu.before (by omega))
  · rw [hf.db, hu.pages]
  · rw [hf.db, hu.edits]
  · rw [hf.db, hu.texts]
  · intro h₅ id row said hfind
    have hfind' : s.stores.db.findPage (v.req t).path = some (id, row) := by
      rw [Db.findPage, hf.db, hu.pages]
      exact hfind
    have hmeta : s.stores.db.readMeta (v.req t).path = some (s.stores.db.pageMeta id row) := by
      rw [Db.readMeta, hfind', Option.map_some]
    have hcontent := Disk.readToString_of_read (hwritten h₅)
    simp only [Wiki.read, h.valid, hmeta, hcontent]

end

/-- The page `notes` is changed from `one` to `two`, and the commit fails. -/
theorem commit_fails_small :
    ∃ as s₁ s₂ s stage e, Ending Service.small (.opened (.small none)) as 1 s₁ s₂ s (.failed stage e) ∧
      4 < stage.rank ∧ s.stores.git = s₁.stores.git ∧
      Wiki.small.fileBytes s₁.stores "notes".toList = some (Text.utf8 "one".toList) ∧
      Wiki.small.fileBytes s.stores "notes".toList = some (Text.utf8 "two".toList) ∧
      ∃ info, Wiki.small.read s.stores "notes".toList [] = .ok ⟨info, "two".toList⟩ ∧
        info.revision = some (Wiki.small.contentHash "one".toList) ∧
        info.lastEditHandle = some "alice".toList := by
  obtain ⟨s₁, hs₁⟩ : ∃ s₁, Service.small.run (.opened (.small none))
      (Action.serve 0 ++ [.call 1, .grant]) = some s₁ := ⟨_, rfl⟩
  obtain ⟨s₂, hs₂⟩ : ∃ s₂, Service.small.run s₁
      (.accept 1 :: List.replicate 6 (.advance 1 ⟨2, []⟩)) = some s₂ := by
    cases hs₁; exact ⟨_, rfl⟩
  obtain ⟨s, hs⟩ : ∃ s, step Service.small s₂ (.fail 1 (.internal []) .nothing) = some s := by
    cases hs₁; cases hs₂; exact ⟨_, rfl⟩
  obtain ⟨stage, hout, hrank⟩ : ∃ stage, (s.task 1).outcome = some (.failed stage (.internal [])) ∧
      4 < stage.rank := by
    cases hs₁; cases hs₂; cases hs; exact ⟨_, rfl, by decide⟩
  obtain ⟨info, hinfo⟩ : ∃ info, Wiki.small.read s.stores "notes".toList [] = .ok ⟨info, "two".toList⟩ ∧
      info.revision = some (Wiki.small.contentHash "one".toList) ∧
      info.lastEditHandle = some "alice".toList := by
    cases hs₁; cases hs₂; cases hs; exact ⟨_, rfl, rfl, rfl⟩
  refine ⟨_, s₁, s₂, s, stage, _,
    ⟨⟨Action.serve 0 ++ [.call 1, .grant], _, _, rfl, hs₁, hs₂, hs⟩, ?_, hout⟩, hrank, ?_, ?_, ?_, info, hinfo⟩
  all_goals cases hs₁; cases hs₂; cases hs; rfl

theorem failed_write_remains_small :
    ∃ as s₁ s₂ s stage e, Ending Service.small (.opened (.small none)) as 1 s₁ s₂ s (.failed stage e) ∧
      4 < stage.rank ∧ s.stores.git = s₁.stores.git ∧ Remains Service.small s₁.stores 1 stage s.stores := by
  obtain ⟨as, s₁, s₂, s, stage, e, hend, hrank, hgit, -⟩ := commit_fails_small
  exact ⟨as, s₁, s₂, s, stage, e, hend, hrank, hgit, failed_write_remains hend hgit⟩

/-- **A failed save is served.** A page below `.git` gets its file although
the tree editor refuses the path; and a page whose commit fails is read with
its new content under the revision of the old one. -/
theorem failed_save_served :
    (∃ as s₁ s₂ s stage e, Ending Service.intruder (.opened (.small none)) as 0 s₁ s₂ s (.failed stage e) ∧
      4 < stage.rank ∧ s.stores.git = s₁.stores.git ∧
      Wiki.small.fileBytes s₁.stores ".git/refs/heads/main".toList = none ∧
      Wiki.small.fileBytes s.stores ".git/refs/heads/main".toList = some (Text.utf8 "one".toList)) ∧
    ∃ as s₁ s₂ s stage e, Ending Service.small (.opened (.small none)) as 1 s₁ s₂ s (.failed stage e) ∧
      4 < stage.rank ∧ s.stores.git = s₁.stores.git ∧
      Wiki.small.fileBytes s₁.stores "notes".toList = some (Text.utf8 "one".toList) ∧
      Wiki.small.fileBytes s.stores "notes".toList = some (Text.utf8 "two".toList) ∧
      ∃ info, Wiki.small.read s.stores "notes".toList [] = .ok ⟨info, "two".toList⟩ ∧
        info.revision = some (Wiki.small.contentHash "one".toList) ∧
        info.lastEditHandle = some "alice".toList := by
  refine ⟨?_, commit_fails_small⟩
  obtain ⟨s₁, hs₁⟩ : ∃ s₁, Service.intruder.run (.opened (.small none)) [.call 0, .grant] = some s₁ := ⟨_, rfl⟩
  obtain ⟨s₂, hs₂⟩ : ∃ s₂, Service.intruder.run s₁ (.accept 0 :: List.replicate 6 (.advance 0 ⟨1, []⟩)) =
      some s₂ := by
    cases hs₁; exact ⟨_, rfl⟩
  obtain ⟨s, hs⟩ : ∃ s, step Service.intruder s₂ (.advance 0 ⟨1, []⟩) = some s := by
    cases hs₁; cases hs₂; exact ⟨_, rfl⟩
  obtain ⟨stage, e, hout, hrank⟩ : ∃ stage e, (s.task 0).outcome = some (.failed stage e) ∧ 4 < stage.rank := by
    cases hs₁; cases hs₂; cases hs; exact ⟨_, _, rfl, by decide⟩
  refine ⟨_, s₁, s₂, s, stage, e, ⟨⟨[.call 0, .grant], _, _, rfl, hs₁, hs₂, hs⟩, ?_, hout⟩, hrank, ?_, ?_, ?_⟩
  all_goals cases hs₁; cases hs₂; cases hs; rfl

end Wikikiki
