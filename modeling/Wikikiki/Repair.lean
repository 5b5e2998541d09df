/-
What a write that succeeded has done: its page is whole again, and no other
page was touched (`write_repairs`).

The stores may be what any history of failures has left (`Wiki.Reached`). All
that is known of them is that a page in HEAD has its file in its place
(`Wiki.Backed`); so no two pages in HEAD are one below the other, and the
commit of one takes nothing from another.
-/
import Wikikiki.PageHistory
import Wikikiki.Underway

namespace Wikikiki

/-! ## What HEAD is backed by -/

/-- The stores that page writes bring about, in a repository that was new,
however often the service is started again on what it left. -/
inductive Wiki.Reached (w : Wiki) : Stores → Prop
  | new {s time} (hgit : s.git = [seedCommit time]) : Reached w s
  | run {v : Service} {stores : Stores} {as : List Action} {s : State} (hw : v.wiki = w)
      (h : Reached w stores) (hr : v.run (.opened stores) as = some s) : Reached w s.stores

/-- Every page in HEAD has its file on disk, whatever is in it. -/
def Wiki.Backed (w : Wiki) (s : Stores) : Prop :=
  ∀ p, validatePath p = .ok () → headBlob s.git (w.pageFile p) ≠ none → s.disk.Placed (filePath w.contentRoot p)

section

variable {w : Wiki} {v : Service} {start l l' : Ledger} {tree tree' : GitTree} {data : Bytes} {p q : Text}

/-- Where a page was put into the tree, the others that are in it are neither
above it nor below it. -/
theorem Wiki.apart_of_lookup (hput : w.ext.upsert tree (w.pageTree q) data = some tree')
    (hp : validatePath p = .ok ()) (hq : validatePath q = .ok ()) (hne : p ≠ q)
    (hblob : Tree.lookup tree' (w.pageTree p) ≠ none) : w.Apart q p := by
  have hself := w.ext.upsert_self hput
  have htree : w.pageTree p ≠ w.pageTree q := fun he => hne (pageTree_injective hp hq he)
  exact ⟨fun hpre => hblob (Tree.lookup_below hself hpre htree.symm),
    fun hpre => hblob (Tree.lookup_above hself hpre htree)⟩

/-- A page keeps its blob where another one is put, if the two are apart as
long as it has one. -/
theorem Wiki.lookup_other (hput : w.ext.upsert tree (w.pageTree q) data = some tree')
    (hp : validatePath p = .ok ()) (hq : validatePath q = .ok ()) (hne : p ≠ q)
    (hback : Tree.lookup tree (w.pageTree p) ≠ none → w.Apart q p) :
    Tree.lookup tree' (w.pageTree p) = Tree.lookup tree (w.pageTree p) := by
  by_cases hap : w.Apart q p
  · exact w.ext.upsert_other hput hap.1 hap.2
  · have hold : Tree.lookup tree (w.pageTree p) = none := by
      by_contra hsome
      exact hap (hback hsome)
    have hnew : Tree.lookup tree' (w.pageTree p) = none := by
      by_contra hsome
      exact hap (apart_of_lookup hput hp hq hne hsome)
    rw [hold, hnew]

theorem Ledger.Step.grows (hstep : Step v l l') (ha : l.Aimed v) : l.stores.disk.Grows l'.stores.disk := by
  cases hstep with
  | start _ _ | admin _ _ => exact Disk.Grows.refl _
  | go he | stop he => exact (he.towards (ha _ _ rfl).2).grows

theorem Ledger.Step.backed {commits recorded : List (Nat × Commit)} (hstep : Step v l l') (ha : l.Aimed v)
    (hh : History v start l commits recorded) (hc : Contents v start l') (h : v.wiki.Backed l.stores) :
    v.wiki.Backed l'.stores := by
  have hgrows := hstep.grows ha
  intro p hp hblob
  rcases hstep.git_cases with ⟨hgit, -⟩ | ⟨t, rel, parent, c, hcur, hgit, hlanded, hcom⟩
  · rw [hgit] at hblob
    exact (h p hp hblob).grows hgrows
  · obtain ⟨hv, haims⟩ := ha _ _ hcur
    by_cases hpt : p = (v.req t).path
    · have hland : t ∈ l'.landed := by rw [hlanded]; simp
      rw [hpt]
      exact (hc.placed t (mem_reached_of_le (by omega) hland)).2.2
    · have htree := hcom.tree
      rw [hh.git.head _ _ _ hcur, headTree_readHead, haims.2] at htree
      rw [hgit] at hblob
      have hap := Wiki.apart_of_lookup htree hp hv hpt hblob
      refine (h p hp ?_).grows hgrows
      rw [headBlob_eq]
      exact (v.wiki.ext.upsert_other htree hap.1 hap.2) ▸ hblob

theorem Ledger.Steps.backed (h : Steps v l l') (hl : l.Opened) (hb : v.wiki.Backed l.stores) :
    v.wiki.Backed l'.stores := by
  induction h with
  | refl => exact hb
  | tail hs hstep ih =>
    obtain ⟨commits, recorded, hh⟩ := Steps.history hs hl
    exact hstep.backed (Steps.aimed hs hl.aimed) hh (Steps.contents (hs.tail hstep) hl) ih

theorem Wiki.Reached.backed {s : Stores} (h : w.Reached s) : w.Backed s := by
  induction h with
  | new hgit =>
    intro p hp hblob
    rw [hgit] at hblob
    exact absurd (headBlob_seed hp w _) hblob
  | run hw _ hr ih =>
    subst hw
    exact ((Serving.opened _ _).steps hr).backed ⟨rfl, rfl⟩ ih

end

/-! ## What the database shows of a page -/

/-- The rows of `page_edits` for the page. -/
def Db.editsOf (db : Db) (p : Text) : List (Int × EditRow) :=
  match db.findPage p with
  | some (id, _) => db.pageEdits.rows.filter fun e => e.2.pageId = id
  | none => []

/-- The row of `pages_fts` for the page. -/
def Db.textOf (db : Db) (p : Text) : Option FtsRow := (db.findPage p).bind fun q => db.pagesFts.get q.1

/-- The actor that the database has is the one that the request names. -/
def Db.Signed (db : Db) (req : WriteRequest) : Prop :=
  ∃ r, db.actors.get req.actorId = some r ∧ r.actorType = req.actorType ∧ r.handle = req.actorHandle

section

variable {w : Wiki} {req : WriteRequest} {db db' : Db} {title hash oid p : Text} {id : Int} {i : Input}
  {s s' : Stores} {stage stage' : Stage}

/-- The row of the page after the transaction has its time, too. -/
theorem Db.findPage_project (db : Db) (req : WriteRequest) (title hash oid : Text) (now : Int) :
    ∃ at₀, (db.project req title hash oid now).2.findPage req.path =
      some ((db.project req title hash oid now).1, req.row title hash at₀ now) := by
  obtain ⟨⟨at₀, hp⟩, -⟩ := db.upsertPage_spec req title hash now
  exact ⟨at₀, Db.findPage_eq_some.2 ⟨(hp _ _).2 (.inl ⟨rfl, rfl⟩), rfl⟩⟩

theorem Db.Projected.textOf_self (h : db.Projected req title hash oid id db') :
    db'.textOf req.path = some { title, content := req.content, path := req.path } := by
  obtain ⟨at₀, now, hf⟩ := h.findPage_self
  rw [Db.textOf, hf, Option.bind_some, Table.get_eq_some]
  exact (h.fts _ _).2 (.inl ⟨rfl, rfl⟩)

/-- Another page is not the row that the transaction is about. -/
theorem Db.Projected.id_ne (h : db.Projected req title hash oid id db') (hne : p ≠ req.path) {j : Int}
    {row : PageRow} (hf : db.findPage p = some (j, row)) : j ≠ id := by
  obtain ⟨hm, hp⟩ := Db.findPage_eq_some.1 hf
  exact fun he => hne (hp.symm.trans ((h.page j row hm).1 he))

theorem Db.Projected.editsOf_other (h : db.Projected req title hash oid id db') (hne : p ≠ req.path) :
    db'.editsOf p = db.editsOf p := by
  obtain ⟨now, hedits⟩ := h.edits
  unfold Db.editsOf
  rw [h.findPage_other hne]
  cases hf : db.findPage p with
  | none => rfl
  | some q =>
    have hid := h.id_ne hne hf
    simp [hedits, WriteRequest.edit, Ne.symm hid]

theorem Db.Projected.textOf_other (h : db.Projected req title hash oid id db') (hne : p ≠ req.path) :
    db'.textOf p = db.textOf p := by
  unfold Db.textOf
  rw [h.findPage_other hne]
  cases hf : db.findPage p with
  | none => rfl
  | some q =>
    have hid := h.id_ne hne hf
    refine Option.ext fun f => ?_
    simp only [Option.bind_some, Table.get_eq_some, h.fts]
    simp [hid]

/-! ## The last stage -/

/-- The one stage that ends a write with success is the transaction. -/
theorem Wiki.exec_done {info : PageMeta} (h : w.exec req i stage s = (.stop (.done info), s')) :
    ∃ oid id, stage = .project oid ∧
      s.db.project req (deriveTitle req.content req.path) (w.contentHash req.content) oid i.now = (id, s'.db) ∧
      s'.disk = s.disk ∧ s'.git = s.git ∧
      info = { id, path := req.path, layer := req.layer, title := deriveTitle req.content req.path,
               lastEditAt := some i.now, lastEditBy := some req.actorId, lastEditHandle := some req.actorHandle,
               lastEditType := some req.actorType, revision := some (w.contentHash req.content) } := by
  cases stage with
  | project oid =>
    simp only [exec] at h
    cases h
    exact ⟨oid, _, rfl, rfl, rfl, rfl, rfl⟩
  | _ => simp only [exec] at h; (repeat' split at h) <;> cases h

/-- The check of the actor is what the other stages are behind of. -/
theorem Wiki.exec_signed (h : w.exec req i stage s = (.go stage', s'))
    (hs : 2 ≤ stage.rank → s.db.Signed req) : 2 ≤ stage'.rank → s'.db.Signed req := by
  intro h₂
  have heff := exec_effect h
  cases heff with
  | layer => simp [Stage.rank] at h₂
  | actor =>
    simp only [exec] at h
    split at h
    next hok =>
      obtain ⟨-, hf⟩ := (checkActor_spec s.db req).resolve_right fun hbad => by
        obtain ⟨-, e, he, -⟩ := hbad
        rw [hok] at he
        cases he
      obtain ⟨a, ha, -, htype, hhandle⟩ := Decidable.not_not.1 hf
      obtain ⟨r, hr, rfl⟩ := Option.map_eq_some_iff.1 ha
      exact ⟨r, hr, htype, hhandle⟩
    · cases h
  | _ => exact hs (by simp [Stage.rank])

end

/-! ## Pages that are whole -/

/-- Everything about the page says what the write has said, and `read_meta`
answers what the write did. -/
structure Whole (w : Wiki) (s : Stores) (req : WriteRequest) (info : PageMeta) : Prop where
  file : w.fileBytes s req.path = some (Text.utf8 req.content)
  head : headBlob s.git (w.pageFile req.path) = some (Text.utf8 req.content)
  text : ∃ f, s.db.textOf req.path = some f ∧ f.content = req.content
  row : ∃ row, s.db.findPage req.path = some (info.id, row) ∧
    row.contentHash = some (w.contentHash req.content) ∧ row.title = deriveTitle req.content req.path
  info : s.db.readMeta req.path = some info

/-- Nothing about the page has changed. -/
structure Unchanged (w : Wiki) (b s : Stores) (p : Text) : Prop where
  file : w.fileBytes s p = w.fileBytes b p
  head : headBlob s.git (w.pageFile p) = headBlob b.git (w.pageFile p)
  row : s.db.findPage p = b.db.findPage p
  edits : s.db.editsOf p = b.db.editsOf p
  text : s.db.textOf p = b.db.textOf p

/-- Nobody renames an actor or takes one away, as no statement of the service
does. -/
def KeepsActors (s : State) : Action → Prop
  | .admin _ actors => ∀ id r, s.stores.db.actors.get id = some r →
    ∃ r', actors.get id = some r' ∧ r'.actorType = r.actorType ∧ r'.handle = r.handle
  | _ => True

section

variable {v : Service} {stores : Stores} {as : List Action} {t : Nat} {s₁ s₂ s : State} {o : Outcome}
  {info : PageMeta}

/-- Nobody administers the actors at all. -/
theorem every_keepsActors {start : State} (h : ∀ layers actors, .admin layers actors ∉ as) :
    Run.Every (step v) KeepsActors start as := by
  intro pre a post s' hsplit _
  cases a with
  | admin layers actors => exact absurd (by rw [hsplit]; simp) (h layers actors)
  | _ => trivial

theorem Ending.signed (h : Ending v (.opened stores) as t s₁ s₂ s o)
    (hkeep : Run.Every (step v) KeepsActors (.opened stores) as) :
    ∃ stage, s₂.task t = .running stage ∧ (2 ≤ stage.rank → s₂.stores.db.Signed (v.req t)) := by
  obtain ⟨stage, ht, hs, -⟩ := h.running (P := fun stage d => 2 ≤ stage.rank → d.db.Signed (v.req t)) hkeep
    (fun h₂ => absurd h₂ (by simp [Stage.rank])) (fun he hs => Wiki.exec_signed he hs)
    fun layers actors hk hs h₂ => by
      obtain ⟨r, hr, htype, hhandle⟩ := hs h₂
      obtain ⟨r', hr', htype', hhandle'⟩ := hk _ _ hr
      exact ⟨r', hr', htype'.trans htype, hhandle'.trans hhandle⟩
  exact ⟨stage, ht, hs⟩

/-- The transaction of a write that succeeds, from the stores `s₂` to the
stores `s`. -/
structure Projects (v : Service) (t : Nat) (s₂ s : Stores) (info : PageMeta) : Prop where
  disk : s.disk = s₂.disk
  git : s.git = s₂.git
  db : ∃ oid, s₂.db.Projected (v.req t) (deriveTitle (v.req t).content (v.req t).path)
    (v.wiki.contentHash (v.req t).content) oid info.id s.db
  row : ∃ at₀ now, s.db.findPage (v.req t).path = some (info.id, (v.req t).row
      (deriveTitle (v.req t).content (v.req t).path) (v.wiki.contentHash (v.req t).content) at₀ now) ∧
    info = { id := info.id, path := (v.req t).path, layer := (v.req t).layer,
             title := deriveTitle (v.req t).content (v.req t).path, lastEditAt := some now,
             lastEditBy := some (v.req t).actorId, lastEditHandle := some (v.req t).actorHandle,
             lastEditType := some (v.req t).actorType,
             revision := some (v.wiki.contentHash (v.req t).content) }

theorem Ending.projects (h : Ending v (.opened stores) as t s₁ s₂ s (.done info)) :
    (∃ oid, s₂.task t = .running (.project oid)) ∧ Projects v t s₂.stores s.stores info := by
  obtain ⟨stage, ht, -, hs₂⟩ := h.underway
  obtain ⟨as₁, as₂, a, -, -, -, hstep⟩ := h.run
  have hafter := h.after
  cases step_alone hs₂ ht hstep with
  | still _ htask | admin _ _ _ _ htask | failed _ _ _ _ _ htask => rw [htask] at hafter; cases hafter
  | worked i n _ he htask =>
    rw [htask] at hafter
    cases n with
    | go _ => cases hafter
    | stop o =>
      cases hafter
      obtain ⟨oid, id, rfl, hproject, hdisk, hgit, rfl⟩ := Wiki.exec_done he
      have hspec := s₂.stores.db.project_spec (v.req t) (deriveTitle (v.req t).content (v.req t).path)
        (v.wiki.contentHash (v.req t).content) oid i.now
      obtain ⟨at₀, hrow⟩ := s₂.stores.db.findPage_project (v.req t)
        (deriveTitle (v.req t).content (v.req t).path) (v.wiki.contentHash (v.req t).content) oid i.now
      rw [hproject] at hspec hrow
      exact ⟨⟨oid, ht⟩, hdisk, hgit, ⟨oid, hspec⟩, at₀, i.now, hrow, rfl⟩

/-- The commit that a write has landed leaves the other pages in HEAD as they
were. -/
theorem Underway.headBlob_other {b d : Stores} {stage : Stage} {p : Text} (hu : Underway v b t stage d)
    (h₇ : 7 ≤ stage.rank) (hback : v.wiki.Backed b) (hroot : v.wiki.root <+: v.wiki.contentRoot)
    (hplaced : d.disk.Placed (filePath v.wiki.contentRoot (v.req t).path))
    (hv : validatePath (v.req t).path = .ok ()) (hp : validatePath p = .ok ()) (hne : p ≠ (v.req t).path) :
    headBlob d.git (v.wiki.pageFile p) = headBlob b.git (v.wiki.pageFile p) := by
  obtain ⟨c, hgit, hput⟩ := hu.landed h₇
  rw [hgit, headBlob_eq b.git]
  refine Wiki.lookup_other hput hp hv hne fun hblob => ?_
  have hold := (hback p hp (by rwa [headBlob_eq])).grows hu.grows
  exact Wiki.apart_of_placed hroot hv hp hplaced hold (Ne.symm hne)

theorem Ending.whole (hkeep : Run.Every (step v) KeepsActors (.opened stores) as)
    (h : Ending v (.opened stores) as t s₁ s₂ s (.done info)) : Whole v.wiki s.stores (v.req t) info := by
  obtain ⟨⟨oid, ht⟩, hp⟩ := h.projects
  obtain ⟨stage, ht', hu, -⟩ := h.underway
  cases ht.symm.trans ht'
  obtain ⟨stage, ht', hsigned⟩ := h.signed hkeep
  cases ht.symm.trans ht'
  obtain ⟨oid', hdb⟩ := hp.db
  obtain ⟨at₀, now, hrow, hinfo⟩ := hp.row
  refine ⟨?_, ?_, ⟨_, hdb.textOf_self, rfl⟩, ⟨_, hrow, rfl, rfl⟩, ?_⟩
  · rw [Wiki.fileBytes, hp.disk]
    exact hu.file (by simp [Stage.rank])
  · obtain ⟨c, hc, hput⟩ := hu.landed (Nat.le_refl 7)
    rw [hp.git, hc]
    exact v.wiki.ext.upsert_self hput
  · obtain ⟨r, hr, htype, hhandle⟩ := hsigned (by simp [Stage.rank])
    rw [Db.readMeta, hrow, hinfo]
    simp [Db.pageMeta, WriteRequest.row, hdb.actors, hr, htype, hhandle]

theorem Ending.unchanged (hreach : v.wiki.Reached stores)
    (h : Ending v (.opened stores) as t s₁ s₂ s (.done info)) {p : Text} (hv : validatePath p = .ok ())
    (hne : p ≠ (v.req t).path) : Unchanged v.wiki s₁.stores s.stores p := by
  obtain ⟨⟨oid, ht⟩, hp⟩ := h.projects
  obtain ⟨stage, ht', hu, hs₂⟩ := h.underway
  cases ht.symm.trans ht'
  obtain ⟨oid', hdb⟩ := hp.db
  obtain ⟨as₁, as₂, a, -, h₁, h₂, -⟩ := h.run
  have hfiled : t ∈ s₂.ledger.filed := by
    rw [Ledger.filed, hs₂.ordered.mem_reached]
    exact .inl ⟨_, ht, by simp [Stage.rank]⟩
  have hrun : v.run (.opened stores) (as₁ ++ .accept t :: as₂) = some s₂ := Run.run_append.2 ⟨s₁, h₁, h₂⟩
  obtain ⟨-, hroot, hplaced⟩ := (((Serving.opened v stores).steps hrun).contents ⟨rfl, rfl⟩).placed t hfiled
  have hback := (Wiki.Reached.run rfl hreach h₁).backed
  -- Until the transaction, the tables of the pages are those of the acceptance.
  have hfind : s₂.stores.db.findPage p = s₁.stores.db.findPage p := by
    rw [Db.findPage, hu.pages, Db.findPage]
  refine ⟨?_, ?_, (hdb.findPage_other hne).trans hfind, ?_, ?_⟩
  · rw [Wiki.fileBytes, hp.disk]
    exact hu.others p hne
  · rw [hp.git]
    exact hu.headBlob_other (Nat.le_refl 7) hback hroot hplaced h.valid hv hne
  · rw [hdb.editsOf_other hne, Db.editsOf, hfind, hu.edits, Db.editsOf]
  · rw [hdb.textOf_other hne, Db.textOf, hfind, hu.texts, Db.textOf]

/-- **A write that succeeds makes its page whole.** Whatever earlier failures
have left of the page, its file, its blob in HEAD, its row and its text agree
on the submitted content, and `read_meta` answers what the write did. Every
other page is as it was when the write was accepted. -/
theorem write_repairs (hreach : v.wiki.Reached stores)
    (hkeep : Run.Every (step v) KeepsActors (.opened stores) as)
    (h : Ending v (.opened stores) as t s₁ s₂ s (.done info)) :
    Whole v.wiki s.stores (v.req t) info ∧
      ∀ p, validatePath p = .ok () → p ≠ (v.req t).path → Unchanged v.wiki s₁.stores s.stores p :=
  ⟨h.whole hkeep, fun _ hv hne => h.unchanged hreach hv hne⟩

end

/-- A page whose last commit was never recorded, and the next write to it. -/
theorem write_repairs_small :
    ∃ s₁ s₂ s info, Ending Service.small (.opened (.small none))
        (Action.serve 0 ++ Action.unrecorded 1 ++ [.call 2, .grant] ++
          .accept 2 :: List.replicate 7 (.advance 2 ⟨3, []⟩) ++ [.advance 2 ⟨3, []⟩]) 2 s₁ s₂ s (.done info) ∧
      headBlob s₁.stores.git (Wiki.small.pageFile "notes".toList) = some (Text.utf8 "two".toList) ∧
      s₁.stores.db.currentState "notes".toList = .present (some (Wiki.small.contentHash "one".toList)) ∧
      Whole Wiki.small s.stores (Service.small.req 2) info ∧
      ∀ p, validatePath p = .ok () → p ≠ (Service.small.req 2).path →
        Unchanged Wiki.small s₁.stores s.stores p := by
  obtain ⟨s₁, hs₁⟩ : ∃ s₁, Service.small.run (.opened (.small none))
      (Action.serve 0 ++ Action.unrecorded 1 ++ [.call 2, .grant]) = some s₁ := ⟨_, rfl⟩
  obtain ⟨s₂, hs₂⟩ : ∃ s₂, Service.small.run s₁ (.accept 2 :: List.replicate 7 (.advance 2 ⟨3, []⟩)) =
      some s₂ := by
    cases hs₁; exact ⟨_, rfl⟩
  obtain ⟨s, hs⟩ : ∃ s, step Service.small s₂ (.advance 2 ⟨3, []⟩) = some s := by
    cases hs₁; cases hs₂; exact ⟨_, rfl⟩
  obtain ⟨info, hout⟩ : ∃ info, (s.task 2).outcome = some (.done info) := by
    cases hs₁; cases hs₂; cases hs; exact ⟨_, rfl⟩
  have hend : Ending Service.small (.opened (.small none))
      (Action.serve 0 ++ Action.unrecorded 1 ++ [.call 2, .grant] ++
        .accept 2 :: List.replicate 7 (.advance 2 ⟨3, []⟩) ++ [.advance 2 ⟨3, []⟩]) 2 s₁ s₂ s (.done info) :=
    ⟨⟨_, _, _, rfl, hs₁, hs₂, hs⟩, by cases hs₁; cases hs₂; rfl, hout⟩
  refine ⟨s₁, s₂, s, info, hend, ?_, ?_, write_repairs (.new rfl) (every_keepsActors ?_) hend⟩
  · cases hs₁; rfl
  · cases hs₁; rfl
  · simp [Action.serve, Action.work, Action.unrecorded, List.replicate]

end Wikikiki
