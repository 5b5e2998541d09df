/-
One page write (`write` and `write_serialized`, pages/mod.rs), stage by
stage: three checks on the database, the content root, the file, HEAD, the
commit, and the transaction.

`Wiki.exec` is one stage, and everything that runs writes runs them through
it: `Wiki.write` here, one after the other, and the system with its many
tasks. A stage goes on to the next or stops the write: refused by a check,
failed in a store, or done. `refusedRight_iff` is about the first of the
three.
-/
import Wikikiki.Repo

namespace Wikikiki

/-! ## Stages -/

/-- The four stores. -/
structure Stores where
  disk : Disk
  git : List Commit
  db : Db

/-- Where a write is, with what it carries from the stages before. -/
inductive Stage where
  | checkLayer
  | checkActor
  | checkPrecondition
  | contentRoot
  | writeFile (rel : PathBuf)
  | readHead (rel : PathBuf)
  | commit (rel : PathBuf) (parent : Option (Text × GitTree))
  | project (oid : Text)

/-- How many stages lie behind. -/
def Stage.rank : Stage → Nat
  | .checkLayer => 0
  | .checkActor => 1
  | .checkPrecondition => 2
  | .contentRoot => 3
  | .writeFile _ => 4
  | .readHead _ => 5
  | .commit .. => 6
  | .project _ => 7

theorem Stage.rank_lt (stage : Stage) : stage.rank < 8 := by
  cases stage <;> simp only [rank] <;> omega

/-- How a write ends. A failure names the stage that it happened in. -/
inductive Outcome where
  | refused (e : AppError)
  | failed (stage : Stage) (e : AppError)
  | done (info : PageMeta)

/-- What a stage leaves to do. -/
inductive Next where
  | go (stage : Stage)
  | stop (o : Outcome)

/-- What the environment adds to a stage: the clock, and the text of the error
that the stage meets, if it meets one. -/
structure Input where
  now : Int
  said : Text

def checkLayer (db : Db) (req : WriteRequest) : Except AppError Unit :=
  if db.layerIsActive req.layer then .ok ()
  else .error (.badRequest ("unknown or inactive layer: ".toList ++ req.layer))

def checkActor (db : Db) (req : WriteRequest) : Except AppError Unit :=
  match db.actorById req.actorId with
  | none => .error .forbidden
  | some actor =>
    if !actor.isActive || actor.actorType ≠ req.actorType || actor.handle ≠ req.actorHandle then
      .error .forbidden
    else .ok ()

/-- A path as an error message shows it. -/
def displayPath (p : PathBuf) : Text := p.flatMap fun seg => '/' :: seg

/-- The commit message: the summary, or one that names the page. -/
def WriteRequest.message (req : WriteRequest) : Text := req.summary.getD ("edit: ".toList ++ req.path)

/-- One stage of `write_serialized`. -/
def Wiki.exec (w : Wiki) (req : WriteRequest) (i : Input) : Stage → Stores → Next × Stores
  | .checkLayer, s =>
    match checkLayer s.db req with
    | .ok () => (.go .checkActor, s)
    | .error e => (.stop (.refused e), s)
  | .checkActor, s =>
    match checkActor s.db req with
    | .ok () => (.go .checkPrecondition, s)
    | .error e => (.stop (.refused e), s)
  | .checkPrecondition, s =>
    match req.precondition.check (s.db.currentState req.path) with
    | .ok () => (.go .contentRoot, s)
    | .error (.err e) => (.stop (.refused e), s)
    -- The panic ends the task that the write runs in.
    | .error .panic =>
      (.stop (.failed .checkPrecondition (.internal ("page write task: ".toList ++ i.said))), s)
  | .contentRoot, s =>
    match s.disk.createDirAll w.contentRoot with
    | none => (.stop (.failed .contentRoot (.io i.said)), s)
    | some disk =>
      match relativeTo disk w.root w.contentRoot with
      | none =>
        (.stop (.failed .contentRoot (.internal ("content root ".toList ++ displayPath w.contentRoot ++
          " is not under repo root ".toList ++ displayPath w.root))), { s with disk })
      | some pre => (.go (.writeFile (repoPath pre req.path)), { s with disk })
  | .writeFile rel, s =>
    match s.disk.createDirAll (w.root ++ rel).dropLast with
    | none => (.stop (.failed (.writeFile rel) (.io i.said)), s)
    | some disk =>
      match disk.write (w.root ++ rel) (Text.utf8 req.content) with
      | none => (.stop (.failed (.writeFile rel) (.io i.said)), { s with disk })
      | some disk => (.go (.readHead rel), { s with disk })
  | .readHead rel, s => (.go (.commit rel (w.readHead s.git)), s)
  | .commit rel parent, s =>
    match w.commitFile s.git parent rel req.content req.actorType req.actorHandle req.message i.now i.said with
    | .error e => (.stop (.failed (.commit rel parent) e), s)
    | .ok (oid, git) => (.go (.project oid), { s with git })
  | .project oid, s =>
    let title := deriveTitle req.content req.path
    let hash := w.contentHash req.content
    let (id, db) := s.db.project req title hash oid i.now
    (.stop (.done
      { id, path := req.path, layer := req.layer, title, lastEditAt := some i.now,
        lastEditBy := some req.actorId, lastEditHandle := some req.actorHandle,
        lastEditType := some req.actorType, revision := some hash }), { s with db })

/-- The write goes on where it is not at its end. -/
def Wiki.advance (w : Wiki) (req : WriteRequest) (env : Stage → Input) : Next × Stores → Next × Stores
  | (.go stage, s) => w.exec req (env stage) stage s
  | (.stop o, s) => (.stop o, s)

/-- `write`, with nobody else at the stores. -/
def Wiki.write (w : Wiki) (req : WriteRequest) (env : Stage → Input) (s : Stores) : Next × Stores :=
  match validatePath req.path with
  | .error e => (.stop (.refused e), s)
  | .ok () => (w.advance req env)^[8] (.go .checkLayer, s)

/-! ## What a stage can do -/

section

variable {w : Wiki} {req : WriteRequest} {i : Input} {s s' : Stores} {stage stage' : Stage} {o : Outcome}

/-- A stage that goes on goes to the next one. -/
theorem Wiki.exec_rank (h : w.exec req i stage s = (.go stage', s')) : stage'.rank = stage.rank + 1 := by
  cases stage <;> simp only [exec] at h <;> (repeat' split at h) <;> cases h <;> rfl

/-- Only the checks refuse, and a refusal has touched nothing. -/
theorem Wiki.exec_refused {e : AppError} (h : w.exec req i stage s = (.stop (.refused e), s')) :
    stage.rank < 3 ∧ s' = s := by
  cases stage <;> simp only [exec] at h <;> (repeat' split at h) <;> cases h <;> exact ⟨by decide, rfl⟩

end

/-! ## Refusals -/

/-- The checks of a write, in the order in which it makes them. -/
inductive Check where
  | path
  | layer
  | actor
  | precondition

def Check.pos : Check → Nat
  | .path => 0
  | .layer => 1
  | .actor => 2
  | .precondition => 3

/-- What each check is there to keep out. -/
def Check.Fails (req : WriteRequest) (db : Db) : Check → Prop
  | .path => validatePath req.path ≠ .ok ()
  | .layer => ¬ ∃ l ∈ db.layers, l.code = req.layer ∧ l.isActive = 1
  | .actor => ¬ ∃ a, db.actorById req.actorId = some a ∧ a.isActive = true ∧
      a.actorType = req.actorType ∧ a.handle = req.actorHandle
  | .precondition => ¬ req.precondition.Holds (db.currentState req.path)

/-- The error that a check answers with. -/
def Check.Error (req : WriteRequest) : Check → AppError → Prop
  | .path, e => validatePath req.path = .error e
  | .layer, e => e = .badRequest ("unknown or inactive layer: ".toList ++ req.layer)
  | .actor, e => e = .forbidden
  | .precondition, e => ∃ msg, e = .preconditionFailed msg

/-- The first check that fails. -/
def Check.First (req : WriteRequest) (db : Db) (c : Check) : Prop :=
  c.Fails req db ∧ ∀ c' : Check, c'.pos < c.pos → ¬ c'.Fails req db

/-- The write is refused for its first failing check, with that check's
error, and for nothing else; a refusal leaves every store as it was. -/
def RefusedRight (w : Wiki) (req : WriteRequest) (env : Stage → Input) (s : Stores) : Prop :=
  (∀ c, Check.First req s.db c → ∃ e, c.Error req e ∧ w.write req env s = (.stop (.refused e), s)) ∧
    ∀ e, (w.write req env s).1 = .stop (.refused e) → ∃ c, Check.First req s.db c

section

variable {w : Wiki} {req : WriteRequest} {env : Stage → Input} {s : Stores} {db : Db}

theorem checkLayer_spec (db : Db) (req : WriteRequest) :
    (checkLayer db req = .ok () ∧ ¬ Check.Fails req db .layer) ∨
    (Check.Fails req db .layer ∧ ∃ e, checkLayer db req = .error e ∧ Check.Error req .layer e) := by
  have hiff : db.layerIsActive req.layer = true ↔ ∃ l ∈ db.layers, l.code = req.layer ∧ l.isActive = 1 := by
    simp [Db.layerIsActive]
  by_cases h : db.layerIsActive req.layer = true
  · exact .inl ⟨by simp [checkLayer, h], fun hf => hf (hiff.1 h)⟩
  · exact .inr ⟨fun hf => h (hiff.2 hf), _, by simp [checkLayer, h], rfl⟩

theorem checkActor_spec (db : Db) (req : WriteRequest) :
    (checkActor db req = .ok () ∧ ¬ Check.Fails req db .actor) ∨
    (Check.Fails req db .actor ∧ ∃ e, checkActor db req = .error e ∧ Check.Error req .actor e) := by
  simp only [checkActor, Check.Fails, Check.Error]
  cases h : db.actorById req.actorId with
  | none => simp
  | some a =>
    by_cases hok : a.isActive = true ∧ a.actorType = req.actorType ∧ a.handle = req.actorHandle
    · simp [hok]
    · have hbad : (!a.isActive || a.actorType ≠ req.actorType || a.handle ≠ req.actorHandle) = true := by
        simp only [not_and] at hok
        cases ha : a.isActive with
        | false => rfl
        | true => by_cases ht : a.actorType = req.actorType <;> simp_all
      refine .inr ⟨?_, .forbidden, if_pos hbad, rfl⟩
      intro hex
      obtain ⟨b, hb, hok'⟩ := hex
      cases hb
      exact hok hok'

theorem checkLayer_eq_ok (h : ¬ Check.Fails req db .layer) : checkLayer db req = .ok () :=
  ((checkLayer_spec db req).resolve_right fun hl => h hl.1).1

theorem checkActor_eq_ok (h : ¬ Check.Fails req db .actor) : checkActor db req = .ok () :=
  ((checkActor_spec db req).resolve_right fun ha => h ha.1).1

/-- Nothing happens after the end. -/
theorem Wiki.iterate_stop (n : Nat) (o : Outcome) : (w.advance req env)^[n] (.stop o, s) = (.stop o, s) :=
  Function.iterate_fixed rfl n

/-- A write whose path is fine, at its first stage. -/
theorem Wiki.write_of_path (h : ¬ Check.Fails req s.db .path) :
    w.write req env s = (w.advance req env)^[7] (w.exec req (env .checkLayer) .checkLayer s) := by
  have hv : validatePath req.path = .ok () := Decidable.not_not.1 h
  simp only [write, hv]
  rfl

theorem Wiki.write_of_layer (hp : ¬ Check.Fails req s.db .path) (hl : checkLayer s.db req = .ok ()) :
    w.write req env s = (w.advance req env)^[6] (w.exec req (env .checkActor) .checkActor s) := by
  rw [write_of_path hp]
  simp only [exec, hl]
  rfl

theorem Wiki.write_of_actor (hp : ¬ Check.Fails req s.db .path) (hl : checkLayer s.db req = .ok ())
    (ha : checkActor s.db req = .ok ()) : w.write req env s =
      (w.advance req env)^[5] (w.exec req (env .checkPrecondition) .checkPrecondition s) := by
  rw [write_of_layer hp hl]
  simp only [exec, ha]
  rfl

/-- A write that fails no check, behind them. -/
theorem Wiki.write_of_checks (h : ∀ c : Check, ¬ c.Fails req s.db) :
    w.write req env s = (w.advance req env)^[5] (.go .contentRoot, s) := by
  have hp : req.precondition.check (s.db.currentState req.path) = .ok () :=
    Precondition.check_eq_ok.2 (Decidable.not_not.1 (h .precondition))
  rw [write_of_actor (h .path) (checkLayer_eq_ok (h .layer)) (checkActor_eq_ok (h .actor))]
  simp only [exec, hp]

/-- The check behind all the others: it refuses, or panics over the texts it
was about to show. -/
theorem Wiki.write_of_precondition (env : Stage → Input) (hp : ¬ Check.Fails req s.db .path)
    (hl : checkLayer s.db req = .ok ()) (ha : checkActor s.db req = .ok ())
    (hf : Check.Fails req s.db .precondition) :
    (¬ req.precondition.CutsCharacter (s.db.currentState req.path) ∧
        ∃ e, Check.Error req .precondition e ∧ w.write req env s = (.stop (.refused e), s)) ∨
      (req.precondition.CutsCharacter (s.db.currentState req.path) ∧
        ∃ e, w.write req env s = (.stop (.failed .checkPrecondition e), s)) := by
  rw [write_of_actor hp hl ha]
  rcases Precondition.check_of_not_holds hf with ⟨msg, hc, hcheck⟩ | ⟨hc, hcheck⟩
  · refine .inl ⟨hc, .preconditionFailed msg, ⟨msg, rfl⟩, ?_⟩
    simp only [exec, hcheck, iterate_stop]
  · refine .inr ⟨hc, .internal ("page write task: ".toList ++ (env .checkPrecondition).said), ?_⟩
    simp only [exec, hcheck, iterate_stop]

/-- Past the checks: at a later stage, or at an end that is no refusal. -/
def Next.Past : Next → Prop
  | .go stage => 3 ≤ stage.rank
  | .stop (.refused _) => False
  | .stop _ => True

theorem Wiki.exec_past {i : Input} {stage : Stage} (h : 3 ≤ stage.rank) :
    (w.exec req i stage s).1.Past := by
  cases hn : w.exec req i stage s with
  | mk n s' =>
    cases n with
    | go stage' =>
      have := exec_rank hn
      simp only [Next.Past]
      omega
    | stop o =>
      cases o with
      | refused e => exact absurd (exec_refused hn).1 (by omega)
      | failed stage' e => trivial
      | done info => trivial

theorem Wiki.iterate_past (n : Nat) {p : Next × Stores} (h : p.1.Past) :
    ((w.advance req env)^[n] p).1.Past := by
  induction n generalizing p with
  | zero => exact h
  | succ n ih =>
    refine ih ?_
    obtain ⟨n, s⟩ := p
    cases n with
    | go stage => exact exec_past h
    | stop o => exact h

/-- What becomes of a write whose first failing check is `c`. -/
theorem Wiki.write_of_first (w : Wiki) (env : Stage → Input) {c : Check} (h : Check.First req s.db c) :
    (¬ (c = .precondition ∧ req.precondition.CutsCharacter (s.db.currentState req.path)) ∧
        ∃ e, c.Error req e ∧ w.write req env s = (.stop (.refused e), s)) ∨
      (c = .precondition ∧ req.precondition.CutsCharacter (s.db.currentState req.path) ∧
        ∃ e, w.write req env s = (.stop (.failed .checkPrecondition e), s)) := by
  obtain ⟨hf, hbefore⟩ := h
  cases c with
  | path =>
    left
    cases hv : validatePath req.path with
    | ok u => exact absurd hv hf
    | error e => exact ⟨by simp, e, hv, by simp only [write, hv]⟩
  | layer =>
    left
    obtain ⟨-, e, hl, he⟩ := (checkLayer_spec _ _).resolve_left fun hl => hl.2 hf
    refine ⟨by simp, e, he, ?_⟩
    rw [write_of_path (hbefore .path (by decide))]
    simp only [exec, hl, iterate_stop]
  | actor =>
    left
    have hl := checkLayer_eq_ok (hbefore .layer (by decide))
    obtain ⟨-, e, ha, he⟩ := (checkActor_spec _ _).resolve_left fun ha => ha.2 hf
    refine ⟨by simp, e, he, ?_⟩
    rw [write_of_layer (hbefore .path (by decide)) hl]
    simp only [exec, ha, iterate_stop]
  | precondition =>
    have hl := checkLayer_eq_ok (hbefore .layer (by decide))
    have ha := checkActor_eq_ok (hbefore .actor (by decide))
    simpa using write_of_precondition env (hbefore .path (by decide)) hl ha hf

/-- A write that fails no check gets past them. -/
theorem Wiki.write_past (w : Wiki) (env : Stage → Input) (h : ∀ c : Check, ¬ c.Fails req s.db) :
    (w.write req env s).1.Past := by
  rw [write_of_checks h]
  exact iterate_past 5 (show 3 ≤ Stage.rank .contentRoot from Nat.le_refl 3)

/-- Some check is the first to fail, unless none does. -/
theorem Check.exists_first (h : ∃ c : Check, c.Fails req db) : ∃ c, First req db c := by
  obtain ⟨c, hc⟩ := h
  by_cases hp : Check.Fails req db .path
  · exact ⟨.path, hp, fun c' hlt => absurd hlt (Nat.not_lt_zero _)⟩
  by_cases hl : Check.Fails req db .layer
  · exact ⟨.layer, hl, fun c' hlt => by cases c' <;> first | exact hp | exact absurd hlt (by decide)⟩
  by_cases ha : Check.Fails req db .actor
  · exact ⟨.actor, ha, fun c' hlt => by
      cases c' <;> first | exact hp | exact hl | exact absurd hlt (by decide)⟩
  · cases c with
    | path => exact absurd hc hp
    | layer => exact absurd hc hl
    | actor => exact absurd hc ha
    | precondition =>
      exact ⟨.precondition, hc, fun c' hlt => by
        cases c' <;> first | exact hp | exact hl | exact ha | exact absurd hlt (by decide)⟩

/-- **Which refusals are right.** A write is refused for its first failing
check and for nothing else, and leaves the stores alone, except when that
check is the precondition and a revision it is about to show has its twelfth
byte inside a character. -/
theorem refusedRight_iff (w : Wiki) (req : WriteRequest) (env : Stage → Input) (s : Stores) :
    RefusedRight w req env s ↔
      ¬ (Check.First req s.db .precondition ∧
        req.precondition.CutsCharacter (s.db.currentState req.path)) := by
  constructor
  · intro hr ⟨hfirst, hcut⟩
    obtain ⟨e, -, hw⟩ := hr.1 _ hfirst
    rcases Wiki.write_of_first w env hfirst with ⟨hn, -⟩ | ⟨-, -, e', hw'⟩
    · exact hn ⟨rfl, hcut⟩
    · rw [hw] at hw'
      cases hw'
  · intro hn
    refine ⟨fun c hfirst => ?_, fun e he => ?_⟩
    · rcases Wiki.write_of_first w env hfirst with ⟨-, hw⟩ | ⟨rfl, hcut, -⟩
      · exact hw
      · exact absurd ⟨hfirst, hcut⟩ hn
    · by_contra hno
      have hpast := Wiki.write_past w env (s := s) fun c hc => hno (Check.exists_first ⟨c, hc⟩)
      rw [he] at hpast
      exact hpast

end

/-! ## A small wiki at work -/

/-- A new repository, and at most one page in the database. -/
def Stores.small (page : Option PageRow) : Stores where
  disk p := if p = [] ∨ p = ["wiki".toList] then some .dir else none
  git := [seedCommit 0]
  db := .small page

/-- A write by the one actor. -/
def WriteRequest.small (path content : Text) (precondition : Precondition) : WriteRequest where
  path
  layer := "semantic".toList
  content
  actorId := 1
  actorType := "human".toList
  actorHandle := "alice".toList
  summary := none
  precondition

/-- The stored revision is not one that the service records, the request is
stale, and the answer is an internal error instead of a refusal. -/
theorem stale_write_panics :
    let req := WriteRequest.small "notes".toList "one".toList (.revision "r".toList)
    let s := Stores.small (some (.foreign "notes".toList (some "aéééééé".toList)))
    Check.First req s.db .precondition ∧ Text.Ascii "r".toList ∧
      (Wiki.small.write req (fun _ => ⟨0, []⟩) s).1 =
        .stop (.failed .checkPrecondition (.internal "page write task: ".toList)) ∧
      ¬ RefusedRight Wiki.small req (fun _ => ⟨0, []⟩) s := by
  intro req s
  have hw : (Wiki.small.write req (fun _ => ⟨0, []⟩) s).1 =
      .stop (.failed .checkPrecondition (.internal "page write task: ".toList)) := rfl
  have hf : Check.First req s.db .precondition := by
    have hh : ¬ req.precondition.Holds (s.db.currentState req.path) := by decide
    refine ⟨hh, fun c hlt => ?_⟩
    cases c with
    | path => exact fun h => h (by decide)
    | layer => exact fun h => h ⟨_, List.mem_cons_self, rfl, rfl⟩
    | actor => exact fun h => h ⟨_, rfl, rfl, rfl, rfl⟩
    | precondition => exact absurd hlt (by decide)
  refine ⟨hf, by decide, hw, fun hr => ?_⟩
  obtain ⟨e, -, he⟩ := hr.1 _ hf
  rw [he] at hw
  cases hw

end Wikikiki
