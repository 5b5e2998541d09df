/-
The web editor (web/mod.rs, web/templates.rs): the form that `edit_page`
renders from the page as it stands, and the precondition that `save_page`
reads out of the form when it comes back.

The state of the page travels in a hidden text field. Two states leave it
empty, no page and a page without a recorded revision; `accepted_iff` says
what follows from that.
-/
import Wikikiki.Db

namespace Wikikiki

/-! ## The form -/

/-- What `edit_page` renders: the heading, the reason of a conflict, and the
fields of the form. -/
structure EditForm where
  pagePath : Text
  title : Text
  isNew : Bool
  conflict : Option Text
  layer : Text
  revision : Text
  content : Text

/-- `edit_page`. -/
def editPage (pagePath content : Text) (info : Option PageMeta) (conflict : Option Text) : EditForm where
  pagePath
  title := (info.map (·.title)).getD pagePath
  isNew := info.isNone
  conflict
  layer := (info.map (·.layer)).getD "semantic".toList
  revision := (info.bind (·.revision)).getD []
  content

/-- `SaveInput`. -/
structure SaveInput where
  content : Text
  summary : Option Text
  layer : Option Text
  revision : Option Text

/-- The browser sends the hidden fields back as they are, beside what the
writer typed. -/
def EditForm.submit (form : EditForm) (content summary : Text) : SaveInput where
  content
  summary := some summary
  layer := some form.layer
  revision := some form.revision

/-- The precondition of `save_page`. -/
def savePrecondition (input : SaveInput) : Precondition :=
  match input.revision.map Text.trim with
  | some rev => if rev ≠ [] then .revision rev else .absent
  | none => .none

/-- The write that `save_page` asks for. -/
def saveRequest (path : Text) (actor : Actor) (input : SaveInput) : WriteRequest where
  path
  layer := input.layer.getD "semantic".toList
  content := input.content
  actorId := actor.id
  actorType := actor.actorType
  actorHandle := actor.handle
  summary := input.summary
  precondition := savePrecondition input

/-! ## The way of the state through the form -/

section

variable {db : Db} {path : Text}

/-- The field holds the recorded revision, and nothing where there is none. -/
theorem editPage_revision (content : Text) (conflict : Option Text) :
    (editPage path content (db.readMeta path) conflict).revision =
    match db.currentState path with
    | .present (some r) => r
    | _ => [] := by
  simp only [editPage, Db.readMeta, Db.currentState]
  cases h : db.findPage path with
  | none => rfl
  | some p => cases hr : p.2.contentHash <;> simp [Db.pageMeta, hr]

/-- What a submitted form asks for. -/
theorem savePrecondition_submit (hs : ∀ r, db.currentState path = .present (some r) → IsSha256 r)
    (content typed summary : Text) (conflict : Option Text) :
    savePrecondition ((editPage path content (db.readMeta path) conflict).submit typed summary) =
      match db.currentState path with
      | .present (some r) => .revision r
      | _ => .absent := by
  simp only [savePrecondition, EditForm.submit, Option.map_some, editPage_revision]
  split
  next r h => simp [(hs r h).trim, (hs r h).ne_nil]
  next => rfl

end

/-- The editor was opened on a page without a recorded revision, and there is
none when the form comes back. -/
def NoRevision (s s' : CurrentState) : Prop := s = .present none ∧ (s' = .absent ∨ s' = .present none)

/-- **When a save is accepted.** The form of a page, opened or returned, passes
its precondition on a page exactly when the page has not changed, unless
neither the old nor the new state has a revision and the old one was a
page. -/
theorem accepted_iff (db db' : Db) (actor : Actor) (path content typed summary : Text)
    (conflict : Option Text) (hs : ∀ r, db.currentState path = .present (some r) → IsSha256 r) :
    let form := editPage path content (db.readMeta path) conflict
    let pre := (saveRequest path actor (form.submit typed summary)).precondition
    (pre.check (db'.currentState path) = .ok () ↔ db'.currentState path = db.currentState path) ↔
      ¬ NoRevision (db.currentState path) (db'.currentState path) := by
  intro form pre
  have hpre : pre = _ := savePrecondition_submit hs content typed summary conflict
  rw [hpre, Precondition.check_eq_ok]
  cases hst : db.currentState path with
  | absent => simp [Precondition.Holds, NoRevision]
  | present r =>
    cases r with
    | some r => simp [Precondition.Holds, NoRevision]
    | none =>
      -- The empty field asks for no page, and the page had no revision.
      cases hst' : db'.currentState path with
      | absent => simp [Precondition.Holds, NoRevision]
      | present r' => cases r' <;> simp [Precondition.Holds, NoRevision]

/-- A save over a page whose revision was recorded. -/
theorem accepted_iff_recorded :
    let db := Db.small (some (.foreign "notes".toList (some (List.replicate 64 'a'))))
    let form := editPage "notes".toList [] (db.readMeta "notes".toList) none
    let pre := (saveRequest "notes".toList ⟨1, [], [], [], false, true⟩ (form.submit [] [])).precondition
    (∀ r, db.currentState "notes".toList = .present (some r) → IsSha256 r) ∧
      ((pre.check (db.currentState "notes".toList) = .ok () ↔
        db.currentState "notes".toList = db.currentState "notes".toList) ↔
          ¬ NoRevision (db.currentState "notes".toList) (db.currentState "notes".toList)) := by
  intro db form pre
  have hs : ∀ r, db.currentState "notes".toList = .present (some r) → IsSha256 r := by
    intro r h
    have hst : db.currentState "notes".toList = .present (some (List.replicate 64 'a')) := by decide
    rw [hst] at h
    cases h
    decide
  exact ⟨hs, accepted_iff db db _ _ _ _ _ _ hs⟩

/-- A page that exists without a recorded revision cannot be saved: the
unchanged page is refused. -/
theorem unrecorded_page_refused :
    let db := Db.small (some (.foreign "notes".toList none))
    let form := editPage "notes".toList [] (db.readMeta "notes".toList) none
    savePrecondition (form.submit [] []) = .absent ∧
      (savePrecondition (form.submit [] [])).check (db.currentState "notes".toList) =
        .error (.err (.preconditionFailed "page already exists".toList)) := by
  decide

end Wikikiki
