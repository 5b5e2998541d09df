/-
A save that comes too late (`save_page`, web/mod.rs): the page has changed
since the editor was opened, and the submitted text has to come back in the
form.

The revision that the check shows in its refusal comes from a text field of
the form, and is cut at byte twelve. `save_answered_iff` says which saves are
answered and which end in the panic of `short_rev`.
-/
import Wikikiki.Router

namespace Wikikiki

/-- The answer is the form again, with a reason and with this text. -/
def IsConflictForm (auth : Auth) (content : Text) (resp : Response) : Prop :=
  ∃ form, resp = { Response.html (.editPage (some auth) form) with status := 412 } ∧
    form.content = content ∧ form.conflict ≠ none

/-- The check of a save returns or refuses; and when the page is not what the
form was opened on, the form comes back with the submitted text, whatever has
happened by the time it is answered. -/
structure SaveAnswered (site : Site) (auth : Auth) (path : Text) (input : SaveInput) (s : Stores) : Prop where
  returns : (savePrecondition input).check (s.db.currentState path) = .ok () ∨
    ∃ msg, (savePrecondition input).check (s.db.currentState path) = .error (.err (.preconditionFailed msg))
  conflict : ¬ (savePrecondition input).Holds (s.db.currentState path) → ∀ i env w remote,
    IsConflictForm auth input.content
      (savePageAnswer env w remote auth (saveRequest path auth.actor input)
        (site.wiki.exec (saveRequest path auth.actor input) i .checkPrecondition s).1.result).1

/-- The field holds a revision, the page has another one, and byte twelve of
one of the two is inside a character. -/
def StaleInsideChar (input : SaveInput) (s : CurrentState) : Prop :=
  ∃ field cur, input.revision = some field ∧ Text.trim field ≠ [] ∧ s = .present (some cur) ∧
    Text.trim field ≠ cur ∧ (Text.InsideChar 12 cur ∨ Text.InsideChar 12 (Text.trim field))

theorem cutsCharacter_savePrecondition {input : SaveInput} {s : CurrentState} :
    (savePrecondition input).CutsCharacter s ↔ StaleInsideChar input s := by
  unfold Precondition.CutsCharacter StaleInsideChar
  simp only [shortRev_eq_none]
  constructor
  · intro hex
    obtain ⟨want, cur, hpre, hs, hne, hcut⟩ := hex
    unfold savePrecondition at hpre
    cases hrev : input.revision with
    | none => simp [hrev] at hpre
    | some field =>
      by_cases hempty : Text.trim field = []
      · simp [hrev, hempty] at hpre
      · simp only [hrev, Option.map_some, ne_eq, hempty, not_false_eq_true, if_true,
          Precondition.revision.injEq] at hpre
        subst hpre
        exact ⟨field, cur, rfl, hempty, hs, hne, hcut⟩
  · intro hex
    obtain ⟨field, cur, hrev, hempty, hs, hne, hcut⟩ := hex
    exact ⟨Text.trim field, cur, by simp [savePrecondition, hrev, hempty], hs, hne, hcut⟩

/-- **When a save is answered.** A save over any revision field and any page is
checked without a panic, and a stale one brings its text back in the form,
exactly when it is not one whose stored or submitted revision has its twelfth
byte inside a character. -/
theorem save_answered_iff (site : Site) (auth : Auth) (path : Text) (input : SaveInput) (s : Stores) :
    SaveAnswered site auth path input s ↔ ¬ StaleInsideChar input (s.db.currentState path) := by
  rw [← cutsCharacter_savePrecondition]
  have hreq : (saveRequest path auth.actor input).precondition = savePrecondition input := rfl
  constructor
  · intro h hcut
    have hnot : ¬ (savePrecondition input).Holds (s.db.currentState path) := by
      obtain ⟨want, cur, hpre, hs, hne, -⟩ := hcut
      rw [hpre, hs]
      simpa [Precondition.Holds, eq_comm] using hne
    rcases Precondition.check_of_not_holds hnot with ⟨-, hn, -⟩ | ⟨-, hpanic⟩
    · exact hn hcut
    · rcases h.returns with hok | ⟨msg, hmsg⟩
      · rw [hpanic] at hok
        cases hok
      · rw [hpanic] at hmsg
        cases hmsg
  · intro hcut
    have hcheck : ¬ (savePrecondition input).Holds (s.db.currentState path) →
        ∃ msg, (savePrecondition input).check (s.db.currentState path) =
          .error (.err (.preconditionFailed msg)) := by
      intro hnot
      rcases Precondition.check_of_not_holds hnot with ⟨msg, -, h⟩ | ⟨hc, -⟩
      · exact ⟨msg, h⟩
      · exact absurd hc hcut
    refine ⟨?_, fun hnot i env w remote => ?_⟩
    · by_cases hh : (savePrecondition input).Holds (s.db.currentState path)
      · exact .inl (Precondition.check_eq_ok.2 hh)
      · exact .inr (hcheck hh)
    · obtain ⟨msg, h⟩ := hcheck hnot
      have hexec : (site.wiki.exec (saveRequest path auth.actor input) i .checkPrecondition s).1.result =
          .error (.preconditionFailed msg) := by
        simp only [Wiki.exec, hreq, show (saveRequest path auth.actor input).path = path from rfl, h]
        rfl
      rw [hexec]
      exact ⟨_, rfl, rfl, by simp [editPage]⟩

/-- The form of a page with a recorded revision, whose field a client has
filled with letters of two bytes. -/
theorem save_panics :
    let input : SaveInput := ⟨"new text".toList, none, none, some "aéééééé".toList⟩
    let s := Stores.small (some (.foreign "notes".toList (some (List.replicate 64 'a'))))
    let auth : Auth := ⟨⟨1, "human".toList, "Alice".toList, "alice".toList, false, true⟩, .ui⟩
    (savePrecondition input).check (s.db.currentState "notes".toList) = .error .panic ∧
      ¬ SaveAnswered Site.small auth "notes".toList input s ∧
      (savePageAnswer Env.small (World.small none) none auth (saveRequest "notes".toList auth.actor input)
        (Site.small.wiki.exec (saveRequest "notes".toList auth.actor input) ⟨0, []⟩
          .checkPrecondition s).1.result).1.status = 500 := by
  intro input s auth
  have hpanic : (savePrecondition input).check (s.db.currentState "notes".toList) = .error .panic := by decide
  refine ⟨hpanic, fun h => ?_, rfl⟩
  rcases h.returns with hok | ⟨msg, hmsg⟩
  · rw [hpanic] at hok
    cases hok
  · rw [hpanic] at hmsg
    cases hmsg

end Wikikiki
