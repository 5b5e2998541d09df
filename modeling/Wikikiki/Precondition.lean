/-
Preconditions of a write (pages/mod.rs): what the page must currently look
like for the write to be allowed, and the check of that against the state of
the page.

`check` refuses with an error that names both revisions, cut to their first
twelve bytes; the cut panics where byte twelve is inside a character. So
there are three outcomes, and `check_eq_ok` says which states give the first.
-/
import Wikikiki.Error
import Wikikiki.Lib.Register

namespace Wikikiki

/-- `Precondition`; `existing` is its `Exists`. -/
inductive Precondition where
  | none
  | revision (want : Text)
  | existing
  | absent
  deriving DecidableEq

/-- `CurrentState`: a row written outside the service can exist without a
recorded revision. -/
inductive CurrentState where
  | absent
  | present (revision : Option Text)
  deriving DecidableEq

/-- `short_rev`, `none` where the slice panics. -/
def shortRev (rev : Text) : Option Text := Text.sliceTo (min (Text.byteLen rev) 12) rev

/-- The refusal that names both revisions. -/
def staleRevision (current want : Text) : Halt :=
  match shortRev current, shortRev want with
  | some c, some w =>
    .err (.preconditionFailed ("page is at revision ".toList ++ c ++ ", expected ".toList ++ w))
  | _, _ => .panic

/-- `Precondition::check`. -/
def Precondition.check : Precondition → CurrentState → Except Halt Unit
  | .none, _ => .ok ()
  | .existing, .present _ => .ok ()
  | .existing, .absent => .error (.err (.preconditionFailed "page does not exist".toList))
  | .absent, .absent => .ok ()
  | .absent, .present _ => .error (.err (.preconditionFailed "page already exists".toList))
  | .revision want, .present (some current) =>
    if want = current then .ok () else .error (staleRevision current want)
  | .revision _, .present .none =>
    .error (.err (.preconditionFailed "page has no recorded revision to compare against".toList))
  | .revision _, .absent => .error (.err (.preconditionFailed "page does not exist".toList))

/-- What a precondition says of the page. -/
def Precondition.Holds : Precondition → CurrentState → Prop
  | .none, _ => True
  | .revision want, s => s = .present (some want)
  | .existing, s => s ≠ .absent
  | .absent, s => s = .absent

instance : (p : Precondition) → (s : CurrentState) → Decidable (p.Holds s)
  | .none, _ => inferInstanceAs (Decidable True)
  | .revision want, s => inferInstanceAs (Decidable (s = .present (some want)))
  | .existing, s => inferInstanceAs (Decidable (s ≠ .absent))
  | .absent, s => inferInstanceAs (Decidable (s = .absent))

/-- The check passes exactly where the precondition holds. -/
theorem Precondition.check_eq_ok {p : Precondition} {s : CurrentState} :
    p.check s = .ok () ↔ p.Holds s := by
  cases p with
  | none => simp [check, Holds]
  | existing => cases s <;> simp [check, Holds]
  | absent => cases s <;> simp [check, Holds]
  | revision want =>
    cases s with
    | absent => simp [check, Holds]
    | present r =>
      cases r with
      | none => simp [check, Holds]
      | some cur =>
        by_cases h : want = cur
        · simp [check, Holds, h]
        · simp [check, Holds, h, Ne.symm h]

/-- The check is about to print a revision it cannot cut. -/
def Precondition.CutsCharacter (p : Precondition) (s : CurrentState) : Prop :=
  ∃ want cur, p = .revision want ∧ s = .present (some cur) ∧ want ≠ cur ∧
    (shortRev cur = .none ∨ shortRev want = .none)

/-- A check that does not pass refuses with `PreconditionFailed`, or panics
in `short_rev`. -/
theorem Precondition.check_of_not_holds {p : Precondition} {s : CurrentState} (h : ¬ p.Holds s) :
    (∃ msg, ¬ p.CutsCharacter s ∧ p.check s = .error (.err (.preconditionFailed msg))) ∨
      (p.CutsCharacter s ∧ p.check s = .error .panic) := by
  cases p with
  | none => exact absurd trivial h
  | existing => cases s <;> simp [check, Holds, CutsCharacter] at h ⊢
  | absent => cases s <;> simp [check, Holds, CutsCharacter] at h ⊢
  | revision want =>
    cases s with
    | absent => simp [check, CutsCharacter]
    | present r =>
      cases r with
      | none => simp [check, CutsCharacter]
      | some cur =>
        have hne : want ≠ cur := fun he => h (by simp [Holds, he])
        simp only [check, if_neg hne, staleRevision]
        cases hc : shortRev cur <;> cases hw : shortRev want <;> simp [CutsCharacter, hne, hc, hw]

/-- The cut panics where byte twelve is inside a character. -/
theorem shortRev_eq_none {rev : Text} : shortRev rev = none ↔ Text.InsideChar 12 rev := by
  rw [shortRev, Text.sliceTo_eq_none (Nat.min_le_left _ _)]
  rcases Nat.lt_or_ge 12 (Text.byteLen rev) with hlt | hge
  · rw [Nat.min_eq_right (Nat.le_of_lt hlt)]
  · rw [Nat.min_eq_left hge]
    refine iff_of_false (fun h => ?_) (fun h => ?_)
    · exact absurd h.lt_byteLen (Nat.lt_irrefl _)
    · exact absurd h.lt_byteLen (Nat.not_lt.2 hge)

theorem shortRev_of_ascii {rev : Text} (h : Text.Ascii rev) : shortRev rev = some (rev.take 12) := by
  rw [shortRev, h.byteLen, h.sliceTo (Nat.min_le_left _ _)]
  simp [Nat.min_comm]

example : shortRev "abc".toList = some "abc".toList := by decide
example : shortRev "0123456789abcdef".toList = some "0123456789ab".toList := by decide

/-- No cut is inside a character when both revisions are ASCII. -/
theorem Precondition.not_cutsCharacter {p : Precondition} {s : CurrentState}
    (hp : ∀ want, p = .revision want → Text.Ascii want)
    (hs : ∀ cur, s = .present (some cur) → Text.Ascii cur) : ¬ p.CutsCharacter s := by
  intro hex
  rcases hex with ⟨want, cur, rfl, rfl, -, h | h⟩
  · simp [shortRev_of_ascii (hs cur rfl)] at h
  · simp [shortRev_of_ascii (hp want rfl)] at h

/-! ## Recorded revisions -/

/-- A SHA-256 in hexadecimal, as `content_hash` records it. -/
def IsSha256 (r : Text) : Prop := r.length = 64 ∧ ∀ c ∈ r, c ∈ "0123456789abcdef".toList

instance (r : Text) : Decidable (IsSha256 r) :=
  decidable_of_iff (r.length = 64 ∧ r.all (fun c => "0123456789abcdef".toList.contains c) = true)
    (by simp [IsSha256])

/-- The digits are ASCII, and none of them is whitespace. -/
theorem IsSha256.digit {r : Text} (h : IsSha256 r) {c : Char} (hc : c ∈ r) :
    c.utf8Size = 1 ∧ Text.isWhitespace c = false := by
  have hd : "0123456789abcdef".toList.all
      (fun c => c.utf8Size = 1 ∧ Text.isWhitespace c = false) = true := by decide
  simpa using List.all_eq_true.1 hd c (h.2 c hc)

theorem IsSha256.ascii {r : Text} (h : IsSha256 r) : Text.Ascii r := fun _ hc => (h.digit hc).1

theorem IsSha256.trim {r : Text} (h : IsSha256 r) : Text.trim r = r :=
  Text.trim_eq_self (fun _ hc => (h.digit (List.mem_of_head? hc)).2)
    (fun _ hc => (h.digit (List.mem_of_getLast? hc)).2)

theorem IsSha256.ne_nil {r : Text} (h : IsSha256 r) : r ≠ [] := by
  intro heq
  subst heq
  exact absurd h.1 (by decide)

/-! ## As conditions on a register -/

/-- The condition a precondition puts on the content of a page whose
revisions the service recorded. -/
def Precondition.cond : Precondition → Register.Cond Text
  | .none => .any
  | .revision want => .revision want
  | .existing => .occupied
  | .absent => .vacant

/-- The state of a page that holds `content`, as its revision shows it. -/
def CurrentState.ofContent (rev : Text → Text) : Option Text → CurrentState
  | .none => .absent
  | some content => .present (some (rev content))

theorem Precondition.holds_ofContent {p : Precondition} {rev : Text → Text} {content : Option Text} :
    p.Holds (.ofContent rev content) ↔ p.cond.Holds rev content := by
  cases p <;> cases content <;> simp [Holds, cond, Register.Cond.Holds, CurrentState.ofContent]

end Wikikiki
