/-
JSON: a reader for the grammar of RFC 8259, and strings and integers as an
encoder writes them.

The reader takes fuel, as much as the text is long. Nothing it returns says
more than its text is long (`readString_spec`, `readMembers_length`), which is
how text that was put together by hand is told from what was meant.
-/
import Wikikiki.Lib.Text

inductive Json where
  | null
  | bool (b : Bool)
  /-- A number, as it is written. -/
  | number (lexeme : Text)
  | string (s : Text)
  | array (items : List Json)
  /-- The members in their order, a name as often as it stands there. -/
  | object (members : List (Text × Json))

namespace Json

/-! ## Writing -/

/-- What a string has to escape. -/
def plainChar (c : Char) : Bool := c != '"' && c != '\\' && 0x20 ≤ c.toNat

def Plain (s : Text) : Prop := ∀ c ∈ s, plainChar c = true

def escapeChar (c : Char) : Text :=
  if c = '"' then "\\\"".toList
  else if c = '\\' then "\\\\".toList
  else if c.toNat = 8 then "\\b".toList
  else if c.toNat = 9 then "\\t".toList
  else if c.toNat = 10 then "\\n".toList
  else if c.toNat = 12 then "\\f".toList
  else if c.toNat = 13 then "\\r".toList
  else if c.toNat < 0x20 then "\\u00".toList ++ [Nat.digitChar (c.toNat / 16), Nat.digitChar (c.toNat % 16)]
  else [c]

def escape (s : Text) : Text := s.flatMap escapeChar

/-- A string with its quotes. -/
def quote (s : Text) : Text := '"' :: (escape s ++ ['"'])

/-- An integer in decimal. -/
def ofInt (n : Int) : Text := (toString n).toList

/-! ## Reading -/

def isSpace (c : Char) : Bool := c = ' ' || c = '\t' || c = '\n' || c = '\r'

def skipSpace (s : Text) : Text := s.dropWhile isSpace

def hexValue (c : Char) : Option Nat :=
  if 48 ≤ c.toNat ∧ c.toNat ≤ 57 then some (c.toNat - 48)
  else if 97 ≤ c.toNat ∧ c.toNat ≤ 102 then some (c.toNat - 87)
  else if 65 ≤ c.toNat ∧ c.toNat ≤ 70 then some (c.toNat - 55)
  else none

def readHex4 : Text → Option (Nat × Text)
  | a :: b :: c :: d :: s =>
    match hexValue a, hexValue b, hexValue c, hexValue d with
    | some a, some b, some c, some d => some (((a * 16 + b) * 16 + c) * 16 + d, s)
    | _, _, _, _ => none
  | _ => none

/-- The second half of a surrogate pair. -/
def readLow (hi : Nat) : Text → Option (Char × Text)
  | '\\' :: 'u' :: s =>
    match readHex4 s with
    | some (lo, s) =>
      if 0xDC00 ≤ lo ∧ lo ≤ 0xDFFF then
        some (Char.ofNat (0x10000 + (hi - 0xD800) * 0x400 + (lo - 0xDC00)), s)
      else none
    | none => none
  | _ => none

/-- What stands behind a backslash. -/
def readEscape : Text → Option (Char × Text)
  | '"' :: s => some ('"', s)
  | '\\' :: s => some ('\\', s)
  | '/' :: s => some ('/', s)
  | 'b' :: s => some ('\x08', s)
  | 'f' :: s => some ('\x0c', s)
  | 'n' :: s => some ('\n', s)
  | 'r' :: s => some ('\r', s)
  | 't' :: s => some ('\t', s)
  | 'u' :: s =>
    match readHex4 s with
    | some (code, s) =>
      if 0xDC00 ≤ code ∧ code ≤ 0xDFFF then none
      else if 0xD800 ≤ code ∧ code ≤ 0xDBFF then readLow code s
      else some (Char.ofNat code, s)
    | none => none
  | _ => none

/-- A string behind its opening quote. -/
def readString : Nat → Text → Option (Text × Text)
  | 0, _ => none
  | _ + 1, [] => none
  | n + 1, c :: s =>
    if c = '"' then some ([], s)
    else if c = '\\' then
      match readEscape s with
      | some (e, s) => (readString n s).map fun p => (e :: p.1, p.2)
      | none => none
    else if c.toNat < 0x20 then none
    else (readString n s).map fun p => (c :: p.1, p.2)

/-- The end of a number: nothing, or an exponent. -/
def isExponent : Text → Bool
  | [] => true
  | e :: s =>
    let digits := if s.head? = some '+' ∨ s.head? = some '-' then s.tail else s
    (e = 'e' || e = 'E') && digits ≠ [] && digits.all Char.isDigit

/-- What follows the integer part. -/
def isFraction : Text → Bool
  | '.' :: s => s.takeWhile Char.isDigit ≠ [] && isExponent (s.dropWhile Char.isDigit)
  | s => isExponent s

def isNumber (lexeme : Text) : Bool :=
  let s := (Text.stripPrefix ['-'] lexeme).getD lexeme
  let int := s.takeWhile Char.isDigit
  (int = ['0'] || int ≠ [] && int.head? ≠ some '0') && isFraction (s.dropWhile Char.isDigit)

def numberChar (c : Char) : Bool := c.isDigit || c = '+' || c = '-' || c = '.' || c = 'e' || c = 'E'

/-- A value that is one word. -/
def readScalar (s : Text) : Option (Json × Text) :=
  if "null".toList <+: s then some (.null, s.drop 4)
  else if "true".toList <+: s then some (.bool true, s.drop 4)
  else if "false".toList <+: s then some (.bool false, s.drop 5)
  else if isNumber (s.takeWhile numberChar) then some (.number (s.takeWhile numberChar), s.dropWhile numberChar)
  else none

mutual

def readValue : Nat → Text → Option (Json × Text)
  | 0, _ => none
  | n + 1, s =>
    match skipSpace s with
    | '"' :: s => (readString (s.length + 1) s).map fun p => (.string p.1, p.2)
    | '{' :: s =>
      match skipSpace s with
      | '}' :: s => some (.object [], s)
      | s => (readMembers n s).map fun p => (.object p.1, p.2)
    | '[' :: s =>
      match skipSpace s with
      | ']' :: s => some (.array [], s)
      | s => (readItems n s).map fun p => (.array p.1, p.2)
    | s => readScalar s

/-- Members up to the closing brace. -/
def readMembers : Nat → Text → Option (List (Text × Json) × Text)
  | 0, _ => none
  | n + 1, s =>
    match skipSpace s with
    | '"' :: s =>
      match readString (s.length + 1) s with
      | some (name, s) =>
        match skipSpace s with
        | ':' :: s =>
          match readValue n s with
          | some (value, s) =>
            match skipSpace s with
            | ',' :: s => (readMembers n s).map fun p => ((name, value) :: p.1, p.2)
            | '}' :: s => some ([(name, value)], s)
            | _ => none
          | none => none
        | _ => none
      | none => none
    | _ => none

/-- Items up to the closing bracket. -/
def readItems : Nat → Text → Option (List Json × Text)
  | 0, _ => none
  | n + 1, s =>
    match readValue n s with
    | some (value, s) =>
      match skipSpace s with
      | ',' :: s => (readItems n s).map fun p => (value :: p.1, p.2)
      | ']' :: s => some ([value], s)
      | _ => none
    | none => none

end

/-- One value, with nothing but space around it. -/
def decode (s : Text) : Option Json :=
  match readValue (s.length + 1) s with
  | some (j, rest) => if skipSpace rest = [] then some j else none
  | none => none

theorem decode_eq_some {s : Text} {j : Json} :
    decode s = some j ↔ ∃ rest, readValue (s.length + 1) s = some (j, rest) ∧ skipSpace rest = [] := by
  unfold decode
  split
  · next i rest h =>
    simp only [h, Option.ite_none_right_eq_some, Option.some.injEq, Prod.mk.injEq]
    constructor
    · intro hj
      exact ⟨rest, ⟨hj.2, rfl⟩, hj.1⟩
    · intro hj
      obtain ⟨_, ⟨rfl, rfl⟩, hrest⟩ := hj
      exact ⟨hrest, rfl⟩
  · next h => simp [h]

/-! ## How much is read -/

section

variable {n : Nat} {s r v name : Text} {c : Char}

theorem skipSpace_length (s : Text) : (skipSpace s).length ≤ s.length := (List.dropWhile_sublist _).length_le

theorem skipSpace_cons (h : isSpace c = false) : skipSpace (c :: s) = c :: s := by
  rw [skipSpace, List.dropWhile_cons_of_neg (by simpa using h)]

theorem readHex4_length {code : Nat} (h : readHex4 s = some (code, r)) : r.length + 4 = s.length := by
  unfold readHex4 at h
  split at h
  · split at h
    · simp only [Option.some.injEq, Prod.mk.injEq] at h
      simp [h.2]
    · cases h
  · cases h

theorem readLow_length {hi : Nat} (h : readLow hi s = some (c, r)) : r.length < s.length := by
  unfold readLow at h
  split at h
  · split at h
    · next lo t hx =>
      have := readHex4_length hx
      split at h
      · simp only [Option.some.injEq, Prod.mk.injEq] at h
        obtain ⟨-, rfl⟩ := h
        simp only [List.length_cons]
        omega
      · cases h
    · cases h
  · cases h

theorem readEscape_length (h : readEscape s = some (c, r)) : r.length < s.length := by
  unfold readEscape at h
  split at h
  case h_9 t =>
    split at h
    · next code u hx =>
      have := readHex4_length hx
      split at h
      · cases h
      split at h
      · have := readLow_length h
        simp only [List.length_cons]
        omega
      · simp only [Option.some.injEq, Prod.mk.injEq] at h
        obtain ⟨-, rfl⟩ := h
        simp only [List.length_cons]
        omega
    · cases h
  case h_10 => cases h
  all_goals
    simp only [Option.some.injEq, Prod.mk.injEq] at h
    simp [h.2]

/-- A string is read from at least as many characters as it has, and its
closing quote. From exactly as many it is read only if it stands there as it
is. -/
theorem readString_spec (h : readString n s = some (v, r)) :
    v.length + 1 + r.length ≤ s.length ∧ (v.length + 1 + r.length = s.length → s = v ++ '"' :: r ∧ Plain v) := by
  induction n generalizing s v with
  | zero => cases h
  | succ n ih =>
    cases s with
    | nil => cases h
    | cons c s =>
      unfold readString at h
      split at h
      · next hc =>
        simp only [Option.some.injEq, Prod.mk.injEq] at h
        obtain ⟨rfl, rfl⟩ := h
        exact ⟨by simp; omega, fun _ => ⟨by rw [hc]; rfl, by simp [Plain]⟩⟩
      next hquote =>
      split at h
      · next hc =>
        split at h
        · next e t he =>
          have hlt := readEscape_length he
          simp only [Option.map_eq_some_iff, Prod.mk.injEq] at h
          obtain ⟨p, hp, rfl, rfl⟩ := h
          have hle := (ih (v := p.1) hp).1
          simp only [List.length_cons]
          exact ⟨by omega, fun heq => absurd heq (by omega)⟩
        · cases h
      next hback =>
      split at h
      · cases h
      next hctl =>
      simp only [Option.map_eq_some_iff, Prod.mk.injEq] at h
      obtain ⟨p, hp, rfl, rfl⟩ := h
      obtain ⟨hle, heq⟩ := ih (v := p.1) hp
      simp only [List.length_cons]
      refine ⟨by omega, fun hlen => ?_⟩
      obtain ⟨hs, hplain⟩ := heq (by omega)
      refine ⟨by rw [hs]; rfl, fun d hd => ?_⟩
      rcases List.mem_cons.1 hd with rfl | hd
      · simp [plainChar, hquote, hback]
        omega
      · exact hplain d hd

theorem readScalar_true (h : readScalar s = some (.bool true, r)) : s.length = r.length + 4 := by
  unfold readScalar at h
  split at h
  · cases h
  split at h
  · next hpre =>
    obtain ⟨t, rfl⟩ := hpre
    simp only [Option.some.injEq, Prod.mk.injEq] at h
    rw [← h.2]
    simp
  split at h
  · cases h
  split at h <;> cases h

theorem readValue_true (h : readValue n s = some (.bool true, r)) : r.length + 4 ≤ s.length := by
  cases n with
  | zero => cases h
  | succ n =>
    have hspace := skipSpace_length s
    unfold readValue at h
    split at h
    · simp at h
    · split at h <;> simp at h
    · split at h <;> simp at h
    · have := readScalar_true h
      omega

/-- What a successful run of `readMembers` saw: a name, a colon, a value, and
either a comma with more members behind it or the brace. -/
theorem readMembers_eq_some {ms : List (Text × Json)} (h : readMembers (n + 1) s = some (ms, r)) :
    ∃ name s₁ s₂ s₃ value s₄, skipSpace s = '"' :: s₁ ∧ readString (s₁.length + 1) s₁ = some (name, s₂) ∧
      skipSpace s₂ = ':' :: s₃ ∧ readValue n s₃ = some (value, s₄) ∧
      ((∃ s₅ tail, skipSpace s₄ = ',' :: s₅ ∧ readMembers n s₅ = some (tail, r) ∧ ms = (name, value) :: tail) ∨
        skipSpace s₄ = '}' :: r ∧ ms = [(name, value)]) := by
  unfold readMembers at h
  split at h
  · next s₁ hs₁ =>
    split at h
    · next name s₂ hname =>
      split at h
      · next s₃ hs₃ =>
        split at h
        · next value s₄ hvalue =>
          refine ⟨name, s₁, s₂, s₃, value, s₄, hs₁, hname, hs₃, hvalue, ?_⟩
          split at h
          · next s₅ hs₅ =>
            simp only [Option.map_eq_some_iff, Prod.mk.injEq] at h
            obtain ⟨p, hp, rfl, rfl⟩ := h
            exact .inl ⟨s₅, p.1, hs₅, hp, rfl⟩
          · next s₅ hs₅ =>
            simp only [Option.some.injEq, Prod.mk.injEq] at h
            obtain ⟨rfl, rfl⟩ := h
            exact .inr ⟨hs₅, rfl⟩
          · cases h
        · cases h
      · cases h
    · cases h
  · cases h

theorem readMembers_ne_nil {ms : List (Text × Json)} (h : readMembers n s = some (ms, r)) : ms ≠ [] := by
  cases n with
  | zero => cases h
  | succ n =>
    obtain ⟨name, _, _, _, value, _, -, -, -, -, ⟨_, tail, -, -, rfl⟩ | ⟨-, rfl⟩⟩ := readMembers_eq_some h
    · exact List.cons_ne_nil _ _
    · exact List.cons_ne_nil _ _

/-- One member whose value is `true`: the name, its quotes, the colon, the
value and what ends it. -/
theorem readMembers_true (h : readMembers n s = some ([(name, .bool true)], r)) :
    r.length + (name.length + 8) ≤ s.length := by
  cases n with
  | zero => cases h
  | succ n =>
    obtain ⟨name', s₁, s₂, s₃, value, s₄, hs₁, hname, hs₃, hvalue, hend⟩ := readMembers_eq_some h
    rcases hend with ⟨s₅, tail, -, htail, hms⟩ | ⟨hs₄, hms⟩
    · cases hms
      exact absurd rfl (readMembers_ne_nil htail)
    · cases hms
      have h₁ := skipSpace_length s
      have h₂ := (readString_spec hname).1
      have h₃ := skipSpace_length s₂
      have h₄ := readValue_true hvalue
      have h₅ := skipSpace_length s₄
      rw [hs₁, List.length_cons] at h₁
      rw [hs₃, List.length_cons] at h₃
      rw [hs₄, List.length_cons] at h₅
      omega

end

/-! ## Reading what was written -/

section

variable {n : Nat} {s rest : Text} {c : Char}

theorem Plain.escape (h : Plain s) : escape s = s := by
  induction s with
  | nil => rfl
  | cons c s ih =>
    have hc := h c (by simp)
    simp only [plainChar, Bool.and_eq_true, bne_iff_ne, ne_eq, decide_eq_true_eq] at hc
    obtain ⟨⟨h₁, h₂⟩, h₃⟩ := hc
    have hchar : escapeChar c = [c] := by
      unfold escapeChar
      rw [if_neg h₁, if_neg h₂, if_neg (by omega), if_neg (by omega), if_neg (by omega), if_neg (by omega),
        if_neg (by omega), if_neg (by omega)]
    rw [Json.escape, List.flatMap_cons, hchar, ← Json.escape, ih fun d hd => h d (by simp [hd])]
    rfl

theorem Plain.quote (h : Plain s) : quote s = '"' :: (s ++ ['"']) := by rw [Json.quote, h.escape]

theorem hexValue_digitChar : ∀ d < 16, hexValue (Nat.digitChar d) = some d := by decide

theorem char_ofNat (h : c.toNat = n) : Char.ofNat n = c := by
  rw [← h]
  exact Char.ofNat_toNat c

/-- An escaped character is read back, in one step. -/
theorem readString_escapeChar (c : Char) (t : Text) :
    readString (n + 1) (escapeChar c ++ t) = (readString n t).map fun p => (c :: p.1, p.2) := by
  unfold escapeChar
  split
  · next h => subst h; rfl
  split
  · next h => subst h; rfl
  split
  · next h => rw [← char_ofNat h]; rfl
  split
  · next h => rw [← char_ofNat h]; rfl
  split
  · next h => rw [← char_ofNat h]; rfl
  split
  · next h => rw [← char_ofNat h]; rfl
  split
  · next h => rw [← char_ofNat h]; rfl
  split
  · next h =>
    have hhi := hexValue_digitChar (c.toNat / 16) (by omega)
    have hlo := hexValue_digitChar (c.toNat % 16) (by omega)
    have hzero : hexValue '0' = some 0 := by decide
    have hcode : ((0 * 16 + 0) * 16 + c.toNat / 16) * 16 + c.toNat % 16 = c.toNat := by omega
    have hread : readEscape ('u' :: '0' :: '0' :: Nat.digitChar (c.toNat / 16) :: Nat.digitChar (c.toNat % 16) :: t) =
        some (c, t) := by
      simp only [readEscape, readHex4, hzero, hhi, hlo, hcode]
      rw [if_neg (by omega), if_neg (by omega), Char.ofNat_toNat]
    change readString (n + 1) ('\\' :: 'u' :: '0' :: '0' :: Nat.digitChar (c.toNat / 16) ::
      Nat.digitChar (c.toNat % 16) :: t) = _
    rw [readString, if_neg (by decide), if_pos rfl, hread]
  · next h₁ h₂ _ _ _ _ _ h₃ => rw [List.singleton_append, readString, if_neg h₁, if_neg h₂, if_neg h₃]

theorem readString_escape (hn : s.length < n) : readString n (escape s ++ '"' :: rest) = some (s, rest) := by
  induction s generalizing n with
  | nil =>
    obtain ⟨n, rfl⟩ : ∃ m, n = m + 1 := ⟨n - 1, by simp at hn; omega⟩
    rfl
  | cons c s ih =>
    obtain ⟨n, rfl⟩ : ∃ m, n = m + 1 := ⟨n - 1, by simp at hn; omega⟩
    rw [escape, List.flatMap_cons, List.append_assoc, ← escape, readString_escapeChar, ih (by simpa using hn)]
    rfl

theorem length_le_escape (s : Text) : s.length ≤ (escape s).length := by
  induction s with
  | nil => simp
  | cons c s ih =>
    have hne : 1 ≤ (escapeChar c).length := by
      unfold escapeChar
      repeat' split
      all_goals simp
    rw [escape, List.flatMap_cons, ← escape, List.length_append, List.length_cons]
    omega

/-- A string that was quoted, with enough fuel for all that follows it. -/
theorem readString_quoted (s rest : Text) :
    readString ((escape s ++ '"' :: rest).length + 1) (escape s ++ '"' :: rest) = some (s, rest) := by
  refine readString_escape ?_
  have := length_le_escape s
  rw [List.length_append]
  omega

theorem readValue_quote (s rest : Text) : readValue (n + 1) (quote s ++ rest) = some (.string s, rest) := by
  have hq : quote s ++ rest = '"' :: (escape s ++ '"' :: rest) := by simp [quote]
  rw [hq, readValue, skipSpace_cons (by decide)]
  simp only [readString_quoted, Option.map_some]

/-- A member that is read: its name, and then its value. -/
theorem readMembers_quote (name rest : Text) : readMembers (n + 1) (quote name ++ ':' :: rest) =
    match readValue n rest with
    | some (value, s) =>
      match skipSpace s with
      | ',' :: s => (readMembers n s).map fun p => ((name, value) :: p.1, p.2)
      | '}' :: s => some ([(name, value)], s)
      | _ => none
    | none => none := by
  have hq : quote name ++ ':' :: rest = '"' :: (escape name ++ '"' :: ':' :: rest) := by simp [quote]
  rw [hq, readMembers, skipSpace_cons (by decide)]
  simp only [readString_quoted, skipSpace_cons (show isSpace ':' = false by decide)]

/-- What was read behind a name: its value, and the members behind a comma. -/
theorem readMembers_cons {name : Text} {ms : List (Text × Json)}
    (h : readMembers (n + 1) (quote name ++ ':' :: s) = some (ms, rest)) :
    ∃ value t, readValue n s = some (value, t) ∧
      (ms = [(name, value)] ∨
        ∃ u tail, skipSpace t = ',' :: u ∧ readMembers n u = some (tail, rest) ∧ ms = (name, value) :: tail) := by
  rw [readMembers_quote] at h
  split at h
  · next value t hv =>
    refine ⟨value, t, hv, ?_⟩
    split at h
    · next u hu =>
      simp only [Option.map_eq_some_iff, Prod.mk.injEq] at h
      obtain ⟨p, hp, rfl, rfl⟩ := h
      exact .inr ⟨u, p.1, hu, hp, rfl⟩
    · simp only [Option.some.injEq, Prod.mk.injEq] at h
      exact .inl h.1.symm
    · cases h
  · cases h

theorem readValue_string {j : Json} (h : readValue (n + 1) ('"' :: s) = some (j, rest)) :
    ∃ v, j = .string v ∧ readString (s.length + 1) s = some (v, rest) := by
  rw [readValue, skipSpace_cons (by decide)] at h
  simp only [Option.map_eq_some_iff, Prod.mk.injEq] at h
  obtain ⟨p, hp, rfl, rfl⟩ := h
  exact ⟨p.1, rfl, hp⟩

/-- An object that is read: its members. -/
theorem readValue_object (name rest : Text) :
    readValue (n + 1) ('{' :: (quote name ++ rest)) =
      (readMembers n (quote name ++ rest)).map fun p => (.object p.1, p.2) := by
  have hq : skipSpace (quote name ++ rest) = quote name ++ rest := skipSpace_cons (by decide)
  rw [readValue, skipSpace_cons (by decide)]
  simp only [hq]
  rfl

end

/-! ## Integers -/

section

variable {n : Nat} {z : Int} {rest : Text} {c : Char}

/-- The digits of an integer, behind its sign. -/
theorem ofInt_eq (z : Int) : ofInt z = (if z < 0 then ['-'] else []) ++ Nat.toDigits 10 z.natAbs := by
  cases z with
  | ofNat n =>
    have hrepr : ofInt (.ofNat n) = Nat.toDigits 10 n := Nat.toList_repr
    rw [hrepr, if_neg (show ¬ Int.ofNat n < 0 from Int.not_lt.2 (Int.natCast_nonneg n))]
    rfl
  | negSucc n =>
    have hrepr : ofInt (.negSucc n) = '-' :: Nat.toDigits 10 (n + 1) := by
      rw [ofInt, show toString (Int.negSucc n) = "-" ++ Nat.repr (n + 1) from rfl, String.toList_append,
        Nat.toList_repr]
      rfl
    rw [hrepr, if_pos (Int.negSucc_lt_zero n)]
    rfl

theorem isDigit_toDigits (n : Nat) : ∀ c ∈ Nat.toDigits 10 n, c.isDigit = true := fun _ hc =>
  Nat.isDigit_of_mem_toDigits (by decide) (by decide) hc

theorem ofInt_injective : Function.Injective ofInt := by
  intro a b h
  have habs : ∀ m k : Nat, Nat.toDigits 10 m = Nat.toDigits 10 k → m = k := by
    intro m k hmk
    have hval := congrArg (fun ds => Nat.ofDigitChars 10 ds 0) hmk
    simpa [Nat.ofDigitChars_ten_toDigits] using hval
  have hsign : ∀ m k : Nat, '-' :: Nat.toDigits 10 m ≠ Nat.toDigits 10 k := by
    intro m k hmk
    have hdigit := isDigit_toDigits k '-' (by rw [← hmk]; simp)
    exact absurd hdigit (by decide)
  rw [ofInt_eq, ofInt_eq] at h
  split at h
  · split at h
    · have := habs _ _ (List.cons.inj h).2
      omega
    · exact absurd h (hsign _ _)
  · split at h
    · exact absurd h.symm (hsign _ _)
    · have := habs _ _ h
      omega

/-- The first of the digits is no zero, unless it is the only one. -/
theorem toDigits_head (n : Nat) : Nat.toDigits 10 n = ['0'] ∨ (Nat.toDigits 10 n).head? ≠ some '0' := by
  induction n using Nat.strongRecOn with
  | ind n ih =>
    by_cases hn : n < 10
    · rw [Nat.toDigits_of_lt_base hn]
      have hsmall : ∀ m < 10, [Nat.digitChar m] = ['0'] ∨ [Nat.digitChar m].head? ≠ some '0' := by decide
      exact hsmall n hn
    · right
      rw [Nat.toDigits_of_base_le (by decide) (by omega), List.head?_append_of_ne_nil _ Nat.toDigits_ne_nil]
      rcases ih (n / 10) (by omega) with h | h
      · -- Ten or more has a digit in front of the last one that is not zero.
        have hval := congrArg (fun ds => Nat.ofDigitChars 10 ds 0) h
        simp only [Nat.ofDigitChars_ten_toDigits] at hval
        have hzero : Nat.ofDigitChars 10 ['0'] 0 = 0 := by decide
        omega
      · exact h

theorem isNumber_ofInt (z : Int) : isNumber (ofInt z) = true := by
  have hdigits := isDigit_toDigits z.natAbs
  have htake : (Nat.toDigits 10 z.natAbs).takeWhile Char.isDigit = Nat.toDigits 10 z.natAbs :=
    List.takeWhile_eq_self_iff.2 hdigits
  have hdrop : (Nat.toDigits 10 z.natAbs).dropWhile Char.isDigit = [] := List.dropWhile_eq_nil_iff.2 hdigits
  have hstrip : (Text.stripPrefix ['-'] (ofInt z)).getD (ofInt z) = Nat.toDigits 10 z.natAbs := by
    rw [ofInt_eq]
    split
    · rw [Text.stripPrefix_eq_some.2 rfl]
      rfl
    · cases hp : Text.stripPrefix ['-'] ([] ++ Nat.toDigits 10 z.natAbs) with
      | none => rfl
      | some r =>
        have hr := Text.stripPrefix_eq_some.1 hp
        have hminus := hdigits '-' (by rw [List.nil_append] at hr; rw [hr]; simp)
        exact absurd hminus (by decide)
  have hint : (Nat.toDigits 10 z.natAbs = ['0'] ∨
      Nat.toDigits 10 z.natAbs ≠ [] ∧ (Nat.toDigits 10 z.natAbs).head? ≠ some '0') :=
    (toDigits_head z.natAbs).imp_right fun h => ⟨Nat.toDigits_ne_nil, h⟩
  simp only [isNumber, hstrip, htake, hdrop]
  simpa [isFraction, isExponent] using hint

theorem numberChar_ofInt (z : Int) : ∀ d ∈ ofInt z, numberChar d = true := by
  intro d hd
  rw [ofInt_eq, List.mem_append] at hd
  rcases hd with hd | hd
  · split at hd
    · rw [List.mem_singleton.1 hd]
      decide
    · simp at hd
  · simp [numberChar, isDigit_toDigits _ d hd]

/-- It starts with a sign or a digit. -/
theorem ofInt_cons (z : Int) : ∃ d ds, ofInt z = d :: ds ∧ numberChar d = true := by
  have hne : ofInt z ≠ [] := by
    rw [ofInt_eq]
    simp [Nat.toDigits_ne_nil]
  obtain ⟨d, ds, hz⟩ := List.exists_cons_of_ne_nil hne
  exact ⟨d, ds, hz, numberChar_ofInt z d (by simp [hz])⟩

theorem readScalar_ofInt (hc : numberChar c = false) :
    readScalar (ofInt z ++ c :: rest) = some (.number (ofInt z), c :: rest) := by
  obtain ⟨d, ds, hz, hd⟩ := ofInt_cons z
  -- None of the three words starts like a number.
  have hword : ∀ w : Text, ∀ e, w.head? = some e → numberChar e = false → ¬ w <+: ofInt z ++ c :: rest := by
    intro w e he hnum hp
    obtain ⟨t, ht⟩ := hp
    cases w with
    | nil => cases he
    | cons f w =>
      cases he
      rw [hz] at ht
      rw [(List.cons.inj ht).1, hd] at hnum
      cases hnum
  have htake : (ofInt z ++ c :: rest).takeWhile numberChar = ofInt z := by
    rw [List.takeWhile_append_of_pos (numberChar_ofInt z), List.takeWhile_cons_of_neg (by simpa using hc),
      List.append_nil]
  have hdrop : (ofInt z ++ c :: rest).dropWhile numberChar = c :: rest := by
    rw [List.dropWhile_append_of_pos (numberChar_ofInt z), List.dropWhile_cons_of_neg (by simpa using hc)]
  rw [readScalar, if_neg (hword _ 'n' rfl (by decide)), if_neg (hword _ 't' rfl (by decide)),
    if_neg (hword _ 'f' rfl (by decide)), htake, hdrop, if_pos (isNumber_ofInt z)]

theorem numberChar_of_isSpace (h : isSpace c = true) : numberChar c = false := by
  simp only [isSpace, Bool.or_eq_true, decide_eq_true_eq] at h
  rcases h with ((rfl | rfl) | rfl) | rfl <;> decide

theorem readValue_ofInt (hc : numberChar c = false) :
    readValue (n + 1) (ofInt z ++ c :: rest) = some (.number (ofInt z), c :: rest) := by
  obtain ⟨d, ds, hz, hd⟩ := ofInt_cons z
  have hother : ∀ e, numberChar e = false → ∀ s, ofInt z ++ c :: rest ≠ e :: s := by
    intro e he s hs
    rw [hz] at hs
    rw [← (List.cons.inj hs).1, hd] at he
    cases he
  have hspace : skipSpace (ofInt z ++ c :: rest) = ofInt z ++ c :: rest := by
    rw [hz]
    refine skipSpace_cons (Bool.eq_false_iff.2 fun h => ?_)
    rw [numberChar_of_isSpace h] at hd
    cases hd
  rw [readValue, hspace]
  split
  · next h => exact absurd h (hother _ (by decide) _)
  · next h => exact absurd h (hother _ (by decide) _)
  · next h => exact absurd h (hother _ (by decide) _)
  · exact readScalar_ofInt hc

end

end Json
