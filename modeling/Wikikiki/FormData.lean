/-
Forms on the wire: how a browser encodes one
(`application/x-www-form-urlencoded`), and how `serde_urlencoded` decodes it
into the types that web/mod.rs asks for.

What a browser encodes is decoded again (`formPairs_encodeForm`), and each
type finds its own fields in it, whatever else was sent.
-/
import Wikikiki.Router

namespace Wikikiki

/-! ## Encoding -/

/-- The bytes that stand for themselves: `*-._`, digits and letters. -/
def isPlainByte (b : UInt8) : Bool :=
  b == 42 || b == 45 || b == 46 || b == 95 || (48 ≤ b && b ≤ 57) || (65 ≤ b && b ≤ 90) || (97 ≤ b && b ≤ 122)

def hexUpper (n : UInt8) : UInt8 := if n < 10 then 48 + n else 55 + n

def encodeByte (b : UInt8) : Bytes :=
  if b = 32 then [43] else if isPlainByte b then [b] else [37, hexUpper (b / 16), hexUpper (b % 16)]

def encodePart (t : Text) : Bytes := (Text.utf8 t).flatMap encodeByte

def encodePair (p : Text × Text) : Bytes := encodePart p.1 ++ 61 :: encodePart p.2

/-- The names and the values of a form. -/
def encodeForm (pairs : List (Text × Text)) : Bytes := [38].intercalate (pairs.map encodePair)

/-! ## Decoding -/

def plusToSpace (bytes : Bytes) : Bytes := bytes.map fun b => if b = 43 then 32 else b

def decodePart (bytes : Bytes) : Text := Text.fromUtf8Lossy (percentDecode (plusToSpace bytes))

def decodePair (bytes : Bytes) : Text × Text :=
  (decodePart (bytes.takeWhile (· ≠ 61)), decodePart ((bytes.dropWhile (· ≠ 61)).drop 1))

/-- `form_urlencoded::parse`. -/
def formPairs (bytes : Bytes) : List (Text × Text) := ((bytes.splitOn 38).filter (· ≠ [])).map decodePair

/-- The loop of a derived `Deserialize`: a field that is not asked for is
passed over, and one that comes twice is an error. -/
def visitFields {α : Type} (parse : Text → Text → Option (Except Text α)) :
    List (Text × α) → List (Text × Text) → Except Text (List (Text × α))
  | seen, [] => .ok seen
  | seen, (name, value) :: rest =>
    match parse name value with
    | none => visitFields parse seen rest
    | some result =>
      if (seen.map Prod.fst).contains name then .error ("duplicate field `".toList ++ name ++ "`".toList)
      else
        match result with
        | .error e => .error e
        | .ok x => visitFields parse (seen ++ [(name, x)]) rest

def fieldOf {α : Type} (name : Text) (fields : List (Text × α)) : Option α :=
  (fields.find? fun p => p.1 = name).map Prod.snd

def required {α : Type} (name : Text) (fields : List (Text × α)) : Except Text α :=
  match fieldOf name fields with
  | some x => .ok x
  | none => .error ("missing field `".toList ++ name ++ "`".toList)

/-- Fields that are texts. -/
def textFields (names : List Text) (name value : Text) : Option (Except Text Text) :=
  if names.contains name then some (.ok value) else none

/-- The loop of an integer's `FromStr`: a digit is looked at before the value
so far is found to be out of its bounds. -/
def parseDigitsFrom (negative : Bool) (lo hi : Int) : Int → Text → Except Text Int
  | n, [] => .ok n
  | n, c :: rest =>
    if ¬ c.isDigit then .error "invalid digit found in string".toList
    else
      let digit : Int := c.toNat - 48
      let n := if negative then 10 * n - digit else 10 * n + digit
      if n < lo then .error "number too small to fit in target type".toList
      else if hi < n then .error "number too large to fit in target type".toList
      else parseDigitsFrom negative lo hi n rest

/-- `FromStr` of an integer between two bounds; an unsigned one has no
minus. -/
def parseInteger (lo hi : Int) (s : Text) : Except Text Int :=
  match s with
  | [] => .error "cannot parse integer from empty string".toList
  | ['-'] | ['+'] => .error "invalid digit found in string".toList
  | '+' :: rest => parseDigitsFrom false lo hi 0 rest
  | '-' :: rest => if lo < 0 then parseDigitsFrom true lo hi 0 rest else parseDigitsFrom false lo hi 0 s
  | _ => parseDigitsFrom false lo hi 0 s

/-- The decoder of `LoginInput`. -/
def decodeLogin (bytes : Bytes) : Except Text LoginInput := do
  let fields ← visitFields (textFields ["handle".toList, "password".toList]) [] (formPairs bytes)
  let handle ← required "handle".toList fields
  let password ← required "password".toList fields
  return { handle, password }

/-- The decoder of `SaveInput`. -/
def decodeSave (bytes : Bytes) : Except Text SaveInput := do
  let fields ← visitFields (textFields ["content".toList, "summary".toList, "layer".toList, "revision".toList]) []
    (formPairs bytes)
  let content ← required "content".toList fields
  return {
    content
    summary := fieldOf "summary".toList fields
    layer := fieldOf "layer".toList fields
    revision := fieldOf "revision".toList fields }

/-- The decoder of `ViewQuery`. -/
def decodeViewQuery (query : Text) : Except Text ViewQuery := do
  let fields ← visitFields
    (fun name value =>
      if ["edit".toList, "source".toList].contains name then some (parseInteger 0 255 value) else none) []
    (formPairs (Text.utf8 query))
  return {
    edit := (fieldOf "edit".toList fields).map Int.toNat
    source := (fieldOf "source".toList fields).map Int.toNat }

/-- The decoder of `SearchQuery`. -/
def decodeSearchQuery (query : Text) : Except Text (Option Text) := do
  let fields ← visitFields (textFields ["q".toList]) [] (formPairs (Text.utf8 query))
  return fieldOf "q".toList fields

/-- The decoder of `ApiSearch`; its limit is an `i64`. -/
def decodeApiSearch (query : Text) : Except Text ApiSearch := do
  let fields ← visitFields
    (fun name value =>
      if name = "q".toList then some (.ok (.inl value))
      else if name = "limit".toList then some ((parseInteger (-2 ^ 63) (2 ^ 63 - 1) value).map Sum.inr)
      else none) []
    (formPairs (Text.utf8 query))
  let q ← required "q".toList fields
  return { q := q.getLeft?.getD [], limit := (fieldOf "limit".toList fields).bind Sum.getRight? }

/-- The decoders of the service. -/
def Decoders.urlencoded : Decoders where
  login := decodeLogin
  save := decodeSave
  viewQuery := decodeViewQuery
  searchQuery := decodeSearchQuery
  apiSearch := decodeApiSearch

/-! ## The round trip -/

theorem hexDigit_hexUpper {n : UInt8} (h : n < 16) : hexDigit (hexUpper n) = some n := by
  have hall : ∀ k : Fin 16, hexDigit (hexUpper (UInt8.ofNat k)) = some (UInt8.ofNat k) := by decide
  have := hall ⟨n.toNat, h⟩
  simpa using this

theorem percentDecode_cons {b : UInt8} (h : b ≠ 37) (rest : Bytes) : percentDecode (b :: rest) = b :: percentDecode rest := by
  rw [percentDecode.eq_def]
  split
  · next b' h' l' rest' he =>
    obtain ⟨rfl, rfl⟩ := List.cons.inj he
    simp [h]
  · next he =>
    obtain ⟨rfl, rfl⟩ := List.cons.inj he
    rfl
  · next he => cases he

theorem percentDecode_encoded {hi lo : UInt8} (hh : hi < 16) (hl : lo < 16) (rest : Bytes) :
    percentDecode (37 :: hexUpper hi :: hexUpper lo :: rest) = (16 * hi + lo) :: percentDecode rest := by
  rw [percentDecode, hexDigit_hexUpper hh, hexDigit_hexUpper hl]
  rfl

section

variable {b : UInt8}

theorem isPlainByte_spec (h : isPlainByte b = true) : b ≠ 43 ∧ b ≠ 37 ∧ b ≠ 38 ∧ b ≠ 61 := by
  refine ⟨?_, ?_, ?_, ?_⟩ <;> (rintro rfl; exact absurd h (by decide))

theorem hexUpper_ne {n : UInt8} (h : n < 16) : hexUpper n ≠ 43 ∧ hexUpper n ≠ 38 ∧ hexUpper n ≠ 61 := by
  have hall : ∀ k : Fin 16, hexUpper (UInt8.ofNat k) ≠ 43 ∧ hexUpper (UInt8.ofNat k) ≠ 38 ∧
      hexUpper (UInt8.ofNat k) ≠ 61 := by decide
  have := hall ⟨n.toNat, h⟩
  simpa using this

/-- The two hexadecimal digits of a byte. -/
theorem nibbles (b : UInt8) : b / 16 < 16 ∧ b % 16 < 16 ∧ 16 * (b / 16) + b % 16 = b := by
  have hb := b.toNat_lt
  refine ⟨?_, ?_, ?_⟩
  · rw [UInt8.lt_iff_toNat_lt, UInt8.toNat_div]
    change b.toNat / 16 < 16
    omega
  · rw [UInt8.lt_iff_toNat_lt, UInt8.toNat_mod]
    change b.toNat % 16 < 16
    omega
  · apply UInt8.toNat_inj.1
    rw [UInt8.toNat_add, UInt8.toNat_mul, UInt8.toNat_div, UInt8.toNat_mod]
    change (16 * (b.toNat / 16) % 2 ^ 8 + b.toNat % 16) % 2 ^ 8 = b.toNat
    omega

/-- A byte is decoded, and so is what follows it. -/
theorem decode_encodeByte (b : UInt8) (rest : Bytes) :
    percentDecode (plusToSpace (encodeByte b ++ rest)) = b :: percentDecode (plusToSpace rest) := by
  obtain ⟨hhi, hlo, hsum⟩ := nibbles b
  unfold encodeByte
  split
  · next h =>
    subst h
    exact percentDecode_cons (by decide) _
  split
  · next hplain =>
    obtain ⟨hplus, hpercent, -⟩ := isPlainByte_spec hplain
    have hcons : plusToSpace ([b] ++ rest) = b :: plusToSpace rest := by simp [plusToSpace, hplus]
    rw [hcons, percentDecode_cons hpercent]
  · have hcons : plusToSpace ([37, hexUpper (b / 16), hexUpper (b % 16)] ++ rest) =
        37 :: hexUpper (b / 16) :: hexUpper (b % 16) :: plusToSpace rest := by
      simp [plusToSpace, (hexUpper_ne hhi).1, (hexUpper_ne hlo).1]
    rw [hcons, percentDecode_encoded hhi hlo, hsum]

theorem decodePart_encodePart (t : Text) : decodePart (encodePart t) = t := by
  have hbytes : ∀ bytes : Bytes, percentDecode (plusToSpace (bytes.flatMap encodeByte)) = bytes := by
    intro bytes
    induction bytes with
    | nil => rfl
    | cons b bytes ih => rw [List.flatMap_cons, decode_encodeByte, ih]
  rw [decodePart, encodePart, hbytes, Text.fromUtf8Lossy_utf8]

/-- The separators of a form are not in its parts. -/
theorem notMem_encodePart (t : Text) : 38 ∉ encodePart t ∧ 61 ∉ encodePart t := by
  have hbyte : ∀ b : UInt8, 38 ∉ encodeByte b ∧ 61 ∉ encodeByte b := by
    intro b
    obtain ⟨hhi, hlo, -⟩ := nibbles b
    unfold encodeByte
    split
    · decide
    split
    · next hplain =>
      obtain ⟨-, -, hamp, heq⟩ := isPlainByte_spec hplain
      simp [Ne.symm hamp, Ne.symm heq]
    · simp [Ne.symm (hexUpper_ne hhi).2.1, Ne.symm (hexUpper_ne hhi).2.2, Ne.symm (hexUpper_ne hlo).2.1,
        Ne.symm (hexUpper_ne hlo).2.2]
  simp only [encodePart, List.mem_flatMap, not_exists, not_and]
  exact ⟨fun b _ => (hbyte b).1, fun b _ => (hbyte b).2⟩

theorem decodePair_encodePair (p : Text × Text) : decodePair (encodePair p) = p := by
  have hname := (notMem_encodePart p.1).2
  have hall : ∀ b ∈ encodePart p.1, (decide (b ≠ 61)) = true := fun b hb => by
    simpa using fun he : b = 61 => hname (he ▸ hb)
  have htake : (encodePair p).takeWhile (· ≠ 61) = encodePart p.1 := by
    rw [encodePair, List.takeWhile_append_of_pos hall]
    simp
  have hdrop : (encodePair p).dropWhile (· ≠ 61) = 61 :: encodePart p.2 := by
    rw [encodePair, List.dropWhile_append_of_pos hall]
    simp
  rw [decodePair, htake, hdrop, List.drop_one, List.tail_cons, decodePart_encodePart, decodePart_encodePart]

theorem encodePair_ne_nil (p : Text × Text) : encodePair p ≠ [] := by simp [encodePair]

/-- **The round trip of a form.** -/
theorem formPairs_encodeForm (pairs : List (Text × Text)) : formPairs (encodeForm pairs) = pairs := by
  have hmap : (pairs.map encodePair).map decodePair = pairs := by
    rw [List.map_map]
    exact (List.map_congr_left fun p _ => decodePair_encodePair p).trans (List.map_id pairs)
  by_cases hne : pairs = []
  · subst hne
    rfl
  have hamp : ∀ l ∈ pairs.map encodePair, 38 ∉ l := by
    intro l hl
    obtain ⟨p, -, rfl⟩ := List.mem_map.1 hl
    simp [encodePair, (notMem_encodePart p.1).1, (notMem_encodePart p.2).1]
  have hparts : ∀ l ∈ pairs.map encodePair, (decide (l ≠ [])) = true := by
    intro l hl
    obtain ⟨p, -, rfl⟩ := List.mem_map.1 hl
    simpa using encodePair_ne_nil p
  rw [formPairs, encodeForm, List.splitOn_intercalate 38 hamp (by simpa using hne), List.filter_eq_self.2 hparts, hmap]

/-- The form of the editor, in the order of its fields. -/
theorem decodeSave_encodeForm (layer revision summary content : Text) :
    decodeSave (encodeForm [("layer".toList, layer), ("revision".toList, revision), ("summary".toList, summary),
      ("content".toList, content)]) =
        .ok { content, summary := some summary, layer := some layer, revision := some revision } := by
  rw [decodeSave, formPairs_encodeForm]
  rfl

theorem decodeViewQuery_edit : decodeViewQuery "edit=1".toList = .ok ⟨some 1, none⟩ := by rfl

theorem decodeViewQuery_source : decodeViewQuery "source=1".toList = .ok ⟨none, some 1⟩ := by rfl

end

end Wikikiki
