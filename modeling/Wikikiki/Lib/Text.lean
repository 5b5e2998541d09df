/-
Text the way Rust's `str` has it: a sequence of Unicode scalar values whose
length and slices are counted in UTF-8 bytes. Only the operations of `std`
that a program using `str` calls are here, each with the facts that make it
usable without unfolding it.

A `&s[..n]` that is not on a character boundary panics in Rust; here it is
`none`.
-/
import Mathlib.Data.List.DropRight

abbrev Text := List Char

abbrev Bytes := List UInt8

namespace Text

/-! ## Bytes -/

/-- `s.as_bytes()`. -/
def utf8 (s : Text) : Bytes := s.flatMap String.utf8EncodeChar

/-- `String::from_utf8`. -/
def fromUtf8 (b : Bytes) : Option Text := b.toByteArray.utf8Decode?.map Array.toList

/-- A byte that goes on a character. -/
def isContinuation (b : UInt8) : Bool := 0x80 ≤ b && b ≤ 0xBF

/-- Whether some character of three or four bytes begins with these two. -/
def beginsChar (b c : UInt8) : Bool :=
  (b == 0xE0 && 0xA0 ≤ c && c ≤ 0xBF) || (0xE1 ≤ b && b ≤ 0xEC && isContinuation c) ||
    (b == 0xED && 0x80 ≤ c && c ≤ 0x9F) || (0xEE ≤ b && b ≤ 0xEF && isContinuation c) ||
    (b == 0xF0 && 0x90 ≤ c && c ≤ 0xBF) || (0xF1 ≤ b && b ≤ 0xF3 && isContinuation c) ||
    (b == 0xF4 && 0x80 ≤ c && c ≤ 0x8F)

/-- How many bytes are replaced together where no character stands: those
that could have begun one. -/
def invalidLen : Bytes → Nat
  | b :: c :: d :: _ => if beginsChar b c then (if 0xF0 ≤ b && isContinuation d then 3 else 2) else 1
  | [b, c] => if beginsChar b c then 2 else 1
  | _ => 1

/-- The scan behind `fromUtf8Lossy`: `k` bytes of what was read earlier are
still to be skipped. -/
def lossyFrom : Nat → Bytes → Text
  | _, [] => []
  | k + 1, _ :: b => lossyFrom k b
  | 0, x :: b =>
    match (x :: b).toByteArray.utf8DecodeChar? 0 with
    | some c => c :: lossyFrom (c.utf8Size - 1) b
    | none => '\uFFFD' :: lossyFrom (invalidLen (x :: b) - 1) b

/-- `String::from_utf8_lossy`. -/
def fromUtf8Lossy (b : Bytes) : Text := lossyFrom 0 b

/-- `s.len()`. -/
def byteLen : Text → Nat
  | [] => 0
  | c :: s => c.utf8Size + byteLen s

/-- `&s[..n]`, `none` where Rust panics. -/
def sliceTo : Nat → Text → Option Text
  | 0, _ => some []
  | _ + 1, [] => none
  | n + 1, c :: s => if c.utf8Size ≤ n + 1 then (sliceTo (n + 1 - c.utf8Size) s).map (c :: ·) else none

/-- Every character is ASCII, one byte each. -/
def Ascii (s : Text) : Prop := ∀ c ∈ s, c.utf8Size = 1

instance (s : Text) : Decidable (Ascii s) :=
  decidable_of_iff (s.all (fun c => c.utf8Size = 1) = true) (by simp [Ascii])

theorem fromUtf8_utf8 (s : Text) : fromUtf8 (utf8 s) = some s := by
  have h : (utf8 s).toByteArray = List.utf8Encode s := by simp [utf8, List.utf8Encode]
  simp [fromUtf8, h, List.utf8Decode?_utf8Encode]

theorem utf8_injective : Function.Injective utf8 := fun s t h => by
  have hdecoded := congrArg fromUtf8 h
  simpa [fromUtf8_utf8] using hdecoded

theorem lossyFrom_append (a b : Bytes) : lossyFrom a.length (a ++ b) = lossyFrom 0 b := by
  induction a with
  | nil => rfl
  | cons x a ih => exact ih

/-- Nothing is replaced in what is UTF-8. -/
theorem fromUtf8Lossy_utf8 (s : Text) : fromUtf8Lossy (utf8 s) = s := by
  induction s with
  | nil => rfl
  | cons c s ih =>
    have hlen := String.length_utf8EncodeChar c
    obtain ⟨x, t, hx⟩ := List.exists_cons_of_ne_nil (l := String.utf8EncodeChar c) fun he => by
      have := c.utf8Size_pos
      simp [he] at hlen
      omega
    have hbytes : utf8 (c :: s) = x :: (t ++ utf8 s) := by simp [utf8, hx]
    have hread : (x :: (t ++ utf8 s)).toByteArray.utf8DecodeChar? 0 = some c := by
      rw [← hbytes, utf8, List.flatMap_cons, List.toByteArray_append]
      exact ByteArray.utf8DecodeChar?_utf8EncodeChar_append
    have hskip : c.utf8Size - 1 = t.length := by
      rw [hx, List.length_cons] at hlen
      omega
    rw [fromUtf8Lossy, hbytes]
    simp only [lossyFrom, hread, hskip, lossyFrom_append]
    exact congrArg (c :: ·) ih

theorem byteLen_pos {s : Text} (h : s ≠ []) : 1 ≤ byteLen s := by
  cases s with
  | nil => exact absurd rfl h
  | cons c s =>
    have := c.utf8Size_pos
    simp only [byteLen]
    omega

theorem Ascii.byteLen {s : Text} (h : Ascii s) : byteLen s = s.length := by
  induction s with
  | nil => rfl
  | cons c s ih =>
    have hc : c.utf8Size = 1 := h c (by simp)
    have hs := ih fun d hd => h d (by simp [hd])
    simp only [Text.byteLen, List.length_cons] at hs ⊢
    omega

/-- Every byte of an ASCII text is a character boundary. -/
theorem Ascii.sliceTo {s : Text} (h : Ascii s) {n : Nat} (hn : n ≤ s.length) :
    sliceTo n s = some (s.take n) := by
  induction s generalizing n with
  | nil => simp only [List.length_nil, Nat.le_zero] at hn; subst hn; rfl
  | cons c s ih =>
    cases n with
    | zero => rfl
    | succ n =>
      have hc : c.utf8Size = 1 := h c (by simp)
      have hs := ih (fun d hd => h d (by simp [hd])) (n := n) (by simpa using hn)
      simp [Text.sliceTo, hc, hs]

/-- Byte `n` is inside a character. -/
def InsideChar (n : Nat) (s : Text) : Prop :=
  ∃ a c b, s = a ++ c :: b ∧ byteLen a < n ∧ n < byteLen a + c.utf8Size

theorem byteLen_append (a b : Text) : byteLen (a ++ b) = byteLen a + byteLen b := by
  induction a with
  | nil => simp [byteLen]
  | cons c a ih =>
    simp only [List.cons_append, byteLen, ih]
    omega

theorem insideChar_cons {n : Nat} {c : Char} {s : Text} (h : c.utf8Size ≤ n) :
    InsideChar n (c :: s) ↔ InsideChar (n - c.utf8Size) s := by
  constructor
  · intro hex
    obtain ⟨a, d, b, hs, hlo, hhi⟩ := hex
    cases a with
    | nil =>
      obtain ⟨rfl, -⟩ := List.cons.inj hs
      simp only [byteLen] at hhi
      omega
    | cons e a =>
      obtain ⟨rfl, rfl⟩ := List.cons.inj hs
      simp only [byteLen] at hlo hhi
      exact ⟨a, d, b, rfl, by omega, by omega⟩
  · intro hex
    obtain ⟨a, d, b, rfl, hlo, hhi⟩ := hex
    refine ⟨c :: a, d, b, rfl, ?_, ?_⟩ <;> simp only [byteLen] <;> omega

/-- A slice inside the text panics exactly where it would cut a character. -/
theorem sliceTo_eq_none {n : Nat} {s : Text} (h : n ≤ byteLen s) : sliceTo n s = none ↔ InsideChar n s := by
  induction s generalizing n with
  | nil =>
    obtain rfl : n = 0 := Nat.le_zero.1 h
    simp [sliceTo, InsideChar]
  | cons c s ih =>
    cases n with
    | zero => simp [sliceTo, InsideChar]
    | succ n =>
      simp only [byteLen] at h
      by_cases hc : c.utf8Size ≤ n + 1
      · rw [sliceTo, if_pos hc, Option.map_eq_none_iff, ih (by omega), insideChar_cons hc]
      · rw [sliceTo, if_neg hc]
        refine iff_of_true rfl ⟨[], c, s, rfl, ?_, ?_⟩ <;> simp only [byteLen] <;> omega

/-- No byte at the end or behind it is inside a character. -/
theorem InsideChar.lt_byteLen {n : Nat} {s : Text} (h : InsideChar n s) : n < byteLen s := by
  obtain ⟨a, c, b, rfl, -, hhi⟩ := h
  simp only [byteLen_append, byteLen]
  omega

/-! ## Trimming, prefixes and splitting -/

/-- `char::is_whitespace`: the Unicode `White_Space` property. -/
def isWhitespace (c : Char) : Bool :=
  let n := c.toNat
  (9 ≤ n && n ≤ 13) || n == 32 || n == 0x85 || n == 0xA0 || n == 0x1680 ||
    (0x2000 ≤ n && n ≤ 0x200A) || n == 0x2028 || n == 0x2029 || n == 0x202F || n == 0x205F ||
    n == 0x3000

/-- Visible ASCII is no whitespace. -/
theorem isWhitespace_eq_false {c : Char} (hlo : 33 ≤ c.toNat) (hhi : c.toNat ≤ 126) : isWhitespace c = false := by
  simp only [isWhitespace, Bool.or_eq_false_iff, Bool.and_eq_false_iff, decide_eq_false_iff_not,
    beq_eq_false_iff_ne]
  omega

def trimStart (s : Text) : Text := s.dropWhile isWhitespace

def trimEnd (s : Text) : Text := s.rdropWhile isWhitespace

def trim (s : Text) : Text := trimEnd (trimStart s)

/-- `s.strip_prefix(p)`. -/
def stripPrefix (p s : Text) : Option Text := if p <+: s then some (s.drop p.length) else none

/-- `s.strip_suffix(p)`. -/
def stripSuffix (p s : Text) : Option Text :=
  if p <:+ s then some (s.take (s.length - p.length)) else none

/-- `s.split_once(c)`. -/
def splitOnce (c : Char) : Text → Option (Text × Text)
  | [] => none
  | d :: s => if d = c then some ([], s) else (splitOnce c s).map fun (a, b) => (d :: a, b)

/-- `s.lines()`: the pieces ended by `\n`, each without the `\r` before it,
and the unfinished last piece when there is one. -/
def lines (s : Text) : List Text :=
  let parts := s.splitOn '\n'
  let ended := parts.dropLast.map fun l => (stripSuffix ['\r'] l).getD l
  match parts.getLast? with
  | some (c :: l) => ended ++ [c :: l]
  | _ => ended

theorem trimStart_cons_of_not {c : Char} {s : Text} (h : isWhitespace c = false) :
    trimStart (c :: s) = c :: s := by simp [trimStart, h]

theorem trimEnd_append_singleton_of_not {c : Char} {s : Text} (h : isWhitespace c = false) :
    trimEnd (s ++ [c]) = s ++ [c] := by
  rw [trimEnd, List.rdropWhile_concat_neg _ _ _ (by simp [h])]

/-- What stands between two characters that are not whitespace survives `trim`. -/
theorem trim_eq_self {s : Text} (hs : ∀ c ∈ s.head?, isWhitespace c = false)
    (he : ∀ c ∈ s.getLast?, isWhitespace c = false) : trim s = s := by
  cases s with
  | nil => rfl
  | cons c s =>
    rw [trim, trimStart_cons_of_not (hs c (by simp))]
    have hne : c :: s ≠ [] := by simp
    rw [← List.dropLast_append_getLast hne]
    exact trimEnd_append_singleton_of_not (he _ (by simp [List.getLast?_eq_some_getLast hne]))

/-- Trimming at the start stops at a character that is not whitespace. -/
theorem trimStart_append {a b : Text} {c : Char} (hc : isWhitespace c = false) :
    trimStart (a ++ c :: b) = trimStart a ++ c :: b := by
  induction a with
  | nil => exact trimStart_cons_of_not hc
  | cons d a ih =>
    simp only [trimStart, List.cons_append, List.dropWhile_cons] at ih ⊢
    split
    · exact ih
    · rfl

theorem trimEnd_append {a b : Text} {c : Char} (hc : isWhitespace c = false) :
    trimEnd (a ++ c :: b) = a ++ c :: trimEnd b := by
  have h := trimStart_append (a := b.reverse) (b := a.reverse) hc
  simp only [trimStart] at h
  simp only [trimEnd, List.rdropWhile, List.reverse_append, List.reverse_cons, List.append_assoc,
    List.singleton_append, h]
  simp

theorem trimEnd_concat_space (s : Text) : trimEnd (s ++ [' ']) = trimEnd s :=
  List.rdropWhile_concat_pos _ _ _ (by decide)

theorem trimEnd_trimEnd (s : Text) : trimEnd (trimEnd s) = trimEnd s := List.rdropWhile_idempotent _ _

theorem trim_subset (s : Text) : trim s ⊆ s := fun _ hc =>
  (List.dropWhile_sublist _).subset ((List.rdropWhile_prefix _ _).subset hc)

/-- Trimming leaves no whitespace at either end. -/
theorem trim_trim (s : Text) : trim (trim s) = trim s := by
  refine trim_eq_self (fun c hc => ?_) (fun c hc => ?_)
  · have hne : trim s ≠ [] := by rintro h; simp [h] at hc
    obtain ⟨tl, htl⟩ : trim s <+: trimStart s := List.rdropWhile_prefix isWhitespace (trimStart s)
    have hhead : (trimStart s).head? = some c := by
      rw [← htl, List.head?_append_of_ne_nil _ hne]
      exact hc
    have := List.head?_dropWhile_not isWhitespace s
    rw [trimStart] at hhead
    simpa [hhead] using this
  · have hne : trim s ≠ [] := by rintro h; simp [h] at hc
    rw [List.getLast?_eq_some_getLast hne] at hc
    cases hc
    have hlast : ¬ isWhitespace ((trim s).getLast hne) :=
      List.rdropWhile_last_not isWhitespace (trimStart s) hne
    simpa using hlast

theorem trimStart_append_left {a b : Text} (h : ∀ c ∈ a, isWhitespace c = true) :
    trimStart (a ++ b) = trimStart b := by
  rw [trimStart, List.dropWhile_append_of_pos h]
  rfl

theorem trimStart_append_right {a b : Text} (h : trimStart a ≠ []) :
    trimStart (a ++ b) = trimStart a ++ b := by
  induction a with
  | nil => exact absurd rfl h
  | cons c a ih =>
    simp only [trimStart, List.cons_append, List.dropWhile_cons] at h ih ⊢
    split at h
    · next hc => rw [if_pos hc, if_pos hc, ih h]
    · next hc => rw [if_neg hc, if_neg hc, List.cons_append]

/-- Trimming leaves something exactly when it does so from both ends. -/
theorem trim_eq_nil {s : Text} : trim s = [] ↔ trimStart s = [] := by
  constructor
  · intro h
    rw [trim, trimEnd, List.rdropWhile_eq_nil_iff] at h
    by_contra hne
    obtain ⟨c, t, hs⟩ := List.exists_cons_of_ne_nil hne
    have hhead := List.head?_dropWhile_not isWhitespace s
    rw [show s.dropWhile isWhitespace = c :: t from hs] at hhead
    have hc := h c (by rw [hs]; simp)
    simp [hc] at hhead
  · intro h
    rw [trim, h]
    rfl

theorem trimStart_concat_space {s : Text} {w : Char} (hw : isWhitespace w = true) (hs : trimStart s = []) :
    trimStart (s ++ [w]) = [] := by
  rw [trimStart_append_left (List.dropWhile_eq_nil_iff.1 hs)]
  simp [trimStart, hw]

/-- Whitespace at the end is nothing to `trim`. -/
theorem trim_append_space {s : Text} {w : Char} (hw : isWhitespace w = true) :
    trim (s ++ [w]) = trim s := by
  by_cases hs : trimStart s = []
  · rw [trim, trim, hs, trimStart_concat_space hw hs]
  · rw [trim, trim, trimStart_append_right hs]
    exact List.rdropWhile_concat_pos _ _ _ hw

theorem trim_trimEnd (s : Text) : trim (trimEnd s) = trim s := by
  induction s using List.reverseRecOn with
  | nil => rfl
  | append_singleton s w ih =>
    by_cases hw : isWhitespace w = true
    · rw [trim_append_space hw, ← ih, trimEnd, List.rdropWhile_concat_pos _ _ _ hw]
      rfl
    · rw [trimEnd_append_singleton_of_not (by simpa using hw)]

theorem trimEnd_eq_nil {s : Text} : trimEnd s = [] ↔ trim s = [] := by
  rw [trim_eq_nil, trimEnd, trimStart, List.rdropWhile_eq_nil_iff, List.dropWhile_eq_nil_iff]

theorem stripPrefix_eq_some {p s r : Text} : stripPrefix p s = some r ↔ s = p ++ r := by
  simp only [stripPrefix]
  split
  next h =>
    obtain ⟨t, rfl⟩ := h
    simp
  next h =>
    simp only [reduceCtorEq, false_iff]
    intro heq
    subst heq
    exact h (List.prefix_append _ _)

theorem stripSuffix_eq_some {p s r : Text} : stripSuffix p s = some r ↔ s = r ++ p := by
  simp only [stripSuffix]
  split
  next h =>
    obtain ⟨t, rfl⟩ := h
    simp
  next h =>
    simp only [reduceCtorEq, false_iff]
    intro heq
    subst heq
    exact h (List.suffix_append _ _)

theorem splitOnce_append {c : Char} {a b : Text} (h : c ∉ a) :
    splitOnce c (a ++ c :: b) = some (a, b) := by
  induction a with
  | nil => simp [splitOnce]
  | cons d a ih =>
    simp only [List.mem_cons, not_or] at h
    simp [splitOnce, Ne.symm h.1, ih h.2]

theorem exists_splitOnce {c : Char} {s : Text} (h : c ∈ s) : ∃ p, splitOnce c s = some p := by
  induction s with
  | nil => simp at h
  | cons d s ih =>
    by_cases hd : d = c
    · exact ⟨([], s), by simp [splitOnce, hd]⟩
    · obtain ⟨p, hp⟩ := ih ((List.mem_cons.1 h).resolve_left (Ne.symm hd))
      exact ⟨(d :: p.1, p.2), by simp [splitOnce, hd, hp]⟩

/-- The first piece of a split does not hold the separator, and the two
pieces around it are the text. -/
theorem splitOnce_some {c : Char} {s a b : Text} (h : splitOnce c s = some (a, b)) :
    s = a ++ c :: b ∧ c ∉ a := by
  induction s generalizing a b with
  | nil => simp [splitOnce] at h
  | cons d s ih =>
    unfold splitOnce at h
    split at h
    · next hd =>
      simp only [Option.some.injEq, Prod.mk.injEq] at h
      obtain ⟨rfl, rfl⟩ := h
      exact ⟨by simp [hd], by simp⟩
    · next hd =>
      simp only [Option.map_eq_some_iff, Prod.mk.injEq, Prod.exists] at h
      obtain ⟨a', b', hs, rfl, rfl⟩ := h
      obtain ⟨rfl, hc⟩ := ih hs
      exact ⟨rfl, by simp [Ne.symm hd, hc]⟩

theorem intercalate_append {c : Char} {xs ys : List Text} (hx : xs ≠ []) (hy : ys ≠ []) :
    [c].intercalate (xs ++ ys) = [c].intercalate xs ++ c :: [c].intercalate ys := by
  induction xs with
  | nil => exact absurd rfl hx
  | cons x xs ih =>
    cases xs with
    | nil => simp [List.intercalate_cons_of_ne_nil hy]
    | cons y xs =>
      have h := ih (by simp)
      simp only [List.cons_append] at h ⊢
      simp [List.intercalate_cons_cons, h]

theorem splitOnce_eq_none {c : Char} {s : Text} : splitOnce c s = none ↔ c ∉ s := by
  constructor
  · intro h hc
    obtain ⟨p, hp⟩ := exists_splitOnce hc
    rw [hp] at h
    cases h
  · intro hc
    cases h : splitOnce c s with
    | none => rfl
    | some p =>
      obtain ⟨rfl, -⟩ := splitOnce_some (a := p.1) (b := p.2) h
      exact absurd (by simp) hc

/-- Of two characters that a text has, one comes first. -/
theorem first_of_two {c d : Char} {s : Text} (hne : c ≠ d) (hc : c ∈ s) (hd : d ∈ s) :
    (∃ a m r, s = a ++ c :: (m ++ d :: r) ∧ c ∉ a ∧ d ∉ a ∧ d ∉ m) ∨
      ∃ a m r, s = a ++ d :: (m ++ c :: r) ∧ d ∉ a ∧ c ∉ a ∧ c ∉ m := by
  have tail : ∀ {e : Char} {t : Text}, e ∈ t → ∃ m r, t = m ++ e :: r ∧ e ∉ m := by
    intro e t he
    obtain ⟨p, hp⟩ := exists_splitOnce he
    exact ⟨p.1, p.2, splitOnce_some hp⟩
  induction s with
  | nil => simp at hc
  | cons e s ih =>
    rw [List.mem_cons] at hc hd
    by_cases hec : c = e
    · subst hec
      obtain ⟨m, r, rfl, hm⟩ := tail (hd.resolve_left (Ne.symm hne))
      exact .inl ⟨[], m, r, by simp, by simp, by simp, hm⟩
    by_cases hed : d = e
    · subst hed
      obtain ⟨m, r, rfl, hm⟩ := tail (hc.resolve_left hne)
      exact .inr ⟨[], m, r, by simp, by simp, by simp, hm⟩
    rcases ih (hc.resolve_left hec) (hd.resolve_left hed) with
      ⟨a, m, r, rfl, h₁, h₂, hm⟩ | ⟨a, m, r, rfl, h₁, h₂, hm⟩
    · exact .inl ⟨e :: a, m, r, by simp, by simp [hec, h₁], by simp [hed, h₂], hm⟩
    · exact .inr ⟨e :: a, m, r, by simp, by simp [hed, h₁], by simp [hec, h₂], hm⟩

/-- They cannot both be the first. -/
theorem not_both_first {c d : Char} {a b x y : Text} (hne : c ≠ d) (hd : d ∉ a) (hc : c ∉ x) :
    a ++ c :: b ≠ x ++ d :: y := by
  intro h
  rcases List.append_eq_append_iff.1 h with ⟨t, rfl, ht⟩ | ⟨t, rfl, ht⟩
  · cases t with
    | nil => exact hne (by simpa using (List.cons.inj ht).1)
    | cons e t =>
      obtain ⟨rfl, -⟩ := List.cons.inj ht
      exact hc (by simp)
  · cases t with
    | nil => exact hne (by simpa using (List.cons.inj ht).1.symm)
    | cons e t =>
      obtain ⟨rfl, -⟩ := List.cons.inj ht
      exact hd (by simp)

theorem mem_intercalate {c sep : Char} {xs : List Text} (h : c ∈ [sep].intercalate xs) :
    (∃ x ∈ xs, c ∈ x) ∨ c = sep := by
  induction xs with
  | nil => simp at h
  | cons x xs ih =>
    cases xs with
    | nil => exact .inl ⟨x, by simp, by simpa using h⟩
    | cons y xs =>
      rw [List.intercalate_cons_cons] at h
      simp only [List.mem_append, List.mem_singleton] at h
      rcases h with (hx | hsep) | hrest
      · exact .inl ⟨x, by simp, hx⟩
      · exact .inr hsep
      · rcases ih hrest with ⟨z, hz, hc⟩ | hc
        · exact .inl ⟨z, List.mem_cons_of_mem _ hz, hc⟩
        · exact .inr hc

/-- The pieces of one text start with those of another exactly when it is the
other text, or that text and a separator start it. -/
theorem splitOn_prefix {c : Char} {a b : Text} :
    a.splitOn c <+: b.splitOn c ↔ a = b ∨ a ++ [c] <+: b := by
  constructor
  · intro h
    obtain ⟨t, ht⟩ := h
    have hb := congrArg [c].intercalate ht
    rw [List.intercalate_splitOn] at hb
    by_cases hnil : t = []
    · left
      rwa [hnil, List.append_nil, List.intercalate_splitOn] at hb
    · right
      rw [intercalate_append (List.splitOn_ne_nil c a) hnil, List.intercalate_splitOn] at hb
      exact ⟨[c].intercalate t, by rw [← hb]; simp⟩
  · intro h
    rcases h with rfl | ⟨r, rfl⟩
    · exact List.prefix_rfl
    · rw [List.append_assoc, List.singleton_append, List.splitOn_append_cons_self]
      exact List.prefix_append _ _

/-- A piece of a text has its characters from there. -/
theorem subset_of_mem_splitOn {c : Char} {s l : Text} (h : l ∈ s.splitOn c) : l ⊆ s := by
  have hjoin : ∀ xs : List Text, l ∈ xs → l ⊆ [c].intercalate xs := by
    intro xs
    induction xs with
    | nil => simp
    | cons x xs ih =>
      intro hl d hd
      cases xs with
      | nil => simpa [List.mem_singleton.1 hl] using hd
      | cons y xs =>
        rw [List.intercalate_cons_cons, List.append_assoc, List.mem_append]
        rcases List.mem_cons.1 hl with rfl | hl
        · exact .inl hd
        · exact .inr (List.mem_append_right _ (ih hl hd))
  have hs := hjoin _ h
  rwa [List.intercalate_splitOn] at hs

/-- A piece does not have the separator. -/
theorem notMem_of_mem_splitOn {c : Char} {s l : Text} (h : l ∈ s.splitOn c) : c ∉ l := by
  induction s generalizing l with
  | nil =>
    obtain rfl : l = [] := by simpa using h
    exact List.not_mem_nil
  | cons d s ih =>
    obtain ⟨x, xs, hs⟩ := List.exists_cons_of_ne_nil (List.splitOn_ne_nil c s)
    rw [List.splitOn_cons_eq_if_modifyHead, hs] at h
    rw [hs] at ih
    split at h
    · rcases List.mem_cons.1 h with rfl | hl
      · exact List.not_mem_nil
      · exact ih hl
    next hd =>
      rw [List.modifyHead_cons] at h
      rcases List.mem_cons.1 h with rfl | hl
      · have hx := ih List.mem_cons_self
        have hcd : c ≠ d := fun he => hd (by simp [he])
        simp [hcd, hx]
      · exact ih (List.mem_cons_of_mem _ hl)

/-- The byte of a slash stands for a slash only. -/
theorem slash_mem_utf8EncodeChar {c : Char} : 47 ∈ String.utf8EncodeChar c ↔ c = '/' := by
  constructor
  · intro h
    have hmod : ∀ n : Nat, UInt8.ofNat n = 47 → n % 256 = 47 := fun n hn => by
      simpa using congrArg UInt8.toNat hn
    unfold String.utf8EncodeChar at h
    simp only at h
    have hlast : c.val.toNat = 47 := by
      split at h
      · have := hmod _ (List.mem_singleton.1 h).symm
        omega
      · exfalso
        split at h
        · simp only [List.mem_cons, List.not_mem_nil, or_false] at h
          rcases h with h | h <;> have := hmod _ h.symm <;> omega
        split at h
        · simp only [List.mem_cons, List.not_mem_nil, or_false] at h
          rcases h with h | h | h <;> have := hmod _ h.symm <;> omega
        · simp only [List.mem_cons, List.not_mem_nil, or_false] at h
          rcases h with h | h | h | h <;> have := hmod _ h.symm <;> omega
    exact Char.ext (UInt32.toNat_inj.1 hlast)
  · rintro rfl
    decide

theorem utf8_intercalate_slash (xs : List Text) :
    utf8 (['/'].intercalate xs) = [47].intercalate (xs.map utf8) := by
  induction xs with
  | nil => rfl
  | cons x xs ih =>
    cases xs with
    | nil => simp
    | cons y xs =>
      have hslash : utf8 ['/'] = [47] := by decide
      rw [List.intercalate_cons_cons, List.map_cons, List.map_cons, List.intercalate_cons_cons, ← List.map_cons,
        ← ih, ← hslash]
      simp [utf8]

/-- Splitting a text at the slashes and splitting its bytes come to the same. -/
theorem splitOn_utf8_slash (s : Text) : (utf8 s).splitOn 47 = (s.splitOn '/').map utf8 := by
  have hne : (s.splitOn '/').map utf8 ≠ [] := by simp [List.splitOn_ne_nil]
  have hno : ∀ l ∈ (s.splitOn '/').map utf8, 47 ∉ l := by
    intro l hl
    obtain ⟨x, hx, rfl⟩ := List.mem_map.1 hl
    intro hmem
    obtain ⟨c, hc, hbyte⟩ := List.mem_flatMap.1 hmem
    rw [slash_mem_utf8EncodeChar.1 hbyte] at hc
    exact notMem_of_mem_splitOn hx hc
  rw [← List.splitOn_intercalate 47 hno hne, ← utf8_intercalate_slash, List.intercalate_splitOn]

/-- The lines of a text go on after a newline. -/
theorem lines_append_newline (a b : Text) :
    lines (a ++ '\n' :: b) = (a.splitOn '\n').map (fun l => (stripSuffix ['\r'] l).getD l) ++ lines b := by
  have hne : b.splitOn '\n' ≠ [] := List.splitOn_ne_nil '\n' b
  have hdrop : (a.splitOn '\n' ++ b.splitOn '\n').dropLast = a.splitOn '\n' ++ (b.splitOn '\n').dropLast :=
    List.dropLast_append_of_ne_nil hne
  have hlast : (a.splitOn '\n' ++ b.splitOn '\n').getLast? = (b.splitOn '\n').getLast? :=
    List.getLast?_append_of_ne_nil _ hne
  simp only [lines, List.splitOn_append_cons_self, hdrop, hlast, List.map_append]
  split
  · simp
  · rfl

theorem lines_of_notMem {a : Text} (h : '\n' ∉ a) (hne : a ≠ []) : lines a = [a] := by
  obtain ⟨c, t, rfl⟩ := List.exists_cons_of_ne_nil hne
  simp [lines, List.splitOn_eq_singleton h]

/-! ## Replacing -/

/-- The scan behind `replaceAll`: `k` characters of a match found earlier are
still to be skipped. -/
def replaceFrom (pat rep : Text) : Nat → Text → Text
  | _, [] => []
  | k + 1, _ :: s => replaceFrom pat rep k s
  | 0, c :: s =>
    if pat <+: c :: s then rep ++ replaceFrom pat rep (pat.length - 1) s
    else c :: replaceFrom pat rep 0 s

/-- `s.replace(pat, rep)` for a pattern that is not empty: matches are taken
from the left and do not overlap. -/
def replaceAll (pat rep s : Text) : Text := replaceFrom pat rep 0 s

/-- A character that the pattern does not have separates the text for the
scan, too: no match reaches over it. -/
theorem replaceFrom_append {pat rep b : Text} {c : Char} (hc : c ∉ pat) (hpat : pat ≠ []) :
    ∀ {a : Text} {k : Nat}, k ≤ a.length →
      replaceFrom pat rep k (a ++ c :: b) = replaceFrom pat rep k a ++ c :: replaceAll pat rep b
  | [], 0, _ => by
    have hno : ¬ pat <+: c :: b := by
      intro h
      obtain ⟨d, pat, rfl⟩ := List.exists_cons_of_ne_nil hpat
      obtain ⟨rfl, -⟩ := List.cons_prefix_cons.1 h
      exact hc (by simp)
    simp [replaceFrom, replaceAll, hno]
  | _ :: a, k + 1, hk => by
    have hk' : k ≤ a.length := by simpa using hk
    simpa [replaceFrom] using replaceFrom_append hc hpat hk'
  | d :: a, 0, _ => by
    have hiff : pat <+: d :: a ++ c :: b ↔ pat <+: d :: a := by
      constructor
      · intro h
        rcases List.prefix_or_prefix_of_prefix h (List.prefix_append (d :: a) (c :: b)) with hp | ⟨t, rfl⟩
        · exact hp
        · rw [List.prefix_append_right_inj] at h
          cases t with
          | nil => simp
          | cons e t =>
            obtain ⟨rfl, -⟩ := List.cons_prefix_cons.1 h
            exact absurd (by simp) hc
      · intro h
        exact h.trans (List.prefix_append _ _)
    have hlen : pat <+: d :: a → pat.length - 1 ≤ a.length := by
      intro h
      have := h.length_le
      simp only [List.length_cons] at this
      omega
    by_cases h : pat <+: d :: a
    · have h' := hiff.2 h
      simp only [List.cons_append] at h'
      simp only [List.cons_append, replaceFrom, if_pos h, if_pos h', replaceFrom_append hc hpat (hlen h),
        List.append_assoc]
    · have h' := mt hiff.1 h
      simp only [List.cons_append] at h'
      simp only [List.cons_append, replaceFrom, if_neg h, if_neg h',
        replaceFrom_append hc hpat (Nat.zero_le _)]

theorem replaceAll_append {pat rep a b : Text} {c : Char} (hc : c ∉ pat) (hpat : pat ≠ []) :
    replaceAll pat rep (a ++ c :: b) = replaceAll pat rep a ++ c :: replaceAll pat rep b :=
  replaceFrom_append hc hpat (Nat.zero_le _)

/-- Every character of the result comes from the text or from the
replacement. -/
theorem of_mem_replaceFrom {pat rep : Text} {c : Char} :
    ∀ {s : Text} {k : Nat}, c ∈ replaceFrom pat rep k s → c ∈ s ∨ c ∈ rep
  | [], _, h => by simp [replaceFrom] at h
  | d :: s, k + 1, h => (of_mem_replaceFrom (s := s) (k := k) h).imp_left (List.mem_cons_of_mem _)
  | d :: s, 0, h => by
    unfold replaceFrom at h
    split at h
    · rcases List.mem_append.1 h with h | h
      · exact .inr h
      · exact (of_mem_replaceFrom h).imp_left (List.mem_cons_of_mem _)
    · rcases List.mem_cons.1 h with rfl | h
      · exact .inl (by simp)
      · exact (of_mem_replaceFrom h).imp_left (List.mem_cons_of_mem _)

end Text
