/-
Conditional headers (web/mod.rs): `precondition_from_headers` and what the
headers of a request say before anybody reads them.

A header map holds its lines in order and may hold several of one name.
`HeaderMap::get` sees the first line only, and `HeaderValue::to_str` fails on
a byte that is not visible ASCII, a space or a tab. The function turns both
"no such line" and "a line that does not decode" into `None`, and this is
where it departs from what the request says: `guarded_iff` is exact about
when a condition that was sent is honoured.
-/
import Wikikiki.Precondition

namespace Wikikiki

/-! ## Header maps -/

inductive HeaderName where
  | ifMatch
  | ifNoneMatch
  | other (name : Text)
  deriving DecidableEq

/-- A header value: no control character but the tab. -/
structure HeaderValue where
  bytes : Bytes
  legal : ∀ b ∈ bytes, (32 ≤ b ∧ b ≠ 127) ∨ b = 9

/-- Visible ASCII, a space or a tab. -/
def isVisible (b : UInt8) : Bool := (32 ≤ b && b < 127) || b == 9

theorem legal_of_visible {bytes : Bytes} (h : bytes.all isVisible = true) :
    ∀ b ∈ bytes, (32 ≤ b ∧ b ≠ 127) ∨ b = 9 := by
  intro b hb
  have hv := List.all_eq_true.1 h b hb
  simp only [isVisible, Bool.or_eq_true, Bool.and_eq_true, decide_eq_true_eq, beq_iff_eq] at hv
  refine hv.imp_left fun hlt => ⟨hlt.1, ?_⟩
  rintro rfl
  exact absurd hlt.2 (by decide)

def byteChar (b : UInt8) : Char := Char.ofNat b.toNat

/-- `HeaderValue::to_str`. -/
def HeaderValue.toStr (v : HeaderValue) : Option Text :=
  if v.bytes.all isVisible then some (v.bytes.map byteChar) else none

abbrev HeaderMap := List (HeaderName × HeaderValue)

/-- The lines of one field. -/
def HeaderMap.getAll (h : HeaderMap) (n : HeaderName) : List HeaderValue :=
  (h.filter fun p => p.1 = n).map Prod.snd

/-- `headers.get(n).and_then(|v| v.to_str().ok())`. -/
def HeaderMap.firstText (h : HeaderMap) (n : HeaderName) : Option Text :=
  (h.getAll n).head?.bind HeaderValue.toStr

/-! ## The translation -/

/-- `etag_for`. -/
def etagFor (revision : Text) : Text := '"' :: (revision ++ ['"'])

/-- `parse_etag`. -/
def parseEtag (raw : Text) : Option Text :=
  (Text.stripPrefix ['"'] (Text.trim raw)).bind (Text.stripSuffix ['"'])

/-- `precondition_from_headers`. -/
def preconditionFromHeaders (h : HeaderMap) : Except AppError Precondition :=
  match h.firstText .ifMatch, h.firstText .ifNoneMatch with
  | some _, some _ => .error (.badRequest "send If-Match or If-None-Match, not both".toList)
  | some m, none =>
    let m := Text.trim m
    if m = ['*'] then .ok .existing
    else if ',' ∈ m then .error (.badRequest "If-Match must carry a single entity tag".toList)
    else match parseEtag m with
      | some rev => .ok (.revision rev)
      | none => .error (.badRequest "If-Match must be a quoted entity tag or *".toList)
  | none, some n =>
    if Text.trim n = ['*'] then .ok .absent
    else .error (.badRequest "If-None-Match is only supported as *".toList)
  | none, none => .ok .none

/-! ## What the lines say -/

/-- The members of a comma-separated list; a comma between double quotes does
not separate. `cur` is the member read so far, reversed. -/
def listMembers : Bool → Bytes → Bytes → List Bytes
  | _, cur, [] => [cur.reverse]
  | quoted, cur, b :: bs =>
    if b = 44 ∧ quoted = false then cur.reverse :: listMembers false [] bs
    else listMembers (xor quoted (b = 34)) (b :: cur) bs

/-- Optional whitespace: a space or a tab. -/
def isOws (b : UInt8) : Bool := b == 32 || b == 9

def trimOws (bs : Bytes) : Bytes := (bs.dropWhile isOws).rdropWhile isOws

/-- The members that the lines of one field list together. -/
def members (lines : List HeaderValue) : List Bytes :=
  lines.flatMap fun v => (listMembers false [] v.bytes).map trimOws

/-- The lines list `*`. -/
def ListsStar (lines : List HeaderValue) : Prop := [42] ∈ members lines

/-- The lines list the entity tag of a revision. -/
def ListsTag (lines : List HeaderValue) (revision : Text) : Prop :=
  Text.utf8 (etagFor revision) ∈ members lines

/-- The conditions a request states hold of the page: `If-Match` wants the
current entity tag among its members, or any page for `*`; `If-None-Match: *`
wants no page. -/
def ConditionHolds (h : HeaderMap) (s : CurrentState) : Prop :=
  (h.getAll .ifMatch ≠ [] →
    (ListsStar (h.getAll .ifMatch) ∧ s ≠ .absent) ∨
      ∃ rev, s = .present (some rev) ∧ ListsTag (h.getAll .ifMatch) rev) ∧
  (ListsStar (h.getAll .ifNoneMatch) → s = .absent)

/-- A request with these headers is refused, or evaluated under a
precondition that implies what it stated. -/
def Guarded (h : HeaderMap) : Prop :=
  ∀ p, preconditionFromHeaders h = .ok p →
    p ≠ .none ∧ ∀ s, p.check s = .ok () → ConditionHolds h s

/-- A line is `*` or one quoted tag without a comma. -/
def StarOrTag (line : Text) : Prop :=
  Text.trim line = ['*'] ∨ (',' ∉ Text.trim line ∧ ∃ rev, parseEtag (Text.trim line) = some rev)

/-- Nothing that the first lines hide by not decoding was stated beside a
condition that is evaluated without it. -/
def NothingHidden (h : HeaderMap) : Prop :=
  match h.firstText .ifMatch, h.firstText .ifNoneMatch with
  | some _, some _ => True
  | some m, none => StarOrTag m → ¬ ListsStar (h.getAll .ifNoneMatch)
  | none, some n => Text.trim n = ['*'] → h.getAll .ifMatch = []
  | none, none => False

/-! ## Bytes and characters of a line that decodes -/

theorem forall_byte {P : UInt8 → Prop} (h : ∀ n : Fin 256, P (UInt8.ofNat n)) (b : UInt8) : P b := by
  have := h ⟨b.toNat, b.toNat_lt⟩
  simpa using this

theorem isWhitespace_byteChar (b : UInt8) : isVisible b = true → Text.isWhitespace (byteChar b) = isOws b :=
  forall_byte (P := fun b => isVisible b = true → Text.isWhitespace (byteChar b) = isOws b)
    (by decide +kernel) b

theorem utf8_byteChar (b : UInt8) : isVisible b = true → String.utf8EncodeChar (byteChar b) = [b] :=
  forall_byte (P := fun b => isVisible b = true → String.utf8EncodeChar (byteChar b) = [b])
    (by decide +kernel) b

theorem toStr_eq_some {v : HeaderValue} {t : Text} (h : v.toStr = some t) :
    t = v.bytes.map byteChar ∧ ∀ b ∈ v.bytes, isVisible b = true := by
  unfold HeaderValue.toStr at h
  split at h
  next hv => cases h; exact ⟨rfl, List.all_eq_true.1 hv⟩
  · cases h

theorem dropWhile_map_congr {α β : Type} {f : α → β} {p : β → Bool} {q : α → Bool} :
    ∀ {l : List α}, (∀ a ∈ l, p (f a) = q a) → (l.map f).dropWhile p = (l.dropWhile q).map f
  | [], _ => rfl
  | a :: l, h => by
    have ha := h a (by simp)
    have ih := dropWhile_map_congr (l := l) fun b hb => h b (by simp [hb])
    simp only [List.map_cons, List.dropWhile_cons, ha]
    split
    · exact ih
    · rfl

theorem trim_map_byteChar {bs : Bytes} (h : ∀ b ∈ bs, isVisible b = true) :
    Text.trim (bs.map byteChar) = (trimOws bs).map byteChar := by
  have hs : Text.trimStart (bs.map byteChar) = (bs.dropWhile isOws).map byteChar :=
    dropWhile_map_congr fun b hb => isWhitespace_byteChar b (h b hb)
  have hv : ∀ b ∈ (bs.dropWhile isOws).reverse, isVisible b = true := fun b hb =>
    h b ((List.dropWhile_sublist _).subset (List.mem_reverse.1 hb))
  rw [Text.trim, hs, Text.trimEnd, trimOws, List.rdropWhile, List.rdropWhile, ← List.map_reverse,
    dropWhile_map_congr fun b hb => isWhitespace_byteChar b (hv b hb), List.map_reverse]

theorem trimOws_subset (bs : Bytes) : trimOws bs ⊆ bs := fun _ hb =>
  (List.dropWhile_sublist _).subset ((List.rdropWhile_prefix _ _).subset hb)

theorem utf8_map_byteChar {bs : Bytes} (h : ∀ b ∈ bs, isVisible b = true) :
    Text.utf8 (bs.map byteChar) = bs := by
  induction bs with
  | nil => rfl
  | cons b bs ih =>
    have hb := utf8_byteChar b (h b (by simp))
    have := ih fun c hc => h c (by simp [hc])
    simp only [Text.utf8, List.map_cons, List.flatMap_cons, hb] at this ⊢
    rw [this]
    rfl

/-- Text of which every byte is visible, as `to_str` asks. -/
def Visible (t : Text) : Prop := ∀ b ∈ Text.utf8 t, isVisible b = true

instance (t : Text) : Decidable (Visible t) :=
  decidable_of_iff ((Text.utf8 t).all isVisible = true) List.all_eq_true

theorem visible_append {s t : Text} : Visible (s ++ t) ↔ Visible s ∧ Visible t := by
  simp only [Visible, Text.utf8, List.flatMap_append, List.mem_append, or_imp, forall_and]

theorem visible_cons {c : Char} {t : Text} : Visible (c :: t) ↔ Visible [c] ∧ Visible t :=
  visible_append (s := [c])

/-- What `to_str` makes of a line of text that was sent. -/
theorem toStr_of_text {v : HeaderValue} {line : Text} (h : v.bytes = Text.utf8 line) :
    v.toStr = if Visible line then some line else none := by
  unfold HeaderValue.toStr
  rw [h]
  by_cases hv : Visible line
  · have hline : (Text.utf8 line).map byteChar = line := Text.utf8_injective (utf8_map_byteChar hv)
    rw [if_pos hv, if_pos (List.all_eq_true.2 hv), hline]
  · rw [if_neg hv, if_neg fun hall => hv (List.all_eq_true.1 hall)]

/-- What `trim` leaves of a decoded line is, in bytes, what is left of it
without the optional whitespace. -/
theorem utf8_trim {v : HeaderValue} {t : Text} (h : v.toStr = some t) :
    Text.utf8 (Text.trim t) = trimOws v.bytes := by
  obtain ⟨rfl, hv⟩ := toStr_eq_some h
  rw [trim_map_byteChar hv, utf8_map_byteChar fun b hb => hv b (trimOws_subset _ hb)]

/-! ## A line without a comma is one member -/

theorem listMembers_of_no_comma : ∀ {bs : Bytes} {q : Bool} {cur : Bytes}, 44 ∉ bs →
    listMembers q cur bs = [cur.reverse ++ bs]
  | [], _, _, _ => by simp [listMembers]
  | b :: bs, q, cur, h => by
    simp only [List.mem_cons, not_or] at h
    rw [listMembers, if_neg fun hc => h.1 hc.1.symm, listMembers_of_no_comma h.2]
    simp

/-- A comma is not whitespace, so trimming loses none. -/
theorem comma_mem_trimOws {bs : Bytes} (h : 44 ∈ bs) : 44 ∈ trimOws bs := by
  have keep : ∀ {l : Bytes}, 44 ∈ l → 44 ∈ l.dropWhile isOws := by
    intro l hl
    rw [← List.takeWhile_append_dropWhile (p := isOws) (l := l), List.mem_append] at hl
    rcases hl with hl | hl
    · exact absurd (List.mem_takeWhile_imp hl) (by decide)
    · exact hl
  rw [trimOws, List.rdropWhile, List.mem_reverse]
  exact keep (List.mem_reverse.2 (keep h))

theorem mem_members_of_head {lines : List HeaderValue} {v : HeaderValue} (hv : lines.head? = some v)
    (hc : 44 ∉ trimOws v.bytes) : trimOws v.bytes ∈ members lines := by
  have hmem := List.mem_of_head? hv
  have hb : 44 ∉ v.bytes := fun h => hc (comma_mem_trimOws h)
  exact List.mem_flatMap.2 ⟨v, hmem, by simp [listMembers_of_no_comma hb]⟩

/-- The trimmed first line, when it has no comma, is one of the members. -/
theorem utf8_trim_mem_members {h : HeaderMap} {n : HeaderName} {t : Text} (ht : h.firstText n = some t)
    (hc : ',' ∉ Text.trim t) : Text.utf8 (Text.trim t) ∈ members (h.getAll n) := by
  obtain ⟨v, hv, hvt⟩ := Option.bind_eq_some_iff.1 ht
  obtain ⟨rfl, hvis⟩ := toStr_eq_some hvt
  rw [utf8_trim hvt]
  rw [trim_map_byteChar hvis] at hc
  exact mem_members_of_head hv fun h44 => hc (List.mem_map.2 ⟨44, h44, by decide⟩)

theorem listsStar_of_firstText {h : HeaderMap} {n : HeaderName} {t : Text} (ht : h.firstText n = some t)
    (hs : Text.trim t = ['*']) : ListsStar (h.getAll n) := by
  have := utf8_trim_mem_members ht (by rw [hs]; decide)
  rwa [hs] at this

/-- `parse_etag` undoes `etag_for`. -/
theorem parseEtag_eq_some {raw rev : Text} : parseEtag raw = some rev ↔ Text.trim raw = etagFor rev := by
  simp only [parseEtag, Option.bind_eq_some_iff, Text.stripPrefix_eq_some, Text.stripSuffix_eq_some,
    etagFor]
  constructor
  · intro hex
    obtain ⟨_, h, rfl⟩ := hex
    exact h
  · intro h; exact ⟨_, h, rfl⟩

theorem listsTag_of_firstText {h : HeaderMap} {n : HeaderName} {t rev : Text} (ht : h.firstText n = some t)
    (hc : ',' ∉ Text.trim t) (hr : parseEtag (Text.trim t) = some rev) : ListsTag (h.getAll n) rev := by
  rw [parseEtag_eq_some, Text.trim_trim] at hr
  rw [ListsTag, ← hr]
  exact utf8_trim_mem_members ht hc

/-! ## When a condition is honoured -/

/-- What an `If-Match` line that is evaluated alone becomes. -/
theorem preconditionFromHeaders_ifMatch {h : HeaderMap} {m : Text} {p : Precondition}
    (hm : h.firstText .ifMatch = some m) (hn : h.firstText .ifNoneMatch = none) :
    preconditionFromHeaders h = .ok p ↔
      (Text.trim m = ['*'] ∧ p = .existing) ∨
        (',' ∉ Text.trim m ∧ ∃ rev, parseEtag (Text.trim m) = some rev ∧ p = .revision rev) := by
  have hstar : Text.trim m = ['*'] → parseEtag (Text.trim m) = none := by intro hs; rw [hs]; decide
  simp only [preconditionFromHeaders, hm, hn]
  by_cases hs : Text.trim m = ['*']
  · simp [hs, hs ▸ hstar hs, eq_comm]
  · by_cases hc : ',' ∈ Text.trim m
    · simp [hs, hc]
    · cases he : parseEtag (Text.trim m) <;> simp [hs, hc, eq_comm]

/-- The conditions hold wherever the check of an accepted `If-Match` passes,
unless the undecoded `If-None-Match` lines list `*`. -/
theorem conditionHolds_ifMatch {h : HeaderMap} {m : Text} {p : Precondition} {s : CurrentState}
    (hm : h.firstText .ifMatch = some m) (hn : h.firstText .ifNoneMatch = none)
    (hp : preconditionFromHeaders h = .ok p) (hs : p.check s = .ok ()) :
    ConditionHolds h s ↔ ¬ ListsStar (h.getAll .ifNoneMatch) := by
  rw [Precondition.check_eq_ok] at hs
  rcases (preconditionFromHeaders_ifMatch hm hn).1 hp with ⟨ht, rfl⟩ | ⟨hc, rev, hr, rfl⟩
  · have hne : s ≠ .absent := hs
    have hl := listsStar_of_firstText hm ht
    simp [ConditionHolds, hne, hl]
  · have hpres : s = .present (some rev) := hs
    have hl := listsTag_of_firstText hm hc hr
    simp [ConditionHolds, hpres, hl]

/-- **When a condition is honoured.** A request is refused or evaluated under
a precondition that implies every condition it stated, exactly when at least
one of its two fields starts with a line that decodes and the other one hides
nothing behind a line that does not. -/
theorem guarded_iff (h : HeaderMap) : Guarded h ↔ NothingHidden h := by
  unfold NothingHidden
  cases hm : h.firstText .ifMatch with
  | some m =>
    cases hn : h.firstText .ifNoneMatch with
    | some n => simp [Guarded, preconditionFromHeaders, hm, hn]
    | none =>
      constructor
      · intro hg hor
        rcases hor with ht | ⟨hc, rev, hr⟩
        · have hp := (preconditionFromHeaders_ifMatch hm hn).2 (.inl ⟨ht, rfl⟩)
          have hs : Precondition.existing.check (.present none) = .ok () := rfl
          exact (conditionHolds_ifMatch hm hn hp hs).1 ((hg _ hp).2 _ hs)
        · have hp := (preconditionFromHeaders_ifMatch hm hn).2 (.inr ⟨hc, rev, hr, rfl⟩)
          have hs : (Precondition.revision rev).check (.present (some rev)) = .ok () := by
            simp [Precondition.check]
          exact (conditionHolds_ifMatch hm hn hp hs).1 ((hg _ hp).2 _ hs)
      · intro hl p hp
        rcases (preconditionFromHeaders_ifMatch hm hn).1 hp with ⟨ht, rfl⟩ | ⟨hc, rev, hr, rfl⟩
        · exact ⟨by simp, fun s hs => (conditionHolds_ifMatch hm hn hp hs).2 (hl (.inl ht))⟩
        · exact ⟨by simp, fun s hs => (conditionHolds_ifMatch hm hn hp hs).2 (hl (.inr ⟨hc, rev, hr⟩))⟩
  | none =>
    cases hn : h.firstText .ifNoneMatch with
    | none => simp [Guarded, preconditionFromHeaders, hm, hn]
    | some n =>
      simp only [Guarded, preconditionFromHeaders, hm, hn]
      by_cases ht : Text.trim n = ['*']
      · -- Evaluated as "must not exist", under which no `If-Match` holds.
        have hpass : ∀ s, Precondition.absent.check s = .ok () ↔ s = .absent := fun s =>
          Precondition.check_eq_ok
        simp [ht, hpass, ConditionHolds]
      · simp [ht]

/-- A header that states a condition in bytes above 0x7F is evaluated as no
condition at all. -/
theorem undecodable_condition_ignored :
    ¬ ∀ h : HeaderMap, (h.getAll .ifMatch ≠ [] ∨ h.getAll .ifNoneMatch ≠ []) → Guarded h := by
  intro hall
  let v : HeaderValue := ⟨[34, 255, 34], by simp⟩
  have hg := hall [(.ifMatch, v)] (by decide)
  exact (hg .none rfl).1 rfl

end Wikikiki
