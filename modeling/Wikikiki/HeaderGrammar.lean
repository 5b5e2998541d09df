/-
The grammar of the conditional headers: what `precondition_from_headers`
(web/mod.rs) says it honours, stated over all lines of the two fields, and
which header maps it treats accordingly.

One strong tag, `*`, or nothing: everything else is to be refused. The
function reads the first line of a field only, looks for a comma instead of
the end of a tag, and takes a line that does not decode for none, so that
`headers_exact_iff` has a condition.
-/
import Wikikiki.Headers

namespace Wikikiki

/-! ## The grammar -/

/-- The line is `text` between optional whitespace. -/
def HeaderValue.Says (v : HeaderValue) (text : Text) : Prop := Text.utf8 text = trimOws v.bytes

/-- What the header maps of the grammar ask for. -/
def Documented (h : HeaderMap) : Precondition → Prop
  | .none => h.getAll .ifMatch = [] ∧ h.getAll .ifNoneMatch = []
  | .revision r => ∃ v, h.getAll .ifMatch = [v] ∧ h.getAll .ifNoneMatch = [] ∧ v.Says ('"' :: r ++ ['"']) ∧ '"' ∉ r
  | .existing => ∃ v, h.getAll .ifMatch = [v] ∧ h.getAll .ifNoneMatch = [] ∧ v.Says ['*']
  | .absent => ∃ v, h.getAll .ifMatch = [] ∧ h.getAll .ifNoneMatch = [v] ∧ v.Says ['*']

/-- The function accepts what is in the grammar, as what it asks for, and
nothing else; and what it does not accept is a bad request. -/
def ExactlyRead (h : HeaderMap) : Prop :=
  (∀ p, preconditionFromHeaders h = .ok p ↔ Documented h p) ∧
    ∀ e, preconditionFromHeaders h = .error e → ∃ msg, e = .badRequest msg

/-- One line of the one field, and none of the other. -/
def HeaderMap.OnlyLine (h : HeaderMap) (n other : HeaderName) : Prop :=
  (h.getAll n).length = 1 ∧ h.getAll other = []

/-- Nothing that the function accepts stands beside another line, an accepted
tag has no quote in it, a refused one has a quote beside its comma, and where
no first line decodes there is none. -/
def InGrammar (h : HeaderMap) : Prop :=
  match h.firstText .ifMatch, h.firstText .ifNoneMatch with
  | some _, some _ => True
  | some m, none =>
    (h.OnlyLine .ifMatch .ifNoneMatch → ∀ r, Text.trim m = etagFor r → ('"' ∈ r ↔ ',' ∈ r)) ∧
      (¬ h.OnlyLine .ifMatch .ifNoneMatch → ¬ StarOrTag m)
  | none, some n => Text.trim n = ['*'] → h.OnlyLine .ifNoneMatch .ifMatch
  | none, none => h.getAll .ifMatch = [] ∧ h.getAll .ifNoneMatch = []

/-! ## Lines that decode -/

section

variable {h : HeaderMap} {n : HeaderName} {v : HeaderValue} {t m x : Text} {p : Precondition}

theorem says_iff (hv : v.toStr = some t) : v.Says x ↔ Text.trim t = x := by
  rw [HeaderValue.Says, ← utf8_trim hv]
  constructor
  · intro heq
    exact Text.utf8_injective heq.symm
  · intro heq
    rw [heq]

theorem firstText_eq_some (ht : h.firstText n = some t) :
    ∃ v rest, h.getAll n = v :: rest ∧ v.toStr = some t := by
  obtain ⟨v, hv, hvt⟩ := Option.bind_eq_some_iff.1 ht
  obtain ⟨rest, hrest⟩ := List.head?_eq_some_iff.1 hv
  exact ⟨v, rest, hrest, hvt⟩

theorem comma_mem_etagFor {r : Text} : ',' ∈ etagFor r ↔ ',' ∈ r := by simp [etagFor]

/-! ## The grammar of the first line -/

/-- An `If-Match` line of the grammar. -/
theorem documented_ifMatch (hm : h.firstText .ifMatch = some m) :
    Documented h p ↔ h.OnlyLine .ifMatch .ifNoneMatch ∧
      ((Text.trim m = ['*'] ∧ p = .existing) ∨ ∃ r, Text.trim m = etagFor r ∧ '"' ∉ r ∧ p = .revision r) := by
  obtain ⟨v, rest, hall, hv⟩ := firstText_eq_some hm
  cases p with
  | none => simp [Documented, hall]
  | absent => simp [Documented, hall]
  | existing =>
    simp [Documented, hall, HeaderMap.OnlyLine, says_iff hv, and_assoc]
  | revision r =>
    simp [Documented, hall, HeaderMap.OnlyLine, says_iff hv, etagFor, and_assoc]

/-- An `If-None-Match` line of the grammar. -/
theorem documented_ifNoneMatch {t : Text} (hn : h.firstText .ifNoneMatch = some t) :
    Documented h p ↔ (h.OnlyLine .ifNoneMatch .ifMatch ∧ Text.trim t = ['*'] ∧ p = .absent) := by
  obtain ⟨v, rest, hall, hv⟩ := firstText_eq_some hn
  cases p with
  | none => simp [Documented, hall]
  | absent => simp [Documented, hall, HeaderMap.OnlyLine, says_iff hv, and_assoc, and_left_comm]
  | existing => simp [Documented, hall]
  | revision r => simp [Documented, hall]

theorem preconditionFromHeaders_error {e : AppError} (he : preconditionFromHeaders h = .error e) :
    ∃ msg, e = .badRequest msg := by
  simp only [preconditionFromHeaders] at he
  repeat' split at he
  all_goals cases he
  all_goals exact ⟨_, rfl⟩

/-- The lines of the field that are accepted are those of the grammar, when
each tag is in both or in neither. -/
theorem tags_agree {one : Prop} {line : Text} :
    (∀ p, ((line = ['*'] ∧ p = .existing) ∨ (',' ∉ line ∧ ∃ r, line = etagFor r ∧ p = .revision r)) ↔
      one ∧ ((line = ['*'] ∧ p = .existing) ∨ ∃ r, line = etagFor r ∧ '"' ∉ r ∧ p = Precondition.revision r)) ↔
    (one → ∀ r, line = etagFor r → ('"' ∈ r ↔ ',' ∈ r)) ∧
      (¬ one → ¬ (line = ['*'] ∨ (',' ∉ line ∧ ∃ r, line = etagFor r))) := by
  constructor
  · intro hall
    refine ⟨fun hone r hr => ?_, fun hmany hst => ?_⟩
    · have hrev := hall (.revision r)
      simp only [reduceCtorEq, and_false, false_or, Precondition.revision.injEq, hone, true_and] at hrev
      rw [hr, comma_mem_etagFor] at hrev
      constructor
      · intro hq
        by_contra hc
        obtain ⟨r', hr', hq', rfl⟩ := hrev.1 ⟨hc, r, rfl, rfl⟩
        exact hq' hq
      · intro hc
        by_contra hq
        exact (hrev.2 ⟨r, rfl, hq, rfl⟩).1 hc
    · rcases hst with hs | ⟨hc, r, hr⟩
      · exact hmany ((hall .existing).1 (.inl ⟨hs, rfl⟩)).1
      · exact hmany ((hall (.revision r)).1 (.inr ⟨hc, r, hr, rfl⟩)).1
  · intro hagree p
    obtain ⟨hsame, hnone⟩ := hagree
    by_cases hone : one
    · have htag : ∀ r, line = etagFor r → (',' ∉ line ↔ '"' ∉ r) := by
        intro r hr
        rw [hr, comma_mem_etagFor, hsame hone r hr]
      constructor
      · intro hor
        rcases hor with hs | ⟨hc, r, hr, rfl⟩
        · exact ⟨hone, .inl hs⟩
        · exact ⟨hone, .inr ⟨r, hr, (htag r hr).1 hc, rfl⟩⟩
      · intro hand
        rcases hand with ⟨-, hs | ⟨r, hr, hq, rfl⟩⟩
        · exact .inl hs
        · exact .inr ⟨(htag r hr).2 hq, r, hr, rfl⟩
    · refine iff_of_false (fun hor => hnone hone ?_) (fun hand => hone hand.1)
      rcases hor with ⟨hs, -⟩ | ⟨hc, r, hr, -⟩
      · exact .inl hs
      · exact .inr ⟨hc, r, hr⟩

end

/-! ## When the headers are read as documented -/

/-- **Which headers are read as documented.** -/
theorem exactlyRead_iff (h : HeaderMap) : ExactlyRead h ↔ InGrammar h := by
  have herr : ∀ e, preconditionFromHeaders h = .error e → ∃ msg, e = .badRequest msg := fun _ he =>
    preconditionFromHeaders_error he
  rw [ExactlyRead, and_iff_left herr]
  unfold InGrammar
  cases hm : h.firstText .ifMatch with
  | some m =>
    cases hn : h.firstText .ifNoneMatch with
    | some n =>
      -- Both fields: nothing is accepted, and nothing is documented.
      refine iff_of_true (fun p => ?_) trivial
      obtain ⟨w, rest, hall, -⟩ := firstText_eq_some hn
      have hno : ¬ h.OnlyLine .ifMatch .ifNoneMatch := fun ho => by simp [HeaderMap.OnlyLine, hall] at ho
      rw [documented_ifMatch hm]
      simp [preconditionFromHeaders, hm, hn, hno]
    | none =>
      simp only [preconditionFromHeaders_ifMatch hm hn, documented_ifMatch hm, StarOrTag, parseEtag_eq_some,
        Text.trim_trim]
      exact tags_agree
  | none =>
    cases hn : h.firstText .ifNoneMatch with
    | some n =>
      simp only [documented_ifNoneMatch hn, preconditionFromHeaders, hm, hn]
      by_cases ht : Text.trim n = ['*']
      · simp only [ht, if_true, Except.ok.injEq, true_and, true_imp_iff]
        constructor
        · intro hall
          exact ((hall .absent).1 rfl).1
        · intro hone p
          simp [hone, eq_comm]
      · simp [ht]
    | none =>
      simp only [preconditionFromHeaders, hm, hn, Except.ok.injEq]
      constructor
      · intro hall
        exact (hall .none).1 rfl
      · intro hnone p
        cases p <;> simp [Documented, hnone]

/-! ## A tag sent back -/

section

variable {v : HeaderValue} {rev : Text}

theorem utf8_etagFor (rev : Text) : Text.utf8 (etagFor rev) = 34 :: (Text.utf8 rev ++ [34]) := by
  have hquote : String.utf8EncodeChar '"' = [34] := by decide
  simp [Text.utf8, etagFor, hquote]

/-- A tag begins and ends with a quote, so there is nothing to trim. -/
theorem says_etagFor (hv : v.bytes = Text.utf8 (etagFor rev)) : v.Says (etagFor rev) := by
  have hquote : isOws 34 = false := by decide
  have hend : ∀ bs : Bytes, (bs ++ [34]).rdropWhile isOws = bs ++ [34] := fun bs =>
    List.rdropWhile_concat_neg _ _ _ (by simp [hquote])
  have hkeep := hend (34 :: Text.utf8 rev)
  rw [HeaderValue.Says, hv, utf8_etagFor, trimOws, List.dropWhile_cons_of_neg (by simp [hquote])]
  exact hkeep.symm

theorem toStr_etagFor (hv : v.bytes = Text.utf8 (etagFor rev)) :
    (∃ t, v.toStr = some t) ↔ ∀ b ∈ Text.utf8 rev, isVisible b = true := by
  have hquote : isVisible 34 = true := by decide
  simp [HeaderValue.toStr, hv, utf8_etagFor, hquote]

/-- The tag of a GET, sent back as the one line of a PUT. -/
theorem revision_of_etagFor (hv : v.bytes = Text.utf8 (etagFor rev)) :
    preconditionFromHeaders [(.ifMatch, v)] = .ok (.revision rev) ↔
      ',' ∉ rev ∧ ∀ b ∈ Text.utf8 rev, isVisible b = true := by
  rw [← toStr_etagFor hv]
  have hn : HeaderMap.firstText [(.ifMatch, v)] .ifNoneMatch = none := rfl
  cases hs : v.toStr with
  | none =>
    have hm : HeaderMap.firstText [(.ifMatch, v)] .ifMatch = none := hs
    simp [preconditionFromHeaders, hm, hn]
  | some t =>
    have hm : HeaderMap.firstText [(.ifMatch, v)] .ifMatch = some t := hs
    have ht : Text.trim t = etagFor rev := (says_iff hs).1 (says_etagFor hv)
    have hparse : parseEtag (Text.trim t) = some rev := by rw [parseEtag_eq_some, Text.trim_trim, ht]
    rw [preconditionFromHeaders_ifMatch hm hn]
    constructor
    · intro hor
      rcases hor with ⟨-, hp⟩ | ⟨hc, -⟩
      · cases hp
      · rw [ht, comma_mem_etagFor] at hc
        exact ⟨hc, t, rfl⟩
    · intro hand
      refine .inr ⟨?_, rev, hparse, rfl⟩
      rw [ht, comma_mem_etagFor]
      exact hand.1

end

/-- **The grammar of the headers.** A header map is read exactly as documented
when what is accepted of it stands alone, an accepted tag has no quote and a
refused one has more than its comma, and no field is there that does not
decode. The tag of a revision without a quote comes back as that revision when
it has no comma either and is visible ASCII; which every recorded revision
is. -/
theorem headers_exact_iff (h : HeaderMap) :
    (ExactlyRead h ↔ InGrammar h) ∧
    (∀ (rev : Text) (v : HeaderValue), '"' ∉ rev → v.bytes = Text.utf8 (etagFor rev) →
      (preconditionFromHeaders [(.ifMatch, v)] = .ok (.revision rev) ↔
        ',' ∉ rev ∧ ∀ b ∈ Text.utf8 rev, isVisible b = true)) ∧
    ∀ (rev : Text) (v : HeaderValue), IsSha256 rev → v.bytes = Text.utf8 (etagFor rev) →
      preconditionFromHeaders [(.ifMatch, v)] = .ok (.revision rev) := by
  refine ⟨exactlyRead_iff h, fun rev v _ hv => revision_of_etagFor hv, fun rev v hs hv => ?_⟩
  have hdigits : "0123456789abcdef".toList.all (fun c => c ≠ ',' ∧
      (String.utf8EncodeChar c).all isVisible = true) = true := by decide
  have hdigit : ∀ c ∈ rev, c ≠ ',' ∧ (String.utf8EncodeChar c).all isVisible = true := fun c hc => by
    simpa using List.all_eq_true.1 hdigits c (hs.2 c hc)
  refine (revision_of_etagFor hv).2 ⟨fun hc => (hdigit _ hc).1 rfl, fun b hb => ?_⟩
  obtain ⟨c, hc, hbc⟩ := List.mem_flatMap.1 hb
  exact List.all_eq_true.1 (hdigit c hc).2 b hbc

/-- Two lines with one tag each are read as the first one, and two tags with a
space between them as one; and the tag of a revision with a comma is refused
when it comes back. -/
theorem two_tags_accepted :
    let a : HeaderValue := ⟨Text.utf8 "\"a\"".toList, legal_of_visible (by decide)⟩
    let b : HeaderValue := ⟨Text.utf8 "\"b\"".toList, legal_of_visible (by decide)⟩
    let both : HeaderValue := ⟨Text.utf8 "\"a\" \"b\"".toList, legal_of_visible (by decide)⟩
    let comma : HeaderValue := ⟨Text.utf8 (etagFor "a,b".toList), legal_of_visible (by decide)⟩
    preconditionFromHeaders [(.ifMatch, a), (.ifMatch, b)] = .ok (.revision "a".toList) ∧
      preconditionFromHeaders [(.ifMatch, both)] = .ok (.revision "a\" \"b".toList) ∧
      preconditionFromHeaders [(.ifMatch, comma)] ≠ .ok (.revision "a,b".toList) ∧
      ¬ ExactlyRead [(.ifMatch, a), (.ifMatch, b)] ∧ ¬ ExactlyRead [(.ifMatch, both)] := by
  intro a b both comma
  have hlines : preconditionFromHeaders [(.ifMatch, a), (.ifMatch, b)] = .ok (.revision "a".toList) := by decide
  have hspace : preconditionFromHeaders [(.ifMatch, both)] = .ok (.revision "a\" \"b".toList) := by decide
  refine ⟨hlines, hspace, by decide, fun h => ?_, fun h => ?_⟩
  · obtain ⟨v, hv, -⟩ := (h.1 _).1 hlines
    cases hv
  · obtain ⟨v, -, -, -, hq⟩ := (h.1 _).1 hspace
    exact hq (by decide)

end Wikikiki
