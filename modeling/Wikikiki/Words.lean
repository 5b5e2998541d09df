/-
Which pages a query finds (pages/mod.rs, migrations/20260522120003_pages.sql):
the expression of `fts_match_query` against what `pages_fts` keeps of a page's
title and body.

The index cuts a word at everything that is no letter or digit. The query
keeps its hyphens and underscores and drops the rest, so that what stood
around it comes together. `queries_find_iff` says for which words this
matters.
-/
import Wikikiki.Lib.FullText
import Wikikiki.Search

namespace Wikikiki

open FullText (tokens holds startsWith Joined)

/-! ## What FTS5 does -/

/-- A quoted string with a `*` behind it. -/
def readPhrase (term : Text) : Option Text :=
  ((Text.stripPrefix ['"'] term).bind (Text.stripSuffix "\"*".toList)).filter fun phrase => '"' ∉ phrase

/-- The phrases of an expression, with a space between each and the next. -/
def readPhrases (e : Text) : Option (List Text) := (e.splitOn ' ').mapM readPhrase

/-- The tokens of a text, their case folded. -/
def Site.index (site : Site) (fold : Char → Char) (s : Text) : List Text :=
  (tokens site.isAlphanumeric s).map (·.map fold)

/-- `pages_fts MATCH ?` for one row: every phrase has to be in the title or in
the body, as a prefix. The path is not indexed. A phrase without a token is left
out, and where no other is left nothing is found. -/
def Site.matches (site : Site) (fold : Char → Char) (e : Text) (row : FtsRow) : Bool :=
  match readPhrases e with
  | none => false
  | some phrases =>
    (phrases.any fun phrase => !(site.index fold phrase).isEmpty) &&
      phrases.all fun phrase => [row.title, row.content].any fun column =>
        holds (site.index fold phrase) (site.index fold column)

/-- Whitespace and the quote are no letters or digits. -/
structure Site.Letters (site : Site) : Prop where
  whitespace : ∀ c, Text.isWhitespace c = true → site.isAlphanumeric c = false
  quote : site.isAlphanumeric '"' = false

/-! ## Words -/

/-- The words of a page. -/
def FtsRow.words (row : FtsRow) : List Text := queryWords row.title ++ queryWords row.content

/-- A word with a letter or digit. -/
def Site.IsWord (site : Site) (w : Text) : Prop :=
  (∀ c ∈ w, Text.isWhitespace c = false) ∧ ∃ c ∈ w, site.isAlphanumeric c = true

/-- Two letters or digits of the word with only characters between them that
the filter drops. -/
def Site.Joins (site : Site) (w : Text) : Prop := Joined site.isAlphanumeric site.wordChar w

section

variable {site : Site} {fold : Char → Char} {w v s : Text} {row : FtsRow} {q : Text}

/-- The pieces of a split: the first one starts the text, and each of the
others stands behind a separator. -/
theorem splitOnP_pieces {p : Char → Bool} {s h : Text} {t : List Text} (hs : s.splitOnP p = h :: t) :
    ((∃ b, s = h ++ b) ∧ ∀ c ∈ h, p c = false) ∧
      ∀ w ∈ t, (∃ a x b, s = a ++ x :: (w ++ b) ∧ p x = true) ∧ ∀ c ∈ w, p c = false := by
  induction s generalizing h t with
  | nil =>
    obtain ⟨rfl, rfl⟩ := List.cons.inj (hs.symm.trans (by simp) : h :: t = [[]])
    simp
  | cons c s ih =>
    obtain ⟨h', t', hs'⟩ := List.exists_cons_of_ne_nil (List.splitOnP_ne_nil p s)
    obtain ⟨⟨⟨b, hb⟩, hfirst⟩, hrest⟩ := ih hs'
    have hrest' : ∀ w ∈ t', (∃ a x b, c :: s = a ++ x :: (w ++ b) ∧ p x = true) ∧ ∀ c ∈ w, p c = false := by
      intro w hw
      obtain ⟨⟨a, x, b, hx⟩, hall⟩ := hrest w hw
      exact ⟨⟨c :: a, x, b, by simp [hx.1], hx.2⟩, hall⟩
    rw [List.splitOnP_cons_eq_if_modifyHead, hs'] at hs
    split at hs
    · next hc =>
      obtain ⟨rfl, rfl⟩ := List.cons.inj hs
      refine ⟨⟨⟨c :: s, rfl⟩, by simp⟩, fun w hw => ?_⟩
      rcases List.mem_cons.1 hw with rfl | hw
      · exact ⟨⟨[], c, b, by rw [hb]; rfl, hc⟩, hfirst⟩
      · exact hrest' w hw
    · next hc =>
      obtain ⟨rfl, rfl⟩ := List.cons.inj hs
      refine ⟨⟨⟨b, by rw [hb]; rfl⟩, ?_⟩, hrest'⟩
      rw [List.forall_mem_cons]
      exact ⟨by simpa using hc, hfirst⟩

/-- A word of a text is at its start, or behind whitespace. -/
theorem exists_of_mem_queryWords (h : w ∈ queryWords s) :
    ∃ b, s = w ++ b ∨ ∃ a x, s = a ++ x :: (w ++ b) ∧ Text.isWhitespace x = true := by
  obtain ⟨first, rest, hs⟩ := List.exists_cons_of_ne_nil (List.splitOnP_ne_nil Text.isWhitespace s)
  obtain ⟨⟨⟨b, hb⟩, -⟩, hrest⟩ := splitOnP_pieces hs
  rw [queryWords, hs] at h
  rcases List.mem_cons.1 (List.mem_filter.1 h).1 with rfl | hw
  · exact ⟨b, .inl hb⟩
  · obtain ⟨⟨a, x, b, hx⟩, -⟩ := hrest w hw
    exact ⟨b, .inr ⟨a, x, hx⟩⟩

theorem queryWords_eq (hw : ∀ c ∈ w, Text.isWhitespace c = false) (hne : w ≠ []) : queryWords w = [w] := by
  rw [queryWords, List.splitOnP_eq_singleton hw]
  simp [hne]

theorem Site.wordChar_of_isAlphanumeric {c : Char} (h : site.isAlphanumeric c = true) : site.wordChar c = true := by
  simp [wordChar, h]

theorem readPhrase_prefixTerm {body : Text} (h : '"' ∉ body) : readPhrase (prefixTerm body) = some body := by
  have hpre : Text.stripPrefix ['"'] (prefixTerm body) = some (body ++ "\"*".toList) :=
    Text.stripPrefix_eq_some.2 rfl
  have hsuf : Text.stripSuffix "\"*".toList (body ++ "\"*".toList) = some body := Text.stripSuffix_eq_some.2 rfl
  rw [readPhrase, hpre, Option.bind_some, hsuf]
  simp [Option.filter, h]

/-- The filter keeps no space and no quote. -/
theorem Site.Letters.notMem_kept (hsite : site.Letters) (v : Text) : ' ' ∉ site.kept v ∧ '"' ∉ site.kept v := by
  have hspace := hsite.whitespace ' ' (by decide)
  have hquote := hsite.quote
  refine ⟨fun hm => ?_, fun hm => ?_⟩
  · have hword := (List.mem_filter.1 hm).2
    simp [wordChar, hspace] at hword
  · have hword := (List.mem_filter.1 hm).2
    simp [wordChar, hquote] at hword

/-- The phrases of a query are what the filter leaves of its words. -/
theorem Site.readPhrases_ftsMatchQuery (hsite : site.Letters) (hq : queryWords q ≠ [])
    (hwords : ∀ v ∈ queryWords q, site.IsWord v) :
    readPhrases (site.ftsMatchQuery q) = some ((queryWords q).map site.kept) := by
  have hall : ((queryWords q).filter fun w => w.any site.wordChar) = queryWords q := by
    rw [List.filter_eq_self]
    intro v hv
    obtain ⟨-, c, hc, halnum⟩ := hwords v hv
    rw [List.any_eq_true]
    exact ⟨c, hc, wordChar_of_isAlphanumeric halnum⟩
  have hread : ∀ ws : List Text, (ws.map fun w => prefixTerm (site.kept w)).mapM readPhrase =
      some (ws.map site.kept) := by
    intro ws
    induction ws with
    | nil => rfl
    | cons w ws ih =>
      rw [List.map_cons, List.mapM_cons, readPhrase_prefixTerm (hsite.notMem_kept w).2, ih]
      rfl
  rw [ftsMatchQuery_eq, hall, readPhrases, List.splitOn_intercalate, hread]
  · intro term hterm
    obtain ⟨w, -, rfl⟩ := List.mem_map.1 hterm
    simp [prefixTerm, (hsite.notMem_kept w).1]
  · simpa using hq

/-- The filter leaves a token of each word. -/
theorem Site.IsWord.index_ne_nil (h : site.IsWord v) : site.index fold (site.kept v) ≠ [] := by
  obtain ⟨-, c, hc, halnum⟩ := h
  intro hnil
  have hm : c ∈ (tokens site.isAlphanumeric (site.kept v)).flatten := by
    rw [FullText.flatten_tokens]
    exact List.mem_filter.2 ⟨List.mem_filter.2 ⟨hc, wordChar_of_isAlphanumeric halnum⟩, halnum⟩
  rw [List.map_eq_nil_iff.1 hnil] at hm
  simp at hm

/-- A query matches a page when each of its words is found there. -/
theorem Site.matches_iff (hsite : site.Letters) (hq : queryWords q ≠ [])
    (hwords : ∀ v ∈ queryWords q, site.IsWord v) :
    site.matches fold (site.ftsMatchQuery q) row = true ↔
      ∀ v ∈ queryWords q, ∃ column ∈ [row.title, row.content],
        holds (site.index fold (site.kept v)) (site.index fold column) = true := by
  have hsome : ((queryWords q).map site.kept).any (fun phrase => !(site.index fold phrase).isEmpty) = true := by
    obtain ⟨v, vs, hv⟩ := List.exists_cons_of_ne_nil hq
    have hne : site.index fold (site.kept v) ≠ [] := (hwords v (hv ▸ .head _)).index_ne_nil
    simp [hv, hne]
  rw [«matches», readPhrases_ftsMatchQuery hsite hq hwords]
  simp only [hsome, Bool.true_and]
  simp

/-! ## One word -/

theorem Site.index_append_cons {a b : Text} {c : Char} (hc : site.isAlphanumeric c = false) :
    site.index fold (a ++ c :: b) = site.index fold a ++ site.index fold b := by
  rw [index, FullText.tokens_append_cons hc, List.map_append]
  rfl

/-- A word that is not joined is found wherever a word starts with it. -/
theorem Site.holds_of_prefix (hsite : site.Letters) (hjoin : ¬ site.Joins v) (hw : w ∈ queryWords s) (hv : v <+: w) :
    holds (site.index fold (site.kept v)) (site.index fold s) = true := by
  have htokens : tokens site.isAlphanumeric (site.kept v) = tokens site.isAlphanumeric v :=
    FullText.tokens_filter (fun c => wordChar_of_isAlphanumeric) hjoin
  have hstart : ∀ b, startsWith (site.index fold (site.kept v)) (site.index fold (v ++ b)) = true := by
    intro b
    rw [index, htokens]
    exact FullText.startsWith_map fold (FullText.startsWith_tokens_append _ v b)
  obtain ⟨x, rfl⟩ := hv
  obtain ⟨b, hs | ⟨a, y, hs, hy⟩⟩ := exists_of_mem_queryWords hw
  · rw [hs, List.append_assoc]
    exact FullText.holds_append (a := []) (hstart _)
  · rw [hs, List.append_assoc, index_append_cons (hsite.whitespace y hy)]
    exact FullText.holds_append (hstart _)

/-- A word that is joined is not found in itself. -/
theorem Site.not_holds_self (hjoin : site.Joins v) :
    holds (site.index fold (site.kept v)) (site.index fold v) = false := by
  have hlt := FullText.length_tokens_filter_lt (fun c => wordChar_of_isAlphanumeric) hjoin
  have hletters : ∀ s : Text, (site.index fold s).flatten = (s.filter site.isAlphanumeric).map fold := by
    intro s
    rw [index, ← List.map_flatten, FullText.flatten_tokens]
  have hkept : (site.kept v).filter site.isAlphanumeric = v.filter site.isAlphanumeric := by
    rw [kept, List.filter_filter]
    refine List.filter_congr fun c _ => ?_
    cases hc : site.isAlphanumeric c with
    | false => simp
    | true => simp [wordChar, hc]
  have hfew : (site.index fold (site.kept v)).length < (site.index fold v).length := by
    rw [index, index, List.length_map, List.length_map]
    exact hlt
  refine FullText.not_holds_of_fewer ?_ hfew (by rw [hletters, hletters, hkept])
  intro t ht
  obtain ⟨u, hu, rfl⟩ := List.mem_map.1 ht
  simpa using FullText.ne_nil_of_mem_tokens u hu

/-- Nothing is found in an empty title. -/
theorem Site.IsWord.not_holds_nil (h : site.IsWord v) :
    holds (site.index fold (site.kept v)) (site.index fold []) = false := by
  obtain ⟨t, ts, hts⟩ := List.exists_cons_of_ne_nil (h.index_ne_nil)
  rw [hts]
  rfl

end

/-- **Found by its words.** Whatever words a reader may choose from: every
query made of them finds every page that has words starting with those of the
query, exactly when in none of them two letters or digits have only dropped
characters between them. -/
theorem Site.queries_find_iff (site : Site) (fold : Char → Char) (hsite : site.Letters) (words : Set Text)
    (hwords : ∀ v ∈ words, site.IsWord v) :
    (∀ q row, queryWords q ≠ [] → (∀ v ∈ queryWords q, v ∈ words ∧ ∃ w ∈ row.words, v <+: w) →
      site.matches fold (site.ftsMatchQuery q) row = true) ↔ ∀ v ∈ words, ¬ site.Joins v := by
  constructor
  · intro h v hv hjoin
    have hword := hwords v hv
    have hne : v ≠ [] := List.ne_nil_of_mem hword.2.choose_spec.1
    have hq := queryWords_eq hword.1 hne
    let row : FtsRow := { title := [], content := v, path := [] }
    have hrow : ∀ u ∈ queryWords v, u ∈ words ∧ ∃ w ∈ row.words, u <+: w := by
      rw [hq, List.forall_mem_singleton]
      exact ⟨hv, v, List.mem_append_right _ (by rw [hq]; simp), List.prefix_rfl⟩
    have hm := h v row (by simp [hq]) hrow
    rw [matches_iff hsite (by simp [hq]) (by simpa [hq] using hword), hq, List.forall_mem_singleton] at hm
    obtain ⟨column, hcolumn, hholds⟩ := hm
    rcases List.mem_cons.1 hcolumn with rfl | hcolumn
    · rw [hword.not_holds_nil] at hholds
      cases hholds
    · obtain rfl := List.mem_singleton.1 hcolumn
      rw [not_holds_self hjoin] at hholds
      cases hholds
  · intro h q row hq hrow
    rw [matches_iff hsite hq fun v hv => hwords v (hrow v hv).1]
    intro v hv
    obtain ⟨hv, w, hw, hpre⟩ := hrow v hv
    rcases List.mem_append.1 hw with hw | hw
    · exact ⟨row.title, by simp, holds_of_prefix hsite (h v hv) hw hpre⟩
    · exact ⟨row.content, by simp, holds_of_prefix hsite (h v hv) hw hpre⟩

/-! ## Small pages -/

theorem Site.small_letters : Site.small.Letters where
  whitespace c hc := by
    change Char.isAlphanum c = false
    by_contra hne
    have halnum : Char.isAlphanum c = true := by simpa using hne
    have hrange : 48 ≤ c.toNat ∧ c.toNat ≤ 122 := by
      delta Char.isAlphanum Char.isAlpha Char.isUpper Char.isLower at halnum
      simp only [Char.isDigit, Bool.or_eq_true, Bool.and_eq_true, decide_eq_true_eq, ge_iff_le,
        UInt32.le_iff_toNat_le, Char.toNat_val] at halnum
      rcases halnum with (⟨hlo, hhi⟩ | ⟨hlo, hhi⟩) | ⟨hlo, hhi⟩
      all_goals
        simp at hlo hhi
        omega
    rw [Text.isWhitespace_eq_false (by omega) (by omega)] at hc
    cases hc
  quote := by decide

/-- A page with a hyphenated word, and the start of that word. -/
theorem Site.queries_find_hyphen :
    Site.small.matches Char.toLower (Site.small.ftsMatchQuery "big-id".toList)
      { title := "Notes".toList, content := "One Big-Idea, a big-idea.".toList, path := [] } = true := by
  refine (queries_find_iff Site.small Char.toLower small_letters {"big-id".toList} ?_).2 ?_ _ _ (by decide) ?_
  · rintro v rfl
    exact ⟨by simp [Text.isWhitespace], 'b', by decide, by decide⟩
  · rintro v rfl ⟨a, x, d, y, b, hv, -, -, hd, hdrop⟩
    -- The filter drops nothing of this word.
    obtain ⟨c, hc⟩ := List.exists_mem_of_ne_nil d hd
    have hall : "big-id".toList.all Site.small.wordChar = true := by decide
    have hkept := List.all_eq_true.1 hall c (by rw [hv]; simp [hc])
    rw [hdrop c hc] at hkept
    cases hkept
  · have hq : queryWords "big-id".toList = ["big-id".toList] := by decide
    rw [hq, List.forall_mem_singleton]
    exact ⟨rfl, "big-idea.".toList, by decide, by decide⟩

/-- Words that the page's own query does not find. -/
theorem Site.joined_words_not_found :
    Site.small.ftsMatchQuery "can't".toList = "\"cant\"*".toList ∧
      ∀ w ∈ ["can't".toList, "v1.2".toList, "a/b".toList],
        Site.small.matches Char.toLower (Site.small.ftsMatchQuery w) { title := [], content := w, path := [] } =
          false := by
  decide

end Wikikiki
