/-
Searching (pages/mod.rs): the `MATCH` expression that `fts_match_query` makes
of what a reader typed, and what becomes of the request.

`search` asks whether the query is blank, and the filter drops words. A query
that is not blank and loses all its words is an empty expression, which FTS5
does not read: `search_iff` is exact about it.
-/
import Wikikiki.Router

namespace Wikikiki

/-! ## Words and terms -/

/-- `q.split_whitespace()`. -/
def queryWords (q : Text) : List Text := (q.splitOnP Text.isWhitespace).filter fun tok => tok ≠ []

/-- A character that the filter keeps. -/
def Site.wordChar (site : Site) (c : Char) : Bool := site.isAlphanumeric c || c = '-' || c = '_'

/-- What the filter leaves of a word. -/
def Site.kept (site : Site) (word : Text) : Text := word.filter site.wordChar

/-- The prefix term of some characters. -/
def prefixTerm (body : Text) : Text := '"' :: body ++ "\"*".toList

/-- A double quote, characters that the filter keeps, a double quote and a
`*`. -/
def Site.IsTerm (site : Site) (term : Text) : Prop :=
  ∃ body, body ≠ [] ∧ (∀ c ∈ body, site.wordChar c = true) ∧ term = prefixTerm body

/-- One or more terms with a space between them. -/
def Site.IsExpression (site : Site) (e : Text) : Prop :=
  ∃ terms, terms ≠ [] ∧ (∀ t ∈ terms, site.IsTerm t) ∧ e = [' '].intercalate terms

/-- The expression that a query asks for: a term for each word with a
character that is kept, in the order of the words. -/
def Site.Expresses (site : Site) (q e : Text) : Prop :=
  site.IsExpression e ∧
    e = [' '].intercalate (((queryWords q).filter fun w => w.any site.wordChar).map fun w =>
      prefixTerm (site.kept w))

/-- Some word of the query has a character that is kept. -/
def Site.HasWordChar (site : Site) (q : Text) : Prop := ∃ w ∈ queryWords q, ∃ c ∈ w, site.wordChar c = true

/-- What FTS5 does: it evaluates such an expression, and an empty one is a
syntax error. -/
structure Site.Fts5 (site : Site) : Prop where
  evaluates : ∀ rows e, site.IsExpression e → ∃ hits, site.ftsMatch rows e = .ok hits
  rejects_empty : ∀ rows, ∃ err, site.ftsMatch rows [] = .error err

section

variable {site : Site} {env : Env} {db : Db} {q : Text} {limit : Nat}

theorem Site.kept_eq_nil {w : Text} : site.kept w = [] ↔ w.any site.wordChar = false := by
  simp [kept, List.filter_eq_nil_iff]

/-- Dropping what is left empty is keeping the words that leave something. -/
theorem Site.ftsMatchQuery_eq (site : Site) (q : Text) :
    site.ftsMatchQuery q = [' '].intercalate
      (((queryWords q).filter fun w => w.any site.wordChar).map fun w => prefixTerm (site.kept w)) := by
  have hword : ∀ w : Text, (if site.kept w = [] then none else some (prefixTerm (site.kept w))) =
      if w.any site.wordChar then some (prefixTerm (site.kept w)) else none := by
    intro w
    by_cases h : w.any site.wordChar = true
    · simp [h, kept_eq_nil]
    · rw [Bool.not_eq_true] at h
      simp [h, kept_eq_nil.2 h]
  have hmap : (queryWords q).filterMap
      (fun w => if site.kept w = [] then none else some (prefixTerm (site.kept w))) =
        ((queryWords q).filter fun w => w.any site.wordChar).map fun w => prefixTerm (site.kept w) := by
    rw [List.filterMap_congr fun w _ => hword w, ← List.filterMap_eq_map, List.filterMap_filter]
    rfl
  rw [← hmap]
  rfl

/-- The terms of the words. -/
theorem Site.isTerm_kept {t : Text}
    (h : t ∈ ((queryWords q).filter fun w => w.any site.wordChar).map fun w => prefixTerm (site.kept w)) :
    site.IsTerm t := by
  obtain ⟨w, hw, rfl⟩ := List.mem_map.1 h
  have hany := (List.mem_filter.1 hw).2
  refine ⟨site.kept w, fun hnil => ?_, fun c hc => (List.mem_filter.1 hc).2, rfl⟩
  rw [kept_eq_nil] at hnil
  rw [hnil] at hany
  cases hany

theorem Site.hasWordChar_iff :
    site.HasWordChar q ↔ ((queryWords q).filter fun w => w.any site.wordChar) ≠ [] := by
  simp [HasWordChar, List.filter_eq_nil_iff]

/-- The expression is empty, or what the query asks for. -/
theorem Site.ftsMatchQuery_cases (site : Site) (q : Text) :
    (site.HasWordChar q ∧ site.Expresses q (site.ftsMatchQuery q)) ∨
      (¬ site.HasWordChar q ∧ site.ftsMatchQuery q = []) := by
  by_cases h : site.HasWordChar q
  · refine .inl ⟨h, ⟨_, ?_, fun t ht => isTerm_kept ht, site.ftsMatchQuery_eq q⟩, site.ftsMatchQuery_eq q⟩
    simpa using hasWordChar_iff.1 h
  · refine .inr ⟨h, ?_⟩
    rw [hasWordChar_iff, Decidable.not_not] at h
    rw [ftsMatchQuery_eq, h]
    rfl

/-- A term is not empty, so no expression is. -/
theorem Site.not_isExpression_nil : ¬ site.IsExpression [] := by
  intro h
  obtain ⟨terms, hne, hterms, he⟩ := h
  obtain ⟨t, ts, rfl⟩ := List.exists_cons_of_ne_nil hne
  obtain ⟨body, -, -, rfl⟩ := hterms t (by simp)
  cases ts <;> simp [prefixTerm, List.intercalate_cons_cons] at he

end

/-- **Searching.** A query that is not blank goes to the database as the
expression it asks for, and the search finds what it finds, exactly when some
word of the query has a letter, a digit, a hyphen or an underscore; a blank
query is answered without the database. -/
theorem Site.search_iff (site : Site) (env : Env) (db : Db) (q : Text) (limit : Nat) (hfts : site.Fts5)
    (henv : env.fault .search = none) :
    (Text.trim q = [] → site.search env db q limit = .ok []) ∧
    (site.Expresses q (site.ftsMatchQuery q) ↔ site.HasWordChar q) ∧
    (Text.trim q ≠ [] → ((∃ hits, site.search env db q limit = .ok hits) ↔ site.HasWordChar q)) := by
  refine ⟨fun h => by simp only [search, if_pos h], ?_, fun h => ?_⟩
  · rcases site.ftsMatchQuery_cases q with ⟨hq, he⟩ | ⟨hq, he⟩
    · exact iff_of_true he hq
    · refine iff_of_false (fun hx => ?_) hq
      rw [he] at hx
      exact not_isExpression_nil hx.1
  · simp only [search, if_neg h, Env.query, henv]
    rcases site.ftsMatchQuery_cases q with ⟨hq, he⟩ | ⟨hq, he⟩
    · obtain ⟨hits, hok⟩ := hfts.evaluates db.pagesFts _ he.1
      simp [hok, hq]
    · obtain ⟨err, herr⟩ := hfts.rejects_empty db.pagesFts
      simp [he, herr, hq]

/-! ## A small search -/

/-- An index without pages: it finds nothing, and does not read an empty
expression. -/
def Site.smallSearch : Site :=
  { Site.small with
    ftsMatch := fun _ e => if e = [] then .error "fts5: syntax error near \"\"".toList else .ok [] }

theorem Site.smallSearch_fts5 : Site.smallSearch.Fts5 where
  evaluates rows e he := by
    refine ⟨[], if_neg ?_⟩
    rintro rfl
    exact Site.not_isExpression_nil he
  rejects_empty rows := ⟨_, rfl⟩

theorem Site.search_two_words :
    Site.smallSearch.ftsMatchQuery "big-idea \"x!\"".toList = "\"big-idea\"* \"x\"*".toList ∧
      ∃ hits, Site.smallSearch.search Env.small (Db.small none) "big-idea \"x!\"".toList 50 = .ok hits := by
  have hword : Site.smallSearch.HasWordChar "big-idea \"x!\"".toList :=
    ⟨"big-idea".toList, by decide, 'b', by decide, by decide⟩
  refine ⟨by decide, ?_⟩
  exact ((Site.search_iff Site.smallSearch Env.small (Db.small none) "big-idea \"x!\"".toList 50
    Site.smallSearch_fts5 rfl).2.2 (by decide)).2 hword

/-- A query of punctuation is a server error. -/
theorem Site.search_punctuation :
    Text.trim "!!!".toList ≠ [] ∧ Site.smallSearch.ftsMatchQuery "!!!".toList = [] ∧
      ¬ Site.smallSearch.Expresses "!!!".toList (Site.smallSearch.ftsMatchQuery "!!!".toList) ∧
      Site.smallSearch.search Env.small (Db.small none) "!!!".toList 50 =
        .error (.database "fts5: syntax error near \"\"".toList) := by
  have he : Site.smallSearch.ftsMatchQuery "!!!".toList = [] := by decide
  refine ⟨by decide, he, fun hx => ?_, rfl⟩
  rw [he] at hx
  exact Site.not_isExpression_nil hx.1

end Wikikiki
