/-
Full-text matching: a text as the runs of its letters, and a phrase as tokens
that stand next to each other, the last one cut short or not.

What a query may be made of is a text with some of its separators dropped.
`tokens_filter` and `length_tokens_filter_lt` say when that changes its
tokens: exactly when nothing else stands between two letters.
-/
import Mathlib.Data.List.Infix

namespace FullText

variable {α β : Type}

/-! ## Tokens -/

/-- The longest runs of letters. -/
def tokens (p : α → Bool) : List α → List (List α)
  | [] => []
  | c :: s =>
    if p c then
      if s.head?.any p then (tokens p s).modifyHead (c :: ·) else [c] :: tokens p s
    else tokens p s

section

variable {p : α → Bool} {s a b : List α} {c : α}

theorem tokens_ne_nil (h : s.head?.any p = true) : tokens p s ≠ [] := by
  induction s with
  | nil => simp at h
  | cons c s ih =>
    have hc : p c = true := by simpa using h
    rw [tokens, if_pos hc]
    split
    · next hs =>
      have hne := ih hs
      cases ht : tokens p s with
      | nil => exact absurd ht hne
      | cons t ts => simp
    · simp

theorem ne_nil_of_mem_tokens : ∀ t ∈ tokens p s, t ≠ [] := by
  induction s with
  | nil => simp [tokens]
  | cons c s ih =>
    intro t ht
    unfold tokens at ht
    split at ht
    · split at ht
      · next hs =>
        obtain ⟨u, us, hu⟩ := List.exists_cons_of_ne_nil (tokens_ne_nil hs)
        rw [hu] at ht ih
        rcases List.mem_cons.1 ht with rfl | ht
        · simp
        · exact ih t (by simp [ht])
      · rcases List.mem_cons.1 ht with rfl | ht
        · simp
        · exact ih t ht
    · exact ih t ht

/-- The tokens are all the letters, in order. -/
theorem flatten_tokens (p : α → Bool) (s : List α) : (tokens p s).flatten = s.filter p := by
  induction s with
  | nil => rfl
  | cons c s ih =>
    unfold tokens
    split
    · next hc =>
      rw [List.filter_cons_of_pos hc, ← ih]
      split
      · next hs =>
        obtain ⟨u, us, hu⟩ := List.exists_cons_of_ne_nil (tokens_ne_nil hs)
        rw [hu]
        rfl
      · rfl
    · next hc => rw [List.filter_cons_of_neg hc, ih]

/-- A separator ends a token. -/
theorem tokens_append_cons (hc : p c = false) : tokens p (a ++ c :: b) = tokens p a ++ tokens p b := by
  induction a with
  | nil => simp [tokens, hc]
  | cons d a ih =>
    have hhead : (a ++ c :: b).head?.any p = a.head?.any p := by
      cases a <;> simp [hc]
    simp only [List.cons_append, tokens, hhead, ih]
    split
    · split
      · next hs =>
        obtain ⟨u, us, hu⟩ := List.exists_cons_of_ne_nil (tokens_ne_nil hs)
        rw [hu]
        rfl
      · rfl
    · rfl

end

/-! ## Phrases -/

section

variable [DecidableEq α] [DecidableEq β] {p : α → Bool}

/-- The phrase is what the tokens start with; of its last token, only the
start has to be there. -/
def startsWith : List (List α) → List (List α) → Bool
  | [], _ => true
  | _ :: _, [] => false
  | t :: ts, u :: us => if ts = [] then t.isPrefixOf u else t = u && startsWith ts us

/-- The phrase stands somewhere in the tokens. -/
def holds (phrase toks : List (List α)) : Bool := toks.tails.any (startsWith phrase)

theorem startsWith_cons (c : α) {ts us : List (List α)} (hts : ts ≠ []) (h : startsWith ts us = true) :
    startsWith (ts.modifyHead (c :: ·)) (us.modifyHead (c :: ·)) = true := by
  cases ts with
  | nil => exact absurd rfl hts
  | cons t ts =>
    cases us with
    | nil => simp [startsWith] at h
    | cons u us =>
      simp only [List.modifyHead_cons, startsWith] at h ⊢
      split at h
      · next hnil => simpa [hnil] using h
      · next hne =>
        simp only [Bool.and_eq_true, decide_eq_true_eq] at h
        simp [hne, h.1, h.2]

/-- A text starts with its own tokens, whatever follows it. -/
theorem startsWith_tokens_append (p : α → Bool) (s b : List α) :
    startsWith (tokens p s) (tokens p (s ++ b)) = true := by
  induction s with
  | nil => simp [tokens, startsWith]
  | cons c s ih =>
    rw [List.cons_append, tokens, tokens]
    split
    · cases s with
      | nil =>
        simp only [List.head?_nil, Option.any_none, Bool.false_eq_true, if_false, List.nil_append, tokens]
        split
        · next hb =>
          obtain ⟨u, us, hu⟩ := List.exists_cons_of_ne_nil (tokens_ne_nil hb)
          rw [hu]
          simp [startsWith]
        · simp [startsWith]
      | cons d s =>
        have hhead : (d :: s ++ b).head?.any p = (d :: s).head?.any p := rfl
        rw [hhead]
        split
        · next hd => exact startsWith_cons c (tokens_ne_nil hd) ih
        · simpa [startsWith] using Or.inr ih
    · exact ih

/-- Folding both sides keeps a match. -/
theorem startsWith_map (f : α → β) {ts us : List (List α)} (h : startsWith ts us = true) :
    startsWith (ts.map (·.map f)) (us.map (·.map f)) = true := by
  induction ts generalizing us with
  | nil => simp [startsWith]
  | cons t ts ih =>
    cases us with
    | nil => simp [startsWith] at h
    | cons u us =>
      simp only [List.map_cons, startsWith, List.map_eq_nil_iff] at h ⊢
      split at h
      · next hnil =>
        rw [if_pos hnil]
        rw [List.isPrefixOf_iff_prefix] at h ⊢
        exact h.map f
      · next hne =>
        simp only [Bool.and_eq_true, decide_eq_true_eq] at h
        simp [hne, h.1, ih h.2]

theorem holds_append {phrase a b : List (List α)} (h : startsWith phrase b = true) :
    holds phrase (a ++ b) = true := by
  rw [holds, List.any_eq_true]
  exact ⟨b, by rw [List.mem_tails]; exact List.suffix_append a b, h⟩

/-- A match takes as many tokens as the phrase has, and as much text. -/
theorem startsWith_length {ts us : List (List α)} (h : startsWith ts us = true) :
    ∃ us₁ us₂, us = us₁ ++ us₂ ∧ us₁.length = ts.length ∧ ts.flatten.length ≤ us₁.flatten.length := by
  induction ts generalizing us with
  | nil => exact ⟨[], us, rfl, rfl, Nat.le_refl _⟩
  | cons t ts ih =>
    cases us with
    | nil => simp [startsWith] at h
    | cons u us =>
      simp only [startsWith] at h
      split at h
      · next hnil =>
        subst hnil
        rw [List.isPrefixOf_iff_prefix] at h
        exact ⟨[u], us, rfl, rfl, by simpa using h.length_le⟩
      · simp only [Bool.and_eq_true, decide_eq_true_eq] at h
        obtain ⟨rfl, h⟩ := h
        obtain ⟨us₁, us₂, rfl, hlen, hle⟩ := ih h
        exact ⟨t :: us₁, us₂, rfl, by simp [hlen], by simpa using hle⟩

/-- The same letters in fewer tokens do not match: some letter would be left
without a place. -/
theorem not_holds_of_fewer {phrase toks : List (List α)} (hne : ∀ t ∈ toks, t ≠ [])
    (hfew : phrase.length < toks.length) (hsame : phrase.flatten.length = toks.flatten.length) :
    holds phrase toks = false := by
  rw [holds, List.any_eq_false]
  intro us hus h
  obtain ⟨pre, rfl⟩ := (List.mem_tails _ _).1 hus
  obtain ⟨us₁, us₂, rfl, hlen, hle⟩ := startsWith_length h
  have hpos : ∀ ts : List (List α), (∀ t ∈ ts, t ≠ []) → ts.length ≤ ts.flatten.length := by
    intro ts
    induction ts with
    | nil => simp
    | cons t ts ih =>
      intro hts
      have ht := List.length_pos_of_ne_nil (hts t (by simp))
      have := ih fun u hu => hts u (by simp [hu])
      simp only [List.length_cons, List.flatten_cons, List.length_append]
      omega
  have hpre := hpos pre fun t ht => hne t (by simp [ht])
  have hpost := hpos us₂ fun t ht => hne t (by simp [ht])
  simp only [List.flatten_append, List.length_append] at hsame hfew
  omega

end

/-! ## Dropping separators -/

/-- Two letters with something between them, all of which is dropped. -/
def Joined (p keep : α → Bool) (s : List α) : Prop :=
  ∃ a x d y b, s = a ++ x :: (d ++ y :: b) ∧ p x = true ∧ p y = true ∧ d ≠ [] ∧ ∀ c ∈ d, keep c = false

section

variable {p keep : α → Bool} {s : List α}

theorem Joined.cons {c : α} (h : Joined p keep s) : Joined p keep (c :: s) := by
  obtain ⟨a, x, d, y, b, rfl, h⟩ := h
  exact ⟨c :: a, x, d, y, b, rfl, h⟩

/-- What the kept text starts with stands behind what is dropped. -/
theorem exists_of_head_filter (h : (s.filter keep).head?.any p = true) :
    ∃ d y b, s = d ++ y :: b ∧ p y = true ∧ ∀ c ∈ d, keep c = false := by
  induction s with
  | nil => simp at h
  | cons c s ih =>
    by_cases hc : keep c = true
    · rw [List.filter_cons_of_pos hc] at h
      exact ⟨[], c, s, rfl, by simpa using h, by simp⟩
    · rw [List.filter_cons_of_neg hc] at h
      obtain ⟨d, y, b, rfl, hy, hd⟩ := ih h
      exact ⟨c :: d, y, b, rfl, hy, by simpa using ⟨by simpa using hc, hd⟩⟩

theorem head_filter (hkeep : ∀ c, p c = true → keep c = true) (h : s.head?.any p = true) :
    (s.filter keep).head?.any p = true := by
  cases s with
  | nil => simp at h
  | cons c s =>
    have hc : p c = true := by simpa using h
    rw [List.filter_cons_of_pos (hkeep c hc)]
    simpa using hc

/-- Where no two letters are joined, the tokens stay. -/
theorem tokens_filter (hkeep : ∀ c, p c = true → keep c = true) (h : ¬ Joined p keep s) :
    tokens p (s.filter keep) = tokens p s := by
  induction s with
  | nil => rfl
  | cons c s ih =>
    have hs := ih fun hj => h hj.cons
    by_cases hc : p c = true
    · have hhead : (s.filter keep).head?.any p = s.head?.any p := by
        rw [Bool.eq_iff_iff]
        refine ⟨fun hk => ?_, head_filter hkeep⟩
        obtain ⟨d, y, b, rfl, hy, hd⟩ := exists_of_head_filter hk
        cases d with
        | nil => simpa using hy
        | cons e d => exact absurd ⟨[], c, e :: d, y, b, rfl, hc, hy, by simp, hd⟩ h
      rw [List.filter_cons_of_pos (hkeep c hc), tokens, tokens, if_pos hc, if_pos hc, hhead, hs]
    · have hskip : tokens p (c :: s) = tokens p s := by rw [tokens, if_neg hc]
      by_cases hk : keep c = true
      · rw [List.filter_cons_of_pos hk, tokens, if_neg hc, hs, hskip]
      · rw [List.filter_cons_of_neg hk, hs, hskip]

theorem length_tokens_cons (s : List α) {c : α} (hc : p c = true) :
    (tokens p (c :: s)).length = if s.head?.any p then (tokens p s).length else (tokens p s).length + 1 := by
  rw [tokens, if_pos hc]
  split <;> simp

theorem length_tokens_filter_le (hkeep : ∀ c, p c = true → keep c = true) (s : List α) :
    (tokens p (s.filter keep)).length ≤ (tokens p s).length := by
  induction s with
  | nil => simp
  | cons c s ih =>
    by_cases hc : p c = true
    · rw [List.filter_cons_of_pos (hkeep c hc), length_tokens_cons _ hc, length_tokens_cons _ hc]
      by_cases hs : s.head?.any p = true
      · rw [if_pos hs, if_pos (head_filter hkeep hs)]
        exact ih
      · rw [if_neg hs]
        split <;> omega
    · rw [tokens, if_neg hc]
      by_cases hk : keep c = true
      · rwa [List.filter_cons_of_pos hk, tokens, if_neg hc]
      · rwa [List.filter_cons_of_neg hk]

/-- Where two letters are joined, there are fewer. -/
theorem length_tokens_filter_lt (hkeep : ∀ c, p c = true → keep c = true) (h : Joined p keep s) :
    (tokens p (s.filter keep)).length < (tokens p s).length := by
  obtain ⟨a, x, d, y, b, rfl, hx, hy, hd, hdrop⟩ := h
  induction a with
  | nil =>
    obtain ⟨e, d, rfl⟩ := List.exists_cons_of_ne_nil hd
    have he : p e = false := by
      by_contra hp
      have := hkeep e (by simpa using hp)
      rw [hdrop e (by simp)] at this
      cases this
    have hfilter : (e :: d ++ y :: b).filter keep = y :: b.filter keep := by
      rw [List.filter_append, List.filter_eq_nil_iff.2 (by simpa using hdrop), List.filter_cons_of_pos (hkeep y hy),
        List.nil_append]
    have hle := length_tokens_filter_le hkeep (e :: d ++ y :: b)
    rw [hfilter] at hle
    rw [List.nil_append, List.filter_cons_of_pos (hkeep x hx), hfilter, length_tokens_cons _ hx,
      length_tokens_cons _ hx, if_pos (by simpa using hy), if_neg (by simp [he])]
    omega
  | cons c a ih =>
    rw [List.cons_append]
    by_cases hc : p c = true
    · rw [List.filter_cons_of_pos (hkeep c hc), length_tokens_cons _ hc, length_tokens_cons _ hc]
      split
      · next hk =>
        split
        · exact ih
        · omega
      · next hk =>
        rw [if_neg fun hs => hk (head_filter hkeep hs)]
        omega
    · rw [tokens, if_neg hc]
      by_cases hk : keep c = true
      · rwa [List.filter_cons_of_pos hk, tokens, if_neg hc]
      · rwa [List.filter_cons_of_neg hk]

end

end FullText
