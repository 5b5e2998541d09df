/-
Addresses on a page's own host, as a browser resolves them: what stands behind
`#` is dropped, what stands behind `?` is the query, the segments `.` and `..`
are followed, and what a path or a query may not hold is percent-encoded.

An address of plain characters without such segments is asked for as it
stands (`resolve_plain`).
-/
import Wikikiki.Lib.Text

namespace Url

/-! ## Resolving -/

def hexDigit (n : Nat) : Char := if n < 10 then Char.ofNat (48 + n) else Char.ofNat (55 + n)

def percent (b : UInt8) : Text := ['%', hexDigit (b.toNat / 16), hexDigit (b.toNat % 16)]

/-- Everything but these characters is encoded. -/
def encode (keep : Char → Bool) (t : Text) : Text :=
  t.flatMap fun c => if keep c then [c] else (String.utf8EncodeChar c).flatMap percent

/-- A character that is seen. -/
def visible (c : Char) : Bool := 0x20 < c.toNat && c.toNat < 0x7F

def pathChar (c : Char) : Bool := visible c && !(['"', '#', '<', '>', '?', '^', '`', '\x7b', '\x7d'].contains c)

def queryChar (c : Char) : Bool := visible c && !(['"', '#', '<', '>', '\''].contains c)

def isSingleDot (seg : Text) : Bool := [".".toList, "%2e".toList].contains (seg.map Char.toLower)

def isDoubleDot (seg : Text) : Bool :=
  ["..".toList, ".%2e".toList, "%2e.".toList, "%2e%2e".toList].contains (seg.map Char.toLower)

/-- The segments of a path, one after the other. -/
def steps (acc : List Text) : List Text → List Text
  | [] => acc
  | [seg] =>
    if isDoubleDot seg then acc.dropLast ++ [[]]
    else if isSingleDot seg then acc ++ [[]]
    else acc ++ [encode pathChar seg]
  | seg :: next :: segs =>
    if isDoubleDot seg then steps acc.dropLast (next :: segs)
    else if isSingleDot seg then steps acc (next :: segs)
    else steps (acc ++ [encode pathChar seg]) (next :: segs)

/-- What is asked for. -/
structure Target where
  path : Text
  query : Option Text
  deriving DecidableEq

/-- Spaces around an address do not count, nor do tabs and newlines in it. -/
def clean (address : Text) : Text :=
  ((address.dropWhile fun c => c.toNat ≤ 0x20).rdropWhile fun c => c.toNat ≤ 0x20).filter fun c =>
    !(['\t', '\n', '\r'].contains c)

/-- The path, and the query behind it. -/
def splitQuery (address : Text) : Text × Option Text :=
  match Text.splitOnce '?' address with
  | some (path, query) => (path, some query)
  | none => (address, none)

/-- An address that begins with a slash, unless it names a host. -/
def resolve (address : Text) : Option Target :=
  match (clean address).map fun c => if c = '\\' then '/' else c with
  | '/' :: '/' :: _ => none
  | '/' :: _ =>
    let (path, query) := splitQuery ((clean address).takeWhile (· ≠ '#'))
    let segs := (path.map fun c => if c = '\\' then '/' else c).drop 1 |>.splitOn '/'
    some { path := '/' :: ['/'].intercalate (steps [] segs), query := query.map (encode queryChar) }
  | _ => none

example : resolve " /a/./b/../c d?q=x y#top ".toList = some ⟨"/a/c%20d".toList, some "q=x%20y".toList⟩ := by
  decide +kernel

/-- An address with one slash before it is one of the host. -/
theorem isSome_resolve {address rest : Text} (h : clean address = '/' :: rest) (hslash : rest.head? ≠ some '/')
    (hback : rest.head? ≠ some '\\') : (resolve address).isSome = true := by
  unfold resolve
  rw [h]
  split
  next _ _ he =>
    obtain ⟨-, he⟩ := List.cons.inj he
    cases rest with
    | nil => cases he
    | cons d rest =>
      have hd : (if d = '\\' then '/' else d) = '/' := (List.cons.inj he).1
      split at hd
      next hb => exact absurd (congrArg some hb) hback
      · exact absurd (congrArg some hd) hslash
  · rfl
  next hno => exact absurd rfl (hno _)

theorem clean_of_resolve {address : Text} (h : (resolve address).isSome = true) :
    ∃ c rest, clean address = c :: rest ∧ (c = '/' ∨ c = '\\') := by
  have hhead : ∀ rest, (clean address).map (fun c => if c = '\\' then '/' else c) = '/' :: rest →
      ∃ c rest, clean address = c :: rest ∧ (c = '/' ∨ c = '\\') := by
    intro rest he
    cases hc : clean address with
    | nil => simp [hc] at he
    | cons c t =>
      rw [hc, List.map_cons] at he
      have hfirst := (List.cons.inj he).1
      split at hfirst
      next hb => exact ⟨c, t, rfl, .inr hb⟩
      · exact ⟨c, t, rfl, .inl hfirst⟩
  unfold resolve at h
  split at h
  · cases h
  next he => exact hhead _ he
  · cases h

/-- What an address begins with, where that is seen. -/
theorem clean_cons {c : Char} {t : Text} (hc : visible c = true) : ∃ rest, clean (c :: t) = c :: rest ∧
    ∀ d ∈ t.head?, d ∉ ['\t', '\n', '\r'] → rest = [] ∨ rest.head? = some d := by
  have hlow : 0x20 < c.toNat := of_decide_eq_true (Bool.and_eq_true_iff.1 hc).1
  have hkeep : (['\t', '\n', '\r'].contains c) = false := by
    rw [← Bool.not_eq_true, List.contains_iff_mem]
    intro hm
    have hall : ['\t', '\n', '\r'].all (fun d => d.toNat ≤ 0x20) = true := by decide
    have := of_decide_eq_true (List.all_eq_true.1 hall c hm)
    omega
  have hdrop : (c :: t).dropWhile (fun c => decide (c.toNat ≤ 0x20)) = c :: t := by
    rw [List.dropWhile_cons_of_neg (by simpa using hlow)]
  obtain ⟨u, hu, hpre⟩ : ∃ u, (c :: t).rdropWhile (fun c => decide (c.toNat ≤ 0x20)) = c :: u ∧ u <+: t := by
    have hprefix := List.rdropWhile_prefix (fun c : Char => decide (c.toNat ≤ 0x20)) (c :: t)
    cases hr : (c :: t).rdropWhile (fun c => decide (c.toNat ≤ 0x20)) with
    | nil =>
      have := List.rdropWhile_eq_nil_iff.1 hr c List.mem_cons_self
      simp only [decide_eq_true_eq] at this
      omega
    | cons d u =>
      rw [hr] at hprefix
      obtain ⟨rfl, hpre⟩ := List.cons_prefix_cons.1 hprefix
      exact ⟨u, rfl, hpre⟩
  refine ⟨u.filter fun c => !(['\t', '\n', '\r'].contains c), ?_, fun d hd hne => ?_⟩
  · rw [clean, hdrop, hu, List.filter_cons, hkeep]
    rfl
  · cases u with
    | nil => exact .inl rfl
    | cons e u =>
      right
      obtain ⟨rest, rfl⟩ := hpre
      obtain rfl : e = d := Option.some.inj hd
      rw [List.filter_cons, if_pos (by simpa using hne)]
      rfl

/-! ## Plain addresses -/

/-- A character of a path that means nothing else. -/
def plain (c : Char) : Bool := pathChar c && c ≠ '\\' && c ≠ '%'

section

variable {path query : Text}

theorem encode_eq_self {keep : Char → Bool} {t : Text} (h : ∀ c ∈ t, keep c = true) : encode keep t = t := by
  induction t with
  | nil => rfl
  | cons c t ih =>
    rw [encode, List.flatMap_cons, if_pos (h c (by simp)), ← encode, ih fun d hd => h d (by simp [hd])]
    rfl

theorem clean_eq_self {t : Text} (h : ∀ c ∈ t, visible c = true) : clean t = t := by
  have hcode : ∀ c ∈ t, 0x20 < c.toNat := fun c hc => of_decide_eq_true (Bool.and_eq_true_iff.1 (h c hc)).1
  have hdrop : t.dropWhile (fun c => decide (c.toNat ≤ 0x20)) = t := by
    rw [List.dropWhile_eq_self_iff]
    intro hpos hle
    have hlow := hcode _ (List.getElem_mem hpos)
    have hhigh := of_decide_eq_true hle
    omega
  have hrdrop : t.rdropWhile (fun c => decide (c.toNat ≤ 0x20)) = t := by
    rw [List.rdropWhile_eq_self_iff]
    intro hne hle
    have hlow := hcode _ (List.getLast_mem hne)
    have hhigh := of_decide_eq_true hle
    omega
  rw [clean, hdrop, hrdrop, List.filter_eq_self]
  intro c hc
  have hlow := hcode c hc
  have hne : ∀ d : Char, d.toNat ≤ 0x20 → d ≠ c := by
    rintro d hd rfl
    omega
  simp [Ne.symm (hne '\t' (by decide)), Ne.symm (hne '\n' (by decide)), Ne.symm (hne '\r' (by decide))]

theorem plain_spec {c : Char} (h : plain c = true) :
    pathChar c = true ∧ visible c = true ∧ c ≠ '\\' ∧ c ≠ '#' ∧ c ≠ '?' := by
  simp only [plain, Bool.and_eq_true, decide_eq_true_eq] at h
  obtain ⟨⟨hpath, hback⟩, -⟩ := h
  refine ⟨hpath, (Bool.and_eq_true_iff.1 hpath).1, hback, ?_, ?_⟩ <;> (rintro rfl; exact absurd hpath (by decide))

theorem queryChar_spec {c : Char} (h : queryChar c = true) : visible c = true ∧ c ≠ '#' := by
  refine ⟨(Bool.and_eq_true_iff.1 h).1, ?_⟩
  rintro rfl
  exact absurd h (by decide)

/-- Without dots there is nothing to follow. -/
theorem steps_plain {segs : List Text} (hchars : ∀ seg ∈ segs, ∀ c ∈ seg, pathChar c = true)
    (hdots : ∀ seg ∈ segs, isSingleDot seg = false ∧ isDoubleDot seg = false) (acc : List Text) :
    steps acc segs = acc ++ segs := by
  induction segs generalizing acc with
  | nil => simp [steps]
  | cons seg segs ih =>
    obtain ⟨hone, htwo⟩ := hdots seg (by simp)
    have henc := encode_eq_self (hchars seg (by simp))
    cases segs with
    | nil => simp [steps, hone, htwo, henc]
    | cons next segs =>
      rw [steps, if_neg (by simp [htwo]), if_neg (by simp [hone]), henc,
        ih (fun s hs => hchars s (by simp [hs])) (fun s hs => hdots s (by simp [hs]))]
      simp

/-- The text of a query behind a path. -/
def suffix : Option Text → Text
  | some query => '?' :: query
  | none => []

/-- **A plain address is asked for as it stands.** -/
theorem resolve_plain {query : Option Text} (hpath : ∀ c ∈ path, plain c = true) (hhead : path.head? ≠ some '/')
    (hdots : ∀ seg ∈ path.splitOn '/', isSingleDot seg = false ∧ isDoubleDot seg = false)
    (hquery : ∀ q ∈ query, ∀ c ∈ q, queryChar c = true) :
    resolve ('/' :: (path ++ suffix query)) = some ⟨'/' :: path, query⟩ := by
  have hq : ∀ c ∈ suffix query, visible c = true ∧ c ≠ '#' := by
    intro c hc
    cases query with
    | none => cases hc
    | some q =>
      rcases List.mem_cons.1 hc with rfl | hc
      · decide
      · exact queryChar_spec (hquery q rfl c hc)
  have hall : ∀ c ∈ '/' :: (path ++ suffix query), visible c = true ∧ c ≠ '#' := by
    intro c hc
    rcases List.mem_cons.1 hc with rfl | hc
    · decide
    rcases List.mem_append.1 hc with hc | hc
    · exact ⟨(plain_spec (hpath c hc)).2.1, (plain_spec (hpath c hc)).2.2.2.1⟩
    · exact hq c hc
  have hclean := clean_eq_self fun c hc => (hall c hc).1
  have hfragment : ('/' :: (path ++ suffix query)).takeWhile (· ≠ '#') = '/' :: (path ++ suffix query) :=
    List.takeWhile_eq_self_iff.2 fun c hc => decide_eq_true (hall c hc).2
  have hmark : '?' ∉ '/' :: path := by
    intro hm
    rcases List.mem_cons.1 hm with he | hm
    · exact absurd he (by decide)
    · exact (plain_spec (hpath _ hm)).2.2.2.2 rfl
  have hsplit : splitQuery ('/' :: (path ++ suffix query)) = ('/' :: path, query) := by
    cases query with
    | none => simp [splitQuery, suffix, Text.splitOnce_eq_none.2 hmark]
    | some q =>
      have hfirst := Text.splitOnce_append (b := q) hmark
      simp only [List.cons_append] at hfirst
      simp [splitQuery, suffix, hfirst]
  have hslash : (path.map fun c => if c = '\\' then '/' else c) = path :=
    (List.map_congr_left fun c hc => if_neg (plain_spec (hpath c hc)).2.2.1).trans (List.map_id path)
  have hsegs : steps [] (path.splitOn '/') = path.splitOn '/' := by
    have hchars : ∀ seg ∈ path.splitOn '/', ∀ c ∈ seg, pathChar c = true := fun seg hs c hc =>
      (plain_spec (hpath c (Text.subset_of_mem_splitOn hs hc))).1
    simpa using steps_plain hchars hdots []
  have henc : query.map (encode queryChar) = query := by
    cases query with
    | none => rfl
    | some q => exact congrArg some (encode_eq_self (hquery q rfl))
  unfold resolve
  rw [hclean, List.map_cons, List.map_append, hslash, if_neg (by decide)]
  split
  · next he =>
    -- The second character is one of the path, or the question mark.
    have hsecond := (List.cons.inj he).2
    cases path with
    | nil => cases query <;> simp [suffix] at hsecond
    | cons c path => exact absurd (congrArg some (List.cons.inj hsecond).1) hhead
  · simp only [hfragment, hsplit, List.map_cons, hslash, List.drop_one, List.tail_cons, hsegs, henc]
    rw [List.intercalate_splitOn]
  · next hno => exact absurd rfl (hno _)

end

end Url
