/-
The title of a page and its body (pages/mod.rs, web/templates.rs): the heading
that `derive_title` takes the title from, and what `body_after_title` leaves of
the text below it.

The one scans all lines, trimming their start; the other looks at the first
line of the trimmed text, and trims its end too before it looks for `# `. A
heading with nothing behind its `# ` is one for the first only:
`body_after_title_iff` is exact about it.
-/
import Wikikiki.Path

namespace Wikikiki

/-- `tail.trim_start_matches(['\n', '\r'])`. -/
def dropNewlines (tail : Text) : Text := tail.dropWhile fun c => c = '\n' || c = '\r'

/-- `body_after_title`. -/
def bodyAfterTitle (content title : Text) : Text :=
  let rest := Text.trimStart content
  let (first, tail) := (Text.splitOnce '\n' rest).getD (rest, [])
  match Text.stripPrefix "# ".toList (Text.trim first) with
  | some h => if Text.trim h = title then dropNewlines tail else content
  | none => content

/-! ## The first line that is not blank -/

/-- `line` is the first line of the text that is not blank, and `after` what
stands below it. -/
def FirstLine (content line after : Text) : Prop :=
  ∃ blank tail, content = blank ++ (line ++ tail) ∧
    (∀ c ∈ blank, Text.isWhitespace c = true) ∧ (∀ c ∈ blank.getLast?, c = '\n') ∧
    '\n' ∉ line ∧ Text.trimStart line ≠ [] ∧ (tail = '\n' :: after ∨ tail = [] ∧ after = [])

section

variable {content line after title : Text}

/-- A text that is not blank has such a line. -/
theorem exists_firstLine (h : Text.trimStart content ≠ []) : ∃ line after, FirstLine content line after := by
  obtain ⟨c, t, ht⟩ := List.exists_cons_of_ne_nil h
  -- The whitespace in front, cut behind its last newline.
  obtain ⟨blank, indent, hws, hlast, hindent⟩ : ∃ blank indent,
      content.takeWhile Text.isWhitespace = blank ++ indent ∧ (∀ c ∈ blank.getLast?, c = '\n') ∧ '\n' ∉ indent := by
    refine ⟨_, _, (List.rdropWhile_append_rtakeWhile (p := fun c => c != '\n')).symm, fun d hd => ?_, fun hm => ?_⟩
    · have hne : (content.takeWhile Text.isWhitespace).rdropWhile (fun c => c != '\n') ≠ [] := by
        rintro hnil
        simp [hnil] at hd
      rw [List.getLast?_eq_some_getLast hne] at hd
      cases hd
      simpa using List.rdropWhile_last_not (fun c => c != '\n') _ hne
    · simpa using List.mem_rtakeWhile_imp hm
  have hcontent : content = blank ++ indent ++ c :: t := by
    rw [← hws, ← ht]
    exact List.takeWhile_append_dropWhile.symm
  have hc : Text.isWhitespace c = false := by
    have hhead := List.head?_dropWhile_not Text.isWhitespace content
    rw [show content.dropWhile Text.isWhitespace = c :: t from ht] at hhead
    simpa using hhead
  have hspace : ∀ d ∈ blank ++ indent, Text.isWhitespace d = true := fun d hd =>
    List.mem_takeWhile_imp (hws ▸ hd)
  have hindented : ∀ l, Text.trimStart (indent ++ c :: l) ≠ [] := by
    intro l
    rw [Text.trimStart_append_left fun d hd => hspace d (by simp [hd]), Text.trimStart_cons_of_not hc]
    simp
  have hnewline : c ≠ '\n' := by
    rintro rfl
    exact absurd hc (by decide)
  cases hs : Text.splitOnce '\n' t with
  | none =>
    refine ⟨indent ++ c :: t, [], blank, [], by simp [hcontent], fun d hd => hspace d (by simp [hd]), hlast, ?_,
      hindented t, .inr ⟨rfl, rfl⟩⟩
    simp [hindent, hnewline.symm, Text.splitOnce_eq_none.1 hs]
  | some p =>
    obtain ⟨rfl, hl⟩ := Text.splitOnce_some (a := p.1) (b := p.2) hs
    refine ⟨indent ++ c :: p.1, p.2, blank, '\n' :: p.2, by simp [hcontent], fun d hd => hspace d (by simp [hd]),
      hlast, ?_, hindented p.1, .inl rfl⟩
    simp [hindent, hnewline.symm, hl]

theorem FirstLine.trimStart (h : FirstLine content line after) :
    (Text.splitOnce '\n' (Text.trimStart content)).getD (Text.trimStart content, []) =
      (Text.trimStart line, after) := by
  obtain ⟨blank, tail, rfl, hblank, -, hline, hne, htail⟩ := h
  have hnot : '\n' ∉ Text.trimStart line := fun hm => hline ((List.dropWhile_sublist _).subset hm)
  rw [Text.trimStart_append_left hblank, Text.trimStart_append_right hne]
  rcases htail with rfl | ⟨rfl, rfl⟩
  · rw [Text.splitOnce_append hnot]
    rfl
  · rw [List.append_nil, Text.splitOnce_eq_none.2 hnot]
    rfl

/-! ## Trimming around a heading -/

theorem trim_hash (r : Text) : Text.trim ("# ".toList ++ r) = '#' :: Text.trimEnd (' ' :: r) := by
  have hstart : Text.trimStart ("# ".toList ++ r) = '#' :: ' ' :: r := Text.trimStart_cons_of_not (by decide)
  rw [Text.trim, hstart]
  exact Text.trimEnd_append (a := []) (by decide)

/-- The heading of a line is the same without the `\r` at its end. -/
theorem heading_stripSuffix {l t : Text} (h : heading l = some t) :
    heading ((Text.stripSuffix ['\r'] l).getD l) = some t := by
  cases hs : Text.stripSuffix ['\r'] l with
  | none => simpa using h
  | some l' =>
    rw [Text.stripSuffix_eq_some] at hs
    subst hs
    simp only [heading, Option.map_eq_some_iff, Text.stripPrefix_eq_some, Option.getD_some] at h ⊢
    obtain ⟨r, hr, rfl⟩ := h
    have hne : Text.trimStart l' ≠ [] := by
      intro hnil
      rw [Text.trimStart_concat_space (by decide) hnil] at hr
      cases hr
    rw [Text.trimStart_append_right hne] at hr
    rcases List.eq_nil_or_concat r with rfl | ⟨r', w, rfl⟩
    · have hlast := congrArg List.getLast? hr
      simp at hlast
    · rw [List.concat_eq_append, ← List.append_assoc] at hr
      obtain ⟨hl, hw⟩ := List.append_inj' hr rfl
      obtain rfl : '\r' = w := by simpa using hw
      exact ⟨r', hl, by rw [List.concat_eq_append, Text.trim_append_space (by decide)]⟩

theorem heading_eq_none {l : Text} (h : ∀ c ∈ l, Text.isWhitespace c = true) : heading l = none := by
  have hnil : Text.trimStart l = [] := List.dropWhile_eq_nil_iff.2 h
  rw [heading, hnil]
  rfl

/-! ## The title -/

/-- Blank lines have no heading, so the title is the first line's. -/
theorem FirstLine.deriveTitle {r : Text} (h : FirstLine content line after)
    (hr : Text.trimStart line = "# ".toList ++ r) (p : Text) : deriveTitle content p = Text.trim r := by
  obtain ⟨blank, tail, rfl, hblank, hlast, hline, hne, htail⟩ := h
  have hheading : heading line = some (Text.trim r) := by
    rw [heading, Text.stripPrefix_eq_some.2 hr]
    rfl
  have hnil : line ≠ [] := by
    rintro rfl
    exact hne rfl
  have hfirst : (Text.lines (line ++ tail)).findSome? heading = some (Text.trim r) := by
    rcases htail with rfl | ⟨rfl, rfl⟩
    · rw [Text.lines_append_newline, List.splitOn_eq_singleton hline]
      simp only [List.map_cons, List.map_nil, List.singleton_append, List.findSome?_cons,
        heading_stripSuffix hheading]
    · rw [List.append_nil, Text.lines_of_notMem hline hnil, List.findSome?_singleton, hheading]
  have hall : (Text.lines (blank ++ (line ++ tail))).findSome? heading = some (Text.trim r) := by
    rcases List.eq_nil_or_concat blank with rfl | ⟨b, c, rfl⟩
    · exact hfirst
    · obtain rfl : c = '\n' := hlast c (by simp)
      rw [List.concat_eq_append, List.append_assoc, List.singleton_append, Text.lines_append_newline,
        List.findSome?_append, hfirst]
      have hnone : ((b.splitOn '\n').map fun l => (Text.stripSuffix ['\r'] l).getD l).findSome? heading = none := by
        rw [List.findSome?_eq_none_iff]
        intro l hl
        obtain ⟨piece, hpiece, rfl⟩ := List.mem_map.1 hl
        refine heading_eq_none fun d hd => hblank d ?_
        have hsub : (Text.stripSuffix ['\r'] piece).getD piece ⊆ piece := by
          cases hs : Text.stripSuffix ['\r'] piece with
          | none => exact fun _ hc => hc
          | some l =>
            rw [Text.stripSuffix_eq_some] at hs
            rw [hs]
            exact List.subset_append_left _ _
        simp [Text.subset_of_mem_splitOn hpiece (hsub hd)]
      rw [hnone]
      rfl
  rw [Wikikiki.deriveTitle, hall]
  rfl

/-! ## The body -/

theorem FirstLine.bodyAfterTitle (h : FirstLine content line after) (title : Text) :
    bodyAfterTitle content title =
      match Text.stripPrefix "# ".toList (Text.trim (Text.trimStart line)) with
      | some h => if Text.trim h = title then dropNewlines after else content
      | none => content := by
  simp only [Wikikiki.bodyAfterTitle, h.trimStart]

/-- A heading that says something goes when it is the title. -/
theorem FirstLine.body_of_heading {r : Text} (h : FirstLine content line after)
    (hr : Text.trimStart line = "# ".toList ++ r) (hne : Text.trim r ≠ []) :
    Wikikiki.bodyAfterTitle content (Text.trim r) = dropNewlines after := by
  have hend : Text.trimEnd (' ' :: r) = ' ' :: Text.trimEnd r := by
    rw [ne_eq, ← Text.trimEnd_eq_nil, Text.trimEnd, List.rdropWhile, List.reverse_eq_nil_iff] at hne
    simp [Text.trimEnd, List.rdropWhile, List.dropWhile_append, hne]
  rw [h.bodyAfterTitle, hr, trim_hash, hend]
  simp [Text.stripPrefix, Text.trim_trimEnd]

/-- A heading that says nothing stays, whatever the title. -/
theorem FirstLine.body_of_empty {r : Text} (h : FirstLine content line after)
    (hr : Text.trimStart line = "# ".toList ++ r) (hnil : Text.trim r = []) (title : Text) :
    Wikikiki.bodyAfterTitle content title = content := by
  have hend : Text.trimEnd (' ' :: r) = [] := by
    rw [Text.trimEnd_eq_nil, Text.trim_eq_nil]
    exact (Text.trim_eq_nil.1 hnil : Text.trimStart r = [])
  rw [h.bodyAfterTitle, hr, trim_hash, hend]
  rfl

/-- Any other line stays, too. -/
theorem FirstLine.body_of_other (h : FirstLine content line after)
    (hr : ∀ r, Text.trimStart line ≠ "# ".toList ++ r) (title : Text) :
    Wikikiki.bodyAfterTitle content title = content := by
  have hnone : Text.stripPrefix "# ".toList (Text.trim (Text.trimStart line)) = none := by
    cases hs : Text.stripPrefix "# ".toList (Text.trim (Text.trimStart line)) with
    | none => rfl
    | some r =>
      rw [Text.stripPrefix_eq_some] at hs
      have hpre : Text.trim (Text.trimStart line) <+: Text.trimStart line := by
        rw [Text.trim, Text.trimStart, Text.trimStart, List.dropWhile_idempotent]
        exact List.rdropWhile_prefix _ _
      obtain ⟨u, hu⟩ := hpre
      rw [hs, List.append_assoc] at hu
      exact absurd hu.symm (hr _)
  rw [h.bodyAfterTitle, hnone]

theorem body_of_blank (h : Text.trimStart content = []) (title : Text) :
    Wikikiki.bodyAfterTitle content title = content := by
  rw [Wikikiki.bodyAfterTitle, h]
  rfl

/-- What is left below a heading is shorter than the page. -/
theorem FirstLine.dropNewlines_ne (h : FirstLine content line after) : dropNewlines after ≠ content := by
  obtain ⟨blank, tail, rfl, -, -, -, hne, htail⟩ := h
  have hline : 0 < line.length := by
    refine List.length_pos_of_ne_nil ?_
    rintro rfl
    exact hne rfl
  have hdrop : (dropNewlines after).length ≤ after.length := (List.dropWhile_sublist _).length_le
  have htail' : after.length ≤ tail.length := by
    rcases htail with rfl | ⟨rfl, rfl⟩ <;> simp
  intro heq
  have hlen := congrArg List.length heq
  simp only [List.length_append] at hlen
  omega

end

/-! ## The title is printed once -/

/-- Where the first line that is not blank starts with `# `, the body is the
text below it without its leading newlines; everywhere else the body is the
page. -/
def TitlePrintedOnce (content pagePath : Text) : Prop :=
  let title := deriveTitle content pagePath
  (∀ line after, FirstLine content line after → "# ".toList <+: Text.trimStart line →
    bodyAfterTitle content title = dropNewlines after) ∧
  ((¬ ∃ line after, FirstLine content line after ∧ "# ".toList <+: Text.trimStart line) →
    bodyAfterTitle content title = content)

/-- **Title and body.** The body drops the heading that gave the title, and
nothing else, exactly when the first line that is not blank is no heading
without text. -/
theorem body_after_title_iff (content pagePath : Text) :
    TitlePrintedOnce content pagePath ↔
      ¬ ∃ line after r, FirstLine content line after ∧ Text.trimStart line = "# ".toList ++ r ∧
        Text.trim r = [] := by
  constructor
  · intro h hex
    obtain ⟨line, after, r, hfirst, hr, hnil⟩ := hex
    have hbody := h.1 line after hfirst ⟨r, hr.symm⟩
    rw [hfirst.body_of_empty hr hnil] at hbody
    exact hfirst.dropNewlines_ne hbody.symm
  · intro h
    refine ⟨fun line after hfirst hpre => ?_, fun hno => ?_⟩
    · obtain ⟨r, hr⟩ := hpre
      have hne : Text.trim r ≠ [] := fun hnil => h ⟨line, after, r, hfirst, hr.symm, hnil⟩
      rw [hfirst.deriveTitle hr.symm]
      exact hfirst.body_of_heading hr.symm hne
    · by_cases hblank : Text.trimStart content = []
      · exact body_of_blank hblank _
      · obtain ⟨line, after, hfirst⟩ := exists_firstLine hblank
        exact hfirst.body_of_other (fun r hr => hno ⟨line, after, hfirst, r, hr.symm⟩) _

/-- A heading without text gives the page an empty title, and stays. -/
theorem empty_heading_kept :
    deriveTitle "# \nbody".toList "notes".toList = [] ∧
      bodyAfterTitle "# \nbody".toList [] = "# \nbody".toList ∧
      ¬ TitlePrintedOnce "# \nbody".toList "notes".toList := by
  have htitle : deriveTitle "# \nbody".toList "notes".toList = [] := by decide
  have hbody : bodyAfterTitle "# \nbody".toList [] = "# \nbody".toList := by decide
  refine ⟨htitle, hbody, fun h => ?_⟩
  have hfirst : FirstLine "# \nbody".toList "# ".toList "body".toList :=
    ⟨[], "\nbody".toList, by decide, by simp, by simp, by decide, by decide, .inl (by decide)⟩
  have hdrop := h.1 _ _ hfirst ⟨[], by decide⟩
  rw [htitle, hbody] at hdrop
  exact absurd hdrop (by decide)

example : bodyAfterTitle "\n  # Welcome \r\n\r\nbody\n".toList "Welcome".toList = "body\n".toList := by decide

end Wikikiki
