/-
The snippet of a search hit (web/templates.rs): raw page text, with a sentinel
in front of each match and one behind it, as HTML.

A page can hold the sentinels itself, so they may be missing, doubled or the
wrong way round. `renderSnippet_spec` is about every text.
-/
import Wikikiki.Lib.Html

namespace Wikikiki

/-! ## Rendering -/

/-- `SNIPPET_OPEN`. -/
def snippetOpen : Char := '\x01'

/-- `SNIPPET_CLOSE`. -/
def snippetClose : Char := '\x02'

/-- `mark`. -/
def mark : Text := "mark".toList

/-- What the loop of `render_snippet` makes of the `i`-th part. -/
def renderPart (i : Nat) (part : Text) : List Html.Node :=
  if i = 0 then [.text part]
  else
    match Text.splitOnce snippetClose part with
    | some (hit, rest) => [.element mark hit, .text rest]
    | none => [.element mark part]

def snippetNodes (raw : Text) : List Html.Node := (raw.splitOn snippetOpen).zipIdx.flatMap fun p => renderPart p.2 p.1

/-- `render_snippet`. -/
def renderSnippet (raw : Text) : Text := Html.render (snippetNodes raw)

/-! ## What a snippet says -/

/-- The text of a snippet: without the opening sentinels, and without the
first closing one behind each of them. `opened` is true where that one is
still to come. -/
def snippetText (opened : Bool) : Text → Text
  | [] => []
  | c :: s =>
    if c = snippetOpen then snippetText true s
    else if opened ∧ c = snippetClose then snippetText false s
    else c :: snippetText opened s

section

variable {raw : Text}

theorem renderPart_only (i : Nat) (part : Text) : ∀ n ∈ renderPart i part, n.Only mark := by
  unfold renderPart
  split
  · simp [Html.Node.Only]
  split <;> simp [Html.Node.Only]

/-- A part behind an opening sentinel loses its first closing one. -/
theorem content_renderPart (i : Nat) (part : Text) :
    (renderPart (i + 1) part).flatMap Html.Node.content = part.erase snippetClose := by
  rw [renderPart, if_neg (Nat.succ_ne_zero i)]
  cases h : Text.splitOnce snippetClose part with
  | none => simp [Html.Node.content, List.erase_of_not_mem (Text.splitOnce_eq_none.1 h)]
  | some p =>
    obtain ⟨hpart, hnot⟩ := Text.splitOnce_some (a := p.1) (b := p.2) h
    simp [hpart, Html.Node.content, List.erase_append_right _ hnot]

theorem content_renderParts (parts : List Text) (k : Nat) :
    ((parts.zipIdx (k + 1)).flatMap fun p => renderPart p.2 p.1).flatMap Html.Node.content =
      parts.flatMap fun part => part.erase snippetClose := by
  induction parts generalizing k with
  | nil => rfl
  | cons part parts ih =>
    rw [List.zipIdx_cons, List.flatMap_cons, List.flatMap_append, ih (k + 1), List.flatMap_cons,
      content_renderPart]

/-- The scan over the text and the split agree: the first part as it is, or
without a closing sentinel where one was still to come, and each further part
without one. -/
theorem snippetText_eq (raw : Text) (opened : Bool) {first : Text} {parts : List Text}
    (h : raw.splitOn snippetOpen = first :: parts) :
    snippetText opened raw = (if opened then first.erase snippetClose else first) ++
      parts.flatMap fun part => part.erase snippetClose := by
  induction raw generalizing opened first parts with
  | nil =>
    obtain ⟨rfl, rfl⟩ := List.cons.inj (h.symm.trans (by simp) : first :: parts = [[]])
    cases opened <;> rfl
  | cons c raw ih =>
    obtain ⟨first', parts', h'⟩ := List.exists_cons_of_ne_nil (List.splitOn_ne_nil snippetOpen raw)
    rw [List.splitOn_cons_eq_if_modifyHead, h'] at h
    unfold snippetText
    split at h
    · next hc =>
      obtain ⟨rfl, rfl⟩ := List.cons.inj h
      rw [if_pos (by simpa using hc), ih true h', List.flatMap_cons]
      cases opened <;> simp
    · next hc =>
      obtain ⟨rfl, rfl⟩ := List.cons.inj h
      rw [if_neg (by simpa using hc), ih _ h', ih _ h']
      split
      · next hclose =>
        obtain ⟨rfl, rfl⟩ := hclose
        simp
      · next hclose =>
        cases opened with
        | false => simp
        | true =>
          have hne : c ≠ snippetClose := fun hc => hclose ⟨rfl, hc⟩
          simp [List.erase_cons_tail, hne]

theorem snippetNodes_only (raw : Text) : ∀ n ∈ snippetNodes raw, n.Only mark := by
  intro n hn
  obtain ⟨p, -, hp⟩ := List.mem_flatMap.1 hn
  exact renderPart_only _ _ n hp

theorem content_snippetNodes (raw : Text) : (snippetNodes raw).flatMap Html.Node.content = snippetText false raw := by
  obtain ⟨first, parts, h⟩ := List.exists_cons_of_ne_nil (List.splitOn_ne_nil snippetOpen raw)
  rw [snippetText_eq raw false h, snippetNodes, h, List.zipIdx_cons, List.flatMap_cons, List.flatMap_append,
    content_renderParts]
  simp [renderPart, Html.Node.content]

end

/-- **Snippets.** The HTML is a row of text and of `mark` elements with
nothing but text in them, all of it escaped; and without the tags and the
escapes it is the text of the snippet. -/
theorem renderSnippet_spec (raw : Text) :
    (∃ nodes : List Html.Node, (∀ n ∈ nodes, n.Only mark) ∧
      (∀ n ∈ nodes, '<' ∉ Html.escape n.content ∧ '>' ∉ Html.escape n.content) ∧
      renderSnippet raw = nodes.flatMap Html.Node.html) ∧
    Html.unescape (Html.removeTags mark (renderSnippet raw)) = snippetText false raw := by
  have hname : ∀ c ∈ mark, c ≠ '<' ∧ c ≠ '/' := by simp [mark]
  have hplain : ∀ t, '<' ∉ Html.escape t ∧ '>' ∉ Html.escape t := fun t =>
    ⟨(Html.notMem_escape t).1, (Html.notMem_escape t).2.1⟩
  refine ⟨⟨snippetNodes raw, snippetNodes_only raw, fun n _ => hplain _, rfl⟩, ?_⟩
  rw [renderSnippet, Html.removeTags_render hname (snippetNodes_only raw), Html.unescape_escape,
    content_snippetNodes]

/-- A closing sentinel in front of all, a match, and one that is not closed. -/
example : renderSnippet "\x02<\x01hit\x02 & \x01x".toList =
    "\x02&lt;<mark>hit</mark> &amp; <mark>x</mark>".toList := by decide

end Wikikiki
