/-
HTML as a template engine writes it: text with the four characters that mean
something escaped, and elements without attributes around such text.

Escaped text has no angle bracket, so the tags of an element are the only
markup there is, and taking them out and undoing the escapes gives the text
back.
-/
import Wikikiki.Lib.Text

namespace Text

/-! ## Replacing, piece by piece -/

/-- A text without the first character of the pattern is left as it is. -/
theorem replaceAll_append_of_notMem {p : Char} {pat rep a b : Text} (h : p ∉ a) :
    replaceAll (p :: pat) rep (a ++ b) = a ++ replaceAll (p :: pat) rep b := by
  induction a with
  | nil => rfl
  | cons c a ih =>
    obtain ⟨hc, ha⟩ := not_or.1 (mt List.mem_cons.2 h)
    have hno : ¬ p :: pat <+: c :: (a ++ b) := fun hp => hc (List.cons_prefix_cons.1 hp).1
    simp only [replaceAll, List.cons_append, replaceFrom, if_neg hno] at ih ⊢
    rw [ih ha]

theorem replaceFrom_length_append {pat rep b : Text} : ∀ a : Text,
    replaceFrom pat rep a.length (a ++ b) = replaceFrom pat rep 0 b
  | [] => rfl
  | _ :: a => by
    rw [List.length_cons, List.cons_append, replaceFrom]
    exact replaceFrom_length_append a

/-- A match is replaced, and the scan goes on behind it. -/
theorem replaceAll_pattern_append {p : Char} {pat rep b : Text} :
    replaceAll (p :: pat) rep (p :: pat ++ b) = rep ++ replaceAll (p :: pat) rep b := by
  have hyes : p :: pat <+: p :: (pat ++ b) := List.prefix_append (p :: pat) b
  rw [replaceAll, List.cons_append, replaceFrom, if_pos hyes, List.length_cons, Nat.add_sub_cancel,
    replaceFrom_length_append]
  rfl

end Text

namespace Html

/-! ## Escaping -/

def escapeChar (c : Char) : Text :=
  if c = '&' then "&amp;".toList
  else if c = '<' then "&lt;".toList
  else if c = '>' then "&gt;".toList
  else if c = '"' then "&quot;".toList
  else [c]

def escape (t : Text) : Text := t.flatMap escapeChar

/-- The character references that `escape` writes, read back. -/
def unescape : Text → Text
  | '&' :: 'a' :: 'm' :: 'p' :: ';' :: s => '&' :: unescape s
  | '&' :: 'l' :: 't' :: ';' :: s => '<' :: unescape s
  | '&' :: 'g' :: 't' :: ';' :: s => '>' :: unescape s
  | '&' :: 'q' :: 'u' :: 'o' :: 't' :: ';' :: s => '"' :: unescape s
  | c :: s => c :: unescape s
  | [] => []

theorem unescape_cons {c : Char} (h : c ≠ '&') (s : Text) : unescape (c :: s) = c :: unescape s := by
  rw [unescape.eq_def]
  split <;> simp_all

theorem unescape_escape (t : Text) : unescape (escape t) = t := by
  induction t with
  | nil => rfl
  | cons c t ih =>
    rw [escape, List.flatMap_cons, ← escape]
    unfold escapeChar
    split
    · next h => subst h; exact congrArg _ ih
    split
    · next h => subst h; exact congrArg _ ih
    split
    · next h => subst h; exact congrArg _ ih
    split
    · next h => subst h; exact congrArg _ ih
    · next h _ _ _ => rw [List.singleton_append, unescape_cons h, ih]

theorem escape_append (a b : Text) : escape (a ++ b) = escape a ++ escape b := List.flatMap_append

/-- Escaped text has no bracket and no quote. -/
theorem notMem_escape (t : Text) : '<' ∉ escape t ∧ '>' ∉ escape t ∧ '"' ∉ escape t := by
  have hchar : ∀ c : Char, '<' ∉ escapeChar c ∧ '>' ∉ escapeChar c ∧ '"' ∉ escapeChar c := by
    intro c
    unfold escapeChar
    split
    · decide
    split
    · decide
    split
    · decide
    split
    · decide
    · next h₁ h₂ h₃ h₄ => simp [Ne.symm h₂, Ne.symm h₃, Ne.symm h₄]
  simp only [escape, List.mem_flatMap, not_exists, not_and]
  exact ⟨fun c _ => (hchar c).1, fun c _ => (hchar c).2.1, fun c _ => (hchar c).2.2⟩

/-! ## Elements -/

def openTag (name : Text) : Text := '<' :: (name ++ ">".toList)

def closeTag (name : Text) : Text := '<' :: '/' :: (name ++ ">".toList)

/-- Text, or an element with nothing but text in it. -/
inductive Node where
  | text (t : Text)
  | element (name t : Text)

def Node.content : Node → Text
  | text t => t
  | element _ t => t

def Node.html : Node → Text
  | text t => escape t
  | element name t => openTag name ++ (escape t ++ closeTag name)

/-- The only element is `name`. -/
def Node.Only (name : Text) : Node → Prop
  | text _ => True
  | element n _ => n = name

def render (nodes : List Node) : Text := nodes.flatMap Node.html

/-- Both tags of an element, taken out wherever they stand. -/
def removeTags (name s : Text) : Text := Text.replaceAll (closeTag name) [] (Text.replaceAll (openTag name) [] s)

section

variable {name : Text}

/-- Taking out the opening tags leaves the closing ones. -/
theorem removeOpen_render (hname : ∀ c ∈ name, c ≠ '<' ∧ c ≠ '/') {nodes : List Node}
    (h : ∀ n ∈ nodes, n.Only name) :
    Text.replaceAll (openTag name) [] (render nodes) = nodes.flatMap fun n => match n with
      | .text t => escape t
      | .element _ t => escape t ++ closeTag name := by
  have hlt : '<' ∉ name ++ ">".toList := by
    rw [List.mem_append, not_or]
    exact ⟨fun hc => (hname _ hc).1 rfl, by decide⟩
  -- A closing tag is no opening tag: the names differ in the slash.
  have hclose : ∀ b, Text.replaceAll (openTag name) [] (closeTag name ++ b) =
      closeTag name ++ Text.replaceAll (openTag name) [] b := by
    intro b
    have hno : ¬ openTag name <+: '<' :: ('/' :: (name ++ ">".toList) ++ b) := by
      intro hp
      obtain ⟨-, hp⟩ := List.cons_prefix_cons.1 hp
      cases name with
      | nil => exact absurd (List.cons_prefix_cons.1 hp).1 (by decide)
      | cons c name => exact (hname c (by simp)).2 (List.cons_prefix_cons.1 hp).1
    have hrest : '<' ∉ '/' :: (name ++ ">".toList) := by
      rw [List.mem_cons, not_or]
      exact ⟨by decide, hlt⟩
    have hgo : Text.replaceAll (openTag name) [] ('/' :: (name ++ ">".toList) ++ b) =
        '/' :: (name ++ ">".toList) ++ Text.replaceAll (openTag name) [] b :=
      Text.replaceAll_append_of_notMem hrest
    rw [closeTag, List.cons_append, Text.replaceAll, Text.replaceFrom, if_neg hno]
    exact congrArg _ hgo
  induction nodes with
  | nil => rfl
  | cons n nodes ih =>
    have hrest := ih fun m hm => h m (by simp [hm])
    rw [render, List.flatMap_cons, ← render, List.flatMap_cons, ← hrest]
    cases n with
    | text t => exact Text.replaceAll_append_of_notMem (notMem_escape t).1
    | element n t =>
      obtain rfl : n = name := h (.element n t) (by simp)
      simp only [Node.html, List.append_assoc]
      rw [openTag, Text.replaceAll_pattern_append, List.nil_append,
        Text.replaceAll_append_of_notMem (notMem_escape t).1, ← openTag, hclose]

/-- **Taking out the tags.** What is left is the escaped text of the nodes. -/
theorem removeTags_render (hname : ∀ c ∈ name, c ≠ '<' ∧ c ≠ '/') {nodes : List Node}
    (h : ∀ n ∈ nodes, n.Only name) : removeTags name (render nodes) = escape (nodes.flatMap Node.content) := by
  rw [removeTags, removeOpen_render hname h]
  clear h
  induction nodes with
  | nil => rfl
  | cons n nodes ih =>
    rw [List.flatMap_cons, List.flatMap_cons, escape_append, ← ih]
    cases n with
    | text t => exact Text.replaceAll_append_of_notMem (notMem_escape t).1
    | element n t =>
      simp only [List.append_assoc, Node.content]
      rw [closeTag, Text.replaceAll_append_of_notMem (notMem_escape t).1, Text.replaceAll_pattern_append]
      rfl

end

end Html
