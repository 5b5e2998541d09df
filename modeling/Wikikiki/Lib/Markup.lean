/-
Markup with attributes, as a template engine writes it and as a browser's
tokenizer reads it.

The reader knows the part of HTML that such engines write: attributes without
a value or with one in double quotes, five character references, comments, and
the elements whose content is plain text. It stops at anything else, and it
stops at elements whose content is a program. What it reads from a written
document is that document (`read_html`), whatever the texts in it are.
-/
import Wikikiki.Lib.Html

namespace Markup

open Html (escape escapeChar closeTag)

/-! ## Tokens -/

inductive Token where
  | doctype
  | opened (name : Text) (attrs : List (Text × Text))
  | closed (name : Text)
  | char (c : Char)
  | comment (t : Text)
  deriving DecidableEq

/-- What the content of an element is read as. -/
inductive Mode where
  | data
  | rcdata (name : Text)
  | rawtext (name : Text)
  deriving DecidableEq

/-- The content of `script` and its like is not read. -/
def contentOf (name : Text) : Option Mode :=
  if ["title".toList, "textarea".toList].contains name then some (.rcdata name)
  else if name = "style".toList then some (.rawtext name)
  else if ["script".toList, "noscript".toList, "iframe".toList, "noembed".toList, "noframes".toList, "xmp".toList,
    "plaintext".toList].contains name then none
  else some .data

/-- The null character has a replacement outside of ordinary text. -/
def scalar (c : Char) : Char := if c = '\x00' then '\uFFFD' else c

def Mode.char : Mode → Char → Token
  | .data, c => .char c
  | _, c => .char (scalar c)

/-- The end of an element with plain text in it. -/
def Mode.name : Mode → Text
  | .data => []
  | .rcdata name | .rawtext name => name

/-- The references that writers of markup use. -/
def referent (name : Text) : Option Char :=
  if name = "amp".toList then some '&'
  else if name = "lt".toList then some '<'
  else if name = "gt".toList then some '>'
  else if name = "quot".toList then some '"'
  else if name = "#x27".toList then some '\''
  else none

def isSpace (c : Char) : Bool := c = ' ' || c = '\t' || c = '\n' || c = '\r' || c = '\x0C'

/-! ## The reader -/

/-- A tag that is being read. -/
structure Tag where
  closing : Bool
  name : Text
  attrs : List (Text × Text)
  deriving DecidableEq

/-- Of two attributes of one name the first counts. -/
def Tag.push (tag : Tag) (name value : Text) : Tag :=
  if (tag.attrs.map Prod.fst).contains name then tag else { tag with attrs := tag.attrs ++ [(name, value)] }

inductive State where
  | content (m : Mode)
  | reference (m : Mode) (name : Text)
  | less
  | endOpen
  | declaration (t : Text)
  | comment (t : Text)
  | plainLess (m : Mode)
  | plainEnd (m : Mode) (name : Text)
  | tagName (closing : Bool) (name : Text)
  | inTag (tag : Tag)
  | attrName (tag : Tag) (name : Text)
  | attrEq (tag : Tag) (name : Text)
  | value (tag : Tag) (name value : Text)
  | valueReference (tag : Tag) (name value reference : Text)
  | afterValue (tag : Tag)
  | selfClosing (tag : Tag)
  | stuck
  deriving DecidableEq

/-- The tag is complete. -/
def Tag.emit (tag : Tag) : State × List Token :=
  if tag.closing then (.content .data, [.closed tag.name])
  else
    match contentOf tag.name with
    | some m => (.content m, [.opened tag.name tag.attrs])
    | none => (.stuck, [])

/-- Between the attributes of a tag. -/
def Tag.next (tag : Tag) (c : Char) : State × List Token :=
  if isSpace c then (.inTag tag, [])
  else if c = '/' then (.selfClosing tag, [])
  else if c = '>' then tag.emit
  else (.stuck, [])

def isAttrName (c : Char) : Bool := c ∉ ['"', '\'', '<', '=', '\x00']

/-- One character, and the tokens that it completes. -/
def step : State → Char → State × List Token
  | .content m, c =>
    match m with
    | .data =>
      if c = '<' then (.less, []) else if c = '&' then (.reference m [], []) else (.content m, [m.char c])
    | .rcdata _ =>
      if c = '<' then (.plainLess m, []) else if c = '&' then (.reference m [], []) else (.content m, [m.char c])
    | .rawtext _ => if c = '<' then (.plainLess m, []) else (.content m, [m.char c])
  | .reference m name, c =>
    if c = ';' then
      match referent name with
      | some d => (.content m, [.char d])
      | none => (.stuck, [])
    else if c.isAlphanum || c = '#' then (.reference m (name ++ [c]), [])
    else (.stuck, [])
  | .less, c =>
    if c = '/' then (.endOpen, [])
    else if c = '!' then (.declaration [], [])
    else if c.isAlpha then (.tagName false [c.toLower], [])
    else (.stuck, [])
  | .endOpen, c => if c.isAlpha then (.tagName true [c.toLower], []) else (.stuck, [])
  | .declaration t, c =>
    let t := t ++ [c.toLower]
    if t = "--".toList then (.comment [], [])
    else if t = "doctype html>".toList then (.content .data, [.doctype])
    else if t <+: "--".toList ∨ t <+: "doctype html>".toList then (.declaration t, [])
    else (.stuck, [])
  | .comment t, c =>
    if c = '>' then
      if "--".toList <:+ t then (.content .data, [.comment (t.take (t.length - 2))])
      else if t = [] ∨ t = "-".toList ∨ "--!".toList <:+ t then (.stuck, [])
      else (.comment (t ++ [c]), [])
    else (.comment (t ++ [scalar c]), [])
  | .plainLess m, c => if c = '/' then (.plainEnd m [], []) else (.stuck, [])
  | .plainEnd m name, c =>
    if c = '>' ∧ name = m.name then (.content .data, [.closed name])
    else if c.isAlphanum then (.plainEnd m (name ++ [c.toLower]), [])
    else (.stuck, [])
  | .tagName closing name, c =>
    if isSpace c ∨ c = '/' ∨ c = '>' then Tag.next ⟨closing, name, []⟩ c
    else if c = '\x00' then (.stuck, [])
    else (.tagName closing (name ++ [c.toLower]), [])
  | .inTag tag, c =>
    if isSpace c ∨ c = '/' ∨ c = '>' then tag.next c
    else if isAttrName c then (.attrName tag [c.toLower], [])
    else (.stuck, [])
  | .attrName tag name, c =>
    if isSpace c ∨ c = '/' ∨ c = '>' then (tag.push name []).next c
    else if c = '=' then (.attrEq tag name, [])
    else if isAttrName c then (.attrName tag (name ++ [c.toLower]), [])
    else (.stuck, [])
  | .attrEq tag name, c => if c = '"' then (.value tag name [], []) else (.stuck, [])
  | .value tag name v, c =>
    if c = '"' then (.afterValue (tag.push name v), [])
    else if c = '&' then (.valueReference tag name v [], [])
    else (.value tag name (v ++ [scalar c]), [])
  | .valueReference tag name v ref, c =>
    if c = ';' then
      match referent ref with
      | some d => (.value tag name (v ++ [d]), [])
      | none => (.stuck, [])
    else if c.isAlphanum || c = '#' then (.valueReference tag name v (ref ++ [c]), [])
    else (.stuck, [])
  | .afterValue tag, c => tag.next c
  | .selfClosing tag, c => if c = '>' then tag.emit else (.stuck, [])
  | .stuck, _ => (.stuck, [])

def run : State → Text → State × List Token
  | s, [] => (s, [])
  | s, c :: t =>
    let (s, out) := step s c
    let (s, out') := run s t
    (s, out ++ out')

/-- The tokens of a text that is read to its end. -/
def read (t : Text) : Option (List Token) :=
  match run (.content .data) t with
  | (.content .data, out) => some out
  | _ => none

example : read "<p>a &amp; b</p>".toList =
    some [.opened ['p'] [], .char 'a', .char ' ', .char '&', .char ' ', .char 'b', .closed ['p']] := by
  decide +kernel

/-! ## Documents -/

/-- An attribute; without a value it is only its name. -/
structure Attr where
  name : Text
  value : Option Text

/-- What a template builds: `raw` is written as it is. -/
inductive Doc where
  | empty
  | seq (a b : Doc)
  | doctype
  | text (t : Text)
  | raw (t : Text)
  | void (name : Text) (attrs : List Attr)
  | element (name : Text) (attrs : List Attr) (body : Doc)

instance : Append Doc := ⟨.seq⟩

def Attr.html (a : Attr) : Text :=
  ' ' :: (a.name ++
    match a.value with
    | some v => '=' :: '"' :: (escape v ++ ['"'])
    | none => [])

def openTag (name : Text) (attrs : List Attr) : Text := '<' :: (name ++ (attrs.flatMap Attr.html ++ ['>']))

/-- What is written. -/
def Doc.html : Doc → Text
  | .empty => []
  | .seq a b => a.html ++ b.html
  | .doctype => "<!DOCTYPE html>".toList
  | .text t => escape t
  | .raw t => t
  | .void name attrs => openTag name attrs
  | .element name attrs body => openTag name attrs ++ (body.html ++ closeTag name)

/-- The attribute as it is read. -/
def Attr.read (a : Attr) : Text × Text := (a.name, (a.value.getD []).map scalar)

/-- The document as tokens. -/
def Doc.tokens (m : Mode) : Doc → List Token
  | .empty => []
  | .seq a b => a.tokens m ++ b.tokens m
  | .doctype => [.doctype]
  | .text t => t.map m.char
  | .raw t => (run (.content m) t).2
  | .void name attrs => [.opened name (attrs.map Attr.read)]
  | .element name attrs body =>
    .opened name (attrs.map Attr.read) :: (body.tokens ((contentOf name).getD .data) ++ [.closed name])

/-! ### Well-formed documents -/

def isNameChar (c : Char) : Bool := c.isLower || c.isDigit || c = '-'

def isName (name : Text) : Bool := name.head?.any Char.isLower && name.all isNameChar

def isAttrs (attrs : List Attr) : Bool :=
  attrs.all (fun a => isName a.name) && decide (attrs.map Attr.name).Nodup

def voidNames : List Text :=
  ["area".toList, "base".toList, "br".toList, "col".toList, "embed".toList, "hr".toList, "img".toList, "input".toList,
    "link".toList, "meta".toList, "source".toList, "track".toList, "wbr".toList]

/-- The names are names, each element stands where its tag is read as one, and
each tag keeps the policy. -/
def Doc.check (policy : Text → List Attr → Bool) (m : Mode) : Doc → Bool
  | .empty => true
  | .seq a b => a.check policy m && b.check policy m
  | .doctype => m = .data
  | .text _ =>
    match m with
    | .rawtext _ => false
    | _ => true
  | .raw _ =>
    match m with
    | .rcdata _ => false
    | _ => true
  | .void name attrs =>
    m = .data && isName name && voidNames.contains name && contentOf name = some .data && isAttrs attrs && policy name attrs
  | .element name attrs body =>
    (contentOf name).any fun inner =>
      m = .data && isName name && !voidNames.contains name && isAttrs attrs && policy name attrs && body.check policy inner

/-- The texts that are written as they are, and where. -/
def Doc.raws (m : Mode) : Doc → List (Mode × Text)
  | .seq a b => a.raws m ++ b.raws m
  | .raw t => [(m, t)]
  | .element name _ body => body.raws ((contentOf name).getD .data)
  | _ => []

/-- A text that leaves the reader where it was. -/
def Closed (m : Mode) (t : Text) : Prop := (run (.content m) t).1 = .content m

instance (m : Mode) (t : Text) : Decidable (Closed m t) := inferInstanceAs (Decidable (_ = _))

/-! ## Reading what was written -/

def Reads (s : State) (t : Text) (s' : State) (out : List Token) : Prop := run s t = (s', out)

instance (s : State) (t : Text) (s' : State) (out : List Token) : Decidable (Reads s t s' out) :=
  inferInstanceAs (Decidable (_ = _))

section

variable {s s' s'' : State} {t u : Text} {out out' : List Token} {m : Mode} {c : Char}

theorem run_append (s : State) (t u : Text) :
    run s (t ++ u) = ((run (run s t).1 u).1, (run s t).2 ++ (run (run s t).1 u).2) := by
  induction t generalizing s with
  | nil => rfl
  | cons c t ih => simp [run, ih]

theorem Reads.nil (s : State) : Reads s [] s [] := rfl

theorem Reads.append (ht : Reads s t s' out) (hu : Reads s' u s'' out') : Reads s (t ++ u) s'' (out ++ out') := by
  unfold Reads at ht hu ⊢
  rw [run_append, ht]
  simp only [hu]

theorem Reads.cons (hc : step s c = (s', out)) (ht : Reads s' t s'' out') : Reads s (c :: t) s'' (out ++ out') := by
  unfold Reads at ht ⊢
  rw [run, hc]
  simp only [ht]

/-- A character that completes nothing. -/
theorem Reads.silent (hc : step s c = (s', [])) (ht : Reads s' t s'' out) : Reads s (c :: t) s'' out := .cons hc ht

theorem Reads.one (hc : step s c = (s', out)) : Reads s [c] s' out := by
  simp [Reads, run, hc]

/-! ### Texts -/

/-- The modes that know references. -/
def Mode.Decodes : Mode → Prop
  | .rawtext _ => False
  | _ => True

theorem reads_escapeChar (hm : m.Decodes) (c : Char) : Reads (.content m) (escapeChar c) (.content m) [m.char c] := by
  unfold escapeChar
  split
  · next h => subst h; cases m <;> first | rfl | cases hm
  split
  · next h => subst h; cases m <;> first | rfl | cases hm
  split
  · next h => subst h; cases m <;> first | rfl | cases hm
  split
  · next h => subst h; cases m <;> first | rfl | cases hm
  · next hamp hlt _ _ =>
    refine .one ?_
    cases m with
    | rawtext name => cases hm
    | _ => simp [step, hamp, hlt]

theorem reads_escape (hm : m.Decodes) (t : Text) : Reads (.content m) (escape t) (.content m) (t.map m.char) := by
  induction t with
  | nil => exact .nil _
  | cons c t ih => exact (reads_escapeChar hm c).append ih

/-- Nothing ends raw text but an angle bracket. -/
theorem closed_rawtext (name : Text) (h : '<' ∉ t) : Closed (.rawtext name) t := by
  unfold Closed
  induction t with
  | nil => rfl
  | cons c t ih =>
    have hc : c ≠ '<' := fun he => h (by simp [he])
    simpa [run, step, hc] using ih fun hm => h (by simp [hm])

/-- It has no tags. -/
theorem opened_rawtext (name : Text) (h : '<' ∉ t) {n : Text} {as : List (Text × Text)} :
    .opened n as ∉ (run (.content (.rawtext name)) t).2 := by
  induction t with
  | nil => exact List.not_mem_nil
  | cons c t ih =>
    have hc : c ≠ '<' := fun he => h (by simp [he])
    simpa [run, step, hc, Mode.char] using ih fun hm => h (by simp [hm])

/-- Inside of an attribute's value nothing ends it but the quote. -/
theorem reads_value (tag : Tag) (name v t : Text) :
    Reads (.value tag name v) (escape t) (.value tag name (v ++ t.map scalar)) [] := by
  have hchar : ∀ (v : Text) (c : Char),
      Reads (.value tag name v) (escapeChar c) (.value tag name (v ++ [scalar c])) [] := by
    intro v c
    unfold escapeChar
    split
    · next h => subst h; rfl
    split
    · next h => subst h; rfl
    split
    · next h => subst h; rfl
    split
    · next h => subst h; rfl
    · next hamp _ _ hquot => exact .one (by simp [step, hamp, hquot])
  induction t generalizing v with
  | nil => simpa [escape] using Reads.nil _
  | cons c t ih => simpa [escape, List.append_assoc] using (hchar v c).append (ih (v ++ [scalar c]))

/-! ### Tags -/

/-- The codes of a name's characters. -/
theorem isNameChar_toNat (h : isNameChar c = true) :
    (97 ≤ c.toNat ∧ c.toNat ≤ 122) ∨ (48 ≤ c.toNat ∧ c.toNat ≤ 57) ∨ c.toNat = 45 := by
  simp only [isNameChar, Bool.or_eq_true, decide_eq_true_eq] at h
  rcases h with (h | h) | rfl
  · obtain ⟨hlo, hhi⟩ := Bool.and_eq_true_iff.1 h
    exact .inl ⟨of_decide_eq_true hlo, of_decide_eq_true hhi⟩
  · obtain ⟨hlo, hhi⟩ := Bool.and_eq_true_iff.1 h
    exact .inr (.inl ⟨of_decide_eq_true hlo, of_decide_eq_true hhi⟩)
  · exact .inr (.inr rfl)

theorem toLower_of_isNameChar (h : isNameChar c = true) : c.toLower = c := by
  unfold Char.toLower
  split
  · next hup =>
    have hlo : 65 ≤ c.toNat := hup.1
    have hhi : c.toNat ≤ 90 := hup.2
    have := isNameChar_toNat h
    omega
  · rfl

/-- A name is read to its end. -/
theorem isNameChar_spec (h : isNameChar c = true) :
    c.toLower = c ∧ isSpace c = false ∧ c ≠ '/' ∧ c ≠ '>' ∧ c ≠ '\x00' ∧ isAttrName c = true ∧ c ≠ '=' := by
  have hcodes := isNameChar_toNat h
  have hne : ∀ d : Char, d.toNat ∉ [45] ∧ d.toNat ∉ List.range' 48 10 ∧ d.toNat ∉ List.range' 97 26 → c ≠ d := by
    rintro d hd rfl
    simp only [List.mem_singleton, List.mem_range'_1] at hd
    omega
  refine ⟨toLower_of_isNameChar h, ?_, hne _ (by decide), hne _ (by decide), hne _ (by decide), ?_, hne _ (by decide)⟩
  · simp [isSpace, hne ' ' (by decide), hne '\t' (by decide), hne '\n' (by decide), hne '\r' (by decide),
      hne '\x0C' (by decide)]
  · simp [isAttrName, hne '"' (by decide), hne '\'' (by decide), hne '<' (by decide), hne '=' (by decide),
      hne '\x00' (by decide)]

theorem isAlpha_of_isLower (h : c.isLower = true) : c.isAlpha = true ∧ c ≠ '/' ∧ c ≠ '!' := by
  refine ⟨Bool.or_eq_true_iff.2 (.inr h), ?_, ?_⟩ <;> (rintro rfl; exact absurd h (by decide))

/-- The state at the end of a name or of a value: the tag goes on. -/
def Pending (s : State) (tag : Tag) : Prop := ∀ c, isSpace c ∨ c = '/' ∨ c = '>' → step s c = tag.next c

theorem pending_tagName (closing : Bool) (name : Text) : Pending (.tagName closing name) ⟨closing, name, []⟩ :=
  fun _ h => if_pos h

theorem pending_attrName (tag : Tag) (name : Text) : Pending (.attrName tag name) (tag.push name []) :=
  fun _ h => if_pos h

theorem pending_afterValue (tag : Tag) : Pending (.afterValue tag) tag := fun _ _ => rfl

theorem reads_tagName (closing : Bool) (name : Text) (h : ∀ c ∈ t, isNameChar c = true) :
    Reads (.tagName closing name) t (.tagName closing (name ++ t)) [] := by
  induction t generalizing name with
  | nil => simpa using Reads.nil _
  | cons c t ih =>
    obtain ⟨hlower, hspace, hslash, hgt, hnul, -⟩ := isNameChar_spec (h c (by simp))
    have hstep : step (.tagName closing name) c = (.tagName closing (name ++ [c]), []) := by
      simp [step, hlower, hspace, hslash, hgt, hnul]
    simpa using Reads.silent hstep (ih (name ++ [c]) fun d hd => h d (by simp [hd]))

theorem reads_attrName (tag : Tag) (name : Text) (h : ∀ c ∈ t, isNameChar c = true) :
    Reads (.attrName tag name) t (.attrName tag (name ++ t)) [] := by
  induction t generalizing name with
  | nil => simpa using Reads.nil _
  | cons c t ih =>
    obtain ⟨hlower, hspace, hslash, hgt, -, hattr, heq⟩ := isNameChar_spec (h c (by simp))
    have hstep : step (.attrName tag name) c = (.attrName tag (name ++ [c]), []) := by
      simp [step, hlower, hspace, hslash, hgt, hattr, heq]
    simpa using Reads.silent hstep (ih (name ++ [c]) fun d hd => h d (by simp [hd]))

theorem isName_cons {name : Text} (h : isName name = true) :
    ∃ c t, name = c :: t ∧ c.isLower = true ∧ ∀ d ∈ name, isNameChar d = true := by
  cases name with
  | nil => cases h
  | cons c t =>
    obtain ⟨hc, hall⟩ := Bool.and_eq_true_iff.1 h
    exact ⟨c, t, rfl, by simpa using hc, List.all_eq_true.1 hall⟩

/-- An attribute behind a tag that goes on. -/
theorem reads_attr {tag : Tag} {a : Attr} (hs : Pending s tag) (ha : isName a.name = true) :
    ∃ s', Reads s a.html s' [] ∧ Pending s' (tag.push a.read.1 a.read.2) := by
  obtain ⟨c, t, hname, -, hall⟩ := isName_cons ha
  obtain ⟨hlower, hspace, hslash, hgt, -, hattr, -⟩ := isNameChar_spec (hall c (by simp [hname]))
  have hblank : step s ' ' = (.inTag tag, []) := hs ' ' (.inl rfl)
  have hfirst : step (.inTag tag) c = (.attrName tag [c], []) := by
    simp [step, hlower, hspace, hslash, hgt, hattr]
  have hrest := reads_attrName (t := t) tag [c] fun d hd => hall d (by simp [hname, hd])
  have hword : Reads s (' ' :: a.name) (.attrName tag a.name) [] := by
    rw [hname]
    exact .silent hblank (.silent hfirst hrest)
  cases hv : a.value with
  | none =>
    refine ⟨_, by simpa [Attr.html, hv] using hword, ?_⟩
    simpa [Attr.read, hv] using pending_attrName tag a.name
  | some v =>
    have hquote : Reads (.attrName tag a.name) ['=', '"'] (.value tag a.name []) [] := rfl
    have hend : Reads (.value tag a.name (v.map scalar)) ['"'] (.afterValue (tag.push a.name (v.map scalar))) [] := rfl
    have hvalue := ((hword.append hquote).append (reads_value tag a.name [] v)).append hend
    refine ⟨_, by simpa [Attr.html, hv] using hvalue, ?_⟩
    simpa [Attr.read, hv] using pending_afterValue _

theorem reads_attrs {tag : Tag} {attrs : List Attr} (hs : Pending s tag)
    (hnames : ∀ a ∈ attrs, isName a.name = true) (hnodup : (tag.attrs.map Prod.fst ++ attrs.map Attr.name).Nodup) :
    ∃ s', Reads s (attrs.flatMap Attr.html) s' [] ∧
      Pending s' { tag with attrs := tag.attrs ++ attrs.map Attr.read } := by
  induction attrs generalizing s tag with
  | nil => exact ⟨s, .nil s, by simpa using hs⟩
  | cons a attrs ih =>
    obtain ⟨s₁, hr₁, hp₁⟩ := reads_attr hs (hnames a (by simp))
    have hnew : a.name ∉ tag.attrs.map Prod.fst := by
      intro hmem
      exact (List.nodup_append.1 hnodup).2.2 _ hmem _ (by simp) rfl
    have hpush : tag.push a.read.1 a.read.2 = { tag with attrs := tag.attrs ++ [a.read] } := if_neg (mt List.contains_iff_mem.1 hnew)
    rw [hpush] at hp₁
    obtain ⟨s₂, hr₂, hp₂⟩ := ih hp₁ (fun b hb => hnames b (by simp [hb])) (by simpa [Attr.read] using hnodup)
    exact ⟨s₂, by simpa using hr₁.append hr₂, by simpa using hp₂⟩

theorem reads_openTag {name : Text} {attrs : List Attr} (hname : isName name = true) (hattrs : isAttrs attrs = true)
    (hm : contentOf name = some m) :
    Reads (.content .data) (openTag name attrs) (.content m) [.opened name (attrs.map Attr.read)] := by
  obtain ⟨c, t, hcons, hlow, hall⟩ := isName_cons hname
  obtain ⟨hnames, hnodup⟩ := Bool.and_eq_true_iff.1 hattrs
  have hlower := (isNameChar_spec (hall c (by simp [hcons]))).1
  obtain ⟨halpha, hslash, hbang⟩ := isAlpha_of_isLower hlow
  have hfirst : step .less c = (.tagName false [c], []) := by simp [step, halpha, hslash, hbang, hlower]
  have hrest := reads_tagName (t := t) false [c] fun d hd => hall d (by simp [hcons, hd])
  obtain ⟨s, hr, hp⟩ := reads_attrs (pending_tagName false name) (List.all_eq_true.1 hnames)
    (by simpa using of_decide_eq_true hnodup)
  have hend : Reads s ['>'] (.content m) [.opened name (attrs.map Attr.read)] :=
    .one ((hp '>' (by simp)).trans (by simp [Tag.next, isSpace, Tag.emit, hm]))
  have hopen : Reads (.content .data) ('<' :: name) (.tagName false name) [] := by
    rw [hcons]
    exact .silent rfl (.silent hfirst hrest)
  simpa [openTag] using (hopen.append hr).append hend

/-- The elements with plain text in them. -/
theorem contentOf_cases {name : Text} (h : contentOf name = some m) :
    m = .data ∨ (name = "title".toList ∧ m = .rcdata "title".toList) ∨
      (name = "textarea".toList ∧ m = .rcdata "textarea".toList) ∨
        (name = "style".toList ∧ m = .rawtext "style".toList) := by
  unfold contentOf at h
  split at h
  next hm =>
    cases h
    rcases List.mem_pair.1 (List.contains_iff_mem.1 hm) with rfl | rfl
    · exact .inr (.inl ⟨rfl, rfl⟩)
    · exact .inr (.inr (.inl ⟨rfl, rfl⟩))
  split at h
  next hn =>
    cases h
    exact .inr (.inr (.inr ⟨hn, by rw [hn]⟩))
  split at h
  · cases h
  · cases h
    exact .inl rfl

theorem reads_closeTag {name : Text} (hname : isName name = true) (hm : contentOf name = some m) :
    Reads (.content m) (closeTag name) (.content .data) [.closed name] := by
  rcases contentOf_cases hm with rfl | ⟨rfl, rfl⟩ | ⟨rfl, rfl⟩ | ⟨rfl, rfl⟩
  · obtain ⟨c, t, hcons, hlow, hall⟩ := isName_cons hname
    have hlower := (isNameChar_spec (hall c (by simp [hcons]))).1
    have hfirst : step .endOpen c = (.tagName true [c], []) := by simp [step, isAlpha_of_isLower hlow, hlower]
    have hrest := reads_tagName (t := t) true [c] fun d hd => hall d (by simp [hcons, hd])
    have hend : Reads (.tagName true name) ['>'] (.content .data) [.closed name] := rfl
    have hopen : Reads (.content .data) ('<' :: '/' :: name) (.tagName true name) [] := by
      rw [hcons]
      exact .silent rfl (.silent rfl (.silent hfirst hrest))
    exact hopen.append hend
  all_goals decide +kernel

end

/-! ### Documents -/

section

variable {policy : Text → List Attr → Bool} {m : Mode} {doc : Doc}

/-- **Reading a document.** From the state that it is written for it leads back
to that state, and its tokens are read. -/
theorem reads_html (h : doc.check policy m = true) (hraw : ∀ p ∈ doc.raws m, Closed p.1 p.2) :
    Reads (.content m) doc.html (.content m) (doc.tokens m) := by
  induction doc generalizing m with
  | empty => exact .nil _
  | seq a b iha ihb =>
    obtain ⟨ha, hb⟩ := Bool.and_eq_true_iff.1 h
    exact (iha ha fun p hp => hraw p (by simp [Doc.raws, hp])).append
      (ihb hb fun p hp => hraw p (by simp [Doc.raws, hp]))
  | doctype =>
    obtain rfl := of_decide_eq_true h
    decide +kernel
  | text t =>
    refine reads_escape ?_ t
    cases m with
    | rawtext name => cases h
    | _ => trivial
  | raw t => exact Prod.ext (hraw (m, t) (by simp [Doc.raws])) rfl
  | void name attrs =>
    simp only [Doc.check, Bool.and_eq_true, decide_eq_true_eq] at h
    obtain ⟨⟨⟨⟨⟨rfl, hname⟩, -⟩, hm⟩, hattrs⟩, -⟩ := h
    exact reads_openTag hname hattrs hm
  | element name attrs body ih =>
    cases hm : contentOf name with
    | none => simp [Doc.check, hm] at h
    | some inner =>
      simp only [Doc.check, hm, Option.any_some, Bool.and_eq_true, decide_eq_true_eq] at h
      obtain ⟨⟨⟨⟨⟨rfl, hname⟩, -⟩, hattrs⟩, -⟩, hbody⟩ := h
      have hin := ih hbody fun p hp => hraw p (by simpa [Doc.raws, hm] using hp)
      have htokens : (Doc.element name attrs body).tokens .data =
          [.opened name (attrs.map Attr.read)] ++ (body.tokens inner ++ [.closed name]) := by
        rw [Doc.tokens, hm]
        rfl
      have hall := (reads_openTag hname hattrs hm).append (hin.append (reads_closeTag hname hm))
      exact htokens ▸ hall

theorem read_html (h : doc.check policy .data = true) (hraw : ∀ p ∈ doc.raws .data, Closed p.1 p.2) :
    read doc.html = some (doc.tokens .data) := by
  rw [read, reads_html h hraw]

/-- A tag is one of the document's own, which keeps the policy, or one of a
text that is written as it is. -/
theorem opened_of_check (h : doc.check policy m = true) {name : Text} {as : List (Text × Text)}
    (ht : .opened name as ∈ doc.tokens m) :
    (∃ attrs, policy name attrs = true ∧ as = attrs.map Attr.read) ∨
      ∃ p ∈ doc.raws m, .opened name as ∈ (run (.content p.1) p.2).2 := by
  induction doc generalizing m with
  | empty => cases ht
  | seq a b iha ihb =>
    obtain ⟨ha, hb⟩ := Bool.and_eq_true_iff.1 h
    rcases List.mem_append.1 ht with ht | ht
    · refine (iha ha ht).imp_right ?_
      rintro ⟨p, hp, ht⟩
      exact ⟨p, by simp [Doc.raws, hp], ht⟩
    · refine (ihb hb ht).imp_right ?_
      rintro ⟨p, hp, ht⟩
      exact ⟨p, by simp [Doc.raws, hp], ht⟩
  | doctype => simp [Doc.tokens] at ht
  | text t =>
    obtain ⟨c, -, hc⟩ := List.mem_map.1 ht
    cases m <;> cases hc
  | raw t => exact .inr ⟨(m, t), by simp [Doc.raws], ht⟩
  | void n attrs =>
    simp only [Doc.check, Bool.and_eq_true] at h
    simp only [Doc.tokens, List.mem_singleton, Token.opened.injEq] at ht
    obtain ⟨rfl, rfl⟩ := ht
    exact .inl ⟨attrs, h.2, rfl⟩
  | element n attrs body ih =>
    cases hm : contentOf n with
    | none => simp [Doc.check, hm] at h
    | some inner =>
      simp only [Doc.check, hm, Option.any_some, Bool.and_eq_true] at h
      simp only [Doc.tokens, hm, Option.getD_some, List.mem_cons, List.mem_append, Token.opened.injEq] at ht
      rcases ht with ⟨rfl, rfl⟩ | ht | ht
      · exact .inl ⟨attrs, h.1.2, rfl⟩
      · simpa [Doc.raws, hm] using ih h.2 ht
      · simp at ht

end

/-! ## Pieces -/

/-- A part of a document: its tags keep the policy, and what is written as it
is can be trusted. -/
structure Piece (policy : Text → List Attr → Bool) (trust : Mode → Text → Prop) where
  doc : Doc
  ok : doc.check policy .data = true
  trusted : ∀ p ∈ doc.raws .data, trust p.1 p.2

namespace Piece

variable {policy : Text → List Attr → Bool} {trust : Mode → Text → Prop}

/-- An element may have this tag. -/
def allows (policy : Text → List Attr → Bool) (name : Text) (attrs : List Attr) : Bool :=
  isName name && !voidNames.contains name && isAttrs attrs && policy name attrs

def empty : Piece policy trust := ⟨.empty, rfl, fun _ h => absurd h List.not_mem_nil⟩

def doctype : Piece policy trust := ⟨.doctype, rfl, fun _ h => absurd h List.not_mem_nil⟩

def text (t : Text) : Piece policy trust := ⟨.text t, rfl, fun _ h => absurd h List.not_mem_nil⟩

def raw (t : Text) (h : trust .data t) : Piece policy trust where
  doc := .raw t
  ok := rfl
  trusted _ hp := List.mem_singleton.1 hp ▸ h

instance : Append (Piece policy trust) where
  append a b :=
    { doc := a.doc ++ b.doc
      ok := Bool.and_eq_true_iff.2 ⟨a.ok, b.ok⟩
      trusted := fun p hp => (List.mem_append.1 hp).elim (a.trusted p) (b.trusted p) }

/-- One piece for each. -/
def each {α : Type} (f : α → Piece policy trust) : List α → Piece policy trust
  | [] => empty
  | x :: xs => f x ++ each f xs

def void (name : Text) (attrs : List Attr)
    (h : (Doc.void name attrs).check policy .data = true) : Piece policy trust where
  doc := .void name attrs
  ok := h
  trusted _ hp := absurd hp List.not_mem_nil

theorem check_element {name : Text} {attrs : List Attr} {body : Doc} {inner : Mode}
    (h : allows policy name attrs = true) (hm : contentOf name = some inner) (hb : body.check policy inner = true) :
    (Doc.element name attrs body).check policy .data = true := by
  simp only [allows, Bool.and_eq_true] at h
  simp only [Doc.check, hm, Option.any_some, Bool.and_eq_true]
  exact ⟨⟨⟨⟨⟨decide_eq_true trivial, h.1.1.1⟩, h.1.1.2⟩, h.1.2⟩, h.2⟩, hb⟩

theorem raws_element {name : Text} {attrs : List Attr} {body : Doc} {inner : Mode} (hm : contentOf name = some inner) :
    (Doc.element name attrs body).raws .data = body.raws inner := by
  rw [Doc.raws, hm]
  rfl

/-- An element with other elements in it. -/
def element (name : Text) (attrs : List Attr) (body : Piece policy trust) (h : allows policy name attrs = true)
    (hm : contentOf name = some .data) : Piece policy trust where
  doc := .element name attrs body.doc
  ok := check_element h hm body.ok
  trusted p hp := body.trusted p (raws_element hm ▸ hp)

/-- An element with plain text in it. -/
def plain (name : Text) (attrs : List Attr) (t : Text) (h : allows policy name attrs = true)
    (hm : contentOf name = some (.rcdata name)) : Piece policy trust where
  doc := .element name attrs (.text t)
  ok := check_element h hm rfl
  trusted p hp := by
    rw [raws_element hm] at hp
    cases hp

/-- An element whose text is written as it is. -/
def verbatim (name : Text) (attrs : List Attr) (t : Text) (h : allows policy name attrs = true)
    (hm : contentOf name = some (.rawtext name)) (ht : trust (.rawtext name) t) : Piece policy trust where
  doc := .element name attrs (.raw t)
  ok := check_element h hm rfl
  trusted p hp := by
    rw [raws_element hm] at hp
    exact List.mem_singleton.1 hp ▸ ht

/-- The text of a piece. -/
def html (x : Piece policy trust) : Text := x.doc.html

def tokens (x : Piece policy trust) : List Token := x.doc.tokens .data

/-- **A piece is read as it was built**, and of its tags each keeps the policy
or stands in a trusted text. -/
theorem read_html (x : Piece policy trust) (ht : ∀ m t, trust m t → Closed m t) : read x.html = some x.tokens :=
  Markup.read_html x.ok fun p hp => ht _ _ (x.trusted p hp)

theorem opened (x : Piece policy trust) {name : Text} {as : List (Text × Text)} (h : .opened name as ∈ x.tokens) :
    (∃ attrs, policy name attrs = true ∧ as = attrs.map Attr.read) ∨
      ∃ m t, trust m t ∧ .opened name as ∈ (run (.content m) t).2 :=
  (opened_of_check x.ok h).imp_right fun hraw => hraw.elim fun p hp => ⟨p.1, p.2, x.trusted p hp.1, hp.2⟩

end Piece

end Markup
