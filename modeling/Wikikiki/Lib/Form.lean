/-
The forms and the addresses of a page, as a browser finds them among its
tokens, and what it submits for a form that nobody has touched.

A browser reads every newline as a line feed, drops the one at the beginning
of a `textarea`, and submits each as a carriage return and a line feed. So a
text does not always come back as it was (`submitArea_eq_self`).
-/
import Wikikiki.Lib.Markup

namespace Markup

/-! ## Newlines -/

/-- Every newline as a line feed. -/
def normalize : Text → Text
  | '\r' :: '\n' :: s => '\n' :: normalize s
  | '\r' :: s => '\n' :: normalize s
  | c :: s => c :: normalize s
  | [] => []

/-- Every line feed as a newline of the wire. -/
def crlf (s : Text) : Text := s.flatMap fun c => if c = '\n' then ['\r', '\n'] else [c]

/-- The value of a hidden field. -/
def submitHidden (v : Text) : Text := crlf (normalize v)

/-- The value of a field of one line. -/
def submitLine (v : Text) : Text := (normalize v).filter (· ≠ '\n')

def dropNewline : Text → Text
  | '\n' :: s => s
  | s => s

/-- The value of a `textarea` with this text in it. -/
def submitArea (t : Text) : Text := crlf (dropNewline (normalize t))

section

variable {s t : Text} {c : Char}

theorem normalize_cons (h : c ≠ '\r') (s : Text) : normalize (c :: s) = c :: normalize s := by
  rw [normalize.eq_def]
  split <;> simp_all

theorem notMem_normalize (s : Text) : '\r' ∉ normalize s := by
  induction s using normalize.induct with
  | case1 s ih => simp [normalize, ih]
  | case2 s hs ih => rw [normalize] <;> simp_all
  | case3 c s h₁ h₂ ih =>
    have hc : c ≠ '\r' := h₂
    rw [normalize_cons hc]
    simp [ih, Ne.symm hc]
  | case4 => exact List.not_mem_nil

/-- A text with line feeds only is read back from the wire. -/
theorem normalize_crlf (h : '\r' ∉ s) : normalize (crlf s) = s := by
  induction s with
  | nil => rfl
  | cons c s ih =>
    obtain ⟨hc, hs⟩ := not_or.1 (mt List.mem_cons.2 h)
    have hcons : crlf (c :: s) = (if c = '\n' then ['\r', '\n'] else [c]) ++ crlf s := rfl
    rw [hcons]
    split
    · next he =>
      subst he
      exact congrArg _ (ih hs)
    · rw [List.singleton_append, normalize_cons (Ne.symm hc), ih hs]

theorem dropNewline_of_ne (h : s.head? ≠ some '\n') : dropNewline s = s := by
  unfold dropNewline
  split
  · exact absurd rfl h
  · rfl

theorem dropNewline_suffix (s : Text) : dropNewline s <:+ s := by
  unfold dropNewline
  split
  · exact List.suffix_cons _ _
  · exact List.suffix_rfl

/-- **What comes back unchanged**: the lines of a text, each with the newline
of the wire behind it, where the first line is not empty. -/
theorem submitArea_eq_self : submitArea t = t ↔ ∃ s, '\r' ∉ s ∧ s.head? ≠ some '\n' ∧ t = crlf s := by
  constructor
  · intro h
    have hr : '\r' ∉ dropNewline (normalize t) := fun hm => notMem_normalize t ((dropNewline_suffix _).subset hm)
    refine ⟨dropNewline (normalize t), hr, fun hhead => ?_, h.symm⟩
    -- One newline is gone, and there would have to be one more.
    have hback : normalize t = dropNewline (normalize t) := by
      conv_lhs => rw [← h]
      exact normalize_crlf hr
    rw [← hback] at hhead
    obtain ⟨s, hs⟩ : ∃ s, normalize t = '\n' :: s := by
      cases hn : normalize t with
      | nil => simp [hn] at hhead
      | cons c s => exact ⟨s, by rw [hn] at hhead; cases hhead; rfl⟩
    rw [hs] at hback
    exact absurd (congrArg List.length hback) (by simp [dropNewline])
  · rintro ⟨s, hr, hhead, rfl⟩
    rw [submitArea, normalize_crlf hr, dropNewline_of_ne hhead]

theorem mem_normalize {d : Char} (hd : d ≠ '\n') (h : d ∈ normalize s) : d ∈ s := by
  induction s using normalize.induct with
  | case1 s ih =>
    simp only [normalize, List.mem_cons, hd, false_or] at h
    exact .tail _ (.tail _ (ih h))
  | case2 s hs ih =>
    have hcons : normalize ('\r' :: s) = '\n' :: normalize s := by (rw [normalize]; simp_all)
    rw [hcons, List.mem_cons] at h
    exact .tail _ (ih (h.resolve_left hd))
  | case3 c s h₁ h₂ ih =>
    have hc : c ≠ '\r' := h₂
    rw [normalize_cons hc, List.mem_cons] at h
    exact List.mem_cons.2 (h.imp_right ih)
  | case4 => cases h

theorem mem_crlf {d : Char} (hn : d ≠ '\n') (hr : d ≠ '\r') : d ∈ crlf s ↔ d ∈ s := by
  simp only [crlf, List.mem_flatMap]
  constructor
  · rintro ⟨c, hc, hd⟩
    split at hd
    · rcases List.mem_pair.1 hd with rfl | rfl
      · exact absurd rfl hr
      · exact absurd rfl hn
    · exact List.mem_singleton.1 hd ▸ hc
  · intro hd
    exact ⟨d, hd, by simp [hn]⟩

theorem map_scalar_eq_self : t.map scalar = t ↔ '\x00' ∉ t := by
  constructor
  · intro h hm
    rw [← h] at hm
    obtain ⟨c, -, hc⟩ := List.mem_map.1 hm
    unfold scalar at hc
    split at hc
    · exact absurd hc (by decide)
    · next hne => exact hne hc
  · intro h
    refine (List.map_congr_left fun c hc => ?_).trans (List.map_id t)
    have hne : c ≠ '\x00' := fun he => h (he ▸ hc)
    exact if_neg hne

/-- The same for a text as it stands in a page. -/
theorem submitArea_scalar : submitArea (t.map scalar) = t ↔
    ∃ s, '\r' ∉ s ∧ '\x00' ∉ s ∧ s.head? ≠ some '\n' ∧ t = crlf s := by
  have hkeeps : ∀ u : Text, '\x00' ∈ submitArea u → '\x00' ∈ u := fun u h =>
    mem_normalize (by decide) ((dropNewline_suffix _).subset ((mem_crlf (by decide) (by decide)).1 h))
  have hnone : '\x00' ∉ t.map scalar := map_scalar_eq_self.1 (by
    rw [List.map_map]
    refine List.map_congr_left fun c _ => ?_
    unfold Function.comp scalar
    split
    · decide
    · rfl)
  constructor
  · intro h
    have ht : '\x00' ∉ t := fun hm => hnone (hkeeps _ (h.symm ▸ hm))
    rw [map_scalar_eq_self.2 ht] at h
    obtain ⟨s, hr, hhead, rfl⟩ := submitArea_eq_self.1 h
    exact ⟨s, hr, fun hm => ht ((mem_crlf (by decide) (by decide)).2 hm), hhead, rfl⟩
  · rintro ⟨s, hr, hnul, hhead, rfl⟩
    rw [map_scalar_eq_self.2 fun hm => hnul ((mem_crlf (by decide) (by decide)).1 hm)]
    exact submitArea_eq_self.2 ⟨s, hr, hhead, rfl⟩

end

/-! ## Forms -/

/-- A form and the names and values that it submits. -/
structure Form where
  method : Text
  action : Text
  entries : List (Text × Text)

/-- A page that is being read: the forms behind, the one that is open, and the
`textarea` that is open with the text in it. -/
structure Scan where
  forms : List Form
  current : Option Form
  area : Option (Text × Text)

def Scan.start : Scan := ⟨[], none, none⟩

def attrOf (name : Text) (attrs : List (Text × Text)) : Option Text :=
  (attrs.find? fun a => a.1 = name).map Prod.snd

/-- What a field submits; buttons and boxes submit nothing by themselves. -/
def inputValue (attrs : List (Text × Text)) : Option Text :=
  let kind := (attrOf "type".toList attrs).getD "text".toList
  let value := (attrOf "value".toList attrs).getD []
  if kind = "hidden".toList then some (submitHidden value)
  else if kind = "text".toList ∨ kind = "password".toList then some (submitLine value)
  else none

def Scan.add (s : Scan) (name value : Text) : Scan :=
  { s with current := s.current.map fun f => { f with entries := f.entries ++ [(name, value)] } }

def Scan.opened (s : Scan) (name : Text) (attrs : List (Text × Text)) : Scan :=
  if name = "form".toList then
    match s.current with
    | some _ => s
    | none =>
      { s with
        current := some
          { method := (attrOf "method".toList attrs).getD "get".toList
            action := (attrOf "action".toList attrs).getD []
            entries := [] } }
  else if name = "input".toList then
    match attrOf "name".toList attrs, inputValue attrs with
    | some name, some value => s.add name value
    | _, _ => s
  else if name = "textarea".toList then { s with area := some ((attrOf "name".toList attrs).getD [], []) }
  else s

def Scan.closed (s : Scan) (name : Text) : Scan :=
  if name = "form".toList then { s with forms := s.forms ++ s.current.toList, current := none }
  else if name = "textarea".toList then
    match s.area with
    | some (name, t) => { s.add name (submitArea t) with area := none }
    | none => s
  else s

def Scan.text (s : Scan) (t : Text) : Scan := { s with area := s.area.map fun a => (a.1, a.2 ++ t) }

def Scan.token (s : Scan) : Token → Scan
  | .opened name attrs => s.opened name attrs
  | .closed name => s.closed name
  | .char c => s.text [c]
  | _ => s

def forms (tokens : List Token) : List Form := (tokens.foldl Scan.token .start).forms

/-! ## The forms of a document -/

/-- The scan of a document, without its tokens. -/
def Doc.scan (m : Mode) : Doc → Scan → Scan
  | .empty, s => s
  | .seq a b, s => b.scan m (a.scan m s)
  | .doctype, s => s
  | .text t, s => s.text (if m = .data then t else t.map scalar)
  | .raw _, s => s
  | .void name attrs, s => s.opened name (attrs.map Attr.read)
  | .element name attrs body, s =>
    (body.scan ((contentOf name).getD .data) (s.opened name (attrs.map Attr.read))).closed name

/-- A text that is written as it is and has no part in a form. -/
def Quiet (m : Mode) (t : Text) : Prop :=
  ∀ s : Scan, s.area = none → (run (.content m) t).2.foldl Scan.token s = s

section

variable {s : Scan} {m : Mode} {t : Text} {policy : Text → List Attr → Bool} {doc : Doc}

theorem Scan.text_nil (s : Scan) : s.text [] = s := by
  obtain ⟨_, _, area⟩ := s
  cases area <;> simp [text]

theorem Scan.text_text (s : Scan) (t u : Text) : (s.text t).text u = s.text (t ++ u) := by
  obtain ⟨_, _, area⟩ := s
  cases area <;> simp [text]

theorem Scan.text_of_none (h : s.area = none) (t : Text) : s.text t = s := by
  obtain ⟨_, _, area⟩ := s
  cases h
  rfl

theorem foldl_char (s : Scan) (t : Text) : (t.map Token.char).foldl Scan.token s = s.text t := by
  induction t generalizing s with
  | nil => exact s.text_nil.symm
  | cons c t ih =>
    rw [List.map_cons, List.foldl_cons, ih]
    exact s.text_text [c] t

theorem foldl_text (s : Scan) (m : Mode) (t : Text) :
    (t.map m.char).foldl Scan.token s = s.text (if m = .data then t else t.map scalar) := by
  cases m with
  | data => exact foldl_char s t
  | _ =>
    rw [if_neg (by simp), ← foldl_char, List.map_map]
    rfl

theorem quiet_rawtext {name : Text} (h : '<' ∉ t) : Quiet (.rawtext name) t := by
  intro s hs
  induction t with
  | nil => rfl
  | cons c t ih =>
    have hc : c ≠ '<' := fun he => h (by simp [he])
    have hstep : (s.text [scalar c]) = s := Scan.text_of_none hs _
    simpa [run, step, hc, Mode.char, Scan.token, hstep] using ih fun hm => h (by simp [hm])

/-- Only a `textarea` has a text to keep. -/
theorem Scan.opened_area (hs : s.area = none) {name : Text} (hname : name ≠ "textarea".toList)
    (attrs : List (Text × Text)) : (s.opened name attrs).area = none := by
  unfold Scan.opened
  split
  · split <;> exact hs
  split
  · split <;> exact hs
  · exact hs

theorem Scan.closed_area (s : Scan) {name : Text} (h : name = "textarea".toList ∨ s.area = none) :
    (s.closed name).area = none := by
  unfold Scan.closed
  split
  · next hname =>
    rcases h with rfl | h
    · exact absurd hname (by decide)
    · exact h
  split
  · split
    · rfl
    · assumption
  · next hname => exact h.resolve_left hname

theorem scan_area (h : doc.check policy m = true) (hs : s.area = none) : (doc.scan m s).area = none := by
  induction doc generalizing m s with
  | empty => exact hs
  | seq a b iha ihb =>
    obtain ⟨ha, hb⟩ := Bool.and_eq_true_iff.1 h
    exact ihb hb (iha ha hs)
  | doctype => exact hs
  | text t =>
    rw [Doc.scan, Scan.text_of_none hs]
    exact hs
  | raw t => exact hs
  | void name attrs =>
    simp only [Doc.check, Bool.and_eq_true] at h
    refine Scan.opened_area hs ?_ _
    rintro rfl
    exact absurd h.1.1.1.2 (by decide)
  | element name attrs body ih =>
    by_cases hname : name = "textarea".toList
    · exact Scan.closed_area _ (.inl hname)
    · cases hm : contentOf name with
      | none => simp [Doc.check, hm] at h
      | some inner =>
        simp only [Doc.check, hm, Option.any_some, Bool.and_eq_true] at h
        have hbody := ih h.2 (Scan.opened_area hs hname (attrs.map Attr.read))
        rw [Doc.scan, hm]
        exact Scan.closed_area _ (.inr hbody)

/-- **The scan of the tokens is the scan of the document.** -/
theorem foldl_tokens (h : doc.check policy m = true) (hq : ∀ p ∈ doc.raws m, Quiet p.1 p.2)
    (hs : s.area = none ∨ ∃ n, m = .rcdata n) : (doc.tokens m).foldl Scan.token s = doc.scan m s := by
  induction doc generalizing m s with
  | empty => rfl
  | seq a b iha ihb =>
    obtain ⟨ha, hb⟩ := Bool.and_eq_true_iff.1 h
    rw [Doc.tokens, List.foldl_append, iha ha (fun p hp => hq p (by simp [Doc.raws, hp])) hs]
    exact ihb hb (fun p hp => hq p (by simp [Doc.raws, hp])) (hs.imp_left (scan_area ha))
  | doctype => rfl
  | text t => exact foldl_text s m t
  | raw t =>
    have hnone : s.area = none := by
      refine hs.resolve_right ?_
      rintro ⟨n, rfl⟩
      cases h
    exact hq (m, t) (by simp [Doc.raws]) s hnone
  | void name attrs => rfl
  | element name attrs body ih =>
    cases hm : contentOf name with
    | none => simp [Doc.check, hm] at h
    | some inner =>
      simp only [Doc.check, hm, Option.any_some, Bool.and_eq_true, decide_eq_true_eq] at h
      obtain ⟨⟨⟨⟨⟨rfl, -⟩, -⟩, -⟩, -⟩, hbody⟩ := h
      have hs' : s.area = none := hs.resolve_right (by rintro ⟨n, hn⟩; cases hn)
      have hin : (s.opened name (attrs.map Attr.read)).area = none ∨ ∃ n, inner = .rcdata n := by
        by_cases hname : name = "textarea".toList
        · subst hname
          exact .inr ⟨_, (Option.some.inj hm).symm⟩
        · exact .inl (Scan.opened_area hs' hname _)
      have hall := ih hbody (fun p hp => hq p (by simpa [Doc.raws, hm] using hp)) hin
      rw [Doc.tokens, Doc.scan, hm, List.foldl_cons, List.foldl_append, Scan.token]
      exact congrArg (fun s : Scan => s.closed name) hall

/-- The forms that a browser finds are those of the document. -/
theorem forms_tokens (h : doc.check policy .data = true) (hq : ∀ p ∈ doc.raws .data, Quiet p.1 p.2) :
    forms (doc.tokens .data) = (doc.scan .data .start).forms :=
  congrArg Scan.forms (foldl_tokens h hq (.inl rfl))

end

/-! ## Addresses -/

/-- The address of a tag, with the method that it is asked for. -/
def addressOf (attrs : List (Text × Text)) : Option (Text × Text) :=
  match attrOf "href".toList attrs with
  | some address => some ("get".toList, address)
  | none => (attrOf "action".toList attrs).map fun address => ((attrOf "method".toList attrs).getD "get".toList, address)

def tokenAddress : Token → Option (Text × Text)
  | .opened _ attrs => addressOf attrs
  | _ => none

def addresses (tokens : List Token) : List (Text × Text) := tokens.filterMap tokenAddress

/-- The addresses of a document, without its tokens. -/
def Doc.links : Doc → List (Text × Text)
  | .seq a b => a.links ++ b.links
  | .void _ attrs => (addressOf (attrs.map Attr.read)).toList
  | .element _ attrs body => (addressOf (attrs.map Attr.read)).toList ++ body.links
  | _ => []

/-- An address is one of the document, or one of a text that is written as it
is. -/
theorem mem_addresses {m : Mode} {doc : Doc} {a : Text × Text} (h : a ∈ addresses (doc.tokens m)) :
    a ∈ doc.links ∨ ∃ p ∈ doc.raws m, a ∈ addresses (run (.content p.1) p.2).2 := by
  induction doc generalizing m with
  | empty => cases h
  | seq x y ihx ihy =>
    rw [addresses, Doc.tokens, List.filterMap_append, List.mem_append] at h
    rcases h with h | h
    · rcases ihx h with h | ⟨p, hp, h⟩
      · exact .inl (List.mem_append_left _ h)
      · exact .inr ⟨p, List.mem_append_left _ hp, h⟩
    · rcases ihy h with h | ⟨p, hp, h⟩
      · exact .inl (List.mem_append_right _ h)
      · exact .inr ⟨p, List.mem_append_right _ hp, h⟩
  | doctype => cases h
  | text t =>
    obtain ⟨tok, htok, ha⟩ := List.mem_filterMap.1 h
    obtain ⟨c, -, rfl⟩ := List.mem_map.1 htok
    cases m <;> cases ha
  | raw t => exact .inr ⟨(m, t), by simp [Doc.raws], h⟩
  | void name attrs =>
    obtain ⟨tok, htok, ha⟩ := List.mem_filterMap.1 h
    obtain rfl := List.mem_singleton.1 htok
    exact .inl (Option.mem_toList.2 ha)
  | element name attrs body ih =>
    rw [addresses, Doc.tokens, List.filterMap_cons, List.filterMap_append] at h
    have hcases : a ∈ (addressOf (attrs.map Attr.read)).toList ∨
        a ∈ addresses (body.tokens ((contentOf name).getD .data)) := by
      cases haddr : addressOf (attrs.map Attr.read) <;> simp_all [tokenAddress, addresses]
    rcases hcases with ha | ha
    · exact .inl (List.mem_append_left _ ha)
    · rcases ih ha with ha | ⟨p, hp, ha⟩
      · exact .inl (List.mem_append_right _ ha)
      · exact .inr ⟨p, by simpa [Doc.raws] using hp, ha⟩

end Markup
