/-
A browser in front of the wiki: what comes back when the editor is opened on
a page and saved.
-/
import Wikikiki.FormData
import Wikikiki.Lib.Form
import Wikikiki.Lib.Shell
import Wikikiki.Lib.Url
import Wikikiki.Requests
import Wikikiki.Sessions
import Wikikiki.Templates

namespace Wikikiki

open Markup (forms)
open Templates (Safe Trusted)

/-! ## Addresses -/

section

variable {path : Text}

/-- The codes of the characters of a path. -/
theorem legalChar_toNat {c : Char} (h : legalChar c = true) : 45 ≤ c.toNat ∧ c.toNat ≤ 122 := by
  rcases Bool.or_eq_true_iff.1 h with h | h
  · rcases Bool.or_eq_true_iff.1 h with h | h
    · rcases Bool.or_eq_true_iff.1 h with h | h
      · rcases Bool.or_eq_true_iff.1 h with h | h
        · rcases Bool.or_eq_true_iff.1 h with h | h
          · obtain ⟨hlo, hhi⟩ := of_decide_eq_true h
            exact ⟨Nat.le_trans (by decide) hlo, Nat.le_trans hhi (by decide)⟩
          · obtain ⟨hlo, hhi⟩ := Bool.and_eq_true_iff.1 h
            exact ⟨Nat.le_trans (by decide) (of_decide_eq_true hlo), Nat.le_trans (of_decide_eq_true hhi) (by decide)⟩
        · obtain ⟨hlo, hhi⟩ := Bool.and_eq_true_iff.1 h
          exact ⟨Nat.le_trans (by decide) (of_decide_eq_true hlo), Nat.le_trans (of_decide_eq_true hhi) (by decide)⟩
      · rw [eq_of_beq h]
        decide
    · rw [eq_of_beq h]
      decide
  · rw [eq_of_beq h]
    decide

theorem plain_of_legalChar {c : Char} (h : legalChar c = true ∨ c = '/') : Url.plain c = true := by
  have hcodes : 45 ≤ c.toNat ∧ c.toNat ≤ 122 := by
    rcases h with h | rfl
    · exact legalChar_toNat h
    · decide
  have hne : ∀ d : Char, legalChar d = false → d ≠ '/' → c ≠ d := by
    rintro d hd hslash rfl
    rcases h with h | h
    · rw [h] at hd
      cases hd
    · exact hslash h
  have hexcluded : ['"', '#', '<', '>', '?', '^', '`', '\x7b', '\x7d'].contains c = false := by
    rw [← Bool.not_eq_true, List.contains_iff_mem]
    intro hm
    have hall : ['"', '#', '<', '>', '?', '^', '`', '\x7b', '\x7d'].all (fun d => !legalChar d && d != '/') = true := by
      decide
    obtain ⟨hd, hslash⟩ := Bool.and_eq_true_iff.1 (List.all_eq_true.1 hall c hm)
    exact hne c (by simpa using hd) (by simpa using hslash) rfl
  have hvisible : Url.visible c = true := by
    rw [Url.visible, decide_eq_true (by omega), decide_eq_true (by omega)]
    rfl
  rw [Url.plain, Url.pathChar, hvisible, hexcluded, decide_eq_true (hne '\\' (by decide) (by decide)),
    decide_eq_true (hne '%' (by decide) (by decide))]
  rfl

theorem mem_of_segments (h : ∀ seg ∈ path.splitOn '/', IsSegment seg) :
    ∀ c ∈ path, legalChar c = true ∨ c = '/' := by
  intro c hc
  have hjoin : ['/'].intercalate (path.splitOn '/') = path := List.intercalate_splitOn '/'
  rw [← hjoin] at hc
  rcases Text.mem_intercalate hc with ⟨seg, hs, hc⟩ | hc
  · exact .inl ((h seg hs).legal c hc)
  · exact .inr hc

/-- A segment is none of the dots that a browser follows. -/
theorem not_dots {seg : Text} (h : IsSegment seg) : Url.isSingleDot seg = false ∧ Url.isDoubleDot seg = false := by
  have hlower : ∀ {t : Text}, seg.map Char.toLower = t → ∀ c ∈ t, c.toNat < 65 → c ∈ seg := by
    rintro _ rfl c hc hlow
    obtain ⟨d, hd, rfl⟩ := List.mem_map.1 hc
    exact (Shell.toLower_eq_iff hlow).1 rfl ▸ hd
  have hdots : ∀ t : Text, t.all (fun c => c.toNat < 65) = true → seg.map Char.toLower = t → seg = t := by
    rintro t ht rfl
    refine (List.map_congr_left fun c hc => ?_).trans (List.map_id _) |>.symm
    have hlow := of_decide_eq_true (List.all_eq_true.1 ht _ (List.mem_map_of_mem hc))
    exact (Shell.toLower_eq_iff hlow).1 rfl |>.symm
  have hpercent : ∀ t : Text, '%' ∈ t → seg.map Char.toLower ≠ t := fun t ht he =>
    h.notMem (by decide) (hlower he '%' ht (by decide))
  constructor
  · rw [Url.isSingleDot, ← Bool.not_eq_true, List.contains_iff_mem, List.mem_pair]
    rintro (he | he)
    · exact h.ne_dot (hdots _ (by decide) he)
    · exact hpercent _ (by decide +kernel) he
  · rw [Url.isDoubleDot, ← Bool.not_eq_true, List.contains_iff_mem]
    intro hm
    rcases List.mem_cons.1 hm with he | hm
    · exact h.ne_dots (hdots _ (by decide) he)
    · have hall : ∀ t ∈ [".%2e".toList, "%2e.".toList, "%2e%2e".toList], '%' ∈ t := by decide +kernel
      exact hpercent _ (hall _ hm) rfl

/-- An address of segments is asked for as it stands. -/
theorem resolve_segments (h : ∀ seg ∈ path.splitOn '/', IsSegment seg) {query : Option Text}
    (hquery : ∀ q ∈ query, ∀ c ∈ q, Url.queryChar c = true) :
    Url.resolve ('/' :: (path ++ Url.suffix query)) = some ⟨'/' :: path, query⟩ := by
  refine Url.resolve_plain (fun c hc => plain_of_legalChar (mem_of_segments h c hc)) ?_ (fun seg hs => not_dots (h seg hs))
    hquery
  intro hhead
  obtain ⟨t, rfl⟩ : ∃ t, path = '/' :: t := by
    cases path with
    | nil => cases hhead
    | cons c t => exact ⟨t, by cases hhead; rfl⟩
  have hnil : ([] : Text) ∈ ('/' :: t).splitOn '/' := by
    have hsplit := List.splitOn_append_cons_self (a := '/') ([] : Text) t
    rw [List.nil_append] at hsplit
    simp [hsplit]
  exact (h [] hnil).ne_nil rfl

/-- So is the one of an accepted path, below a route. -/
theorem resolve_page (hv : validatePath path = .ok ()) {dir : Text} (hdir : ∀ seg ∈ dir.splitOn '/', IsSegment seg)
    {query : Option Text} (hquery : ∀ q ∈ query, ∀ c ∈ q, Url.queryChar c = true) :
    Url.resolve ('/' :: (dir ++ '/' :: path ++ Url.suffix query)) = some ⟨'/' :: (dir ++ '/' :: path), query⟩ := by
  refine resolve_segments ?_ hquery
  rw [List.splitOn_append_cons_self]
  intro seg hs
  rcases List.mem_append.1 hs with hs | hs
  · exact hdir seg hs
  · exact isSegment_of_validatePath hv seg hs

/-- An accepted path is decoded to itself. -/
theorem pathParam_of_accepted (hv : validatePath path = .ok ()) : pathParam path = some path := by
  have hlegal := mem_of_segments (isSegment_of_validatePath hv)
  have hbytes : 37 ∉ Text.utf8 path := by
    intro hm
    obtain ⟨c, hc, hb⟩ := List.mem_flatMap.1 hm
    have hcodes : 45 ≤ c.toNat ∧ c.toNat ≤ 122 := by
      rcases hlegal c hc with h | rfl
      · exact legalChar_toNat h
      · decide
    have hone : c.utf8Size = 1 := Char.utf8Size_eq_one_iff.2 (UInt32.le_iff_toNat_le.2 (Nat.le_trans hcodes.2 (by decide)))
    rw [String.utf8EncodeChar_eq_singleton hone, List.mem_singleton] at hb
    have hcode : c.toNat % 256 = 37 := (congrArg UInt8.toNat hb).symm
    rw [Nat.mod_eq_of_lt (by omega)] at hcode
    omega
  have hdecode : ∀ bytes : Bytes, 37 ∉ bytes → percentDecode bytes = bytes := by
    intro bytes hb
    induction bytes with
    | nil => rfl
    | cons b bytes ih =>
      have hne : b ≠ 37 := fun he => hb (by simp [he])
      rw [percentDecode_cons hne, ih fun hm => hb (by simp [hm])]
  rw [pathParam, hdecode _ hbytes, Text.fromUtf8_utf8]

end

/-! ### Routes -/

section

variable {path : Text}

theorem accepted_ne_nil (hv : validatePath path = .ok ()) : path ≠ [] := by
  rintro rfl
  exact absurd hv (by decide)

/-- No fixed route begins like those of a page. -/
theorem routeOf_of_second {p : Text} (h : p[1]? = some 'w') {wiki history : Option Text}
    (hw : wildcard wikiRoute p = wiki) (hh : wildcard wikiHistoryRoute p = history)
    (hsome : wiki.isSome = true ∨ history.isSome = true) :
    routeOf p = (wiki.map Route.wiki).or (history.map Route.wikiHistory) := by
  have hne : ∀ k ∈ ["/".toList, "/login".toList, "/logout".toList, "/search".toList, "/me".toList, "/actors".toList,
      "/api/search".toList], p ≠ k := by
    have hall : ∀ k ∈ ["/".toList, "/login".toList, "/logout".toList, "/search".toList, "/me".toList,
        "/actors".toList, "/api/search".toList], k[1]? ≠ some 'w' := by decide +kernel
    rintro k hk rfl
    exact hall p hk h
  unfold routeOf
  rw [if_neg (hne _ (.head _)), if_neg (hne _ (.tail _ (.head _))), if_neg (hne _ (.tail _ (.tail _ (.head _)))),
    if_neg (hne _ (.tail _ (.tail _ (.tail _ (.head _))))),
    if_neg (hne _ (.tail _ (.tail _ (.tail _ (.tail _ (.head _)))))),
    if_neg (hne _ (.tail _ (.tail _ (.tail _ (.tail _ (.tail _ (.head _))))))),
    if_neg (hne _ (.tail _ (.tail _ (.tail _ (.tail _ (.tail _ (.tail _ (.head _)))))))), hw, hh]
  cases wiki with
  | some raw => rfl
  | none =>
    cases history with
    | some raw => rfl
    | none => simp at hsome

theorem wildcard_append (before : Text) (hne : path ≠ []) : wildcard before (before ++ path) = some path := by
  rw [wildcard, Text.stripPrefix_eq_some.2 rfl, Option.filter_some, if_pos (by simpa using hne)]

theorem routeOf_wiki (hne : path ≠ []) : routeOf (wikiRoute ++ path) = some (.wiki path) := by
  rw [routeOf_of_second rfl (wildcard_append wikiRoute hne) rfl (.inl rfl)]
  rfl

theorem routeOf_wikiHistory (hne : path ≠ []) : routeOf (wikiHistoryRoute ++ path) = some (.wikiHistory path) := by
  have hno : wildcard wikiRoute (wikiHistoryRoute ++ path) = none := by
    cases h : wildcard wikiRoute (wikiHistoryRoute ++ path) with
    | none => rfl
    | some raw =>
      have hchar : (wikiHistoryRoute ++ path)[5]? = (wikiRoute ++ raw)[5]? := congrArg (·[5]?) (wildcard_eq_some h)
      exact absurd (Option.some.inj (hchar : some '-' = some '/')) (by decide)
  rw [routeOf_of_second rfl hno (wildcard_append wikiHistoryRoute hne) (.inr rfl)]
  rfl

/-- An address below `/wiki/`, with a query or without one. -/
theorem resolve_wiki (hv : validatePath path = .ok ()) {query : Option Text}
    (hquery : ∀ q ∈ query, ∀ c ∈ q, Url.queryChar c = true) :
    Url.resolve (Templates.wikiUrl path ++ Url.suffix query) = some ⟨wikiRoute ++ path, query⟩ :=
  resolve_page hv (isSegment_of_validatePath (by decide +kernel : validatePath "wiki".toList = .ok ())) hquery

theorem resolve_wikiHistory (hv : validatePath path = .ok ()) :
    Url.resolve (Templates.wikiHistoryUrl path) = some ⟨wikiHistoryRoute ++ path, none⟩ := by
  have hdir := isSegment_of_validatePath (by decide +kernel : validatePath "wiki-history".toList = .ok ())
  have hplain : Url.resolve ('/' :: ("wiki-history".toList ++ '/' :: path ++ Url.suffix none)) =
      some ⟨wikiHistoryRoute ++ path, none⟩ := resolve_page hv hdir (by simp)
  rw [Url.suffix, List.append_nil] at hplain
  exact hplain

end

/-! ## The editor -/

/-- The form that logs out. -/
def logoutForm : Markup.Form := { method := "post".toList, action := "/logout".toList, entries := [] }

/-- What the browser finds of the editor's form. -/
def EditForm.found (form : EditForm) : Markup.Form where
  method := "post".toList
  action := (Templates.wikiUrl form.pagePath).map Markup.scalar
  entries :=
    [("layer".toList, Markup.submitHidden (form.layer.map Markup.scalar)),
      ("revision".toList, Markup.submitHidden (form.revision.map Markup.scalar)),
      ("summary".toList, []),
      ("content".toList, Markup.submitArea (form.content.map Markup.scalar))]

section

variable {r : Renderer}

theorem scan_editPage (auth : Auth) (form : EditForm) :
    ((Templates.editPage (some auth) form : Html r []).doc.scan .data .start).forms = [logoutForm, form.found] := by
  obtain ⟨pagePath, title, isNew, conflict, layer, revision, content⟩ := form
  cases isNew <;> cases conflict <;> rfl

/-- Only the stylesheet is written as it is. -/
theorem raws_editPage (auth : Auth) (form : EditForm) :
    (Templates.editPage (some auth) form : Html r []).doc.raws .data = [(.rawtext "style".toList, r.styles)] := by
  obtain ⟨pagePath, title, isNew, conflict, layer, revision, content⟩ := form
  cases isNew <;> cases conflict <;> rfl

/-- The editor's page, and the forms in it. -/
theorem read_editPage (hr : '<' ∉ r.styles) (now : Int) (auth : Auth) (form : EditForm) :
    ∃ tokens, Markup.read (Templates.page (r := r) now (.editPage (some auth) form)).html = some tokens ∧
      forms tokens = [logoutForm, form.found] := by
  have hraws := raws_editPage (r := r) auth form
  have hok := (Templates.editPage (some auth) form : Html r []).ok
  have hclosed : ∀ p ∈ (Templates.editPage (some auth) form : Html r []).doc.raws .data, Markup.Closed p.1 p.2 ∧
      Markup.Quiet p.1 p.2 := by
    rintro p hp
    rw [hraws] at hp
    rw [List.mem_singleton.1 hp]
    exact ⟨Markup.closed_rawtext _ hr, Markup.quiet_rawtext hr⟩
  exact ⟨_, Markup.read_html hok fun p hp => (hclosed p hp).1,
    (Markup.forms_tokens hok fun p hp => (hclosed p hp).2).trans (scan_editPage auth form)⟩

end

/-- The method of a link or of a form. -/
def formMethod (method : Text) : Method := if method = "post".toList then .post else .get

/-- The request of a browser that follows an address. -/
def browse (headers : HeaderMap) (remoteAddr : Option Text) (a : Text × Text) (body : Bytes) : Option Request :=
  (Url.resolve a.2).map fun target =>
    { method := formMethod a.1, path := target.path, query := target.query, headers, body, remoteAddr }

/-- That of a form that is sent. -/
def browserPost (headers : HeaderMap) (remoteAddr : Option Text) (form : Markup.Form) : Option Request :=
  browse headers remoteAddr (form.method, form.action) (encodeForm form.entries)

/-- What `save_page` gets of an editor that was opened and saved, without a
change by the writer. -/
def EditForm.unchanged (form : EditForm) : SaveInput where
  content := Markup.submitArea (form.content.map Markup.scalar)
  summary := some []
  layer := some (Markup.submitHidden (form.layer.map Markup.scalar))
  revision := some (Markup.submitHidden (form.revision.map Markup.scalar))

section

variable {r : Renderer} {site : Site} {path : Text}

theorem decodeSave_found (form : EditForm) : decodeSave (encodeForm form.found.entries) = .ok form.unchanged :=
  decodeSave_encodeForm _ _ _ _

theorem action_found (hv : validatePath path = .ok ()) {form : EditForm} (hp : form.pagePath = path) :
    form.found.action = Templates.wikiUrl path := by
  rw [EditForm.found, hp]
  refine Markup.map_scalar_eq_self.2 fun hm => ?_
  rcases List.mem_append.1 hm with hm | hm
  · exact absurd hm (by decide)
  · rcases mem_of_segments (isSegment_of_validatePath hv) _ hm with h | h
    · exact absurd h (by decide)
    · exact absurd h (by decide)

/-- Characters that a hidden field brings back. -/
theorem submitHidden_eq_self {t : Text} (h : ∀ c ∈ t, c ≠ '\n' ∧ c ≠ '\r' ∧ c ≠ '\x00') :
    Markup.submitHidden (t.map Markup.scalar) = t := by
  rw [Markup.map_scalar_eq_self.2 fun hm => (h _ hm).2.2 rfl, Markup.submitHidden]
  induction t with
  | nil => rfl
  | cons c t ih =>
    obtain ⟨hn, hr, -⟩ := h c (by simp)
    rw [Markup.normalize_cons hr, Markup.crlf, List.flatMap_cons, if_neg hn, ← Markup.crlf,
      ih fun d hd => h d (by simp [hd])]
    rfl

theorem IsSha256.submitHidden {rev : Text} (h : IsSha256 rev) :
    Markup.submitHidden (rev.map Markup.scalar) = rev := by
  refine submitHidden_eq_self fun c hc => ?_
  have hall : "0123456789abcdef".toList.all (fun d => d != '\n' && d != '\r' && d != '\x00') = true := by decide
  simpa [and_assoc] using List.all_eq_true.1 hall c (h.2 c hc)

/-- The precondition of an unchanged save is the state that the editor was
opened on. -/
theorem savePrecondition_unchanged {info : Option PageMeta} (hrev : ∀ rev, info.bind (·.revision) = some rev → IsSha256 rev)
    (content : Text) (conflict : Option Text) :
    savePrecondition (editPage path content info conflict).unchanged =
      (info.bind (·.revision)).elim .absent .revision := by
  cases h : info.bind (·.revision) with
  | none => simp [savePrecondition, EditForm.unchanged, editPage, h, Markup.submitHidden, Markup.normalize, Markup.crlf,
      Text.trim, Text.trimStart, Text.trimEnd]
  | some rev =>
    have hsha := hrev rev h
    simp [savePrecondition, EditForm.unchanged, editPage, h, hsha.submitHidden, hsha.trim, hsha.ne_nil]

/-- The check of an unchanged save passes on the page that the editor was
opened on, unless that has no recorded revision. -/
theorem check_unchanged {db : Db} (hrev : ∀ rev, (db.readMeta path).bind (·.revision) = some rev → IsSha256 rev)
    (content : Text) (conflict : Option Text) :
    (savePrecondition (editPage path content (db.readMeta path) conflict).unchanged).check (db.currentState path) =
      .ok () ↔ db.currentState path ≠ .present none := by
  rw [savePrecondition_unchanged hrev, Precondition.check_eq_ok]
  simp only [Db.readMeta, Db.currentState]
  cases db.findPage path with
  | none => simp [Precondition.Holds]
  | some p => cases hhash : p.2.contentHash <;> simp [Db.pageMeta, hhash, Precondition.Holds]

/-- The lines of a text that comes back from a `textarea` are those that were
in it, but for a first one that is empty. -/
theorem normalize_submitArea (t : Text) :
    Markup.normalize (Markup.submitArea t) = Markup.dropNewline (Markup.normalize t) :=
  Markup.normalize_crlf fun hm => Markup.notMem_normalize t ((Markup.dropNewline_suffix _).subset hm)

/-- **An unchanged save.** A browser that opens the editor and sends its form
asks for a write of that page: by the same actor, to the same layer, with the
same lines but for a first one that is empty, each with the newline of the wire
behind it. It asks for it against the revision that the editor was opened on,
and while the page is as it was the check passes, unless the page has no
recorded revision. The content is the very same where its lines end as those of
the wire do and the first is not empty, and only there. -/
theorem Site.unchanged_save (hr : '<' ∉ r.styles) (hsite : site.decoders.save = decodeSave)
    (hv : validatePath path = .ok ()) {info : Option PageMeta}
    (hrev : ∀ rev, info.bind (·.revision) = some rev → IsSha256 rev) (now : Int) (auth : Auth) (content : Text)
    (conflict : Option Text) (headers : HeaderMap) (remoteAddr : Option Text) :
    let form := editPage path content info conflict
    ∃ tokens found req, Markup.read (Templates.page (r := r) now (.editPage (some auth) form)).html = some tokens ∧
      forms tokens = [logoutForm, found] ∧ browserPost headers remoteAddr found = some req ∧
      req.endpoint = some (.savePage path) ∧
      (req.body.length ≤ bodyLimit → ∃ wreq,
        onPath path (fun p => answering (site.savePageStart req p (some auth))) = .ok (auth, wreq) ∧
        wreq.By auth.actor ∧ wreq.path = path ∧
        ((∀ c ∈ form.layer, c ≠ '\n' ∧ c ≠ '\r' ∧ c ≠ '\x00') → wreq.layer = form.layer) ∧
        (wreq.precondition = (info.bind (·.revision)).elim .absent .revision ∧
          ∀ db : Db, db.readMeta path = info →
            (wreq.precondition.check (db.currentState path) = .ok () ↔ db.currentState path ≠ .present none)) ∧
        wreq.content = Markup.crlf (Markup.dropNewline (Markup.normalize (content.map Markup.scalar))) ∧
        Markup.normalize wreq.content = Markup.dropNewline (Markup.normalize (content.map Markup.scalar)) ∧
        (wreq.content = content ↔
          ∃ lines, '\r' ∉ lines ∧ '\x00' ∉ lines ∧ lines.head? ≠ some '\n' ∧ content = Markup.crlf lines)) := by
  intro form
  obtain ⟨tokens, hread, hforms⟩ := read_editPage hr now auth form
  have haction : form.found.action = Templates.wikiUrl path := action_found hv rfl
  have hresolve : Url.resolve form.found.action = some ⟨wikiRoute ++ path, none⟩ := by
    have hplain : Url.resolve (Templates.wikiUrl path ++ Url.suffix none) = some ⟨wikiRoute ++ path, none⟩ :=
      resolve_wiki hv (by simp)
    rw [Url.suffix, List.append_nil] at hplain
    exact haction.symm ▸ hplain
  refine ⟨tokens, form.found, _, hread, hforms, congrArg _ hresolve, ?_, fun hlen => ?_⟩
  · rw [Request.endpoint, routeOf_wiki (accepted_ne_nil hv)]
    rfl
  · have hstart : site.savePageStart
        { method := .post, path := wikiRoute ++ path, query := none, headers, body := encodeForm form.found.entries,
          remoteAddr } path (some auth) = .ok (auth, saveRequest path auth.actor form.unchanged) := by
      have hbody : readBody (encodeForm form.found.entries) bodyLimit = .ok (encodeForm form.found.entries) :=
        if_neg (Nat.not_lt.2 hlen)
      refine bind_eq_ok.2 ⟨auth, rfl, bind_eq_ok.2 ⟨_, hbody, bind_eq_ok.2 ⟨form.unchanged, ?_, rfl⟩⟩⟩
      rw [hsite, decodeSave_found]
      rfl
    refine ⟨saveRequest path auth.actor form.unchanged, ?_, ⟨rfl, rfl, rfl⟩, rfl, submitHidden_eq_self,
      ⟨savePrecondition_unchanged hrev content conflict, fun db hdb => ?_⟩, rfl, normalize_submitArea _,
      Markup.submitArea_scalar⟩
    · rw [onPath, pathParam_of_accepted hv]
      exact congrArg answering hstart
    · subst hdb
      exact check_unchanged hrev content conflict

/-- A new page, with the content that the form is seeded with. -/
theorem Site.unchanged_save_small :
    let site := { Site.small with decoders := .urlencoded }
    let form := editPage "notes".toList (seedPageContent "notes".toList) none none
    ∃ req wreq, browserPost [] none form.found = some req ∧ req.endpoint = some (.savePage "notes".toList) ∧
      onPath "notes".toList (fun p => answering (site.savePageStart req p (some ⟨Gate.smallActor, .ui⟩))) =
        .ok (⟨Gate.smallActor, .ui⟩, wreq) ∧
      wreq.layer = "semantic".toList ∧ wreq.precondition = .absent ∧
      wreq.content = "# notes\r\n\r\n".toList := by
  intro site form
  have hpath : validatePath "notes".toList = .ok () := by decide +kernel
  have hrev : ∀ rev, (none : Option PageMeta).bind (·.revision) = some rev → IsSha256 rev := by simp
  have hsave : site.decoders.save = decodeSave := rfl
  obtain ⟨tokens, found, req, hread, hforms, hpost, hend, h⟩ := Site.unchanged_save Templates.small_safe.styles hsave
    hpath hrev 0 ⟨Gate.smallActor, .ui⟩ (seedPageContent "notes".toList) none [] none
  obtain ⟨tokens', hread', hforms'⟩ := read_editPage Templates.small_safe.styles 0 ⟨Gate.smallActor, .ui⟩ form
  obtain rfl : tokens = tokens' := Option.some.inj (hread.symm.trans hread')
  obtain rfl : found = form.found := (List.cons.inj (List.cons.inj (hforms.symm.trans hforms')).2).1
  have hbody : req.body = encodeForm form.found.entries := by
    unfold browserPost browse at hpost
    obtain ⟨target, -, rfl⟩ := Option.map_eq_some_iff.1 hpost
    rfl
  obtain ⟨wreq, hstart, -, -, hlayer, ⟨hpre, -⟩, hcontent, -⟩ := h (hbody ▸ by decide +kernel)
  have hline : ∀ c ∈ "semantic".toList, c ≠ '\n' ∧ c ≠ '\r' ∧ c ≠ '\x00' := by simp
  exact ⟨req, wreq, hpost, hend, hstart, hlayer hline, hpre, hcontent.trans (by decide +kernel)⟩

end

end Wikikiki
