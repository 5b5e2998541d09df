/-
The session cookie in a browser: what `build_session_cookie` and
`clear_session_cookie` (web/mod.rs) write, as a browser reads it, keeps it and
sends it back, and what `parse_cookie` makes of that.
-/
import Wikikiki.Lib.Cookie
import Wikikiki.Lib.Json
import Wikikiki.Router

namespace Wikikiki

open Cookies

/-! ## The two lines -/

/-- The characters that a session id may be made of. -/
def cookieChar (c : Char) : Bool := 33 ≤ c.toNat && c.toNat ≤ 126 && c ≠ ';'

/-- What the browser makes of a session, or of the end of one. -/
def sessionOf (ctx : Received) (sid : Text) (maxAge : Int) (secure : Bool) : Cookie where
  name := sessionCookie
  value := sid
  path := ['/']
  expires := some (ctx.now + min maxAge ctx.limit)
  secure
  httpOnly := true
  sameSite := .lax

section

variable {ctx : Received} {sid : Text} {secure : Bool}

theorem cookieChar_spec {c : Char} (h : cookieChar c = true) :
    33 ≤ c.toNat ∧ c.toNat ≤ 126 ∧ c ≠ ';' := by
  simpa [cookieChar, and_assoc] using h

theorem isControl_of_cookieChar {c : Char} (h : cookieChar c = true) : isControl c = false := by
  obtain ⟨hlo, hhi, -⟩ := cookieChar_spec h
  simp only [isControl, Bool.or_eq_false_iff, Bool.and_eq_false_iff, decide_eq_false_iff_not]
  omega

theorem isWsp_of_cookieChar {c : Char} (h : cookieChar c = true) : isWsp c = false := by
  obtain ⟨hlo, -, -⟩ := cookieChar_spec h
  have hne : ∀ d : Char, d.toNat < 33 → c ≠ d := fun d hd he => by subst he; omega
  simp [isWsp, hne ' ' (by decide), hne '\t' (by decide)]

theorem strip_of_cookieChars {t : Text} (h : ∀ c ∈ t, cookieChar c = true) : strip t = t := by
  have hstart : t.dropWhile isWsp = t := by
    cases t with
    | nil => rfl
    | cons c t => simp [isWsp_of_cookieChar (h c List.mem_cons_self)]
  rw [strip, hstart, List.rdropWhile_eq_self_iff]
  intro hne
  simp [isWsp_of_cookieChar (h _ (List.getLast_mem hne))]

theorem digit_cookieChar {c : Char} (h : c.isDigit = true) : cookieChar c = true := by
  simp only [Char.isDigit, Bool.and_eq_true, decide_eq_true_eq, ge_iff_le] at h
  have hlo : 48 ≤ c.toNat := h.1
  have hhi : c.toNat ≤ 57 := h.2
  have hne : c ≠ ';' := fun he => by subst he; revert hhi; decide
  simp only [cookieChar, Bool.and_eq_true, decide_eq_true_eq]
  exact ⟨⟨by omega, by omega⟩, by simpa using hne⟩

theorem toString_cookieChars (n : Int) : ∀ c ∈ (toString n).toList, cookieChar c = true := by
  intro c hc
  rw [show (toString n).toList = Json.ofInt n from rfl, Json.ofInt_eq] at hc
  rcases List.mem_append.1 hc with hc | hc
  · split at hc
    · rw [List.mem_singleton.1 hc]
      decide
    · cases hc
  · exact digit_cookieChar (Json.isDigit_toDigits _ c hc)

theorem maxAge_toString (n : Int) : maxAge (toString n).toList = some n := by
  have hall : (Nat.toDigits 10 n.natAbs).all Char.isDigit = true := List.all_eq_true.2 (Json.isDigit_toDigits _)
  rw [show (toString n).toList = Json.ofInt n from rfl, Json.ofInt_eq]
  unfold maxAge
  by_cases hn : n < 0
  · have hstrip : Text.stripPrefix ['-'] ((if n < 0 then ['-'] else []) ++ Nat.toDigits 10 n.natAbs) =
        some (Nat.toDigits 10 n.natAbs) := Text.stripPrefix_eq_some.2 (by rw [if_pos hn])
    simp only [hstrip, ne_eq, Nat.toDigits_ne_nil, not_false_eq_true, hall, and_self, if_true,
      Nat.ofDigitChars_ten_toDigits]
    congr 1
    omega
  · have hstrip : Text.stripPrefix ['-'] (Nat.toDigits 10 n.natAbs) = none := by
      rw [Option.eq_none_iff_forall_ne_some]
      intro r hr
      have hminus := Json.isDigit_toDigits n.natAbs '-' (by rw [Text.stripPrefix_eq_some.1 hr]; simp)
      revert hminus
      decide
    rw [if_neg hn, List.nil_append]
    simp only [hstrip, ne_eq, Nat.toDigits_ne_nil, not_false_eq_true, hall, and_self, if_true,
      Nat.ofDigitChars_ten_toDigits]
    congr 1
    omega

/-- Both lines: a value, and for how long. -/
def cookieLine (sid maxAge : Text) (secure : Bool) : Text :=
  [';'].intercalate
    ([sessionCookie ++ '=' :: sid, " Path=/".toList, " HttpOnly".toList, " SameSite=Lax".toList,
      " Max-Age=".toList ++ maxAge] ++ if secure then [" Secure".toList] else [])

theorem buildSessionCookie_eq (sid : Text) (maxAge : Int) (secure : Bool) :
    buildSessionCookie sid maxAge secure = cookieLine sid (toString maxAge).toList secure := by
  have hmiddle : "; Path=/; HttpOnly; SameSite=Lax; Max-Age=".toList = ';' :: " Path=/".toList ++
      ';' :: " HttpOnly".toList ++ ';' :: " SameSite=Lax".toList ++ ';' :: " Max-Age=".toList := rfl
  have hsecure : "; Secure".toList = ';' :: " Secure".toList := rfl
  cases secure <;>
    simp [-String.reduceToList, buildSessionCookie, cookieLine, List.intercalate_cons_cons, hmiddle, hsecure]

theorem clearSessionCookie_eq (secure : Bool) : clearSessionCookie secure = cookieLine [] "0".toList secure := by
  cases secure <;> decide

theorem splitOn_cookieLine {maxAge : Text} (hsid : ';' ∉ sid) (hage : ';' ∉ maxAge) :
    (cookieLine sid maxAge secure).splitOn ';' =
      (sessionCookie ++ '=' :: sid) :: " Path=/".toList :: " HttpOnly".toList :: " SameSite=Lax".toList ::
        (" Max-Age=".toList ++ maxAge) :: if secure then [" Secure".toList] else [] := by
  refine (List.splitOn_intercalate ';' (fun piece hp => ?_) (by simp [-String.reduceToList])).trans rfl
  have hname : ';' ∉ sessionCookie ++ ['='] := by decide
  have hlabel : ';' ∉ " Max-Age=".toList := by decide
  rcases List.mem_append.1 hp with hp | hp
  · simp only [-String.reduceToList, List.mem_cons, List.not_mem_nil, or_false] at hp
    rcases hp with rfl | rfl | rfl | rfl | rfl
    · rw [List.append_cons]
      exact fun h => (List.mem_append.1 h).elim hname hsid
    · decide
    · decide
    · decide
    · exact fun h => (List.mem_append.1 h).elim hlabel hage
  · split at hp
    · rw [List.mem_singleton.1 hp]
      decide
    · cases hp

/-- **What the browser reads**: a cookie of this name for the whole site. -/
theorem parse_cookieLine {n : Int} {maxAge : Text} (hsid : ∀ c ∈ sid, cookieChar c = true)
    (hchars : ∀ c ∈ maxAge, cookieChar c = true) (hage : Cookies.maxAge maxAge = some n) :
    parse ctx (cookieLine sid maxAge secure) = some (sessionOf ctx sid n secure) := by
  have hsemi : ∀ {t : Text}, (∀ c ∈ t, cookieChar c = true) → ';' ∉ t := fun h hm => by
    have := h _ hm
    revert this
    decide
  have hname : (sessionCookie ++ ['=', ';']).any isControl = false := by decide
  have hlabels : (" Path=/".toList ++ " HttpOnly".toList ++ " SameSite=Lax".toList ++ " Max-Age=".toList ++
    " Secure".toList).any isControl = false := by decide
  have hnone : ∀ {t : Text}, (∀ c ∈ t, cookieChar c = true) → t.any isControl = false := fun h =>
    List.any_eq_false.2 fun c hc => by simp [isControl_of_cookieChar (h c hc)]
  have hcontrol : (cookieLine sid maxAge secure).any isControl = false := by
    simp only [List.any_append, List.any_cons, Bool.or_eq_false_iff] at hname hlabels
    cases secure <;>
      simp [-String.reduceToList, cookieLine, List.intercalate_cons_cons, hname, hlabels, hnone hsid, hnone hchars]
  have hpair : Text.splitOnce '=' (sessionCookie ++ '=' :: sid) = some (sessionCookie, sid) :=
    Text.splitOnce_append (by decide)
  have hlast : Text.splitOnce '=' (" Max-Age=".toList ++ maxAge) = some (" Max-Age".toList, maxAge) :=
    Text.splitOnce_append (a := " Max-Age".toList) (by decide)
  have hattribute : ∀ c : Cookie, c.attribute ctx (" Max-Age=".toList ++ maxAge) =
      { c with expires := some (ctx.now + min n ctx.limit) } := by
    intro c
    simp only [Cookie.attribute, hlast, Option.getD_some, strip_of_cookieChars hchars, hage]
    rfl
  unfold parse
  rw [if_neg (by simp [hcontrol]), splitOn_cookieLine (hsemi hsid) (hsemi hchars)]
  simp only [hpair, Option.getD_some, strip_of_cookieChars hsid]
  have hset : ∀ c : Cookie, (c.attribute ctx " Path=/".toList = { c with path := ['/'] }) ∧
      (c.attribute ctx " HttpOnly".toList = { c with httpOnly := true }) ∧
      (c.attribute ctx " SameSite=Lax".toList = { c with sameSite := .lax }) ∧
      (c.attribute ctx " Secure".toList = { c with secure := true }) := fun c => ⟨rfl, rfl, rfl, rfl⟩
  have hstrip : strip sessionCookie = sessionCookie := by decide
  have hne : sessionCookie ≠ [] := by decide
  rw [hstrip, if_neg fun h => hne h.1]
  cases secure <;> simp [-String.reduceToList, hset, hattribute, sessionOf]

end

/-! ## What comes back -/

/-- A cookie that the server reads as it was kept. -/
structure Proper (c : Cookie) : Prop where
  name_ne : c.name ≠ []
  name_equals : '=' ∉ c.name
  name_semicolon : ';' ∉ c.name
  value_semicolon : ';' ∉ c.value
  name_trim : Text.trimStart c.name = c.name
  value_trim : Text.trimEnd c.value = c.value

/-- All cookies are such, and those of the session are for the whole site. -/
structure Clean (jar : Jar) : Prop where
  proper : ∀ c ∈ jar.cookies, Proper c
  own : ∀ c ∈ jar.cookies, c.name = sessionCookie → c.path = ['/']

/-- The session that the server finds in what a browser sends. -/
def sessionSent (jar : Jar) (req : Sent) : Option Text :=
  (jar.header req).bind fun line => if Visible line then parseCookie line sessionCookie else none

/-- No cookie that goes with the request keeps `to_str` from reading the line. -/
def Readable (jar : Jar) (req : Sent) : Prop := ∀ c ∈ jar.cookies, c.goesWith req = true → Visible c.text

instance (jar : Jar) (req : Sent) : Decidable (Readable jar req) :=
  inferInstanceAs (Decidable (∀ c ∈ jar.cookies, c.goesWith req = true → Visible c.text))

section

variable {jar : Jar} {ctx ctx' : Received} {req : Sent} {sid : Text} {secure : Bool} {c : Cookie} {cs : List Cookie}

theorem Proper.text (h : Proper c) : c.text = c.name ++ '=' :: c.value := if_neg h.name_ne

theorem Proper.trim_text (h : Proper c) : Text.trim c.text = c.text := by
  rw [h.text, Text.trim, Text.trimStart_append (by decide), Text.trimEnd_append (by decide), h.name_trim, h.value_trim]

theorem trim_space (t : Text) : Text.trim (' ' :: t) = Text.trim t := by
  rw [Text.trim, Text.trim, show ' ' :: t = [' '] ++ t from rfl, Text.trimStart_append_left (List.all_eq_true.1 rfl)]

/-- One piece of the line, as `parse_cookie` reads it. -/
def pairOf (name piece : Text) : Option Text :=
  match Text.splitOnce '=' (Text.trim piece) with
  | some (k, v) => if k = name then some v else none
  | none => none

theorem Proper.pairOf (h : Proper c) (name : Text) :
    pairOf name c.text = if c.name = name then some c.value else none := by
  simp only [Wikikiki.pairOf, h.trim_text]
  rw [h.text, Text.splitOnce_append h.name_equals]

theorem findSome_pairOf (h : ∀ c ∈ cs, Proper c) (name : Text) :
    (cs.map Cookie.text).findSome? (pairOf name) = (cs.find? fun c => c.name = name).map Cookie.value := by
  induction cs with
  | nil => rfl
  | cons c cs ih =>
    rw [List.map_cons, List.findSome?_cons, List.find?_cons, (h c List.mem_cons_self).pairOf]
    by_cases hn : c.name = name
    · simp [hn]
    · simpa [hn] using ih fun d hd => h d (List.mem_cons_of_mem _ hd)

theorem parseCookie_joined (h : ∀ c ∈ cs, Proper c) (hne : cs ≠ []) (name : Text) :
    parseCookie (joined (cs.map Cookie.text)) name = (cs.find? fun c => c.name = name).map Cookie.value := by
  have hread : ∀ line, parseCookie line name = (line.splitOn ';').findSome? (pairOf name) := fun line => rfl
  have hspace : ∀ ts : List Text, (ts.map (' ' :: ·)).findSome? (pairOf name) = ts.findSome? (pairOf name) := by
    intro ts
    have heq : pairOf name ∘ (' ' :: ·) = pairOf name := funext fun t => by
      simp only [Function.comp_apply, pairOf, trim_space]
    rw [List.findSome?_map, heq]
  have hsemi : ∀ t ∈ cs.map Cookie.text, ';' ∉ t := by
    intro t ht
    obtain ⟨c, hc, rfl⟩ := List.mem_map.1 ht
    rw [(h c hc).text]
    simp only [List.mem_append, List.mem_cons, not_or]
    exact ⟨(h c hc).name_semicolon, by decide, (h c hc).value_semicolon⟩
  rw [hread, ← findSome_pairOf h]
  cases cs with
  | nil => exact absurd rfl hne
  | cons c cs =>
    rw [List.map_cons] at hsemi ⊢
    rw [splitOn_joined hsemi, List.findSome?_cons, List.findSome?_cons, hspace]

theorem visible_intercalate {ts : List Text} : Visible ([';'].intercalate ts) ↔ ∀ t ∈ ts, Visible t := by
  induction ts with
  | nil => exact iff_of_true (by decide) (by simp)
  | cons t ts ih =>
    cases ts with
    | nil => simp
    | cons u ts =>
      have hsemi : Visible [';'] := by decide
      rw [List.intercalate_cons_cons, visible_append, visible_append, ih]
      simp [hsemi]

theorem visible_joined {ts : List Text} : Visible (joined ts) ↔ ∀ t ∈ ts, Visible t := by
  cases ts with
  | nil => exact iff_of_true (by decide) (by simp)
  | cons t ts =>
    have hspace : Visible [' '] := by decide
    have hpiece : ∀ u : Text, Visible (' ' :: u) ↔ Visible u := fun u => by simp [visible_cons (t := u), hspace]
    rw [show joined (t :: ts) = [';'].intercalate (t :: ts.map (' ' :: ·)) from rfl, visible_intercalate]
    simp [hpiece]

theorem readable_iff : Readable jar req ↔ ∀ t ∈ (jar.sent req).map Cookie.text, Visible t := by
  simp only [Readable, List.forall_mem_map, Jar.mem_sent, and_imp]

/-- **What the server finds of a clean jar** is its session, if that goes with
the request and the line can be read. -/
theorem Clean.sessionSent (h : Clean jar) :
    sessionSent jar req = some sid ↔ Readable jar req ∧
      ∃ c ∈ jar.cookies, c.name = sessionCookie ∧ c.goesWith req = true ∧ c.value = sid := by
  have hproper : ∀ c ∈ jar.sent req, Proper c := fun c hc => h.proper c (Jar.mem_sent.1 hc).1
  unfold Wikikiki.sessionSent Jar.header
  by_cases hnil : jar.sent req = []
  · rw [if_pos hnil, Option.bind_none]
    refine iff_of_false (by simp) fun hex => ?_
    obtain ⟨-, c, hc, -, hgoes, -⟩ := hex
    have hm := Jar.mem_sent.2 ⟨hc, hgoes⟩
    rw [hnil] at hm
    cases hm
  rw [if_neg hnil, Option.bind_some, parseCookie_joined hproper hnil, readable_iff, ← visible_joined]
  by_cases hv : Visible (joined ((jar.sent req).map Cookie.text))
  case neg => simp [hv]
  · rw [if_pos hv]
    constructor
    · intro hsome
      obtain ⟨c, hfind, rfl⟩ := Option.map_eq_some_iff.1 hsome
      obtain ⟨hc, hgoes⟩ := Jar.mem_sent.1 (List.mem_of_find?_eq_some hfind)
      exact ⟨hv, c, hc, by simpa using List.find?_some hfind, hgoes, rfl⟩
    · intro hex
      obtain ⟨-, c, hc, hname, hgoes, rfl⟩ := hex
      cases hfind : (jar.sent req).find? fun c => c.name = sessionCookie with
      | none =>
        have := List.find?_eq_none.1 hfind c (Jar.mem_sent.2 ⟨hc, hgoes⟩)
        simp [hname] at this
      | some d =>
        have hd := (Jar.mem_sent.1 (List.mem_of_find?_eq_some hfind)).1
        have hdname : d.name = sessionCookie := by simpa using List.find?_some hfind
        have hkey : c.key = d.key := by
          rw [Cookie.key, Cookie.key, hname, hdname, h.own c hc hname, h.own d hd hdname]
        rw [Jar.eq_of_key hc hd hkey]
        rfl

/-! ## Logging in and out -/

theorem proper_sessionOf {n : Int} (hsid : ∀ c ∈ sid, cookieChar c = true) : Proper (sessionOf ctx sid n secure) where
  name_ne := by
    change sessionCookie ≠ []
    decide
  name_equals := by
    change '=' ∉ sessionCookie
    decide
  name_semicolon := by
    change ';' ∉ sessionCookie
    decide
  value_semicolon := fun h => by
    have := hsid _ h
    revert this
    decide
  name_trim := by
    change Text.trimStart sessionCookie = sessionCookie
    decide
  value_trim := by
    change Text.trimEnd sid = sid
    rw [Text.trimEnd, List.rdropWhile_eq_self_iff]
    intro hne
    obtain ⟨hlo, hhi, -⟩ := cookieChar_spec (hsid _ (List.getLast_mem hne))
    simp [Text.isWhitespace_eq_false hlo hhi]

theorem Clean.store (h : Clean jar) {n : Int} (hsid : ∀ c ∈ sid, cookieChar c = true) :
    Clean (jar.store ctx (sessionOf ctx sid n secure)) := by
  constructor
  · intro c hc
    rcases Jar.mem_of_store hc with rfl | hc
    · exact proper_sessionOf hsid
    · exact h.proper c hc
  · intro c hc hname
    rcases Jar.mem_of_store hc with rfl | hc
    · rfl
    · exact h.own c hc hname

/-- Over plain HTTP, neither this cookie nor the one before it is for HTTPS
only. -/
def Takes (jar : Jar) (ctx : Received) (secure : Bool) : Prop :=
  ctx.https = false → secure = false ∧ ∀ c ∈ jar.cookies, c.name = sessionCookie → c.secure = false

theorem Takes.refuses {n : Int} (h : Takes jar ctx secure) :
    jar.refuses ctx (sessionOf ctx sid n secure) = false := by
  unfold Jar.refuses
  cases hs : ctx.https with
  | true => rfl
  | false =>
    obtain ⟨rfl, hold⟩ := h hs
    simp only [Bool.not_false, Bool.true_and, Bool.or_eq_false_iff, List.any_eq_false, Bool.and_eq_true,
      decide_eq_true_eq, not_and]
    exact ⟨rfl, fun c hc hsecure hname => by simp [hold c hc hname] at hsecure⟩

theorem storeAll_login (hsid : ∀ c ∈ sid, cookieChar c = true) (n : Int) :
    jar.storeAll ctx [buildSessionCookie sid n secure] = jar.store ctx (sessionOf ctx sid n secure) := by
  simp only [Jar.storeAll, List.foldl_cons, List.foldl_nil, buildSessionCookie_eq,
    parse_cookieLine hsid (toString_cookieChars n) (maxAge_toString n)]
  rfl

theorem storeAll_logout :
    jar.storeAll ctx [clearSessionCookie secure] = jar.store ctx (sessionOf ctx [] 0 secure) := by
  have hzero : maxAge "0".toList = some 0 := by decide
  have hparse : parse ctx (cookieLine [] "0".toList secure) = some (sessionOf ctx [] 0 secure) :=
    parse_cookieLine (by simp) (List.all_eq_true.1 (by decide)) hzero
  simp only [Jar.storeAll, List.foldl_cons, List.foldl_nil, clearSessionCookie_eq, hparse]
  rfl

/-- A request that the session goes with while it lasts. -/
def Goes (req : Sent) (secure : Bool) : Prop :=
  (secure = true → req.https = true) ∧ (req.initiator = .sameSite ∨ req.initiator = .navigation ∧ req.safe = true)

theorem goesWith_sessionOf {n : Int} (hpath : req.path.head? = some '/') :
    (sessionOf ctx sid n secure).goesWith req = true ↔ req.now < ctx.now + min n ctx.limit ∧ Goes req secure := by
  have hmatch : pathMatches ['/'] req.path = true := by
    cases hp : req.path with
    | nil => rw [hp] at hpath; cases hpath
    | cons c p =>
      rw [hp] at hpath
      cases hpath
      simp [pathMatches, List.isPrefixOf]
  simp only [Cookie.goesWith, sessionOf, hmatch, Cookie.live, SameSite.allows, Goes, Bool.and_true, Bool.and_eq_true,
    Bool.or_eq_true, decide_eq_true_eq, Bool.not_eq_true', and_assoc]
  cases secure <;> simp

/-- What a stored session leaves of the jar. -/
theorem Clean.mem_store (h : Clean jar) {n : Int} (htakes : Takes jar ctx secure) :
    c ∈ (jar.store ctx (sessionOf ctx sid n secure)).cookies ↔
      (c = sessionOf ctx sid n secure ∧ 0 < min n ctx.limit) ∨
        (c ∈ jar.cookies ∧ c.live ctx.now = true ∧ c.name ≠ sessionCookie) := by
  have hlive : (sessionOf ctx sid n secure).live ctx.now = true ↔ 0 < min n ctx.limit := by
    simp only [Cookie.live, sessionOf, decide_eq_true_eq]
    omega
  have hkey : c ∈ jar.cookies → (c.key ≠ (sessionOf ctx sid n secure).key ↔ c.name ≠ sessionCookie) := by
    intro hc
    refine not_congr ⟨congrArg Prod.fst, fun hname => ?_⟩
    rw [Cookie.key, hname, h.own c hc hname]
    rfl
  rw [Jar.mem_store htakes.refuses]
  constructor
  · intro hm
    obtain ⟨hl, rfl | ⟨hc, hne⟩⟩ := hm
    · exact .inl ⟨rfl, hlive.1 hl⟩
    · exact .inr ⟨hc, hl, (hkey hc).1 hne⟩
  · intro hm
    rcases hm with ⟨rfl, hpos⟩ | ⟨hc, hl, hne⟩
    · exact ⟨hlive.2 hpos, .inl rfl⟩
    · exact ⟨hl, .inr ⟨hc, (hkey hc).2 hne⟩⟩

/-- **The session in a browser.** Whatever else the browser keeps for the site,
after a login it sends that session, with the requests it goes with and until
it ends, and no other; after a logout it sends none. The other cookies stay,
and none of them is in the way unless it makes the line unreadable. -/
theorem session_kept (h : Clean jar) (hsid : ∀ c ∈ sid, cookieChar c = true) (htakes : Takes jar ctx secure)
    (n : Int) :
    (∀ req found, req.path.head? = some '/' →
      (sessionSent (jar.storeAll ctx [buildSessionCookie sid n secure]) req = some found ↔
        found = sid ∧ 0 < min n ctx.limit ∧ req.now < ctx.now + min n ctx.limit ∧ Goes req secure ∧
          Readable (jar.storeAll ctx [buildSessionCookie sid n secure]) req)) ∧
    (∀ req, sessionSent (jar.storeAll ctx [clearSessionCookie secure]) req = none) ∧
    ∀ line ∈ [buildSessionCookie sid n secure, clearSessionCookie secure],
      Clean (jar.storeAll ctx [line]) ∧
      ∀ c, c.name ≠ sessionCookie → (c ∈ (jar.storeAll ctx [line]).cookies ↔ c ∈ jar.cookies ∧ c.live ctx.now = true) := by
  have hnil : ∀ c ∈ ([] : Text), cookieChar c = true := by simp
  have hother : ∀ (sid : Text) (n : Int) (c : Cookie), c.name ≠ sessionCookie →
      (c ∈ (jar.store ctx (sessionOf ctx sid n secure)).cookies ↔ c ∈ jar.cookies ∧ c.live ctx.now = true) := by
    intro sid n c hne
    rw [h.mem_store htakes]
    refine ⟨fun hm => ?_, fun hm => .inr ⟨hm.1, hm.2, hne⟩⟩
    rcases hm with ⟨rfl, -⟩ | ⟨hc, hl, -⟩
    · exact absurd rfl hne
    · exact ⟨hc, hl⟩
  refine ⟨fun req found hpath => ?_, fun req => ?_, fun line hline => ?_⟩
  · rw [storeAll_login hsid, (h.store hsid).sessionSent]
    constructor
    · intro hex
      obtain ⟨hread, c, hc, hname, hgoes, rfl⟩ := hex
      rcases (h.mem_store htakes).1 hc with ⟨rfl, hpos⟩ | ⟨-, -, hne⟩
      · obtain ⟨hnow, hgoes⟩ := (goesWith_sessionOf hpath).1 hgoes
        exact ⟨rfl, hpos, hnow, hgoes, hread⟩
      · exact absurd hname hne
    · intro hall
      obtain ⟨rfl, hpos, hnow, hgoes, hread⟩ := hall
      exact ⟨hread, _, (h.mem_store htakes).2 (.inl ⟨rfl, hpos⟩), rfl, (goesWith_sessionOf hpath).2 ⟨hnow, hgoes⟩, rfl⟩
  · rw [storeAll_logout, Option.eq_none_iff_forall_ne_some]
    intro found hfound
    obtain ⟨-, c, hc, hname, -, -⟩ := (h.store hnil).sessionSent.1 hfound
    rcases (h.mem_store htakes).1 hc with ⟨-, hpos⟩ | ⟨-, -, hne⟩
    · omega
    · exact hne hname
  · simp only [List.mem_cons, List.not_mem_nil, or_false] at hline
    rcases hline with rfl | rfl
    · rw [storeAll_login hsid]
      exact ⟨h.store hsid, hother sid n⟩
    · rw [storeAll_logout]
      exact ⟨h.store hnil, hother [] 0⟩

/-- A browser that keeps another cookie of the site. -/
def jarSmall : Jar where
  cookies :=
    [{ name := "theme".toList, value := "dark".toList, path := ['/'], expires := none, secure := false,
       httpOnly := false, sameSite := .default }]
  unique := by decide

theorem session_kept_small :
    let ctx : Received := { now := 100, https := false, path := "/login".toList, limit := 34560000 }
    let req : Sent := { now := 160, https := false, path := "/wiki/notes".toList, safe := true, initiator := .sameSite }
    let jar := jarSmall.storeAll ctx [buildSessionCookie "00ff".toList 3600 false]
    sessionSent jar req = some "00ff".toList ∧
      sessionSent (jar.storeAll ctx [clearSessionCookie false]) req = none := by
  intro ctx req jar
  have hclean : Clean jarSmall := by
    constructor
    · intro c hc
      rw [List.mem_singleton.1 hc]
      exact ⟨by decide, by decide, by decide, by decide, by decide, by decide⟩
    · intro c hc hname
      rw [List.mem_singleton.1 hc]
  have hsid : ∀ c ∈ "00ff".toList, cookieChar c = true := List.all_eq_true.1 (by decide)
  have htakes : Takes jarSmall ctx false := fun _ => ⟨rfl, by decide⟩
  obtain ⟨hsent, -, hlines⟩ := session_kept hclean hsid htakes 3600
  obtain ⟨hclean', -⟩ := hlines _ List.mem_cons_self
  have htakes' : Takes jar ctx false := fun _ => ⟨rfl, by decide +kernel⟩
  obtain ⟨-, hnone, -⟩ := session_kept hclean' hsid htakes' 3600
  have hread : Readable jar req := by decide +kernel
  exact ⟨(hsent req _ rfl).2 ⟨rfl, by decide, by decide, by simp [Goes, req], hread⟩, hnone req⟩

end

end Wikikiki
