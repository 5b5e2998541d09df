/-
What a browser does with cookies (RFC 6265 and its revision), for the cookies
of one host: it reads a `Set-Cookie` line (`parse`), keeps the cookie in its
jar (`Jar.store`), and sends what goes with a request (`Jar.header`).

A jar has one cookie of a name and a path. `Domain` and `Expires` are left
out: no line that is looked at here has them.
-/
import Wikikiki.Lib.Text
import Mathlib.Data.List.Sort

namespace Cookies

/-! ## A line -/

inductive SameSite where
  | none
  | lax
  | strict
  | default
  deriving DecidableEq

structure Cookie where
  name : Text
  value : Text
  path : Text
  /-- When it goes; otherwise with the browser. -/
  expires : Option Int
  secure : Bool
  httpOnly : Bool
  sameSite : SameSite
  deriving DecidableEq

/-- What is known of a response: the time, the scheme of its request and the
path, and for how long cookies are kept at most. -/
structure Received where
  now : Int
  https : Bool
  path : Text
  limit : Int

def isWsp (c : Char) : Bool := c = ' ' || c = '\t'

def strip (t : Text) : Text := (t.dropWhile isWsp).rdropWhile isWsp

def isControl (c : Char) : Bool := (c.toNat < 32 && c ≠ '\t') || c.toNat = 127

/-- The directory of a path. -/
def defaultPath (path : Text) : Text :=
  let upTo := (path.rdropWhile (· ≠ '/')).dropLast
  if path.head? = some '/' ∧ upTo ≠ [] then upTo else ['/']

/-- The delta of a `Max-Age`. -/
def maxAge (value : Text) : Option Int :=
  match Text.stripPrefix ['-'] value with
  | some digits =>
    if digits ≠ [] ∧ digits.all Char.isDigit = true then some (-(Nat.ofDigitChars 10 digits 0 : Int)) else none
  | none => if value ≠ [] ∧ value.all Char.isDigit = true then some (Nat.ofDigitChars 10 value 0 : Int) else none

/-- One attribute; the last of a name counts. -/
def Cookie.attribute (ctx : Received) (c : Cookie) (piece : Text) : Cookie :=
  let (name, value) := (Text.splitOnce '=' piece).getD (piece, [])
  let name := (strip name).map Char.toLower
  let value := strip value
  if name = "max-age".toList then
    match maxAge value with
    | some delta => { c with expires := some (ctx.now + min delta ctx.limit) }
    | none => c
  else if name = "path".toList then
    { c with path := if value.head? = some '/' then value else defaultPath ctx.path }
  else if name = "secure".toList then { c with secure := true }
  else if name = "httponly".toList then { c with httpOnly := true }
  else if name = "samesite".toList then
    let kind := value.map Char.toLower
    { c with
      sameSite :=
        if kind = "none".toList then .none
        else if kind = "strict".toList then .strict
        else if kind = "lax".toList then .lax
        else .default }
  else c

/-- A `Set-Cookie` line; `none` is ignored. -/
def parse (ctx : Received) (line : Text) : Option Cookie :=
  if line.any isControl then none
  else
    match line.splitOn ';' with
    | [] => none
    | pair :: attributes =>
      let (name, value) := (Text.splitOnce '=' pair).getD ([], pair)
      let c : Cookie :=
        { name := strip name, value := strip value, path := defaultPath ctx.path, expires := none, secure := false,
          httpOnly := false, sameSite := .default }
      if c.name = [] ∧ c.value = [] then none else some (attributes.foldl (·.attribute ctx) c)

/-! ## The jar -/

def Cookie.key (c : Cookie) : Text × Text := (c.name, c.path)

def Cookie.live (now : Int) (c : Cookie) : Bool :=
  match c.expires with
  | none => true
  | some t => decide (now < t)

/-- In the order in which they were created. -/
structure Jar where
  cookies : List Cookie
  unique : (cookies.map Cookie.key).Nodup

def Jar.empty : Jar := ⟨[], List.nodup_nil⟩

/-- What a response over plain HTTP may not do. -/
def Jar.refuses (jar : Jar) (ctx : Received) (c : Cookie) : Bool :=
  !ctx.https && (c.secure || jar.cookies.any fun old => old.secure && old.name = c.name)

/-- It takes the place of the one that it replaces. -/
def put (c : Cookie) : List Cookie → List Cookie
  | [] => [c]
  | old :: cookies => if old.key = c.key then c :: cookies else old :: put c cookies

theorem map_key_put (c : Cookie) (cookies : List Cookie) :
    (put c cookies).map Cookie.key =
      if c.key ∈ cookies.map Cookie.key then cookies.map Cookie.key else cookies.map Cookie.key ++ [c.key] := by
  induction cookies with
  | nil => simp [put]
  | cons old cookies ih =>
    unfold put
    by_cases h : old.key = c.key
    · simp [h]
    · rw [if_neg h, List.map_cons, ih]
      by_cases hm : c.key ∈ cookies.map Cookie.key
      · rw [if_pos hm, if_pos (by simp only [List.map_cons]; exact List.mem_cons_of_mem _ hm)]
        rfl
      · have hn : c.key ∉ (old :: cookies).map Cookie.key := by
          simp only [List.map_cons, List.mem_cons, not_or]
          exact ⟨Ne.symm h, hm⟩
        rw [if_neg hm, if_neg hn]
        rfl

theorem nodup_put {cookies : List Cookie} (h : (cookies.map Cookie.key).Nodup) (c : Cookie) :
    ((put c cookies).map Cookie.key).Nodup := by
  rw [map_key_put]
  split
  · exact h
  next hn => simpa using List.Nodup.concat hn h

theorem nodup_live {cookies : List Cookie} (h : (cookies.map Cookie.key).Nodup) (now : Int) :
    ((cookies.filter (·.live now)).map Cookie.key).Nodup :=
  h.sublist (List.filter_sublist.map _)

/-- The cookie of a response is kept, and what has expired goes. -/
def Jar.store (jar : Jar) (ctx : Received) (c : Cookie) : Jar :=
  let cookies := if jar.refuses ctx c then jar.cookies else put c jar.cookies
  { cookies := cookies.filter (·.live ctx.now)
    unique := nodup_live (by dsimp only [cookies]; split; exacts [jar.unique, nodup_put jar.unique c]) ctx.now }

/-- Every `Set-Cookie` line of a response. -/
def Jar.storeAll (jar : Jar) (ctx : Received) (lines : List Text) : Jar :=
  lines.foldl (fun jar line => (parse ctx line).elim jar (jar.store ctx)) jar

/-! ## Sending -/

/-- Where a request comes from: the same site, which every port and every
subdomain of it is, a link or a form of another site that the browser follows,
or anything else of another site. -/
inductive Initiator where
  | sameSite
  | navigation
  | elsewhere
  deriving DecidableEq

/-- A request that is about to be sent; `safe` is its method. -/
structure Sent where
  now : Int
  https : Bool
  path : Text
  safe : Bool
  initiator : Initiator

/-- `path-match` -/
def pathMatches (cookiePath path : Text) : Bool :=
  path = cookiePath ||
    (cookiePath.isPrefixOf path && (cookiePath.getLast? = some '/' || path[cookiePath.length]? = some '/'))

def SameSite.allows (s : SameSite) (req : Sent) : Bool :=
  match s with
  | .none => true
  | .strict => req.initiator = .sameSite
  | .lax | .default => req.initiator = .sameSite || (req.initiator = .navigation && req.safe)

def Cookie.goesWith (req : Sent) (c : Cookie) : Bool :=
  c.live req.now && pathMatches c.path req.path && (!c.secure || req.https) && c.sameSite.allows req

/-- The ones with the longest paths first. -/
def Jar.sent (jar : Jar) (req : Sent) : List Cookie :=
  (jar.cookies.filter (·.goesWith req)).mergeSort fun c d => d.path.length ≤ c.path.length

def Cookie.text (c : Cookie) : Text := if c.name = [] then c.value else c.name ++ '=' :: c.value

/-- With `; ` between them. -/
def joined : List Text → Text
  | [] => []
  | t :: ts => [';'].intercalate (t :: ts.map (' ' :: ·))

/-- The `Cookie` line. -/
def Jar.header (jar : Jar) (req : Sent) : Option Text :=
  if jar.sent req = [] then none else some (joined ((jar.sent req).map Cookie.text))

section

variable {jar : Jar} {ctx : Received} {req : Sent} {c d : Cookie} {cookies : List Cookie}

theorem mem_put (h : (cookies.map Cookie.key).Nodup) : d ∈ put c cookies ↔ d = c ∨ d ∈ cookies ∧ d.key ≠ c.key := by
  induction cookies with
  | nil => simp [put]
  | cons old cookies ih =>
    rw [List.map_cons, List.nodup_cons] at h
    unfold put
    by_cases hk : old.key = c.key
    · rw [if_pos hk, List.mem_cons, List.mem_cons]
      constructor
      · intro hd
        rcases hd with rfl | hd
        · exact .inl rfl
        · refine .inr ⟨.inr hd, fun he => h.1 ?_⟩
          rw [hk, ← he]
          exact List.mem_map_of_mem hd
      · intro hd
        rcases hd with rfl | ⟨rfl | hd, hne⟩
        · exact .inl rfl
        · exact absurd hk hne
        · exact .inr hd
    · rw [if_neg hk, List.mem_cons, ih h.2, List.mem_cons]
      constructor
      · intro hd
        rcases hd with rfl | rfl | ⟨hd, hne⟩
        · exact .inr ⟨.inl rfl, hk⟩
        · exact .inl rfl
        · exact .inr ⟨.inr hd, hne⟩
      · intro hd
        rcases hd with rfl | ⟨rfl | hd, hne⟩
        · exact .inr (.inl rfl)
        · exact .inl rfl
        · exact .inr (.inr ⟨hd, hne⟩)

/-- A cookie that is kept: it is there while it lives, instead of the one of
its name and path. -/
theorem Jar.mem_store (hr : jar.refuses ctx c = false) :
    d ∈ (jar.store ctx c).cookies ↔ d.live ctx.now = true ∧ (d = c ∨ d ∈ jar.cookies ∧ d.key ≠ c.key) := by
  simp only [Jar.store, hr, Bool.false_eq_true, if_false, List.mem_filter, mem_put jar.unique]
  exact and_comm

theorem Jar.mem_of_store (h : d ∈ (jar.store ctx c).cookies) : d = c ∨ d ∈ jar.cookies := by
  simp only [Jar.store, List.mem_filter] at h
  have hd := h.1
  split at hd
  · exact .inr hd
  · rcases (mem_put jar.unique).1 hd with rfl | ⟨hd, -⟩
    · exact .inl rfl
    · exact .inr hd

theorem Jar.eq_of_key (hc : c ∈ jar.cookies) (hd : d ∈ jar.cookies) (h : c.key = d.key) : c = d :=
  List.inj_on_of_nodup_map jar.unique hc hd h

theorem SameSite.allows_lax :
    SameSite.lax.allows req = true ↔ req.initiator = .sameSite ∨ req.initiator = .navigation ∧ req.safe = true := by
  simp [SameSite.allows]

theorem Jar.mem_sent : c ∈ jar.sent req ↔ c ∈ jar.cookies ∧ c.goesWith req = true := by
  rw [Jar.sent, List.mem_mergeSort, List.mem_filter]

/-- The server splits the line at its semicolons. -/
theorem splitOn_joined {t : Text} {ts : List Text} (h : ∀ u ∈ t :: ts, ';' ∉ u) :
    (joined (t :: ts)).splitOn ';' = t :: ts.map (' ' :: ·) := by
  refine List.splitOn_intercalate ';' (fun u hu => ?_) (List.cons_ne_nil _ _)
  rcases List.mem_cons.1 hu with rfl | hu
  · exact h u List.mem_cons_self
  · obtain ⟨w, hw, rfl⟩ := List.mem_map.1 hu
    simpa using h w (List.mem_cons_of_mem _ hw)

end

end Cookies
