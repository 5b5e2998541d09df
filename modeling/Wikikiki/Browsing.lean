/-
Browsers at the wiki: each keeps its own cookies (`Cookies.Jar`), sends them
with its requests, and takes in the answers when they come, in any order and
between the steps of all other requests, of other clients and of the
administration.

Nothing in the wiki knows of browsers. What a browser is logged in as is said
here (`login`): the actor of the last login whose answer it took in, until it
takes in the answer to a logout. The invariant is that its cookies agree.

A browser sends its cookies as bytes, and the router reads none of them where
one is not visible ASCII.
-/
import Wikikiki.FormData
import Wikikiki.Owners

namespace Wikikiki

open Cookies

/-- A request of a browser: what scheme it goes over, and what has it sent. -/
structure Visit where
  browser : Nat
  https : Bool
  initiator : Initiator

/-- The wiki and its browsers; the requests that are no visits are those of
other clients. A cookie for HTTPS only is for a wiki that is served so. -/
structure Browsing where
  web : Web
  visit : Nat → Option Visit
  limit : Int
  served : ∀ k p, visit k = some p → web.site.config.secure = true → p.https = true

namespace Browsing

/-- `login` is the actor as whom each browser is logged in, `claimed` the one
whose password came with a request, `sentAs` the `login` of its browser when a
request was sent. -/
structure State where
  web : Web.State
  jar : Nat → Jar
  login : Nat → Option Int
  claimed : Nat → Option Int
  sentAs : Nat → Option Int

inductive Action where
  | send (k : Nat) (now : Int)
  | receive (k : Nat) (now : Int)
  | web (a : Web.Action)

section

variable (b : Browsing)

def secure : Bool := b.web.site.config.secure

/-- Methods that do not change anything. -/
def safe (k : Nat) : Bool := (b.web.request k).method = .get || (b.web.request k).method = .head

def sent (k : Nat) (visit : Visit) (now : Int) : Sent where
  now
  https := visit.https
  path := (b.web.request k).path
  safe := b.safe k
  initiator := visit.initiator

def received (k : Nat) (visit : Visit) (now : Int) : Received where
  now
  https := visit.https
  path := (b.web.request k).path
  limit := b.limit

/-- A request that a browser sends has the cookies of its jar in its first
`Cookie` line, as bytes, and no token. -/
def Sends (s : State) (k : Nat) (visit : Visit) (now : Int) : Prop :=
  (b.web.request k).bearer = none ∧
    ((b.web.request k).headers.getAll (.other "cookie".toList)).head?.map HeaderValue.bytes =
      ((s.jar visit.browser).header (b.sent k visit now)).map Text.utf8

instance (s : State) (k : Nat) (visit : Visit) (now : Int) : Decidable (b.Sends s k visit now) :=
  inferInstanceAs (Decidable (_ ∧ _))

/-- Browsers send by themselves. -/
def isOther : Web.Action → Bool
  | .arrive k => (b.visit k).isNone
  | _ => true

/-- A login brings a password. -/
def claim (s : State) : Web.Action → Nat → Option Int
  | .enter k _ => Function.update s.claimed k (b.web.claimant s.web k)
  | _ => s.claimed

/-- One step, `none` where the action is not enabled. An answer may come at
any time after it was given, or never. -/
def step (s : State) : Action → Option State
  | .send k now =>
    (b.visit k).bind fun visit =>
      if b.Sends s k visit now then
        (b.web.step s.web (.arrive k)).map fun web =>
          { s with web, sentAs := Function.update s.sentAs k (s.login visit.browser) }
      else none
  | .receive k now =>
    (b.visit k).bind fun visit =>
      match s.web.phase k with
      | .answered r =>
        let n := visit.browser
        some
          { s with
            jar := Function.update s.jar n ((s.jar n).storeAll (b.received k visit now) r.setCookies)
            login := if r.setCookies = [] then s.login else Function.update s.login n (s.claimed k) }
      | _ => none
  | .web a =>
    if b.isOther a then (b.web.step s.web a).map fun web => { s with web, claimed := b.claim s a } else none

/-- What a step does. -/
inductive State.Step (s : State) : Action → State → Prop
  | sent {k now visit web} (hv : b.visit k = some visit) (hsends : b.Sends s k visit now)
      (hw : b.web.step s.web (.arrive k) = some web) :
      Step s (.send k now) { s with web, sentAs := Function.update s.sentAs k (s.login visit.browser) }
  | received {k now visit r} (hv : b.visit k = some visit) (hr : s.web.phase k = .answered r) :
      Step s (.receive k now)
        { s with
          jar := Function.update s.jar visit.browser
            ((s.jar visit.browser).storeAll (b.received k visit now) r.setCookies)
          login := if r.setCookies = [] then s.login else Function.update s.login visit.browser (s.claimed k) }
  | other {a web} (hother : b.isOther a = true) (hw : b.web.step s.web a = some web) :
      Step s (.web a) { s with web, claimed := b.claim s a }

abbrev run : State → List Action → Option State := Run.run b.step

/-- The ids of sessions are drawn, and no session is administered. -/
def Fair (s : State) : Action → Prop
  | .web a => a.Drawn ∧ a.Spares s.web
  | _ => True

end

theorem step_cases {b : Browsing} {s s' : State} {a : Action} (h : b.step s a = some s') : State.Step b s a s' := by
  cases a with
  | send k now =>
    obtain ⟨visit, hv, h⟩ := Option.bind_eq_some_iff.1 h
    split at h
    next hsends =>
      obtain ⟨web, hw, rfl⟩ := Option.map_eq_some_iff.1 h
      exact .sent hv hsends hw
    · cases h
  | receive k now =>
    obtain ⟨visit, hv, h⟩ := Option.bind_eq_some_iff.1 h
    split at h
    next r hr =>
      cases h
      exact .received hv hr
    · cases h
  | web a =>
    simp only [step] at h
    split at h
    next hother =>
      obtain ⟨web, hw, rfl⟩ := Option.map_eq_some_iff.1 h
      exact .other hother hw
    · cases h

/-! ## The invariant -/

section

variable (b : Browsing) (s : State) (k n : Nat) (p : Visit)

/-- With what a session goes: requests from the same site, and links that are
followed to it. -/
def Near : Prop := p.initiator = .sameSite ∨ p.initiator = .navigation ∧ b.safe k = true

/-- What a browser's request goes on with, it was sent with. -/
def Way : Web.Phase → Prop
  | .verifying _ | .upgrading .. | .touching .. => False
  | .lookingUp sid => ∃ actorId, s.sentAs k = some actorId ∧ s.web.access.Owns actorId sid ∧ b.Near k p
  | .findingActor actorId => s.sentAs k = some actorId ∧ b.Near k p
  | .ready (some auth) | .writing auth => s.sentAs k = some auth.actor.id ∧ b.Near k p
  | _ => True

/-- A browser has no session but of its login. -/
structure Keeps : Prop where
  clean : Clean (s.jar n)
  session : ∀ c ∈ (s.jar n).cookies, c.name = sessionCookie → c.secure = b.secure ∧ c.sameSite = .lax ∧
    ∃ actorId, s.login n = some actorId ∧ s.web.access.Owns actorId c.value

/-- A browser's write is in the name of its login, and comes from the same
site. -/
structure Writes : Prop where
  sentAs : s.sentAs k = some (s.web.writes k).actorId
  initiator : p.initiator = .sameSite

structure Held : Prop where
  jars : ∀ n, b.Keeps s n
  answers : ∀ k r, s.web.phase k = .answered r → Sets s.web.access b.secure (s.claimed k) r.setCookies
  way : ∀ k p, b.visit k = some p → b.Way s k p (s.web.phase k)
  writes : ∀ k p, b.visit k = some p → s.web.core.task k ≠ .idle → Writes s k p

end

section

variable {b : Browsing} {s s' : State} {a : Action} {k n : Nat} {p : Visit} {ph : Web.Phase} {w : World}
  {jar : Nat → Jar} {as : List Action} {actorId : Int}

theorem Way.keep (h : b.Way s k p ph) (hk : s.web.access.Keeps s'.web.access) (hsent : s'.sentAs k = s.sentAs k) :
    b.Way s' k p ph := by
  cases ph with
  | lookingUp sid =>
    obtain ⟨actorId, hs, ho, hn⟩ := h
    exact ⟨actorId, hsent.trans hs, hk _ _ ho, hn⟩
  | findingActor actorId => exact ⟨hsent.trans h.1, h.2⟩
  | ready auth =>
    cases auth with
    | none => trivial
    | some auth => exact ⟨hsent.trans h.1, h.2⟩
  | writing auth => exact ⟨hsent.trans h.1, h.2⟩
  | _ => exact h

theorem Keeps.keep (h : b.Keeps s n) (hk : s.web.access.Keeps s'.web.access) (hjar : s'.jar n = s.jar n)
    (hlogin : s'.login n = s.login n) : b.Keeps s' n := by
  refine ⟨hjar ▸ h.clean, fun c hc hname => ?_⟩
  obtain ⟨hsecure, hlax, actorId, hl, ho⟩ := h.session c (hjar ▸ hc) hname
  exact ⟨hsecure, hlax, actorId, hlogin.trans hl, hk _ _ ho⟩

/-! ### Sending -/

/-- The server reads the line as far as it can. -/
theorem sessionId_of_sends {now : Int} (h : b.Sends s k p now) :
    (b.web.request k).sessionId = sessionSent (s.jar p.browser) (b.sent k p now) := by
  have hline := h.2
  simp only [Request.sessionId, Request.header, HeaderMap.firstText, sessionSent]
  cases hsent : (s.jar p.browser).header (b.sent k p now) with
  | none =>
    rw [hsent, Option.map_none, Option.map_eq_none_iff] at hline
    rw [hline]
    rfl
  | some line =>
    rw [hsent, Option.map_some] at hline
    obtain ⟨v, hv, hbytes⟩ := Option.map_eq_some_iff.1 hline
    rw [hv, Option.bind_some, toStr_of_text hbytes, Option.bind_some]
    by_cases hvisible : Visible line
    · simp [hvisible]
    · simp [hvisible]

/-- The server looks up a session of the browser's login. -/
theorem Keeps.way (h : b.Keeps s p.browser) {now : Int} (hsends : b.Sends s k p now)
    (hsent : s'.sentAs k = s.login p.browser) (haccess : s.web.access.Keeps s'.web.access) :
    b.Way s' k p (b.web.begin k) := by
  unfold Web.begin
  rw [hsends.1]
  simp only [Web.trySession, sessionId_of_sends hsends]
  cases hsid : sessionSent (s.jar p.browser) (b.sent k p now) with
  | none => trivial
  | some sid =>
    obtain ⟨-, c, hc, hname, hgoes, rfl⟩ := h.clean.sessionSent.1 hsid
    obtain ⟨-, hlax, actorId, hlogin, howns⟩ := h.session c hc hname
    refine ⟨actorId, hsent.trans hlogin, haccess _ _ howns, ?_⟩
    simp only [Cookie.goesWith, hlax, Bool.and_eq_true] at hgoes
    exact SameSite.allows_lax.1 hgoes.2

/-! ### Taking in an answer -/

theorem Keeps.takes (h : b.Keeps s p.browser) (hv : b.visit k = some p) (now : Int) :
    Takes (s.jar p.browser) (b.received k p now) b.secure := by
  intro hhttp
  have hsecure : b.secure = false := by
    cases hs : b.secure with
    | false => rfl
    | true => exact absurd (b.served k p hv hs) (by simpa [received] using hhttp)
  exact ⟨hsecure, fun c hc hname => (h.session c hc hname).1.trans hsecure⟩

theorem Keeps.receive (h : b.Keeps s p.browser) (hv : b.visit k = some p) (now : Int) {lines : List Text}
    (hsets : Sets s.web.access b.secure (s.claimed k) lines)
    (hjar : s'.jar p.browser = (s.jar p.browser).storeAll (b.received k p now) lines)
    (hlogin : s'.login p.browser = if lines = [] then s.login p.browser else s.claimed k)
    (hweb : s'.web = s.web) : b.Keeps s' p.browser := by
  have hnil : ∀ c ∈ ([] : Text), cookieChar c = true := by simp
  have htakes := h.takes hv now
  generalize hclaimed : s.claimed k = who at hsets hlogin
  cases hsets with
  | nothing =>
    refine h.keep (by rw [hweb]; exact .refl _) ?_ ?_
    · simpa [Jar.storeAll] using hjar
    · simpa using hlogin
  | @login actorId sid n howns hsid =>
    rw [storeAll_login hsid] at hjar
    rw [if_neg (List.cons_ne_nil _ _)] at hlogin
    refine ⟨hjar ▸ h.clean.store hsid, fun c hc hname => ?_⟩
    rw [hjar] at hc
    rcases (h.clean.mem_store htakes).1 hc with ⟨rfl, -⟩ | ⟨-, -, hne⟩
    · exact ⟨rfl, rfl, actorId, hlogin, hweb ▸ howns⟩
    · exact absurd hname hne
  | logout =>
    rw [storeAll_logout] at hjar
    refine ⟨hjar ▸ h.clean.store hnil, fun c hc hname => ?_⟩
    rw [hjar] at hc
    rcases (h.clean.mem_store htakes).1 hc with ⟨-, hpos⟩ | ⟨-, -, hne⟩
    · omega
    · exact absurd hname hne

/-! ### Steps of the wiki -/

theorem id_of_actorById {actors : Table ActorRow} {actor : Actor} (h : actorById actors actorId = some actor) :
    actor.id = actorId := by
  obtain ⟨row, -, rfl⟩ := Option.map_eq_some_iff.1 h
  rfl

/-- The request that a step is about goes on with what it had. -/
theorem Way.move {a : Web.Action} (h : b.Way s k p (s.web.phase k)) (hm : b.web.Move s.web a k ph)
    (ha : b.web.step s.web a = some s'.web) (harrive : a ≠ .arrive k)
    (hsent : s'.sentAs k = s.sentAs k) : b.Way s' k p ph := by
  cases hm with
  | arrived => exact absurd rfl harrive
  | accepted hp hj =>
    rw [hp] at h
    exact h.elim
  | rejected =>
    obtain ⟨token, hp⟩ := Web.verifying_of_step ha
    rw [hp] at h
    exact h.elim
  | upgraded hp =>
    rw [hp] at h
    exact h.elim
  | touched hp =>
    rw [hp] at h
    exact h.elim
  | found hp hr =>
    rw [hp] at h
    obtain ⟨actorId, hs, ho, hn⟩ := h
    exact ⟨(hsent.trans hs).trans (congrArg some (ho.of_live hr).symm), hn⟩
  | identified hp hactor hact =>
    rw [hp] at h
    exact ⟨(hsent.trans h.1).trans (congrArg some (id_of_actorById hactor).symm), h.2⟩
  | nobody => trivial
  | answered => trivial
  | gone => trivial

/-- A browser's request comes only by itself. -/
theorem visit_of_isOther (h : b.isOther (.arrive k) = true) : b.visit k = none := by
  simpa [isOther] using h

/-- What the steps of the wiki keep: the way of every request of a browser. -/
theorem Way.other {a : Web.Action} (h : ∀ k p, b.visit k = some p → b.Way s k p (s.web.phase k))
    (ha : b.web.step s.web a = some s'.web) (hother : b.isOther a = true) (hk : s.web.access.Keeps s'.web.access)
    (hsent : s'.sentAs = s.sentAs) (hv : b.visit k = some p) : b.Way s' k p (s'.web.phase k) := by
  obtain ⟨web, jar, login, claimed, sentAs⟩ := s'
  dsimp only at ha hk hsent ⊢
  have hsame : web.phase k = s.web.phase k → b.Way ⟨web, jar, login, claimed, sentAs⟩ k p (web.phase k) := fun hph => by
    rw [hph]
    exact (h k p hv).keep hk (congrFun hsent k)
  cases Web.step_cases ha with
  | @moved _ j ph _ hm hearly hcore hwrites hphase =>
    by_cases hkj : k = j
    · subst hkj
      rw [hphase, Function.update_self]
      refine (h k p hv).move hm ha (fun he => ?_) (congrFun hsent k)
      rw [visit_of_isOther (he ▸ hother)] at hv
      cases hv
    · exact hsame (by rw [hphase, Function.update_of_ne hkj])
  | @started j env auth wreq core _ hp hw hby hc hcore hwrites hphase =>
    by_cases hkj : k = j
    · subst hkj
      have hway : b.Way s k p (.writing auth) := by
        have hready := h k p hv
        rwa [hp] at hready
      rw [hphase, Function.update_self]
      exact hway.keep hk (congrFun hsent k)
    · exact hsame (by rw [hphase, Function.update_of_ne hkj])
  | worked => exact hsame rfl
  | administered => exact hsame rfl

theorem initiator_of_isWrite (hn : b.Near k p) (hw : (b.web.request k).IsWrite) : p.initiator = .sameSite := by
  rcases hn with h | ⟨-, hsafe⟩
  · exact h
  · exfalso
    simp only [safe, Bool.or_eq_true, decide_eq_true_eq] at hsafe
    rcases hw with ⟨hm, -⟩ | ⟨hm, -⟩ <;>
    · rw [hm] at hsafe
      rcases hsafe with h | h <;> cases h

/-- And the writes of browsers. -/
theorem Writes.other {s₀ : Web.State} {was : List Web.Action} {a : Web.Action} (h : b.Held s)
    (ht : b.web.Traced s₀ was s.web) (ha : b.web.step s.web a = some s'.web) (hsent : s'.sentAs = s.sentAs)
    (hv : b.visit k = some p) (hk : s'.web.core.task k ≠ .idle) : Writes s' k p := by
  obtain ⟨web, jar, login, claimed, sentAs⟩ := s'
  dsimp only at ha hsent hk
  have hsame : s.web.core.task k ≠ .idle → web.writes k = s.web.writes k →
      Writes ⟨web, jar, login, claimed, sentAs⟩ k p := by
    intro htask hwrites
    obtain ⟨hs, hi⟩ := h.writes k p hv htask
    refine ⟨?_, hi⟩
    rw [hsent, hs]
    exact congrArg some (congrArg WriteRequest.actorId hwrites.symm)
  cases Web.step_cases ha with
  | @moved _ j ph _ hm hearly hcore hwrites hphase => exact hsame (hcore ▸ hk) (by rw [hwrites])
  | @started j env auth wreq core _ hp hw hby hc hcore hwrites hphase =>
    by_cases hkj : k = j
    · subst hkj
      have hway := h.way k p hv
      rw [hp] at hway
      refine ⟨?_, initiator_of_isWrite hway.2 hw⟩
      rw [hsent, hway.1]
      simp only [hwrites, Function.update_self, hby.actorId]
    · have htask : core.task k = s.web.core.task k := by
        cases Wikikiki.step_cases hc with
        | rejected => exact Function.update_of_ne hkj _ _
        | queued => exact Function.update_of_ne hkj _ _
      exact hsame (by rwa [hcore, htask] at hk) (by rw [hwrites, Function.update_of_ne hkj])
  | @worked c core hc hstep =>
    refine hsame (fun hidle => hk ?_) rfl
    exact step_idle ht.locked hstep (by rintro rfl; cases hc) hidle
  | @administered access layers actors core hc =>
    have htask : core.task = s.web.core.task := by cases Wikikiki.step_cases hc; rfl
    exact hsame (htask ▸ hk) rfl

/-- And the answers. -/
theorem Sets.other {a : Web.Action} (h : b.Held s) (ha : b.web.step s.web a = some s'.web) (hdrawn : a.Drawn)
    (hk : s.web.access.Keeps s'.web.access) (hclaim : s'.claimed = b.claim s a) {r : Response}
    (hr : s'.web.phase k = .answered r) : Sets s'.web.access b.secure (s'.claimed k) r.setCookies := by
  rcases Web.answers_of_step ha hr with hold | hnew
  · have hsame : s'.claimed k = s.claimed k := by
      rw [hclaim]
      cases a with
      | enter j env =>
        obtain ⟨auth, hready⟩ := Web.ready_of_step ha
        have hkj : k ≠ j := fun he => by
          rw [← he, hold] at hready
          cases hready
        exact Function.update_of_ne hkj _ _
      | _ => rfl
    rw [hsame]
    exact (h.answers k r hold).keep hk
  · rcases hnew.sets ha hdrawn with hnil | ⟨env, rfl, hsets⟩
    · rw [hnil]
      exact .nothing
    · rw [hclaim, show b.claim s (.enter k env) k = b.web.claimant s.web k from Function.update_self ..]
      exact hsets

theorem Held.step {s₀ : Web.State} {was : List Web.Action} (h : b.Held s) (ht : b.web.Traced s₀ was s.web)
    (ha : b.step s a = some s') (hfair : Fair s a) : b.Held s' := by
  cases step_cases ha with
  | @sent k now p web hv hsends hw =>
    have hk : s.web.access.Keeps web.access := Web.step_keeps hw trivial trivial
    have hidle := Web.idle_of_step hw
    have hphase : web.phase = Function.update s.web.phase k (b.web.begin k) ∧ web.core = s.web.core ∧
        web.writes = s.web.writes := by
      simp only [Web.step, hidle, Option.some.injEq] at hw
      subst hw
      exact ⟨rfl, rfl, rfl⟩
    obtain ⟨hphase, hcore, hwrites⟩ := hphase
    refine ⟨fun n => (h.jars n).keep hk rfl rfl, fun j r hr => ?_, fun j q hq => ?_, fun j q hq htask => ?_⟩
    · have hold := Web.answers_of_step hw hr
      rcases hold with hold | hnew
      · exact (h.answers j r hold).keep hk
      · cases hnew
    · by_cases hjk : j = k
      · subst hjk
        cases hq.symm.trans hv
        simp only [hphase, Function.update_self]
        exact (h.jars p.browser).way hsends (Function.update_self ..) hk
      · simp only [hphase, Function.update_of_ne hjk]
        exact (h.way j q hq).keep hk (Function.update_of_ne hjk _ _)
    · have hjk : j ≠ k := fun he => by
        refine htask ?_
        simp only [hcore, he]
        exact ht.early k (by rw [hidle]; rfl)
      obtain ⟨hs, hi⟩ := h.writes j q hq (by simpa only [hcore] using htask)
      refine ⟨?_, hi⟩
      simp only [hwrites, Function.update_of_ne hjk]
      exact hs
  | @received k now p r hv hr =>
    refine ⟨fun n => ?_, h.answers, fun j q hq => ?_, fun j q hq htask => ?_⟩
    · by_cases hn : n = p.browser
      · subst hn
        refine (h.jars p.browser).receive hv now (h.answers k r hr) (Function.update_self ..) ?_ rfl
        simp only
        split
        · rfl
        · exact Function.update_self ..
      · refine (h.jars n).keep (.refl _) (Function.update_of_ne hn _ _) ?_
        simp only
        split
        · rfl
        · exact Function.update_of_ne hn _ _
    · exact (h.way j q hq).keep (.refl _) rfl
    · obtain ⟨hs, hi⟩ := h.writes j q hq htask
      exact ⟨hs, hi⟩
  | @other a web hother hw =>
    obtain ⟨hdrawn, hspares⟩ := hfair
    have hk : s.web.access.Keeps web.access := Web.step_keeps hw hdrawn hspares
    exact ⟨fun n => (h.jars n).keep hk rfl rfl, fun j r hr => Sets.other h hw hdrawn hk rfl hr,
      fun j q hq => Way.other h.way hw hother hk rfl hq, fun j q hq htask => Writes.other h ht hw rfl hq htask⟩

/-! ## Runs -/

/-- Nobody is logged in, and no request is on its way. -/
def State.opened (w : World) (jar : Nat → Jar) : State where
  web := .opened w
  jar
  login _ := none
  claimed _ := none
  sentAs _ := none

/-- A jar without a session of the wiki. -/
structure Unused (jar : Jar) : Prop where
  clean : Clean jar
  other : ∀ c ∈ jar.cookies, c.name ≠ sessionCookie

theorem held_opened (hjar : ∀ n, Unused (jar n)) : b.Held (.opened w jar) where
  jars n := ⟨(hjar n).clean, fun c hc hname => absurd hname ((hjar n).other c hc)⟩
  answers _ _ hr := by cases hr
  way _ _ _ := trivial
  writes _ _ _ htask := absurd rfl htask

/-- What the wiki sees of a run. -/
def webActions (as : List Action) : List Web.Action :=
  as.filterMap fun a =>
    match a with
    | .send k _ => some (.arrive k)
    | .receive .. => none
    | .web a => some a

theorem web_run {s₀ : State} (hr : b.run s₀ as = some s) : b.web.run s₀.web (webActions as) = some s.web := by
  induction as generalizing s₀ with
  | nil =>
    cases hr
    rfl
  | cons a as ih =>
    obtain ⟨t, ha, hr⟩ := Run.run_cons.1 hr
    have htail := ih hr
    cases step_cases ha with
    | sent hv hsends hw => exact Run.run_cons.2 ⟨_, hw, htail⟩
    | received hv hr => exact htail
    | other hother hw => exact Run.run_cons.2 ⟨_, hw, htail⟩

theorem traced_web (hr : b.run (.opened w jar) as = some s) :
    b.web.Traced (.opened w) (webActions as) s.web :=
  Web.traced_run (web_run hr)

theorem held_run (hjar : ∀ n, Unused (jar n)) (hfair : Run.Every b.step Fair (.opened w jar) as)
    (hr : b.run (.opened w jar) as = some s) : b.Held s := by
  refine Run.history (I := fun as s => Run.Every b.step Fair (.opened w jar) as → b.Held s)
    (fun _ => held_opened hjar) (fun {pre t a t'} hpre ha ih hevery => ?_) hr hfair
  have hbefore : Run.Every b.step Fair (.opened w jar) pre := fun before c after u hsplit hu =>
    hevery before c (after ++ [a]) u (by simp [hsplit]) hu
  exact (ih hbefore).step (traced_web hpre) ha (hevery pre a [] t rfl hpre)

/-! ### What a login goes back to -/

section

variable (b : Browsing) (s₀ : State) (as : List Action) (s : State)

/-- The request was sent when its browser was logged in as the actor. -/
def SentAs (k : Nat) (p : Visit) (actorId : Int) : Prop :=
  Run.Passed b.step (fun _ t a _ => ∃ now, a = .send k now ∧ t.login p.browser = some actorId) s₀ as s

/-- The password of the actor came with a request of the browser, and was
good. -/
def LoggedIn (n : Nat) (actorId : Int) : Prop :=
  ∃ k p, b.visit k = some p ∧ p.browser = n ∧
    Run.Passed b.step (fun _ t a _ => ∃ env, a = .web (.enter k env) ∧ b.web.claimant t.web k = some actorId) s₀ as s

structure Recalled : Prop where
  claimed : ∀ k actorId, s.claimed k = some actorId →
    Run.Passed b.step (fun _ t a _ => ∃ env, a = .web (.enter k env) ∧ b.web.claimant t.web k = some actorId) s₀ as s
  login : ∀ n actorId, s.login n = some actorId → b.LoggedIn s₀ as s n actorId
  sentAs : ∀ k p actorId, b.visit k = some p → s.sentAs k = some actorId →
    b.SentAs s₀ as s k p actorId ∧ b.LoggedIn s₀ as s p.browser actorId

end

theorem LoggedIn.concat {s₀ : State} (h : b.LoggedIn s₀ as s n actorId) (ha : b.step s a = some s') :
    b.LoggedIn s₀ (as ++ [a]) s' n actorId := by
  obtain ⟨k, p, hv, hn, hpassed⟩ := h
  exact ⟨k, p, hv, hn, hpassed.concat ha⟩

theorem Recalled.step {s₀ : State} (h : b.Recalled s₀ as s) (hr : b.run s₀ as = some s) (ha : b.step s a = some s') :
    b.Recalled s₀ (as ++ [a]) s' := by
  cases step_cases ha with
  | @sent k now p web hv hsends hw =>
    refine ⟨fun j actorId hc => (h.claimed j actorId hc).concat ha, fun n actorId hl => (h.login n actorId hl).concat ha,
      fun j q actorId hq hs => ?_⟩
    by_cases hjk : j = k
    · subst hjk
      cases hq.symm.trans hv
      have hlogin : s.login p.browser = some actorId := by simpa using hs
      exact ⟨Run.passed_concat hr ha ⟨now, rfl, hlogin⟩, (h.login _ _ hlogin).concat ha⟩
    · have hold : s.sentAs j = some actorId := by simpa [Function.update_of_ne hjk] using hs
      obtain ⟨hsent, hlog⟩ := h.sentAs j q actorId hq hold
      exact ⟨hsent.concat ha, hlog.concat ha⟩
  | @received k now p r hv hphase =>
    have hsentAs : ∀ j q actorId, b.visit j = some q → s.sentAs j = some actorId → _ := fun j q actorId hq hs =>
      (h.sentAs j q actorId hq hs).imp (fun hsent => hsent.concat ha) (fun hlog => hlog.concat ha)
    refine ⟨fun j actorId hc => (h.claimed j actorId hc).concat ha, fun n actorId hl => ?_, hsentAs⟩
    simp only at hl
    split at hl
    · exact (h.login n actorId hl).concat ha
    · by_cases hn : n = p.browser
      · subst hn
        rw [Function.update_self] at hl
        exact ⟨k, p, hv, rfl, (h.claimed k actorId hl).concat ha⟩
      · rw [Function.update_of_ne hn] at hl
        exact (h.login n actorId hl).concat ha
  | @other c web hother hw =>
    have hsentAs : ∀ j q actorId, b.visit j = some q → s.sentAs j = some actorId → _ := fun j q actorId hq hs =>
      (h.sentAs j q actorId hq hs).imp (fun hsent => hsent.concat ha) (fun hlog => hlog.concat ha)
    refine ⟨fun j actorId hc => ?_, fun n actorId hl => (h.login n actorId hl).concat ha, hsentAs⟩
    cases c with
    | enter k env =>
      by_cases hjk : j = k
      · subst hjk
        have hclaim : b.web.claimant s.web j = some actorId := by simpa [claim] using hc
        exact Run.passed_concat hr ha ⟨env, rfl, hclaim⟩
      · have hold : s.claimed j = some actorId := by simpa [claim, Function.update_of_ne hjk] using hc
        exact (h.claimed j actorId hold).concat ha
    | _ => exact (h.claimed j actorId hc).concat ha

theorem recalled_run (hr : b.run (.opened w jar) as = some s) : b.Recalled (.opened w jar) as s := by
  have hopened : b.Recalled (.opened w jar) [] (.opened w jar) := by
    constructor
    · intro k actorId hc
      cases hc
    · intro n actorId hl
      cases hl
    · intro k p actorId hv hs
      cases hs
  exact Run.history (I := b.Recalled (.opened w jar)) hopened (fun hr ha ih => ih.step hr ha) hr

/-! ## Who browsers are -/

/-- **A browser is who it logged in as.** In every state of every run, a
request of a browser is handled as nobody, or as the actor as whom its browser
was logged in when it sent the request; and so as an actor whose password that
browser has given. It was made from the same site, unless it was a link that
changes nothing. -/
theorem handled_as_login (hjar : ∀ n, Unused (jar n)) (hfair : Run.Every b.step Fair (.opened w jar) as)
    (hr : b.run (.opened w jar) as = some s) (hv : b.visit k = some p) {auth : Auth}
    (hp : s.web.phase k = .ready (some auth)) :
    b.SentAs (.opened w jar) as s k p auth.actor.id ∧ b.LoggedIn (.opened w jar) as s p.browser auth.actor.id ∧
      (p.initiator = .sameSite ∨ p.initiator = .navigation ∧ b.safe k = true) := by
  have hway := (held_run hjar hfair hr).way k p hv
  rw [hp] at hway
  obtain ⟨hsent, hlog⟩ := (recalled_run hr).sentAs k p _ hv hway.1
  exact ⟨hsent, hlog, hway.2⟩

/-! ### A browser that logs in and saves a page -/

def loginRequest : Request where
  method := .post
  path := "/login".toList
  query := none
  headers := []
  body := Text.utf8 "handle=alice&password=hunter2".toList
  remoteAddr := none

def saveRequest : Request where
  method := .post
  path := "/wiki/notes".toList
  query := none
  headers := [(.other "cookie".toList, { bytes := Text.utf8 "wk_session=00ff".toList, legal := by decide +kernel })]
  body := Text.utf8 "content=one&layer=semantic".toList
  remoteAddr := none

def small : Browsing where
  web :=
    { site := { Site.small with decoders := .urlencoded }
      request := fun k => if k = 0 then loginRequest else saveRequest }
  visit k := if k < 2 then some { browser := 0, https := false, initiator := .sameSite } else none
  limit := 34560000
  served _ _ _ h := by cases h

def State.small : State := .opened (.small none) fun _ => .empty

/-- The draws are what they are. -/
def drawn : Env := { Env.small with sid := hexEncode [0, 255] }

/-- Until the wiki knows who saves. -/
def Action.login : List Action :=
  [.send 0 1, .web (.enter 0 drawn), .receive 0 1, .send 1 2, .web (.lookup 1 2 true), .web (.findActor 1 true)]

/-- Until the file is written. -/
def Action.save : List Action :=
  Action.login ++ [.web (.enter 1 drawn), .web (.core .grant), .web (.core (.accept 1))] ++
    List.replicate 6 (.web (.core (.advance 1 ⟨1, []⟩)))

theorem unused_empty : Unused .empty where
  clean := ⟨fun _ h => absurd h List.not_mem_nil, fun _ h => absurd h List.not_mem_nil⟩
  other _ h := absurd h List.not_mem_nil

theorem fair_save (t : State) : ∀ a ∈ Action.save, Fair t a := by
  have hdrawn : ∀ k, Fair t (.web (.enter k drawn)) := fun k => ⟨⟨_, rfl⟩, trivial⟩
  have hcore : ∀ c, Fair t (.web (.core c)) := fun c => ⟨trivial, trivial⟩
  intro a ha
  simp only [Action.save, Action.login, List.mem_append, List.mem_cons, List.not_mem_nil, or_false,
    List.mem_replicate] at ha
  rcases ha with ((rfl | rfl | rfl | rfl | rfl | rfl) | rfl | rfl | rfl) | ⟨-, rfl⟩
  · trivial
  · exact hdrawn 0
  · trivial
  · trivial
  · exact ⟨trivial, trivial⟩
  · exact ⟨trivial, trivial⟩
  · exact hdrawn 1
  · exact hcore _
  · exact hcore _
  · exact hcore _

theorem every_fair {s₀ : State} (h : ∀ a ∈ as, a ∈ Action.save) : Run.Every small.step Fair s₀ as := by
  intro pre a post t hsplit _
  exact fair_save t a (h a (by simp [hsplit]))

def readyAs : Web.Phase → Option Int
  | .ready (some auth) => some auth.actor.id
  | _ => none

theorem handled_as_login_small :
    ∃ s auth p, small.run .small Action.login = some s ∧ small.visit 1 = some p ∧
      s.web.phase 1 = .ready (some auth) ∧ small.SentAs .small Action.login s 1 p auth.actor.id ∧
      small.LoggedIn .small Action.login s p.browser auth.actor.id ∧
      (p.initiator = .sameSite ∨ p.initiator = .navigation ∧ small.safe 1 = true) := by
  have hrun : ((small.run .small Action.login).bind fun s => readyAs (s.web.phase 1)) = some 1 := by decide +kernel
  obtain ⟨s, hs, hready⟩ := Option.bind_eq_some_iff.1 hrun
  have hphase : ∃ auth, s.web.phase 1 = .ready (some auth) := by
    unfold readyAs at hready
    split at hready
    next auth h => exact ⟨auth, h⟩
    · cases hready
  obtain ⟨auth, hauth⟩ := hphase
  have hfair : Run.Every small.step Fair .small Action.login := every_fair fun a ha =>
    List.mem_append_left _ (List.mem_append_left _ ha)
  exact ⟨s, auth, _, hs, rfl, hauth, handled_as_login (fun _ => unused_empty) hfair hs rfl hauth⟩

/-- **No other site writes.** Whatever step of whatever run changes the pages,
if the write behind it was asked for by a browser, then from the same site, and
it is in the name of the actor as whom the browser was logged in when it sent
it. -/
theorem written_from_site (hjar : ∀ n, Unused (jar n)) (hfair : Run.Every b.step Fair (.opened w jar) as)
    (hr : b.run (.opened w jar) as = some s) (ha : b.step s a = some s')
    (hchange : s.web.core.stores.PagesChanged s'.web.core.stores) :
    ∃ k c, a = .web (.core c) ∧ c.Stages k ∧ ∀ p, b.visit k = some p →
      p.initiator = .sameSite ∧ ∃ actor, b.SentAs (.opened w jar) as s k p actor.id ∧
        b.web.InNameOf actor s.web.core.stores s'.web.core.stores := by
  have ht := traced_web hr
  have hsame : ¬ s.web.core.stores.PagesChanged s.web.core.stores := by simp [Stores.PagesChanged]
  cases step_cases ha with
  | received => exact absurd hchange hsame
  | sent hv hsends hw =>
    cases Web.step_cases hw with
    | moved _ _ hcore => exact absurd (hcore ▸ hchange) hsame
  | @other a web hother hw =>
    cases Web.step_cases hw with
    | moved _ _ hcore => exact absurd (hcore ▸ hchange) hsame
    | started _ _ _ hc hcore =>
      obtain ⟨t, stage, n, hcall, -⟩ := step_changes hc (hcore ▸ hchange)
      cases hcall
    | administered hc =>
      obtain ⟨t, stage, n, hadmin, -⟩ := step_changes hc hchange
      cases hadmin
    | @worked c core _ hc =>
      obtain ⟨k, stage, n, hstage, hk, hrank, heff⟩ := step_changes hc hchange
      refine ⟨k, c, rfl, hstage, fun p hv => ?_⟩
      have hbusy : s.web.core.task k ≠ .idle := by rw [hk]; simp
      obtain ⟨actor, ho⟩ := ht.owned k hbusy
      obtain ⟨hsent, hsite⟩ := (held_run hjar hfair hr).writes k p hv hbusy
      rw [ho.by'.actorId] at hsent
      exact ⟨hsite, actor, ((recalled_run hr).sentAs k p _ hv hsent).1, Web.inNameOf_effect heff ho.by'⟩

theorem written_from_site_small :
    ∃ s s' a, small.run .small Action.save = some s ∧ small.step s a = some s' ∧
      s.web.core.stores.PagesChanged s'.web.core.stores ∧
      ∃ k c, a = .web (.core c) ∧ c.Stages k ∧ ∀ p, small.visit k = some p →
        p.initiator = .sameSite ∧ ∃ actor, small.SentAs .small Action.save s k p actor.id ∧
          small.web.InNameOf actor s.web.core.stores s'.web.core.stores := by
  have hrun : ((small.run .small Action.save).bind fun s =>
      (small.step s (.web (.core (.advance 1 ⟨1, []⟩)))).map fun s' =>
        (s.web.core.stores.git.length, s'.web.core.stores.git.length)) = some (1, 2) := by decide +kernel
  obtain ⟨s, hs, hstep⟩ := Option.bind_eq_some_iff.1 hrun
  obtain ⟨s', hs', hlength⟩ := Option.map_eq_some_iff.1 hstep
  obtain ⟨hbefore, hafter⟩ := Prod.mk.inj hlength
  have hchange : s.web.core.stores.PagesChanged s'.web.core.stores :=
    .inr (.inl fun he => by rw [he, hbefore] at hafter; cases hafter)
  exact ⟨s, s', _, hs, hs', hchange,
    written_from_site (fun _ => unused_empty) (every_fair fun _ ha => ha) hs hs' hchange⟩

end

end Browsing

end Wikikiki
