/-
What the wiki answers (web/mod.rs), in every state of a run under load: a page
of HTML is built of paths that have been accepted, and the pages that it lists
are there, so its links can be followed, then and at any later time.

`Answers` says where an answer comes from, for whatever is to be shown of all
of them. The invariant is about the rows of the database, about what each call
of `write` has found of its path, and about the answers so far.
-/
import Wikikiki.Attribution
import Wikikiki.Links

namespace Wikikiki

/-! ## Accepted paths -/

/-- The page has a row. -/
def Db.Has (db : Db) (path : Text) : Prop := ∃ p, db.findPage path = some p

/-- Every row is of an accepted path, and what is indexed has one. -/
structure Db.Accepted (db : Db) : Prop where
  pages : ∀ i r, (i, r) ∈ db.pages.rows → validatePath r.path = .ok ()
  fts : ∀ i f, (i, f) ∈ db.pagesFts.rows → db.Has f.path

theorem Db.has_of_row {db : Db} {i : Int} {r : PageRow} (h : (i, r) ∈ db.pages.rows) : db.Has r.path :=
  ⟨_, Db.findPage_eq_some.2 ⟨h, rfl⟩⟩

theorem Db.Accepted.valid {db : Db} {path : Text} (ha : db.Accepted) (h : db.Has path) :
    validatePath path = .ok () := by
  obtain ⟨⟨i, r⟩, h⟩ := h
  obtain ⟨hrow, rfl⟩ := Db.findPage_eq_some.1 h
  exact ha.pages i r hrow

/-- What a call has found of its path. -/
def Phase.Judged (path : Text) : Phase → Prop
  | .idle => True
  | .rejected e => validatePath path = .error e
  | _ => validatePath path = .ok ()

/-- The rows are of accepted paths, and so are the calls that go on. -/
structure Filed (v : Service) (s : State) : Prop where
  db : s.stores.db.Accepted
  judged : ∀ t, (s.task t).Judged (v.req t).path

section

variable {v : Service} {s s' : State} {a : Action}

/-- A transaction takes no row away. -/
theorem Db.Projected.has {db db' : Db} {req : WriteRequest} {title hash oid p : Text} {id : Int}
    (h : db.Projected req title hash oid id db') (hp : db.Has p) : db'.Has p := by
  by_cases he : p = req.path
  · obtain ⟨at₀, now, hself⟩ := h.findPage_self
    exact he ▸ ⟨_, hself⟩
  · obtain ⟨row, hrow⟩ := hp
    exact ⟨row, (h.findPage_other he).trans hrow⟩

theorem Db.Projected.accepted {db db' : Db} {req : WriteRequest} {title hash oid : Text} {id : Int}
    (h : db.Projected req title hash oid id db') (hv : validatePath req.path = .ok ()) (ha : db.Accepted) :
    db'.Accepted := by
  obtain ⟨at₀, now, hpages⟩ := h.pages
  constructor
  · intro i r hm
    rcases (hpages i r).1 hm with ⟨-, rfl⟩ | ⟨-, hm⟩
    · exact hv
    · exact ha.pages i r hm
  · intro i f hm
    rcases (h.fts i f).1 hm with ⟨-, rfl⟩ | ⟨-, hm⟩
    · obtain ⟨at₀, now, hself⟩ := h.findPage_self
      exact ⟨_, hself⟩
    · exact h.has (ha.fts i f hm)

theorem Wiki.Effect.accepted {w : Wiki} {req : WriteRequest} {stage : Stage} {n : Next} {d d' : Stores}
    (h : w.Effect req stage d n d') (hv : validatePath req.path = .ok ()) (ha : d.db.Accepted) : d'.db.Accepted := by
  cases h with
  | project hproj => exact hproj.accepted hv ha
  | _ => exact ha

theorem Wiki.Effect.has {w : Wiki} {req : WriteRequest} {stage : Stage} {n : Next} {d d' : Stores} {p : Text}
    (h : w.Effect req stage d n d') (hp : d.db.Has p) : d'.db.Has p := by
  cases h with
  | project hproj => exact hproj.has hp
  | _ => exact hp

/-- A page that has a row keeps one. -/
theorem step_has {p : Text} (hstep : step v s a = some s') (hp : s.stores.db.Has p) : s'.stores.db.Has p := by
  cases step_cases hstep with
  | advanced ht he => exact (Wiki.exec_effect he).has hp
  | _ => exact hp

theorem Filed.update (h : Filed v s) {t : Nat} {ph : Phase} (hph : ph.Judged (v.req t).path) (u : Nat) :
    (Function.update s.task t ph u).Judged (v.req u).path := by
  by_cases hut : u = t
  · subst hut
    rwa [Function.update_self]
  · rw [Function.update_of_ne hut]
    exact h.judged u

theorem Filed.valid (h : Filed v s) {t : Nat} {ph : Phase} (ht : s.task t = ph) (hph : ph ≠ .idle)
    (hrej : ∀ e, ph ≠ .rejected e) : validatePath (v.req t).path = .ok () := by
  have hj := h.judged t
  rw [ht] at hj
  cases ph with
  | idle => exact absurd rfl hph
  | rejected e => exact absurd rfl (hrej e)
  | _ => exact hj

theorem step_filed (hstep : step v s a = some s') (hl : Locked v s) (h : Filed v s) : Filed v s' := by
  cases step_cases hstep with
  | rejected ht hv => exact ⟨h.db, h.update hv⟩
  | queued ht hv => exact ⟨h.db, h.update hv⟩
  | granted hg => exact ⟨h.db, h.update (hl.valid _ (.inl (hl.lock.grant_waits hg)))⟩
  | accepted ht => exact ⟨h.db, h.update (h.valid ht (by simp) (by simp))⟩
  | abandoned ht => exact ⟨h.db, h.update (h.valid ht (by simp) (by simp))⟩
  | dropped ht => exact ⟨h.db, h.update (h.valid ht (by simp) (by simp))⟩
  | @advanced t i stage n stores ht he =>
    have hv := h.valid ht (by simp) (by simp)
    exact ⟨(Wiki.exec_effect he).accepted hv h.db, h.update (by cases n <;> exact hv)⟩
  | failed ht => exact ⟨h.db, h.update (h.valid ht (by simp) (by simp))⟩
  | released ht => exact ⟨h.db, h.update (h.valid ht (by simp) (by simp))⟩
  | admin => exact ⟨⟨h.db.pages, h.db.fts⟩, h.judged⟩
  | _ => exact ⟨h.db, h.judged⟩

end

/-- The only error of the check. -/
theorem validatePath_error {path : Text} {e : AppError} (h : validatePath path = .error e) :
    ∃ msg, e = .badRequest msg := by
  have hsegments : ∀ segs, validateSegments segs = .error e → ∃ msg, e = .badRequest msg := by
    intro segs hs
    induction segs with
    | nil => cases hs
    | cons seg segs ih =>
      unfold validateSegments at hs
      split at hs
      · cases hs
        exact ⟨_, rfl⟩
      split at hs
      · cases hs
        exact ⟨_, rfl⟩
      split at hs
      · cases hs
        exact ⟨_, rfl⟩
      · exact ih hs
  unfold validatePath at h
  split at h
  · cases h
    exact ⟨_, rfl⟩
  split at h
  · cases h
    exact ⟨_, rfl⟩
  · exact hsegments _ h

/-! ## What is said of all answers -/

section

variable {P : Response → Prop}

theorem respond_bind {α : Type} {x : Except AppError α} {f : α → Except AppError Response}
    (hplain : ∀ status t, P (.plain status t)) (hf : ∀ a, x = .ok a → P (respond (f a))) :
    P (respond (x >>= f)) :=
  respond_cases (fun _ _ => hplain _ _) hf

/-- Before a handler with a path and a query. -/
theorem answer_onPath {raw : Text} {k : Text → Except Response Response} (hplain : ∀ status t, P (.plain status t))
    (h : ∀ p, P (answer (k p))) : P (answer (onPath raw k)) := by
  unfold onPath
  split
  · exact hplain _ _
  · exact h _

theorem answer_onQuery {β : Type} {q : Except Text β} {k : β → Except Response Response}
    (hplain : ∀ status t, P (.plain status t)) (h : ∀ x, P (answer (k x))) : P (answer (onQuery q k)) := by
  cases q with
  | error e => exact hplain _ _
  | ok x => exact h x

theorem withEtag_of {r : Response} (h : P r) (htag : ∀ value, P (r.withHeader "etag".toList value))
    (rev : Option Text) : P (r.withEtag rev) := by
  cases rev with
  | none => exact h
  | some rev =>
    simp only [Response.withEtag]
    split
    · exact htag _
    · exact h

end

/-! ## What an answer shows -/

/-- The paths of its page, if it has one, have been accepted, and the pages
that it shows or lists are there. -/
def Response.Shows (db : Db) (r : Response) : Prop :=
  ∀ view, r.body = .html view → (∀ p ∈ view.paths, validatePath p = .ok ()) ∧ ∀ p ∈ view.pages, db.Has p

theorem Response.Shows.mono {db db' : Db} {r : Response} (h : r.Shows db) (hdb : ∀ p, db.Has p → db'.Has p) :
    r.Shows db' := fun view hv => ⟨(h view hv).1, fun p hp => hdb p ((h view hv).2 p hp)⟩

section

variable {site : Site} {env : Env} {w : World} {auth : Option Auth} {path : Text} {db : Db}

theorem plain_shows (status : Nat) (t : Text) : (Response.plain status t).Shows db := fun _ h => by cases h

theorem shows_error (e : AppError) : e.response.Shows db := plain_shows _ _

theorem shows_html {view : View} (h : ∀ p ∈ view.paths, validatePath p = .ok ()) (hp : ∀ p ∈ view.pages, db.Has p) :
    (Response.html view).Shows db := by
  rintro _ ⟨⟩
  exact ⟨h, hp⟩

/-- A page whose links are constants, or go to one path that need not be
there. -/
theorem shows_bare {view : View} (h : view.paths = []) (hp : view.pages = []) : (Response.html view).Shows db :=
  shows_html (by simp [h]) (by simp [hp])

theorem shows_single {view : View} (h : view.paths = [path]) (hv : validatePath path = .ok ())
    (hp : ∀ p ∈ view.pages, p = path ∧ db.Has p) : (Response.html view).Shows db :=
  shows_html (fun p hm => by rw [h] at hm; exact List.mem_singleton.1 hm ▸ hv) fun p hm => (hp p hm).2

theorem shows_bind {α : Type} {x : Except AppError α} {f : α → Except AppError Response}
    (hf : ∀ a, x = .ok a → (respond (f a)).Shows db) : (respond (x >>= f)).Shows db :=
  respond_bind plain_shows hf

theorem Site.home_shows (hdb : w.stores.db.Accepted) : (respond (site.home env w auth)).Shows w.stores.db := by
  refine shows_bind fun _ _ => shows_bind fun recent h => ?_
  obtain rfl := Except.ok.inj (query_ok h)
  have hrecent : ∀ p ∈ (w.stores.db.recent 25).map (·.path), w.stores.db.Has p := by
    intro p hp
    obtain ⟨info, hinfo, rfl⟩ := List.mem_map.1 hp
    obtain ⟨row, hrow, rfl⟩ := List.mem_map.1 hinfo
    exact Db.has_of_row (List.mem_mergeSort.1 (List.mem_of_mem_take hrow))
  refine shows_html (fun p hp => ?_) hrecent
  rcases List.mem_cons.1 hp with rfl | hp
  · decide +kernel
  · exact hdb.valid (hrecent p hp)

theorem Wiki.Stored.has {wiki : Wiki} {s : Stores} {page : Page} (h : wiki.Stored s path page) :
    s.db.Has path ∧ page.info.path = path := by
  obtain ⟨q, hq, hinfo⟩ := Option.map_eq_some_iff.1 h.1
  exact ⟨⟨q, hq⟩, hinfo ▸ (Db.findPage_eq_some.1 hq).2⟩

/-- A page is only shown, or missed, under a path that it could have. -/
theorem Site.valid_of_readPage {x : Except AppError Page} (h : site.readPage env w.stores path = x)
    (hx : ∀ msg, x ≠ .error (.badRequest msg)) : validatePath path = .ok () := by
  cases hv : validatePath path with
  | error e =>
    rw [readPage, hv] at h
    obtain ⟨msg, rfl⟩ := validatePath_error hv
    exact absurd h.symm (hx msg)
  | ok u => rfl

theorem Site.viewPage_shows (q : ViewQuery) : (respond (site.viewPage env w auth path q)).Shows w.stores.db := by
  refine shows_bind fun _ _ => ?_
  dsimp only
  split
  · refine shows_bind fun _ _ => ?_
    split
    next p h => exact shows_single rfl (Site.valid_of_readPage h (by simp)) (by simp [View.pages])
    next msg h => exact shows_single rfl (Site.valid_of_readPage h (by simp)) (by simp [View.pages])
    · exact shows_error _
  · split
    next msg h => exact shows_single rfl (Site.valid_of_readPage h (by simp)) (by simp [View.pages])
    · exact shows_error _
    next p h =>
      have hv := Site.valid_of_readPage h (by simp)
      obtain ⟨page, hread, hstored⟩ | ⟨msg, hread, -⟩ | ⟨e, hread, -⟩ :=
        site.readPage_cases env w.stores auth hv
      · obtain rfl := Except.ok.inj (h.symm.trans hread)
        simp only [respond, pure, Except.pure]
        split
        · exact fun _ h => by cases h
        · refine shows_single (congrArg ([·]) hstored.has.2) hv fun p hp => ?_
          obtain rfl := List.mem_singleton.1 hp
          exact ⟨hstored.has.2, hstored.has.2 ▸ hstored.has.1⟩
      · cases h.symm.trans hread
      · cases h.symm.trans hread

theorem Site.historyPage_shows : (respond (site.historyPage env w auth path)).Shows w.stores.db := by
  refine shows_bind fun _ _ => shows_bind fun _ hv => shows_bind fun info h => shows_single rfl hv fun p hp => ?_
  obtain rfl := Except.ok.inj (query_ok h)
  simp only [View.pages] at hp
  split at hp
  next hsome =>
    obtain rfl := List.mem_singleton.1 hp
    refine ⟨rfl, Option.isSome_iff_exists.1 ?_⟩
    simpa [Db.readMeta] using hsome
  · cases hp

/-- The index finds rows of its table. -/
def Site.FindsRows (site : Site) : Prop :=
  ∀ rows e hits, site.ftsMatch rows e = .ok hits → ∀ hit ∈ hits, ∃ i, (i, hit.1) ∈ rows.rows

theorem Site.searchPage_shows (hfts : site.FindsRows) (hdb : w.stores.db.Accepted) (q : Option Text) :
    (respond (site.searchPage env w auth q)).Shows w.stores.db := by
  refine shows_bind fun _ _ => shows_bind fun hits h => ?_
  have hhas : ∀ p ∈ hits.map (·.path), w.stores.db.Has p := by
    unfold search at h
    split at h
    · cases h
      simp
    · have h := query_ok h
      split at h
      · cases h
      next found hfound =>
        cases h
        intro p hp
        obtain ⟨hit, hhit, rfl⟩ := List.mem_map.1 hp
        obtain ⟨row, hrow, rfl⟩ := List.mem_map.1 hhit
        obtain ⟨i, hi⟩ := hfts _ _ _ hfound row (List.mem_of_mem_take hrow)
        exact hdb.fts i row.1 hi
  exact shows_html (fun p hp => hdb.valid (hhas p hp)) hhas

theorem Site.loginWith_shows (remote : Option Text) (input : LoginInput) :
    (respond (site.loginWith env w remote input).1).Shows db := by
  unfold loginWith
  split
  · simp only
    split
    · exact shows_error _
    · exact fun _ h => by cases h
  · rintro _ ⟨⟩
    simp [View.paths, View.pages]

theorem Site.loginSubmit_shows (req : Request) (remote : Option Text) :
    (respond (site.loginSubmit env w req remote).1).Shows db := by
  unfold loginSubmit
  split
  · exact shows_error _
  · exact loginWith_shows _ _

/-- Before a handler with a path and a query, there is no page to show. -/
theorem shows_onPath {raw : Text} {k : Text → Except Response Response} (h : ∀ p, (answer (k p)).Shows db) :
    (answer (onPath raw k)).Shows db :=
  answer_onPath plain_shows h

theorem shows_onQuery {β : Type} {q : Except Text β} {k : β → Except Response Response}
    (h : ∀ x, (answer (k x)).Shows db) : (answer (onQuery q k)).Shows db :=
  answer_onQuery plain_shows h

theorem shows_withEtag {r : Response} (h : r.Shows db) (rev : Option Text) : (r.withEtag rev).Shows db :=
  withEtag_of h (fun _ => h) rev

theorem Site.apiGetPage_shows (req : Request) : (respond (site.apiGetPage env w auth req path)).Shows db := by
  refine shows_bind fun _ _ => shows_bind fun page _ => shows_withEtag ?_ _
  split <;> exact fun _ h => by cases h

theorem Site.apiSearch_shows (q : ApiSearch) : (respond (site.apiSearch env w auth q)).Shows db :=
  shows_bind fun _ _ => shows_bind fun _ _ _ h => by cases h

/-- Every handler that does not write. -/
theorem Site.runEndpoint_shows (hfts : site.FindsRows) (hdb : w.stores.db.Accepted) {req : Request} {e : Endpoint}
    (he : site.writing env req auth e = none) : (site.runEndpoint env req w auth e).1.Shows w.stores.db := by
  cases e with
  | home => exact Site.home_shows hdb
  | loginForm => exact shows_bare rfl rfl
  | loginSubmit => exact Site.loginSubmit_shows _ _
  | logout =>
    unfold runEndpoint logout
    simp only
    split
    · exact fun _ h => by cases h
    · split <;> exact fun _ h => by cases h
  | viewPage raw =>
    exact shows_onPath fun p => shows_onQuery fun q => answer_answering _ ▸ Site.viewPage_shows q
  | savePage raw => cases he
  | historyPage raw => exact shows_onPath fun p => answer_answering _ ▸ Site.historyPage_shows
  | searchPage => exact shows_onQuery fun q => answer_answering _ ▸ Site.searchPage_shows hfts hdb q
  | mePage => exact shows_bind fun _ _ => shows_bare rfl rfl
  | listActorsPage => exact shows_bind fun _ _ => shows_bind fun _ _ => shows_bare rfl rfl
  | apiGetPage raw => exact shows_onPath fun p => answer_answering _ ▸ Site.apiGetPage_shows req
  | apiPutPage raw => cases he
  | apiSearch => exact shows_onQuery fun q => answer_answering _ ▸ Site.apiSearch_shows q

theorem Site.dispatch_shows (hfts : site.FindsRows) (hdb : w.stores.db.Accepted) {req : Request}
    (he : ∀ e, req.endpoint = some e → site.writing env req auth e = none) :
    (site.dispatch env req w auth).1.Shows w.stores.db := by
  unfold dispatch
  cases hroute : routeOf req.path with
  | none => exact fun _ h => by cases h
  | some route =>
    simp only
    cases hend : route.endpoint req.method with
    | none => exact fun _ h => by cases h
    | some e =>
      have hshows := Site.runEndpoint_shows (w := w) hfts hdb (he e (by simp [Request.endpoint, hroute, hend]))
      simp only
      split
      · exact fun _ h => by cases h
      · exact hshows

theorem Site.start_shows {req : Request} {e : Endpoint} {h : Writing} {resp : Response}
    (hw : site.writing env req auth e = some h) (hs : h.start = .error resp) : resp.Shows db := by
  have hpath : ∀ {raw : Text} {k : Text → Except AppError (Auth × WriteRequest)},
      onPath raw (fun p => answering (k p)) = .error resp → resp.Shows db := by
    intro raw k hk
    unfold onPath at hk
    split at hk
    · cases hk
      exact plain_shows _ _
    next p _ =>
      cases hkp : k p with
      | error e =>
        simp only [hkp, answering] at hk
        cases hk
        exact shows_error e
      | ok x => simp [hkp, answering] at hk
  cases e <;> cases hw <;> exact hpath hs

/-- The form comes back with the path of the write. -/
theorem Site.finish_shows {req : Request} {e : Endpoint} {h : Writing} (hw : site.writing env req auth e = some h)
    {auth' : Auth} {wreq : WriteRequest} {result : Except AppError PageMeta}
    (hv : ∀ reason, result = .error (.preconditionFailed reason) → validatePath wreq.path = .ok ()) :
    (h.finish w auth' wreq result).1.Shows db := by
  cases e <;> cases hw
  · cases result with
    | ok info => exact fun _ h => by cases h
    | error err =>
      cases err with
      | preconditionFailed reason =>
        exact fun _ h => by cases h; exact ⟨fun p hp => List.mem_singleton.1 hp ▸ hv reason rfl, by simp [View.pages]⟩
      | _ => exact shows_error _
  · cases result with
    | error err => exact shows_error err
    | ok info => exact shows_withEtag (fun _ h => by cases h) _

end

/-! ## Runs -/

namespace Web

/-- Where the answer of a step comes from. -/
inductive Answers (v : Web) (s : State) : Action → Nat → Response → Prop
  | handled {k env auth} (hp : s.phase k = .ready auth) (hw : v.writing k env auth = none) :
      Answers v s (.enter k env) k
        (securityHeaders (v.site.dispatch env (v.request k) (s.seen auth env.now).world auth).1)
  | refused {k env auth h resp} (hp : s.phase k = .ready auth) (hw : v.writing k env auth = some h)
      (hs : h.start = .error resp) : Answers v s (.enter k env) k (securityHeaders resp)
  | wrote {k env auth h result} (hp : s.phase k = .writing auth) (hr : taskResult (s.core.task k) = some result)
      (hw : v.writing k env (some auth) = some h) :
      Answers v s (.finish k env) k (securityHeaders (h.finish s.world auth (s.writes k) result).1)

section

variable {v : Web} {s s' : State} {a : Action} {k : Nat} {r : Response}

/-- An answer is an old one, or it is that of the step. -/
theorem answers_of_step (h : v.step s a = some s') (hr : s'.phase k = .answered r) :
    s.phase k = .answered r ∨ v.Answers s a k r := by
  have hset : ∀ {t : State} {j : Nat} {ph : Phase}, t.phase = s.phase → (t.setPhase j ph).phase k = .answered r →
      s.phase k = .answered r ∨ (k = j ∧ ph = .answered r) := by
    intro t j ph ht hk
    by_cases hkj : k = j
    · subst hkj
      simp only [State.setPhase, Function.update_self] at hk
      exact .inr ⟨rfl, hk⟩
    · simp only [State.setPhase, Function.update_of_ne hkj, ht] at hk
      exact .inl hk
  have hsilent : ∀ {t : State} {j : Nat} {ph : Phase}, t.phase = s.phase → (∀ r, ph ≠ .answered r) →
      (t.setPhase j ph).phase k = .answered r → s.phase k = .answered r ∨ v.Answers s a k r := fun ht hph hk =>
    (hset ht hk).imp_right fun h => absurd h.2 (hph r)
  have hsession : ∀ j r, v.trySession j ≠ .answered r := by
    intro j r
    unfold trySession
    split <;> simp
  cases a with
  | enter j env =>
    simp only [step] at h
    split at h
    next auth hp =>
      obtain ⟨-, -, hphase⟩ := s.seen_eq auth env.now
      unfold enter at h
      split at h
      next hnone =>
        cases h
        rcases hset hphase hr with h | ⟨rfl, h⟩
        · exact .inl h
        · cases h
          exact .inr (.handled hp hnone)
      next w hsome =>
        split at h
        next resp hs =>
          cases h
          rcases hset hphase hr with h | ⟨rfl, h⟩
          · exact .inl h
          · cases h
            exact .inr (.refused hp hsome hs)
        next auth' wreq hs =>
          obtain ⟨core, -, rfl⟩ := Option.map_eq_some_iff.1 h
          exact hsilent hphase (by simp) hr
    · cases h
  | finish j env =>
    simp only [step] at h
    split at h
    next auth hp =>
      obtain ⟨result, hresult, h⟩ := Option.bind_eq_some_iff.1 h
      obtain ⟨hw, hsome, rfl⟩ := Option.map_eq_some_iff.1 h
      rcases hset rfl hr with h | ⟨rfl, h⟩
      · exact .inl h
      · cases h
        exact .inr (.wrote hp hresult hsome)
    · cases h
  | arrive j =>
    have hbegin : ∀ r, v.begin j ≠ .answered r := by
      intro r
      unfold begin
      split
      · simp
      · exact hsession j r
    simp only [step] at h
    split at h
    · cases h
      exact hsilent rfl hbegin hr
    · cases h
  | verify j now ok =>
    simp only [step] at h
    split at h
    · split at h
      · cases h
        exact hsilent rfl (by simp) hr
      · cases h
        exact hsilent rfl (hsession j) hr
    · cases h
  | lookup j now ok =>
    simp only [step] at h
    split at h
    · split at h <;>
      · cases h
        exact hsilent rfl (by simp) hr
    · cases h
  | findActor j ok =>
    simp only [step] at h
    split at h
    · split at h <;>
      · cases h
        exact hsilent rfl (by simp) hr
    · cases h
  | upgrade j ok =>
    simp only [step] at h
    split at h
    next actor id digest _ =>
      cases h
      have hph : ∀ r, Phase.touching actor id ≠ .answered r := by simp
      exact hsilent (t := s) (j := j) rfl hph hr
    · cases h
  | touch j now ok =>
    simp only [step] at h
    split at h
    next actor id _ =>
      cases h
      exact hsilent (t := s) (j := j) rfl (by simp) hr
    · cases h
  | disconnect j =>
    simp only [step] at h
    split at h
    · cases h
    · cases h
    · cases h
    · cases h
      exact hsilent rfl (by simp) hr
  | core b =>
    simp only [step] at h
    split at h
    · obtain ⟨core, -, rfl⟩ := Option.map_eq_some_iff.1 h
      exact .inl hr
    · cases h
  | administer access layers actors =>
    simp only [step] at h
    obtain ⟨core, -, rfl⟩ := Option.map_eq_some_iff.1 h
    exact .inl hr

/-- The invariant. -/
structure Shown (v : Web) (s : State) : Prop where
  filed : Filed (v.service s) s.core
  answers : ∀ k r, s.phase k = .answered r → r.Shows s.core.stores.db

theorem Answers.shows (ha : v.Answers s a k r) (hfts : v.site.FindsRows) (hs : v.Shown s) :
    r.Shows s.core.stores.db := by
  have hwriting : ∀ {env auth}, v.writing k env auth = none → ∀ e, (v.request k).endpoint = some e →
      v.site.writing env (v.request k) auth e = none := fun hw e he => by simpa [writing, he] using hw
  cases ha with
  | @handled _ env auth hp hw =>
    have hstores : (s.seen auth env.now).world.stores = s.core.stores := by
      rw [State.world, (s.seen_eq auth env.now).1]
    have hshows := Site.dispatch_shows (w := (s.seen auth env.now).world) hfts (hstores ▸ hs.filed.db) (hwriting hw)
    exact hstores ▸ hshows
  | @refused _ _ _ _ resp hp hw hstart =>
    obtain ⟨e, -, he⟩ := Option.bind_eq_some_iff.1 hw
    have hshows : resp.Shows s.core.stores.db := Site.start_shows he hstart
    exact hshows
  | @wrote _ env auth h result hp hresult hw =>
    obtain ⟨e, -, he⟩ := Option.bind_eq_some_iff.1 hw
    refine Site.finish_shows he fun reason hreason => ?_
    subst hreason
    have hj : (s.core.task k).Judged (s.writes k).path := hs.filed.judged k
    cases htask : s.core.task k with
    | rejected e =>
      -- The refusal of a path is another one.
      simp only [htask, taskResult, Option.some.injEq, Except.error.injEq] at hresult
      rw [htask] at hj
      obtain ⟨msg, hmsg⟩ := validatePath_error hj
      rw [hmsg] at hresult
      cases hresult
    | finished o =>
      rw [htask] at hj
      exact hj
    | _ => simp [htask, taskResult] at hresult

/-- A page that has a row keeps one. -/
theorem step_has {p : Text} (ha : v.step s a = some s') (hp : s.core.stores.db.Has p) :
    s'.core.stores.db.Has p := by
  cases step_cases ha with
  | moved hm hearly hcore hwrites hphase => exact hcore ▸ hp
  | started _ _ hby hc hcore => exact hcore ▸ Wikikiki.step_has hc hp
  | worked hb hc => exact Wikikiki.step_has hc hp
  | administered hc => exact Wikikiki.step_has hc hp

theorem run_has {p : Text} {as : List Action} (hr : v.run s as = some s') (hp : s.core.stores.db.Has p) :
    s'.core.stores.db.Has p :=
  Run.invariant (I := fun s => s.core.stores.db.Has p) (fun ha hp => step_has ha hp) hr hp

theorem Shown.step (hs : v.Shown s) {s₀ : State} {as : List Action} (ht : v.Traced s₀ as s)
    (hfts : v.site.FindsRows) (ha : v.step s a = some s') : v.Shown s' := by
  refine ⟨?_, fun k r hr => ?_⟩
  swap
  · have hshows : r.Shows s.core.stores.db := (answers_of_step ha hr).elim (hs.answers k r) fun h => h.shows hfts hs
    exact hshows.mono fun p => step_has ha
  cases step_cases ha with
  | moved hm hearly hcore hwrites hphase =>
    have hsame : v.service s' = v.service s := by simp only [service, hwrites]
    rw [hsame, hcore]
    exact hs.filed
  | @started k env auth wreq core _ hp hw hby hc hcore hwrites hphase =>
    have hsame : v.service s' = { v.service s with req := Function.update s.writes k wreq } := by
      simp only [service, hwrites]
    have hidle : s.core.task k = .idle := by
      cases Wikikiki.step_cases hc with
      | rejected ht => exact ht
      | queued ht => exact ht
    have hfiled : Filed { v.service s with req := Function.update s.writes k wreq } s.core := by
      refine ⟨hs.filed.db, fun t => ?_⟩
      by_cases htk : t = k
      · subst htk
        rw [hidle]
        trivial
      · simp only [Function.update_of_ne htk]
        exact hs.filed.judged t
    rw [hsame, hcore]
    exact step_filed hc (ht.locked_update hidle wreq) hfiled
  | worked hb hc => exact step_filed hc ht.locked hs.filed
  | administered hc => exact step_filed hc ht.locked hs.filed

theorem shown_opened {w : World} (hdb : w.stores.db.Accepted) : v.Shown (.opened w) where
  filed := ⟨hdb, fun _ => trivial⟩
  answers _ _ h := by cases h

/-- Every page that was answered, in every state of a run, has accepted paths. -/
theorem shown_run (hfts : v.site.FindsRows) {w : World} (hdb : w.stores.db.Accepted) {as : List Action}
    (hr : v.run (.opened w) as = some s) : v.Shown s :=
  Run.history (I := fun _ s => v.Shown s) (shown_opened hdb)
    (fun hr ha hs => hs.step (traced_run hr) hfts ha) hr

/-- **No dead links.** In every state of every run, take whatever page a request
was answered with, and any later time. The pages that it shows or lists are
there then. Each address stands in the markdown that is shown, or it is one of
the template's own, for a page that it names: the place in the page, or one that
is served. -/
theorem links_served (hd : v.site.decoders = .urlencoded) (hfts : v.site.FindsRows) {r : Renderer}
    (hsafe : Templates.Safe r) {w : World} (hdb : w.stores.db.Accepted) {as : List Action}
    (hr : v.run (.opened w) as = some s) {k : Nat} {resp : Response} (hk : s.phase k = .answered resp) {view : View}
    (hbody : resp.body = .html view) (now : Int) :
    Markup.read (Templates.page (r := r) now view).html = some (Templates.page (r := r) now view).tokens ∧
      ∀ later s', v.run s later = some s' →
        (∀ p ∈ view.pages, s'.core.stores.db.Has p) ∧
        ∀ a ∈ Markup.addresses (Templates.page (r := r) now view).tokens,
          (∃ src ∈ view.markdown, a ∈ Markup.addresses (Markup.run (.content .data) (r.renderMarkdown src)).2) ∨
          ∃ n : Named, (∀ p ∈ n.path, p ∈ view.paths) ∧ n.address = a ∧
            ((n = .main ∧ .opened "main".toList [("id".toList, "main".toList)] ∈
                (Templates.page (r := r) now view).tokens) ∨
              v.site.Serves s'.core.stores n) := by
  obtain ⟨hv, hpages⟩ := (shown_run hfts hdb hr).answers k resp hk view hbody
  refine ⟨(Templates.page now view).read_html fun m t => hsafe.closed_of_trusted, fun later s' hlater => ?_⟩
  refine ⟨fun p hp => run_has hlater (hpages p hp), fun a ha => ?_⟩
  rcases Markup.mem_addresses ha with ha | ⟨p, hp, ha⟩
  · obtain ⟨n, hn, rfl⟩ := Templates.leads_page now view hv a ha
    refine .inr ⟨n, hn, rfl, ?_⟩
    by_cases hmain : n = .main
    · exact .inl ⟨hmain, Templates.main_page now view⟩
    · exact .inr (Named.served hd hmain fun p hp => hv p (hn p hp))
  · obtain ⟨m, t⟩ := p
    obtain ⟨tok, htok, haddress⟩ := List.mem_filterMap.1 ha
    cases (Templates.page (r := r) now view).trusted _ hp with
    | @markdown src hsrc => exact .inl ⟨src, hsrc, ha⟩
    | styles =>
      cases tok with
      | opened name attrs => exact absurd htok (Markup.opened_rawtext _ hsafe.styles)
      | _ => cases haddress

/-- Everybody asks for the front page. -/
def browsing : Web where
  site :=
    { Site.small with decoders := .urlencoded, config := { Site.small.config with allowAnonymousRead := true } }
  request _ := { method := .get, path := "/".toList, query := none, headers := [], body := [], remoteAddr := none }

/-- It lists the one page that there is. -/
theorem links_served_small :
    ∃ s resp view,
      browsing.run (.opened (.small (some (.foreign "notes".toList none)))) [.arrive 0, .enter 0 .small] = some s ∧
      s.phase 0 = .answered resp ∧ resp.body = .html view ∧ view.pages = ["notes".toList] ∧
      ∀ later s', browsing.run s later = some s' →
        (∀ p ∈ view.pages, s'.core.stores.db.Has p) ∧
        ∀ a ∈ Markup.addresses (Templates.page (r := Templates.small) 0 view).tokens,
          (∃ src ∈ view.markdown,
            a ∈ Markup.addresses (Markup.run (.content .data) (Templates.small.renderMarkdown src)).2) ∨
          ∃ n : Named, (∀ p ∈ n.path, p ∈ view.paths) ∧ n.address = a ∧
            ((n = .main ∧ .opened "main".toList [("id".toList, "main".toList)] ∈
                (Templates.page (r := Templates.small) 0 view).tokens) ∨
              browsing.site.Serves s'.core.stores n) := by
  obtain ⟨s, hs⟩ : ∃ s, browsing.run (.opened (.small (some (.foreign "notes".toList none))))
      [.arrive 0, .enter 0 .small] = some s := ⟨_, rfl⟩
  have hdb : (World.small (some (.foreign "notes".toList none))).stores.db.Accepted := by
    refine ⟨fun i r h => ?_, fun _ _ h => absurd h List.not_mem_nil⟩
    cases List.mem_singleton.1 h
    decide +kernel
  have hfts : browsing.site.FindsRows := by
    rintro rows e hits ⟨⟩ hit ⟨⟩
  have hphase : ∃ resp view, s.phase 0 = .answered resp ∧ resp.body = .html view ∧ view.pages = ["notes".toList] := by
    cases hs
    refine ⟨_, _, rfl, rfl, ?_⟩
    have hrows : (Db.small (some (.foreign "notes".toList none))).pages.rows =
        [(1, .foreign "notes".toList none)] := rfl
    change ((Db.small (some (.foreign "notes".toList none))).recent 25).map (·.path) = _
    rw [Db.recent, hrows, List.mergeSort_singleton]
    rfl
  obtain ⟨resp, view, hk, hbody, hpages⟩ := hphase
  exact ⟨s, resp, view, hs, hk, hbody, hpages, (links_served rfl hfts Templates.small_safe hdb hs hk hbody 0).2⟩

end

end Web

end Wikikiki
