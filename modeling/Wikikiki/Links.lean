/-
Links (web/templates.rs, web/mod.rs): whatever the wiki has in its stores, and
in every state of a run, where a link of a page leads.

The addresses of a page are those of its template, each made of a constant or
of the path of a page (`Named`), and whatever the library makes of the markdown
that is shown. The paths have all been accepted: a row is written behind
`validate_path`, and a page is only shown under a path behind it. So each
address of a template comes to the handler that it names, and the answer is what
that handler finds, unless the reader has to log in first or a store fails.
-/
import Wikikiki.Browser
import Wikikiki.Locking

namespace Wikikiki

open Templates (Field Key Tag)

/-! ## Addresses of the templates -/

/-- The paths that a view has links to. -/
def View.paths : View → List Text
  | .home _ recent => "welcome".toList :: recent.map (·.path)
  | .viewPage _ page => [page.info.path]
  | .editPage _ form => [form.pagePath]
  | .missingPage _ pagePath => [pagePath]
  | .history _ pagePath _ _ => [pagePath]
  | .search _ _ hits => hits.map (·.path)
  | .login .. | .me _ | .actorsList .. => []

/-- Those of the pages that it shows or lists. -/
def View.pages : View → List Text
  | .home _ recent => recent.map (·.path)
  | .viewPage _ page => [page.info.path]
  | .history _ pagePath info _ => if info.isSome then [pagePath] else []
  | .search _ _ hits => hits.map (·.path)
  | .editPage .. | .missingPage .. | .login .. | .me _ | .actorsList .. => []

/-- What a link or a form of a template is for. -/
inductive Named where
  | main | home | loginForm | search | me | actors
  | page (p : Text)
  | source (p : Text)
  | edit (p : Text)
  | history (p : Text)
  | login | logout
  | save (p : Text)

/-- Its method and its address. -/
def Named.address : Named → Text × Text
  | .main => ("get".toList, "#main".toList)
  | .home => ("get".toList, "/".toList)
  | .loginForm => ("get".toList, "/login".toList)
  | .search => ("get".toList, "/search".toList)
  | .me => ("get".toList, "/me".toList)
  | .actors => ("get".toList, "/actors".toList)
  | .page p => ("get".toList, Templates.wikiUrl p)
  | .source p => ("get".toList, Templates.wikiSourceUrl p)
  | .edit p => ("get".toList, Templates.wikiEditUrl p)
  | .history p => ("get".toList, Templates.wikiHistoryUrl p)
  | .login => ("post".toList, "/login".toList)
  | .logout => ("post".toList, "/logout".toList)
  | .save p => ("post".toList, Templates.wikiUrl p)

def Named.path : Named → Option Text
  | .page p | .source p | .edit p | .history p | .save p => some p
  | _ => none

/-- The handler that it is for; the first stays in the page. -/
def Named.endpoint : Named → Option Endpoint
  | .main => none
  | .home => some .home
  | .loginForm => some .loginForm
  | .search => some .searchPage
  | .me => some .mePage
  | .actors => some .listActorsPage
  | .page p | .source p | .edit p => some (.viewPage p)
  | .history p => some (.historyPage p)
  | .login => some .loginSubmit
  | .logout => some .logout
  | .save p => some (.savePage p)

/-- An address of a template, where pages have these paths. -/
def Address (paths : List Text) (a : Text × Text) : Prop :=
  ∃ n : Named, (∀ p ∈ n.path, p ∈ paths) ∧ n.address = a

section

variable {paths : List Text}

theorem scalar_path {p : Text} (hv : validatePath p = .ok ()) : p.map Markup.scalar = p := by
  refine Markup.map_scalar_eq_self.2 fun hm => ?_
  rcases mem_of_segments (isSegment_of_validatePath hv) _ hm with h | h
  · exact absurd h (by decide)
  · exact absurd h (by decide)

theorem scalar_below {before p : Text} (hb : before.map Markup.scalar = before) (hv : validatePath p = .ok ()) :
    (before ++ p).map Markup.scalar = before ++ p := by
  rw [List.map_append, hb, scalar_path hv]

/-- A browser reads the address as it is. -/
theorem Named.scalar_address (n : Named) (hv : ∀ p ∈ n.path, validatePath p = .ok ()) :
    n.address.2.map Markup.scalar = n.address.2 := by
  have hwiki : ∀ p, validatePath p = .ok () → (Templates.wikiUrl p).map Markup.scalar = Templates.wikiUrl p :=
    fun p h => scalar_below (by decide) h
  cases n with
  | page p | save p => exact hwiki p (hv p rfl)
  | source p | edit p => exact List.map_append.trans (congrArg₂ _ (hwiki p (hv p rfl)) (by decide))
  | history p => exact scalar_below (by decide) (hv p rfl)
  | _ => decide

theorem Address.named (n : Named) (hp : ∀ p ∈ n.path, p ∈ paths) (hv : ∀ q ∈ paths, validatePath q = .ok ()) :
    Address paths (n.address.1, n.address.2.map Markup.scalar) :=
  ⟨n, hp, congrArg (n.address.1, ·) (n.scalar_address fun p h => hv p (hp p h)).symm⟩

/-- The addresses that are constants are in each page. -/
theorem Address.fixed (n : Named) (h : n.path = none) : Address paths (n.address.1, n.address.2.map Markup.scalar) :=
  have hnone : ∀ p, p ∉ n.path := by simp [h]
  ⟨n, fun p hp => absurd hp (hnone p), congrArg (n.address.1, ·) (n.scalar_address fun p hp => absurd hp (hnone p)).symm⟩

end

namespace Templates

section

variable {r : Renderer} {shown : List Text} {P : Text × Text → Prop}

/-- The value of the first attribute with this key, as a browser has it. -/
def valueOf (k : Key) : List Field → Option Text
  | [] => none
  | f :: fields => if f.key = k then some ((f.value.getD []).map Markup.scalar) else valueOf k fields

/-- The address of a tag. -/
def fieldAddress (fields : List Field) : Option (Text × Text) :=
  match valueOf .href fields with
  | some address => some ("get".toList, address)
  | none => (valueOf .action fields).map fun address => ((valueOf .method fields).getD "get".toList, address)

theorem attrOf_read (k : Key) (fields : List Field) :
    Markup.attrOf k.text ((fields.map Field.attr).map Markup.Attr.read) = valueOf k fields := by
  induction fields with
  | nil => rfl
  | cons f fields ih =>
    rw [valueOf]
    split
    next h =>
      rw [← h]
      simp [Markup.attrOf, Field.attr, Markup.Attr.read]
    next h =>
      have hne : f.key.text ≠ k.text := fun he => h (Key.text_injective he)
      rw [← ih]
      simp [Markup.attrOf, Field.attr, Markup.Attr.read, hne]

theorem addressOf_read (fields : List Field) :
    Markup.addressOf ((fields.map Field.attr).map Markup.Attr.read) = fieldAddress fields := by
  have hhref := attrOf_read .href fields
  have haction := attrOf_read .action fields
  have hmethod := attrOf_read .method fields
  unfold Markup.addressOf fieldAddress
  rw [← hhref, ← haction, ← hmethod]
  rfl

/-- Every address in the piece meets `P`. -/
def Leads (P : Text × Text → Prop) (x : Html r shown) : Prop := ∀ a ∈ x.doc.links, P a

@[simp] theorem leads_append {x y : Html r shown} : Leads P (x ++ y) ↔ Leads P x ∧ Leads P y := List.forall_mem_append

theorem leads_of_links {x : Html r shown} (h : x.doc.links = []) : Leads P x := fun a ha => by simp [h] at ha

@[simp] theorem leads_nothing : Leads P (nothing : Html r shown) := fun _ h => absurd h List.not_mem_nil

@[simp] theorem leads_text (t : Text) : Leads P (text t : Html r shown) := fun _ h => absurd h List.not_mem_nil

@[simp] theorem leads_str (s : String) : Leads P (str s : Html r shown) := fun _ h => absurd h List.not_mem_nil

@[simp] theorem leads_doctype : Leads P (.doctype : Html r shown) := fun _ h => absurd h List.not_mem_nil

@[simp] theorem leads_raw {t : Text} (ht : Trusted r shown .data t) : Leads P (.raw t ht : Html r shown) := fun _ h =>
  absurd h List.not_mem_nil

@[simp] theorem leads_each {α : Type} {f : α → Html r shown} {xs : List α} :
    Leads P (.each f xs) ↔ ∀ x ∈ xs, Leads P (f x) := by
  induction xs with
  | nil => simp [Markup.Piece.each, Leads, Markup.Piece.empty, Markup.Doc.links]
  | cons x xs ih => rw [Markup.Piece.each, leads_append, ih, List.forall_mem_cons]

@[simp] theorem leads_el {t : Tag} {fields : List Field} {body : Html r shown} {h : fieldsOk fields = true}
    {ht : t.closes = true} {hm : t ∉ [Tag.title, .style, .textarea]} :
    Leads P (el t fields body h ht hm) ↔ (∀ a ∈ fieldAddress fields, P a) ∧ Leads P body := by
  have hlinks : (el t fields body h ht hm).doc.links = (fieldAddress fields).toList ++ body.doc.links := by
    rw [← addressOf_read]
    rfl
  rw [Leads, hlinks, List.forall_mem_append]
  simp [Leads]

@[simp] theorem leads_void {t : Tag} {fields : List Field} {h : fieldsOk fields = true} {ht : t.closes = false} :
    Leads P (void t fields h ht : Html r shown) ↔ ∀ a ∈ fieldAddress fields, P a := by
  have hlinks : (void t fields h ht : Html r shown).doc.links = (fieldAddress fields).toList := by
    rw [← addressOf_read]
    rfl
  rw [Leads, hlinks]
  simp

@[simp] theorem leads_plain {name : Text} {attrs : List Markup.Attr} {t : Text} {h hm} :
    Leads P (.plain name attrs t h hm : Html r shown) ↔ ∀ a ∈ Markup.addressOf (attrs.map Markup.Attr.read), P a := by
  simp [Leads, Markup.Piece.plain, Markup.Doc.links]

@[simp] theorem leads_verbatim {name : Text} {attrs : List Markup.Attr} {t : Text} {h hm ht} :
    Leads P (.verbatim name attrs t h hm ht : Html r shown) ↔
      ∀ a ∈ Markup.addressOf (attrs.map Markup.Attr.read), P a := by
  simp [Leads, Markup.Piece.verbatim, Markup.Doc.links]

@[simp] theorem leads_ite {c : Prop} [Decidable c] {x y : Html r shown} :
    Leads P (if c then x else y) ↔ (c → Leads P x) ∧ (¬ c → Leads P y) := by
  split <;> simp [*]

@[simp] theorem addressOf_nil : Markup.addressOf [] = none := rfl

@[simp] theorem fieldAddress_nil : fieldAddress [] = none := rfl

@[simp] theorem fieldAddress_cls (c : String) (fields : List Field) :
    fieldAddress (cls c :: fields) = fieldAddress fields := rfl

/-- The values of most attributes do not matter. -/
@[simp] theorem fieldAddress_attr {k : Key} (h : k ≠ .href ∧ k ≠ .action ∧ k ≠ .method) (v : Text) (fields : List Field) :
    fieldAddress (attr k v :: fields) = fieldAddress fields := by
  simp [fieldAddress, valueOf, attr, h]

@[simp] theorem fieldAddress_flag {k : Key} (h : k ≠ .href ∧ k ≠ .action ∧ k ≠ .method) (fields : List Field) :
    fieldAddress (flag k :: fields) = fieldAddress fields := by
  simp [fieldAddress, valueOf, flag, h]

@[simp] theorem fieldAddress_href (address : Text) (fields : List Field) :
    fieldAddress (attr .href address :: fields) = some ("get".toList, address.map Markup.scalar) := rfl

@[simp] theorem fieldAddress_form (method address : Text) :
    fieldAddress [attr .method method, attr .action address] =
      some (method.map Markup.scalar, address.map Markup.scalar) := rfl

@[simp] theorem fieldAddress_search (method address role : Text) :
    fieldAddress [attr .method method, attr .action address, attr .role role] =
      some (method.map Markup.scalar, address.map Markup.scalar) := rfl

/-! ### Shared pieces -/

@[simp] theorem leads_actorChip (handle : Text) (actorType : Option Text) :
    Leads P (actorChip handle actorType : Html r shown) := by
  simp [actorChip]

@[simp] theorem leads_layerChip (layer : Text) : Leads P (layerChip layer : Html r shown) := by simp [layerChip]

@[simp] theorem leads_dotSep : Leads P (dotSep : Html r shown) := by simp [dotSep]

@[simp] theorem leads_time (now unixTs : Int) : Leads P (time now unixTs : Html r shown) := by simp [time]

@[simp] theorem leads_attribution (now : Int) (info : PageMeta) : Leads P (attribution now info : Html r shown) := by
  unfold attribution
  split
  · exact leads_nothing
  · simp only [leads_el, leads_append, fieldAddress_cls, fieldAddress_nil, leads_str, leads_actorChip]
    split <;> simp

variable {paths : List Text}

theorem leads_account (auth : Option Auth) : Leads (Address paths) (account auth : Html r shown) := by
  have hlogout : Address paths ("post".toList.map Markup.scalar, "/logout".toList.map Markup.scalar) :=
    .fixed .logout rfl
  have hme : Address paths ("get".toList, "/me".toList.map Markup.scalar) := .fixed .me rfl
  have hlogin : Address paths ("get".toList, "/login".toList.map Markup.scalar) := .fixed .loginForm rfl
  cases auth with
  | some a => simpa [-String.reduceToList, account] using ⟨hme, hlogout⟩
  | none => simpa [-String.reduceToList, account] using hlogin

theorem leads_layout {title : Text} {auth : Option Auth} {body : Html r shown} (h : Leads (Address paths) body) :
    Leads (Address paths) (layout title auth body) := by
  have hmain : Address paths ("get".toList, "#main".toList.map Markup.scalar) := .fixed .main rfl
  have hhome : Address paths ("get".toList, "/".toList.map Markup.scalar) := .fixed .home rfl
  have hsearch : Address paths ("get".toList, "/search".toList.map Markup.scalar) := .fixed .search rfl
  have hactors : Address paths ("get".toList, "/actors".toList.map Markup.scalar) := .fixed .actors rfl
  have haccount : Leads (Address paths) (account auth : Html r shown) := leads_account auth
  simpa [-String.reduceToList, layout, h, haccount] using ⟨hmain, hhome, ⟨hhome, hsearch⟩, hactors⟩

/-! ### Views -/

section

variable {p : Text} (hp : p ∈ paths) (hv : ∀ q ∈ paths, validatePath q = .ok ())

include hp hv

theorem Address.wiki : Address paths ("get".toList, (wikiUrl p).map Markup.scalar) :=
  .named (.page p) (fun _ h => Option.some.inj h ▸ hp) hv

theorem Address.wikiEdit : Address paths ("get".toList, (wikiEditUrl p).map Markup.scalar) :=
  .named (.edit p) (fun _ h => Option.some.inj h ▸ hp) hv

theorem Address.wikiSource : Address paths ("get".toList, (wikiSourceUrl p).map Markup.scalar) :=
  .named (.source p) (fun _ h => Option.some.inj h ▸ hp) hv

theorem Address.wikiHistory : Address paths ("get".toList, (wikiHistoryUrl p).map Markup.scalar) :=
  .named (.history p) (fun _ h => Option.some.inj h ▸ hp) hv

theorem Address.wikiSave : Address paths ("post".toList.map Markup.scalar, (wikiUrl p).map Markup.scalar) :=
  .named (.save p) (fun _ h => Option.some.inj h ▸ hp) hv

end

section

variable (hv : ∀ q ∈ paths, validatePath q = .ok ()) (now : Int) (auth : Option Auth)

include hv

theorem leads_home (hw : "welcome".toList ∈ paths) {recent : List PageMeta} (hr : ∀ info ∈ recent, info.path ∈ paths) :
    Leads (Address paths) (home now auth recent : Html r shown) := by
  have hwelcome := Address.wikiEdit hw hv
  have hlogin : Address paths ("get".toList, "/login".toList.map Markup.scalar) := .fixed .loginForm rfl
  have hitem : ∀ info ∈ recent, Leads (Address paths) (recentItem now info : Html r shown) := by
    intro info hm
    simpa [-String.reduceToList, recentItem] using Address.wiki (hr info hm) hv
  refine leads_layout ?_
  simpa [-String.reduceToList] using ⟨fun _ => ⟨fun _ => hwelcome, fun _ => hlogin⟩, fun _ => hitem⟩

theorem leads_viewPage {page : Page} (hp : page.info.path ∈ paths) :
    Leads (Address paths) (viewPage (r := r) now auth page) := by
  refine leads_layout ?_
  simpa [-String.reduceToList] using
    ⟨⟨fun _ => Address.wikiEdit hp hv, Address.wikiHistory hp hv⟩, Address.wikiSource hp hv⟩

theorem leads_editPage {form : EditForm} (hp : form.pagePath ∈ paths) :
    Leads (Address paths) (editPage auth form : Html r shown) := by
  have hwiki := Address.wiki hp hv
  have hsave := Address.wikiSave hp hv
  refine leads_layout (leads_append.2 ⟨?_, leads_el.2 ⟨?_, leads_append.2 ⟨?_, leads_el.2 ⟨?_, ?_⟩⟩⟩⟩)
  · cases form.conflict with
    | none => exact leads_nothing
    | some reason => simpa [-String.reduceToList, conflictAlert] using hwiki
  · simpa [-String.reduceToList] using hsave
  · simpa [-String.reduceToList] using hwiki
  · simp
  · exact leads_append.2 ⟨by simp, leads_of_links rfl⟩

theorem leads_missingPage {pagePath : Text} (hp : pagePath ∈ paths) :
    Leads (Address paths) (missingPage auth pagePath : Html r shown) := by
  have hlogin : Address paths ("get".toList, "/login".toList.map Markup.scalar) := .fixed .loginForm rfl
  refine leads_layout ?_
  simpa [-String.reduceToList] using ⟨fun _ => Address.wikiEdit hp hv, fun _ => hlogin⟩

theorem leads_history {pagePath : Text} (hp : pagePath ∈ paths) (info : Option PageMeta) (commits : List CommitInfo) :
    Leads (Address paths) (history now auth pagePath info commits : Html r shown) := by
  have hitem : ∀ c : CommitInfo, Leads (Address paths) (commitItem now c : Html r shown) := fun c => by
    simp [-String.reduceToList, commitItem, authorChip]
  refine leads_layout ?_
  simpa [-String.reduceToList] using ⟨Address.wiki hp hv, fun _ c _ => hitem c⟩

theorem leads_search (query : Text) {hits : List SearchHit} (hh : ∀ hit ∈ hits, hit.path ∈ paths) :
    Leads (Address paths) (search auth query hits : Html r shown) := by
  have hsearch : Address paths ("get".toList.map Markup.scalar, "/search".toList.map Markup.scalar) :=
    .fixed .search rfl
  have hsnippet : ∀ raw, Leads (Address paths) (snippet raw : Html r shown) := by
    intro raw
    refine leads_each.2 fun n _ => ?_
    cases n <;> simp
  have hitem : ∀ hit ∈ hits, Leads (Address paths) (hitItem hit : Html r shown) := by
    intro hit hm
    simpa [-String.reduceToList, hitItem, hsnippet] using Address.wiki (hh hit hm) hv
  refine leads_layout ?_
  simpa [-String.reduceToList, fieldAddress_search] using ⟨hsearch, fun _ _ => hitem⟩

end

theorem leads_login (auth : Option Auth) (error : Option Text) :
    Leads (Address paths) (login auth error : Html r shown) := by
  have hlogin : Address paths ("post".toList.map Markup.scalar, "/login".toList.map Markup.scalar) :=
    .fixed .login rfl
  refine leads_layout ?_
  cases error <;> simpa [-String.reduceToList] using hlogin

theorem leads_me (auth : Auth) : Leads (Address paths) (me auth : Html r shown) := by
  refine leads_layout ?_
  simp [-String.reduceToList]

theorem leads_actorsList (auth : Option Auth) (actors : List Actor) :
    Leads (Address paths) (actorsList auth actors : Html r shown) := by
  refine leads_layout ?_
  simp [-String.reduceToList, actorItem]

/-- The addresses of a page are those of its paths. -/
theorem leads_page (now : Int) (view : View) (hv : ∀ q ∈ view.paths, validatePath q = .ok ()) :
    Leads (Address view.paths) (page (r := r) now view) := by
  cases view with
  | home auth recent => exact leads_home hv now auth (.head _) fun info hm => .tail _ (List.mem_map_of_mem hm)
  | login auth error => exact leads_login auth error
  | viewPage auth page => exact leads_viewPage hv now auth (.head _)
  | editPage auth form => exact leads_editPage hv auth (.head _)
  | missingPage auth pagePath => exact leads_missingPage hv auth (.head _)
  | history auth pagePath info commits => exact leads_history hv now auth (.head _) info commits
  | search auth query hits => exact leads_search hv auth query fun hit hm => List.mem_map_of_mem hm
  | me auth => exact leads_me auth
  | actorsList auth actors => exact leads_actorsList auth actors

/-! ### The place that a page has -/

theorem mem_append {x y : Html r shown} {t : Markup.Token} :
    t ∈ (x ++ y).tokens ↔ t ∈ x.tokens ∨ t ∈ y.tokens :=
  List.mem_append

theorem mem_el {t : Tag} {fields : List Field} {body : Html r shown} {h : fieldsOk fields = true}
    {ht : t.closes = true} {hm : t ∉ [Tag.title, .style, .textarea]} {tok : Markup.Token} :
    tok ∈ (el t fields body h ht hm).tokens ↔
      tok = .opened t.name ((fields.map Field.attr).map Markup.Attr.read) ∨ tok ∈ body.tokens ∨
        tok = .closed t.name := by
  have htokens : (el t fields body h ht hm).tokens =
      .opened t.name ((fields.map Field.attr).map Markup.Attr.read) :: (body.tokens ++ [.closed t.name]) := by
    simp only [Markup.Piece.tokens, el, Markup.Piece.element, Markup.Doc.tokens, contentOf_name hm, Option.getD_some]
  simp [htokens]

theorem main_layout (title : Text) (auth : Option Auth) (body : Html r shown) :
    .opened "main".toList [("id".toList, "main".toList)] ∈ (layout title auth body).tokens := by
  refine mem_append.2 (.inr (mem_el.2 (.inr (.inl (mem_append.2 (.inr (mem_el.2 (.inr (.inl ?_)))))))))
  exact mem_append.2 (.inl (mem_append.2 (.inr (mem_el.2 (.inl rfl)))))

/-- The skip link of a page finds its place. -/
theorem main_page (now : Int) (view : View) :
    .opened "main".toList [("id".toList, "main".toList)] ∈ (page (r := r) now view).tokens := by
  cases view <;> exact main_layout _ _ _

end

end Templates

/-! ## What a link finds -/

/-- The page as the stores have it. -/
def Wiki.Stored (w : Wiki) (s : Stores) (p : Text) (page : Page) : Prop :=
  s.db.readMeta p = some page.info ∧ s.disk.readToString (filePath w.contentRoot p) = some page.content

/-- What the handler of a link finds in the stores. -/
inductive Finds (site : Site) (s : Stores) (auth : Option Auth) : Named → Response → Prop
  | home : Finds site s auth .home (.html (.home auth (s.db.recent 25)))
  | loginForm : Finds site s auth .loginForm (.html (.login auth none))
  | search : Finds site s auth .search (.html (.search auth [] []))
  | me {a} (ha : auth = some a) : Finds site s auth .me (.html (.me a))
  | actors : Finds site s auth .actors (.html (.actorsList auth (listActors s.db.actors)))
  | page {p page} (h : site.wiki.Stored s p page) : Finds site s auth (.page p) (.html (.viewPage auth page))
  | missing {p} (h : s.db.findPage p = none) : Finds site s auth (.page p) (.html (.missingPage auth p))
  | source {p page} (h : site.wiki.Stored s p page) : Finds site s auth (.source p) (.markdown page.content)
  | noSource {p} (h : s.db.findPage p = none) : Finds site s auth (.source p) (.html (.missingPage auth p))
  | edit {p page a} (ha : auth = some a) (h : site.wiki.Stored s p page) :
      Finds site s auth (.edit p) (.html (.editPage auth (editPage p page.content (some page.info) none)))
  | create {p a} (ha : auth = some a) (h : s.db.findPage p = none) :
      Finds site s auth (.edit p) (.html (.editPage auth (editPage p (seedPageContent p) none none)))
  | history {p said} :
      Finds site s auth (.history p)
        (.html (.history auth p (s.db.readMeta p) ((site.wiki.history site.title s.git p 50 said).toOption.getD [])))
  | logout :
      Finds site s auth .logout
        ((Response.redirect "/".toList).withHeader "set-cookie".toList (clearSessionCookie site.config.secure))

/-- Only for somebody who has logged in. -/
def Named.Private : Named → Prop
  | .me | .edit _ => True
  | _ => False

/-- Why it answers without it: nobody is logged in, a statement fails, or the
file of a page cannot be read. -/
inductive Withheld (site : Site) (env : Env) (s : Stores) (auth : Option Auth) (n : Named) : Response → Prop
  | refused (ha : auth = none) (h : n.Private ∨ site.config.allowAnonymousRead = false) :
      Withheld site env s auth n AppError.unauthorized.response
  | database {q t} (h : env.fault q = some t) : Withheld site env s auth n (AppError.database t).response
  | unreadable {p info t} (hp : n.path = some p) (hinfo : s.db.readMeta p = some info)
      (h : s.disk.readToString (filePath site.wiki.contentRoot p) = none) :
      Withheld site env s auth n (AppError.internal t).response

section

variable {site : Site} {env : Env} {w : World} {auth : Option Auth} {path : Text} {P : Response → Prop}

theorem respond_cases {α : Type} {x : Except AppError α} {f : α → Except AppError Response}
    (hx : ∀ e, x = .error e → P e.response) (hf : ∀ a, x = .ok a → P (respond (f a))) : P (respond (x >>= f)) := by
  cases h : x with
  | error e => exact hx e h
  | ok a => exact hf a h

theorem requireRead_error {c : Config} {e : AppError} (h : c.requireRead auth = .error e) :
    e = .unauthorized ∧ auth = none ∧ c.allowAnonymousRead = false := by
  unfold Config.requireRead Config.canRead at h
  split at h
  · cases h
  next hno =>
    cases h
    cases auth <;> simp_all

theorem requireWriter_error {e : AppError} (h : requireWriter auth = .error e) : e = .unauthorized ∧ auth = none := by
  cases auth with
  | some a => cases h
  | none =>
    cases h
    exact ⟨rfl, rfl⟩

theorem requireWriter_ok {a : Auth} (h : requireWriter auth = .ok a) : auth = some a := by
  cases auth with
  | some b => exact congrArg some (Except.ok.inj h)
  | none => cases h

theorem query_error {α : Type} {q : Query} {x : Except AppError α} {e : AppError} (h : env.query q x = .error e) :
    (∃ t, env.fault q = some t ∧ e = .database t) ∨ x = .error e := by
  unfold Env.query at h
  split at h
  next t ht =>
    cases h
    exact .inl ⟨t, ht, rfl⟩
  · exact .inr h

theorem query_ok {α : Type} {q : Query} {x : Except AppError α} {a : α} (h : env.query q x = .ok a) : x = .ok a := by
  unfold Env.query at h
  split at h
  · cases h
  · exact h

section

variable {s : Stores} {n : Named}

/-- The access policy of the handlers that read. -/
theorem withheld_requireRead {e : AppError} (h : site.config.requireRead auth = .error e) :
    Withheld site env s auth n e.response := by
  obtain ⟨rfl, ha, hc⟩ := requireRead_error h
  exact .refused ha (.inr hc)

theorem withheld_requireWriter (hn : n.Private) {e : AppError} (h : requireWriter auth = .error e) :
    Withheld site env s auth n e.response := by
  obtain ⟨rfl, ha⟩ := requireWriter_error h
  exact .refused ha (.inl hn)

theorem withheld_query {α : Type} {q : Query} {x : α} {e : AppError} (h : env.query q (.ok x) = .error e) :
    Withheld site env s auth n e.response := by
  obtain ⟨t, ht, rfl⟩ | h := query_error h
  · exact .database ht
  · cases h

end

/-- Of an accepted path, the page is there, or it is not, or a store fails. -/
theorem Site.readPage_cases (site : Site) (env : Env) (s : Stores) (auth : Option Auth)
    (hv : validatePath path = .ok ()) :
    (∃ page, site.readPage env s path = .ok page ∧ site.wiki.Stored s path page) ∨
    (∃ msg, site.readPage env s path = .error (.notFound msg) ∧ s.db.findPage path = none) ∨
    ∃ e, site.readPage env s path = .error e ∧ (∀ msg, e ≠ .notFound msg) ∧
      ∀ n : Named, n.path = some path → Withheld site env s auth n e.response := by
  cases h : site.readPage env s path with
  | ok page =>
    refine .inl ⟨page, rfl, ?_⟩
    rw [readPage, hv] at h
    have h := query_ok h
    unfold Wiki.read at h
    simp only [hv] at h
    split at h
    · cases h
    next info hinfo =>
      split at h
      next content hcontent =>
        cases h
        exact ⟨hinfo, hcontent⟩
      · cases h
  | error e =>
    rw [readPage, hv] at h
    obtain ⟨t, ht, rfl⟩ | h := query_error h
    · exact .inr (.inr ⟨_, rfl, by simp, fun n _ => .database ht⟩)
    · unfold Wiki.read at h
      simp only [hv] at h
      split at h
      next hnone =>
        cases h
        exact .inr (.inl ⟨_, rfl, Option.map_eq_none_iff.1 hnone⟩)
      next info hinfo =>
        split at h
        · cases h
        next hcontent =>
          cases h
          exact .inr (.inr ⟨_, rfl, by simp, fun n hn => .unreadable hn hinfo hcontent⟩)

/-- What the request for an address is answered with. -/
def Site.Answered (site : Site) (env : Env) (s : Stores) (auth : Option Auth) (n : Named) (r : Response) : Prop :=
  Finds site s auth n r ∨ Withheld site env s auth n r

theorem Site.home_answered : site.Answered env w.stores auth .home (respond (site.home env w auth)) := by
  refine respond_cases (fun _ h => .inr (withheld_requireRead h)) fun _ _ => ?_
  refine respond_cases (fun _ h => .inr (withheld_query h)) fun recent h => ?_
  obtain rfl := Except.ok.inj (query_ok h)
  exact .inl .home

theorem Site.mePage_answered : site.Answered env w.stores auth .me (respond (mePage auth)) :=
  respond_cases (fun _ h => .inr (withheld_requireWriter (n := .me) trivial h)) fun _ h =>
    .inl (.me (requireWriter_ok h))

theorem Site.listActorsPage_answered :
    site.Answered env w.stores auth .actors (respond (site.listActorsPage env w auth)) := by
  refine respond_cases (fun _ h => .inr (withheld_requireRead h)) fun _ _ => ?_
  refine respond_cases (fun _ h => .inr (withheld_query h)) fun actors h => ?_
  obtain rfl := Except.ok.inj (query_ok h)
  exact .inl .actors

/-- The link to the search has no words. -/
theorem Site.searchPage_answered :
    site.Answered env w.stores auth .search (respond (site.searchPage env w auth none)) := by
  refine respond_cases (fun _ h => .inr (withheld_requireRead h)) fun _ _ => ?_
  have hnone : site.search env w.stores.db ((none : Option Text).getD []) 50 = .ok [] := if_pos rfl
  refine respond_cases (fun e h => ?_) fun hits h => ?_
  · rw [hnone] at h
    cases h
  · obtain rfl := Except.ok.inj (hnone.symm.trans h)
    exact .inl .search

theorem Site.historyPage_answered (hv : validatePath path = .ok ()) :
    site.Answered env w.stores auth (.history path) (respond (site.historyPage env w auth path)) := by
  refine respond_cases (fun _ h => .inr (withheld_requireRead h)) fun _ _ => ?_
  refine respond_cases (fun e h => ?_) fun _ _ => ?_
  · rw [hv] at h
    cases h
  · refine respond_cases (fun _ h => .inr (withheld_query h)) fun info h => ?_
    obtain rfl := Except.ok.inj (query_ok h)
    exact .inl .history

/-- The editor of a page that is there, or of one that is created. -/
theorem Site.viewPage_edit (hv : validatePath path = .ok ()) {q : ViewQuery} (hq : q.edit = some 1) :
    site.Answered env w.stores auth (.edit path) (respond (site.viewPage env w auth path q)) := by
  refine respond_cases (fun _ h => .inr (withheld_requireRead h)) fun _ _ => ?_
  simp only [if_pos hq]
  refine respond_cases (fun _ h => .inr (withheld_requireWriter (n := .edit path) trivial h)) fun a h => ?_
  have ha := requireWriter_ok h
  obtain ⟨page, hread, hstored⟩ | ⟨msg, hread, hnone⟩ | ⟨e, hread, hne, hwithheld⟩ :=
    site.readPage_cases env w.stores auth hv
  · rw [hread]
    exact .inl (.edit ha hstored)
  · rw [hread]
    exact .inl (.create ha hnone)
  · rw [hread]
    refine .inr ?_
    cases e with
    | notFound msg => exact absurd rfl (hne msg)
    | _ => exact hwithheld _ rfl

/-- The page, or its source, or the offer to create it. -/
theorem Site.viewPage_read (hv : validatePath path = .ok ()) {q : ViewQuery} (hq : q.edit ≠ some 1) :
    site.Answered env w.stores auth (if q.source = some 1 then .source path else .page path)
      (respond (site.viewPage env w auth path q)) := by
  refine respond_cases (fun _ h => .inr (withheld_requireRead h)) fun _ _ => ?_
  simp only [if_neg hq]
  obtain ⟨page, hread, hstored⟩ | ⟨msg, hread, hnone⟩ | ⟨e, hread, hne, hwithheld⟩ :=
    site.readPage_cases env w.stores auth hv
  · rw [hread]
    left
    simp only [respond, pure, Except.pure]
    split
    · exact .source hstored
    · exact .page hstored
  · rw [hread]
    left
    simp only [respond, pure, Except.pure]
    split
    · exact .noSource hnone
    · exact .missing hnone
  · rw [hread]
    refine .inr ?_
    cases e with
    | notFound msg => exact absurd rfl (hne msg)
    | _ =>
      refine hwithheld _ ?_
      split <;> rfl

theorem Site.logout_answered (req : Request) :
    site.Answered env w.stores auth .logout (site.logout env w req).1 := by
  left
  unfold logout
  simp only
  split
  · exact .logout
  · split <;> exact .logout

/-- What the router does with a `GET` or a `POST` that it has a handler for. -/
theorem Site.dispatch_endpoint {req : Request} {e : Endpoint} (h : req.endpoint = some e) (hm : req.method ≠ .head) :
    (site.dispatch env req w auth).1 = (site.runEndpoint env req w auth e).1 := by
  obtain ⟨route, hroute, hend⟩ := Option.bind_eq_some_iff.1 h
  rw [dispatch, hroute]
  simp only [hend, if_neg hm]

end

/-! ## Following a link -/

/-- Its handler only reads, or logs out. -/
def Named.Followed : Named → Prop
  | .main | .login | .save _ => False
  | _ => True

/-- A browser that follows the address, with whatever credentials it has, comes
to the handler of it; and where that is not a form with entries of its own, the
handler finds what the address is for, as the stores are then. -/
def Site.Serves (site : Site) (s : Stores) (n : Named) : Prop :=
  ∀ headers remoteAddr body, ∃ req, browse headers remoteAddr n.address body = some req ∧
    req.endpoint.isSome ∧ req.endpoint = n.endpoint ∧
    (n.Followed → ∀ env w auth, w.stores = s → site.Answered env s auth n (site.dispatch env req w auth).1)

section

variable {site : Site} {s : Stores}

theorem Site.serves_of {n : Named} {e : Endpoint} {target : Url.Target} (hn : n.endpoint = some e)
    (hr : Url.resolve n.address.2 = some target)
    (he : ((routeOf target.path).bind fun route => route.endpoint (formMethod n.address.1)) = some e)
    (hf : n.Followed → ∀ req env w auth, req.query = target.query →
      site.Answered env w.stores auth n (site.runEndpoint env req w auth e).1) : site.Serves s n := by
  intro headers remoteAddr body
  let req : Request :=
    { method := formMethod n.address.1, path := target.path, query := target.query, headers, body, remoteAddr }
  have hend : req.endpoint = some e := he
  have hmethod : req.method ≠ .head := by
    simp only [req, formMethod]
    split <;> simp
  have hbrowse : browse headers remoteAddr n.address body = some req := by
    rw [browse, hr]
    rfl
  refine ⟨req, hbrowse, Option.isSome_iff_exists.2 ⟨e, hend⟩, hend.trans hn.symm, ?_⟩
  rintro hfollowed env w auth rfl
  rw [Site.dispatch_endpoint hend hmethod]
  exact hf hfollowed req env w auth rfl

/-- The addresses that are constants. -/
theorem resolve_fixed {address : Text} (h : address ∈ ["/".toList, "/login".toList, "/logout".toList, "/search".toList,
    "/me".toList, "/actors".toList]) : Url.resolve address = some ⟨address, none⟩ := by
  have hall : ∀ t ∈ ["/".toList, "/login".toList, "/logout".toList, "/search".toList, "/me".toList, "/actors".toList],
      Url.resolve t = some ⟨t, none⟩ := by decide +kernel
  exact hall address h

theorem answer_answering (x : Except AppError Response) : answer (answering x) = respond x := by cases x <;> rfl

/-- The links to a page differ in the query. -/
theorem Site.serves_page {n : Named} {p : Text} (hv : validatePath p = .ok ()) (hn : n.endpoint = some (.viewPage p))
    (query : Option Text) (haddress : n.address = ("get".toList, Templates.wikiUrl p ++ Url.suffix query))
    (hquery : ∀ q ∈ query, q.all Url.queryChar = true) {q : ViewQuery}
    (hdecode : site.decoders.viewQuery (query.getD []) = .ok q)
    (hanswer : ∀ env w auth, site.Answered env w.stores auth n (respond (site.viewPage env w auth p q))) :
    site.Serves s n := by
  have hresolve : Url.resolve n.address.2 = some ⟨wikiRoute ++ p, query⟩ := by
    rw [haddress]
    exact resolve_wiki hv fun q hq => List.all_eq_true.1 (hquery q hq)
  have hend : ((routeOf (wikiRoute ++ p)).bind fun route => route.endpoint (formMethod n.address.1)) =
      some (.viewPage p) := by
    rw [routeOf_wiki (accepted_ne_nil hv), haddress]
    rfl
  refine Site.serves_of hn hresolve hend fun _ req env w auth hreq => ?_
  rw [Site.runEndpoint, onPath, pathParam_of_accepted hv]
  simp only [Request.queryText, hreq, hdecode, onQuery, answer_answering]
  exact hanswer env w auth

/-- **Every address of the templates is served**, but the one that stays in
the page. -/
theorem Named.served (hd : site.decoders = .urlencoded) {n : Named} (hn : n ≠ .main)
    (hv : ∀ p ∈ n.path, validatePath p = .ok ()) : site.Serves s n := by
  have hdecode : site.decoders.viewQuery = decodeViewQuery := by
    rw [hd]
    rfl
  cases n with
  | main => exact absurd rfl hn
  | home => exact Site.serves_of rfl (resolve_fixed (by decide)) rfl fun _ _ _ _ _ _ => Site.home_answered
  | loginForm => exact Site.serves_of rfl (resolve_fixed (by decide)) rfl fun _ _ _ _ _ _ => .inl .loginForm
  | search =>
    refine Site.serves_of rfl (resolve_fixed (by decide)) rfl fun _ req env w auth hquery => ?_
    have hdecode : site.decoders.searchQuery req.queryText = .ok none := by
      rw [Request.queryText, hquery, hd]
      rfl
    rw [Site.runEndpoint, hdecode, onQuery, answer_answering]
    exact Site.searchPage_answered
  | me => exact Site.serves_of rfl (resolve_fixed (by decide)) rfl fun _ _ _ _ _ _ => Site.mePage_answered
  | actors => exact Site.serves_of rfl (resolve_fixed (by decide)) rfl fun _ _ _ _ _ _ => Site.listActorsPage_answered
  | page p =>
    refine Site.serves_page (hv p rfl) rfl none (by rw [Url.suffix, List.append_nil]; rfl) (by simp)
      (congrFun hdecode []) fun env w auth => ?_
    exact Site.viewPage_read (hv p rfl) (q := ⟨none, none⟩) (by simp)
  | source p =>
    refine Site.serves_page (hv p rfl) rfl (some "source=1".toList) rfl (by decide)
      ((congrFun hdecode _).trans decodeViewQuery_source) fun env w auth => ?_
    exact Site.viewPage_read (hv p rfl) (q := ⟨none, some 1⟩) (by simp)
  | edit p =>
    refine Site.serves_page (hv p rfl) rfl (some "edit=1".toList) rfl (by decide)
      ((congrFun hdecode _).trans decodeViewQuery_edit) fun env w auth => ?_
    exact Site.viewPage_edit (hv p rfl) rfl
  | history p =>
    have hp := hv p rfl
    have hend : ((routeOf (wikiHistoryRoute ++ p)).bind fun route =>
        route.endpoint (formMethod (Named.history p).address.1)) = some (.historyPage p) := by
      rw [routeOf_wikiHistory (accepted_ne_nil hp)]
      rfl
    refine Site.serves_of rfl (resolve_wikiHistory hp) hend fun _ req env w auth hquery => ?_
    rw [Site.runEndpoint, onPath, pathParam_of_accepted hp]
    simp only [answer_answering]
    exact Site.historyPage_answered hp
  | login => exact Site.serves_of rfl (resolve_fixed (by decide)) rfl fun hf => hf.elim
  | logout => exact Site.serves_of rfl (resolve_fixed (by decide)) rfl fun _ req _ _ _ _ => Site.logout_answered req
  | save p =>
    have hp := hv p rfl
    have hresolve : Url.resolve (Templates.wikiUrl p ++ Url.suffix none) = some ⟨wikiRoute ++ p, none⟩ :=
      resolve_wiki hp (by simp)
    rw [Url.suffix, List.append_nil] at hresolve
    have hend : ((routeOf (wikiRoute ++ p)).bind fun route => route.endpoint (formMethod (Named.save p).address.1)) =
        some (.savePage p) := by
      rw [routeOf_wiki (accepted_ne_nil hp)]
      rfl
    exact Site.serves_of rfl hresolve hend fun hf => hf.elim

end

end Wikikiki
