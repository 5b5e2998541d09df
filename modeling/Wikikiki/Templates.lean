/-
The pages of the wiki (web/templates.rs): for each view the document that
`html!` builds, with the texts of the view in it.

A page is built of pieces that keep a policy, so there is none with a script
in it, with a handler of an event, or with a link of its own that leaves the
wiki. Markdown is rendered by a library, with the options that
`render_markdown` sets; it and the formats of a time are parameters
(`Renderer`), and so is the stylesheet, a long constant of the source.
-/
import Wikikiki.Heading
import Wikikiki.Http
import Wikikiki.Lib.Markup
import Wikikiki.Lib.Url
import Wikikiki.Snippet

namespace Wikikiki

open Markup (Attr Mode Piece)

/-- `ComrakOptions`, as far as the wiki sets them; `unsafe_` lets raw HTML and
dangerous links through. -/
structure ComrakOptions where
  strikethrough : Bool := false
  table : Bool := false
  autolink : Bool := false
  tasklist : Bool := false
  footnotes : Bool := false
  unsafe_ : Bool := false

/-- The libraries that the templates call, and the stylesheet. A time out of
the range of a format has none. -/
structure Renderer where
  /-- `markdown_to_html` -/
  markdown : ComrakOptions → Text → Text
  format : Int → Option Text
  rfc3339 : Int → Option Text
  styles : Text

/-- The options of `render_markdown`. -/
def ComrakOptions.wiki : ComrakOptions where
  strikethrough := true
  table := true
  autolink := true
  tasklist := true
  footnotes := true
  unsafe_ := false

/-- `render_markdown`. -/
def Renderer.renderMarkdown (r : Renderer) (src : Text) : Text := r.markdown .wiki src

def Surface.asStr : Surface → Text
  | .ui => "ui".toList
  | .api => "api".toList
  | .mcp => "mcp".toList

/-- The markdown that a view shows. -/
def View.markdown : View → List Text
  | .viewPage _ page => [bodyAfterTitle page.content page.info.title]
  | _ => []

namespace Templates

/-! ## What a page may hold -/

/-- The elements of the templates. -/
inductive Tag where
  | html | head | meta_ | title | style | body | a | header | nav | main | footer | section_ | article | div | span
  | p | h1 | h2 | ul | ol | li | dl | dt | dd | code | strong | mark | time | form | label | input | textarea | button
  deriving DecidableEq

def Tag.name : Tag → Text
  | html => "html".toList
  | head => "head".toList
  | meta_ => "meta".toList
  | title => "title".toList
  | style => "style".toList
  | body => "body".toList
  | a => "a".toList
  | header => "header".toList
  | nav => "nav".toList
  | main => "main".toList
  | footer => "footer".toList
  | section_ => "section".toList
  | article => "article".toList
  | div => "div".toList
  | span => "span".toList
  | p => "p".toList
  | h1 => "h1".toList
  | h2 => "h2".toList
  | ul => "ul".toList
  | ol => "ol".toList
  | li => "li".toList
  | dl => "dl".toList
  | dt => "dt".toList
  | dd => "dd".toList
  | code => "code".toList
  | strong => "strong".toList
  | mark => "mark".toList
  | time => "time".toList
  | form => "form".toList
  | label => "label".toList
  | input => "input".toList
  | textarea => "textarea".toList
  | button => "button".toList

/-- Their attributes. -/
inductive Key where
  | class_ | id | lang | charset | name | content | title | ariaHidden | ariaLabel | role | datetime | method | type
  | value | placeholder | autocomplete | autocapitalize | spellcheck | required | autofocus | rows | target | rel
  | href | action
  deriving DecidableEq

def Key.text : Key → Text
  | class_ => "class".toList
  | id => "id".toList
  | lang => "lang".toList
  | charset => "charset".toList
  | name => "name".toList
  | content => "content".toList
  | title => "title".toList
  | ariaHidden => "aria-hidden".toList
  | ariaLabel => "aria-label".toList
  | role => "role".toList
  | datetime => "datetime".toList
  | method => "method".toList
  | type => "type".toList
  | value => "value".toList
  | placeholder => "placeholder".toList
  | autocomplete => "autocomplete".toList
  | autocapitalize => "autocapitalize".toList
  | spellcheck => "spellcheck".toList
  | required => "required".toList
  | autofocus => "autofocus".toList
  | rows => "rows".toList
  | target => "target".toList
  | rel => "rel".toList
  | href => "href".toList
  | action => "action".toList

/-- An attribute as a template has it. -/
structure Field where
  key : Key
  value : Option Text

def Field.attr (f : Field) : Attr := ⟨f.key.text, f.value⟩

/-- An address of the wiki itself: a path, and not one that names a host, or a
place in the page. -/
def isLocal : Text → Bool
  | '/' :: c :: _ => !(['/', '\\', '\t', '\n', '\r'].contains c)
  | ['/'] => true
  | '#' :: _ => true
  | _ => false

def Field.keeps (f : Field) : Bool :=
  match f.key with
  | .href | .action => f.value.any isLocal
  | _ => true

def Tag.all : List Tag :=
  [.html, .head, .meta_, .title, .style, .body, .a, .header, .nav, .main, .footer, .section_, .article, .div, .span,
    .p, .h1, .h2, .ul, .ol, .li, .dl, .dt, .dd, .code, .strong, .mark, .time, .form, .label, .input, .textarea, .button]

def Key.all : List Key :=
  [.class_, .id, .lang, .charset, .name, .content, .title, .ariaHidden, .ariaLabel, .role, .datetime, .method, .type,
    .value, .placeholder, .autocomplete, .autocapitalize, .spellcheck, .required, .autofocus, .rows, .target, .rel,
    .href, .action]

/-- The policy of a page: only these elements and attributes, and no address
that leads away. -/
def policy (name : Text) (attrs : List Attr) : Bool :=
  Tag.all.any (fun t => t.name = name) &&
    attrs.all fun a => Key.all.any fun k => k.text = a.name && Field.keeps ⟨k, a.value⟩

/-- The attributes are different ones, and they keep the policy. -/
def fieldsOk (fields : List Field) : Bool := decide (fields.map Field.key).Nodup && fields.all Field.keeps

/-- An element that is closed. -/
def Tag.closes : Tag → Bool
  | .meta_ | .input => false
  | _ => true

theorem Tag.mem_all (t : Tag) : t ∈ Tag.all := by cases t <;> decide

theorem Key.mem_all (k : Key) : k ∈ Key.all := by cases k <;> decide

theorem Key.text_injective : Function.Injective Key.text := by
  have hnodup : (Key.all.map Key.text).Nodup := by decide +kernel
  exact fun k l h => List.inj_on_of_nodup_map hnodup k.mem_all l.mem_all h

theorem isAttrs_of_fieldsOk {fields : List Field} (h : fieldsOk fields = true) :
    Markup.isAttrs (fields.map Field.attr) = true := by
  have hnodup := of_decide_eq_true (Bool.and_eq_true_iff.1 h).1
  have hnames : ∀ k : Key, Markup.isName k.text = true := by intro k; cases k <;> rfl
  refine Bool.and_eq_true_iff.2 ⟨?_, decide_eq_true ?_⟩
  · simp [Field.attr, hnames]
  · have hmap : (fields.map Field.attr).map Attr.name = (fields.map Field.key).map Key.text := by simp [Field.attr]
    rw [hmap]
    exact hnodup.map Key.text_injective

theorem policy_of_fieldsOk (t : Tag) {fields : List Field} (h : fieldsOk fields = true) :
    policy t.name (fields.map Field.attr) = true := by
  have hkeeps := List.all_eq_true.1 (Bool.and_eq_true_iff.1 h).2
  refine Bool.and_eq_true_iff.2 ⟨List.any_eq_true.2 ⟨t, t.mem_all, decide_eq_true rfl⟩, List.all_eq_true.2 ?_⟩
  rintro _ ha
  obtain ⟨f, hf, rfl⟩ := List.mem_map.1 ha
  exact List.any_eq_true.2 ⟨f.key, f.key.mem_all, Bool.and_eq_true_iff.2 ⟨decide_eq_true rfl, hkeeps f hf⟩⟩

theorem allows_of_fieldsOk {t : Tag} (ht : t.closes = true) {fields : List Field} (h : fieldsOk fields = true) :
    Piece.allows policy t.name (fields.map Field.attr) = true := by
  have hname : Markup.isName t.name = true ∧ Markup.voidNames.contains t.name = false := by
    cases t <;> first | exact ⟨rfl, rfl⟩ | cases ht
  rw [Piece.allows, hname.1, hname.2, isAttrs_of_fieldsOk h, policy_of_fieldsOk t h]
  rfl

/-- What the templates write as it is: the stylesheet, and what the library
makes of the markdown that is shown. -/
inductive Trusted (r : Renderer) (shown : List Text) : Mode → Text → Prop
  | styles : Trusted r shown (.rawtext "style".toList) r.styles
  | markdown {src : Text} (h : src ∈ shown) : Trusted r shown .data (r.renderMarkdown src)

end Templates

/-- `Markup`, with the markdown that is shown in it. -/
abbrev Html (r : Renderer) (shown : List Text) := Piece Templates.policy (Templates.Trusted r shown)

namespace Templates

variable {r : Renderer} {shown : List Text}

/-! ## Markup as `html!` writes it -/

def attr (key : Key) (value : Text) : Field := ⟨key, some value⟩

/-- An attribute without a value. -/
def flag (key : Key) : Field := ⟨key, none⟩

def cls (c : String) : Field := attr .class_ c.toList

theorem contentOf_name {t : Tag} (h : t ∉ [Tag.title, .style, .textarea]) : Markup.contentOf t.name = some .data := by
  cases t <;> first | rfl | simp at h

/-- An element with other elements in it. -/
def el (t : Tag) (fields : List Field) (body : Html r shown) (h : fieldsOk fields = true := by exact id rfl)
    (ht : t.closes = true := by exact id rfl) (hm : t ∉ [Tag.title, .style, .textarea] := by decide) : Html r shown :=
  .element t.name (fields.map Field.attr) body (allows_of_fieldsOk ht h) (contentOf_name hm)

def void (t : Tag) (fields : List Field) (h : fieldsOk fields = true := by exact id rfl)
    (ht : t.closes = false := by exact id rfl) : Html r shown :=
  .void t.name (fields.map Field.attr) <| by
    have hname : Markup.isName t.name = true ∧ Markup.voidNames.contains t.name = true ∧
        Markup.contentOf t.name = some .data := by
      cases t <;> first | exact ⟨rfl, rfl, rfl⟩ | cases ht
    rw [Markup.Doc.check, hname.1, hname.2.1, hname.2.2, isAttrs_of_fieldsOk h, policy_of_fieldsOk t h]
    rfl

def text (t : Text) : Html r shown := .text t

def str (s : String) : Html r shown := .text s.toList

def nothing : Html r shown := .empty

/-! ## Formatting helpers -/

/-- `short_oid`. -/
def shortOid (oid : Text) : Text := oid.take 8

/-- `fmt_time`. -/
def fmtTime (r : Renderer) (unixTs : Int) : Text := (r.format unixTs).getD (toString unixTs).toList

/-- `iso_time`. -/
def isoTime (r : Renderer) (unixTs : Int) : Text := (r.rfc3339 unixTs).getD (toString unixTs).toList

/-- `rel_time`; no branch divides a negative number. -/
def relTime (r : Renderer) (now unixTs : Int) : Text :=
  let delta := now - unixTs
  if delta < -60 then fmtTime r unixTs
  else if delta < 45 then "just now".toList
  else if delta < 3600 then (toString ((delta + 30) / 60)).toList ++ "m ago".toList
  else if delta < 86400 then (toString (delta / 3600)).toList ++ "h ago".toList
  else if delta < 2592000 then (toString (delta / 86400)).toList ++ "d ago".toList
  else fmtTime r unixTs

/-! ## Shared pieces -/

/-- `actor_chip`. -/
def actorChip (handle : Text) (actorType : Option Text) : Html r shown :=
  let ty := actorType.getD "unknown".toList
  el .span [attr .class_ ("actor actor--".toList ++ ty)] <|
    el .span [cls "actor__dot", attr .ariaHidden "true".toList] nothing ++
    el .span [cls "actor__handle"] (text handle) ++
    el .span [cls "actor__type"] (text ty)

/-- `layer_chip`. -/
def layerChip (layer : Text) : Html r shown :=
  el .span [attr .class_ ("chip chip--".toList ++ layer), attr .title ("memory layer: ".toList ++ layer)]
    (text layer)

def dotSep : Html r shown := el .span [cls "dot-sep", attr .ariaHidden "true".toList] (str "·")

def time (now unixTs : Int) : Html r shown :=
  el .time [attr .datetime (isoTime r unixTs)] (text (relTime r now unixTs))

/-- `attribution`. -/
def attribution (now : Int) (info : PageMeta) : Html r shown :=
  match info.lastEditHandle with
  | none => nothing
  | some handle =>
    el .span [cls "attribution"] <|
      el .span [cls "attribution__label"] (str "edited by") ++
      actorChip handle info.lastEditType ++
      match info.lastEditAt with
      | none => nothing
      | some unixTs => dotSep ++ time now unixTs

/-- The end of the navigation: who is logged in, or the way to do it. -/
def account : Option Auth → Html r shown
  | some a =>
    el .a [cls "nav__me", attr .href "/me".toList] (actorChip a.actor.handle (some a.actor.actorType)) ++
    el .form [cls "inline-form", attr .method "post".toList, attr .action "/logout".toList]
      (el .button [cls "btn btn--ghost btn--sm", attr .type "submit".toList] (str "Log out"))
  | none => el .a [cls "btn btn--sm", attr .href "/login".toList] (str "Log in")

/-- `layout`. -/
def layout (title : Text) (auth : Option Auth) (body : Html r shown) : Html r shown :=
  .doctype ++
  el .html [attr .lang "en".toList] (
    el .head [] (
      void .meta_ [attr .charset "utf-8".toList] ++
      void .meta_ [attr .name "viewport".toList, attr .content "width=device-width, initial-scale=1".toList] ++
      void .meta_ [attr .name "color-scheme".toList, attr .content "light dark".toList] ++
      .plain Tag.title.name [] (title ++ " · wikikiki".toList) (id rfl) (id rfl) ++
      .verbatim Tag.style.name [] r.styles (id rfl) (id rfl) (id .styles)) ++
    el .body [] (
      el .a [cls "skip-link", attr .href "#main".toList] (str "Skip to content") ++
      el .header [cls "topbar"] (
        el .a [cls "brand", attr .href "/".toList] (
          el .span [cls "brand__mark", attr .ariaHidden "true".toList] nothing ++
          el .span [cls "brand__name"] (str "wikikiki")) ++
        el .nav [cls "nav", attr .ariaLabel "Main".toList] (
          el .a [cls "nav__link", attr .href "/".toList] (str "Pages") ++
          el .a [cls "nav__link", attr .href "/search".toList] (str "Search") ++
          el .a [cls "nav__link", attr .href "/actors".toList] (str "Actors") ++
          account auth)) ++
      el .main [attr .id "main".toList] body ++
      el .footer [cls "footer"] (el .span [] (str "wikikiki — the wiki is the memory."))))

/-- `wiki_url`. -/
def wikiUrl (path : Text) : Text := "/wiki/".toList ++ path

/-- `wiki_edit_url`. -/
def wikiEditUrl (path : Text) : Text := "/wiki/".toList ++ path ++ "?edit=1".toList

/-- `wiki_source_url`. -/
def wikiSourceUrl (path : Text) : Text := "/wiki/".toList ++ path ++ "?source=1".toList

/-- `wiki_history_url`. -/
def wikiHistoryUrl (path : Text) : Text := "/wiki-history/".toList ++ path

/-- `render_snippet`, as a piece. -/
def snippet (raw : Text) : Html r shown :=
  .each (fun n =>
    match n with
    | .text t => text t
    | .element _ t => el .mark [] (text t)) (snippetNodes raw)

/-- It is written as `render_snippet` writes it. -/
theorem snippet_html (raw : Text) : (snippet raw : Html r shown).html = renderSnippet raw := by
  have honly := snippetNodes_only raw
  unfold snippet renderSnippet
  generalize snippetNodes raw = nodes at honly ⊢
  induction nodes with
  | nil => rfl
  | cons n nodes ih =>
    have hrest := ih fun m hm => honly m (.tail _ hm)
    have hn := honly n (.head _)
    cases n with
    | text t => exact congrArg (Html.escape t ++ ·) hrest
    | element name t =>
      obtain rfl : name = mark := hn
      exact congrArg (_ ++ ·) hrest

/-! ## Views -/

section

variable (now : Int) (auth : Option Auth)

def recentItem (p : PageMeta) : Html r shown :=
  el .li [cls "page-list__item"] <|
    el .a [cls "page-list__link", attr .href (wikiUrl p.path)] (
      el .span [cls "page-list__title"] (text p.title) ++
      el .span [cls "page-list__path"] (text p.path)) ++
    el .div [cls "page-list__meta"] (layerChip p.layer ++ attribution now p)

/-- `home`. -/
def home (recent : List PageMeta) : Html r shown :=
  layout "Pages".toList auth <|
    el .section_ [cls "hero"] (
      el .h1 [cls "hero__title"] (str "The wiki is the memory.") ++
      el .p [cls "hero__lede"] (str ("Shared, attributed working memory for humans, agents and system " ++
        "processes. Every write carries an actor; every change is recoverable."))) ++
    el .section_ [cls "panel"] (
      el .div [cls "panel__head"] (
        el .h2 [cls "panel__title"] (str "Recently touched") ++
        if recent.isEmpty then nothing
        else el .span [cls "panel__count"] (text (toString recent.length).toList ++ str " pages")) ++
      if recent.isEmpty then
        el .div [cls "empty"] (
          el .p [cls "empty__title"] (str "Nothing here yet.") ++
          el .p [cls "empty__body"] (
            str "The substrate is empty. " ++
            if auth.isSome then
              el .a [attr .href (wikiEditUrl "welcome".toList)] (str "Write the first page") ++
              str " — or point an agent at the REST API."
            else
              el .a [attr .href "/login".toList] (str "Log in") ++
              str " to write the first page."))
      else el .ul [cls "page-list"] (.each (recentItem now) recent))

/-- `login`. -/
def login (error : Option Text) : Html r shown :=
  layout "Log in".toList auth <|
    el .div [cls "narrow"] <|
      el .h1 [] (str "Log in") ++
      (match error with
      | some e => el .div [cls "alert alert--error", attr .role "alert".toList] (text e)
      | none => nothing) ++
      el .form [cls "form card", attr .method "post".toList, attr .action "/login".toList] (
        el .label [cls "field"] (
          el .span [cls "field__label"] (str "Handle") ++
          void .input [cls "input", attr .type "text".toList, attr .name "handle".toList,
            attr .autocomplete "username".toList, attr .autocapitalize "none".toList,
            attr .spellcheck "false".toList, flag .required, flag .autofocus]) ++
        el .label [cls "field"] (
          el .span [cls "field__label"] (str "Password") ++
          void .input [cls "input", attr .type "password".toList, attr .name "password".toList,
            attr .autocomplete "current-password".toList, flag .required]) ++
        el .button [cls "btn btn--block", attr .type "submit".toList] (str "Log in")) ++
      el .p [cls "hint"] (
        str ("Agents authenticate with bearer tokens against the REST API. " ++
          "Tokens are issued by an admin with ") ++
        el .code [] (str "wikikiki issue-token") ++
        str ".")

/-- `view_page`. -/
def viewPage (page : Page) : Html r [bodyAfterTitle page.content page.info.title] :=
  layout page.info.title auth <|
    el .article [cls "page"] <|
      el .header [cls "page__head"] (
        el .div [cls "page__crumbs"] (
          layerChip page.info.layer ++
          el .span [cls "path"] (text page.info.path)) ++
        el .h1 [cls "page__title"] (text page.info.title) ++
        el .div [cls "page__byline"] (attribution now page.info) ++
        el .div [cls "page__actions"] (
          (if auth.isSome then el .a [cls "btn btn--sm", attr .href (wikiEditUrl page.info.path)] (str "Edit")
            else nothing) ++
          el .a [cls "btn btn--ghost btn--sm", attr .href (wikiHistoryUrl page.info.path)] (str "History") ++
          el .a [cls "btn btn--ghost btn--sm", attr .href (wikiSourceUrl page.info.path)] (str "Source"))) ++
      el .div [cls "prose"] (.raw (r.renderMarkdown (bodyAfterTitle page.content page.info.title))
        (.markdown (List.mem_singleton_self _)))

def conflictAlert (pagePath reason : Text) : Html r shown :=
  el .div [cls "alert alert--warn", attr .role "alert".toList] <|
    el .strong [] (str "This page changed while you were editing.") ++
    str " " ++ text reason ++ str "." ++
    el .p [cls "alert__detail"] (
      str "Your text is still below, and the form now points at the current version. " ++
      el .a [attr .href (wikiUrl pagePath), attr .target "_blank".toList, attr .rel "noopener".toList]
        (str "Open the current page in a new tab") ++
      str " to compare before saving over it.")

/-- `edit_page`, from the form. -/
def editPage (form : EditForm) : Html r shown :=
  layout "Edit".toList auth <|
    (match form.conflict with
    | some reason => conflictAlert form.pagePath reason
    | none => nothing) ++
    el .form [cls "editor", attr .method "post".toList, attr .action (wikiUrl form.pagePath)] (
      el .header [cls "editor__head"] (
        el .div [cls "editor__ident"] (
          el .span [cls "eyebrow"] (if form.isNew then str "New page" else str "Editing") ++
          el .h1 [cls "editor__title"] (text form.title) ++
          el .span [cls "path"] (text form.pagePath)) ++
        el .div [cls "editor__actions"] (
          el .a [cls "btn btn--ghost btn--sm", attr .href (wikiUrl form.pagePath)] (str "Cancel") ++
          el .button [cls "btn btn--sm", attr .type "submit".toList] (str "Save"))) ++
      void .input [attr .type "hidden".toList, attr .name "layer".toList, attr .value form.layer] ++
      void .input [attr .type "hidden".toList, attr .name "revision".toList, attr .value form.revision] ++
      el .label [cls "field"] (
        el .span [cls "field__label"] (str "Summary") ++
        void .input [cls "input", attr .type "text".toList, attr .name "summary".toList,
          attr .placeholder "what changed, and why".toList, attr .autocomplete "off".toList]) ++
      el .label [cls "field field--grow"] (
        el .span [cls "field__label"] (
          str "Markdown source" ++
          el .span [cls "field__note"] (str "what you see here is what gets saved")) ++
        .plain Tag.textarea.name ([cls "textarea", attr .name "content".toList, attr .rows "26".toList,
          attr .spellcheck "false".toList, flag .autofocus].map Field.attr) form.content
          (allows_of_fieldsOk rfl rfl) rfl))

/-- `missing_page`. -/
def missingPage (pagePath : Text) : Html r shown :=
  layout "Not found".toList auth <|
    el .div [cls "narrow"] <|
      el .div [cls "empty empty--tall"] <|
        el .p [cls "empty__title"] (str "No page here yet") ++
        el .p [cls "empty__body"] (el .code [cls "path"] (text pagePath)) ++
        if auth.isSome then el .a [cls "btn", attr .href (wikiEditUrl pagePath)] (str "Create this page")
        else el .p [cls "hint"] (el .a [attr .href "/login".toList] (str "Log in") ++ str " to create it.")

/-- The chip of `commit_author_chip`. -/
def authorChip (authorName : Text) : Html r shown :=
  let (handle, actorType) := commitAuthorChip authorName
  actorChip handle actorType

def commitItem (c : CommitInfo) : Html r shown :=
  el .li [cls "timeline__item"] <|
    el .div [cls "timeline__marker", attr .ariaHidden "true".toList] nothing ++
    el .div [cls "timeline__body"] (
      el .div [cls "timeline__msg"] (text c.message) ++
      el .div [cls "timeline__meta"] (
        authorChip c.authorName ++ dotSep ++ time now c.time ++ dotSep ++
        el .code [cls "oid"] (text (shortOid c.oid))))

/-- `history`. -/
def history (pagePath : Text) (info : Option PageMeta) (commits : List CommitInfo) : Html r shown :=
  let title := (info.map (·.title)).getD pagePath
  layout "History".toList auth <|
    el .header [cls "page__head"] (
      el .div [cls "page__crumbs"]
        (el .a [cls "back", attr .href (wikiUrl pagePath)] (str "← " ++ text title)) ++
      el .h1 [cls "page__title"] (str "History") ++
      el .span [cls "path"] (text pagePath)) ++
    if commits.isEmpty then
      el .div [cls "empty"] (el .p [cls "empty__title"] (str "No commits recorded for this page."))
    else el .ol [cls "timeline"] (.each (commitItem now) commits)

def hitItem (h : SearchHit) : Html r shown :=
  el .li [cls "results__item"] <|
    el .a [cls "results__link", attr .href (wikiUrl h.path)] (text h.title) ++
    el .span [cls "path"] (text h.path) ++
    el .p [cls "results__snippet"] (snippet h.snippet)

/-- `search`. -/
def search (query : Text) (hits : List SearchHit) : Html r shown :=
  layout "Search".toList auth <|
    el .div [cls "search-head"] (
      el .h1 [] (str "Search") ++
      el .form [cls "search-form", attr .method "get".toList, attr .action "/search".toList,
          attr .role "search".toList] (
        void .input [cls "input input--lg", attr .type "text".toList, attr .name "q".toList, attr .value query,
          attr .placeholder "search every layer…".toList, attr .autocomplete "off".toList,
          attr .spellcheck "false".toList, flag .autofocus] ++
        el .button [cls "btn", attr .type "submit".toList] (str "Search"))) ++
    if Text.trim query = [] then
      el .p [cls "hint"] (str "Each word is matched as a prefix, across titles and page bodies.")
    else if hits.isEmpty then
      el .div [cls "empty"] (
        el .p [cls "empty__title"] (str "No matches") ++
        el .p [cls "empty__body"] (str "Nothing indexed matches " ++ el .code [] (text query) ++ str "."))
    else
      el .p [cls "hint"] (text (toString hits.length).toList ++
        if hits.length = 1 then str " result" else str " results") ++
      el .ul [cls "results"] (.each hitItem hits)

/-- `me`. -/
def me (auth : Auth) : Html r shown :=
  layout "Me".toList (some auth) <|
    el .div [cls "narrow"] <|
      el .h1 [] (str "You are " ++ text auth.actor.handle) ++
      el .div [cls "card card--pad"] (
        el .dl [cls "deflist"] (
          el .dt [] (str "Identity") ++
          el .dd [] (actorChip auth.actor.handle (some auth.actor.actorType)) ++
          el .dt [] (str "Name") ++
          el .dd [] (text auth.actor.name) ++
          el .dt [] (str "Capability") ++
          el .dd [] (
            if auth.actor.isAdmin then el .span [cls "chip chip--admin"] (str "admin")
            else el .span [cls "muted"] (str "standard")) ++
          el .dt [] (str "Surface") ++
          el .dd [] (el .code [] (text auth.surface.asStr)))) ++
      el .p [cls "hint"] (str "Token management and profile pages land in a later stage.")

def actorItem (a : Actor) : Html r shown :=
  el .li [cls "actor-list__item"] <|
    actorChip a.handle (some a.actorType) ++
    el .span [cls "actor-list__name"] (text a.name) ++
    el .span [cls "actor-list__status"] (
      if !a.isActive then el .span [cls "chip chip--revoked"] (str "revoked")
      else if a.isAdmin then el .span [cls "chip chip--admin"] (str "admin")
      else el .span [cls "muted"] (str "active"))

/-- `actors_list`. -/
def actorsList (actors : List Actor) : Html r shown :=
  layout "Actors".toList auth <|
    el .header [cls "page__head"] (
      el .h1 [cls "page__title"] (str "Actors") ++
      el .p [cls "hint"] (str ("Everything that reads or writes is an actor. Type is fixed at " ++
        "issuance and cannot be changed through any surface."))) ++
    if actors.isEmpty then
      el .div [cls "empty"] (
        el .p [cls "empty__title"] (str "No actors yet") ++
        el .p [cls "empty__body"]
          (str "Run " ++ el .code [] (str "wikikiki bootstrap") ++ str " to create the first admin."))
    else el .ul [cls "actor-list"] (.each actorItem actors)

end

/-- A view as a page. -/
def page (now : Int) : (view : View) → Html r view.markdown
  | .home auth recent => home now auth recent
  | .login auth error => login auth error
  | .viewPage auth p => viewPage now auth p
  | .editPage auth form => editPage auth form
  | .missingPage auth pagePath => missingPage auth pagePath
  | .history auth pagePath info commits => history now auth pagePath info commits
  | .search auth query hits => search auth query hits
  | .me auth => me auth
  | .actorsList auth actors => actorsList auth actors

/-! ## What a browser makes of a page -/

/-- The elements that run something, or bring in something that runs. -/
def activeElements : List Text :=
  ["script".toList, "iframe".toList, "frame".toList, "object".toList, "embed".toList, "applet".toList, "base".toList,
    "link".toList, "svg".toList, "math".toList]

def activeAttributes : List Text :=
  ["style".toList, "srcdoc".toList, "srcset".toList, "formaction".toList, "http-equiv".toList]

/-- The address is a program, as a browser reads it. -/
def IsProgram (address : Text) : Prop :=
  ∃ scheme ∈ ["javascript:".toList, "vbscript:".toList], scheme <+: (Url.clean address).map Char.toLower

/-- A browser looks for the address in the page, or asks the wiki for it. -/
def Stays (address : Text) : Prop := (Url.clean address).head? = some '#' ∨ (Url.resolve address).isSome = true

instance (address : Text) : Decidable (Stays address) := inferInstanceAs (Decidable (_ ∨ _))

def addresses : List Text := ["href".toList, "action".toList, "src".toList]

/-- A tag that runs nothing, and sends nothing to anybody else. -/
structure Inert (name : Text) (attrs : List (Text × Text)) : Prop where
  element : name ∉ activeElements
  handler : ∀ a ∈ attrs, ¬ "on".toList <+: a.1
  active : ∀ a ∈ attrs, a.1 ∉ activeAttributes
  address : ∀ a ∈ attrs, a.1 ∈ addresses → ¬ IsProgram a.2
  form : ∀ a ∈ attrs, a.1 = "action".toList → Stays a.2

/-- What the pages rely on the library for, where it lets nothing through:
complete markup, and no tag in it that runs something or is a form. A link of
markdown may lead anywhere. -/
structure Safe (r : Renderer) : Prop where
  closed : ∀ opts src, opts.unsafe_ = false → Markup.Closed .data (r.markdown opts src)
  inert : ∀ opts src name attrs, opts.unsafe_ = false →
    .opened name attrs ∈ (Markup.run (.content .data) (r.markdown opts src)).2 → Inert name attrs
  styles : '<' ∉ r.styles

theorem Stays.not_isProgram {address : Text} (h : Stays address) : ¬ IsProgram address := by
  obtain ⟨c, rest, hclean, hc⟩ : ∃ c rest, Url.clean address = c :: rest ∧ (c = '#' ∨ c = '/' ∨ c = '\\') := by
    rcases h with h | h
    · cases hclean : Url.clean address with
      | nil => simp [hclean] at h
      | cons c rest =>
        rw [hclean] at h
        exact ⟨c, rest, rfl, .inl (Option.some.inj h)⟩
    · obtain ⟨c, rest, hclean, hc⟩ := Url.clean_of_resolve h
      exact ⟨c, rest, hclean, .inr hc⟩
  intro hp
  obtain ⟨scheme, hs, hp⟩ := hp
  rw [hclean, List.map_cons] at hp
  rcases List.mem_pair.1 hs with rfl | rfl <;>
    · have hfirst := (List.cons_prefix_cons.1 hp).1
      rcases hc with rfl | rfl | rfl <;> exact absurd hfirst (by decide)

/-- The addresses of the policy stay with the wiki. -/
theorem stays_of_isLocal {v : Text} (h : isLocal v = true) : Stays (v.map Markup.scalar) := by
  unfold isLocal at h
  split at h
  next c t =>
    have hscalar : Markup.scalar c ∉ ['/', '\\', '\t', '\n', '\r'] := by
      unfold Markup.scalar
      split
      · decide
      · simpa using h
    have hspace : Markup.scalar c ∉ ['\t', '\n', '\r'] := fun hm =>
      hscalar (.tail _ (.tail _ hm))
    have hslash : Markup.scalar c ≠ '/' := fun he => hscalar (he ▸ .head _)
    have hback : Markup.scalar c ≠ '\\' := fun he => hscalar (he ▸ .tail _ (.head _))
    have hfirst : Markup.scalar '/' = '/' := by decide
    rw [List.map_cons, List.map_cons, hfirst]
    obtain ⟨rest, hclean, hrest⟩ := Url.clean_cons (c := '/') (t := Markup.scalar c :: t.map Markup.scalar) (by decide)
    refine .inr (Url.isSome_resolve hclean ?_ ?_)
    · rcases hrest _ rfl hspace with rfl | hhead
      · simp
      · simpa [hhead] using hslash
    · rcases hrest _ rfl hspace with rfl | hhead
      · simp
      · simpa [hhead] using hback
  · decide
  next t =>
    have hfirst : Markup.scalar '#' = '#' := by decide
    obtain ⟨rest, hclean, -⟩ := Url.clean_cons (c := '#') (t := t.map Markup.scalar) (by decide)
    rw [List.map_cons, hfirst]
    exact .inl (by rw [hclean]; rfl)
  · cases h

/-- What keeps the policy runs nothing, and leads nowhere else. -/
theorem inert_of_policy {name : Text} {attrs : List Attr} (h : policy name attrs = true) :
    Inert name (attrs.map Attr.read) ∧ ∀ a ∈ attrs.map Attr.read, a.1 ∈ addresses → Stays a.2 := by
  obtain ⟨hname, hattrs⟩ := Bool.and_eq_true_iff.1 h
  obtain ⟨t, -, ht⟩ := List.any_eq_true.1 hname
  obtain rfl := of_decide_eq_true ht
  have hfield : ∀ a ∈ attrs.map Attr.read, ∃ f : Field, f.keeps = true ∧ a = f.attr.read := by
    intro a ha
    obtain ⟨b, hb, rfl⟩ := List.mem_map.1 ha
    obtain ⟨k, -, hk⟩ := List.any_eq_true.1 (List.all_eq_true.1 hattrs b hb)
    obtain ⟨hkey, hkeeps⟩ := Bool.and_eq_true_iff.1 hk
    exact ⟨_, hkeeps, by rw [Field.attr, of_decide_eq_true hkey]⟩
  have helement : ∀ t ∈ Tag.all, t.name ∉ activeElements := by decide +kernel
  have hkey : ∀ k ∈ Key.all, ¬ "on".toList <+: k.text ∧ k.text ∉ activeAttributes ∧
      (k.text ∈ addresses → k = .href ∨ k = .action) := by decide +kernel
  have hstays : ∀ a ∈ attrs.map Attr.read, a.1 ∈ addresses → Stays a.2 := by
    intro a ha hmem
    obtain ⟨⟨k, v⟩, hf, rfl⟩ := hfield a ha
    have hv : v.any isLocal = true := by rcases (hkey k k.mem_all).2.2 hmem with rfl | rfl <;> exact hf
    cases v with
    | none => cases hv
    | some v => exact stays_of_isLocal hv
  refine ⟨⟨helement t t.mem_all, fun a ha => ?_, fun a ha => ?_, fun a ha hmem => (hstays a ha hmem).not_isProgram,
    fun a ha hn => hstays a ha (hn ▸ by decide)⟩, hstays⟩
  all_goals obtain ⟨⟨k, v⟩, hf, rfl⟩ := hfield a ha
  · exact (hkey k k.mem_all).1
  · exact (hkey k k.mem_all).2.1

section

variable {r : Renderer} {shown : List Text}

theorem Safe.closed_of_trusted (hr : Safe r) {m : Mode} {t : Text} (h : Trusted r shown m t) : Markup.Closed m t := by
  cases h with
  | styles => exact Markup.closed_rawtext _ hr.styles
  | markdown h => exact hr.closed .wiki _ rfl

/-- A library that makes one paragraph of a text, and a short stylesheet. -/
def small : Renderer where
  markdown _ src := if Text.trim src = [] then [] else "<p>".toList ++ (Html.escape src ++ "</p>\n".toList)
  format _ := none
  rfc3339 _ := none
  styles := ":root\x7b\x7d".toList

theorem reads_small (opts : ComrakOptions) (src : Text) :
    Markup.run (.content .data) (small.markdown opts src) = (.content .data, []) ∨
      Markup.run (.content .data) (small.markdown opts src) =
        (.content .data, .opened "p".toList [] :: (src.map .char ++ [.closed "p".toList]) ++ [.char '\n']) := by
  unfold small
  dsimp only
  split
  · exact .inl rfl
  · let doc : Markup.Doc := .seq (.element "p".toList [] (.text src)) (.text "\n".toList)
    have hcheck : doc.check (fun _ _ => true) .data = true := rfl
    have hreads := Markup.reads_html hcheck (by simp [doc, Markup.Doc.raws])
    have hhtml : "<p>".toList ++ (Html.escape src ++ "</p>\n".toList) =
        doc.html :=
      congrArg ("<p>".toList ++ ·) (List.append_assoc (Html.escape src) (Html.closeTag "p".toList) "\n".toList).symm
    exact .inr (hhtml ▸ hreads)

theorem small_safe : Safe small where
  closed opts src _ := by
    rcases reads_small opts src with h | h <;> exact congrArg Prod.fst h
  inert opts src name attrs _ hopen := by
    rcases reads_small opts src with h | h
    · rw [h] at hopen
      cases hopen
    · simp only [h, List.mem_cons, Markup.Token.opened.injEq, List.mem_append, List.mem_map, reduceCtorEq, and_false,
        exists_false, List.not_mem_nil, or_false] at hopen
      obtain ⟨rfl, rfl⟩ := hopen
      exact ⟨by decide, by simp, by simp, by simp, by simp⟩
  styles := by decide

/-- **Nothing in a page runs.** A browser reads the page that the template
built, whatever texts stand in it; none of its tags runs anything or sends a
form away, and no link leads away but one of the markdown that is shown. -/
theorem page_inert (hr : Safe r) (now : Int) (view : View) :
    Markup.read (page (r := r) now view).html = some (page (r := r) now view).tokens ∧
      ∀ name attrs, .opened name attrs ∈ (page (r := r) now view).tokens → Inert name attrs ∧
        ((∀ a ∈ attrs, a.1 ∈ addresses → Stays a.2) ∨
          ∃ src ∈ view.markdown,
            .opened name attrs ∈ (Markup.run (.content .data) (r.renderMarkdown src)).2) := by
  refine ⟨(page now view).read_html fun m t => hr.closed_of_trusted, fun name attrs h => ?_⟩
  rcases (page now view).opened h with ⟨own, hown, rfl⟩ | ⟨m, t, ht, hopen⟩
  · obtain ⟨hinert, hstays⟩ := inert_of_policy hown
    exact ⟨hinert, .inl hstays⟩
  · cases ht with
    | styles => exact absurd hopen (Markup.opened_rawtext _ hr.styles)
    | @markdown src hsrc => exact ⟨hr.inert .wiki src name attrs rfl hopen, .inr ⟨src, hsrc, hopen⟩⟩

/-- A page whose title and content are markup. -/
theorem page_inert_small :
    let info : PageMeta :=
      { id := 1, path := "notes".toList, layer := "semantic".toList, title := "<script>".toList, lastEditAt := none,
        lastEditBy := none, lastEditHandle := none, lastEditType := none, revision := none }
    Safe small ∧ ∀ name attrs,
      .opened name attrs ∈ (page (r := small) 0 (.viewPage none ⟨info, "<form>".toList⟩)).tokens →
        Inert name attrs ∧ ((∀ a ∈ attrs, a.1 ∈ addresses → Stays a.2) ∨
          ∃ src ∈ ["<form>".toList],
            .opened name attrs ∈ (Markup.run (.content .data) (small.renderMarkdown src)).2) :=
  ⟨small_safe, (page_inert small_safe 0 _).2⟩

end

end Templates

end Wikikiki
