/-
The initial pass of `wikikiki-sync.sh`: every markdown file of a directory,
sent to the page that its name stands for.

A body goes through `$(cat ...)` and curl's `--data-binary`, a name through
`basename` and `tr`. What they lose is in `Shell`; the server is one that
takes every request that `api_put_page` accepts. `mirrors_iff` says when the
pages are the files.
-/
import Wikikiki.Lib.Shell
import Wikikiki.Router

namespace Wikikiki

/-! ## The directory -/

structure MarkdownFile where
  name : Text
  content : Bytes

/-- A directory of markdown files, as a glob lists them. -/
structure Workspace where
  files : List MarkdownFile
  distinct : (files.map MarkdownFile.name).Nodup
  plain : ∀ f ∈ files, '/' ∉ f.name
  markdown : ∀ f ∈ files, ".md".toList <:+ f.name

/-! ## The script -/

/-- What the script runs with. -/
structure SyncEnv where
  /-- `$WORKSPACE`. -/
  workspace : Text
  /-- `$ACTOR_HANDLE`. -/
  handle : Text
  handle_nul : '\x00' ∉ handle
  /-- The longest argument that a program can be given. -/
  argMax : Nat
  /-- What curl reads under a name, in the call for a file. -/
  read : Text → Bytes → Option Bytes

def SyncEnv.file (env : SyncEnv) (f : MarkdownFile) : Text := env.workspace ++ '/' :: f.name

/-- `slug_for`. -/
def slugFor (handle file : Text) : Text :=
  let base := Shell.captureText (Shell.baseName file ".md".toList)
  let lower := Shell.captureText (Shell.lower base)
  "agents/".toList ++ handle ++ '/' :: lower

/-- The path that `sync_file` puts a file at. -/
def SyncEnv.path (env : SyncEnv) (f : MarkdownFile) : Text := Shell.captureText (slugFor env.handle (env.file f))

/-- The body that `sync_file` sends, when curl starts at all. -/
def SyncEnv.sent (env : SyncEnv) (f : MarkdownFile) : Option Bytes :=
  let body := Shell.capture f.content
  if body.length ≤ env.argMax then some (Shell.dataBinary (env.read f.name) body) else none

/-- The text of every page. -/
abbrev Pages : Type := Text → Option Bytes

/-- What `api_put_page` asks of a path and a body. -/
def acceptsPage (path : Text) (body : Bytes) : Bool :=
  (validatePath path).toBool && ((readBody body bodyLimit).bind textBody).toBool

/-- A `PUT` that names no revision, from an actor who may write. -/
def Pages.put (pages : Pages) (path : Text) (body : Bytes) : Pages :=
  if acceptsPage path body then Function.update pages path (some body) else pages

/-- `sync_file`. -/
def SyncEnv.syncFile (env : SyncEnv) (pages : Pages) (f : MarkdownFile) : Pages :=
  match env.sent f with
  | some body => pages.put (env.path f) body
  | none => pages

/-- `for f in "$WORKSPACE"/*.md`. -/
def SyncEnv.initialPass (env : SyncEnv) (ws : Workspace) (pages : Pages) : Pages :=
  (ws.files.filter fun f => Shell.globs ".md".toList f.name).foldl env.syncFile pages

/-! ## What is wanted, and what it takes -/

/-- Every file has a page of its own, is sent as it is, and is what its page
holds in the end. -/
structure SyncEnv.Mirrors (env : SyncEnv) (ws : Workspace) : Prop where
  paths : (ws.files.map env.path).Nodup
  bodies : ∀ f ∈ ws.files, env.sent f = some f.content
  pages : ∀ pages, ∀ f ∈ ws.files, env.initialPass ws pages (env.path f) = some f.content

/-- What the map keeps of a name. -/
def MarkdownFile.folded (f : MarkdownFile) : Text :=
  Shell.lower (Shell.captureText (f.name.take (f.name.length - 3)))

/-- The content survives the command line: it has no NUL and no newline at its
end, or it names, behind an `@`, a file that holds the very same. -/
def SyncEnv.Verbatim (env : SyncEnv) (f : MarkdownFile) : Prop :=
  (Shell.capture f.content).length ≤ env.argMax ∧
    if (Shell.capture f.content).head? = some 64 then
      env.read f.name (Shell.capture f.content).tail = some f.content
    else 0 ∉ f.content ∧ f.content.getLast? ≠ some 10

/-- UTF-8, of at most four MiB. -/
def PageText (content : Bytes) : Prop := content.length ≤ bodyLimit ∧ Text.fromUtf8 content ≠ none

structure SyncEnv.Mirrorable (env : SyncEnv) (ws : Workspace) : Prop where
  distinct : (ws.files.map MarkdownFile.folded).Nodup
  visible : ∀ f ∈ ws.files, f.name.head? ≠ some '.'
  verbatim : ∀ f ∈ ws.files, env.Verbatim f
  text : ∀ f ∈ ws.files, PageText f.content

section

variable {env : SyncEnv} {ws : Workspace} {pages : Pages} {f g : MarkdownFile} {path : Text} {body : Bytes}

theorem acceptsPage_iff : acceptsPage path body = true ↔ validatePath path = .ok () ∧ PageText body := by
  have hpath : (validatePath path).toBool = true ↔ validatePath path = .ok () := by
    cases validatePath path <;> simp [Except.toBool]
  have hbody : ((readBody body bodyLimit).bind textBody).toBool = true ↔ PageText body := by
    unfold PageText readBody textBody
    by_cases hlong : bodyLimit < body.length
    · rw [if_pos hlong]
      exact iff_of_false (by simp [Except.bind, Except.toBool]) fun h => absurd h.1 (by omega)
    · rw [if_neg hlong]
      cases hdecode : Text.fromUtf8 body with
      | none => simp [Except.bind, Except.toBool, hdecode]
      | some s =>
        simp [Except.bind, Except.toBool, hdecode]
        omega
  rw [acceptsPage, Bool.and_eq_true, hpath, hbody]

theorem SyncEnv.sent_iff : env.sent f = some f.content ↔ env.Verbatim f := by
  unfold sent Verbatim
  by_cases hmax : (Shell.capture f.content).length ≤ env.argMax
  · rw [and_iff_right hmax]
    change (if _ then some _ else none) = _ ↔ _
    rw [if_pos hmax, Option.some.injEq]
    split
    · next hat =>
      rw [Shell.dataBinary_of_eq hat]
      cases hread : env.read f.name (Shell.capture f.content).tail with
      | none =>
        -- An empty body is not the content, which has the `@`.
        refine iff_of_false (fun hempty => ?_) fun h => by cases h
        rw [← (show [] = f.content from hempty)] at hat
        cases hat
      | some data => simp
    · next hat =>
      rw [Shell.dataBinary_of_ne hat]
      exact Shell.substitution_eq_self
  · refine iff_of_false ?_ fun h => hmax h.1
    change (if _ then some _ else none) ≠ _
    rw [if_neg hmax]
    exact fun h => by cases h

theorem SyncEnv.path_eq (hname : '/' ∉ f.name) (hmd : ".md".toList <:+ f.name) (hvisible : f.name.head? ≠ some '.') :
    env.path f = "agents/".toList ++ env.handle ++ '/' :: f.folded := by
  have hne : f.name ≠ ".md".toList := by
    intro h
    exact hvisible (by rw [h]; rfl)
  have hbase : Shell.baseName (env.file f) ".md".toList = f.name.take (f.name.length - 3) :=
    Shell.baseName_append hname hmd hne
  have hlower : Shell.captureText f.folded = f.folded := Shell.captureText_lower _
  unfold path slugFor
  simp only [hbase]
  change Shell.captureText ("agents/".toList ++ env.handle ++ '/' :: Shell.captureText f.folded) = _
  rw [hlower]
  refine Shell.captureText_append_cons ?_ (by decide) (by decide) hlower
  rw [List.mem_append, not_or]
  exact ⟨by decide, env.handle_nul⟩

/-! ## One request after another -/

theorem Pages.put_other {p : Text} (h : p ≠ path) : pages.put path body p = pages p := by
  unfold put
  split
  · exact Function.update_of_ne h _ _
  · rfl

theorem SyncEnv.syncFile_other {p : Text} (h : p ≠ env.path f) : env.syncFile pages f p = pages p := by
  unfold syncFile
  cases env.sent f with
  | none => rfl
  | some body => exact Pages.put_other h

theorem SyncEnv.syncFile_self (hsent : env.sent f = some body) (hput : acceptsPage (env.path f) body = true) :
    env.syncFile pages f (env.path f) = some body := by
  simp only [syncFile, hsent, Pages.put]
  rw [if_pos hput, Function.update_self]

theorem SyncEnv.foldl_other {fs : List MarkdownFile} {p : Text} (h : p ∉ fs.map env.path) :
    fs.foldl env.syncFile pages p = pages p := by
  induction fs generalizing pages with
  | nil => rfl
  | cons g fs ih =>
    rw [List.map_cons, List.mem_cons, not_or] at h
    rw [List.foldl_cons, ih h.2, syncFile_other h.1]

/-- Where no other file has its path, a file that is sent is what its page
holds in the end. -/
theorem SyncEnv.foldl_self {fs : List MarkdownFile} (hnd : (fs.map env.path).Nodup) (hf : f ∈ fs)
    (hsent : env.sent f = some body) (hput : acceptsPage (env.path f) body = true) :
    fs.foldl env.syncFile pages (env.path f) = some body := by
  induction fs generalizing pages with
  | nil => cases hf
  | cons g fs ih =>
    rw [List.map_cons, List.nodup_cons] at hnd
    rw [List.foldl_cons]
    rcases List.mem_cons.1 hf with rfl | hf
    · rw [foldl_other hnd.1, syncFile_self hsent hput]
    · exact ih hnd.2 hf

/-- What a page holds in the end it held before, or some file was sent there. -/
theorem SyncEnv.foldl_origin {fs : List MarkdownFile} {p : Text} (h : fs.foldl env.syncFile pages p = some body) :
    pages p = some body ∨
      ∃ g ∈ fs, env.path g = p ∧ env.sent g = some body ∧ acceptsPage (env.path g) body = true := by
  induction fs generalizing pages with
  | nil => exact .inl h
  | cons g fs ih =>
    rcases ih h with hpage | ⟨g', hg', hrest⟩
    · by_cases hp : p = env.path g
      · subst hp
        unfold syncFile at hpage
        cases hsent : env.sent g with
        | none =>
          rw [hsent] at hpage
          exact .inl hpage
        | some sent =>
          simp only [hsent, Pages.put] at hpage
          split at hpage
          · next hput =>
            rw [Function.update_self, Option.some.injEq] at hpage
            subst hpage
            exact .inr ⟨g, List.mem_cons_self, rfl, hsent, hput⟩
          · exact .inl hpage
      · rw [syncFile_other hp] at hpage
        exact .inl hpage
    · exact .inr ⟨g', List.mem_cons_of_mem _ hg', hrest⟩

/-! ## When the pages are the files -/

theorem Workspace.path_eq (hf : f ∈ ws.files) (hvisible : f.name.head? ≠ some '.') :
    env.path f = "agents/".toList ++ env.handle ++ '/' :: f.folded :=
  SyncEnv.path_eq (ws.plain f hf) (ws.markdown f hf) hvisible

theorem Workspace.nodup_path_iff (hvisible : ∀ f ∈ ws.files, f.name.head? ≠ some '.') :
    (ws.files.map env.path).Nodup ↔ (ws.files.map MarkdownFile.folded).Nodup := by
  have hmap : ws.files.map env.path =
      (ws.files.map MarkdownFile.folded).map fun k => "agents/".toList ++ env.handle ++ '/' :: k := by
    rw [List.map_map]
    exact List.map_congr_left fun f hf => ws.path_eq hf (hvisible f hf)
  rw [hmap]
  refine List.nodup_map_iff fun a b hab => ?_
  exact (List.cons.inj (List.append_cancel_left hab)).2

theorem SyncEnv.Mirrorable.mirrors (hpath : ∀ f ∈ ws.files, validatePath (env.path f) = .ok ())
    (h : env.Mirrorable ws) : env.Mirrors ws := by
  have hnd : (ws.files.map env.path).Nodup := (ws.nodup_path_iff h.visible).2 h.distinct
  have hsent : ∀ f ∈ ws.files, env.sent f = some f.content := fun f hf => sent_iff.2 (h.verbatim f hf)
  refine ⟨hnd, hsent, fun pages f hf => ?_⟩
  have hall : (ws.files.filter fun f => Shell.globs ".md".toList f.name) = ws.files := by
    rw [List.filter_eq_self]
    intro g hg
    rw [Shell.globs_iff]
    exact ⟨h.visible g hg, ws.markdown g hg⟩
  rw [initialPass, hall]
  exact foldl_self hnd hf (hsent f hf) (acceptsPage_iff.2 ⟨hpath f hf, h.text f hf⟩)

theorem SyncEnv.Mirrors.mirrorable (h : env.Mirrors ws) : env.Mirrorable ws := by
  -- In a wiki with no pages, what a page holds in the end comes from its file.
  have horigin : ∀ f ∈ ws.files, Shell.globs ".md".toList f.name = true ∧ acceptsPage (env.path f) f.content = true := by
    intro f hf
    rcases foldl_origin (h.pages (fun _ => none) f hf) with hnone | ⟨g, hg, hpath, -, hput⟩
    · cases hnone
    · obtain ⟨hg, hglob⟩ := List.mem_filter.1 hg
      rw [List.inj_on_of_nodup_map h.paths hg hf hpath] at hglob hput
      exact ⟨hglob, hput⟩
  have hvisible : ∀ f ∈ ws.files, f.name.head? ≠ some '.' := fun f hf => (Shell.globs_iff.1 (horigin f hf).1).1
  exact
    { distinct := (ws.nodup_path_iff hvisible).1 h.paths
      visible := hvisible
      verbatim := fun f hf => sent_iff.1 (h.bodies f hf)
      text := fun f hf => (acceptsPage_iff.1 (horigin f hf).2).2 }

/-- **When the pages are the files**, for names that give accepted paths: no two
of the names are one when folded, none begins with a dot, and every content is
text that survives the command line. -/
theorem mirrors_iff (hpath : ∀ f ∈ ws.files, validatePath (env.path f) = .ok ()) :
    env.Mirrors ws ↔ env.Mirrorable ws :=
  ⟨fun h => h.mirrorable, fun h => h.mirrors hpath⟩

end

/-! ## A small directory -/

def SyncEnv.small : SyncEnv where
  workspace := "/home/ana/notes".toList
  handle := "openclaw".toList
  handle_nul := by decide
  argMax := 131071
  read _ _ := none

/-- One file. -/
def Workspace.single (content : Bytes) : Workspace where
  files := [{ name := "MEMORY.md".toList, content }]
  distinct := List.nodup_singleton _
  plain := by
    intro f hf
    rw [List.mem_singleton.1 hf]
    exact show '/' ∉ "MEMORY.md".toList by decide
  markdown := by
    intro f hf
    rw [List.mem_singleton.1 hf]
    exact show ".md".toList <:+ "MEMORY.md".toList by decide

theorem path_single (content : Bytes) : ∀ f ∈ (Workspace.single content).files,
    SyncEnv.small.path f = "agents/openclaw/memory".toList := by
  intro f hf
  have hname : f.name = "MEMORY.md".toList := by rw [List.mem_singleton.1 hf]
  rw [(Workspace.single content).path_eq hf (by rw [hname]; decide), MarkdownFile.folded, hname]
  decide

theorem mirrors_single : SyncEnv.small.Mirrors (.single [104, 105]) := by
  refine (mirrors_iff fun f hf => ?_).2 ⟨List.nodup_singleton _, fun f hf => ?_, fun f hf => ?_, fun f hf => ?_⟩
  · rw [path_single [104, 105] f hf]
    decide
  all_goals rw [List.mem_singleton.1 hf]
  · decide
  · exact ⟨by decide, by decide⟩
  · exact ⟨by decide, by decide⟩

/-- The newline that ends the file is not in the page. -/
theorem mirrors_newline :
    SyncEnv.small.initialPass (.single [104, 105, 10]) (fun _ => none) "agents/openclaw/memory".toList =
      some [104, 105] ∧ ¬ SyncEnv.small.Mirrors (.single [104, 105, 10]) := by
  have hm : { name := "MEMORY.md".toList, content := [104, 105, 10] } ∈ (Workspace.single [104, 105, 10]).files :=
    List.mem_singleton_self _
  have hpath := path_single [104, 105, 10] _ hm
  have hsent : SyncEnv.small.sent { name := "MEMORY.md".toList, content := [104, 105, 10] } = some [104, 105] := by
    decide
  have hpage : SyncEnv.small.initialPass (.single [104, 105, 10]) (fun _ => none) "agents/openclaw/memory".toList =
      some [104, 105] := by
    have hglob : ((Workspace.single [104, 105, 10]).files.filter fun f => Shell.globs ".md".toList f.name) =
        (Workspace.single [104, 105, 10]).files := rfl
    rw [← hpath, SyncEnv.initialPass, hglob]
    exact SyncEnv.foldl_self (List.nodup_singleton _) hm hsent (by rw [hpath]; decide)
  refine ⟨hpage, fun h => ?_⟩
  have hwhole := h.pages (fun _ => none) _ hm
  rw [hpath, hpage] at hwhole
  exact absurd hwhole (by decide)

end Wikikiki
