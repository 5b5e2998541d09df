/-
Page paths: which ones the service accepts (`validate_path`), the file a page
lives in (`relative_file_path`, `file_path`) and the title it gets when its
text has none (`derive_title`), all from pages/mod.rs.

Two facts carry the rest of the development: distinct accepted paths have
distinct files (`relativeFilePath_injective`), and a file is inside a
top-level directory exactly when that directory is the first of several
segments (`prefix_relativeFilePath`).
-/
import Wikikiki.Error
import Wikikiki.Lib.Files
import Wikikiki.Lib.UnixPath

namespace Wikikiki

/-! ## Accepted paths -/

/-- `[A-Za-z0-9._-]`. -/
def legalChar (c : Char) : Bool := c.isAlphanum || c == '-' || c == '_' || c == '.'

/-- The loop of `validate_path` over the segments. -/
def validateSegments : List Text → Except AppError Unit
  | [] => .ok ()
  | seg :: segs =>
    if seg = [] ∨ seg = ".".toList ∨ seg = "..".toList then
      .error (.badRequest ("illegal segment: '".toList ++ seg ++ "'".toList))
    else if 64 < Text.byteLen seg then .error (.badRequest "segment too long".toList)
    else if ¬ seg.all legalChar then
      .error (.badRequest ("illegal character in '".toList ++ seg ++ "'".toList))
    else validateSegments segs

/-- `validate_path`. -/
def validatePath (path : Text) : Except AppError Unit :=
  if path = [] ∨ 200 < Text.byteLen path then .error (.badRequest "path length out of range".toList)
  else if path.head? = some '/' ∨ '\\' ∈ path then
    .error (.badRequest "path must be relative, forward-slash only".toList)
  else validateSegments (path.splitOn '/')

/-- One to 64 bytes of `[A-Za-z0-9._-]`, and neither `.` nor `..`. -/
structure IsSegment (seg : Text) : Prop where
  pos : 1 ≤ Text.byteLen seg
  short : Text.byteLen seg ≤ 64
  legal : ∀ c ∈ seg, legalChar c = true
  ne_dot : seg ≠ ".".toList
  ne_dots : seg ≠ "..".toList

/-- At most 200 bytes, and one or more segments with slashes between them. -/
def IsPagePath (p : Text) : Prop :=
  Text.byteLen p ≤ 200 ∧ ∃ segs, segs ≠ [] ∧ p = ['/'].intercalate segs ∧ ∀ seg ∈ segs, IsSegment seg

theorem IsSegment.ne_nil {seg : Text} (h : IsSegment seg) : seg ≠ [] := by
  rintro rfl
  exact absurd h.pos (by decide)

theorem IsSegment.notMem {seg : Text} {c : Char} (h : IsSegment seg) (hc : legalChar c = false) : c ∉ seg := by
  intro hm
  rw [h.legal c hm] at hc
  cases hc

/-- The loop passes exactly when every segment is one. -/
theorem validateSegments_iff {segs : List Text} :
    validateSegments segs = .ok () ↔ ∀ seg ∈ segs, IsSegment seg := by
  induction segs with
  | nil => simp [validateSegments]
  | cons seg segs ih =>
    rw [List.forall_mem_cons, ← ih]
    constructor
    · intro h
      unfold validateSegments at h
      split at h
      · cases h
      next hdots =>
      split at h
      · cases h
      next hlong =>
      split at h
      · cases h
      next hlegal =>
      simp only [not_or] at hdots
      have hpos := Text.byteLen_pos hdots.1
      have hall : ∀ c ∈ seg, legalChar c = true := by simpa using hlegal
      exact ⟨⟨hpos, by omega, hall, hdots.2.1, hdots.2.2⟩, h⟩
    · intro hs
      obtain ⟨h, hrest⟩ := hs
      have hall : seg.all legalChar = true := List.all_eq_true.2 h.legal
      have hshort := h.short
      rw [validateSegments, if_neg (not_or.2 ⟨h.ne_nil, not_or.2 ⟨h.ne_dot, h.ne_dots⟩⟩), if_neg (by omega),
        if_neg (not_not_intro hall)]
      exact hrest

theorem validatePath_eq_ok {path : Text} (h : validatePath path = .ok ()) :
    validateSegments (path.splitOn '/') = .ok () := by
  unfold validatePath at h
  split at h
  · cases h
  split at h
  · cases h
  exact h

theorem isSegment_of_validatePath {p : Text} (h : validatePath p = .ok ()) :
    ∀ seg ∈ p.splitOn '/', IsSegment seg := validateSegments_iff.1 (validatePath_eq_ok h)

/-- A path of segments is not empty, does not begin with `/` and has no `\`,
so the loop decides. -/
theorem validatePath_iff {p : Text} : validatePath p = .ok () ↔ IsPagePath p := by
  constructor
  · intro h
    refine ⟨?_, p.splitOn '/', List.splitOn_ne_nil '/' p, (List.intercalate_splitOn '/').symm,
      isSegment_of_validatePath h⟩
    unfold validatePath at h
    split at h
    · cases h
    next hlen => exact Nat.le_of_not_lt fun hlong => hlen (.inr hlong)
  · intro hp
    obtain ⟨hlen, segs, hne, rfl, hsegs⟩ := hp
    have hsep : ∀ seg ∈ segs, '/' ∉ seg := fun seg hs => (hsegs seg hs).notMem (by decide)
    have hsplit := List.splitOn_intercalate '/' hsep hne
    obtain ⟨seg, rest, rfl⟩ := List.exists_cons_of_ne_nil hne
    have hfirst := hsegs seg (by simp)
    obtain ⟨c, t, rfl⟩ := List.exists_cons_of_ne_nil hfirst.ne_nil
    obtain ⟨u, hu⟩ : ∃ u, ['/'].intercalate ((c :: t) :: rest) = c :: u := by
      cases rest <;> simp [List.intercalate_cons_cons]
    have hback : '\\' ∉ ['/'].intercalate ((c :: t) :: rest) := by
      intro hm
      rcases Text.mem_intercalate hm with ⟨s, hs, hc⟩ | hc
      · exact (hsegs s hs).notMem (by decide) hc
      · exact absurd hc (by decide)
    have hslash : c ≠ '/' := by
      intro he
      rw [he] at hfirst
      exact hfirst.notMem (c := '/') (by decide) List.mem_cons_self
    unfold validatePath
    rw [hu] at hlen hback hsplit ⊢
    rw [if_neg (by simp; omega), if_neg (not_or.2 ⟨by simpa using hslash, hback⟩), hsplit]
    exact validateSegments_iff.2 hsegs

/-! ## Files -/

/-- The loop of `relative_file_path`: the last segment gets `.md` appended. -/
def withMd : List Text → PathBuf
  | [] => []
  | [seg] => [seg ++ ".md".toList]
  | seg :: segs => seg :: withMd segs

/-- `relative_file_path`: the page's file, relative to the content root. -/
def relativeFilePath (pagePath : Text) : PathBuf := withMd (pagePath.splitOn '/')

/-- `file_path`. -/
def filePath (contentRoot : PathBuf) (pagePath : Text) : PathBuf := contentRoot ++ relativeFilePath pagePath

@[simp] theorem withMd_cons_cons (s t : Text) (segs : List Text) :
    withMd (s :: t :: segs) = s :: withMd (t :: segs) := rfl

theorem withMd_ne_nil {segs : List Text} (h : segs ≠ []) : withMd segs ≠ [] := by
  match segs with
  | [] => exact absurd rfl h
  | [_] => simp [withMd]
  | _ :: _ :: _ => simp

theorem withMd_injective : ∀ {a b : List Text}, withMd a = withMd b → a = b
  | [], [], _ => rfl
  | [], _ :: _, h => absurd h.symm (withMd_ne_nil (by simp))
  | _ :: _, [], h => absurd h (withMd_ne_nil (by simp))
  | [s], [t], h => by simpa [withMd] using h
  | [s], t :: u :: b, h => by
    simp only [withMd, List.cons.injEq] at h
    exact absurd h.2.symm (withMd_ne_nil (by simp))
  | s :: u :: a, [t], h => by
    simp only [withMd, List.cons.injEq] at h
    exact absurd h.2 (withMd_ne_nil (by simp))
  | s :: u :: a, t :: v :: b, h => by
    simp only [withMd_cons_cons, List.cons.injEq] at h
    rw [h.1, withMd_injective h.2]

theorem mem_withMd {c : Char} : ∀ {segs : List Text} {seg : Text}, seg ∈ withMd segs → c ∈ seg →
    (∃ s ∈ segs, c ∈ s) ∨ c ∈ ".md".toList
  | [], _, h, _ => by simp [withMd] at h
  | [s], seg, h, hc => by
    simp only [withMd, List.mem_singleton] at h
    subst h
    rcases List.mem_append.1 hc with hc | hc
    · exact .inl ⟨s, by simp, hc⟩
    · exact .inr hc
  | s :: t :: segs, seg, h, hc => by
    rcases List.mem_cons.1 h with rfl | h
    · exact .inl ⟨_, by simp, hc⟩
    · rcases mem_withMd h hc with ⟨u, hu, hcu⟩ | hc
      · exact .inl ⟨u, List.mem_cons_of_mem _ hu, hcu⟩
      · exact .inr hc

/-- The file of an accepted path is named in accepted characters, too. -/
theorem legal_relativeFilePath {p : Text} (h : validatePath p = .ok ()) :
    ∀ seg ∈ relativeFilePath p, ∀ c ∈ seg, legalChar c = true := by
  intro seg hseg c hc
  rcases mem_withMd hseg hc with ⟨s, hs, hcs⟩ | hc
  · exact (isSegment_of_validatePath h s hs).legal c hcs
  · exact List.all_eq_true.1 (by decide : ".md".toList.all legalChar = true) c hc

theorem relativeFilePath_ne_nil (p : Text) : relativeFilePath p ≠ [] := withMd_ne_nil (by simp)

/-- Distinct pages live in distinct files: `.md` is appended, never put in
the place of something. -/
theorem relativeFilePath_injective : Function.Injective relativeFilePath := fun p q h => by
  have hs : p.splitOn '/' = q.splitOn '/' := withMd_injective h
  have hp : ['/'].intercalate (p.splitOn '/') = p := List.intercalate_splitOn '/'
  rw [hs, List.intercalate_splitOn] at hp
  exact hp.symm

theorem filePath_injective (root : PathBuf) : Function.Injective (filePath root) := fun _ _ h =>
  relativeFilePath_injective (List.append_cancel_left h)

/-- A page's file is inside the top-level directory `d`, a name that does not
itself end in `.md`, exactly when `d` is the first of several segments. -/
theorem prefix_relativeFilePath {d p : Text} (hd : ¬ ".md".toList <:+ d) :
    [d] <+: relativeFilePath p ↔ ∃ s segs, p.splitOn '/' = d :: s :: segs := by
  unfold relativeFilePath
  match hs : p.splitOn '/' with
  | [] => exact absurd hs (by simp)
  | [s] =>
    simp only [withMd, List.cons_prefix_cons, List.prefix_rfl, and_true, List.cons.injEq,
      reduceCtorEq, and_false, exists_false, iff_false]
    intro heq
    subst heq
    exact hd (List.suffix_append _ _)
  | s :: t :: segs => simp [List.cons_prefix_cons, eq_comm]

theorem withMd_modifyHead (c : Char) (segs : List Text) :
    withMd (segs.modifyHead (c :: ·)) = (withMd segs).modifyHead (c :: ·) := by
  match segs with
  | [] => rfl
  | [_] => rfl
  | _ :: _ :: _ => rfl

/-- The file is the path with `.md` behind it, cut into its segments. -/
theorem relativeFilePath_eq (p : Text) : relativeFilePath p = (p ++ ".md".toList).splitOn '/' := by
  unfold relativeFilePath
  induction p with
  | nil => decide
  | cons c p ih =>
    rw [List.cons_append, List.splitOn_cons_eq_if_modifyHead, List.splitOn_cons_eq_if_modifyHead, ← ih]
    split
    · obtain ⟨seg, segs, hsplit⟩ := List.exists_cons_of_ne_nil (List.splitOn_ne_nil '/' p)
      rw [hsplit]
      rfl
    · exact withMd_modifyHead c _

/-- The file of a page is a directory of another page's file exactly when the
other path starts with the first one and `.md/`. -/
theorem relativeFilePath_prefix {p q : Text} :
    relativeFilePath p <+: relativeFilePath q ↔ p = q ∨ p ++ ".md/".toList <+: q := by
  rw [relativeFilePath_eq, relativeFilePath_eq, Text.splitOn_prefix, List.append_left_inj]
  refine or_congr Iff.rfl ?_
  rw [show p ++ ".md".toList ++ ['/'] = p ++ ".md/".toList by simp]
  constructor
  · intro h
    rcases Nat.lt_or_ge q.length (p ++ ".md/".toList).length with hlt | hle
    · -- The slash would have to come out of the last `.md`.
      exfalso
      obtain ⟨t, ht⟩ := h
      have hsuffix : '/' :: t <:+ ".md".toList := by
        have hall : '/' :: t <:+ q ++ ".md".toList := by
          rw [← ht]
          exact ⟨p ++ ".md".toList, by simp⟩
        refine List.suffix_of_suffix_length_le hall (List.suffix_append _ _) ?_
        have hlen := congrArg List.length ht
        simp only [List.length_append, List.length_cons] at hlen hlt ⊢
        omega
      exact absurd (hsuffix.subset List.mem_cons_self) (by decide)
    · exact List.prefix_of_prefix_length_le h (List.prefix_append _ _) hle
  · intro h
    exact h.trans (List.prefix_append _ _)

/-! ## The path buffer

`relative_file_path` pushes the segments onto a `PathBuf`, which is text. The
list above is what the components of that text are. -/

/-- The loop of `relative_file_path` on its buffer. -/
def pushSegments : Text → List Text → Text
  | buf, [] => buf
  | buf, [seg] => UnixPath.push buf (seg ++ ".md".toList)
  | buf, seg :: segs => pushSegments (UnixPath.push buf seg) segs

/-- `relative_file_path`, as the text in the buffer. -/
def relativeFileText (pagePath : Text) : Text := pushSegments [] (pagePath.splitOn '/')

theorem pushSegments_eq : ∀ (segs : List Text) (buf : Text),
    pushSegments buf segs = (withMd segs).foldl UnixPath.push buf
  | [], _ => rfl
  | [_], _ => rfl
  | seg :: t :: segs, buf => by
    rw [pushSegments, pushSegments_eq (t :: segs), withMd_cons_cons, List.foldl_cons]
    simp

theorem IsSegment.isName {seg : Text} (h : IsSegment seg) : UnixPath.IsName seg where
  ne_nil := h.ne_nil
  ne_dot := h.ne_dot
  ne_dots := h.ne_dots
  no_sep := h.notMem (by decide)

/-- With `.md` behind it, a segment is a name, too: it is too long for the
two that are none. -/
theorem IsSegment.isName_md {seg : Text} (h : IsSegment seg) : UnixPath.IsName (seg ++ ".md".toList) := by
  have hlen : 4 ≤ (seg ++ ".md".toList).length := by
    have := List.length_pos_of_ne_nil h.ne_nil
    rw [List.length_append, show ".md".toList.length = 3 from rfl]
    omega
  have hne : ∀ t : Text, t.length < 4 → seg ++ ".md".toList ≠ t := by
    rintro _ ht rfl
    omega
  refine ⟨hne _ (by decide), hne _ (by decide), hne _ (by decide), ?_⟩
  rw [List.mem_append, not_or]
  exact ⟨h.isName.no_sep, by decide⟩

theorem isName_withMd : ∀ {segs : List Text}, (∀ seg ∈ segs, IsSegment seg) →
    ∀ n ∈ withMd segs, UnixPath.IsName n
  | [], _ => by simp [withMd]
  | [seg], h => by
    simp only [withMd, List.forall_mem_singleton]
    exact (h seg (by simp)).isName_md
  | seg :: t :: segs, h => by
    rw [withMd_cons_cons, List.forall_mem_cons]
    exact ⟨(h seg (by simp)).isName, isName_withMd fun s hs => h s (List.mem_cons_of_mem _ hs)⟩

theorem length_withMd : ∀ segs : List Text, (withMd segs).length = segs.length
  | [] => rfl
  | [_] => rfl
  | _ :: t :: segs => by rw [withMd_cons_cons, List.length_cons, length_withMd (t :: segs)]; rfl

section

variable {p q : Text}

theorem isName_relativeFilePath (h : validatePath p = .ok ()) :
    ∀ n ∈ relativeFilePath p, UnixPath.IsName n := isName_withMd (isSegment_of_validatePath h)

/-- The buffer ends up with the path and `.md` behind it. -/
theorem relativeFileText_eq (h : validatePath p = .ok ()) : relativeFileText p = p ++ ".md".toList := by
  have hpush : relativeFileText p = ['/'].intercalate (relativeFilePath p) := by
    rw [relativeFileText, pushSegments_eq]
    exact UnixPath.foldl_push_nil (isName_relativeFilePath h) (relativeFilePath_ne_nil p)
  rw [hpush, relativeFilePath_eq, List.intercalate_splitOn]

/-- The components of the buffer are the segments of the file's path. -/
theorem components_relativeFileText (h : validatePath p = .ok ()) :
    UnixPath.front (relativeFileText p) = [] ∧
      UnixPath.components (relativeFileText p) = (relativeFilePath p).map .normal := by
  have hjoin : relativeFileText p = ['/'].intercalate (relativeFilePath p) := by
    rw [relativeFileText_eq h, relativeFilePath_eq, List.intercalate_splitOn]
  rw [hjoin]
  exact UnixPath.components_intercalate (isName_relativeFilePath h) (relativeFilePath_ne_nil p)

/-- `file_path` puts the page's own components behind those of the content
root, whatever the root is. -/
theorem components_filePath (h : validatePath p = .ok ()) (root : Text) :
    UnixPath.components (UnixPath.join root (relativeFileText p)) =
      UnixPath.components root ++ (relativeFilePath p).map .normal := by
  obtain ⟨hfront, hcomp⟩ := components_relativeFileText h
  rw [UnixPath.components_join hfront, hcomp]

end

/-- **Paths.** A path is accepted exactly when it is one; and then its file
has a name for each of its segments, lies below the content root, is no other
accepted page's, and gives the path back without its `.md`. -/
theorem paths_and_files (p : Text) :
    (validatePath p = .ok () ↔ IsPagePath p) ∧
    (validatePath p = .ok () →
      (∃ names : List Text, UnixPath.components (relativeFileText p) = names.map .normal ∧
        names.length = (p.splitOn '/').length ∧ (∀ n ∈ names, UnixPath.IsName n) ∧
        ∀ root, UnixPath.components (UnixPath.join root (relativeFileText p)) =
          UnixPath.components root ++ names.map .normal) ∧
      (∀ root q, validatePath q = .ok () →
        UnixPath.components (UnixPath.join root (relativeFileText q)) =
          UnixPath.components (UnixPath.join root (relativeFileText p)) → q = p) ∧
      Text.stripSuffix ".md".toList (relativeFileText p) = some p) := by
  refine ⟨validatePath_iff, fun h => ⟨⟨relativeFilePath p, (components_relativeFileText h).2,
    length_withMd _, isName_relativeFilePath h, components_filePath h⟩, fun root q hq heq => ?_, ?_⟩⟩
  · rw [components_filePath h, components_filePath hq, List.append_cancel_left_eq] at heq
    have hinj : Function.Injective UnixPath.Component.normal := fun _ _ he => by injection he
    exact relativeFilePath_injective (List.map_injective_iff.2 hinj heq)
  · rw [relativeFileText_eq h, Text.stripSuffix_eq_some]

/-! ## Titles -/

/-- The heading of a line: what follows `# `, where the line starts with it
after its indentation. -/
def heading (line : Text) : Option Text :=
  (Text.stripPrefix "# ".toList (Text.trimStart line)).map Text.trim

/-- The last segment of a path, hyphens and underscores read as spaces. -/
def titleOfPath (pagePath : Text) : Text :=
  ((pagePath.splitOn '/').getLastD pagePath).map fun c => if c = '-' ∨ c = '_' then ' ' else c

/-- `derive_title`. -/
def deriveTitle (content pagePath : Text) : Text :=
  ((Text.lines content).findSome? heading).getD (titleOfPath pagePath)

example : deriveTitle "intro\n# Hello\n\nbody".toList "hello".toList = "Hello".toList := by decide
example : deriveTitle "no heading".toList "notes/big-idea".toList = "big idea".toList := by decide

end Wikikiki
