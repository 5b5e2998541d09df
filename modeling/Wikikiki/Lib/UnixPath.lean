/-
Paths as `std::path` has them on Unix: text with `/` between the components.
`push` and `join` work on the text, and `components` reads it the way two
paths are compared: an empty piece and a `.` that is not in front say nothing.

A path that is built from names only has exactly these components, below
whatever it is joined to (`components_join`, `components_intercalate`).
-/
import Wikikiki.Lib.Text

namespace UnixPath

inductive Component where
  | rootDir
  | curDir
  | parentDir
  | normal (name : Text)
  deriving DecidableEq

/-- `p.is_absolute()`. -/
def IsAbsolute (p : Text) : Prop := p.head? = some '/'

instance (p : Text) : Decidable (IsAbsolute p) := inferInstanceAs (Decidable (p.head? = some '/'))

/-- `buf.push(p)`: an absolute path replaces what was there. -/
def push (buf p : Text) : Text :=
  if IsAbsolute p then p
  else if buf = [] ∨ buf.getLast? = some '/' then buf ++ p
  else buf ++ '/' :: p

/-- `root.join(p)`. -/
def join (root p : Text) : Text := push root p

/-- What a piece between two slashes stands for. -/
def component (piece : Text) : Option Component :=
  if piece = [] ∨ piece = ".".toList then none
  else if piece = "..".toList then some .parentDir
  else some (.normal piece)

/-- What stands before the pieces. -/
def front (p : Text) : List Component :=
  if IsAbsolute p then [.rootDir]
  else if (p.splitOn '/').head? = some ".".toList then [.curDir]
  else []

/-- `p.components()`. -/
def components (p : Text) : List Component := front p ++ (p.splitOn '/').filterMap component

example : components "/srv//wiki/./a/".toList =
    [.rootDir, .normal "srv".toList, .normal "wiki".toList, .normal "a".toList] := by decide
example : components "./../a".toList = [.curDir, .parentDir, .normal "a".toList] := by decide

/-- The name of one file or directory. -/
structure IsName (name : Text) : Prop where
  ne_nil : name ≠ []
  ne_dot : name ≠ ".".toList
  ne_dots : name ≠ "..".toList
  no_sep : '/' ∉ name

/-! ## Joining -/

section

variable {root p name buf : Text} {names : List Text}

theorem head?_splitOn (r p : Text) : ((r ++ '/' :: p).splitOn '/').head? = (r.splitOn '/').head? := by
  rw [List.splitOn_append_cons_self, List.head?_append_of_ne_nil _ (List.splitOn_ne_nil '/' r)]

theorem front_append (h : root ≠ []) (p : Text) : front (root ++ '/' :: p) = front root := by
  have habs : IsAbsolute (root ++ '/' :: p) ↔ IsAbsolute root := by
    rw [IsAbsolute, IsAbsolute, List.head?_append_of_ne_nil _ h]
  simp only [front, head?_splitOn, habs]

theorem front_sep (r p q : Text) : front (r ++ '/' :: p) = front (r ++ '/' :: q) := by
  cases r with
  | nil => rfl
  | cons c r => rw [front_append (by simp), front_append (by simp)]

/-- A relative path that does not begin with `.` comes behind the components
of the root. -/
theorem components_join (h : front p = []) : components (join root p) = components root ++ components p := by
  have hrel : ¬ IsAbsolute p := by
    intro ha
    simp [front, ha] at h
  have hp : components p = (p.splitOn '/').filterMap component := by rw [components, h, List.nil_append]
  rw [hp, join, push, if_neg hrel]
  split
  next hend =>
    rcases hend with rfl | hlast
    · have hnil : components [] = [] := by decide
      rw [List.nil_append, hp, hnil, List.nil_append]
    · obtain ⟨r, rfl⟩ := List.getLast?_eq_some_iff.1 hlast
      have hempty : ([] : Text).splitOn '/' = [[]] := List.splitOn_nil '/'
      have hnone : component [] = none := by decide
      rw [List.append_assoc, List.singleton_append, components, components, front_sep r p [],
        List.splitOn_append_cons_self, List.splitOn_append_cons_self, hempty]
      simp [List.filterMap_append, hnone]
  next hend =>
    have hne : root ≠ [] := fun he => hend (.inl he)
    rw [components, components, front_append hne, List.splitOn_append_cons_self, List.filterMap_append,
      List.append_assoc]

/-! ## Paths of names -/

theorem IsName.not_isAbsolute (h : IsName name) : ¬ IsAbsolute name := fun ha =>
  h.no_sep (List.mem_of_head? ha)

theorem IsName.getLast_ne (h : IsName name) : name.getLast? ≠ some '/' := fun hl =>
  h.no_sep (List.mem_of_getLast? hl)

theorem IsName.component (h : IsName name) : component name = some (.normal name) := by
  rw [UnixPath.component, if_neg (not_or.2 ⟨h.ne_nil, h.ne_dot⟩), if_neg h.ne_dots]

theorem splitOn_intercalate (h : ∀ n ∈ names, IsName n) (hne : names ≠ []) :
    (['/'].intercalate names).splitOn '/' = names :=
  List.splitOn_intercalate '/' (fun n hn => (h n hn).no_sep) hne

/-- The components of a path of names are the names. -/
theorem components_intercalate (h : ∀ n ∈ names, IsName n) (hne : names ≠ []) :
    front (['/'].intercalate names) = [] ∧
      components (['/'].intercalate names) = names.map .normal := by
  obtain ⟨n, ns, rfl⟩ := List.exists_cons_of_ne_nil hne
  have hn := h n (by simp)
  have hsplit := splitOn_intercalate h hne
  have hrel : ¬ IsAbsolute (['/'].intercalate (n :: ns)) := by
    -- A path that begins with `/` has an empty first piece.
    intro ha
    obtain ⟨t, ht⟩ : ∃ t, ['/'].intercalate (n :: ns) = '/' :: t := by
      simpa [IsAbsolute, List.head?_eq_some_iff] using ha
    have hpieces := List.splitOn_append_cons_self (a := '/') [] t
    rw [List.nil_append, ← ht, hsplit, List.splitOn_nil, List.singleton_append] at hpieces
    exact hn.ne_nil (List.cons.inj hpieces).1
  have hfront : front (['/'].intercalate (n :: ns)) = [] := by
    have hdot : ¬ (n :: ns).head? = some ".".toList := by simpa using hn.ne_dot
    rw [front, if_neg hrel, hsplit, if_neg hdot]
  refine ⟨hfront, ?_⟩
  rw [components, hfront, List.nil_append, hsplit, List.filterMap_congr fun m hm => (h m hm).component]
  exact congrFun (List.filterMap_eq_map (f := Component.normal)) _

/-- Pushing names one after the other puts a slash between them. -/
theorem foldl_push (hb : buf ≠ []) (hl : buf.getLast? ≠ some '/') (h : ∀ n ∈ names, IsName n) :
    names.foldl push buf = ['/'].intercalate (buf :: names) := by
  induction names generalizing buf with
  | nil => simp
  | cons n ns ih =>
    have hn := h n (by simp)
    have hpush : push buf n = buf ++ '/' :: n := by
      rw [push, if_neg hn.not_isAbsolute, if_neg (by simp [hb, hl])]
    have hlast : (buf ++ '/' :: n).getLast? ≠ some '/' := by
      rw [List.getLast?_append_of_ne_nil _ (by simp), List.getLast?_cons_of_ne_nil hn.ne_nil]
      exact hn.getLast_ne
    rw [List.foldl_cons, hpush, ih (by simp) hlast fun m hm => h m (by simp [hm])]
    cases ns <;> simp [List.intercalate_cons_cons]

theorem foldl_push_nil (h : ∀ n ∈ names, IsName n) (hne : names ≠ []) :
    names.foldl push [] = ['/'].intercalate names := by
  obtain ⟨n, ns, rfl⟩ := List.exists_cons_of_ne_nil hne
  have hn := h n (by simp)
  have hpush : push [] n = n := by simp [push, hn.not_isAbsolute]
  rw [List.foldl_cons, hpush, foldl_push hn.ne_nil hn.getLast_ne fun m hm => h m (by simp [hm])]

end

end UnixPath
