/-
What a shell script does to text on its way: command substitution, `basename`,
`tr`, a glob for a suffix, and the data argument of curl.
-/
import Wikikiki.Lib.Text

namespace Shell

section Substitution

variable {α : Type} [DecidableEq α] {nul newline : α} {out : List α}

/-- `$(...)`: the output without its NULs, and then without the newlines at its
end. -/
def substitution (nul newline : α) (out : List α) : List α :=
  (out.filter fun c => c ≠ nul).rdropWhile fun c => c = newline

theorem substitution_getLast (nul : α) (out : List α) : (substitution nul newline out).getLast? ≠ some newline := by
  intro h
  have hne : substitution nul newline out ≠ [] := by
    intro hnil
    rw [hnil] at h
    cases h
  rw [List.getLast?_eq_some_getLast hne, Option.some.injEq] at h
  exact List.rdropWhile_last_not _ _ hne (decide_eq_true h)

theorem notMem_substitution (newline : α) (out : List α) : nul ∉ substitution nul newline out := by
  intro hm
  have hf := (List.rdropWhile_prefix _ _).subset hm
  simp at hf

/-- Nothing is lost of an output with no NUL and no newline at its end, and of
no other. -/
theorem substitution_eq_self : substitution nul newline out = out ↔ nul ∉ out ∧ out.getLast? ≠ some newline := by
  constructor
  · intro h
    rw [← h]
    exact ⟨notMem_substitution newline out, substitution_getLast nul out⟩
  · intro h
    have hfilter : (out.filter fun c => c ≠ nul) = out := by
      rw [List.filter_eq_self]
      intro c hc
      rw [decide_eq_true_eq]
      rintro rfl
      exact h.1 hc
    rw [substitution, hfilter, List.rdropWhile_eq_self_iff]
    intro hne hlast
    refine h.2 ?_
    rw [List.getLast?_eq_some_getLast hne, of_decide_eq_true hlast]

end Substitution

/-- `$(...)` of text. -/
def captureText : Text → Text := substitution '\x00' '\n'

/-- `$(...)` of bytes. -/
def capture : Bytes → Bytes := substitution 0 10

/-- `basename FILE SUFFIX`. -/
def baseName (file suffix : Text) : Text :=
  let name := (file.splitOn '/').getLast (List.splitOn_ne_nil '/' file)
  if suffix <:+ name ∧ name ≠ suffix then name.take (name.length - suffix.length) else name

/-- In a directory, the name without the suffix; a name that is nothing else
keeps it. -/
theorem baseName_append {dir name suffix : Text} (hname : '/' ∉ name) (hsuffix : suffix <:+ name)
    (hne : name ≠ suffix) : baseName (dir ++ '/' :: name) suffix = name.take (name.length - suffix.length) := by
  have hlast : ∀ h, ((dir ++ '/' :: name).splitOn '/').getLast h = name := by
    rw [List.splitOn_append_cons_self, List.splitOn_eq_singleton hname]
    simp
  unfold baseName
  simp only [hlast]
  rw [if_pos ⟨hsuffix, hne⟩]

/-- `tr '[:upper:]' '[:lower:]'`, which goes by bytes. -/
def lower (s : Text) : Text := s.map Char.toLower

/-- The name matches `*SUFFIX`; a leading dot is matched by no star. -/
def globs (suffix name : Text) : Bool := name.head? ≠ some '.' && suffix.isSuffixOf name

theorem globs_iff {suffix name : Text} : globs suffix name = true ↔ name.head? ≠ some '.' ∧ suffix <:+ name := by
  rw [globs, Bool.and_eq_true, decide_eq_true_eq, List.isSuffixOf_iff_suffix]

theorem captureText_eq_self {s : Text} : captureText s = s ↔ '\x00' ∉ s ∧ s.getLast? ≠ some '\n' :=
  substitution_eq_self

theorem toLower_eq_iff {c d : Char} (hd : d.toNat < 65) : c.toLower = d ↔ c = d := by
  unfold Char.toLower
  split
  · next h =>
    have hlo : 65 ≤ c.val.toNat := h.1
    have hhi : c.val.toNat ≤ 90 := h.2
    refine iff_of_false (fun he => ?_) fun he => ?_
    · have hnat := congrArg Char.toNat he
      change (c.val + 32).toNat = d.toNat at hnat
      rw [UInt32.toNat_add] at hnat
      change (c.val.toNat + 32) % 2 ^ 32 = d.toNat at hnat
      omega
    · rw [← he] at hd
      exact absurd hlo (Nat.not_le.2 hd)
  · rfl

/-- What was captured and lower-cased is captured as it is. -/
theorem captureText_lower (s : Text) : captureText (lower (captureText s)) = lower (captureText s) := by
  have hnul : '\x00' ∉ captureText s := notMem_substitution '\n' s
  have hlast : (captureText s).getLast? ≠ some '\n' := substitution_getLast '\x00' s
  refine captureText_eq_self.2 ⟨fun hm => ?_, fun hl => ?_⟩
  · obtain ⟨c, hc, hlower⟩ := List.mem_map.1 hm
    rw [toLower_eq_iff (by decide)] at hlower
    exact hnul (hlower ▸ hc)
  · rw [lower, List.getLast?_map, Option.map_eq_some_iff] at hl
    obtain ⟨c, hc, hlower⟩ := hl
    rw [toLower_eq_iff (by decide)] at hlower
    exact hlast (hlower ▸ hc)

/-- Text behind a character that is no newline. -/
theorem captureText_append_cons {a b : Text} {c : Char} (ha : '\x00' ∉ a) (hc : c ≠ '\x00') (hn : c ≠ '\n')
    (hb : captureText b = b) : captureText (a ++ c :: b) = a ++ c :: b := by
  obtain ⟨hnul, hlast⟩ := captureText_eq_self.1 hb
  refine captureText_eq_self.2 ⟨by simp [ha, hnul, hc.symm], ?_⟩
  cases b with
  | nil => simpa using hn
  | cons d b => simpa using hlast

/-- `--data-binary`: what stands behind an `@` names a file. One that cannot be
read makes an empty body. -/
def dataBinary (read : Bytes → Option Bytes) : Bytes → Bytes
  | [] => []
  | b :: data => if b = 64 then (read data).getD [] else b :: data

theorem dataBinary_of_ne {read : Bytes → Option Bytes} {arg : Bytes} (h : arg.head? ≠ some 64) :
    dataBinary read arg = arg := by
  cases arg with
  | nil => rfl
  | cons b data => rw [dataBinary, if_neg fun hb => h (by rw [hb, List.head?_cons])]

theorem dataBinary_of_eq {read : Bytes → Option Bytes} {arg : Bytes} (h : arg.head? = some 64) :
    dataBinary read arg = (read arg.tail).getD [] := by
  cases arg with
  | nil => cases h
  | cons b data =>
    rw [List.head?_cons, Option.some.injEq] at h
    rw [dataBinary, if_pos h, List.tail_cons]

end Shell
