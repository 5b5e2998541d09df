/-
A file system of directories and files, with the calls of Rust's `std::fs`
that create, write and read. A path is the list of its components from the
root. A call that the operating system refuses is `none`; it has changed
nothing.
-/
import Mathlib.Data.List.Infix
import Mathlib.Logic.Function.Basic
import Wikikiki.Lib.Text

abbrev PathBuf := List Text

inductive Node where
  | dir
  | file (data : Bytes)
  deriving DecidableEq

abbrev Disk := PathBuf → Option Node

namespace Disk

/-- A path that leads nowhere or to a directory: not a file. -/
def notFile : Option Node → Bool
  | some (.file _) => false
  | _ => true

/-- `p` with all its ancestors made directories where nothing stands. -/
def withDirs (d : Disk) (p : PathBuf) : Disk := fun q => if q <+: p ∧ d q = none then some .dir else d q

/-- `fs::create_dir_all(p)`: refused when a file stands in the way. -/
def createDirAll (d : Disk) (p : PathBuf) : Option Disk :=
  if p.inits.all fun q => notFile (d q) then some (d.withDirs p) else none

/-- `fs::write(p, data)`: creates or replaces the file, inside a directory
that exists. -/
def write (d : Disk) (p : PathBuf) (data : Bytes) : Option Disk :=
  if d p = some .dir ∨ d p.dropLast ≠ some .dir then none
  else some (Function.update d p (some (.file data)))

/-- `fs::read(p)`, `none` for every error. -/
def read (d : Disk) (p : PathBuf) : Option Bytes :=
  match d p with
  | some (.file data) => some data
  | _ => none

/-- `fs::read_to_string(p)`. -/
def readToString (d : Disk) (p : PathBuf) : Option Text := (d.read p).bind Text.fromUtf8

/-- A file stands at `p`, below directories only. -/
def Placed (d : Disk) (p : PathBuf) : Prop :=
  (∃ data, d p = some (.file data)) ∧ ∀ q, q <+: p → q ≠ p → d q = some .dir

/-- `d'` has every directory and file of `d` where it was, whatever the files
say. -/
def Grows (d d' : Disk) : Prop :=
  ∀ q, (d q = some .dir → d' q = some .dir) ∧
    ((∃ data, d q = some (.file data)) → ∃ data, d' q = some (.file data))

theorem Grows.refl (d : Disk) : Grows d d := fun _ => ⟨id, id⟩

theorem Grows.trans {d₁ d₂ d₃ : Disk} (h₁ : Grows d₁ d₂) (h₂ : Grows d₂ d₃) : Grows d₁ d₃ :=
  fun q => ⟨fun h => (h₂ q).1 ((h₁ q).1 h), fun h => (h₂ q).2 ((h₁ q).2 h)⟩

theorem Placed.grows {d d' : Disk} {p : PathBuf} (h : Placed d p) (hg : Grows d d') : Placed d' p :=
  ⟨(hg p).2 h.1, fun q hq hne => (hg q).1 (h.2 q hq hne)⟩

/-- Of two placed files neither is an ancestor of the other. -/
theorem Placed.eq_of_prefix {d : Disk} {p q : PathBuf} (hp : Placed d p) (hq : Placed d q) (h : p <+: q) :
    p = q := by
  by_contra hne
  obtain ⟨data, hf⟩ := hp.1
  rw [hq.2 p h hne] at hf
  cases hf

/-! ## Directories -/

theorem withDirs_of_some {d : Disk} {p q : PathBuf} {n : Node} (h : d q = some n) :
    d.withDirs p q = some n := by
  simp [withDirs, h]

theorem withDirs_file {d : Disk} {p q : PathBuf} {data : Bytes} :
    d.withDirs p q = some (.file data) ↔ d q = some (.file data) := by
  simp only [withDirs]
  split
  next h => simp [h.2]
  · rfl

/-- Nothing appears below the directory. -/
theorem withDirs_below (d : Disk) (p : PathBuf) {rel : PathBuf} (hne : rel ≠ []) :
    d.withDirs p (p ++ rel) = d (p ++ rel) := by
  have hlong : ¬ p ++ rel <+: p := fun hpre => by
    have := hpre.length_le
    have := List.length_pos_iff.2 hne
    simp only [List.length_append] at *
    omega
  simp [withDirs, hlong]

theorem prefix_dropLast {α : Type} {p q : List α} (hp : p ≠ q) (h : p <+: q) : p <+: q.dropLast := by
  obtain ⟨t, rfl⟩ := h
  have ht : t ≠ [] := by rintro rfl; exact hp (by simp)
  exact ⟨t.dropLast, by rw [List.dropLast_append_of_ne_nil ht]⟩

/-- The file itself is below the directories made for it. -/
theorem withDirs_dropLast (d : Disk) {p : PathBuf} (hne : p ≠ []) : d.withDirs p.dropLast p = d p := by
  have h := d.withDirs_below p.dropLast (List.cons_ne_nil (p.getLast hne) [])
  rwa [List.dropLast_append_getLast] at h

theorem grows_withDirs (d : Disk) (p : PathBuf) : Grows d (d.withDirs p) :=
  fun _ => ⟨withDirs_of_some, fun ⟨data, h⟩ => ⟨data, withDirs_of_some h⟩⟩

theorem createDirAll_eq {d d' : Disk} {p : PathBuf} (h : d.createDirAll p = some d') :
    d' = d.withDirs p ∧ ∀ q, q <+: p → d' q = some .dir := by
  unfold createDirAll at h
  split at h
  next hall =>
    cases h
    refine ⟨rfl, fun q hq => ?_⟩
    have hq' := List.all_eq_true.1 hall q (List.mem_inits q p |>.2 hq)
    cases hd : d q with
    | none => simp [withDirs, hq, hd]
    | some n =>
      cases n with
      | dir => exact withDirs_of_some hd
      | file data => simp [hd, notFile] at hq'
  · cases h

/-- Where no file stands in the way, the directories are made. -/
theorem createDirAll_of_noFile {d : Disk} {p : PathBuf} (h : ∀ q data, q <+: p → d q ≠ some (.file data)) :
    d.createDirAll p = some (d.withDirs p) := by
  refine if_pos (List.all_eq_true.2 fun q hq => ?_)
  have hf := fun data => h q data ((List.mem_inits q p).1 hq)
  unfold notFile
  split
  next data hd => exact absurd hd (hf data)
  · rfl

/-! ## Files -/

/-- A new file can be written once its directory is there. -/
theorem write_of_noFile {d d' : Disk} {p : PathBuf} (hne : p ≠ []) (h : d.createDirAll p.dropLast = some d')
    (hp : d p = none) (data : Bytes) : ∃ d'', d'.write p data = some d'' := by
  obtain ⟨rfl, hdirs⟩ := createDirAll_eq h
  refine ⟨_, if_neg ?_⟩
  simp [withDirs_dropLast d hne, hp, hdirs p.dropLast List.prefix_rfl]

theorem write_eq {d d' : Disk} {p : PathBuf} {data : Bytes} (h : d.write p data = some d') :
    d p ≠ some .dir ∧ d' = Function.update d p (some (.file data)) := by
  unfold write at h
  split at h
  · cases h
  next hc =>
    simp only [not_or] at hc
    cases h
    exact ⟨hc.1, rfl⟩

theorem grows_write {d d' : Disk} {p : PathBuf} {data : Bytes} (h : d.write p data = some d') :
    Grows d d' := by
  obtain ⟨hp, rfl⟩ := write_eq h
  intro q
  by_cases hq : q = p
  · subst hq
    exact ⟨fun hd => absurd hd hp, fun _ => ⟨data, by simp⟩⟩
  · exact ⟨fun hd => by simpa [hq] using hd, fun hd => by simpa [hq] using hd⟩

/-! ## Work towards one file -/

/-- What work towards the file `p` may do: make the directories above it and
write it, whatever comes of it. -/
structure Towards (p : PathBuf) (d d' : Disk) : Prop where
  grows : Grows d d'
  elsewhere : ∀ q, ¬ q <+: p → d' q = d q

theorem Towards.refl (p : PathBuf) (d : Disk) : Towards p d d := ⟨Grows.refl d, fun _ _ => rfl⟩

theorem Towards.trans {p : PathBuf} {d₁ d₂ d₃ : Disk} (h₁ : Towards p d₁ d₂) (h₂ : Towards p d₂ d₃) :
    Towards p d₁ d₃ :=
  ⟨h₁.grows.trans h₂.grows, fun q hq => (h₂.elsewhere q hq).trans (h₁.elsewhere q hq)⟩

theorem towards_createDirAll {d d' : Disk} {a p : PathBuf} (h : d.createDirAll a = some d') (ha : a <+: p) :
    Towards p d d' := by
  obtain ⟨rfl, -⟩ := createDirAll_eq h
  refine ⟨grows_withDirs d a, fun q hq => ?_⟩
  have hqa : ¬ q <+: a := fun h => hq (h.trans ha)
  simp [withDirs, hqa]

theorem towards_write {d d' : Disk} {p : PathBuf} {data : Bytes} (h : d.write p data = some d') :
    Towards p d d' := by
  refine ⟨grows_write h, fun q hq => ?_⟩
  obtain ⟨-, rfl⟩ := write_eq h
  refine Function.update_of_ne ?_ _ _
  intro heq
  subst heq
  exact hq List.prefix_rfl

/-- A file that was written is in its place. -/
theorem placed_of_write {d d₁ d₂ : Disk} {p : PathBuf} {data : Bytes}
    (hd : d.createDirAll p.dropLast = some d₁) (hw : d₁.write p data = some d₂) : Placed d₂ p := by
  obtain ⟨-, hdirs⟩ := createDirAll_eq hd
  obtain ⟨-, rfl⟩ := write_eq hw
  refine ⟨⟨data, by simp⟩, fun q hq hne => ?_⟩
  rw [Function.update_of_ne hne]
  exact hdirs q (prefix_dropLast hne hq)

/-! ## Putting a file -/

/-- A file can be put at `p`: no file stands where a directory is needed, and
no directory where the file goes. -/
def Clear (d : Disk) (p : PathBuf) : Prop :=
  (∀ q data, q <+: p.dropLast → d q ≠ some (.file data)) ∧ d p ≠ some .dir

/-- A file in its place, with the directories above it. -/
def put (d : Disk) (p : PathBuf) (data : Bytes) : Disk :=
  Function.update (d.withDirs p.dropLast) p (some (.file data))

theorem write_of_clear {d : Disk} {p : PathBuf} (hne : p ≠ []) (h : d.Clear p) (data : Bytes) :
    ∃ d₁, d.createDirAll p.dropLast = some d₁ ∧ d₁.write p data = some (d.put p data) := by
  have hd := createDirAll_of_noFile h.1
  refine ⟨_, hd, if_neg ?_⟩
  rw [withDirs_dropLast d hne, (createDirAll_eq hd).2 _ List.prefix_rfl]
  simpa using h.2

theorem clear_of_write {d d₁ d₂ : Disk} {p : PathBuf} {data : Bytes} (hne : p ≠ [])
    (hd : d.createDirAll p.dropLast = some d₁) (hw : d₁.write p data = some d₂) :
    d.Clear p ∧ d₂ = d.put p data := by
  obtain ⟨rfl, hdirs⟩ := createDirAll_eq hd
  obtain ⟨hp, rfl⟩ := write_eq hw
  refine ⟨⟨fun q data hq hf => ?_, by rwa [withDirs_dropLast d hne] at hp⟩, rfl⟩
  have hdir := hdirs q hq
  rw [withDirs_of_some hf] at hdir
  cases hdir

/-- Directories that are needed anyway change nothing. -/
theorem clear_withDirs {d : Disk} {a p : PathBuf} (hne : p ≠ []) (ha : a <+: p.dropLast) :
    (d.withDirs a).Clear p ↔ d.Clear p := by
  have hp : ¬ p <+: a := fun hpa => by
    have hlen := (hpa.trans ha).length_le
    have hpos := List.length_pos_iff.2 hne
    rw [List.length_dropLast] at hlen
    omega
  have hself : d.withDirs a p = d p := by simp [withDirs, hp]
  simp only [Clear, ne_eq, withDirs_file, hself]

theorem put_withDirs (d : Disk) {a p : PathBuf} (ha : a <+: p.dropLast) (data : Bytes) :
    (d.withDirs a).put p data = d.put p data := by
  unfold put
  congr 1
  funext q
  by_cases hq : q <+: p.dropLast ∧ d q = none
  · by_cases hqa : q <+: a <;> simp [withDirs, hq, hqa]
  · by_cases hqa : q <+: a ∧ d q = none
    · exact absurd ⟨hqa.1.trans ha, hqa.2⟩ hq
    · simp [withDirs, hq, hqa]

/-- After one file, another one can be put exactly where it could before, and
not above or below the first. -/
theorem clear_put {d : Disk} {p q : PathBuf} {data : Bytes} (hp : p ≠ []) (h : d.Clear p) (hpq : p ≠ q) :
    (d.put p data).Clear q ↔ d.Clear q ∧ ¬ p <+: q ∧ ¬ q <+: p := by
  have hother : ∀ r, r ≠ p → d.put p data r = d.withDirs p.dropLast r := fun r hr =>
    Function.update_of_ne hr _ _
  constructor
  · intro hc
    have hbelow : ¬ p <+: q := fun hpre =>
      hc.1 p data (prefix_dropLast hpq hpre) (Function.update_self ..)
    have habove : ¬ q <+: p := by
      intro hpre
      have hdir := (createDirAll_eq (createDirAll_of_noFile h.1)).2 q (prefix_dropLast (Ne.symm hpq) hpre)
      exact hc.2 (by rw [hother q (Ne.symm hpq), hdir])
    refine ⟨⟨fun r data' hr hf => ?_, fun hdir => ?_⟩, hbelow, habove⟩
    · have hrp : r ≠ p := by rintro rfl; exact hbelow (hr.trans (List.dropLast_prefix _))
      exact hc.1 r data' hr (by rw [hother r hrp, withDirs_of_some hf])
    · exact hc.2 (by rw [hother q (Ne.symm hpq), withDirs_of_some hdir])
  · intro hc
    obtain ⟨hq, hbelow, habove⟩ := hc
    refine ⟨fun r data' hr hf => ?_, fun hdir => ?_⟩
    · have hrp : r ≠ p := by rintro rfl; exact hbelow (hr.trans (List.dropLast_prefix _))
      rw [hother r hrp, withDirs_file] at hf
      exact hq.1 r data' hr hf
    · rw [hother q (Ne.symm hpq)] at hdir
      have hqp : ¬ q <+: p.dropLast := fun hpre => habove (hpre.trans (List.dropLast_prefix _))
      simp only [withDirs, hqp, false_and, if_false] at hdir
      exact hq.2 hdir

/-! ## What is read -/

theorem read_eq_some {d : Disk} {p : PathBuf} {data : Bytes} :
    d.read p = some data ↔ d p = some (.file data) := by
  unfold read
  split
  next h => simp [h]
  next hn => simpa using hn data

/-- Directories are nothing to read. -/
theorem read_createDirAll {d d' : Disk} {a : PathBuf} (h : d.createDirAll a = some d') (p : PathBuf) :
    d'.read p = d.read p := by
  obtain ⟨rfl, -⟩ := createDirAll_eq h
  exact Option.ext fun data => by rw [read_eq_some, read_eq_some, withDirs_file]

theorem read_write_self {d d' : Disk} {p : PathBuf} {data : Bytes} (h : d.write p data = some d') :
    d'.read p = some data := by
  obtain ⟨-, rfl⟩ := write_eq h
  rw [read_eq_some, Function.update_self]

theorem read_write_other {d d' : Disk} {p q : PathBuf} {data : Bytes} (h : d.write p data = some d')
    (hq : q ≠ p) :
    d'.read q = d.read q := by
  obtain ⟨-, rfl⟩ := write_eq h
  simp only [read, Function.update_of_ne hq]

theorem read_put_self (d : Disk) (p : PathBuf) (data : Bytes) : (d.put p data).read p = some data := by
  rw [read_eq_some, put, Function.update_self]

theorem read_put_other (d : Disk) {p q : PathBuf} (hq : q ≠ p) (data : Bytes) :
    (d.put p data).read q = d.read q :=
  Option.ext fun data' => by rw [read_eq_some, read_eq_some, put, Function.update_of_ne hq, withDirs_file]

theorem readToString_of_read {d : Disk} {p : PathBuf} {s : Text} (h : d.read p = some (Text.utf8 s)) :
    d.readToString p = some s := by
  simp [readToString, h, Text.fromUtf8_utf8]

end Disk
