/-
Durations (config/mod.rs, main.rs): what `parse_duration` reads from the
configuration and `parse_lifetime` from the command line, what
`format_duration` writes, and the expiry that is made of them.

Both parsers multiply without a check, and so does the sum with the clock, so
the profile of the build is a parameter: where a result does not fit its type
a debug build panics (`none` here, as for a slice) and a release build wraps.
-/
import Wikikiki.Sessions

namespace Wikikiki

/-! ## Machine arithmetic -/

inductive Profile where
  | debug
  | release
  deriving DecidableEq

instance (x : Int) : Decidable (FitsI64 x) := inferInstanceAs (Decidable (_ ∧ _))

/-- The result of an operation on `u64`. -/
def Profile.toU64 : Profile → Nat → Option Nat
  | .debug, x => if x < 2 ^ 64 then some x else none
  | .release, x => some (x % 2 ^ 64)

/-- The result of an operation on `i64`. -/
def Profile.toI64 : Profile → Int → Option Int
  | .debug, x => if FitsI64 x then some x else none
  | .release, x => some (wrapI64 x)

/-! ## Reading -/

/-- `s.split_at(s.find(|c| !c.is_ascii_digit()).unwrap_or(s.len()))`. -/
def splitDigits (s : Text) : Text × Text := (s.takeWhile Char.isDigit, s.dropWhile Char.isDigit)

/-- `parse` of a run of digits, for a type that ends at `max`. -/
def parseDigits (max : Nat) (digits : Text) : Option Nat :=
  if digits = [] ∨ max < Nat.ofDigitChars 10 digits 0 then none else some (Nat.ofDigitChars 10 digits 0)

/-- The `mult` of a unit. -/
def unitSecs (unit : Text) : Option Nat :=
  if unit = "s".toList ∨ unit = [] then some 1
  else if unit = "m".toList then some 60
  else if unit = "h".toList then some 3600
  else if unit = "d".toList then some 86400
  else if unit = "w".toList then some (7 * 86400)
  else if unit = "y".toList then some (365 * 86400)
  else none

/-- `parse_duration`. -/
def parseDuration (b : Profile) (s : Text) : Option (Except Text Nat) :=
  let s := Text.trim s
  if s = [] then some (.error "empty duration".toList)
  else
    match parseDigits (2 ^ 64 - 1) (splitDigits s).1 with
    | none => some (.error ("invalid number in duration: ".toList ++ s))
    | some n =>
      match unitSecs (splitDigits s).2 with
      | none => some (.error ("unknown duration unit: '".toList ++ (splitDigits s).2 ++ "'".toList))
      | some mult => (b.toU64 (n * mult)).map .ok

/-- `parse_lifetime` up to its product: the seconds that `--lifetime` asks
for. -/
def lifetimeSecs (b : Profile) (raw : Text) : Option (Except AppError Int) :=
  match parseDigits (2 ^ 63 - 1) (splitDigits raw).1 with
  | none => some (.error (.badRequest ("invalid lifetime: ".toList ++ raw)))
  | some n =>
    match unitSecs (splitDigits raw).2 with
    | none => some (.error (.badRequest ("unknown duration unit: '".toList ++ (splitDigits raw).2 ++ "'".toList)))
    | some mult => (b.toI64 (n * mult)).map .ok

/-- `parse_lifetime`, with the default lifetime of the configuration. -/
def parseLifetime (b : Profile) (tokenDefaultLifetime : Option Nat) (now : Int) (raw : Option Text) :
    Option (Except AppError (Option Int)) :=
  match raw with
  | none | some [] =>
    match tokenDefaultLifetime with
    | none => some (.ok none)
    | some d => (b.toI64 (now + asSecs d)).map fun expires => .ok (some expires)
  | some raw =>
    match lifetimeSecs b raw with
    | none => none
    | some (.error e) => some (.error e)
    | some (.ok secs) => (b.toI64 (now + secs)).map fun expires => .ok (some expires)

/-- `session::create` in either build: the sum comes first. -/
def Access.createSessionIn (b : Profile) (acc : Access) (actors : Table ActorRow) (sid : Text)
    (actorId now lifetime : Int) (said : Text) : Option (Except AppError Access) :=
  (b.toI64 (now + lifetime)).map fun _ => acc.createSession actors sid actorId now lifetime said

/-! ## Writing -/

/-- `format_duration`. -/
def formatDuration (s : Nat) : Text :=
  if s % (365 * 86400) = 0 then Nat.toDigits 10 (s / (365 * 86400)) ++ "y".toList
  else if s % 86400 = 0 then Nat.toDigits 10 (s / 86400) ++ "d".toList
  else if s % 3600 = 0 then Nat.toDigits 10 (s / 3600) ++ "h".toList
  else if s % 60 = 0 then Nat.toDigits 10 (s / 60) ++ "m".toList
  else Nat.toDigits 10 s ++ "s".toList

/-! ## What a duration says -/

/-- A run of digits with the value `n`, and a unit of `mult` seconds. -/
def Denotes (s : Text) (n mult : Nat) : Prop :=
  ∃ digits unit, s = digits ++ unit ∧ digits ≠ [] ∧ (∀ c ∈ digits, c.isDigit = true) ∧
    Nat.ofDigitChars 10 digits 0 = n ∧ unitSecs unit = some mult

section

variable {s unit : Text} {n mult : Nat} {b : Profile}

theorem not_whitespace_of_isDigit {c : Char} (h : c.isDigit = true) : Text.isWhitespace c = false := by
  have hrange : 48 ≤ c.toNat ∧ c.toNat ≤ 57 := by
    simpa [Char.isDigit, UInt32.le_iff_toNat_le] using h
  exact Text.isWhitespace_eq_false (by omega) (by omega)

/-- The seven units. -/
theorem unitSecs_cases (h : unitSecs unit = some mult) :
    unit = [] ∨ unit = "s".toList ∨ unit = "m".toList ∨ unit = "h".toList ∨ unit = "d".toList ∨
      unit = "w".toList ∨ unit = "y".toList := by
  unfold unitSecs at h
  split at h
  · next hs => exact hs.elim (fun hs => .inr (.inl hs)) .inl
  repeat' split at h
  all_goals simp_all

/-- A unit has no digit and no whitespace. -/
theorem not_isDigit_of_unitSecs (h : unitSecs unit = some mult) :
    ∀ c ∈ unit, c.isDigit = false ∧ Text.isWhitespace c = false := by
  have hall : unit.all (fun c => !c.isDigit && !Text.isWhitespace c) = true := by
    rcases unitSecs_cases h with rfl | rfl | rfl | rfl | rfl | rfl | rfl <;> decide
  simpa using List.all_eq_true.1 hall

theorem splitDigits_append {digits : Text} (hd : ∀ c ∈ digits, c.isDigit = true)
    (hu : ∀ c ∈ unit, c.isDigit = false) : splitDigits (digits ++ unit) = (digits, unit) := by
  have htake : unit.takeWhile Char.isDigit = [] := by
    cases unit with
    | nil => rfl
    | cons c unit => simp [hu c (by simp)]
  have hdrop : unit.dropWhile Char.isDigit = unit := by
    cases unit with
    | nil => rfl
    | cons c unit => simp [hu c (by simp)]
  rw [splitDigits, List.takeWhile_append_of_pos hd, List.dropWhile_append_of_pos hd, htake, hdrop,
    List.append_nil]

theorem denotes_iff :
    Denotes s n mult ↔ (splitDigits s).1 ≠ [] ∧ Nat.ofDigitChars 10 (splitDigits s).1 0 = n ∧
      unitSecs (splitDigits s).2 = some mult := by
  constructor
  · intro h
    obtain ⟨digits, unit, rfl, hne, hd, hn, hu⟩ := h
    rw [splitDigits_append hd fun c hc => (not_isDigit_of_unitSecs hu c hc).1]
    exact ⟨hne, hn, hu⟩
  · intro h
    obtain ⟨hne, hn, hu⟩ := h
    exact ⟨_, _, List.takeWhile_append_dropWhile.symm, hne, fun c hc => List.mem_takeWhile_imp hc, hn, hu⟩

theorem Denotes.unique {n' mult' : Nat} (h : Denotes s n mult) (h' : Denotes s n' mult') :
    n' = n ∧ mult' = mult := by
  obtain ⟨-, hn, hu⟩ := denotes_iff.1 h
  obtain ⟨-, hn', hu'⟩ := denotes_iff.1 h'
  exact ⟨hn'.symm.trans hn, Option.some.inj (hu'.symm.trans hu)⟩

/-- A duration has no whitespace, so there is nothing to trim. -/
theorem Denotes.trim (h : Denotes s n mult) : Text.trim s = s := by
  obtain ⟨digits, unit, rfl, -, hd, -, hu⟩ := h
  have hall : ∀ c ∈ digits ++ unit, Text.isWhitespace c = false := by
    intro c hc
    rcases List.mem_append.1 hc with hc | hc
    · exact not_whitespace_of_isDigit (hd c hc)
    · exact (not_isDigit_of_unitSecs hu c hc).2
  exact Text.trim_eq_self (fun c hc => hall c (List.mem_of_mem_head? hc))
    fun c hc => hall c (List.mem_of_mem_getLast? hc)

theorem Denotes.ne_nil (h : Denotes s n mult) : s ≠ [] := by
  obtain ⟨digits, unit, rfl, hne, -⟩ := h
  simp [hne]

/-! ## What the parsers accept -/

theorem parseDigits_eq_some {max : Nat} {digits : Text} :
    parseDigits max digits = some n ↔ digits ≠ [] ∧ n ≤ max ∧ Nat.ofDigitChars 10 digits 0 = n := by
  unfold parseDigits
  split
  · next h =>
    simp only [reduceCtorEq, false_iff, not_and]
    intro hne hle hn
    subst hn
    exact h.elim hne (Nat.not_lt.2 hle)
  · next h =>
    obtain ⟨hne, hle⟩ := not_or.1 h
    simp only [Option.some.injEq]
    exact ⟨fun hn => ⟨hne, hn ▸ Nat.not_lt.1 hle, hn⟩, fun h => h.2.2⟩

/-- What both parsers read: a duration whose number fits the integer type. -/
theorem reads_iff {max bound : Nat} (hbound : max + 1 = bound) : Denotes s n mult ∧ n < bound ↔
    parseDigits max (splitDigits s).1 = some n ∧ unitSecs (splitDigits s).2 = some mult := by
  rw [denotes_iff, parseDigits_eq_some]
  constructor
  · intro ⟨⟨hne, hn, hu⟩, hlt⟩
    exact ⟨⟨hne, by omega, hn⟩, hu⟩
  · intro ⟨⟨hne, hle, hn⟩, hu⟩
    exact ⟨⟨hne, hn, hu⟩, by omega⟩

/-- `parse_duration` returns `Ok` for a duration whose number fits `u64`,
with the product as the build has it. -/
theorem parseDuration_eq_ok {d : Nat} :
    parseDuration b s = some (.ok d) ↔
      ∃ n mult, Denotes (Text.trim s) n mult ∧ n < 2 ^ 64 ∧ b.toU64 (n * mult) = some d := by
  have hsplit : ∀ n mult, Denotes (Text.trim s) n mult ∧ n < 2 ^ 64 ↔
      parseDigits (2 ^ 64 - 1) (splitDigits (Text.trim s)).1 = some n ∧
        unitSecs (splitDigits (Text.trim s)).2 = some mult := fun n mult => reads_iff (by decide)
  simp only [← and_assoc, hsplit]
  unfold parseDuration
  by_cases hnil : Text.trim s = []
  · rw [if_pos hnil, hnil]
    simp [splitDigits, parseDigits]
  · rw [if_neg hnil]
    cases hp : parseDigits (2 ^ 64 - 1) (splitDigits (Text.trim s)).1 with
    | none => simp
    | some n =>
      cases hu : unitSecs (splitDigits (Text.trim s)).2 with
      | none => simp
      | some mult => simp

theorem lifetimeSecs_eq_ok {x : Int} :
    lifetimeSecs b s = some (.ok x) ↔
      ∃ n mult, Denotes s n mult ∧ n < 2 ^ 63 ∧ b.toI64 (n * mult) = some x := by
  have hsplit : ∀ n mult, Denotes s n mult ∧ n < 2 ^ 63 ↔
      parseDigits (2 ^ 63 - 1) (splitDigits s).1 = some n ∧ unitSecs (splitDigits s).2 = some mult :=
    fun n mult => reads_iff (by decide)
  simp only [← and_assoc, hsplit]
  unfold lifetimeSecs
  cases hp : parseDigits (2 ^ 63 - 1) (splitDigits s).1 with
  | none => simp
  | some n =>
    cases hu : unitSecs (splitDigits s).2 with
    | none => simp
    | some mult => simp

/-- `parse_lifetime` on text that is not empty: the product, and its sum with
the clock. -/
theorem parseLifetime_eq_ok {dflt : Option Nat} {now : Int} {e : Option Int} (hs : s ≠ []) :
    parseLifetime b dflt now (some s) = some (.ok e) ↔
      ∃ secs expires, lifetimeSecs b s = some (.ok secs) ∧ b.toI64 (now + secs) = some expires ∧
        e = some expires := by
  have heq : parseLifetime b dflt now (some s) =
      (lifetimeSecs b s).bind fun r => match r with
        | .error e => some (.error e)
        | .ok secs => (b.toI64 (now + secs)).map fun expires => .ok (some expires) := by
    obtain ⟨c, s, rfl⟩ := List.exists_cons_of_ne_nil hs
    simp only [parseLifetime]
    cases lifetimeSecs b (c :: s) with
    | none => rfl
    | some r => cases r <;> rfl
  rw [heq]
  cases lifetimeSecs b s with
  | none => simp
  | some r =>
    cases r with
    | error err => simp
    | ok secs => simp [@eq_comm _ e]

end

/-! ## Arithmetic that fits -/

section

variable {b : Profile} {x y : Int} {n m : Nat}

theorem Profile.toU64_debug : Profile.debug.toU64 n = some m ↔ n < 2 ^ 64 ∧ n = m := by simp [toU64]

theorem Profile.toI64_debug : Profile.debug.toI64 x = some y ↔ FitsI64 x ∧ x = y := by simp [toI64]

/-- A result is the exact one when it fits, and only then. -/
theorem Profile.toU64_self : b.toU64 n = some n ↔ n < 2 ^ 64 := by
  cases b with
  | debug => simp [toU64]
  | release =>
    simp only [toU64, Option.some.injEq]
    exact Nat.mod_eq_iff_lt (by decide)

theorem Profile.toU64_lt (h : b.toU64 n = some m) : m < 2 ^ 64 := by
  cases b with
  | debug =>
    obtain ⟨hlt, rfl⟩ := toU64_debug.1 h
    exact hlt
  | release =>
    simp only [toU64, Option.some.injEq] at h
    subst h
    exact Nat.mod_lt _ (by decide)

theorem wrapI64_fits (x : Int) : FitsI64 (wrapI64 x) := by
  have hlo := Int.le_bmod (x := x) (m := 2 ^ 64) (by decide)
  have hhi := Int.bmod_lt (x := x) (m := 2 ^ 64) (by decide)
  unfold FitsI64 wrapI64
  omega

theorem wrapI64_self : wrapI64 x = x ↔ FitsI64 x := ⟨fun h => h ▸ wrapI64_fits x, FitsI64.wrap⟩

theorem Profile.toI64_self : b.toI64 x = some x ↔ FitsI64 x := by
  cases b with
  | debug => simp [toI64]
  | release => simp [toI64, wrapI64_self]

theorem Profile.toI64_fits (h : b.toI64 x = some y) : FitsI64 y := by
  cases b with
  | debug =>
    obtain ⟨hfits, rfl⟩ := toI64_debug.1 h
    exact hfits
  | release =>
    simp only [toI64, Option.some.injEq] at h
    subst h
    exact wrapI64_fits x

/-- A natural number fits `i64` when it is below half of `u64`. -/
theorem fitsI64_natCast : FitsI64 n ↔ n < 2 ^ 63 := by
  unfold FitsI64
  omega

end

/-! ## Writing and reading -/

theorem denotes_toDigits {unit : Text} {mult : Nat} (hu : unitSecs unit = some mult) (n : Nat) :
    Denotes (Nat.toDigits 10 n ++ unit) n mult :=
  ⟨_, _, rfl, Nat.toDigits_ne_nil, fun _ hc => Nat.isDigit_of_mem_toDigits (by decide) (by decide) hc,
    Nat.ofDigitChars_ten_toDigits, hu⟩

theorem denotes_div {unit : Text} {d mult : Nat} (hu : unitSecs unit = some mult) (h : d % mult = 0) :
    ∃ n m, Denotes (Nat.toDigits 10 (d / mult) ++ unit) n m ∧ n * m = d :=
  ⟨_, _, denotes_toDigits hu _, Nat.div_mul_cancel (Nat.dvd_of_mod_eq_zero h)⟩

/-- Whichever unit is picked divides the seconds. -/
theorem formatDuration_denotes (d : Nat) : ∃ n mult, Denotes (formatDuration d) n mult ∧ n * mult = d := by
  unfold formatDuration
  split
  · next h => exact denotes_div (by decide) h
  split
  · next h => exact denotes_div (by decide) h
  split
  · next h => exact denotes_div (by decide) h
  split
  · next h => exact denotes_div (by decide) h
  · exact ⟨_, _, denotes_toDigits (show unitSecs _ = some 1 by decide) _, Nat.mul_one d⟩

/-- `parse_duration` on text that says a duration of at most `u64::MAX`
seconds. -/
theorem Denotes.parseDuration {s : Text} {n mult : Nat} (b : Profile) (h : Denotes s n mult) (hfits : n * mult < 2 ^ 64)
    (hn : n < 2 ^ 64) : parseDuration b s = some (.ok (n * mult)) :=
  parseDuration_eq_ok.2 ⟨n, mult, by rwa [h.trim], hn, Profile.toU64_self.2 hfits⟩

/-- No unit is zero seconds. -/
theorem unitSecs_pos {unit : Text} {mult : Nat} (h : unitSecs unit = some mult) : 1 ≤ mult := by
  unfold unitSecs at h
  repeat' split at h
  all_goals simp_all
  all_goals omega

theorem Denotes.mult_pos {s : Text} {n mult : Nat} (h : Denotes s n mult) : 1 ≤ mult := by
  obtain ⟨digits, unit, -, -, -, -, hu⟩ := h
  exact unitSecs_pos hu

theorem parseDuration_formatDuration (b : Profile) {d : Nat} (hd : d < 2 ^ 64) :
    parseDuration b (formatDuration d) = some (.ok d) := by
  obtain ⟨n, mult, h, rfl⟩ := formatDuration_denotes d
  have hle : n ≤ n * mult := Nat.le_mul_of_pos_right n h.mult_pos
  exact h.parseDuration b hd (Nat.lt_of_le_of_lt hle hd)

/-- **Formatting and parsing.** What is written for a `u64` of seconds reads
back as the same seconds, and the product of the two numbers in it is exact;
so does what is written for anything that was read. -/
theorem duration_round_trip (b : Profile) :
    (∀ d < 2 ^ 64, parseDuration b (formatDuration d) = some (.ok d) ∧
      ∃ n mult, Denotes (formatDuration d) n mult ∧ n * mult = d) ∧
    ∀ s d, parseDuration b s = some (.ok d) → parseDuration b (formatDuration d) = some (.ok d) := by
  refine ⟨fun d hd => ⟨parseDuration_formatDuration b hd, formatDuration_denotes d⟩, fun s d h => ?_⟩
  obtain ⟨n, mult, -, -, hprod⟩ := parseDuration_eq_ok.1 h
  exact parseDuration_formatDuration b (Profile.toU64_lt hprod)

example : formatDuration (7 * 86400) = "7d".toList := by decide

end Wikikiki
