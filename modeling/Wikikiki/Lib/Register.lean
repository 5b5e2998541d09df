/-
A register with conditional writes: the sequential object that optimistic
concurrency control is meant to look like.

A write carries a condition on what the register holds: nothing, a revision
of the value, that there is some value, or that there is none. The revision
is a function of the value, so that a value that comes back brings its
revision back. `Serial` says of a sequence of attempts that each was decided
by its condition on the register as it stood; the laws below are what a
client may conclude from that.
-/
import Mathlib.Data.List.Basic
import Mathlib.Data.List.Nodup

namespace Register

variable {ι V R : Type}

/-- What a write demands of the register. -/
inductive Cond (R : Type) where
  | any
  | revision (r : R)
  | occupied
  | vacant

/-- The condition holds of the register's content. -/
def Cond.Holds (rev : V → R) : Cond R → Option V → Prop
  | .any, _ => True
  | .revision r, cur => ∃ v, cur = some v ∧ rev v = r
  | .occupied, cur => cur ≠ none
  | .vacant, cur => cur = none

section Attempts

variable (cond : ι → Cond R) (value : ι → V) (rev : V → R)

/-- The register after the winners among some attempts. -/
def content (wins : ι → Prop) [DecidablePred wins] (init : Option V) (l : List ι) : Option V :=
  match (l.filter fun i => wins i).getLast? with
  | some i => some (value i)
  | none => init

/-- Each attempt wins exactly when its condition holds at its turn. -/
def Serial (wins : ι → Prop) [DecidablePred wins] (init : Option V) (l : List ι) : Prop :=
  ∀ pre i post, l = pre ++ i :: post → (wins i ↔ (cond i).Holds rev (content value wins init pre))

variable {cond value rev} {wins : ι → Prop} [DecidablePred wins] {init : Option V} {l : List ι}

theorem serial_nil : Serial cond value rev wins init [] := by
  intro pre i post h
  simp at h

theorem Serial.snoc {i : ι} (h : Serial cond value rev wins init l)
    (hi : wins i ↔ (cond i).Holds rev (content value wins init l)) :
    Serial cond value rev wins init (l ++ [i]) := by
  intro pre j post hl
  rcases List.eq_nil_or_concat post with rfl | ⟨post, k, rfl⟩
  · obtain ⟨rfl, hij⟩ := List.concat_inj.1 (by simpa using hl : l.concat i = pre.concat j)
    exact hij ▸ hi
  · have hl' : l.concat i = (pre ++ j :: post).concat k := by simpa using hl
    obtain ⟨rfl, -⟩ := List.concat_inj.1 hl'
    exact h pre j post rfl

theorem content_append (value : ι → V) (wins : ι → Prop) [DecidablePred wins] (init : Option V)
    (l k : List ι) : content value wins init (l ++ k) =
      content value wins (content value wins init l) k := by
  simp only [content, List.filter_append, List.getLast?_append]
  cases (k.filter fun i => wins i).getLast? <;> simp

theorem content_cons_of_win {i : ι} (hi : wins i) (init : Option V) (k : List ι) :
    content value wins init (i :: k) = content value wins (some (value i)) k := by
  have := content_append value wins init [i] k
  simpa [content, hi] using this

theorem content_snoc (value : ι → V) (wins : ι → Prop) [DecidablePred wins] (init : Option V) (l : List ι)
    (i : ι) : content value wins init (l ++ [i]) =
      if wins i then some (value i) else content value wins init l := by
  by_cases hi : wins i <;> simp [content, hi]

/-- A later part of the sequence is one of its own, from where the earlier
part left the register. -/
theorem Serial.append_right {k : List ι} (h : Serial cond value rev wins init (l ++ k)) :
    Serial cond value rev wins (content value wins init l) k := by
  intro pre i post hk
  rw [← content_append]
  exact h (l ++ pre) i post (by rw [hk, List.append_assoc])

/-- The winners by themselves, under other names. -/
theorem Serial.winners {κ : Type} {f : ι → κ} {cond : κ → Cond R} {value : κ → V}
    (h : Serial (fun i => cond (f i)) (fun i => value (f i)) rev wins init l) :
    Serial cond value rev (fun _ => True) init ((l.filter fun i => wins i).map f) := by
  intro pre k post hmap
  obtain ⟨pre', rest, hl, rfl, hrest⟩ := List.map_eq_append_iff.1 hmap
  obtain ⟨i, post', rfl, rfl, -⟩ := List.map_eq_cons_iff.1 hrest
  obtain ⟨pre₁, rest₁, rfl, rfl, hrest₁⟩ := List.filter_eq_append_iff.1 hl
  obtain ⟨skip, post₁, rfl, hskip, hi, -⟩ := List.filter_eq_cons_iff.1 hrest₁
  have hwin := h (pre₁ ++ skip) i post₁ (by simp)
  have hnil : (skip.filter fun i => wins i) = [] := List.filter_eq_nil_iff.2 hskip
  have hcontent : content value (fun _ => True) init ((pre₁.filter fun i => wins i).map f) =
      content (fun i => value (f i)) wins init (pre₁ ++ skip) := by
    simp only [content, decide_true, List.filter_true, List.filter_append, hnil, List.append_nil,
      List.getLast?_map]
    cases (pre₁.filter fun i => wins i).getLast? <;> rfl
  rw [hcontent]
  exact ⟨fun _ => hwin.1 (by simpa using hi), fun _ => trivial⟩

/-- What the register holds after a winner is the winner's own value or a
later winner's. -/
theorem content_after {i : ι} (hi : wins i) (init : Option V) (pre mid : List ι) :
    content value wins init (pre ++ i :: mid) = some (value i) ∨
      ∃ k ∈ mid, wins k ∧ content value wins init (pre ++ i :: mid) = some (value k) := by
  rw [content_append, content_cons_of_win hi]
  cases hl : (mid.filter fun i => wins i).getLast? with
  | none => left; simp [content, hl]
  | some k =>
    right
    have hk := List.mem_filter.1 (List.mem_of_getLast? hl)
    exact ⟨k, hk.1, by simpa using hk.2, by simp [content, hl]⟩

/-- Of two attempts one comes first. -/
theorem exists_order {i j : ι} (hi : i ∈ l) (hj : j ∈ l) (hne : i ≠ j) :
    (∃ pre mid post, l = pre ++ i :: mid ++ j :: post) ∨
      ∃ pre mid post, l = pre ++ j :: mid ++ i :: post := by
  obtain ⟨pre, post, rfl⟩ := List.append_of_mem hi
  rw [List.mem_append, List.mem_cons] at hj
  rcases hj with hj | rfl | hj
  · obtain ⟨pre', mid, rfl⟩ := List.append_of_mem hj
    exact .inr ⟨pre', mid, post, rfl⟩
  · exact absurd rfl hne
  · obtain ⟨mid, post', rfl⟩ := List.append_of_mem hj
    exact .inl ⟨pre, mid, post', by simp⟩

/-- At most one winner asked for a vacant register. -/
theorem Serial.vacant_unique (h : Serial cond value rev wins init l) {i j : ι} (hi : i ∈ l) (hj : j ∈ l)
    (hwi : wins i) (hwj : wins j) (hci : cond i = .vacant) (hcj : cond j = .vacant) : i = j := by
  have hlater : ∀ a b pre mid post, l = pre ++ a :: mid ++ b :: post → wins a → wins b →
      cond b ≠ .vacant := by
    intro a b pre mid post hl ha hb hc
    have hv := (h (pre ++ a :: mid) b post hl).1 hb
    rw [hc] at hv
    rcases content_after ha init pre mid with hs | ⟨_, _, _, hs⟩
    · rw [hs] at hv; cases hv
    · rw [hs] at hv; cases hv
  by_contra hne
  rcases exists_order hi hj hne with ⟨pre, mid, post, hl⟩ | ⟨pre, mid, post, hl⟩
  · exact hlater i j pre mid post hl hwi hwj hcj
  · exact hlater j i pre mid post hl hwj hwi hci

/-- Of two winners, the second of which named the revision `r`, the first one
wrote a value of that revision, or a winner between them did. -/
theorem Serial.revision_between (h : Serial cond value rev wins init l) {pre mid post : List ι} {i j : ι}
    {r : R} (hl : l = pre ++ i :: mid ++ j :: post) (hi : wins i) (hj : wins j)
    (hc : cond j = .revision r) : rev (value i) = r ∨ ∃ k ∈ mid, wins k ∧ rev (value k) = r := by
  have hv := (h (pre ++ i :: mid) j post hl).1 hj
  rw [hc] at hv
  obtain ⟨v, hs, hr⟩ := hv
  rcases content_after hi init pre mid with hw | ⟨k, hk, hwk, hw⟩
  · rw [hw] at hs; cases hs; exact .inl hr
  · rw [hw] at hs; cases hs; exact .inr ⟨k, hk, hwk, hr⟩

/-- **One winner.** When the register holds a value of revision `r`, some
attempt names `r`, and only attempts that name `r` and bring a value of another
revision win, exactly one wins. -/
theorem Serial.one_winner {r : R} {i : ι} (h : Serial cond value rev wins init l)
    (hinit : (Cond.revision r).Holds rev init) (hi : i ∈ l) (hci : cond i = .revision r)
    (hw : ∀ k ∈ l, wins k → cond k = .revision r ∧ rev (value k) ≠ r) :
    ∃ k ∈ l, wins k ∧ ∀ m ∈ l, wins m → m = k := by
  have hsome : ∃ k ∈ l, wins k := by
    by_contra hnone
    obtain ⟨pre, post, rfl⟩ := List.append_of_mem hi
    -- Nobody has won before `i`, so the register is as it was, and `i` wins.
    have hpre : content value wins init pre = init := by
      have hnil : (pre.filter fun k => wins k) = [] := by
        simp only [List.filter_eq_nil_iff, decide_eq_true_eq]
        exact fun k hk hwk => hnone ⟨k, by simp [hk], hwk⟩
      rw [content, hnil]
      rfl
    exact hnone ⟨i, hi, (h pre i post rfl).2 (by rw [hci, hpre]; exact hinit)⟩
  obtain ⟨k, hk, hwk⟩ := hsome
  -- Of two winners the later one finds a value that the other brought.
  have hlater : ∀ a b pre mid post, l = pre ++ a :: mid ++ b :: post → wins a → wins b → False := by
    intro a b pre mid post hl ha hb
    have hmem : ∀ m, m = a ∨ m ∈ mid ∨ m = b → m ∈ l := fun m hm => by rw [hl]; simp; tauto
    rcases h.revision_between hl ha hb (hw b (hmem b (by simp)) hb).1 with hr | ⟨m, hm, hwm, hr⟩
    · exact (hw a (hmem a (by simp)) ha).2 hr
    · exact (hw m (hmem m (by simp [hm])) hwm).2 hr
  refine ⟨k, hk, hwk, fun m hm hwm => ?_⟩
  by_contra hne
  rcases exists_order hm hk hne with ⟨pre, mid, post, hl⟩ | ⟨pre, mid, post, hl⟩
  · exact hlater m k pre mid post hl hwm hwk
  · exact hlater k m pre mid post hl hwk hwm

end Attempts

end Register
