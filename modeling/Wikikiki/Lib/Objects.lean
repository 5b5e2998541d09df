/-
Trees that are kept by id, the way a content-addressed store keeps its
directories: a tree is a list of entries, and an entry is a name with a kind
and the id of an object.

`Leads` is what it means to follow a path, and `Puts` what it means to put an
object at one; both look at the entries of one tree after the other.
`Holds` reads such trees as values: there, following a path is `Tree.lookup`
(`leads_iff`), and what `Puts` makes is `Tree.upsert` (`Puts.holds`). The
laws of the two about values carry over to the store.
-/
import Mathlib.Data.List.Nodup
import Mathlib.Logic.Function.Basic
import Wikikiki.Lib.Tree

namespace Objects

/-- What an entry says its object is. -/
inductive Kind where
  | tree
  | blob
  | blobExecutable
  | link
  | commit
  deriving DecidableEq

def Kind.isTree (k : Kind) : Bool := k == .tree

/-- Executable or not. -/
def Kind.isBlob (k : Kind) : Bool := k == .blob || k == .blobExecutable

theorem Kind.not_isBlob {k : Kind} (h : k.isTree = true) : k.isBlob = false := by
  cases k <;> first | rfl | cases h

theorem Kind.not_isTree {k : Kind} (h : k.isBlob = true) : k.isTree = false := by
  cases k <;> first | rfl | cases h

structure Entry (N I : Type) where
  name : N
  kind : Kind
  id : I
  deriving DecidableEq

/-- The trees of a store. -/
abbrev Trees (N I : Type) := I → Option (List (Entry N I))

/-- What is in one store is in the other. -/
def Extends {α β : Type} (s s' : α → Option β) : Prop := ∀ a b, s a = some b → s' a = some b

section

variable {N I : Type} {s s' : Trees N I} {es : List (Entry N I)} {e : Entry N I}

/-- No two entries of a tree have the same name. -/
def Unique (es : List (Entry N I)) : Prop := (es.map Entry.name).Nodup

instance [DecidableEq N] (es : List (Entry N I)) : Decidable (Unique es) :=
  inferInstanceAs (Decidable (es.map Entry.name).Nodup)

/-- The path leads from these entries through trees to the blob entry of an
id. -/
inductive Leads (s : Trees N I) : List (Entry N I) → List N → I → Prop
  | blob {es : List (Entry N I)} {e : Entry N I} : e ∈ es → e.kind.isBlob = true → Leads s es [e.name] e.id
  | tree {es es' : List (Entry N I)} {e : Entry N I} {p : List N} {b : I} : e ∈ es → e.kind.isTree = true →
    s e.id = some es' → Leads s es' p b → Leads s es (e.name :: p) b

/-- The trees below these entries are all there, and none has a name twice. -/
inductive Whole (s : Trees N I) : List (Entry N I) → Prop
  | mk {es : List (Entry N I)} : Unique es → (∀ e ∈ es, e.kind.isTree = true → s e.id ≠ none) →
    (∀ e ∈ es, e.kind.isTree = true → ∀ es', s e.id = some es' → Whole s es') → Whole s es

theorem not_leads_nil {b : I} : ¬ Leads s es [] b := by
  intro h
  cases h

theorem Whole.unique (h : Whole s es) : Unique es := by
  cases h
  assumption

theorem Whole.nil (s : Trees N I) : Whole s [] :=
  ⟨List.nodup_nil, fun _ h => absurd h List.not_mem_nil, fun _ h => absurd h List.not_mem_nil⟩

theorem Whole.sub {sub : List (Entry N I)} (h : Whole s es) (he : e ∈ es) (hk : e.kind.isTree = true)
    (hsub : s e.id = some sub) : Whole s sub := by
  obtain ⟨-, -, hbelow⟩ := h
  exact hbelow e he hk sub hsub

/-- The tree under an entry. -/
theorem Whole.under (h : Whole s es) (he : e ∈ es) (hk : e.kind.isTree = true) :
    ∃ es', s e.id = some es' ∧ Whole s es' := by
  have hthere : s e.id ≠ none := by
    obtain ⟨-, hthere, -⟩ := h
    exact hthere e he hk
  obtain ⟨es', hes⟩ := Option.ne_none_iff_exists'.1 hthere
  exact ⟨es', hes, h.sub he hk hes⟩

theorem whole_iff : Whole s es ↔
    Unique es ∧ ∀ e ∈ es, e.kind.isTree = true → ∃ es', s e.id = some es' ∧ Whole s es' := by
  constructor
  · intro h
    exact ⟨h.unique, fun e he hk => h.under he hk⟩
  · intro h
    refine ⟨h.1, fun e he hk => ?_, fun e he hk es₁ hes₁ => ?_⟩
    · obtain ⟨es', hes, -⟩ := h.2 e he hk
      simp [hes]
    · obtain ⟨es', hes, hw⟩ := h.2 e he hk
      obtain rfl : es' = es₁ := Option.some.inj (hes.symm.trans hes₁)
      exact hw

/-- A tree stays whole in a store that grows. -/
theorem Whole.mono (h : Whole s es) (hs : Extends s s') : Whole s' es := by
  induction h with
  | mk hunique hthere _ ih =>
    refine whole_iff.2 ⟨hunique, fun e he hk => ?_⟩
    obtain ⟨es', hes⟩ := Option.ne_none_iff_exists'.1 (hthere e he hk)
    exact ⟨es', hs _ _ hes, ih e he hk es' hes⟩

end

section

variable {N I : Type} [DecidableEq N] {s s' : Trees N I} {es : List (Entry N I)} {e : Entry N I} {n m : N}
  {p : List N} {b : I}

/-- The first entry of a name. -/
def named (n : N) (es : List (Entry N I)) : Option (Entry N I) := es.find? fun e => e.name = n

theorem named_cons : named n (e :: es) = if e.name = n then some e else named n es := by
  by_cases h : e.name = n <;> simp [named, h]

theorem named_eq_none : named n es = none ↔ ∀ e ∈ es, e.name ≠ n := by
  simp [named, List.find?_eq_none]

theorem mem_of_named (h : named n es = some e) : e ∈ es := List.mem_of_find?_eq_some h

theorem named_eq_some (h : Unique es) : named n es = some e ↔ e ∈ es ∧ e.name = n := by
  constructor
  · intro hn
    exact ⟨mem_of_named hn, by simpa using List.find?_some hn⟩
  · intro hmem
    obtain ⟨hmem, rfl⟩ := hmem
    cases hn : named e.name es with
    | none => exact absurd rfl (named_eq_none.1 hn e hmem)
    | some d =>
      have hd : d.name = e.name := by simpa using List.find?_some hn
      rw [List.inj_on_of_nodup_map h (mem_of_named hn) hmem hd]

/-! ## Following a path -/

/-- The last name of a path must be a blob's. -/
theorem leads_last (h : Unique es) :
    Leads s es [n] b ↔ ∃ e, named n es = some e ∧ e.kind.isBlob = true ∧ e.id = b := by
  constructor
  · intro hl
    cases hl with
    | @blob _ e he hk => exact ⟨e, (named_eq_some h).2 ⟨he, rfl⟩, hk, rfl⟩
    | tree _ _ _ hnil => exact absurd hnil not_leads_nil
  · intro hex
    obtain ⟨e, he, hk, rfl⟩ := hex
    obtain ⟨hmem, rfl⟩ := (named_eq_some h).1 he
    exact .blob hmem hk

/-- An inner one must be a tree's. -/
theorem leads_inner (h : Unique es) :
    Leads s es (n :: m :: p) b ↔
      ∃ e es', named n es = some e ∧ e.kind.isTree = true ∧ s e.id = some es' ∧ Leads s es' (m :: p) b := by
  constructor
  · intro hl
    cases hl with
    | @tree _ es' e _ _ he hk hes hrest => exact ⟨e, es', (named_eq_some h).2 ⟨he, rfl⟩, hk, hes, hrest⟩
  · intro hex
    obtain ⟨e, es', he, hk, hes, hrest⟩ := hex
    obtain ⟨hmem, rfl⟩ := (named_eq_some h).1 he
    exact .tree hmem hk hes hrest

end

/-! ## Trees as values -/

section

variable {N M I β : Type} [DecidableEq N] [DecidableEq M]

/-- An entry of the store holds an entry of a tree that is a value, whose
names `f` takes to those of the store and whose blobs are the `data` of the
ids. -/
inductive HoldsAt (s : Trees N I) (f : M → N) (data : I → Option β) :
    Option (Entry N I) → Option (Tree.Entry M β) → Prop
  | none : HoldsAt s f data none none
  | blob {e : Entry N I} {b : β} : e.kind.isBlob = true → data e.id = some b →
    HoldsAt s f data (some e) (some (.blob b))
  | tree {e : Entry N I} {es : List (Entry N I)} {t : Tree.Entries M β} : e.kind.isTree = true → s e.id = some es →
    (∀ n, HoldsAt s f data (named (f n) es) (Tree.entry n t)) → HoldsAt s f data (some e) (some (.tree t))
  | other {e : Entry N I} : e.kind.isBlob = false → e.kind.isTree = false →
    HoldsAt s f data (some e) (some .other)

/-- What these entries hold. -/
def Holds (s : Trees N I) (f : M → N) (data : I → Option β) (es : List (Entry N I)) (t : Tree.Entries M β) : Prop :=
  ∀ n, HoldsAt s f data (named (f n) es) (Tree.entry n t)

variable {s s' : Trees N I} {f : M → N} {data data' : I → Option β} {es es' : List (Entry N I)}
  {t : Tree.Entries M β} {n : M} {p q : List M}

theorem HoldsAt.mono {o : Option (Entry N I)} {v : Option (Tree.Entry M β)} (h : HoldsAt s f data o v)
    (hs : Extends s s') (hd : Extends data data') : HoldsAt s' f data' o v := by
  induction h with
  | none => exact .none
  | blob hk hb => exact .blob hk (hd _ _ hb)
  | tree hk hes _ ih => exact .tree hk (hs _ _ hes) ih
  | other hb ht => exact .other hb ht

theorem Holds.nil (s : Trees N I) (f : M → N) (data : I → Option β) : Holds s f data [] [] := fun _ => .none

/-- The subtree under a name. -/
theorem Holds.subtree {e : Entry N I} (h : Holds s f data es t) (hn : named (f n) es = some e)
    (hk : e.kind.isTree = true) (hes : s e.id = some es') : Holds s f data es' (Tree.subtree n t) := by
  have hat := h n
  rw [hn] at hat
  cases hv : Tree.entry n t with
  | none => rw [hv] at hat; cases hat
  | some v =>
    rw [hv] at hat
    cases hat with
    | blob hb _ => rw [Kind.not_isBlob hk] at hb; cases hb
    | @tree _ es₁ t₁ _ hes₁ hsub =>
      obtain rfl : es₁ = es' := Option.some.inj (hes₁.symm.trans hes)
      rw [Tree.subtree, hv]
      exact hsub
    | other _ ht => rw [hk] at ht; cases ht

/-- There is none where no tree is. -/
theorem Holds.no_subtree (h : Holds s f data es t) (hn : ∀ e, named (f n) es = some e → e.kind.isTree = false) :
    Tree.subtree n t = [] := by
  have hat := h n
  cases hv : Tree.entry n t with
  | none => simp [Tree.subtree, hv]
  | some v =>
    rw [hv] at hat
    generalize ho : named (f n) es = o at hat
    cases hat with
    | tree hk _ _ => rw [hn _ ho] at hk; cases hk
    | blob _ _ => simp [Tree.subtree, hv]
    | other _ _ => simp [Tree.subtree, hv]

theorem holds_of_forall {es : List (Entry N I)}
    (h : ∀ e ∈ es, ∃ v, HoldsAt s (fun n : N => n) some (some e) (some v)) :
    ∃ t, Holds s (fun n : N => n) some es t := by
  induction es with
  | nil => exact ⟨[], .nil s _ _⟩
  | cons e es ih =>
    obtain ⟨v, hv⟩ := h e List.mem_cons_self
    obtain ⟨t, ht⟩ := ih fun d hd => h d (List.mem_cons_of_mem _ hd)
    refine ⟨(e.name, v) :: t, fun n => ?_⟩
    by_cases hn : e.name = n
    · simpa [named_cons, Tree.entry, hn] using hv
    · simpa [named_cons, Tree.entry, hn] using ht n

/-- Whole trees are values: with their own names, and with the ids for the
blobs. -/
theorem Whole.holds {es : List (Entry N I)} (h : Whole s es) : ∃ t, Holds s (fun n : N => n) some es t := by
  induction h with
  | @mk es _ hthere _ ih =>
    refine holds_of_forall fun e he => ?_
    by_cases hk : e.kind.isTree = true
    · obtain ⟨es', hes⟩ := Option.ne_none_iff_exists'.1 (hthere e he hk)
      obtain ⟨t, ht⟩ := ih e he hk es' hes
      exact ⟨_, .tree hk hes ht⟩
    by_cases hb : e.kind.isBlob = true
    · exact ⟨_, .blob hb rfl⟩
    · exact ⟨_, .other (by simpa using hb) (by simpa using hk)⟩

/-- Where a path leads, the value has the blob. -/
theorem Leads.lookup {b : I} (h : Leads s es (p.map f) b) (hw : Whole s es) (hes : Holds s f data es t) :
    ∃ x, data b = some x ∧ Tree.lookup t p = some x := by
  induction p generalizing es t with
  | nil => exact absurd h not_leads_nil
  | cons n p ih =>
    cases p with
    | nil =>
      obtain ⟨e, hn, hk, rfl⟩ := (leads_last hw.unique).1 h
      have hat := hes n
      rw [hn] at hat
      generalize hv : Tree.entry n t = v at hat
      cases hat with
      | blob _ hb => exact ⟨_, hb, by simp [Tree.lookup, hv]⟩
      | tree ht _ _ => rw [Kind.not_isBlob ht] at hk; cases hk
      | other hb _ => rw [hb] at hk; cases hk
    | cons m p =>
      obtain ⟨e, sub, hn, hk, hsub, hl⟩ := (leads_inner hw.unique).1 h
      rw [← Tree.lookup_subtree]
      exact ih hl (hw.sub (mem_of_named hn) hk hsub) (hes.subtree hn hk hsub)

/-- Where the value has a blob, the path leads to it. -/
theorem Holds.leads {x : β} (hes : Holds s f data es t) (hw : Whole s es) (h : Tree.lookup t p = some x) :
    ∃ b, Leads s es (p.map f) b ∧ data b = some x := by
  induction p generalizing es t with
  | nil => simp [Tree.lookup] at h
  | cons n p ih =>
    cases p with
    | nil =>
      have hat := hes n
      simp only [Tree.lookup] at h
      generalize hv : Tree.entry n t = v at hat h
      generalize hn : named (f n) es = o at hat
      cases hat with
      | @blob e _ hk hb =>
        cases h
        exact ⟨e.id, (leads_last hw.unique).2 ⟨e, hn, hk, rfl⟩, hb⟩
      | none => cases h
      | tree _ _ _ => cases h
      | other _ _ => cases h
    | cons m p =>
      rw [← Tree.lookup_subtree] at h
      by_cases htree : ∃ e, named (f n) es = some e ∧ e.kind.isTree = true
      · obtain ⟨e, hn, hk⟩ := htree
        obtain ⟨sub, hsub, hw'⟩ := hw.under (mem_of_named hn) hk
        obtain ⟨b, hl, hb⟩ := ih (hes.subtree hn hk hsub) hw' h
        exact ⟨b, (leads_inner hw.unique).2 ⟨e, sub, hn, hk, hsub, hl⟩, hb⟩
      · have hno : ∀ e, named (f n) es = some e → e.kind.isTree = false := fun e hn => by
          simpa using fun hk => htree ⟨e, hn, hk⟩
        rw [hes.no_subtree hno, Tree.lookup_nil] at h
        cases h

end

/-! ## Putting an object at a path -/

section

variable {N I : Type}

/-- The entry is set in a tree: it is there instead of the one that had its
name, and all others are as they were. -/
structure Sets (e : Entry N I) (es es' : List (Entry N I)) : Prop where
  mem : ∀ d, d ∈ es' ↔ d = e ∨ d ∈ es ∧ d.name ≠ e.name
  unique : Unique es'

/-- The tree under a name; a new one where the name has no tree. -/
inductive Under (s : Trees N I) (es : List (Entry N I)) (n : N) : List (Entry N I) → Prop
  | there {e : Entry N I} {sub : List (Entry N I)} : e ∈ es → e.name = n → e.kind.isTree = true →
    s e.id = some sub → Under s es n sub
  | new : (∀ e ∈ es, e.name = n → e.kind.isTree = false) → Under s es n []

/-- An object is put at a path: its entry is set in the last tree of the path,
and in every tree above it the entry of the next one, which `s'` has. -/
inductive Puts (s s' : Trees N I) (k : Kind) (b : I) : List (Entry N I) → List N → List (Entry N I) → Prop
  | last {es es' : List (Entry N I)} {n : N} : Sets ⟨n, k, b⟩ es es' → Puts s s' k b es [n] es'
  | inner {es es' sub sub' : List (Entry N I)} {n m : N} {p : List N} {child : I} : Under s es n sub →
    Puts s s' k b sub (m :: p) sub' → s' child = some sub' → Sets ⟨n, .tree, child⟩ es es' →
    Puts s s' k b es (n :: m :: p) es'

variable {s s' s'' : Trees N I} {es es' sub : List (Entry N I)} {e : Entry N I} {n : N} {p : List N} {k : Kind} {b : I}

theorem Puts.ne_nil (h : Puts s s' k b es p es') : p ≠ [] := by
  cases h <;> exact List.cons_ne_nil _ _

theorem Puts.mono (h : Puts s s' k b es p es') (hs : Extends s' s'') : Puts s s'' k b es p es' := by
  induction h with
  | last hset => exact .last hset
  | inner hu _ hchild hset ih => exact .inner hu ih (hs _ _ hchild) hset

theorem Under.whole (h : Under s es n sub) (hw : Whole s es) : Whole s sub := by
  cases h with
  | there he _ hk hsub => exact hw.sub he hk hsub
  | new _ => exact .nil s

/-- Setting an entry whose tree is whole keeps the others whole. -/
theorem Sets.whole (h : Sets e es es') (hw : Whole s es)
    (he : e.kind.isTree = true → ∃ sub, s e.id = some sub ∧ Whole s sub) : Whole s es' := by
  refine whole_iff.2 ⟨h.unique, fun d hd hk => ?_⟩
  rcases (h.mem d).1 hd with rfl | ⟨hd, -⟩
  · exact he hk
  · exact hw.under hd hk

theorem Puts.whole (h : Puts s s' k b es p es') (hw : Whole s es) (hs : Extends s s') (hk : k.isTree = false) :
    Whole s' es' := by
  induction h with
  | last hset => exact hset.whole (hw.mono hs) fun htree => absurd htree (by simp [hk])
  | inner hu _ hchild hset ih => exact hset.whole (hw.mono hs) fun _ => ⟨_, hchild, ih (hu.whole hw)⟩

end

section

variable {N M I β : Type} [DecidableEq N] [DecidableEq M] {s s' : Trees N I} {f : M → N} {data data' : I → Option β}
  {es es' sub : List (Entry N I)} {e : Entry N I} {t : Tree.Entries M β} {k : Kind} {b : I} {x : β}

theorem Sets.named_self (h : Sets e es es') : named e.name es' = some e :=
  (named_eq_some h.unique).2 ⟨(h.mem e).2 (.inl rfl), rfl⟩

theorem Sets.named_other {n : N} (h : Sets e es es') (hu : Unique es) (hn : n ≠ e.name) :
    named n es' = named n es := by
  refine Option.ext fun d => ?_
  rw [named_eq_some h.unique, named_eq_some hu, h.mem]
  constructor
  · intro hd
    obtain ⟨rfl | ⟨hd, -⟩, rfl⟩ := hd
    · exact absurd rfl hn
    · exact ⟨hd, rfl⟩
  · intro hd
    obtain ⟨hd, rfl⟩ := hd
    exact ⟨.inr ⟨hd, hn⟩, rfl⟩

/-- What an entry is set to is all that changes in the value. -/
theorem Sets.holds {n : M} {v : Tree.Entry M β} {i : I} (h : Sets ⟨f n, k, i⟩ es es') (hf : Function.Injective f)
    (hu : Unique es) (hes : Holds s f data es t) (hv : HoldsAt s f data (some ⟨f n, k, i⟩) (some v)) :
    Holds s f data es' (Tree.setEntry n v t) := by
  intro m
  by_cases hm : m = n
  · subst hm
    rw [h.named_self, Tree.entry_setEntry_self]
    exact hv
  · rw [h.named_other hu (fun he => hm (hf he)), Tree.entry_setEntry_other hm]
    exact hes m

theorem Under.holds {n : M} (h : Under s es (f n) sub) (hu : Unique es) (hes : Holds s f data es t) :
    Holds s f data sub (Tree.subtree n t) := by
  cases h with
  | there he hn hk hsub => exact hes.subtree ((named_eq_some hu).2 ⟨he, hn⟩) hk hsub
  | new hno =>
    rw [hes.no_subtree fun e he => hno e ((named_eq_some hu).1 he).1 ((named_eq_some hu).1 he).2]
    exact .nil s f data

/-- **Putting a blob in the store is putting it in the value.** -/
theorem Puts.holds {p : List M} (h : Puts s s' k b es (p.map f) es') (hf : Function.Injective f) (hw : Whole s es)
    (hes : Holds s f data es t) (hs : Extends s s') (hd : Extends data data') (hk : k.isBlob = true)
    (hb : data' b = some x) : Holds s' f data' es' (Tree.upsert t p x) := by
  have hgrown : ∀ {es : List (Entry N I)} {t : Tree.Entries M β}, Holds s f data es t → Holds s' f data' es t :=
    fun hes n => (hes n).mono hs hd
  induction p generalizing es es' t with
  | nil => cases h
  | cons n p ih =>
    cases p with
    | nil =>
      cases h with
      | last hset => exact hset.holds hf hw.unique (hgrown hes) (.blob hk hb)
    | cons m p =>
      cases h with
      | @inner _ _ sub sub' _ _ _ child hu hput hchild hset =>
        have hsub := ih hput (hu.whole hw) (hu.holds hw.unique hes)
        exact hset.holds hf hw.unique (hgrown hes) (.tree rfl hchild hsub)

end

section

variable {N I : Type} [DecidableEq N] {s s' : Trees N I} {es es' : List (Entry N I)} {p q : List N} {k : Kind} {b x : I}

/-- **Following a path in the store is looking it up in the value.** -/
theorem leads_iff {t : Tree.Entries N I} (hw : Whole s es) (h : Holds s (fun n : N => n) some es t) :
    Leads s es p b ↔ Tree.lookup t p = some b := by
  have hp : p.map (fun n : N => n) = p := List.map_id' p
  constructor
  · intro hl
    obtain ⟨x, hx, ht⟩ := Leads.lookup (hp.symm ▸ hl) hw h
    rw [Option.some.inj hx, ht]
  · intro ht
    obtain ⟨x, hl, hx⟩ := h.leads hw ht
    rw [← Option.some.inj hx, ← hp]
    exact hl

/-- The path leads to what was put there. -/
theorem Puts.leads_self (h : Puts s s' k b es p es') (hw : Whole s es) (hs : Extends s s') (hk : k.isBlob = true) :
    Leads s' es' p b := by
  obtain ⟨t, ht⟩ := hw.holds
  have hput : Puts s s' k b es (p.map fun n : N => n) es' := by simpa using h
  have ht' := hput.holds (fun _ _ he => he) hw ht hs (fun _ _ hd => hd) hk (x := b) rfl
  refine (leads_iff (h.whole hw hs (Kind.not_isTree hk)) ht').2 ?_
  exact Tree.lookup_upsert_self t h.ne_nil b

/-- Paths that are neither above it nor below it lead where they led. -/
theorem Puts.leads_other (h : Puts s s' k b es p es') (hw : Whole s es) (hs : Extends s s') (hk : k.isBlob = true)
    (hpq : ¬ p <+: q) (hqp : ¬ q <+: p) : Leads s' es' q x ↔ Leads s es q x := by
  obtain ⟨t, ht⟩ := hw.holds
  have hput : Puts s s' k b es (p.map fun n : N => n) es' := by simpa using h
  have ht' := hput.holds (fun _ _ he => he) hw ht hs (fun _ _ hd => hd) hk (x := b) rfl
  rw [leads_iff (h.whole hw hs (Kind.not_isTree hk)) ht', leads_iff hw ht,
    Tree.lookup_upsert_other t hpq hqp b]

end

/-! ## Entries that are set -/

section

variable {N I : Type} [DecidableEq N] {s : Trees N I} {es : List (Entry N I)}

/-- A tree with the entry set. -/
def setEntry (e : Entry N I) (es : List (Entry N I)) : List (Entry N I) := e :: es.filter fun d => d.name ≠ e.name

/-- The tree under a name, or a new one. -/
def under (s : Trees N I) (es : List (Entry N I)) (n : N) : List (Entry N I) :=
  match named n es with
  | some e => if e.kind.isTree then (s e.id).getD [] else []
  | none => []

theorem sets_setEntry (h : Unique es) (e : Entry N I) : Sets e es (setEntry e es) := by
  refine ⟨fun d => by simp [setEntry], ?_⟩
  simp only [setEntry, Unique, List.map_cons, List.nodup_cons]
  refine ⟨?_, h.sublist (List.filter_sublist.map _)⟩
  intro hmem
  obtain ⟨d, hd, hn⟩ := List.mem_map.1 hmem
  simp [hn] at hd

theorem under_under (h : Whole s es) (n : N) : Under s es n (under s es n) := by
  unfold under
  split
  next e hn =>
    obtain ⟨he, rfl⟩ := (named_eq_some h.unique).1 hn
    split
    next hk =>
      obtain ⟨sub, hsub, -⟩ := h.under he hk
      exact .there he rfl hk (by simp [hsub])
    next hk =>
      refine .new fun d hd hdn => ?_
      obtain rfl := Option.some.inj (hn.symm.trans ((named_eq_some h.unique).2 ⟨hd, hdn⟩))
      simpa using hk
  next hn => exact .new fun d hd hdn => absurd hdn (named_eq_none.1 hn d hd)

end

end Objects
