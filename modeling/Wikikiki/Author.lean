/-
Attribution of a commit (git/mod.rs, web/templates.rs): the author line that
an actor's type and handle are rendered into, the name and the email that are
read back out of it, and the badge the history shows for the name.

Nothing on the way checks the handle. `attributed_iff_attributable` says which
actors come out as themselves, `signable_iff` which lines Git lets anybody sign
with; `rendered_eq` is what the default template makes of an actor.
-/
import Wikikiki.Lib.Text

namespace Wikikiki

/-! ## Rendering and reading back -/

/-- `git.author_template` as the configuration has it by default. -/
def defaultAuthorTemplate : Text := "{actor_type}:{actor_handle} <{actor_handle}@wikikiki.local>".toList

/-- `render_author`. -/
def renderAuthor (template actorType actorHandle : Text) : Text :=
  Text.replaceAll "{actor_handle}".toList actorHandle
    (Text.replaceAll "{actor_type}".toList actorType template)

/-- `parse_sig`: name and email, `none` where the slice between the brackets
panics because they stand the wrong way around. -/
def parseSig (rendered : Text) : Option (Text × Text) :=
  match Text.splitOnce '<' rendered, Text.splitOnce '>' rendered with
  | some (name, _), some (upto, _) =>
    if name.length < upto.length then some (Text.trim name, upto.drop (name.length + 1)) else none
  | _, _ => some (rendered, "anonymous@wikikiki.local".toList)

/-- `commit_author_chip`: the handle and the type on the badge. -/
def commitAuthorChip (authorName : Text) : Text × Option Text :=
  match Text.splitOnce ':' authorName with
  | some (ty, handle) => if ty ≠ [] ∧ handle ≠ [] then (handle, some ty) else (authorName, none)
  | none => (authorName, none)

/-! ## Which actors are attributed -/

/-- The commit of the actor carries its name and its email, and the badge
shows the actor again. -/
def Attributed (ty handle : Text) : Prop :=
  parseSig (renderAuthor defaultAuthorTemplate ty handle) =
      some (ty ++ ':' :: handle, handle ++ "@wikikiki.local".toList) ∧
    commitAuthorChip (ty ++ ':' :: handle) = (handle, some ty)

/-- The type as it stands in the line: a placeholder in it is filled, too. -/
def typeInLine (ty handle : Text) : Text := Text.replaceAll "{actor_handle}".toList handle ty

/-- No bracket in either part, no whitespace that `trim` would take, no colon
in the type, no placeholder in the type, and both parts there. -/
structure Attributable (ty handle : Text) : Prop where
  open_ty : '<' ∉ ty
  close_ty : '>' ∉ ty
  colon_ty : ':' ∉ ty
  ty_ne : ty ≠ []
  open_handle : '<' ∉ handle
  close_handle : '>' ∉ handle
  handle_ne : handle ≠ []
  trim_handle : Text.trimEnd handle = handle
  trim_ty : Text.trimStart (typeInLine ty handle) = ty

section

variable {ty handle : Text}

theorem rendered_eq (ty handle : Text) : renderAuthor defaultAuthorTemplate ty handle =
    typeInLine ty handle ++ ':' :: (handle ++ " <".toList ++ handle ++ "@wikikiki.local>".toList) := by
  have h₁ : Text.replaceAll "{actor_type}".toList ty defaultAuthorTemplate =
      ty ++ ':' :: "{actor_handle} <{actor_handle}@wikikiki.local>".toList := rfl
  have h₂ : Text.replaceAll "{actor_handle}".toList handle
      "{actor_handle} <{actor_handle}@wikikiki.local>".toList =
        handle ++ " <".toList ++ handle ++ "@wikikiki.local>".toList := by
    rw [List.append_assoc, List.append_assoc]; rfl
  rw [renderAuthor, h₁, Text.replaceAll_append (by decide) (by decide), h₂, typeInLine]

theorem notMem_typeInLine {c : Char} (ht : c ∉ ty) (hh : c ∉ handle) : c ∉ typeInLine ty handle := fun h =>
  (Text.of_mem_replaceFrom h).elim ht hh

/-- The name comes back from `trim` as the actor exactly when neither end
loses anything. -/
theorem trim_line {r : Text} :
    Text.trim (r ++ ':' :: (handle ++ [' '])) = ty ++ ':' :: handle ↔
      Text.trimStart r = ty ∧ Text.trimEnd handle = handle := by
  have hcolon : Text.isWhitespace ':' = false := by decide
  rw [Text.trim, Text.trimStart_append hcolon, Text.trimEnd_append hcolon, Text.trimEnd_concat_space]
  constructor
  · intro h
    -- A trimmed text is not trimmed further, so the handle is not either.
    have hh : Text.trimEnd handle = handle := by
      rw [← Text.trimEnd_append (a := Text.trimStart r) hcolon] at h
      have ht := Text.trimEnd_trimEnd (Text.trimStart r ++ ':' :: handle)
      rw [h, Text.trimEnd_append hcolon] at ht
      simpa using ht
    rw [hh, List.append_cancel_right_eq] at h
    exact ⟨h, hh⟩
  · intro h
    rw [h.1, h.2]

/-! ## The parser -/

/-- A name and an email in their brackets are read back, the name trimmed. -/
theorem parseSig_brackets (name email rest : Text) (ho : '<' ∉ name) (hc : '>' ∉ name) (hce : '>' ∉ email) :
    parseSig (name ++ '<' :: (email ++ '>' :: rest)) = some (Text.trim name, email) := by
  have hclose : Text.splitOnce '>' (name ++ '<' :: (email ++ '>' :: rest)) =
      some (name ++ '<' :: email, rest) := by
    have := Text.splitOnce_append (c := '>') (a := name ++ '<' :: email) (b := rest) (by simp [hc, hce])
    simpa using this
  simp only [parseSig, Text.splitOnce_append ho, hclose]
  rw [if_pos (by simp), List.drop_length_add_append]
  rfl

/-- What was read from a text with both brackets stood in them. -/
theorem of_parseSig {s name email : Text} (ho : '<' ∈ s) (hc : '>' ∈ s)
    (h : parseSig s = some (name, email)) :
    ∃ before, name = Text.trim before ∧ '<' ∉ before ∧ '>' ∉ before := by
  obtain ⟨⟨before, after⟩, hopen⟩ := Text.exists_splitOnce ho
  obtain ⟨⟨upto, rest⟩, hclose⟩ := Text.exists_splitOnce hc
  simp only [parseSig, hopen, hclose] at h
  split at h
  next hlt =>
    simp only [Option.some.injEq, Prod.mk.injEq] at h
    obtain ⟨hs, hob⟩ := Text.splitOnce_some hopen
    obtain ⟨hs', hcu⟩ := Text.splitOnce_some hclose
    -- The part before the first bracket is inside the part before the closing one.
    have hpre : before <+: upto := List.prefix_of_prefix_length_le
      (hs ▸ List.prefix_append _ _) (hs' ▸ List.prefix_append _ _) (Nat.le_of_lt hlt)
    exact ⟨before, h.1.symm, hob, fun hm => hcu (hpre.subset hm)⟩
  · cases h

/-- Without brackets in the parts, the brackets of the template are found. -/
theorem parseSig_rendered {r : Text} (ho : '<' ∉ r) (hc : '>' ∉ r) (hoh : '<' ∉ handle)
    (hch : '>' ∉ handle) :
    parseSig (r ++ ':' :: (handle ++ " <".toList ++ handle ++ "@wikikiki.local>".toList)) =
      some (Text.trim (r ++ ':' :: (handle ++ [' '])), handle ++ "@wikikiki.local".toList) := by
  have := parseSig_brackets (r ++ ':' :: (handle ++ [' '])) (handle ++ "@wikikiki.local".toList) []
    (by simp [ho, hoh]) (by simp [hc, hch]) (by simp [hch])
  simpa using this

/-- A closing bracket stands before the first opening one. -/
def BracketsCrossed (s : Text) : Prop := ∃ a b, s = a ++ '>' :: b ∧ '<' ∉ a ∧ '<' ∈ b

/-- **When the author line is read.** The slice between the brackets is in
range unless they stand the wrong way around. -/
theorem parseSig_eq_none {s : Text} : parseSig s = none ↔ BracketsCrossed s := by
  by_cases ho : '<' ∈ s
  case neg =>
    have hsplit := Text.splitOnce_eq_none.2 ho
    simp only [parseSig, hsplit, reduceCtorEq, false_iff]
    intro hx
    obtain ⟨a, b, rfl, -, hb⟩ := hx
    exact ho (by simp [hb])
  by_cases hc : '>' ∈ s
  case neg =>
    obtain ⟨p, hp⟩ := Text.exists_splitOnce ho
    simp only [parseSig, hp, Text.splitOnce_eq_none.2 hc, reduceCtorEq, false_iff]
    intro hx
    obtain ⟨a, b, rfl, -, -⟩ := hx
    exact hc (by simp)
  rcases Text.first_of_two (by decide) ho hc with ⟨a, m, r, rfl, hao, hac, hm⟩ | ⟨a, m, r, rfl, hac, hao, hm⟩
  · rw [parseSig_brackets a m r hao hac hm]
    simp only [reduceCtorEq, false_iff]
    intro hx
    obtain ⟨x, y, heq, hxo, -⟩ := hx
    exact Text.not_both_first (by decide) hac hxo heq
  · have hopen : Text.splitOnce '<' (a ++ '>' :: (m ++ '<' :: r)) = some (a ++ '>' :: m, r) := by
      have := Text.splitOnce_append (c := '<') (a := a ++ '>' :: m) (b := r) (by simp [hao, hm])
      simpa using this
    simp only [parseSig, hopen, Text.splitOnce_append hac]
    rw [if_neg (by simp)]
    exact iff_of_true rfl ⟨a, m ++ '<' :: r, rfl, hao, by simp⟩

/-! ## What Git signs with -/

/-- A name or an email that Git writes into a commit: no bracket, no newline. -/
def SignatureToken (s : Text) : Prop := '<' ∉ s ∧ '>' ∉ s ∧ '\n' ∉ s

instance (s : Text) : Decidable (SignatureToken s) := inferInstanceAs (Decidable (_ ∧ _ ∧ _))

/-- The line is free of all three, or its first brackets are a pair: no second
opening one inside, no newline inside, and before them none that `trim` leaves. -/
def Signable (line : Text) : Prop :=
  SignatureToken line ∨ ∃ a m r, line = a ++ '<' :: (m ++ '>' :: r) ∧
    ('<' ∉ a ∧ '>' ∉ a) ∧ '\n' ∉ Text.trim a ∧ SignatureToken m

/-- **Which author lines sign a commit.** -/
theorem signable_iff {line : Text} : Signable line ↔
    ∃ name email, parseSig line = some (name, email) ∧ SignatureToken name ∧ SignatureToken email := by
  constructor
  · intro h
    rcases h with h | ⟨a, m, r, rfl, ⟨hao, hac⟩, hn, hm⟩
    · refine ⟨line, "anonymous@wikikiki.local".toList, ?_, h, by decide⟩
      simp only [parseSig, Text.splitOnce_eq_none.2 h.1]
    · refine ⟨Text.trim a, m, parseSig_brackets a m r hao hac hm.2.1, ⟨?_, ?_, hn⟩, hm⟩
      · exact fun h => hao (Text.trim_subset a h)
      · exact fun h => hac (Text.trim_subset a h)
  · intro h
    obtain ⟨name, email, hsig, hname, hemail⟩ := h
    by_cases hb : '<' ∈ line ∧ '>' ∈ line
    case neg =>
      -- Without both brackets the whole line is the name.
      have hline : parseSig line = some (line, "anonymous@wikikiki.local".toList) := by
        by_cases ho : '<' ∈ line
        · obtain ⟨p, hp⟩ := Text.exists_splitOnce ho
          simp only [parseSig, hp, Text.splitOnce_eq_none.2 fun hc => hb ⟨ho, hc⟩]
        · simp only [parseSig, Text.splitOnce_eq_none.2 ho]
      rw [hline] at hsig
      cases hsig
      exact .inl hname
    rcases Text.first_of_two (by decide) hb.1 hb.2 with
      ⟨a, m, r, rfl, hao, hac, hm⟩ | ⟨a, m, r, rfl, hac, hao, hm⟩
    · rw [parseSig_brackets a m r hao hac hm] at hsig
      cases hsig
      exact .inr ⟨a, _, r, rfl, ⟨hao, hac⟩, hname.2.2, hemail⟩
    · rw [parseSig_eq_none.2 ⟨a, m ++ '<' :: r, rfl, hao, by simp⟩] at hsig
      cases hsig

theorem commitAuthorChip_eq : commitAuthorChip (ty ++ ':' :: handle) = (handle, some ty) ↔
    ':' ∉ ty ∧ ty ≠ [] ∧ handle ≠ [] := by
  constructor
  · intro h
    obtain ⟨⟨ty', handle'⟩, hs⟩ := Text.exists_splitOnce (c := ':') (s := ty ++ ':' :: handle) (by simp)
    simp only [commitAuthorChip, hs] at h
    split at h
    next hne =>
      simp only [Prod.mk.injEq, Option.some.injEq] at h
      obtain ⟨rfl, rfl⟩ := h
      exact ⟨(Text.splitOnce_some hs).2, hne⟩
    · simp at h
  · intro ⟨hc, hne⟩
    simp [commitAuthorChip, Text.splitOnce_append hc, hne]

/-! ## Attribution -/

/-- **Which actors are attributed.** Under the default template the commit of
an actor carries its type and handle, and the history shows them, exactly for
the attributable ones. -/
theorem attributed_iff_attributable : Attributed ty handle ↔ Attributable ty handle := by
  constructor
  · intro ⟨hsig, hchip⟩
    obtain ⟨hcolon, hty, hh⟩ := commitAuthorChip_eq.1 hchip
    rw [rendered_eq] at hsig
    obtain ⟨before, hname, ho, hc⟩ := of_parseSig (by simp) (by simp) hsig
    have hsub : ∀ c ∈ ty ++ ':' :: handle, c ∈ before := fun c h => Text.trim_subset before (hname ▸ h)
    have hot : '<' ∉ ty := fun h => ho (hsub _ (by simp [h]))
    have hct : '>' ∉ ty := fun h => hc (hsub _ (by simp [h]))
    have hoh : '<' ∉ handle := fun h => ho (hsub _ (by simp [h]))
    have hch : '>' ∉ handle := fun h => hc (hsub _ (by simp [h]))
    rw [parseSig_rendered (notMem_typeInLine hot hoh) (notMem_typeInLine hct hch) hoh hch] at hsig
    simp only [Option.some.injEq, Prod.mk.injEq, and_true] at hsig
    obtain ⟨hr, ht⟩ := trim_line.1 hsig
    exact ⟨hot, hct, hcolon, hty, hoh, hch, hh, ht, hr⟩
  · intro h
    refine ⟨?_, commitAuthorChip_eq.2 ⟨h.colon_ty, h.ty_ne, h.handle_ne⟩⟩
    rw [rendered_eq, parseSig_rendered (notMem_typeInLine h.open_ty h.open_handle)
      (notMem_typeInLine h.close_ty h.close_handle) h.open_handle h.close_handle,
      trim_line.2 ⟨h.trim_ty, h.trim_handle⟩]

/-- Attributed actors are told apart by the name alone. -/
theorem Attributable.name_injective {ty' handle' : Text} (h : Attributable ty handle)
    (h' : Attributable ty' handle') (hn : ty ++ ':' :: handle = ty' ++ ':' :: handle') :
    ty = ty' ∧ handle = handle' := by
  have hs := Text.splitOnce_append (b := handle) h.colon_ty
  rw [hn, Text.splitOnce_append h'.colon_ty] at hs
  simpa [eq_comm] using hs

end

/-- **Attribution.** The commit of an actor carries its type and its handle,
and the history shows them, exactly when the actor is attributable; and of
two such actors no two commit under one name and email. -/
theorem attribution (ty handle : Text) :
    (Attributed ty handle ↔ Attributable ty handle) ∧
      ∀ ty' handle', Attributed ty handle → Attributed ty' handle' →
        parseSig (renderAuthor defaultAuthorTemplate ty handle) =
          parseSig (renderAuthor defaultAuthorTemplate ty' handle') → ty = ty' ∧ handle = handle' := by
  refine ⟨attributed_iff_attributable, fun ty' handle' h h' hsig => ?_⟩
  rw [h.1, h'.1] at hsig
  simp only [Option.some.injEq, Prod.mk.injEq] at hsig
  exact (attributed_iff_attributable.1 h).name_injective (attributed_iff_attributable.1 h') hsig.1

/-- A handle with an address in brackets commits as the actor of that
address. -/
theorem handle_forges_author :
    ¬ Attributed "human".toList "alice <alice@wikikiki.local>".toList ∧
      parseSig (renderAuthor defaultAuthorTemplate "human".toList "alice <alice@wikikiki.local>".toList) =
        parseSig (renderAuthor defaultAuthorTemplate "human".toList "alice".toList) := by
  refine ⟨fun h => ?_, by decide⟩
  exact absurd (attributed_iff_attributable.1 h).open_handle (by decide)

end Wikikiki
