/-
A pointer leads to the definition it was written for.

A definition stands in one of two sections under a name. A reference to it
is the section's start with the name behind it, in which tildes and
slashes are escaped. Escaping leaves no slash in a name and can be undone,
and the two sections start differently, so a reference spells one
definition at most, and a pointer is read back as its key.

# What a reference spells

`Spells` says which references are to a definition, without saying how
they are read: the start of a section and a text without a slash, which
unescaped is the name. There can be more than one for a definition, since
a tilde that begins no escape stands for itself and need not be escaped.
Reading tries the sections in turn; that it finds what is spelled, in
whichever section, is `ofPointer?_eq_some_iff`, and all that is said of
references elsewhere goes by this.

# The empty name

A pointer to a definition with an empty name ends where the name would
begin, and is not read as a reference to it. It is the only name without a
reference.
-/
import Mathlib.Data.List.Basic
import TypedSelect.Schema.Pointer

namespace TypedSelect

namespace Schema

/-- A character other than a tilde stands for itself. -/
theorem unescapeName_cons {c : Char} (h : c ≠ '~') (rest : List Char) :
    unescapeName (c :: rest) = c :: unescapeName rest := by
  rw [unescapeName]
  · intro _ h'
    exact absurd h' h
  · intro _ h'
    exact absurd h' h

/-- Escaping a name can be undone: a tilde and a slash become escapes of
themselves, and everything else stays. -/
theorem unescapeName_escapeName (name : List Char) : unescapeName (escapeName name) = name := by
  induction name with
  | nil => rfl
  | cons c name ih =>
      rw [escapeName]
      split
      next htilde => rw [unescapeName, ih, htilde]
      next htilde =>
        split
        next hslash => rw [unescapeName, ih, hslash]
        next => rw [unescapeName_cons htilde, ih]

/-- An escaped name has no slash, so a reference to it has none behind the
section. -/
theorem slash_notMem_escapeName (name : List Char) : '/' ∉ escapeName name := by
  induction name with
  | nil => exact List.not_mem_nil
  | cons c name ih =>
      rw [escapeName]
      split
      next => simp [ih]
      next =>
        split
        next => simp [ih]
        next hslash => simp [ih, Ne.symm hslash]

theorem escapeName_eq_nil {name : List Char} : escapeName name = [] ↔ name = [] := by
  cases name with
  | nil => simp [escapeName]
  | cons c name =>
      rw [escapeName]
      split
      next => simp
      next => split <;> simp

/-- The names of sections are those of the two sections. -/
theorem isSectionName_iff {name : String} :
    isSectionName name = true ↔ ∃ s : Section, s.name = name := by
  rw [isSectionName, List.any_eq_true]
  constructor
  · rintro ⟨s, -, hs⟩
    exact ⟨s, beq_iff_eq.1 hs⟩
  · rintro ⟨s, hs⟩
    exact ⟨s, by cases s <;> decide, beq_iff_eq.2 hs⟩

/-- What a section's pointers start with. -/
def Section.start (s : Section) : List Char := ("#/" ++ s.name ++ "/").toList

/-- A pointer is the start of its section with the escaped name behind it. -/
theorem toList_pointer (k : DefinitionKey) :
    k.pointer.toList = k.location.start ++ escapeName k.name.toList := by
  unfold DefinitionKey.pointer Section.start
  rw [String.toList_append, String.toList_ofList]

/-- Only pointers into a section start like it. -/
theorem isPrefixOf?_start {s t : Section} (h : s ≠ t) (name : List Char) :
    s.start.isPrefixOf? (t.start ++ name) = none := by
  rw [Option.eq_none_iff_forall_ne_some]
  intro rest heq
  rw [List.isPrefixOf?_eq_some_iff_append_eq] at heq
  have hthird := congrArg (·[2]?) heq
  cases s <;> cases t <;> first | exact h rfl | cases hthird

/-- The reference starts like the pointers into the section of the
definition, and goes on with a text, without a slash of its own, that
stands for its name. -/
def Spells (reference : String) (k : DefinitionKey) : Prop :=
  ∃ text, reference.toList = k.location.start ++ text ∧ text ≠ [] ∧ '/' ∉ text ∧
    k.name = String.ofList (unescapeName text)

/-- A reference spells definitions of one section. -/
theorem Spells.location_eq {reference : String} {k k' : DefinitionKey} (h : Spells reference k)
    (h' : Spells reference k') : k.location = k'.location := by
  by_contra hne
  obtain ⟨text, htext, -⟩ := h
  obtain ⟨text', htext', -⟩ := h'
  have hnone := isPrefixOf?_start hne text'
  rw [← htext', htext, List.isPrefixOf?_eq_some_iff_append_eq.2 rfl] at hnone
  cases hnone

/-- The definition of this section that a reference names. -/
def Section.named? (reference : String) (s : Section) : Option DefinitionKey := do
  let text ← s.start.isPrefixOf? reference.toList
  if text.isEmpty || text.contains '/' then none
  else some ⟨s, String.ofList (unescapeName text)⟩

/-- Reading in one section finds what the reference spells there. The two
sections begin differently, so no reference is read in both. -/
theorem Section.named?_eq_some_iff {reference : String} {s : Section} {k : DefinitionKey} :
    s.named? reference = some k ↔ k.location = s ∧ Spells reference k := by
  have hshape : ∀ text : List Char, ¬ (text.isEmpty || text.contains '/') = true ↔
      text ≠ [] ∧ '/' ∉ text := fun text => by
    rw [Bool.not_eq_true, Bool.or_eq_false_iff, List.isEmpty_eq_false_iff,
      List.contains_eq_mem, decide_eq_false_iff_not]
  constructor
  · intro h
    obtain ⟨text, htext, h⟩ := Option.bind_eq_some_iff.1 h
    split at h
    next => cases h
    next htaken =>
      cases h
      obtain ⟨hempty, hslash⟩ := (hshape text).1 htaken
      exact ⟨rfl, text, (List.isPrefixOf?_eq_some_iff_append_eq.1 htext).symm, hempty, hslash,
        rfl⟩
  · obtain ⟨location, name⟩ := k
    rintro ⟨rfl, text, htext, hempty, hslash, rfl⟩
    have hbegins : location.start.isPrefixOf? reference.toList = some text :=
      List.isPrefixOf?_eq_some_iff_append_eq.2 htext.symm
    exact Option.bind_eq_some_iff.2 ⟨text, hbegins, if_neg ((hshape text).2 ⟨hempty, hslash⟩)⟩

/-- A reference names the definition that it spells, and no other one. The
sections are tried in turn, and only one of them can be started with. -/
theorem ofPointer?_eq_some_iff {reference : String} {k : DefinitionKey} :
    DefinitionKey.ofPointer? reference = some k ↔ Spells reference k := by
  show Section.all.findSome? (Section.named? reference) = some k ↔ _
  constructor
  · intro h
    obtain ⟨s, -, h⟩ := List.exists_of_findSome?_eq_some h
    exact (Section.named?_eq_some_iff.1 h).2
  · intro h
    have hown : k.location.named? reference = some k := Section.named?_eq_some_iff.2 ⟨rfl, h⟩
    have hsome : (Section.all.findSome? (Section.named? reference)).isSome :=
      List.findSome?_isSome_iff.2 ⟨k.location, by cases k.location <;> decide, hown ▸ rfl⟩
    obtain ⟨k', hk'⟩ := Option.isSome_iff_exists.1 hsome
    -- whichever section answers first, it is that of `k`
    obtain ⟨s, -, hs⟩ := List.exists_of_findSome?_eq_some hk'
    obtain ⟨rfl, hspells⟩ := Section.named?_eq_some_iff.1 hs
    rw [hspells.location_eq h, hown] at hs
    rw [hk', hs]

/-- The pointer to a definition names the definition. -/
theorem ofPointer?_pointer {k : DefinitionKey} (h : k.name ≠ "") :
    DefinitionKey.ofPointer? k.pointer = some k := by
  refine ofPointer?_eq_some_iff.2 ⟨escapeName k.name.toList, toList_pointer k, ?_,
    slash_notMem_escapeName _, ?_⟩
  · rw [Ne, escapeName_eq_nil, String.toList_eq_nil_iff]
    exact h
  · rw [unescapeName_escapeName, String.ofList_toList]

end Schema

end TypedSelect
