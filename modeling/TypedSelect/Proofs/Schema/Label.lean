/-
Definitions under one text.

A definition can be known by a label instead of a key: its section, a
slash and its name, in one text. A label has no slash before the one
behind its section, so that it belongs to one definition only, and the
definitions of a schema can be stored under labels without one hiding
another.

# Reading a reference

Here a reference is read step by step down to that label, and its name is
unescaped by two substitutions, each over the whole name: slashes first,
tildes after that. What carries the proof is that the first substitution
leaves no zero behind a tilde that was not there before, so that both
together are one pass over the name; the other way round a tilde that has
just been put in would count for the second.

# The same as by key

That reading step by step comes to the same as reading at once is
`readReference?_eq`, and it is shown by what a reference spells: each
reading finds the definition that is spelled, and a reference spells one
at most. From there on labels are a way to write keys down.

# The way back

The main result starts from a name. Its escaped form, put behind a
section, is read as the name again, whatever characters the name has; only
the empty name has no reference.
-/
import TypedSelect.Proofs.Schema.Pointer
import TypedSelect.Proofs.Substitution

namespace TypedSelect

namespace Schema

-- ============================================================== escapes

/-- A slash that is put in does not make a zero come first. So no tilde gets
a zero behind it that was not there before. -/
theorem zero_prefix_substitute {name : List Char} :
    ['0'] <+: substitute '~' ['1'] ['/'] name ↔ ['0'] <+: name := by
  cases name with
  | nil => rw [substitute_nil]
  | cons c name =>
      by_cases h : c = '~' ∧ ['1'] <+: name
      · obtain ⟨rfl, text, rfl⟩ := h
        rw [substitute_pattern]
        simp [List.cons_prefix_cons]
      · rw [substitute_cons fun hc hbegins => h ⟨hc, hbegins⟩, List.cons_prefix_cons,
          List.cons_prefix_cons]
        simp

/-- A name is unescaped by two substitutions, the one for slashes first. A
tilde and a zero that stand before a one are not taken for a slash. -/
theorem unescapeName_eq_substitute (name : List Char) :
    unescapeName name = substitute '~' ['0'] ['~'] (substitute '~' ['1'] ['/'] name) := by
  fun_induction unescapeName name with
  | case1 rest ih =>
      have hslash : substitute '~' ['1'] ['/'] ('~' :: '1' :: rest) =
        '/' :: substitute '~' ['1'] ['/'] rest := substitute_pattern rest
      rw [hslash, substitute_cons_of_ne (by decide), ih]
  | case2 rest ih =>
      -- the first substitution passes over this escape, and the second one meets it unchanged
      have htilde : substitute '~' ['0'] ['~'] ('~' :: '0' :: substitute '~' ['1'] ['/'] rest) =
        '~' :: substitute '~' ['0'] ['~'] (substitute '~' ['1'] ['/'] rest) :=
          substitute_pattern _
      have hkept : substitute '~' ['1'] ['/'] ('~' :: '0' :: rest) =
          '~' :: '0' :: substitute '~' ['1'] ['/'] rest := by
        rw [substitute_cons (by simp [List.cons_prefix_cons]), substitute_cons_of_ne (by decide)]
      rw [hkept, htilde, ih]
  | case3 c rest hone hzero ih =>
      -- no escape begins here, and after the first substitution none does either
      have hslash : c = '~' → ¬ ['1'] <+: rest := fun hc ⟨text, htext⟩ => hone text hc htext.symm
      have htilde : c = '~' → ¬ ['0'] <+: substitute '~' ['1'] ['/'] rest := fun hc hbegins =>
        have ⟨text, htext⟩ := zero_prefix_substitute.1 hbegins
        hzero text hc htext.symm
      rw [substitute_cons hslash, substitute_cons htilde, ih]
  | case4 => rw [substitute_nil, substitute_nil]

-- =========================================================== references

/-- What stands before the first mark, and what stands behind it; nothing
where there is no mark. -/
def splitOnce (mark : Char) : List Char → Option (List Char × List Char)
  | [] => none
  | c :: text =>
    if c = mark then some ([], text)
    else (splitOnce mark text).map fun (before, behind) => (c :: before, behind)

/-- A text is split at its first mark: none stands in the part before it, and
any number may stand in the part behind. -/
theorem splitOnce_eq_some_iff {mark : Char} {text before behind : List Char} :
    splitOnce mark text = some (before, behind) ↔
      text = before ++ mark :: behind ∧ mark ∉ before := by
  induction text generalizing before behind with
  | nil => simp [splitOnce]
  | cons c text ih =>
      rw [splitOnce]
      by_cases hc : c = mark
      -- the mark comes first, so nothing may be before it
      · rw [if_pos hc]
        cases before with
        | nil => simp [hc]
        | cons d before => simp +contextual [hc, eq_comm]
      · rw [if_neg hc, Option.map_eq_some_iff]
        cases before with
        | nil => simp [hc]
        | cons d before =>
            simp only [Prod.exists, ih, Prod.mk.injEq, List.cons.injEq, List.cons_append,
              List.mem_cons, not_or]
            constructor
            · rintro ⟨before, behind, ⟨rfl, hmark⟩, ⟨rfl, rfl⟩, rfl⟩
              exact ⟨⟨rfl, rfl⟩, Ne.symm hc, hmark⟩
            · rintro ⟨⟨rfl, rfl⟩, -, hmark⟩
              exact ⟨before, behind, ⟨rfl, hmark⟩, ⟨rfl, rfl⟩, rfl⟩

/-- The text that a definition is known by: its section, a slash and its
name. -/
def DefinitionKey.label (k : DefinitionKey) : String := k.location.name ++ "/" ++ k.name

/-- The label and the name of the definition that a reference is to. Behind
`#/` it has a section up to the first slash, and behind that a name without
a slash, in which `~1` is replaced by a slash first and `~0` by a tilde
after that. -/
def readReference? (reference : String) : Option (String × String) := do
  let pointer ← "#/".toList.isPrefixOf? reference.toList
  let (location, name) ← splitOnce '/' pointer
  if !isSectionName (String.ofList location) || name.isEmpty || name.contains '/' then none
  else
    let name := String.ofList (substitute '~' ['0'] ['~'] (substitute '~' ['1'] ['/'] name))
    some (String.ofList location ++ "/" ++ name, name)

/-- The pointers into a section start with its name between slashes. -/
theorem Section.start_eq (s : Section) : s.start = "#/".toList ++ (s.name.toList ++ ['/']) := by
  cases s <;> rfl

/-- The name of a section has no slash, so the first one ends it. -/
theorem Section.slash_notMem_name (s : Section) : '/' ∉ s.name.toList := by
  cases s <;> decide

variable {reference : String}

/-- Read step by step, a reference is to the definition that it spells. The
steps are the prefix, the split at a slash, the section, the check of the
name and its unescaping, in this order. -/
theorem readReference?_eq_some_iff {p : String × String} :
    readReference? reference = some p ↔ ∃ k, Spells reference k ∧ (k.label, k.name) = p := by
  constructor
  · intro h
    obtain ⟨pointer, hpointer, h⟩ := Option.bind_eq_some_iff.1 h
    obtain ⟨⟨location, name⟩, hsplit, h⟩ := Option.bind_eq_some_iff.1 h
    dsimp only at h
    split at h
    next => cases h
    next hshape =>
      cases h
      obtain ⟨rfl, -⟩ := splitOnce_eq_some_iff.1 hsplit
      simp only [Bool.or_eq_true, Bool.not_eq_true', not_or, Bool.not_eq_false,
        Bool.not_eq_true, List.isEmpty_eq_false_iff, List.contains_eq_mem,
        decide_eq_false_iff_not] at hshape
      obtain ⟨⟨hlocation, hempty⟩, hslash⟩ := hshape
      obtain ⟨s, hs⟩ := isSectionName_iff.1 hlocation
      rw [← unescapeName_eq_substitute]
      refine ⟨⟨s, String.ofList (unescapeName name)⟩, ⟨name, ?_, hempty, hslash, rfl⟩, ?_⟩
      · rw [← List.isPrefixOf?_eq_some_iff_append_eq.1 hpointer, Section.start_eq, hs,
          String.toList_ofList]
        simp
      · rw [DefinitionKey.label, hs]
  · rintro ⟨⟨s, name⟩, ⟨text, htext, hempty, hslash, rfl⟩, rfl⟩
    have hpointer : "#/".toList.isPrefixOf? reference.toList =
        some (s.name.toList ++ '/' :: text) := by
      rw [List.isPrefixOf?_eq_some_iff_append_eq, htext, Section.start_eq]
      simp
    have hsplit : splitOnce '/' (s.name.toList ++ '/' :: text) = some (s.name.toList, text) :=
      splitOnce_eq_some_iff.2 ⟨rfl, s.slash_notMem_name⟩
    unfold readReference?
    rw [hpointer]
    simp only [Option.bind_eq_bind, Option.bind_some, hsplit, String.ofList_toList,
      isSectionName_iff.2 ⟨s, rfl⟩, ← unescapeName_eq_substitute]
    rw [if_neg]
    · rfl
    · simp [hempty, hslash]

/-- Reading a reference step by step comes to its definition, or to none,
as reading it at once does. -/
theorem readReference?_eq (reference : String) :
    readReference? reference =
      (DefinitionKey.ofPointer? reference).map fun k => (k.label, k.name) := by
  ext p
  rw [readReference?_eq_some_iff, Option.map_eq_some_iff]
  simp only [ofPointer?_eq_some_iff]

-- =============================================================== labels

theorem Section.name_injective : Function.Injective Section.name := by
  intro s t h
  cases s <;> cases t <;> first | rfl | exact absurd h (by decide)

/-- The first slash of a label ends its section. -/
theorem splitOnce_label (k : DefinitionKey) :
    splitOnce '/' k.label.toList = some (k.location.name.toList, k.name.toList) := by
  refine splitOnce_eq_some_iff.2 ⟨?_, k.location.slash_notMem_name⟩
  rw [DefinitionKey.label, String.toList_append, String.toList_append, List.append_assoc]
  rfl

/-- A label is that of one definition only. -/
theorem DefinitionKey.label_injective : Function.Injective DefinitionKey.label := by
  rintro ⟨s, name⟩ ⟨s', name'⟩ h
  have hparts := splitOnce_label ⟨s, name⟩
  rw [h, splitOnce_label] at hparts
  simp only [Option.some.injEq, Prod.mk.injEq, String.toList_inj] at hparts
  obtain ⟨hsection, rfl⟩ := hparts
  rw [Section.name_injective hsection]

/-- The definitions of a schema, each under its label. -/
def labelled (schema : Json) : List (String × Json) :=
  Section.all.flatMap fun s =>
    match schema.get? s.name with
    | some (.obj members) => members.map fun m => (s.name ++ "/" ++ m.1, m.2)
    | _ => []

/-- The definitions of a section are the members of the object under its
name. -/
theorem mem_sectionDefinitions {schema body : Json} {s : Section} {k : DefinitionKey} :
    (k, body) ∈ sectionDefinitions schema s ↔
      k.location = s ∧ ∃ members, schema.get? s.name = some (.obj members) ∧
        (k.name, body) ∈ members := by
  obtain ⟨location, name⟩ := k
  unfold sectionDefinitions
  split
  next members hget =>
    rw [hget, List.mem_map]
    constructor
    · rintro ⟨m, hm, heq⟩
      cases heq
      exact ⟨rfl, members, rfl, hm⟩
    · rintro ⟨rfl, _, heq, hm⟩
      cases heq
      exact ⟨_, hm, rfl⟩
  next hget =>
    refine ⟨nofun, ?_⟩
    rintro ⟨-, members, hget', -⟩
    exact absurd hget' (hget members)

/-- Every label stands beside the definition it is the label of. The list has
the definitions in the order of the sections, and each section in its own. -/
theorem labelled_eq (schema : Json) :
    labelled schema = (definitionsOf schema).map fun d => (d.1.label, d.2) := by
  rw [labelled, definitionsOf, List.map_flatMap]
  refine List.flatMap_congr fun s _ => ?_
  unfold sectionDefinitions
  cases schema.get? s.name with
  | none => rfl
  | some value =>
      cases value with
      | obj members =>
          dsimp only
          rw [List.map_map]
          rfl
      | _ => rfl

/-- Under a label stands what its section has under its name, and nothing
else. -/
theorem mem_labelled {schema body : Json} {k : DefinitionKey} :
    (k.label, body) ∈ labelled schema ↔
      ∃ members, schema.get? k.location.name = some (.obj members) ∧ (k.name, body) ∈ members := by
  rw [labelled_eq, List.mem_map]
  constructor
  · rintro ⟨⟨k', body'⟩, hmem, heq⟩
    rw [Prod.mk.injEq, DefinitionKey.label_injective.eq_iff] at heq
    obtain ⟨rfl, rfl⟩ := heq
    obtain ⟨s, -, hmem⟩ := List.mem_flatMap.1 hmem
    obtain ⟨rfl, hmembers⟩ := mem_sectionDefinitions.1 hmem
    exact hmembers
  · intro hmembers
    have hsection : k.location ∈ Section.all := by
      cases k.location <;> decide
    exact ⟨(k, body), List.mem_flatMap.2 ⟨k.location, hsection,
      mem_sectionDefinitions.2 ⟨rfl, hmembers⟩⟩, rfl⟩

/-- The pointer with the escaped name of a definition is read as its name
and the label that it is stored under. No two definitions have one label,
so that it stands for this definition alone; and references are read so
wherever they are resolved. -/
theorem escaped_names_lead_back (s : Section) (name : String) (h : name ≠ "") :
    readReference? ("#/" ++ s.name ++ "/" ++ String.ofList (escapeName name.toList)) =
        some (DefinitionKey.label ⟨s, name⟩, name) ∧
      (∀ schema body, (DefinitionKey.label ⟨s, name⟩, body) ∈ labelled schema ↔
        ∃ members, schema.get? s.name = some (.obj members) ∧ (name, body) ∈ members) ∧
      Function.Injective DefinitionKey.label ∧
      ∀ reference, readReference? reference =
        (DefinitionKey.ofPointer? reference).map fun k => (k.label, k.name) := by
  refine ⟨?_, fun schema body => mem_labelled, DefinitionKey.label_injective, readReference?_eq⟩
  have hpointer : DefinitionKey.ofPointer? (DefinitionKey.pointer ⟨s, name⟩) = some ⟨s, name⟩ :=
    ofPointer?_pointer h
  rw [DefinitionKey.pointer] at hpointer
  rw [readReference?_eq, hpointer]
  rfl

/-- A name with tildes where escapes have them. -/
theorem tildes_lead_back :
    "~01/~" ≠ "" ∧ readReference? "#/$defs/~001~1~0" = some ("$defs/~01/~", "~01/~") :=
  ⟨by decide, (escaped_names_lead_back .defs "~01/~" (by decide)).1⟩

end Schema

end TypedSelect
