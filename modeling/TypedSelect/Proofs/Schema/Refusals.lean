/-
When inlining succeeds, and what it fails at.

A schema is resolvable when every reference within its reach points to a
definition and no definition within its reach leads to itself. Inlining
succeeds on these schemas and leaves no reference in them. On the others
it fails, and its error is the name of a fault within reach. What is out
of reach is never looked at.

# Two predicates

`Resolvable` and `Justified` are stated on the graph of definitions and
know nothing of the order in which expansion goes. `Justified` has one
rule for each fault, with the error that names it; that no schema has both
is `Justified.not_resolvable`, so that success and failure are told apart
by the schema alone.

# Expansion without sharing

Everything is shown of expansion that keeps nothing, where the answer at a
reference is a function of the path, and by induction on the path. For the
errors the path has to be remembered: all definitions on it lead to what
is named at its end, so that one of them met again is on a cycle. With
`sharing_is_invisible` in the form of `expand_run_eq` the results are
those of inlining.
-/
import TypedSelect.Proofs.Schema.Sharing

namespace TypedSelect

namespace Schema

open Json (member?)
open Relation (TransGen)

variable {definitions : Definitions} {path : List DefinitionKey} {key : DefinitionKey}
variable {start node v : Json} {e : SchemaError}

/-- Every reference within reach of a node points to a definition, and no
definition within reach leads to itself. -/
structure Resolvable (definitions : Definitions) (node : Json) : Prop where
  resolves : ∀ part, Reachable definitions node part → ∀ argument, Cites part argument →
    ∃ reference key body, argument = .str reference ∧ reference ≠ rootReference ∧
      DefinitionKey.ofPointer? reference = some key ∧ lookup key definitions = some body
  acyclic : ∀ key, Reaches definitions node key → ¬ TransGen (Leads definitions) key key

/-- The faults within reach of a node, as the errors that name them. -/
inductive Justified (definitions : Definitions) (node : Json) : SchemaError → Prop
  | cycle {key : DefinitionKey} {path : List String} (reaches : Reaches definitions node key)
      (leads : TransGen (Leads definitions) key key) :
      Justified definitions node (.selfReference path)
  | root {part : Json} {path : List String} (reachable : Reachable definitions node part)
      (cites : Cites part (.str rootReference)) :
      Justified definitions node (.selfReference path)
  | unknown {part : Json} {reference : String} {key : DefinitionKey}
      (reachable : Reachable definitions node part) (cites : Cites part (.str reference))
      (points : DefinitionKey.ofPointer? reference = some key)
      (missing : lookup key definitions = none) :
      Justified definitions node (.unknownDefinition key.name)
  | notString {part argument : Json} (reachable : Reachable definitions node part)
      (cites : Cites part argument) (not_str : ∀ reference, argument ≠ .str reference) :
      Justified definitions node (.unsupportedReference argument.text)
  | illShaped {part : Json} {reference : String} (reachable : Reachable definitions node part)
      (cites : Cites part (.str reference)) (not_root : reference ≠ rootReference)
      (shape : DefinitionKey.ofPointer? reference = none) :
      Justified definitions node (.unsupportedReference reference)

/-- A schema with a fault within reach is not resolvable. So what is refused
for a reason that holds could not have been inlined. -/
theorem Justified.not_resolvable (h : Justified definitions node e) :
    ¬ Resolvable definitions node := by
  intro hsound
  -- each reason goes against one part of what makes a schema resolvable
  cases h with
  | cycle reaches leads => exact hsound.acyclic _ reaches leads
  | root reachable cites =>
      obtain ⟨_, _, _, heq, hroot, -⟩ := hsound.resolves _ reachable _ cites
      cases heq
      exact hroot rfl
  | unknown reachable cites points missing =>
      obtain ⟨_, _, _, heq, -, hkey, hbody⟩ := hsound.resolves _ reachable _ cites
      cases heq
      rw [points] at hkey
      cases hkey
      rw [missing] at hbody
      cases hbody
  | notString reachable cites not_str =>
      obtain ⟨reference, _, _, heq, -⟩ := hsound.resolves _ reachable _ cites
      exact not_str reference heq
  | illShaped reachable cites not_root shape =>
      obtain ⟨_, _, _, heq, -, hkey, -⟩ := hsound.resolves _ reachable _ cites
      cases heq
      rw [shape] at hkey
      cases hkey

-- ===================================================== expansion afresh

/-- Where expansion ends, everything within reach is resolvable. -/
theorem resolvable_of_expandAfresh (hdefinitions : DefinitionsInOrder definitions)
    (hnode : node.InOrder) (h : expandAfresh definitions path node = .ok v) :
    Resolvable definitions node where
  resolves part hpart argument hcites := by
    obtain ⟨reference, key, body, rfl, hkey, hbody⟩ :=
      answered_of_reachable hdefinitions hnode h hpart hcites
    exact ⟨reference, key, body, rfl, ne_rootReference hkey, hkey, hbody⟩
  acyclic _ := acyclic_of_reaches hdefinitions hnode h

/-- Where expansion ends, no reference is left. -/
theorem referenceFree_of_expandAfresh (h : expandAfresh definitions path node = .ok v) :
    ReferenceFree v := by
  induction path using path_induction definitions generalizing node v with
  | step path ih =>
      refine referenceFree_of_walk h fun reference target _ htarget => ?_
      obtain ⟨key, body, -, hpath, hbody, htarget⟩ := resolveAfresh_eq_ok.1 htarget
      exact ih key body hpath hbody htarget

/-- Where expansion fails, the fault is within reach of where it started: all
on the path have led to what is named there. The walk blames some reference
below the node, and the cases are what it can come to. -/
theorem justified_of_expandAfresh (h : expandAfresh definitions path node = .error e)
    (hnode : Reachable definitions start node)
    (hpath : ∀ key, Names node key → Leading definitions path key) :
    Justified definitions start e := by
  induction path using path_induction definitions generalizing node with
  | step path ih =>
      rcases blamed_of_walk h with ⟨argument, hcites, hstr, rfl⟩ | ⟨reference, hcites, h⟩
      · exact .notString hnode hcites hstr
      cases h ▸ comesTo_resolveAfresh definitions path reference with
      | root whole => exact .root hnode (whole ▸ hcites)
      | unsupported part shape => exact .illShaped hnode hcites part shape
      | cycle points again =>
          have hnames : Names node _ := ⟨reference, hcites, points⟩
          exact .cycle (hnode.reaches hnames) (hpath _ hnames _ again)
      | unknown points _ missing => exact .unknown hnode hcites points missing
      | entered points off found expands =>
          have hnames : Names node _ := ⟨reference, hcites, points⟩
          exact ih _ _ off found expands (.inr ⟨_, hnode.reaches hnames, found⟩) fun _ hnames' =>
            (hpath _ hnames).enter found hnames'

/-- Definitions out of reach do not matter. The induction is on the path,
since a definition within reach may be entered and has a reach of its own. -/
theorem expandAfresh_congr {definitions' : Definitions}
    (h : ∀ key, Reaches definitions node key → lookup key definitions' = lookup key definitions) :
    expandAfresh definitions' path node = expandAfresh definitions path node := by
  induction path using path_induction definitions generalizing node with
  | step path ih =>
      refine walk_congr fun reference hcites => ?_
      generalize houtcome : resolveAfresh definitions path reference = outcome
      cases houtcome ▸ comesTo_resolveAfresh definitions path reference with
      | root whole => rw [whole, resolveAfresh_root]
      | unsupported part shape => exact resolveAfresh_unsupported part shape
      | cycle points again => exact resolveAfresh_cycle points again
      | unknown points off missing =>
          have hnames : Names node _ := ⟨reference, hcites, points⟩
          exact resolveAfresh_unknown points off ((h _ hnames.reaches).trans missing)
      | entered points off found expands =>
          have hnames : Names node _ := ⟨reference, hcites, points⟩
          rw [resolveAfresh_enter points off ((h _ hnames.reaches).trans found), ← expands]
          exact ih _ _ off found fun key' hreaches =>
            h key' (hnames.reaches_of_body found hreaches)

-- ============================================================ inlining

/-- Inlining is expansion afresh from the root of the sorted schema. -/
theorem inline_eq (schema : Json) :
    inline schema = expandAfresh (definitionsOf schema.ordered) []
      (withoutDefinitions schema.ordered) :=
  expand_run_eq (definitionsInOrder (Json.inOrder_ordered schema)) _

/-- The error of inlining names a fault within reach of the root. -/
theorem justified_of_inline {schema : Json} (h : inline schema = .error e) :
    Justified (definitionsOf schema.ordered) (withoutDefinitions schema.ordered) e := by
  rw [inline_eq] at h
  exact justified_of_expandAfresh h (.inl rfl) fun key _ k hk => nomatch hk

/-- Inlining succeeds on exactly the schemas without a fault within reach,
and then leaves no reference; otherwise its error names such a fault; and
two schemas that differ out of reach only are inlined alike. -/
theorem inlines_exactly_resolvable (schema : Json) :
    ((∃ v, inline schema = .ok v) ↔
      Resolvable (definitionsOf schema.ordered) (withoutDefinitions schema.ordered)) ∧
    (∀ v, inline schema = .ok v → ReferenceFree v) ∧
    (∀ e, inline schema = .error e →
      Justified (definitionsOf schema.ordered) (withoutDefinitions schema.ordered) e) ∧
    ∀ schema' : Json,
      withoutDefinitions schema'.ordered = withoutDefinitions schema.ordered →
      (∀ key, Reaches (definitionsOf schema.ordered) (withoutDefinitions schema.ordered) key →
        lookup key (definitionsOf schema'.ordered) = lookup key (definitionsOf schema.ordered)) →
      inline schema' = inline schema := by
  have horder := Json.inOrder_ordered schema
  refine ⟨⟨fun ⟨v, h⟩ => ?_, fun h => ?_⟩, fun v h => ?_, fun e h => justified_of_inline h,
    fun schema' hroot hsame => ?_⟩
  · rw [inline_eq] at h
    exact resolvable_of_expandAfresh (definitionsInOrder horder)
      (inOrder_withoutDefinitions horder) h
  · cases hinline : inline schema with
    | ok v => exact ⟨v, rfl⟩
    | error e => exact absurd h (justified_of_inline hinline).not_resolvable
  · rw [inline_eq] at h
    exact referenceFree_of_expandAfresh h
  · rw [inline_eq, inline_eq, hroot]
    exact expandAfresh_congr hsame

theorem not_leads_of_empty (hbody : lookup key definitions = some (.obj []))
    {key' : DefinitionKey} : ¬ Leads definitions key key' := by
  rintro ⟨body, hbody', reference, hcites, -⟩
  rw [hbody] at hbody'
  cases hbody'
  exact not_cites_empty hcites

/-- A reference that stands alone reaches no more than its definition if
that is empty. -/
theorem eq_of_reaches_alias {reference : String} {key' : DefinitionKey}
    (hkey : DefinitionKey.ofPointer? reference = some key)
    (hbody : lookup key definitions = some (.obj []))
    (h : Reaches definitions (.obj [(referenceKey, .str reference)]) key') : key' = key := by
  obtain ⟨first, ⟨reference', hcites, hkey'⟩, hfirst⟩ := h
  cases cites_reference.1 hcites
  rw [hkey] at hkey'
  cases hkey'
  rcases hfirst.cases_head with rfl | ⟨next, hnext, -⟩
  · rfl
  · exact absurd hnext (not_leads_of_empty hbody)

/-- A reference that stands alone is resolvable if its definition is
empty. -/
theorem resolvable_alias {reference : String}
    (hkey : DefinitionKey.ofPointer? reference = some key)
    (hbody : lookup key definitions = some (.obj [])) :
    Resolvable definitions (.obj [(referenceKey, .str reference)]) where
  resolves part hpart argument hcites := by
    rcases hpart with rfl | ⟨key', hreaches, hpart⟩
    · exact ⟨reference, key, .obj [], cites_reference.1 hcites, ne_rootReference hkey, hkey, hbody⟩
    · cases eq_of_reaches_alias hkey hbody hreaches
      rw [hbody] at hpart
      cases hpart
      exact absurd hcites not_cites_empty
  acyclic key' hreaches hcycle := by
    cases eq_of_reaches_alias hkey hbody hreaches
    obtain ⟨next, hnext, -⟩ := TransGen.head'_iff.1 hcycle
    exact not_leads_of_empty hbody hnext

/-- A schema that is its definition `A`, with other definitions behind
that one. -/
def aliasOf (others : List (String × Json)) : Json :=
  .obj [("$defs", .obj (("A", .obj []) :: others)), ("$ref", .str "#/$defs/A")]

/-- A definition that refers to the whole schema does no harm where nothing
refers to it, and is an error where the schema itself does so. -/
theorem spare_cycle_is_harmless :
    (∃ v, inline (aliasOf [("B", .obj [("$ref", .str "#")])]) = .ok v ∧ ReferenceFree v ∧
      inline (aliasOf []) = .ok v) ∧
    ∃ e, inline (.obj [("$ref", .str "#")]) = .error e ∧
      Justified [] (.obj [("$ref", .str "#")]) e := by
  obtain ⟨hok, hfree, -, hsame⟩ :=
    inlines_exactly_resolvable (aliasOf [("B", .obj [("$ref", .str "#")])])
  obtain ⟨hok', -, herror', -⟩ := inlines_exactly_resolvable (.obj [("$ref", .str "#")])
  have hroot : withoutDefinitions (aliasOf [("B", .obj [("$ref", .str "#")])]).ordered =
    .obj [(referenceKey, .str "#/$defs/A")] := rfl
  have hkey : DefinitionKey.ofPointer? "#/$defs/A" = some ⟨.defs, "A"⟩ := by decide
  have hbody : lookup ⟨.defs, "A"⟩
      (definitionsOf (aliasOf [("B", .obj [("$ref", .str "#")])]).ordered) = some (.obj []) := rfl
  rw [hroot] at hok hsame
  constructor
  · obtain ⟨v, hv⟩ := hok.2 (resolvable_alias hkey hbody)
    refine ⟨v, hv, hfree v hv, ?_⟩
    rw [← hv]
    refine hsame (aliasOf []) rfl fun key hreaches => ?_
    cases eq_of_reaches_alias hkey hbody hreaches
    rfl
  · cases h : inline (.obj [("$ref", .str "#")]) with
    | error e => exact ⟨e, rfl, herror' e h⟩
    | ok v =>
        obtain ⟨_, _, _, heq, hne, -⟩ :=
          (hok'.1 ⟨v, h⟩).resolves _ (.inl rfl) (.str "#") (cites_self rfl)
        cases heq
        exact absurd rfl hne

end Schema

end TypedSelect
