/-
What a schema leads to, and expansion without a memory.

A node names the definitions that its references point to, and a
definition leads to those its body names. `expandAfresh` is expansion that
keeps nothing: it enters a definition anew at every reference, so that
what it comes to depends on this graph and on the path it came by alone.

# One recursion, two levels

Expansion afresh is a walk over a node in which references are answered,
and the answer at a reference is expansion again, on a longer path. The
first level goes by the node and is the same for any answers. The second
goes by the path, and ends because the definitions on it are distinct and
finitely many (`path_induction`). `ComesTo` is the answer at a reference:
five ways it can end, with what each of them says about the reference.

# The graph

`Names`, `Leads` and `Reaches` are about the graph of definitions and say
nothing about expansion. A definition that a node names need not exist;
`Reachable` are the bodies of those that do.

# Where expansion ends

Where expansion ends it has entered everything within reach, each
definition off its own path, so there is no cycle within reach and no
reference without a definition. And then the path it came by did not
matter: on any path that has nothing within reach it comes to the same.
This is what makes it possible to keep expansions and use them elsewhere.
-/
import Mathlib.Logic.Relation
import TypedSelect.Proofs.Schema.Inline
import TypedSelect.Proofs.Schema.Walk

namespace TypedSelect

namespace Schema

open Json (member? Within)
open Relation (ReflTransGen TransGen)

-- =============================================== expansion afresh

/-- What a reference refers to, with the references inside it replaced. No
expansion is kept. -/
def resolveAfresh (definitions : Definitions) (path : List DefinitionKey)
    (reference : String) : Except SchemaError Json :=
  if reference = rootReference then throw (rootCycle path)
  else
    match DefinitionKey.ofPointer? reference with
    | none => throw (.unsupportedReference reference)
    | some key =>
      if _hpath : path.contains key then throw (cycle path key)
      else
        match _h : lookup key definitions with
        | none => throw (.unknownDefinition key.name)
        | some body =>
          walk (fun reference => resolveAfresh definitions (path ++ [key]) reference) body
termination_by (pending definitions path).length
decreasing_by exact pending_lt _hpath _h

/-- A node with its references replaced, each expanded anew. -/
abbrev expandAfresh (definitions : Definitions) (path : List DefinitionKey) :
    Json → Except SchemaError Json :=
  walk (resolveAfresh definitions path)

/-- The schema with every reference replaced and its definitions removed,
a definition expanded anew at every reference to it. -/
def inlineAfresh (schema : Json) : Except SchemaError Json :=
  expandAfresh (definitionsOf schema.ordered) [] (withoutDefinitions schema.ordered)

variable {definitions : Definitions} {path : List DefinitionKey} {reference : String}
variable {key : DefinitionKey} {body node v : Json} {e : SchemaError}

/-- A reference to the whole document is a self-reference through the root. -/
theorem resolveAfresh_root : resolveAfresh definitions path rootReference =
    .error (rootCycle path) := by
  rw [resolveAfresh, if_pos rfl]
  rfl

/-- A reference that has not the shape of one is not supported. -/
theorem resolveAfresh_unsupported (hroot : reference ≠ rootReference)
    (hkey : DefinitionKey.ofPointer? reference = none) :
    resolveAfresh definitions path reference = .error (.unsupportedReference reference) := by
  rw [resolveAfresh, if_neg hroot, hkey]
  rfl

/-- A definition that is being expanded is a self-reference. -/
theorem resolveAfresh_cycle (hkey : DefinitionKey.ofPointer? reference = some key)
    (hpath : key ∈ path) :
    resolveAfresh definitions path reference = .error (cycle path key) := by
  rw [resolveAfresh, if_neg (ne_rootReference hkey), hkey]
  dsimp only
  rw [dif_pos (List.contains_iff_mem.2 hpath)]
  rfl

theorem resolveAfresh_unknown (hkey : DefinitionKey.ofPointer? reference = some key)
    (hpath : key ∉ path) (hbody : lookup key definitions = none) :
    resolveAfresh definitions path reference = .error (.unknownDefinition key.name) := by
  rw [resolveAfresh, if_neg (ne_rootReference hkey), hkey]
  dsimp only
  rw [dif_neg fun h => hpath (List.contains_iff_mem.1 h)]
  split
  next => rfl
  next h =>
    rw [hbody] at h
    cases h

/-- Any other definition is expanded, with itself on the path. This is the
only way in which expansion goes deeper than its node. -/
theorem resolveAfresh_enter (hkey : DefinitionKey.ofPointer? reference = some key)
    (hpath : key ∉ path) (hbody : lookup key definitions = some body) :
    resolveAfresh definitions path reference = expandAfresh definitions (path ++ [key]) body := by
  rw [resolveAfresh, if_neg (ne_rootReference hkey), hkey]
  dsimp only
  rw [dif_neg fun h => hpath (List.contains_iff_mem.1 h)]
  split
  next h =>
    rw [hbody] at h
    cases h
  next body' h =>
    rw [hbody] at h
    cases h
    rfl

/-- All that a reference can come to: it is to the whole document, to no
definition, to one that is being expanded, to one that is missing, or to
one that is entered. -/
inductive ComesTo (definitions : Definitions) (path : List DefinitionKey) (reference : String) :
    Except SchemaError Json → Prop
  | root (whole : reference = rootReference) :
      ComesTo definitions path reference (.error (rootCycle path))
  | unsupported (part : reference ≠ rootReference)
      (shape : DefinitionKey.ofPointer? reference = none) :
      ComesTo definitions path reference (.error (.unsupportedReference reference))
  | cycle {key : DefinitionKey} (points : DefinitionKey.ofPointer? reference = some key)
      (again : key ∈ path) : ComesTo definitions path reference (.error (cycle path key))
  | unknown {key : DefinitionKey} (points : DefinitionKey.ofPointer? reference = some key)
      (off : key ∉ path) (missing : lookup key definitions = none) :
      ComesTo definitions path reference (.error (.unknownDefinition key.name))
  | entered {key : DefinitionKey} {body : Json} {outcome : Except SchemaError Json}
      (points : DefinitionKey.ofPointer? reference = some key) (off : key ∉ path)
      (found : lookup key definitions = some body)
      (expands : expandAfresh definitions (path ++ [key]) body = outcome) :
      ComesTo definitions path reference outcome

/-- What a reference is resolved to is one of the five, in the order in which
the conditions are tested. -/
theorem comesTo_resolveAfresh (definitions : Definitions) (path : List DefinitionKey)
    (reference : String) :
    ComesTo definitions path reference (resolveAfresh definitions path reference) := by
  by_cases hroot : reference = rootReference
  · subst hroot
    rw [resolveAfresh_root]
    exact .root rfl
  cases hkey : DefinitionKey.ofPointer? reference with
  | none =>
      rw [resolveAfresh_unsupported hroot hkey]
      exact .unsupported hroot hkey
  | some key =>
      by_cases hpath : key ∈ path
      · rw [resolveAfresh_cycle hkey hpath]
        exact .cycle hkey hpath
      cases hbody : lookup key definitions with
      | none =>
          rw [resolveAfresh_unknown hkey hpath hbody]
          exact .unknown hkey hpath hbody
      | some body => exact .entered hkey hpath hbody (resolveAfresh_enter hkey hpath hbody).symm

/-- A reference that is resolved points to a definition off the path, and
it is that definition that is expanded. -/
theorem resolveAfresh_eq_ok :
    resolveAfresh definitions path reference = .ok v ↔
      ∃ key body, DefinitionKey.ofPointer? reference = some key ∧ key ∉ path ∧
        lookup key definitions = some body ∧
        expandAfresh definitions (path ++ [key]) body = .ok v := by
  constructor
  · intro h
    cases h ▸ comesTo_resolveAfresh definitions path reference with
    | entered points off found expands => exact ⟨_, _, points, off, found, expands⟩
  · rintro ⟨key, body, hkey, hpath, hbody, h⟩
    rw [resolveAfresh_enter hkey hpath hbody, h]

/-- What holds of a path when it holds of the paths with one more definition
on them holds of all paths: there are finitely many definitions to enter. -/
theorem path_induction (definitions : Definitions) {motive : List DefinitionKey → Prop}
    (step : ∀ path, (∀ key body, key ∉ path → lookup key definitions = some body →
      motive (path ++ [key])) → motive path) (path : List DefinitionKey) : motive path := by
  generalize hn : (pending definitions path).length = n
  induction n using Nat.strong_induction_on generalizing path with
  | _ n ih =>
      refine step path fun key body hpath hbody => ih _ ?_ _ rfl
      rw [← hn]
      exact pending_lt (fun h => hpath (List.contains_iff_mem.1 h)) hbody

-- =========================================================== the graph

/-- A reference in the node points to the definition under this key,
whether there is one or not. -/
def Names (node : Json) (key : DefinitionKey) : Prop :=
  ∃ reference, Cites node (.str reference) ∧ DefinitionKey.ofPointer? reference = some key

/-- The body of a definition names another one. -/
def Leads (definitions : Definitions) (key key' : DefinitionKey) : Prop :=
  ∃ body, lookup key definitions = some body ∧ Names body key'

/-- The node names the definition, or one that leads to it. -/
def Reaches (definitions : Definitions) (node : Json) (key : DefinitionKey) : Prop :=
  ∃ first, Names node first ∧ ReflTransGen (Leads definitions) first key

/-- The node itself and the bodies of the definitions that it reaches. -/
def Reachable (definitions : Definitions) (node part : Json) : Prop :=
  part = node ∨ ∃ key, Reaches definitions node key ∧ lookup key definitions = some part

variable {key' : DefinitionKey}

theorem Names.reaches (h : Names node key) : Reaches definitions node key :=
  ⟨key, h, .refl⟩

/-- What a definition within reach leads to is within reach. -/
theorem Reaches.tail (h : Reaches definitions node key) (hleads : Leads definitions key key') :
    Reaches definitions node key' := by
  obtain ⟨first, hnames, hfirst⟩ := h
  exact ⟨first, hnames, hfirst.tail hleads⟩

/-- What the body of a definition reaches is within reach of a node that
names the definition. -/
theorem Names.reaches_of_body (h : Names node key) (hbody : lookup key definitions = some body)
    (hreaches : Reaches definitions body key') : Reaches definitions node key' := by
  obtain ⟨first, hnames, hfirst⟩ := hreaches
  exact ⟨key, h, .head ⟨body, hbody, hnames⟩ hfirst⟩

/-- A definition leads to what its body reaches. -/
theorem leads_of_reaches (hbody : lookup key definitions = some body)
    (h : Reaches definitions body key') : TransGen (Leads definitions) key key' := by
  obtain ⟨first, hnames, hfirst⟩ := h
  exact .head' ⟨body, hbody, hnames⟩ hfirst

/-- What a definition leads to, over others or not, is within reach of its
body. -/
theorem reaches_of_leads (hbody : lookup key definitions = some body)
    (h : TransGen (Leads definitions) key key') : Reaches definitions body key' := by
  obtain ⟨first, ⟨body', hbody', hnames⟩, hfirst⟩ := TransGen.head'_iff.1 h
  rw [hbody] at hbody'
  cases hbody'
  exact ⟨first, hnames, hfirst⟩

/-- What a part within reach names is within reach. -/
theorem Reachable.reaches {part : Json} (h : Reachable definitions node part)
    (hnames : Names part key) : Reaches definitions node key := by
  rcases h with rfl | ⟨key', hreaches, hpart⟩
  · exact hnames.reaches
  · exact hreaches.tail ⟨part, hpart, hnames⟩

-- ================================================ where expansion ends

/-- Every definition has its members in order. -/
def DefinitionsInOrder (definitions : Definitions) : Prop :=
  ∀ key body, lookup key definitions = some body → body.InOrder

section

variable (hdefinitions : DefinitionsInOrder definitions)
include hdefinitions

/-- Where expansion ends it has entered every definition within reach, on a
longer path that did not have it yet. -/
theorem entered_of_reaches (hnode : node.InOrder) (h : expandAfresh definitions path node = .ok v)
    (hreaches : Reaches definitions node key) :
    ∃ path' body v', path ⊆ path' ∧ key ∉ path' ∧ lookup key definitions = some body ∧
      expandAfresh definitions (path' ++ [key]) body = .ok v' := by
  -- the definitions are entered one behind another on the way to this one
  have hnamed : ∀ {path node v}, node.InOrder → expandAfresh definitions path node = .ok v →
      ∀ {key}, Names node key → ∃ body v', key ∉ path ∧ lookup key definitions = some body ∧
        expandAfresh definitions (path ++ [key]) body = .ok v' := by
    rintro path node v hnode h key ⟨reference, hcites, hkey⟩
    obtain ⟨_, target, heq, htarget⟩ := answered_of_walk hnode h hcites
    cases heq
    obtain ⟨key', body, hkey', hpath, hbody, htarget⟩ := resolveAfresh_eq_ok.1 htarget
    rw [hkey] at hkey'
    cases hkey'
    exact ⟨body, target, hpath, hbody, htarget⟩
  obtain ⟨first, hnames, hfirst⟩ := hreaches
  induction hfirst with
  | refl =>
      obtain ⟨body, v', hpath, hbody, h'⟩ := hnamed hnode h hnames
      exact ⟨path, body, v', fun _ hk => hk, hpath, hbody, h'⟩
  | @tail key key' _ hleads ih =>
      obtain ⟨path', body, v', hsub, -, hbody, h'⟩ := ih
      obtain ⟨body', hbody', hnames⟩ := hleads
      rw [hbody] at hbody'
      cases hbody'
      obtain ⟨body', v'', hpath, hbody', h''⟩ := hnamed (hdefinitions key body hbody) h' hnames
      exact ⟨path' ++ [key], body', v'', fun _ hk => List.mem_append_left _ (hsub hk), hpath,
        hbody', h''⟩

/-- Nothing on the path is within reach. -/
theorem not_reaches_of_mem (hnode : node.InOrder) (h : expandAfresh definitions path node = .ok v)
    (hmem : key ∈ path) : ¬ Reaches definitions node key := by
  intro hreaches
  obtain ⟨path', body, v', hsub, hpath, -⟩ := entered_of_reaches hdefinitions hnode h hreaches
  exact hpath (hsub hmem)

/-- A definition that has been expanded to the end is on no cycle. -/
theorem acyclic_of_entered (hbody : lookup key definitions = some body)
    (h : expandAfresh definitions (path ++ [key]) body = .ok v) :
    ¬ TransGen (Leads definitions) key key := fun hcycle =>
  not_reaches_of_mem hdefinitions (hdefinitions key body hbody) h
    (List.mem_append_right _ (List.mem_singleton_self key)) (reaches_of_leads hbody hcycle)

/-- Where expansion ends, no definition within reach is on a cycle. -/
theorem acyclic_of_reaches (hnode : node.InOrder) (h : expandAfresh definitions path node = .ok v)
    (hreaches : Reaches definitions node key) : ¬ TransGen (Leads definitions) key key := by
  obtain ⟨path', body, v', -, -, hbody, h'⟩ := entered_of_reaches hdefinitions hnode h hreaches
  exact acyclic_of_entered hdefinitions hbody h'

/-- Where expansion ends, every reference within reach has been resolved. The
part is the node or the body of a definition that was entered for it, and
that was expanded in either case. -/
theorem answered_of_reachable {part argument : Json} (hnode : node.InOrder)
    (h : expandAfresh definitions path node = .ok v) (hpart : Reachable definitions node part)
    (hcites : Cites part argument) :
    ∃ reference key body, argument = .str reference ∧
      DefinitionKey.ofPointer? reference = some key ∧ lookup key definitions = some body := by
  obtain ⟨path', v', hpart, h'⟩ : ∃ path' v', part.InOrder ∧
      expandAfresh definitions path' part = .ok v' := by
    rcases hpart with rfl | ⟨key, hreaches, hbody⟩
    · exact ⟨path, v, hnode, h⟩
    · obtain ⟨path', body, v', -, -, hbody', h'⟩ :=
        entered_of_reaches hdefinitions hnode h hreaches
      rw [hbody] at hbody'
      cases hbody'
      exact ⟨path' ++ [key], v', hdefinitions key part hbody, h'⟩
  obtain ⟨reference, target, rfl, htarget⟩ := answered_of_walk hpart h' hcites
  obtain ⟨key, body, hkey, -, hbody, -⟩ := resolveAfresh_eq_ok.1 htarget
  exact ⟨reference, key, body, rfl, hkey, hbody⟩

/-- Where expansion ends, it comes to the same on any path that has nothing
within reach. -/
theorem expandAfresh_of_path {path' : List DefinitionKey} (hnode : node.InOrder)
    (h : expandAfresh definitions path node = .ok v)
    (hpath' : ∀ key ∈ path', ¬ Reaches definitions node key) :
    expandAfresh definitions path' node = .ok v := by
  induction path using path_induction definitions
    generalizing path' node v with
  | step path ih =>
      refine walk_eq_ok_of_answers hnode h fun reference target hcites htarget => ?_
      obtain ⟨key, body, hkey, hpath, hbody, htarget⟩ := resolveAfresh_eq_ok.1 htarget
      have hnames : Names node key := ⟨reference, hcites, hkey⟩
      refine resolveAfresh_eq_ok.2 ⟨key, body, hkey, fun hmem => ?_, hbody, ?_⟩
      · exact hpath' key hmem hnames.reaches
      · refine ih key body hpath hbody (hdefinitions key body hbody) htarget fun k hk hreaches => ?_
        rcases List.mem_append.1 hk with hk | hk
        · exact hpath' k hk (hnames.reaches_of_body hbody hreaches)
        · rw [List.mem_singleton.1 hk] at hreaches
          exact acyclic_of_entered hdefinitions hbody htarget (leads_of_reaches hbody hreaches)

/-- A reference that is resolved on some path is resolved so on none. -/
theorem resolveAfresh_of_path (h : resolveAfresh definitions path reference = .ok v) :
    resolveAfresh definitions [] reference = .ok v := by
  obtain ⟨key, body, hkey, -, hbody, h⟩ := resolveAfresh_eq_ok.1 h
  have horder := hdefinitions key body hbody
  refine resolveAfresh_eq_ok.2 ⟨key, body, hkey, List.not_mem_nil, hbody, ?_⟩
  refine expandAfresh_of_path hdefinitions horder h fun k hk => ?_
  exact not_reaches_of_mem hdefinitions horder h (List.mem_append_right _ hk)

end

end Schema

end TypedSelect
