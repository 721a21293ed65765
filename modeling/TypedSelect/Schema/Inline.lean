/-
Replacing every reference in a schema by what it refers to.

A definition is expanded where it is referred to, with the references
inside it expanded in turn; `path` holds the definitions that are being
expanded, the outermost first, and one that turns up again refers to
itself. A definition that has been expanded is kept and used again. The
recursion ends because every definition it enters is one that is not on
the path yet.
-/
import TypedSelect.Error
import TypedSelect.Json.Writer
import TypedSelect.Schema.Pointer

namespace TypedSelect

namespace Schema

/-- The definitions that have been expanded, with their expansions. -/
abbrev Expanded := Definitions

/-- A computation that keeps what it expands. -/
abbrev Expansion (α : Type) := StateT Expanded (Except SchemaError) α

-- ============================================================ parts

/-- The key of a reference. -/
def referenceKey : String := "$ref"

/-- The members beside a reference laid over its target. A target that
is no object has no members and goes into an object first. -/
def refine (target : Json) (siblings : List (String × Json)) : Json :=
  if siblings.isEmpty then target
  else
    let base := match target with
      | .obj members => members
      | other => [("allOf", .arr [other])]
    .obj (siblings.foldl (fun members m => Json.insertMember m.1 m.2 members) base)

/-- The definitions that are not on the path. -/
def pending (definitions : Definitions) (path : List DefinitionKey) : List DefinitionKey :=
  (definitions.map Prod.fst).filter fun k => !path.contains k

/-- The error of a definition that turns up inside itself. -/
def cycle (path : List DefinitionKey) (key : DefinitionKey) : SchemaError :=
  .selfReference ((path.dropWhile (· != key) ++ [key]).map DefinitionKey.name)

/-- The error of a reference to the whole document. -/
def rootCycle (path : List DefinitionKey) : SchemaError :=
  .selfReference ([rootReference] ++ path.map DefinitionKey.name ++ [rootReference])

/-- A definition that exists is in the list. -/
theorem mem_keys_of_lookup {key : DefinitionKey} {definitions : Definitions} {body : Json}
    (h : lookup key definitions = some body) : key ∈ definitions.map Prod.fst := by
  induction definitions with
  | nil => simp [lookup] at h
  | cons d rest ih =>
    obtain ⟨k, b⟩ := d
    rw [List.map_cons, List.mem_cons]
    by_cases hk : k = key
    · exact .inl hk.symm
    · rw [lookup, if_neg hk] at h
      exact .inr (ih h)

/-- What is pending on a longer path is what was pending, without its last
step. -/
theorem pending_append (definitions : Definitions) (path : List DefinitionKey)
    (key : DefinitionKey) :
    pending definitions (path ++ [key]) = (pending definitions path).filter (· != key) := by
  rw [pending, pending, List.filter_filter]
  refine List.filter_congr fun k _ => ?_
  simp only [List.contains_append, List.contains_cons, List.contains_nil, Bool.or_false,
    Bool.not_or, Bool.and_comm, bne]

/-- Entering a definition leaves fewer of them. -/
theorem pending_lt {definitions : Definitions} {path : List DefinitionKey}
    {key : DefinitionKey} {body : Json} (hpath : ¬ path.contains key = true)
    (h : lookup key definitions = some body) :
    (pending definitions (path ++ [key])).length < (pending definitions path).length := by
  have hmem : key ∈ pending definitions path :=
    List.mem_filter.2 ⟨mem_keys_of_lookup h, by simpa using hpath⟩
  rw [pending_append]
  exact List.length_filter_lt_length_iff_exists.2 ⟨key, hmem, by simp⟩

-- ========================================================== expansion

mutual

/-- A node with its references replaced. -/
def expand (definitions : Definitions) (path : List DefinitionKey) (node : Json) :
    Expansion Json :=
  match node with
  | .obj members =>
    match Json.member? referenceKey members with
    | some (.str reference) => do
      let target ← resolve definitions path reference
      let siblings ← expandMembers definitions path members
      return refine target siblings
    | some other => throw (.unsupportedReference other.text)
    | none => do
      let members ← expandMembers definitions path members
      return .obj members
  | .arr items => do
    let items ← expandItems definitions path items
    return .arr items
  | value => return value
termination_by ((pending definitions path).length, sizeOf node, 1)

/-- Items with their references replaced, from the first on. -/
def expandItems (definitions : Definitions) (path : List DefinitionKey) :
    List Json → Expansion (List Json)
  | [] => return []
  | item :: rest => do
    let item ← expand definitions path item
    let rest ← expandItems definitions path rest
    return item :: rest
termination_by items => ((pending definitions path).length, sizeOf items, 0)

/-- The members other than a reference, with the references inside them
replaced, from the first on. -/
def expandMembers (definitions : Definitions) (path : List DefinitionKey) :
    List (String × Json) → Expansion (List (String × Json))
  | [] => return []
  | (key, value) :: rest =>
    if key = referenceKey then expandMembers definitions path rest
    else do
      let value ← expand definitions path value
      let rest ← expandMembers definitions path rest
      return (key, value) :: rest
termination_by members => ((pending definitions path).length, sizeOf members, 0)

/-- What a reference refers to, with the references inside it
replaced. -/
def resolve (definitions : Definitions) (path : List DefinitionKey)
    (reference : String) : Expansion Json :=
  if reference = rootReference then throw (rootCycle path)
  else
    match DefinitionKey.ofPointer? reference with
    | none => throw (.unsupportedReference reference)
    | some key => do
      let expanded ← get
      match lookup key expanded with
      | some body => return body
      | none =>
        if _hpath : path.contains key then throw (cycle path key)
        else
          match _h : lookup key definitions with
          | none => throw (.unknownDefinition key.name)
          | some body => do
            let body ← expand definitions (path ++ [key]) body
            modify fun expanded => (key, body) :: expanded
            return body
termination_by ((pending definitions path).length, 0, 0)
decreasing_by
  exact Prod.Lex.left _ _ (pending_lt _hpath _h)

end

/-- The schema with every reference replaced and its definitions
removed. Members are sorted by key, and visited in that order. -/
def inline (schema : Json) : Except SchemaError Json :=
  let schema := schema.ordered
  ((expand (definitionsOf schema) [] (withoutDefinitions schema)).run []).map Prod.fst

end Schema

end TypedSelect
