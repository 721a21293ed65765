/-
What a schema says of a value.

A schema is read keyword by keyword; a value conforms when no keyword
refuses it, and a keyword it does not know refuses nothing. This is the
reading of schemas under which the schemas of entities are compared with
the codecs of entities.

# One table

The keywords that hold schemas of their own are handed the verdicts of
those, so that the meaning of a keyword is one table without a recursion
in it (`admits`), and the recursion through schemas is one definition
(`conformsWith`) without a table in it. Proofs about a keyword unfold the
table at that keyword, and proofs about schemas go by `Admits`, which is
the table applied to a member of the schema.

# References

What a reference stands for is left open: `conformsWith` is told how to
follow one. `followed` follows references so many times one inside
another, and `Accepts` asks for the same verdict however deep from some
depth on, so that a schema with references is given no meaning by a bound
that is too small.

# Patterns

Patterns are rows of characters and classes between anchors, with a star
behind some of them. That is all that schemas of names need, and a pattern
of any other kind matches nothing.
-/
import TypedSelect.Proofs.Json.Order
import TypedSelect.Schema.Definitions

namespace TypedSelect

namespace Schema

open Json (member?)

-- ============================================================ patterns

/-- One place of a pattern: the characters that may stand in it, and
whether any number of them may. -/
structure PatternItem where
  ranges : List (Char × Char)
  starred : Bool
deriving DecidableEq

/-- Whether a character may stand in the place. -/
def PatternItem.has (i : PatternItem) (c : Char) : Bool :=
  i.ranges.any fun r => decide (r.1 ≤ c) && decide (c ≤ r.2)

/-- The ranges of a class up to its closing bracket, and the rest. -/
def readClass : List Char → Option (List (Char × Char) × List Char)
  | [] => none
  | ']' :: rest => some ([], rest)
  | a :: '-' :: b :: rest => (readClass rest).map fun (rs, rest) => ((a, b) :: rs, rest)
  | a :: rest => (readClass rest).map fun (rs, rest) => ((a, a) :: rs, rest)

/-- The places of a pattern up to its closing anchor, `fuel` of them at
most. -/
def readItems : Nat → List Char → Option (List PatternItem)
  | 0, _ => none
  | _ + 1, [] => none
  | _ + 1, ['$'] => some []
  | fuel + 1, c :: rest => do
    let (ranges, rest) ← if c = '[' then readClass rest else some ([(c, c)], rest)
    match rest with
    | '*' :: rest => (readItems fuel rest).map (⟨ranges, true⟩ :: ·)
    | rest => (readItems fuel rest).map (⟨ranges, false⟩ :: ·)

/-- The places of a pattern between its two anchors. -/
def readPattern (pattern : String) : Option (List PatternItem) :=
  match pattern.toList with
  | '^' :: rest => readItems (rest.length + 1) rest
  | _ => none

/-- Any number of characters of a place, and then what comes next. -/
def matchesStar (i : PatternItem) (next : List Char → Bool) : List Char → Bool
  | [] => next []
  | c :: rest => next (c :: rest) || (i.has c && matchesStar i next rest)

/-- Whether a text is a row of characters that may stand in the places. -/
def matchesItems : List PatternItem → List Char → Bool
  | [], s => s.isEmpty
  | i :: items, s =>
    if i.starred then matchesStar i (matchesItems items) s
    else
      match s with
      | [] => false
      | c :: rest => i.has c && matchesItems items rest

/-- Whether the whole text matches the pattern. -/
def matchesPattern (pattern text : String) : Bool :=
  match readPattern pattern with
  | some items => matchesItems items text.toList
  | none => false

-- ============================================================= values

mutual

/-- Whether two values are the same, whatever the order of members. -/
def same : Json → Json → Bool
  | .null, .null => true
  | .bool a, .bool b => a == b
  | .int a, .int b => a == b
  | .float a, .float b => a == b
  | .str a, .str b => a == b
  | .arr as, .arr bs => sameItems as bs
  | .obj as, .obj bs => as.length == bs.length && sameMembers as bs
  | _, _ => false

/-- Whether two lists have the same items. -/
def sameItems : List Json → List Json → Bool
  | [], [] => true
  | a :: as, b :: bs => same a b && sameItems as bs
  | _, _ => false

/-- Whether every member is among the others, with the same value. -/
def sameMembers : List (String × Json) → List (String × Json) → Bool
  | [], _ => true
  | (key, a) :: as, bs =>
    (match member? key bs with
      | some b => same a b
      | none => false) && sameMembers as bs

end

/-- Whether a value is of the named type. A number is finite, and an
integer is a whole number of 64 bits, signed or unsigned, written without
a fraction or an exponent. -/
def hasType (value : Json) (type : String) : Bool :=
  match value with
  | .null => type == "null"
  | .bool _ => type == "boolean"
  | .int i => type == "number" || (type == "integer" &&
    decide (Int64.minValue.toInt ≤ i ∧ i < UInt64.size))
  | .float x => type == "number" && x.isFinite
  | .str _ => type == "string"
  | .arr _ => type == "array"
  | .obj _ => type == "object"

/-- A number as a fraction. -/
def fraction? : Json → Option (Int × Nat)
  | .int i => some (i, 1)
  | .float (.finite negative x) =>
    let (num, den) := x.fraction
    some (if negative then -num else num, den)
  | _ => none

/-- Whether one number is at most another; what is no number has no
size. -/
def atMost (a b : Json) : Bool :=
  match fraction? a, fraction? b with
  | some (m, c), some (n, d) => decide (m * d ≤ n * c)
  | _, _ => true

/-- Whether an object has a member with this key. -/
def hasKey (members : List (String × Json)) (key : String) : Bool := members.any (·.1 == key)

-- =========================================================== keywords

/-- Whether `properties` beside this keyword declares the key. -/
def declares (siblings : List (String × Json)) (key : String) : Bool :=
  match member? "properties" siblings with
  | some (.obj properties) => hasKey properties key
  | _ => false

/-- Whether a keyword admits a value. `schema` is the verdict of the
argument taken as a schema, `options` are the verdicts of its items, and
`property` is the verdict of its member of that name. -/
def admits (follow : String → Json → Bool) (siblings : List (String × Json)) (keyword : String)
    (argument : Json) (schema : Json → Bool) (options : Json → List Bool)
    (property : String → Json → Option Bool) (value : Json) : Bool :=
  match keyword, argument, value with
  | "$ref", .str reference, v => follow reference v
  | "type", .str type, v => hasType v type
  | "type", .arr types, v => types.any fun
    | .str type => hasType v type
    | _ => false
  | "const", c, v => same c v
  | "enum", .arr constants, v => constants.any fun c => same c v
  | "minimum", n, v => atMost n v
  | "maximum", n, v => atMost v n
  | "maxLength", .int n, .str s => decide (s.length ≤ n)
  | "pattern", .str p, .str s => matchesPattern p s
  | "items", _, .arr items => items.all schema
  | "minItems", .int n, .arr items => decide (n ≤ items.length)
  | "properties", _, .obj members => members.all fun m => (property m.1 m.2).getD true
  | "additionalProperties", _, .obj members =>
    members.all fun m => declares siblings m.1 || schema m.2
  | "required", .arr names, .obj members => names.all fun
    | .str name => hasKey members name
    | _ => true
  | "anyOf", .arr _, v => (options v).any id
  | "allOf", .arr _, v => (options v).all id
  | "oneOf", .arr _, v => (options v).count true == 1
  | "not", _, v => !schema v
  | _, _, _ => true

mutual

/-- Whether a value conforms to a schema, references followed as told. -/
def conformsWith (follow : String → Json → Bool) : Json → Json → Bool
  | .bool verdict, _ => verdict
  | .obj keywords, v => allAdmit follow keywords keywords v
  | _, _ => true
termination_by structural schema => schema

/-- Whether all of these keywords admit a value. -/
def allAdmit (follow : String → Json → Bool) (siblings : List (String × Json)) :
    List (String × Json) → Json → Bool
  | [], _ => true
  | (keyword, argument) :: rest, v =>
    admits follow siblings keyword argument (conformsWith follow argument)
      (verdicts follow argument) (propertyVerdict follow argument) v &&
      allAdmit follow siblings rest v
termination_by structural keywords => keywords

/-- The verdicts of a list of schemas. -/
def verdicts (follow : String → Json → Bool) : Json → Json → List Bool
  | .arr options, v => verdictsOf follow options v
  | _, _ => []
termination_by structural options => options

/-- The verdicts of schemas, one by one. -/
def verdictsOf (follow : String → Json → Bool) : List Json → Json → List Bool
  | [], _ => []
  | option :: rest, v => conformsWith follow option v :: verdictsOf follow rest v
termination_by structural options => options

/-- The verdict of the schema of a property. -/
def propertyVerdict (follow : String → Json → Bool) : Json → String → Json → Option Bool
  | .obj properties, name, v => propertyOf follow properties name v
  | _, _, _ => none
termination_by structural properties => properties

/-- The verdict of the first schema under the name. -/
def propertyOf (follow : String → Json → Bool) :
    List (String × Json) → String → Json → Option Bool
  | [], _, _ => none
  | (key, schema) :: rest, name, v =>
    if key = name then some (conformsWith follow schema v) else propertyOf follow rest name v
termination_by structural properties => properties

end

-- ========================================================= references

/-- References followed at most so many times one inside another; what
lies deeper conforms to nothing. -/
def followed (definitions : Definitions) : Nat → String → Json → Bool
  | 0, _, _ => false
  | depth + 1, reference, v =>
    match (DefinitionKey.ofPointer? reference).bind fun key => lookup key definitions with
    | some schema => conformsWith (followed definitions depth) schema v
    | none => false

/-- A value conforms to a schema with definitions when it does however
deep the references are followed, from some depth on. -/
def Accepts (schema v : Json) : Prop :=
  ∃ depth, ∀ more, depth ≤ more →
    conformsWith (followed (definitionsOf schema) more) schema v = true

-- ============================================================ verdicts

variable {follow : String → Json → Bool} {v : Json}

/-- The verdicts of a list of schemas are those of each. -/
theorem verdictsOf_eq (options : List Json) :
    verdictsOf follow options v = options.map fun option => conformsWith follow option v := by
  induction options with
  | nil => rfl
  | cons option options ih => rw [verdictsOf, ih, List.map_cons]

/-- The schema of a property is looked up by its name. -/
theorem propertyOf_eq (properties : List (String × Json)) (name : String) :
    propertyOf follow properties name v =
      (member? name properties).map fun schema => conformsWith follow schema v := by
  induction properties with
  | nil => rfl
  | cons p properties ih =>
      obtain ⟨key, schema⟩ := p
      rw [propertyOf, member?, ih]
      split <;> rfl

/-- What a keyword says of a value, with its argument taken as a schema. -/
def Admits (follow : String → Json → Bool) (siblings : List (String × Json))
    (k : String × Json) (v : Json) : Prop :=
  admits follow siblings k.1 k.2 (conformsWith follow k.2) (verdicts follow k.2)
    (propertyVerdict follow k.2) v = true

/-- A value conforms to keywords if each of them admits it. -/
theorem allAdmit_eq_true {siblings keywords : List (String × Json)} :
    allAdmit follow siblings keywords v = true ↔
      ∀ k ∈ keywords, Admits follow siblings k v := by
  induction keywords with
  | nil => exact ⟨fun _ k hk => absurd hk List.not_mem_nil, fun _ => rfl⟩
  | cons k keywords ih =>
      obtain ⟨keyword, argument⟩ := k
      rw [allAdmit, Bool.and_eq_true, ih, List.forall_mem_cons]
      rfl

/-- The siblings of a keyword count as far as they declare properties, which
is what a keyword on additional properties asks about. -/
theorem Admits.congr {siblings others : List (String × Json)} {k : String × Json}
    (h : declares siblings = declares others) :
    Admits follow siblings k v ↔ Admits follow others k v := by
  unfold Admits admits
  rw [h]

/-- An object of keywords is read in any order. It is written in the order of
its keys, and since these are different the order does not matter. -/
theorem conformsWith_object {keywords : List (String × Json)}
    (hnodup : (keywords.map Prod.fst).Nodup) :
    conformsWith follow (Json.object keywords) v = true ↔
      ∀ k ∈ keywords, Admits follow keywords k v := by
  have hdeclares : declares (Json.sortMembers keywords) = declares keywords := by
    funext key
    unfold declares
    rw [Json.member?_sortMembers hnodup]
  unfold Json.object
  rw [conformsWith, allAdmit_eq_true]
  constructor
  · intro h k hk
    exact (Admits.congr hdeclares).1 (h k ((Json.mem_sortMembers hnodup).2 hk))
  · intro h k hk
    exact (Admits.congr hdeclares).2 (h k ((Json.mem_sortMembers hnodup).1 hk))

end Schema

end TypedSelect
