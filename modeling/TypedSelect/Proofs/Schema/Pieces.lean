/-
What the pieces of the schemas say.

One statement for each keyword and one for each way to build a schema,
references followed as told. The statements about entities use these and
never open a keyword.

# Keywords

The meaning of a keyword is a row of a table. The lemmas whose names begin
with `admits` read the rows in use, each as a statement about the value:
what an array has in it, which keys an object has. Keywords that look at
one type of value are stated for values of this type, since they are used
beside the keyword that asks for the type.

# Schemas

The lemmas whose names begin with `conformsWith` do the same for the ways
to build a schema: typed values, constants, the symbols of a vocabulary,
names, counts, lists, closed records. A name is given by a pattern, and
the pattern is compared with the shape of identifiers that the validator
asks for.

# Choices

A choice between tagged records is the one place where a schema counts:
exactly one of the options has to be met. The tags keep the records apart,
so a value conforms to one of them at most, and the choice is met where
one of them is. The source of rows makes such a choice too, by which keys
are there.
-/
import Mathlib.Data.List.Nodup
import TypedSelect.Identifier
import TypedSelect.Proofs.Characters
import TypedSelect.Proofs.Schema.Conforms

namespace TypedSelect

namespace Schema

open Json (member? object strings)

variable {follow : String → Json → Bool} {siblings members : List (String × Json)}
  {items : List Json} {v : Json}

-- ============================================================ keywords

/-- A value is the same as a text if it is that text. -/
theorem same_str {a : String} : same (.str a) v = true ↔ v = .str a := by
  cases v with
  | str b =>
      show (a == b) = true ↔ _
      rw [beq_iff_eq, Json.str.injEq, eq_comm]
  | _ => exact ⟨nofun, nofun⟩

/-- A reference asks for what it is followed to. -/
theorem admits_reference {reference : String} :
    Admits follow siblings (referenceKey, .str reference) v ↔ follow reference v = true := Iff.rfl

/-- The keyword of a type asks for the type. -/
theorem admits_type {type : String} :
    Admits follow siblings ("type", .str type) v ↔ hasType v type = true := Iff.rfl

/-- A list of types asks for one of them. -/
theorem admits_types {types : List String} :
    Admits follow siblings ("type", strings types) v ↔ ∃ type ∈ types, hasType v type = true := by
  show (types.map Json.str).any _ = true ↔ _
  rw [List.any_eq_true]
  constructor
  · rintro ⟨_, hmem, h⟩
    obtain ⟨type, htype, rfl⟩ := List.mem_map.1 hmem
    exact ⟨type, htype, h⟩
  · rintro ⟨type, htype, h⟩
    exact ⟨.str type, List.mem_map_of_mem htype, h⟩

theorem admits_const {c : String} : Admits follow siblings ("const", .str c) v ↔ v = .str c :=
  same_str

/-- A list of texts asks for one of them. -/
theorem admits_enum {names : List String} :
    Admits follow siblings ("enum", strings names) v ↔ ∃ name ∈ names, v = .str name := by
  show (names.map Json.str).any (fun c => same c v) = true ↔ _
  rw [List.any_eq_true]
  constructor
  · rintro ⟨_, hmem, h⟩
    obtain ⟨name, hname, rfl⟩ := List.mem_map.1 hmem
    exact ⟨name, hname, same_str.1 h⟩
  · rintro ⟨name, hname, h⟩
    exact ⟨.str name, List.mem_map_of_mem hname, same_str.2 h⟩

/-- A lower bound asks for a number that is not below it. -/
theorem admits_minimum {n : Json} :
    Admits follow siblings ("minimum", n) v ↔ atMost n v = true := by
  cases n <;> exact Iff.rfl

/-- An upper bound asks for a number that is not above it. -/
theorem admits_maximum {n : Json} :
    Admits follow siblings ("maximum", n) v ↔ atMost v n = true := by
  cases n <;> exact Iff.rfl

theorem admits_maxLength {n : Int} {s : String} :
    Admits follow siblings ("maxLength", .int n) (.str s) ↔ s.length ≤ n :=
  decide_eq_true_iff

theorem admits_pattern {p s : String} :
    Admits follow siblings ("pattern", .str p) (.str s) ↔ matchesPattern p s = true := Iff.rfl

/-- Every item conforms to the schema of the items. -/
theorem admits_items {schema : Json} :
    Admits follow siblings ("items", schema) (.arr items) ↔
      ∀ item ∈ items, conformsWith follow schema item = true := by
  cases schema <;> exact List.all_eq_true

theorem admits_minItems {n : Int} :
    Admits follow siblings ("minItems", .int n) (.arr items) ↔ n ≤ items.length :=
  decide_eq_true_iff

/-- A member whose key is declared conforms to the schema of the key. A
member whose key is not declared is no matter of this keyword. -/
theorem admits_properties {properties : List (String × Json)} :
    Admits follow siblings ("properties", .obj properties) (.obj members) ↔
      ∀ m ∈ members, ∀ schema, member? m.1 properties = some schema →
        conformsWith follow schema m.2 = true := by
  show members.all (fun m => (propertyOf follow properties m.1 m.2).getD true) = true ↔ _
  rw [List.all_eq_true]
  refine forall₂_congr fun m _ => ?_
  rw [propertyOf_eq]
  cases member? m.1 properties with
  | none => exact ⟨fun _ _ => nofun, fun _ => rfl⟩
  | some schema =>
      refine ⟨fun h _ heq => ?_, fun h => h schema rfl⟩
      cases heq
      exact h

/-- An object has a key if one of its members does. -/
theorem hasKey_eq_true {key : String} : hasKey members key = true ↔ key ∈ members.map Prod.fst := by
  unfold hasKey
  rw [List.any_eq_true, List.mem_map]
  exact exists_congr fun m => and_congr_right fun _ => beq_iff_eq

theorem admits_required {names : List String} :
    Admits follow siblings ("required", strings names) (.obj members) ↔
      ∀ name ∈ names, name ∈ members.map Prod.fst := by
  show (names.map Json.str).all _ = true ↔ _
  rw [List.all_eq_true]
  constructor
  · intro h name hname
    exact hasKey_eq_true.1 (h (.str name) (List.mem_map_of_mem hname))
  · intro h _ hmem
    obtain ⟨name, hname, rfl⟩ := List.mem_map.1 hmem
    exact hasKey_eq_true.2 (h name hname)

/-- With no other properties allowed, every key is declared. -/
theorem admits_noOthers :
    Admits follow siblings ("additionalProperties", .bool false) (.obj members) ↔
      ∀ m ∈ members, declares siblings m.1 = true := by
  show members.all (fun m => declares siblings m.1 || false) = true ↔ _
  simp only [Bool.or_false, List.all_eq_true]

theorem admits_anyOf {options : List Json} :
    Admits follow siblings ("anyOf", .arr options) v ↔
      ∃ option ∈ options, conformsWith follow option v = true := by
  show (verdictsOf follow options v).any id = true ↔ _
  rw [verdictsOf_eq, List.any_map, List.any_eq_true]
  rfl

/-- A value conforms to exactly one of the options. -/
theorem admits_oneOf {options : List Json} :
    Admits follow siblings ("oneOf", .arr options) v ↔
      options.countP (fun option => conformsWith follow option v) = 1 := by
  show ((verdictsOf follow options v).count true == 1) = true ↔ _
  have hcount : ((fun b => b == true) ∘ fun option => conformsWith follow option v) =
      fun option => conformsWith follow option v := funext fun _ => beq_true _
  rw [verdictsOf_eq, beq_iff_eq, List.count, List.countP_map, hcount]

theorem admits_not {schema : Json} :
    Admits follow siblings ("not", schema) v ↔ ¬ conformsWith follow schema v = true := by
  have h : Admits follow siblings ("not", schema) v ↔ (!conformsWith follow schema v) = true := by
    cases schema <;> exact Iff.rfl
  rw [h, Bool.not_eq_true', Bool.not_eq_true]

-- =============================================================== types

/-- An object is of the type of objects, and nothing else is. -/
theorem hasType_object : hasType v "object" = true ↔ ∃ members, v = .obj members := by
  cases v with
  | obj members => exact ⟨fun _ => ⟨members, rfl⟩, fun _ => rfl⟩
  | _ => exact ⟨nofun, nofun⟩

/-- A list is of the type of arrays, and nothing else is. -/
theorem hasType_array : hasType v "array" = true ↔ ∃ items, v = .arr items := by
  cases v with
  | arr items => exact ⟨fun _ => ⟨items, rfl⟩, fun _ => rfl⟩
  | _ => exact ⟨nofun, nofun⟩

/-- A text is of the type of strings, and nothing else is. -/
theorem hasType_string : hasType v "string" = true ↔ ∃ s, v = .str s := by
  cases v with
  | str s => exact ⟨fun _ => ⟨s, rfl⟩, fun _ => rfl⟩
  | _ => exact ⟨nofun, nofun⟩

/-- A truth value is of its type, and nothing else is. -/
theorem hasType_boolean : hasType v "boolean" = true ↔ ∃ b, v = .bool b := by
  cases v with
  | bool b => exact ⟨fun _ => ⟨b, rfl⟩, fun _ => rfl⟩
  | _ => exact ⟨nofun, nofun⟩

/-- A number is a whole one or a finite one of floating point. -/
theorem hasType_number : hasType v "number" = true ↔
    (∃ i, v = .int i) ∨ ∃ x, v = .float x ∧ x.isFinite = true := by
  cases v <;> simp [hasType]

/-- An integer is a whole number of 64 bits, signed or unsigned. -/
theorem hasType_integer : hasType v "integer" = true ↔
    ∃ i, v = .int i ∧ Int64.minValue.toInt ≤ i ∧ i < UInt64.size := by
  cases v with
  | int i =>
      refine ⟨fun h => ⟨i, rfl, of_decide_eq_true h⟩, ?_⟩
      rintro ⟨_, ⟨⟩, h⟩
      exact decide_eq_true h
  | _ => exact ⟨nofun, nofun⟩

-- ============================================================= schemas

/-- A typed schema asks for the type and for what its keywords say. -/
theorem conformsWith_typed {type : String} {keywords : List (String × Json)}
    (hnodup : ("type" :: keywords.map Prod.fst).Nodup) :
    conformsWith follow (typed type keywords) v = true ↔
      hasType v type = true ∧
        ∀ k ∈ keywords, Admits follow (("type", .str type) :: keywords) k v := by
  have hkeys : ((("type", Json.str type) :: keywords).map Prod.fst).Nodup := hnodup
  unfold typed
  rw [conformsWith_object hkeys, List.forall_mem_cons, admits_type]

/-- A schema of one keyword. -/
theorem conformsWith_single {k : String × Json} :
    conformsWith follow (object [k]) v = true ↔ Admits follow [k] k v := by
  rw [conformsWith_object (by simp), List.forall_mem_singleton]

theorem conformsWith_constant {c : String} :
    conformsWith follow (constant c) v = true ↔ v = .str c :=
  conformsWith_single.trans admits_const

/-- The symbols of a vocabulary accept the names of these symbols. -/
theorem conformsWith_symbols {α : Type} [Vocabulary α] :
    conformsWith follow (symbols α) v = true ↔
      ∃ a ∈ Vocabulary.all (α := α), v = .str (Vocabulary.name a) := by
  unfold symbols
  rw [conformsWith_typed (by simp), List.forall_mem_singleton, admits_enum]
  constructor
  · rintro ⟨-, _, hmem, rfl⟩
    obtain ⟨a, ha, rfl⟩ := List.mem_map.1 hmem
    exact ⟨a, ha, rfl⟩
  · rintro ⟨a, ha, rfl⟩
    exact ⟨hasType_string.2 ⟨_, rfl⟩, _, List.mem_map_of_mem ha, rfl⟩

theorem conformsWith_boolean :
    conformsWith follow (typed "boolean" []) v = true ↔ ∃ b, v = .bool b := by
  rw [conformsWith_typed (by simp), hasType_boolean]
  exact and_iff_left fun _ h => absurd h List.not_mem_nil

theorem conformsWith_number :
    conformsWith follow (typed "number" []) v = true ↔
      (∃ i, v = .int i) ∨ ∃ x, v = .float x ∧ x.isFinite = true := by
  rw [conformsWith_typed (by simp), hasType_number]
  exact and_iff_left fun _ h => absurd h List.not_mem_nil

/-- A count is a whole number that is not negative and has 64 bits. The upper
bound comes with the type, since a larger one is no integer in JSON. -/
theorem conformsWith_count :
    conformsWith follow count v = true ↔ ∃ i : Int, v = .int i ∧ 0 ≤ i ∧ i < UInt64.size := by
  unfold count
  rw [conformsWith_typed (by simp), List.forall_mem_singleton, admits_minimum, hasType_integer]
  constructor
  · rintro ⟨⟨i, rfl, -, hlt⟩, hmin⟩
    have hle : (0 : Int) * (1 : Nat) ≤ i * (1 : Nat) := of_decide_eq_true hmin
    exact ⟨i, rfl, by omega, hlt⟩
  · rintro ⟨i, rfl, hle, hlt⟩
    refine ⟨⟨i, rfl, (by decide : Int64.minValue.toInt ≤ 0).trans hle, hlt⟩, ?_⟩
    show decide ((0 : Int) * (1 : Nat) ≤ i * (1 : Nat)) = true
    exact decide_eq_true (by omega)

/-- The places of the pattern of names. -/
def identifierItems : List PatternItem :=
  [⟨[('A', 'Z'), ('a', 'z'), ('_', '_')], false⟩,
    ⟨[('A', 'Z'), ('a', 'z'), ('0', '9'), ('_', '_')], true⟩]

/-- The pattern of names has two places: one character, and any number of
others. -/
theorem readPattern_identifier :
    readPattern "^[A-Za-z_][A-Za-z0-9_]*$" = some identifierItems := by
  decide +kernel

/-- The first place takes what can begin an identifier. -/
theorem has_start (c : Char) :
    (⟨[('A', 'Z'), ('a', 'z'), ('_', '_')], false⟩ : PatternItem).has c = startsIdentifier c := by
  rw [Bool.eq_iff_iff]
  simp only [PatternItem.has, startsIdentifier, isAlpha_iff, List.any_cons, List.any_nil,
    Bool.or_false, Bool.or_eq_true, Bool.and_eq_true, decide_eq_true_eq, ← ge_antisymm_iff,
    or_assoc]

/-- The second takes what can stand further on in it. -/
theorem has_continue (c : Char) :
    (⟨[('A', 'Z'), ('a', 'z'), ('0', '9'), ('_', '_')], true⟩ : PatternItem).has c =
      continuesIdentifier c := by
  rw [Bool.eq_iff_iff]
  simp only [PatternItem.has, continuesIdentifier, isAlphanum_iff, List.any_cons, List.any_nil,
    Bool.or_false, Bool.or_eq_true, Bool.and_eq_true, decide_eq_true_eq, ← ge_antisymm_iff,
    or_assoc]

/-- A last place that is starred takes what is left, character by character. -/
theorem matchesStar_nil (i : PatternItem) (s : List Char) :
    matchesStar i (matchesItems []) s = s.all i.has := by
  induction s with
  | nil => rfl
  | cons c s ih =>
      rw [matchesStar, ih, List.all_cons]
      rfl

/-- The pattern of names matches the texts in the shape of an identifier. It
is anchored on both sides, so the whole text is matched. -/
theorem matchesPattern_identifier (s : String) :
    matchesPattern "^[A-Za-z_][A-Za-z0-9_]*$" s = isIdentifierShape s.toList := by
  unfold matchesPattern
  rw [readPattern_identifier]
  show matchesItems identifierItems s.toList = _
  cases s.toList with
  | nil => rfl
  | cons c rest =>
      have hrest : rest.all (⟨[('A', 'Z'), ('a', 'z'), ('0', '9'), ('_', '_')], true⟩ :
          PatternItem).has = rest.all continuesIdentifier := by
        rw [funext has_continue]
      show (PatternItem.has _ c && matchesStar _ (matchesItems []) rest) = _
      rw [matchesStar_nil, has_start, hrest]
      rfl

/-- A name has the shape of an identifier and at most 63 characters. That it
is no reserved word is not in the schema. -/
theorem conformsWith_identifier :
    conformsWith follow identifier v = true ↔
      ∃ s, v = .str s ∧ isIdentifierShape s.toList = true ∧ s.length ≤ 63 := by
  unfold identifier
  rw [conformsWith_typed (by simp), hasType_string, List.forall_mem_cons,
    List.forall_mem_singleton]
  constructor
  · rintro ⟨⟨s, rfl⟩, hpattern, hlength⟩
    rw [admits_pattern, matchesPattern_identifier] at hpattern
    exact ⟨s, rfl, hpattern, Int.ofNat_le.1 (admits_maxLength.1 hlength)⟩
  · rintro ⟨s, rfl, hshape, hlength⟩
    refine ⟨⟨s, rfl⟩, ?_, admits_maxLength.2 (Int.ofNat_le.2 hlength)⟩
    rw [admits_pattern, matchesPattern_identifier, hshape]

/-- A schema of arrays asks for a list and for what its keywords say of it. -/
theorem conformsWith_array {keywords : List (String × Json)}
    (hnodup : ("type" :: keywords.map Prod.fst).Nodup) :
    conformsWith follow (typed "array" keywords) v = true ↔
      ∃ items, v = .arr items ∧
        ∀ k ∈ keywords, Admits follow (("type", .str "array") :: keywords) k (.arr items) := by
  rw [conformsWith_typed hnodup, hasType_array]
  constructor
  · rintro ⟨⟨items, rfl⟩, h⟩
    exact ⟨items, rfl, h⟩
  · rintro ⟨items, rfl, h⟩
    exact ⟨⟨items, rfl⟩, h⟩

/-- A list of an entity has items that conform to the entity. -/
theorem conformsWith_arrayOf {e : Entity} :
    conformsWith follow (arrayOf e) v = true ↔
      ∃ items, v = .arr items ∧ ∀ item ∈ items, conformsWith follow (ref e) item = true := by
  unfold arrayOf
  rw [conformsWith_array (by simp)]
  refine exists_congr fun items => and_congr_right fun _ => ?_
  rw [List.forall_mem_singleton, admits_items]

/-- So has a list that must not be empty, and one item at least. -/
theorem conformsWith_nonEmptyArrayOf {e : Entity} :
    conformsWith follow (nonEmptyArrayOf e) v = true ↔
      ∃ items, v = .arr items ∧ items ≠ [] ∧
        ∀ item ∈ items, conformsWith follow (ref e) item = true := by
  unfold nonEmptyArrayOf
  rw [conformsWith_array (by simp)]
  refine exists_congr fun items => and_congr_right fun _ => ?_
  rw [List.forall_mem_cons, List.forall_mem_singleton, admits_items, admits_minItems, and_comm]
  refine and_congr_left fun _ => ?_
  rw [← List.length_pos_iff]
  exact Int.ofNat_lt

-- ============================================================= records

/-- What a record may hold: members that are declared, each conforming to
its schema. -/
def Holds (follow : String → Json → Bool) (properties members : List (String × Json)) : Prop :=
  ∀ m ∈ members, ∃ schema, (m.1, schema) ∈ properties ∧ conformsWith follow schema m.2 = true

/-- Declared properties and no others. The two keywords together say that
every member is declared and conforms to its schema. -/
theorem holds_iff {properties : List (String × Json)} (hnodup : (properties.map Prod.fst).Nodup)
    (hsiblings : member? "properties" siblings = some (object properties)) :
    (Admits follow siblings ("properties", object properties) (.obj members) ∧
      Admits follow siblings ("additionalProperties", .bool false) (.obj members)) ↔
      Holds follow properties members := by
  -- the properties are written in the order of their names, which changes none of them
  have hdeclares : ∀ key, declares siblings key = true ↔ key ∈ properties.map Prod.fst := by
    intro key
    unfold declares
    rw [hsiblings]
    show hasKey (Json.sortMembers properties) key = true ↔ _
    rw [hasKey_eq_true, List.mem_map, List.mem_map]
    exact exists_congr fun m => and_congr_left fun _ => Json.mem_sortMembers hnodup
  unfold object at hsiblings ⊢
  rw [admits_properties, admits_noOthers, ← forall₂_and]
  refine forall₂_congr fun m _ => ?_
  rw [hdeclares, Json.member?_sortMembers hnodup]
  constructor
  · rintro ⟨hconforms, hdeclared⟩
    obtain ⟨⟨key, schema⟩, hmem, hkey⟩ := List.mem_map.1 hdeclared
    have hschema : (m.1, schema) ∈ properties := hkey ▸ hmem
    exact ⟨schema, hschema, hconforms schema (Json.member?_of_mem hnodup hschema)⟩
  · rintro ⟨schema, hschema, hconforms⟩
    refine ⟨fun schema' hfound => ?_, List.mem_map.2 ⟨_, hschema, rfl⟩⟩
    rw [Json.member?_of_mem hnodup hschema] at hfound
    cases hfound
    exact hconforms

/-- A closed record has the members it must have, and holds no others than
it declares. -/
theorem conformsWith_closed {s : Shape} (hnodup : (s.properties.map Prod.fst).Nodup) :
    conformsWith follow s.closed v = true ↔
      ∃ members, v = .obj members ∧ (∀ name ∈ s.required, name ∈ members.map Prod.fst) ∧
        Holds follow s.properties members := by
  have hsiblings : member? "properties" [("type", Json.str "object"),
      ("properties", object s.properties), ("required", strings s.required),
      ("additionalProperties", .bool false)] = some (object s.properties) := by
    simp [member?]
  unfold Shape.closed
  rw [conformsWith_typed (by simp), hasType_object, List.forall_mem_cons, List.forall_mem_cons,
    List.forall_mem_singleton]
  constructor
  · rintro ⟨⟨members, rfl⟩, hproperties, hrequired, hothers⟩
    exact ⟨members, rfl, admits_required.1 hrequired,
      (holds_iff hnodup hsiblings).1 ⟨hproperties, hothers⟩⟩
  · rintro ⟨members, rfl, hrequired, hholds⟩
    obtain ⟨hproperties, hothers⟩ := (holds_iff hnodup hsiblings).2 hholds
    exact ⟨⟨members, rfl⟩, hproperties, admits_required.2 hrequired, hothers⟩

/-- A schema that asks an object for some keys and for nothing else. -/
theorem conformsWith_required {names : List String} :
    conformsWith follow (object [("required", strings names)]) (.obj members) = true ↔
      ∀ name ∈ names, name ∈ members.map Prod.fst :=
  conformsWith_single.trans admits_required

/-- A table and no derived table. -/
theorem conformsWith_plain :
    conformsWith follow (object [("required", strings ["table"]),
        ("not", object [("required", strings ["derived"])])]) (.obj members) = true ↔
      "table" ∈ members.map Prod.fst ∧ "derived" ∉ members.map Prod.fst := by
  rw [conformsWith_object (by simp), List.forall_mem_cons, List.forall_mem_singleton,
    admits_required, admits_not, conformsWith_required, List.forall_mem_singleton,
    List.forall_mem_singleton]

/-- A derived table, with no table and no alias beside it. -/
theorem conformsWith_derived :
    conformsWith follow (object [("required", strings ["derived"]),
        ("not", object [("anyOf", .arr [object [("required", strings ["table"])],
          object [("required", strings ["table_alias"])]])])]) (.obj members) = true ↔
      "derived" ∈ members.map Prod.fst ∧ "table" ∉ members.map Prod.fst ∧
        "table_alias" ∉ members.map Prod.fst := by
  rw [conformsWith_object (by simp), List.forall_mem_cons, List.forall_mem_singleton,
    admits_required, admits_not, conformsWith_single, admits_anyOf, List.forall_mem_singleton]
  simp only [List.mem_cons, List.not_mem_nil, or_false, exists_eq_or_imp, exists_eq_left,
    conformsWith_required, forall_eq, not_or]

/-- A source of rows has a table, or it has a derived table and no alias
beside it. -/
theorem conformsWith_fromClause :
    conformsWith follow fromClause v = true ↔
      ∃ members, v = .obj members ∧
        (("table" ∈ members.map Prod.fst ∧ "derived" ∉ members.map Prod.fst) ∨
          ("derived" ∈ members.map Prod.fst ∧ "table" ∉ members.map Prod.fst ∧
            "table_alias" ∉ members.map Prod.fst)) ∧
        Holds follow [("table", ref .table), ("table_alias", identifier),
          ("joins", arrayOf .join), ("derived", ref .derivedTable)] members := by
  unfold fromClause
  rw [conformsWith_typed (by simp), hasType_object, List.forall_mem_cons, List.forall_mem_cons,
    List.forall_mem_singleton, and_left_comm (a := Admits _ _ ("properties", _) _)]
  constructor
  · rintro ⟨⟨members, rfl⟩, hchoice, hmembers⟩
    refine ⟨members, rfl, ?_, (holds_iff (by simp) (by simp [member?])).1 hmembers⟩
    rw [admits_oneOf, List.countP_cons, List.countP_singleton] at hchoice
    simp only [conformsWith_plain, conformsWith_derived] at hchoice
    by_cases hplain : "table" ∈ members.map Prod.fst ∧ "derived" ∉ members.map Prod.fst
    · exact .inl hplain
    · rw [if_neg hplain, Nat.add_zero] at hchoice
      by_contra hnone
      rw [if_neg fun h => hnone (.inr h)] at hchoice
      cases hchoice
  · rintro ⟨members, rfl, hchoice, hholds⟩
    refine ⟨⟨members, rfl⟩, ?_, (holds_iff (by simp) (by simp [member?])).2 hholds⟩
    rw [admits_oneOf, List.countP_cons, List.countP_singleton]
    simp only [conformsWith_plain, conformsWith_derived]
    -- the two exclude each other
    rcases hchoice with hplain | hderived
    · rw [if_pos hplain, if_neg fun h => hplain.2 h.1]
    · rw [if_pos hderived, if_neg fun h => h.2 hderived.1]

-- ============================================================== choices

/-- A tagged record: the tag under its key, and the record beside it. The
schema closes the two together, and here they are told apart again. -/
theorem conformsWith_tagged {s : Shape} {key tag : String}
    (hnodup : (key :: s.properties.map Prod.fst).Nodup) :
    conformsWith follow (s.tagged key tag) v = true ↔
      ∃ members, v = .obj members ∧ key ∈ members.map Prod.fst ∧
        (∀ m ∈ members, m.1 = key → m.2 = .str tag) ∧
        (∀ name ∈ s.required, name ∈ members.map Prod.fst) ∧
        Holds follow s.properties (members.filter fun m => m.1 != key) := by
  have hkey := (List.nodup_cons.1 hnodup).1
  have hkeys : (((key, constant tag) :: s.properties).map Prod.fst).Nodup := hnodup
  unfold Shape.tagged
  rw [conformsWith_closed hkeys]
  refine exists_congr fun members => and_congr_right fun _ => ?_
  rw [List.forall_mem_cons, and_assoc]
  refine and_congr_right fun _ => ?_
  rw [and_left_comm]
  refine and_congr_right fun _ => ?_
  constructor
  · intro h
    constructor
    · intro m hm heq
      obtain ⟨schema, hschema, hconforms⟩ := h m hm
      rcases List.mem_cons.1 hschema with hfirst | hrest
      · rw [(Prod.mk.inj hfirst).2] at hconforms
        exact conformsWith_constant.1 hconforms
      -- no property of the shape has the key of the tag
      · exact absurd (List.mem_map.2 ⟨_, hrest, heq⟩) hkey
    · intro m hm
      obtain ⟨hm, hne⟩ := List.mem_filter.1 hm
      obtain ⟨schema, hschema, hconforms⟩ := h m hm
      rcases List.mem_cons.1 hschema with hfirst | hrest
      · exact absurd (Prod.mk.inj hfirst).1 (bne_iff_ne.1 hne)
      · exact ⟨schema, hrest, hconforms⟩
  · rintro ⟨htag, hrest⟩ m hm
    by_cases heq : m.1 = key
    · refine ⟨constant tag, List.mem_cons.2 (.inl (congrArg (·, constant tag) heq)), ?_⟩
      exact conformsWith_constant.2 (htag m hm heq)
    · obtain ⟨schema, hschema, hconforms⟩ := hrest m (List.mem_filter.2 ⟨hm, bne_iff_ne.2 heq⟩)
      exact ⟨schema, List.mem_cons_of_mem _ hschema, hconforms⟩

/-- Of records with different tags a value conforms to one at most. It has
one member under the key of the tag, or else it conforms to none. -/
theorem countP_tagged {key : String} {cases : List (String × Shape)}
    (htags : (cases.map Prod.fst).Nodup)
    (hnodup : ∀ c ∈ cases, (key :: c.2.properties.map Prod.fst).Nodup) :
    (cases.map fun c => c.2.tagged key c.1).countP (fun s => conformsWith follow s v) =
      if ∃ c ∈ cases, conformsWith follow (c.2.tagged key c.1) v = true then 1 else 0 := by
  induction cases with
  | nil => rfl
  | cons c cases ih =>
      rw [List.map_cons, List.nodup_cons] at htags
      rw [List.forall_mem_cons] at hnodup
      rw [List.map_cons, List.countP_cons, ih htags.2 hnodup.2]
      by_cases hc : conformsWith follow (c.2.tagged key c.1) v = true
      · -- one value cannot have two tags under the key
        have hnone : ¬ ∃ c' ∈ cases, conformsWith follow (c'.2.tagged key c'.1) v = true := by
          rintro ⟨c', hc', hconforms⟩
          obtain ⟨members, rfl, hmem, htag, -⟩ := (conformsWith_tagged hnodup.1).1 hc
          obtain ⟨members', heq, -, htag', -⟩ :=
            (conformsWith_tagged (hnodup.2 c' hc')).1 hconforms
          cases heq
          obtain ⟨m, hm, hkey⟩ := List.mem_map.1 hmem
          have hsame : c.1 = c'.1 := Json.str.inj ((htag m hm hkey).symm.trans (htag' m hm hkey))
          exact htags.1 (hsame ▸ List.mem_map_of_mem hc')
        rw [if_neg hnone, if_pos hc, if_pos ⟨c, List.mem_cons_self, hc⟩]
      · have hiff : (∃ c' ∈ c :: cases, conformsWith follow (c'.2.tagged key c'.1) v = true) ↔
            ∃ c' ∈ cases, conformsWith follow (c'.2.tagged key c'.1) v = true := by
          rw [List.exists_mem_cons_iff]
          exact or_iff_right hc
        rw [if_neg hc, Nat.add_zero, if_congr hiff rfl rfl]

/-- A choice between records with different tags takes what one of them
takes. -/
theorem conformsWith_choice {key : String} {cases : List (String × Shape)}
    (htags : (cases.map Prod.fst).Nodup)
    (hnodup : ∀ c ∈ cases, (key :: c.2.properties.map Prod.fst).Nodup) :
    conformsWith follow (oneOf (cases.map fun c => c.2.tagged key c.1)) v = true ↔
      ∃ c ∈ cases, conformsWith follow (c.2.tagged key c.1) v = true := by
  unfold oneOf
  rw [conformsWith_single, admits_oneOf, countP_tagged htags hnodup]
  split
  next h => exact iff_of_true rfl h
  next h => exact iff_of_false (by decide) h

end Schema

end TypedSelect
