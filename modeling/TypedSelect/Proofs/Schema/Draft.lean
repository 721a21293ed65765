/-
What a schema says of a value under draft 2020-12.

The vocabulary is that of types, constants, bounds, items, properties and
the three ways to combine schemas; other keywords say nothing. Numbers are
compared by value, and an integer is any number without a fractional part.
A reference is one more keyword: what stands beside it holds as well. This
is the reading of schemas under which a schema is compared with what is
left of it when its references are inlined.

# Depth

A schema is read to a depth. A keyword hands the schemas in its argument
to the verdicts of the depth below, so that what it means is one row of a
table; a value is valid when it is at every depth from some depth on. The
depth counts references too, so a schema that refers to itself is read as
far as the depth goes, and one that only refers to itself accepts nothing.

# Likeness

Two schemas are alike when they come to the same from some depth on, each
with its own definitions, and they are when their keywords are. The depths
of the two sides differ, since inlining takes references away, so
`Eventually` speaks of both at once: from some depth on, whatever the two
depths are. What holds eventually of each keyword holds eventually of all,
as there are finitely many.
-/
import TypedSelect.Proofs.Schema.References

namespace TypedSelect

namespace Schema

namespace Draft

open Json (member?)

-- ============================================================== values

/-- Whether both are numbers and of the same value. -/
def equalNumbers (a b : Json) : Bool :=
  match fraction? a, fraction? b with
  | some (m, c), some (n, d) => m * d == n * c
  | _, _ => false

mutual

/-- Whether two values are equal: numbers by value, objects whatever the
order of their members. -/
def equal : Json → Json → Bool
  | .null, .null => true
  | .bool a, .bool b => a == b
  | .str a, .str b => a == b
  | .arr as, .arr bs => equalItems as bs
  | .obj as, .obj bs => as.length == bs.length && equalMembers as bs
  | a, b => equalNumbers a b
termination_by structural a => a

/-- Whether two lists have equal items. -/
def equalItems : List Json → List Json → Bool
  | [], [] => true
  | a :: as, b :: bs => equal a b && equalItems as bs
  | _, _ => false
termination_by structural as => as

/-- Whether every member is among the others, with an equal value. -/
def equalMembers : List (String × Json) → List (String × Json) → Bool
  | [], _ => true
  | (key, a) :: as, bs =>
    (match member? key bs with
      | some b => equal a b
      | none => false) && equalMembers as bs
termination_by structural as => as

end

/-- Whether a value is of the named type. -/
def isOf (value : Json) : Json → Bool
  | .str "null" => match value with | .null => true | _ => false
  | .str "boolean" => match value with | .bool _ => true | _ => false
  | .str "string" => match value with | .str _ => true | _ => false
  | .str "array" => match value with | .arr _ => true | _ => false
  | .str "object" => match value with | .obj _ => true | _ => false
  | .str "number" => (fraction? value).isSome
  | .str "integer" => (fraction? value).any fun (m, d) => m % d == 0
  | _ => false

/-- The items of a list; nothing for other values. -/
def items : Json → List Json
  | .arr items => items
  | _ => []

/-- The members of an object; nothing for other values. -/
def members : Json → List (String × Json)
  | .obj members => members
  | _ => []

-- ============================================================ keywords

/-- Whether a keyword admits a value, with the verdicts of the schemas in
its argument. -/
def admits (definitions : Definitions) (verdict : Json → Json → Bool)
    (siblings : List (String × Json)) (keyword : String) (argument value : Json) : Bool :=
  match keyword with
  | "$ref" =>
    match argument with
    | .str reference =>
      ((DefinitionKey.ofPointer? reference).bind fun key => lookup key definitions).any
        (verdict · value)
    | _ => false
  | "type" =>
    match argument with
    | .arr types => types.any (isOf value)
    | type => isOf value type
  | "const" => equal argument value
  | "enum" => (items argument).any (equal · value)
  | "minimum" => atMost argument value
  | "maximum" => atMost value argument
  | "minItems" =>
    match value with
    | .arr items => atMost argument (.int items.length)
    | _ => true
  | "required" =>
    match value with
    | .obj members => (items argument).all fun
      | .str name => hasKey members name
      | _ => false
    | _ => true
  | "items" => (items value).all (verdict argument)
  | "additionalProperties" =>
    (members value).all fun m => declares siblings m.1 || verdict argument m.2
  | "properties" =>
    (members value).all fun m => (member? m.1 (members argument)).all (verdict · m.2)
  | "anyOf" => (items argument).any (verdict · value)
  | "allOf" => (items argument).all (verdict · value)
  | "oneOf" => (items argument).countP (verdict · value) == 1
  | _ => true

/-- What the argument of a keyword of the vocabulary is for. -/
def place : String → Option Role
  | "type" => some .data
  | "const" => some .data
  | "enum" => some .data
  | "minimum" => some .data
  | "maximum" => some .data
  | "minItems" => some .data
  | "required" => some .data
  | "items" => some .schema
  | "additionalProperties" => some .schema
  | "properties" => some .properties
  | "anyOf" => some .schemas
  | "allOf" => some .schemas
  | "oneOf" => some .schemas
  | _ => none

/-- Whether a value is valid against a schema that is read to this depth;
what lies deeper is taken to be invalid. -/
def valid (definitions : Definitions) : Nat → Json → Json → Bool
  | 0, _, _ => false
  | depth + 1, schema, value =>
    match schema with
    | .bool verdict => verdict
    | .obj keywords => keywords.all fun k =>
      admits definitions (valid definitions depth) keywords k.1 k.2 value
    | _ => false

/-- A value is valid against a schema with definitions when it is however
deep the schema is read, from some depth on. -/
def Validates (schema value : Json) : Prop :=
  ∃ depth, ∀ more, depth ≤ more → valid (definitionsOf schema) more schema value = true

/-- What is accepted at every depth from one on is valid. -/
theorem validates_of_add {schema value : Json} (depth : Nat)
    (h : ∀ n, valid (definitionsOf schema) (n + depth) schema value = true) :
    Validates schema value := by
  refine ⟨depth, fun more hmore => ?_⟩
  obtain ⟨n, rfl⟩ := Nat.exists_eq_add_of_le' hmore
  exact h n

/-- What is refused at every depth from one on is not. -/
theorem not_validates_of_add {schema value : Json} (depth : Nat)
    (h : ∀ n, valid (definitionsOf schema) (n + depth) schema value = false) :
    ¬ Validates schema value := by
  rintro ⟨first, hvalid⟩
  have htrue := hvalid (first + depth) (Nat.le_add_right _ _)
  rw [h] at htrue
  cases htrue

variable {definitions definitions' : Definitions} {verdict verdict' : Json → Json → Bool}
variable {siblings siblings' : List (String × Json)} {keyword : String} {value : Json}

/-- A value is valid against keywords if each of them admits it, with the
verdicts of the depth below. -/
theorem valid_obj {depth : Nat} {keywords : List (String × Json)} :
    valid definitions (depth + 1) (.obj keywords) value = keywords.all fun k =>
      admits definitions (valid definitions depth) keywords k.1 k.2 value := rfl

-- ============================================================ likeness

/-- Two arguments that a keyword takes alike, each with its own verdicts. -/
def Agree (verdict verdict' : Json → Json → Bool) : Option Role → Json → Json → Prop
  | some .schema, a, a' => ∀ x, verdict a x = verdict' a' x
  | some .schemas, a, a' => ∃ as as', a = .arr as ∧ a' = .arr as' ∧
      List.Forall₂ (fun s s' => ∀ x, verdict s x = verdict' s' x) as as'
  | some .properties, a, a' => ∃ ps ps', a = .obj ps ∧ a' = .obj ps' ∧
      List.Forall₂ (fun p p' => p'.1 = p.1 ∧ ∀ x, verdict p.2 x = verdict' p'.2 x) ps ps'
  | some .data, a, a' => a' = a
  | none, _, _ => True

/-- The same keyword with arguments that it takes alike. -/
def AgreeKeyword (verdict verdict' : Json → Json → Bool) (k k' : String × Json) : Prop :=
  k'.1 = k.1 ∧ Agree verdict verdict' (place k.1) k.2 k'.2

section

variable {as as' : List Json}

/-- Schemas with the same verdicts have one among them that admits the value,
or neither list does. -/
theorem any_congr (h : List.Forall₂ (fun s s' => ∀ x, verdict s x = verdict' s' x) as as') :
    as.any (verdict · value) = as'.any (verdict' · value) := by
  induction h with
  | nil => rfl
  | cons h _ ih => rw [List.any_cons, List.any_cons, h value, ih]

theorem all_congr (h : List.Forall₂ (fun s s' => ∀ x, verdict s x = verdict' s' x) as as') :
    as.all (verdict · value) = as'.all (verdict' · value) := by
  induction h with
  | nil => rfl
  | cons h _ ih => rw [List.all_cons, List.all_cons, h value, ih]

theorem countP_congr (h : List.Forall₂ (fun s s' => ∀ x, verdict s x = verdict' s' x) as as') :
    as.countP (verdict · value) = as'.countP (verdict' · value) := by
  induction h with
  | nil => rfl
  | cons h _ ih => rw [List.countP_cons, List.countP_cons, h value, ih]

/-- The schemas of a property have the same verdict. The two lists have the
same names in the same places, so a name is found in both or in neither. -/
theorem member?_congr {name : String} {ps ps' : List (String × Json)}
    (h : List.Forall₂ (fun p p' => p'.1 = p.1 ∧ ∀ x, verdict p.2 x = verdict' p'.2 x) ps ps') :
    (member? name ps).all (verdict · value) = (member? name ps').all (verdict' · value) := by
  induction h with
  | nil => rfl
  | @cons p p' _ _ h _ ih =>
      obtain ⟨key, s⟩ := p
      obtain ⟨key', s'⟩ := p'
      obtain ⟨rfl, h⟩ := h
      rw [member?, member?]
      split
      next => exact h value
      next => exact ih

end

/-- A keyword admits the same with arguments that it takes alike. The cases
are the rows of the table. -/
theorem admits_congr {a a' : Json} (h : Agree verdict verdict' (place keyword) a a')
    (hsiblings : declares siblings = declares siblings') (href : keyword ≠ referenceKey) :
    admits definitions verdict siblings keyword a value =
      admits definitions' verdict' siblings' keyword a' value := by
  unfold admits
  split
  next => exact absurd rfl href
  -- what is compared with the value is the same
  iterate 7
    next =>
      cases (h : a' = a)
      rfl
  next => exact congrArg _ (funext h)
  next =>
    refine congrArg _ (funext fun m => ?_)
    rw [hsiblings, h m.2]
  next =>
    obtain ⟨ps, ps', rfl, rfl, hps⟩ := h
    exact congrArg _ (funext fun m => member?_congr hps)
  next =>
    obtain ⟨as, as', rfl, rfl, has⟩ := h
    exact any_congr has
  next =>
    obtain ⟨as, as', rfl, rfl, has⟩ := h
    exact all_congr has
  next =>
    obtain ⟨as, as', rfl, rfl, has⟩ := h
    exact congrArg (· == 1) (countP_congr has)
  next => rfl

/-- The same properties are declared by keywords that are taken alike, since
those of the schema's properties keep their keys. -/
theorem declares_congr {ks ks' : List (String × Json)}
    (h : List.Forall₂ (AgreeKeyword verdict verdict') ks ks') : declares ks = declares ks' := by
  -- only the names of the properties count, and those are the same in both
  have hkeys : ∀ {ps ps' : List (String × Json)} {key : String},
      List.Forall₂ (fun p p' => p'.1 = p.1 ∧ ∀ x, verdict p.2 x = verdict' p'.2 x) ps ps' →
      hasKey ps key = hasKey ps' key := by
    intro ps ps' key hps
    induction hps with
    | nil => rfl
    | cons h _ ih =>
        unfold hasKey at ih ⊢
        rw [List.any_cons, List.any_cons, h.1, ih]
  funext key
  unfold declares
  induction h with
  | nil => rfl
  | @cons k k' _ _ h _ ih =>
      obtain ⟨keyword, a⟩ := k
      obtain ⟨keyword', a'⟩ := k'
      obtain ⟨rfl, h⟩ := h
      rw [member?, member?]
      by_cases hkeyword : keyword' = "properties"
      · subst hkeyword
        obtain ⟨ps, ps', rfl, rfl, hps⟩ := h
        exact hkeys hps
      · rw [if_neg hkeyword, if_neg hkeyword]
        exact ih

/-- Keywords that are taken alike, none of them a reference, admit the
same. -/
theorem all_admits_congr {ks ks' : List (String × Json)}
    (h : List.Forall₂ (AgreeKeyword verdict verdict') ks ks')
    (hsiblings : declares siblings = declares siblings')
    (href : ∀ k ∈ ks, k.1 ≠ referenceKey) :
    ks.all (fun k => admits definitions verdict siblings k.1 k.2 value) =
      ks'.all fun k => admits definitions' verdict' siblings' k.1 k.2 value := by
  induction h with
  | nil => rfl
  | cons h _ ih =>
      rw [List.forall_mem_cons] at href
      rw [List.all_cons, List.all_cons, ih href.2, h.1, admits_congr h.2 hsiblings href.1]

-- =============================================================== depth

/-- From some depth on, whatever the depths of the two sides. -/
def Eventually (P : Nat → Nat → Prop) : Prop :=
  ∃ depth, ∀ n n', depth ≤ n → depth ≤ n' → P n n'

section

variable {P Q : Nat → Nat → Prop} {α β : Type} {R : Nat → Nat → α → β → Prop}

theorem eventually_of_forall (h : ∀ n n', P n n') : Eventually P := ⟨0, fun n n' _ _ => h n n'⟩

/-- What follows from something that eventually holds does too. -/
theorem Eventually.mono (h : Eventually P) (himp : ∀ n n', P n n' → Q n n') : Eventually Q := by
  obtain ⟨depth, h⟩ := h
  exact ⟨depth, fun n n' hn hn' => himp n n' (h n n' hn hn')⟩

/-- Two things that eventually hold do so together, from the larger depth on.
-/
theorem Eventually.and (hP : Eventually P) (hQ : Eventually Q) :
    Eventually fun n n' => P n n' ∧ Q n n' := by
  obtain ⟨p, hP⟩ := hP
  obtain ⟨q, hQ⟩ := hQ
  exact ⟨max p q, fun n n' hn hn' =>
    ⟨hP n n' (by omega) (by omega), hQ n n' (by omega) (by omega)⟩⟩

/-- One depth further on. -/
theorem Eventually.succ (h : Eventually P) (hstep : ∀ n n', P n n' → Q (n + 1) (n' + 1)) :
    Eventually Q := by
  obtain ⟨depth, h⟩ := h
  refine ⟨depth + 1, fun n n' hn hn' => ?_⟩
  obtain ⟨n, rfl⟩ := Nat.exists_eq_add_of_le' hn
  obtain ⟨n', rfl⟩ := Nat.exists_eq_add_of_le' hn'
  exact hstep _ _ (h _ _ (Nat.le_add_left _ _) (Nat.le_add_left _ _))

/-- What holds of each pair from some depth on holds of all from one depth
on. -/
theorem eventually_forall₂ {as : List α} {bs : List β}
    (h : List.Forall₂ (fun a b => Eventually fun n n' => R n n' a b) as bs) :
    Eventually fun n n' => List.Forall₂ (R n n') as bs := by
  induction h with
  | nil => exact eventually_of_forall fun _ _ => .nil
  | cons h _ ih => exact (h.and ih).mono fun _ _ ⟨h, hs⟩ => .cons h hs

end

/-- Two schemas, each with its own definitions, that come to the same from
some depth on. -/
def Alike (definitions definitions' : Definitions) (s s' : Json) : Prop :=
  Eventually fun n n' => ∀ x, valid definitions n s x = valid definitions' n' s' x

/-- The same keyword with arguments that it takes alike from some depth
on. -/
def AlikeKeyword (definitions definitions' : Definitions) (k k' : String × Json) : Prop :=
  Eventually fun n n' => AgreeKeyword (valid definitions n) (valid definitions' n') k k'

/-- Keywords that are alike, none of them a reference, make alike
schemas. -/
theorem alike_obj {ks ks' : List (String × Json)}
    (h : List.Forall₂ (AlikeKeyword definitions definitions') ks ks')
    (href : ∀ k ∈ ks, k.1 ≠ referenceKey) :
    Alike definitions definitions' (.obj ks) (.obj ks') :=
  (eventually_forall₂ h).succ fun n n' h x => by
    rw [valid_obj, valid_obj]
    exact all_admits_congr h (declares_congr h) href

/-- What is no object is read as it is. -/
theorem alike_self {s : Json} (h : ∀ keywords, s ≠ .obj keywords) :
    Alike definitions definitions' s s :=
  (eventually_of_forall fun _ _ => trivial).succ fun n n' _ x => by
    cases s with
    | obj keywords => exact absurd rfl (h keywords)
    | _ => rfl

/-- A list is no schema. -/
theorem alike_arr {as as' : List Json} : Alike definitions definitions' (.arr as) (.arr as') :=
  (eventually_of_forall fun _ _ => trivial).succ fun _ _ _ _ => rfl

/-- However two schemas are alike, they accept the same. -/
theorem Alike.validates {s s' : Json}
    (h : Alike (definitionsOf s) (definitionsOf s') s s') :
    Validates s value ↔ Validates s' value := by
  obtain ⟨depth, h⟩ := h
  constructor
  · rintro ⟨d, hd⟩
    refine ⟨max d depth, fun more hmore => ?_⟩
    rw [← h more more (by omega) (by omega), hd more (by omega)]
  · rintro ⟨d, hd⟩
    refine ⟨max d depth, fun more hmore => ?_⟩
    rw [h more more (by omega) (by omega), hd more (by omega)]

end Draft

end Schema

end TypedSelect
