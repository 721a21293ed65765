/-
The schema of queries describes their codecs.

Two things are said at once for each entity: what a valid one is written as
conforms to the schema, and what conforms to the schema is read. Both are
put together like the codecs, member by member.

# Descriptions

A codec is described by a schema, with respect to the values that are
valid, if the two halves hold. The second half has a condition on the JSON
that no schema states: that no object has a key twice. And it has one of
its own for windows, whose offset has 32 bits where the schema only asks
for a number that is not negative. It is threaded through as `R`, a
condition on the members of the record at hand, and used for the offset
only (`described_offset`).

# What is left to say

The members are described in the order of the codec, and the shape that
comes out must be the schema of the entity, up to computation. Then it
remains to take the rule of validity apart and hand each member its part:
that a list has an element, that a name is an identifier, that a fraction
lies between zero and one. Rules that relate members to each other have no
counterpart in the schema and are dropped.

In two places schema and codec differ in form. A filter with subqueries has
its members in another order, which does not matter to a schema
(`reorder`). And the schema of a source spells out that a table and a
derived table exclude each other, which the codec does not ask.

# Names

The schema bounds the length of a name in characters and the rule of
validity its size in bytes. A name has no more characters than bytes
(`length_le_utf8ByteSize`), so a valid one conforms; that a long one with
letters outside of ASCII conforms without being valid is one of the things
that are allowed here.
-/
import TypedSelect.Proofs.Query.Codec
import TypedSelect.Proofs.Schema.Describes
import TypedSelect.Proofs.Validity

namespace TypedSelect

open Codec Members Variants
open Json (Readable)
open Schema (conformsWith identifier ref)
open Validation (Writable)

variable {follow : String → Json → Bool} {R : (String → Option Json) → Prop}

-- ========================================================== references

/-- References to entities are followed to their definitions. -/
def Schema.Resolves (follow : String → Json → Bool) : Prop :=
  ∀ e v, follow (Schema.pointerTo e) v = conformsWith follow (Schema.ofEntity e) v

theorem Schema.conformsWith_ref (hfollow : Schema.Resolves follow) {e : Entity} {v : Json} :
    conformsWith follow (ref e) v = conformsWith follow (Schema.ofEntity e) v := by
  rw [← hfollow, Bool.eq_iff_iff]
  exact Schema.conformsWith_single.trans Schema.admits_reference

/-- A reference describes what its entity describes. -/
theorem Codec.Described.ref {α : Type} {c : Codec α} {valid : α → Prop} {e : Entity}
    (hfollow : Schema.Resolves follow) (h : c.Described follow valid (Schema.ofEntity e)) :
    c.Described follow valid (Schema.ref e) where
  writes a ha := (Schema.conformsWith_ref hfollow).trans (h.writes a ha)
  reads place j hreadable hconforms :=
    h.reads place j hreadable ((Schema.conformsWith_ref hfollow).symm.trans hconforms)

-- ============================================================= scalars

theorem described_symbol {α : Type} [Vocabulary α] [LawfulVocabulary α] :
    (symbol : Codec α).Described follow (fun _ => True) (Schema.symbols α) where
  writes a _ := by
    have hfound := LawfulVocabulary.symbolNamed?_name a
    exact Schema.conformsWith_symbols.2 ⟨a, List.mem_of_find?_eq_some hfound, rfl⟩
  reads place j _ hconforms := by
    obtain ⟨a, -, rfl⟩ := Schema.conformsWith_symbols.1 hconforms
    exact ⟨a, LawfulVocabulary.symbolNamed?_name a⟩

/-- Every character takes a byte at least. The schema counts characters and
the validator bytes, so what the validator admits the schema does too. -/
theorem length_le_utf8ByteSize (s : String) : s.length ≤ s.utf8ByteSize := by
  have hlist : ∀ l : List Char, l.length ≤ (String.ofList l).utf8ByteSize := by
    intro l
    induction l with
    | nil => exact Nat.zero_le _
    | cons c l ih =>
        have happend : String.ofList (c :: l) = String.singleton c ++ String.ofList l := by
          rw [String.singleton_eq_ofList, ← String.ofList_append]
          rfl
        have hpos := c.utf8Size_pos
        rw [happend, String.utf8ByteSize_append, String.utf8ByteSize_singleton, List.length_cons]
        omega
  have hs := hlist s.toList
  rwa [String.ofList_toList, String.length_toList] at hs

/-- A text that must be a name. The pattern of the schema is the shape of an
identifier, and the reserved words are not excluded by it. -/
theorem described_name :
    text.Described follow (fun s => isIdentifier s = true) identifier where
  writes s hs := by
    unfold isIdentifier at hs
    rw [Bool.and_eq_true, Bool.and_eq_true, decide_eq_true_eq] at hs
    exact Schema.conformsWith_identifier.2
      ⟨s, rfl, hs.1.1, (length_le_utf8ByteSize s).trans hs.1.2⟩
  reads place j _ hconforms := by
    obtain ⟨s, rfl, -⟩ := Schema.conformsWith_identifier.1 hconforms
    exact ⟨s, rfl⟩

/-- A whole number of 64 bits, between the bounds that the schema states. -/
theorem described_word64 : word64.Described follow (fun _ => True) Schema.count where
  writes n _ := Schema.conformsWith_count.2
    ⟨n.toNat, rfl, Int.natCast_nonneg _, Int.ofNat_lt.2 n.toNat_lt⟩
  reads place j _ hconforms := by
    obtain ⟨i, rfl, hle, hlt⟩ := Schema.conformsWith_count.1 hconforms
    obtain ⟨n, rfl⟩ := Int.eq_ofNat_of_zero_le hle
    refine ⟨UInt64.ofNat n, ?_⟩
    unfold word64
    dsimp only
    rw [natBelow_ofNat (Int.ofNat_lt.1 hlt), Option.map_some]

/-- The offset of a window is read if it fits 32 bits. The schema does not
ask for that, so it is asked for apart. -/
theorem described_offset
    (hroom : ∀ get i, R get → get "offset" = some (.int i) → i < UInt32.size) :
    (optional "offset" word32).Described follow R (fun _ => True)
      ⟨[("offset", Schema.count)], []⟩ := by
  refine described_one rfl ?_ ?_ ?_
  · intro o _ p hp
    cases o with
    | none => cases hp
    | some n =>
        have hlt := n.toNat_lt
        rw [List.mem_singleton.1 hp]
        refine ⟨rfl, Schema.conformsWith_count.2 ⟨n.toNat, rfl, Int.natCast_nonneg _, ?_⟩⟩
        exact Int.ofNat_lt.2 (hlt.trans (by decide))
  · intro o n hn
    cases hn
  · intro place slot get hfits hslot _ hconforms
    refine reads_optional fun j hj => ?_
    obtain ⟨-, hschema⟩ := hconforms j hj
    obtain ⟨i, rfl, hle, -⟩ := Schema.conformsWith_count.1 hschema
    -- the schema has no upper bound, so this is where the room is needed
    have hlt := hroom get i hfits (hslot.trans hj)
    obtain ⟨n, rfl⟩ := Int.eq_ofNat_of_zero_le hle
    refine ⟨UInt32.ofNat n, ?_⟩
    unfold word32
    dsimp only
    rw [natBelow_ofNat (Int.ofNat_lt.1 hlt), Option.map_some]

/-- The schema of a fraction asks for what the check asks for. The bounds are
compared exactly, as quotients of whole numbers. -/
theorem conformsWith_fraction {x : Double} (h : x.inUnitInterval = true) :
    Schema.atMost (.int 0) (.float x) = true ∧ Schema.atMost (.float x) (.int 1) = true := by
  cases x with
  | infinite negative => cases h
  | nan => cases h
  | finite negative x =>
      obtain ⟨num, den, hx⟩ : ∃ num den, x.fraction = (num, den) := ⟨_, _, rfl⟩
      have hunit : x.mantissa = 0 ∨ negative = false ∧ num ≤ den := by
        unfold Double.inUnitInterval at h
        simp only [hx] at h
        simpa using h
      -- a zero may have a sign, and its fraction is zero all the same
      have hzero : x.mantissa = 0 → num = 0 := by
        intro hm
        have hnum : num = x.mantissa * Nat.pow 2 x.exponent.toNat := (congrArg Prod.fst hx).symm
        rw [hnum, hm, Nat.zero_mul]
      have hfraction : Schema.fraction? (.float (.finite negative x)) =
          some (if negative = true then -(num : Int) else num, den) := by
        unfold Schema.fraction?
        simp only [hx]
      unfold Schema.atMost
      rw [hfraction]
      show decide _ = true ∧ decide _ = true
      rw [decide_eq_true_eq, decide_eq_true_eq]
      rcases hunit with hm | ⟨rfl, hle⟩
      · rw [hzero hm]
        split <;> omega
      · rw [if_neg Bool.false_ne_true]
        omega

/-- A fraction, between the bounds that the schema states. What conforms is a
number, and any number is read. -/
theorem described_fraction :
    double.Described follow (fun x => x.inUnitInterval = true)
      (Schema.typed "number" [("minimum", .int 0), ("maximum", .int 1)]) where
  writes x hx := by
    rw [Schema.conformsWith_typed (by simp), List.forall_mem_cons, List.forall_mem_singleton,
      Schema.admits_minimum, Schema.admits_maximum]
    exact ⟨Schema.hasType_number.2 (.inr ⟨x, rfl, Double.isFinite_of_inUnitInterval hx⟩),
      conformsWith_fraction hx⟩
  reads place j _ hconforms := by
    rw [Schema.conformsWith_typed (by simp)] at hconforms
    rcases Schema.hasType_number.1 hconforms.1 with ⟨i, rfl⟩ | ⟨x, rfl, -⟩
    · exact ⟨.ofInt i, rfl⟩
    · exact ⟨x, rfl⟩

/-- A number of either kind. One that is not finite has no JSON and is not
valid. -/
theorem Number.described_codec :
    Number.codec.Described follow (fun n => n.isFinite = true) (Schema.ofEntity .number) where
  writes n hn := by
    refine Schema.conformsWith_number.2 ?_
    cases n with
    | int i => exact .inl ⟨i.toInt, rfl⟩
    | float x => exact .inr ⟨x, rfl, hn⟩
  reads place j _ hconforms := by
    rcases Schema.conformsWith_number.1 hconforms with ⟨i, rfl⟩ | ⟨x, rfl, -⟩
    · exact ⟨_, decodeAt_int place i⟩
    · exact ⟨.float x, rfl⟩

theorem Schema.conformsWith_literal {v : Json} :
    conformsWith follow (Schema.ofEntity .literal) v = true ↔
      (∃ b, v = .bool b) ∨ ((∃ i, v = .int i) ∨ ∃ x, v = .float x ∧ x.isFinite = true) ∨
        ∃ s, v = .str s := by
  refine Schema.conformsWith_single.trans (Schema.admits_types.trans ?_)
  rw [← hasType_boolean, ← hasType_number, ← hasType_string]
  simp

/-- A constant of any kind. A number among them is read as a number first, so
a whole number that fits 64 bits is kept as such. -/
theorem Literal.described_codec :
    Literal.codec.Described follow Writable (Schema.ofEntity .literal) where
  writes v hv := by
    refine Schema.conformsWith_literal.2 ?_
    cases v with
    | bool b => exact .inl ⟨b, rfl⟩
    | int i => exact .inr (.inl (.inl ⟨i.toInt, rfl⟩))
    | float x => exact .inr (.inl (.inr ⟨x, rfl, hv⟩))
    | string s => exact .inr (.inr ⟨s, rfl⟩)
  reads place j hreadable hconforms := by
    rcases Schema.conformsWith_literal.1 hconforms with ⟨b, rfl⟩ | hnumber | ⟨s, rfl⟩
    · exact ⟨.bool b, rfl⟩
    · have hschema : conformsWith follow (Schema.ofEntity .number) j = true :=
        Schema.conformsWith_number.2 hnumber
      obtain ⟨n, hn⟩ := Number.described_codec.reads place j hreadable hschema
      refine ⟨.ofNumber n, ?_⟩
      rcases hnumber with ⟨i, rfl⟩ | ⟨x, rfl, -⟩ <;> exact congrArg (Option.map ofNumber) hn
    · exact ⟨.string s, rfl⟩

/-- A right side that can be written: one constant, or some. -/
def Comparand.Writable : Comparand → Prop
  | list values => values ≠ [] ∧ ∀ v ∈ values, Validation.Writable v
  | scalar v => Validation.Writable v

/-- The right side of a valid comparison is none or can be written. -/
theorem Comparison.writable_of_validate {p : Comparison} (h : p.validate = .ok ()) :
    ∀ c ∈ p.value, c.Writable := by
  rcases Comparison.validateValue_eq_ok.1 (Comparison.validate_eq_ok.1 h).2 with
    ⟨-, hvalue⟩ | ⟨-, -, values, hvalue, hne, hvalues⟩ | ⟨-, -, v, hvalue, -, hv⟩
  all_goals intro c hc; rw [hvalue] at hc; cases hc
  · exact ⟨hne, hvalues⟩
  · exact hv

section

variable (hfollow : Schema.Resolves follow)

include hfollow

/-- A right side conforms as a constant or as a list that has one. Which of
the two it is read as depends on its being an array. -/
theorem Comparand.described_codec :
    Comparand.codec.Described follow Comparand.Writable (Schema.ofEntity .comparand) := by
  have hscalar : Literal.codec.Described follow Validation.Writable (ref .literal) :=
    Literal.described_codec.ref hfollow
  have hlist := hscalar.nonEmptyList
  have hschema : ∀ v, conformsWith follow (Schema.ofEntity .comparand) v = true ↔
      conformsWith follow (ref .literal) v = true ∨
        conformsWith follow (Schema.nonEmptyArrayOf .literal) v = true := by
    intro v
    refine Schema.conformsWith_single.trans (Schema.admits_anyOf.trans ?_)
    simp only [List.mem_cons, List.not_mem_nil, or_false, exists_eq_or_imp, exists_eq_left]
  constructor
  · intro c hc
    rw [hschema]
    cases c with
    | list values => exact .inr (hlist.writes values hc)
    | scalar v => exact .inl (hscalar.writes v hc)
  · intro place j hreadable hconforms
    rcases (hschema j).1 hconforms with hconforms | hconforms
    · obtain ⟨v, hv⟩ := hscalar.reads place j hreadable hconforms
      -- a list is read as no constant, so what was read is none
      cases j with
      | arr items => cases hv
      | _ => exact ⟨.scalar v, congrArg (Option.map Comparand.scalar) hv⟩
    · obtain ⟨values, hvalues⟩ := hlist.reads place j hreadable hconforms
      cases j with
      | arr items => exact ⟨.list values, congrArg (Option.map Comparand.list) hvalues⟩
      | _ => cases hvalues

-- ================================================= columns and sorting

/-- The qualifier of a valid column is a name. -/
theorem QualifiedColumn.described_members :
    QualifiedColumn.members.Described follow R (fun c => c.validate = .ok ())
      Schema.qualifiedColumn := by
  refine (
    (described_optional described_name "table_alias").and <|
    described_required (described_symbol.ref hfollow) "column").iso ?_
  intro _ hc
  exact ⟨QualifiedColumn.validate_eq_ok.1 hc, trivial⟩

/-- A column reference, behind its reference in the schema. -/
theorem QualifiedColumn.described_codec :
    QualifiedColumn.codec.Described follow (fun c => c.validate = .ok ())
      (ref .qualifiedColumn) :=
  ((QualifiedColumn.described_members hfollow).record (by decide)).ref hfollow

/-- An operand of either kind. The schema is a choice by the tag, and exactly
one of its two cases can hold. -/
theorem Operand.described_codec {e : Entity} {field : String} :
    Operand.codec.Described follow (fun o => o.validate e field = .ok ()) (ref .operand) := by
  refine Codec.Described.ref hfollow ?_
  have hnumber := Number.described_codec.ref hfollow
  refine ((
    (described_one (QualifiedColumn.described_members hfollow) (by decide)).or <|
    described_one (described_required hnumber "value") (by decide)).iso ?_).choice
      (by decide) (by decide) (by decide)
  intro o ho
  obtain ⟨hcolumn, hnumber⟩ := Operand.validate_eq_ok.1 ho
  cases o with
  | column c => exact hcolumn c rfl
  | number n => exact hnumber n rfl

theorem SortKey.described_codec :
    SortKey.codec.Described follow
      (fun k => (∀ c, k = .column c → c.validate = .ok ()) ∧
        ∀ name, k = .output name → isIdentifier name = true) (ref .sortKey) := by
  refine Codec.Described.ref hfollow ?_
  refine ((
    (described_one (QualifiedColumn.described_members hfollow) (by decide)).or <|
    described_one (described_required described_name "name") (by decide)).iso ?_).choice
      (by decide) (by decide) (by decide)
  rintro k ⟨hcolumn, houtput⟩
  cases k with
  | column c => exact hcolumn c rfl
  | output name => exact houtput name rfl

theorem OrderItem.described_codec :
    OrderItem.codec.Described follow (fun i => i.validate = .ok ()) (ref .orderItem) := by
  refine Codec.Described.ref hfollow ?_
  refine ((
    (described_required (SortKey.described_codec hfollow) "column").and <|
    (described_defaulted (described_symbol.ref hfollow) "direction" Direction.desc).and <|
    described_optional (described_symbol.ref hfollow) "nulls").iso ?_).record (by decide)
  intro _ hi
  exact ⟨OrderItem.validate_eq_ok.1 hi, trivial, fun _ _ => trivial⟩

-- ========================================================= arithmetic

/-- The members of an operation. That it divides by no zero is not in the
schema. -/
theorem Arithmetic.described_members {e : Entity} :
    Arithmetic.members.Described follow R (fun a => a.validate e = .ok ())
      Schema.arithmetic := by
  have hleft := @Operand.described_codec follow hfollow e "left"
  have hright := @Operand.described_codec follow hfollow e "right"
  refine (
    (described_required hleft "left").and <|
    (described_required (described_symbol.ref hfollow) "op").and <|
    described_required hright "right").iso ?_
  intro _ ha
  obtain ⟨hleft, hright, -⟩ := Arithmetic.validate_eq_ok.1 ha
  exact ⟨hleft, trivial, hright⟩

theorem BinaryArithmetic.described_members :
    BinaryArithmetic.members.Described follow R (fun b => b.validate = .ok ())
      Schema.binaryArithmetic := by
  refine (
    (Arithmetic.described_members hfollow (e := .binaryArithmetic)).and <|
    described_required described_name "alias").iso ?_
  intro _ hb
  exact BinaryArithmetic.validate_eq_ok.1 hb

theorem CompoundArithmetic.described_members :
    CompoundArithmetic.members.Described follow R (fun c => c.validate = .ok ())
      Schema.compoundArithmetic := by
  have hleft := @Operand.described_codec follow hfollow .compoundArithmetic "inner_left"
  have hright := @Operand.described_codec follow hfollow .compoundArithmetic "inner_right"
  have houter := @Operand.described_codec follow hfollow .compoundArithmetic "outer"
  refine (
    (described_required hleft "inner_left").and <|
    (described_required (described_symbol.ref hfollow) "inner_op").and <|
    (described_required hright "inner_right").and <|
    (described_required (described_symbol.ref hfollow) "outer_op").and <|
    (described_required houter "outer").and <|
    described_required described_name "alias").iso ?_
  intro _ hc
  obtain ⟨hleft, hright, houter, -, -, halias⟩ := CompoundArithmetic.validate_eq_ok.1 hc
  exact ⟨hleft, trivial, hright, trivial, houter, halias⟩

-- ========================================================= predicates

/-- A comparison. That the right side goes with the operator is not in the
schema. -/
theorem Comparison.described_members :
    Comparison.members.Described follow R (fun p => p.validate = .ok ())
      Schema.comparison := by
  refine (
    (described_required (QualifiedColumn.described_codec hfollow) "column").and <|
    (described_required (described_symbol.ref hfollow) "operator").and <|
    described_optional ((Comparand.described_codec hfollow).ref hfollow) "value").iso ?_
  intro _ hp
  obtain ⟨hcolumn, -⟩ := Comparison.validate_eq_ok.1 hp
  exact ⟨hcolumn, trivial, Comparison.writable_of_validate hp⟩

/-- A comparison of columns, under any operator as far as the schema goes. -/
theorem ColumnComparison.described_members :
    ColumnComparison.members.Described follow R (fun p => p.validate = .ok ())
      Schema.columnComparison := by
  refine (
    (described_required (QualifiedColumn.described_codec hfollow) "left").and <|
    (described_required (described_symbol.ref hfollow) "operator").and <|
    described_required (QualifiedColumn.described_codec hfollow) "right").iso ?_
  intro _ hp
  obtain ⟨hleft, hright, -⟩ := ColumnComparison.validate_eq_ok.1 hp
  exact ⟨hleft, trivial, hright⟩

/-- A range with two constants that can be written. -/
theorem Between.described_members :
    Between.members.Described follow R (fun p => p.validate = .ok ()) Schema.between := by
  refine (
    (described_required (QualifiedColumn.described_codec hfollow) "column").and <|
    (described_required (Literal.described_codec.ref hfollow) "low").and <|
    described_required (Literal.described_codec.ref hfollow) "high").iso ?_
  intro _ hp
  exact Between.validate_eq_ok.1 hp

theorem Between.described_codec :
    Between.codec.Described follow (fun p => p.validate = .ok ()) (ref .between) :=
  ((Between.described_members hfollow).record (by decide)).ref hfollow

theorem Condition.described_codec :
    Condition.codec.Described follow (fun c => c.validate = .ok ()) (ref .condition) := by
  refine Codec.Described.ref hfollow ?_
  refine ((
    (described_one (Comparison.described_members hfollow) (by decide)).or <|
    (described_one (ColumnComparison.described_members hfollow) (by decide)).or <|
    described_one (Between.described_members hfollow) (by decide)).iso ?_).choice
      (by decide) (by decide) (by decide)
  intro c hc
  cases c <;> exact hc

/-- A group has a test, and the schema says so. -/
theorem ConditionGroup.described_codec :
    ConditionGroup.codec.Described follow (fun g => g.validate = .ok ()) (ref .conditionGroup) := by
  refine Codec.Described.ref hfollow ?_
  refine ((
    (described_required (Condition.described_codec hfollow).nonEmptyList "conditions").and <|
    described_defaulted (described_symbol.ref hfollow) "logic" Logic.and).iso ?_).record
      (by decide)
  intro _ hg
  exact ⟨ConditionGroup.validate_eq_ok.1 hg, trivial⟩

-- ======================================================== select list

/-- A column as an item, with two names that it may have. -/
theorem ColumnExpr.described_members :
    ColumnExpr.members.Described follow R (fun e => e.validate = .ok ())
      Schema.columnExpr := by
  refine (
    (described_optional described_name "table_alias").and <|
    (described_required (described_symbol.ref hfollow) "column").and <|
    described_optional described_name "alias").iso ?_
  intro _ he
  obtain ⟨hqualifier, halias⟩ := ColumnExpr.validate_eq_ok.1 he
  exact ⟨hqualifier, trivial, halias⟩

theorem AggregateInput.described_codec :
    AggregateInput.codec.Described follow (fun i => i.validate = .ok ())
      (ref .aggregateInput) := by
  refine Codec.Described.ref hfollow ?_
  have harithmetic := Arithmetic.described_members hfollow
    (R := fun _ => True) (e := .arithmetic)
  refine ((
    (described_one (QualifiedColumn.described_members hfollow) (by decide)).or <|
    described_one harithmetic (by decide)).iso ?_).choice (by decide) (by decide) (by decide)
  intro i hi
  cases i <;> exact hi

/-- An aggregate. Which arguments its function takes is not in the schema, so
what conforms is read and not always valid. -/
theorem AggregateExpr.described_members :
    AggregateExpr.members.Described follow R (fun e => e.validate = .ok ())
      Schema.aggregateExpr := by
  refine (
    (described_required (described_symbol.ref hfollow) "function").and <|
    (described_optional (AggregateInput.described_codec hfollow) "input").and <|
    (described_marked "distinct").and <|
    (described_optional described_fraction "percentile").and <|
    described_required described_name "alias").iso ?_
  intro _ he
  obtain ⟨halias, hargument, -, hpercentile⟩ := AggregateExpr.validate_eq_ok.1 he
  obtain ⟨hinput, -⟩ := AggregateExpr.validateInput_eq_ok.1 hargument
  obtain ⟨-, hunit⟩ := AggregateExpr.validatePercentile_eq_ok.1 hpercentile
  exact ⟨trivial, hinput, trivial, hunit, halias⟩

theorem WindowExpr.described_members
    (hroom : ∀ get i, R get → get "offset" = some (.int i) → i < UInt32.size) :
    WindowExpr.members.Described follow R (fun e => e.validate = .ok ())
      Schema.windowExpr := by
  refine (
    (described_required (described_symbol.ref hfollow) "function").and <|
    (described_optional (QualifiedColumn.described_codec hfollow) "column").and <|
    (described_listed (QualifiedColumn.described_codec hfollow) "partition_by").and <|
    (described_listed (OrderItem.described_codec hfollow) "order_by").and <|
    (described_offset hroom).and <|
    (described_optional (Literal.described_codec.ref hfollow) "default").and <|
    described_required described_name "alias").iso ?_
  intro e he
  obtain ⟨halias, hargument, hoffset, hpartition, horder⟩ := WindowExpr.validate_eq_ok.1 he
  have hcolumn : ∀ c ∈ e.column, c.validate = .ok () := fun c hc =>
    ((WindowExpr.validateArgument_eq_ok.1 hargument).1 c hc).2
  have hdefault := (WindowExpr.validateOffset_eq_ok.1 hoffset).2.2
  -- a window sorts by columns only, and such a sort is valid in any place
  have hitems : ∀ i ∈ e.orderBy, i.validate = .ok () := by
    intro i hi
    obtain ⟨c, hkey, hc⟩ := WindowExpr.validateOrder_eq_ok.1 (horder i hi)
    rw [OrderItem.validate_eq_ok, hkey]
    exact ⟨fun c' hc' => by cases hc'; exact hc, nofun⟩
  exact ⟨trivial, hcolumn, hpartition, hitems, trivial, hdefault, halias⟩

theorem CaseResult.described_codec :
    CaseResult.codec.Described follow (fun r => r.validate = .ok ()) (ref .caseResult) := by
  refine Codec.Described.ref hfollow ?_
  have hliteral := Literal.described_codec.ref hfollow
  refine ((
    (described_one (QualifiedColumn.described_members hfollow) (by decide)).or <|
    described_one (described_required hliteral "value") (by decide)).iso ?_).choice
      (by decide) (by decide) (by decide)
  intro r hr
  obtain ⟨hcolumn, hliteral⟩ := CaseResult.validate_eq_ok.1 hr
  cases r with
  | column c => exact hcolumn c rfl
  | literal v => exact hliteral v rfl

/-- A branch, whose test is the entity of comparisons. -/
theorem CaseBranch.described_codec :
    CaseBranch.codec.Described follow (fun b => b.validate = .ok ()) (ref .caseBranch) := by
  refine Codec.Described.ref hfollow ?_
  have hcondition := ((Comparison.described_members hfollow).record (by decide)).ref hfollow
    (e := .comparison)
  refine ((
    (described_required hcondition "condition").and <|
    described_required (CaseResult.described_codec hfollow) "result").iso ?_).record (by decide)
  intro _ hb
  exact CaseBranch.validate_eq_ok.1 hb

/-- A CASE has a branch, and the schema says so. -/
theorem CaseExpr.described_members :
    CaseExpr.members.Described follow R (fun e => e.validate = .ok ()) Schema.caseExpr := by
  refine (
    (described_required (CaseBranch.described_codec hfollow).nonEmptyList "branches").and <|
    (described_optional (CaseResult.described_codec hfollow) "else_result").and <|
    described_required described_name "alias").iso ?_
  intro _ he
  obtain ⟨hne, hbranches, hotherwise, halias⟩ := CaseExpr.validate_eq_ok.1 he
  exact ⟨⟨hne, hbranches⟩, hotherwise, halias⟩

/-- Only a window asks for more than its schema, an offset of 32 bits. It is
asked for at any depth, since items stand in derived tables too. -/
theorem SelectExpr.described_codec :
    SelectExpr.codec.Described follow (fun e => e.validate = .ok ()) (ref .selectExpr) := by
  refine Codec.Described.ref hfollow ?_
  have hwindow := WindowExpr.described_members hfollow
    (R := fun get => "window" = "window" →
      ∀ i, get "offset" = some (.int i) → i < UInt32.size) fun _ i h => h rfl i
  refine ((
    (described_one (ColumnExpr.described_members hfollow) (by decide)).or <|
    (described_one (BinaryArithmetic.described_members hfollow) (by decide)).or <|
    (described_one (CompoundArithmetic.described_members hfollow) (by decide)).or <|
    (described_one (AggregateExpr.described_members hfollow) (by decide)).or <|
    (described_one (R := fun tag get => tag = "window" →
      ∀ i, get "offset" = some (.int i) → i < UInt32.size) hwindow (by decide)).or <|
    described_one (CaseExpr.described_members hfollow) (by decide)).iso ?_).tagged
      (by decide) (by decide) (by decide) ?_
  · intro e he
    cases e <;> exact he
  · rintro tag members hreadable hmember rfl i hi
    -- the offset of the window is that of the object, whose tag is another member
    have hoffset : Json.member? "offset" members = some (.int i) :=
      (Json.member?_filter (p := (· != "type")) (by decide)).symm.trans hi
    exact hreadable.offsets members i .self hmember hoffset

-- ============================================================ filters

/-- A filter. That it tests something is not in the schema. -/
theorem Filter.described_codec :
    Filter.codec.Described follow (fun w => w.validate = .ok ()) (ref .filter) := by
  refine Codec.Described.ref hfollow ?_
  refine ((
    (described_listed (ConditionGroup.described_codec hfollow) "groups").and <|
    (described_listed (Between.described_codec hfollow) "between").and <|
    described_defaulted (described_symbol.ref hfollow) "group_logic" Logic.and).iso ?_).record
      (by decide)
  intro _ hw
  obtain ⟨-, hgroups, hbetween⟩ := Filter.validate_eq_ok.1 hw
  exact ⟨hgroups, hbetween, trivial⟩

/-- A subquery, whose aggregate is an entity of its own in the schema, with
the name that is not written in SQL. -/
theorem ScalarSubquery.described_codec :
    ScalarSubquery.codec.Described follow (fun s => s.validate = .ok ())
      (ref .scalarSubquery) := by
  refine Codec.Described.ref hfollow ?_
  have haggregate := ((AggregateExpr.described_members hfollow).record (by decide)).ref hfollow
    (e := .aggregateExpr)
  have hcolumns := described_symbol.ref hfollow (e := .column)
  refine ((
    (described_required (described_symbol.ref hfollow) "table").and <|
    (described_optional described_name "table_alias").and <|
    (described_required haggregate "aggregate").and <|
    (described_optional (Filter.described_codec hfollow) "where").and <|
    described_listed hcolumns "group_by").iso ?_).record (by decide)
  intro _ hs
  obtain ⟨halias, haggregate, hfilter⟩ := ScalarSubquery.validate_eq_ok.1 hs
  exact ⟨trivial, halias, haggregate, hfilter, fun _ _ => trivial⟩

theorem SubqueryCondition.described_codec :
    SubqueryCondition.codec.Described follow (fun p => p.validate = .ok ())
      (ref .subqueryCondition) := by
  refine Codec.Described.ref hfollow ?_
  refine ((
    (described_required (QualifiedColumn.described_codec hfollow) "column").and <|
    (described_required (described_symbol.ref hfollow) "operator").and <|
    described_required (ScalarSubquery.described_codec hfollow) "subquery").iso ?_).record
      (by decide)
  intro _ hp
  obtain ⟨hcolumn, -, -, hsubquery⟩ := SubqueryCondition.validate_eq_ok.1 hp
  exact ⟨hcolumn, trivial, hsubquery⟩

/-- The schema adds the subqueries to the members of a filter, and the
codec has them before the connective. -/
theorem TopFilter.described_codec :
    TopFilter.codec.Described follow (fun w => w.validate = .ok ()) (ref .topFilter) := by
  refine Codec.Described.ref hfollow ?_
  have hlogic := described_symbol.ref hfollow (e := .logic)
  refine (((
    (described_listed (ConditionGroup.described_codec hfollow) "groups").and <|
    (described_listed (Between.described_codec hfollow) "between").and <|
    (described_listed (SubqueryCondition.described_codec hfollow) "subqueries").and <|
    described_defaulted hlogic "group_logic" Logic.and).iso ?_).reorder
      (t := Schema.topFilter) ?_ rfl).record (by decide)
  · intro w hw
    obtain ⟨-, hgroups, hbetween, hsubqueries⟩ := TopFilter.validate_eq_ok.1 hw
    exact ⟨hgroups, hbetween, hsubqueries, trivial⟩
  · exact ((List.Perm.swap _ _ _).cons _).cons _

-- ============================================================ sources

/-- A derived table selects something, and the schema says so. Its grouping
may be empty, and is then left out. -/
theorem DerivedTable.described_codec :
    DerivedTable.codec.Described follow (fun d => d.validate = .ok ()) (ref .derivedTable) := by
  refine Codec.Described.ref hfollow ?_
  have hitems := (SelectExpr.described_codec hfollow).nonEmptyList
  have htable := described_symbol.ref hfollow (e := .table)
  have hcolumns := described_symbol.ref hfollow (e := .column)
  refine ((
    (described_required hitems "select").and <|
    (described_required htable "from_table").and <|
    (described_required described_name "alias").and <|
    (described_optional (Filter.described_codec hfollow) "where").and <|
    described_listed hcolumns "group_by").iso ?_).record (by decide)
  intro d hd
  obtain ⟨hne, halias, hselect, hfilter⟩ := DerivedTable.validate_eq_ok.1 hd
  exact ⟨⟨hne, hselect⟩, trivial, halias, hfilter, fun _ _ => trivial⟩

/-- A join is made on something, and the schema says so. Its conditions are
groups as they stand in a filter. -/
theorem Join.described_codec :
    Join.codec.Described follow (fun j => j.validate = .ok ()) (ref .join) := by
  refine Codec.Described.ref hfollow ?_
  have hgroups := (ConditionGroup.described_codec hfollow).nonEmptyList
  refine ((
    (described_required (described_symbol.ref hfollow) "join_type").and <|
    (described_required (described_symbol.ref hfollow) "table").and <|
    (described_optional described_name "table_alias").and <|
    described_required hgroups "on_conditions").iso ?_).record (by decide)
  intro _ hj
  obtain ⟨hne, halias, hon⟩ := Join.validate_eq_ok.1 hj
  exact ⟨trivial, trivial, halias, hne, hon⟩

omit hfollow in
/-- Each part of a valid source is valid, whichever parts it has. -/
theorem FromClause.parts_of_validate {f : FromClause} (h : f.validate = .ok ()) :
    (∀ name ∈ f.aliasName, isIdentifier name = true) ∧
      (∀ j ∈ f.joins, j.validate = .ok ()) ∧ ∀ d ∈ f.derived, d.validate = .ok () := by
  obtain ⟨hsource, hjoins⟩ := FromClause.validate_eq_ok.1 h
  rcases FromClause.validateSource_eq_ok.1 hsource with
    ⟨t, -, hd, halias⟩ | ⟨d, -, hd, halias, hderived⟩
  · refine ⟨halias, hjoins, ?_⟩
    rw [hd]
    exact nofun
  · rw [hd, halias]
    exact ⟨nofun, hjoins, fun _ h => by cases h; exact hderived⟩

/-- A valid source has a table and no derived table, or it has a derived
table and nothing that goes with a table. -/
theorem FromClause.described_codec :
    FromClause.codec.Described follow (fun f => f.validate = .ok ()) (ref .fromClause) := by
  refine Codec.Described.ref hfollow ?_
  have htable := described_symbol.ref hfollow (e := .table)
  have hmembers :=
    (described_optional (R := fun _ => True) htable "table").and <|
    (described_optional described_name "table_alias").and <|
    (described_listed (Join.described_codec hfollow) "joins").and <|
    described_optional (DerivedTable.described_codec hfollow) "derived"
  have hvalid : ∀ f : FromClause, f.validate = .ok () →
      (∀ t ∈ f.table, True) ∧ (∀ name ∈ f.aliasName, isIdentifier name = true) ∧
        (∀ j ∈ f.joins, j.validate = .ok ()) ∧ ∀ d ∈ f.derived, d.validate = .ok () :=
    fun f hf => ⟨fun _ _ => trivial, parts_of_validate hf⟩
  refine (hmembers.iso hvalid).object (by decide) ?_ ?_
  -- a valid source has a table or a derived table, which are the two cases of the
  -- schema
  · intro f hf
    refine Schema.conformsWith_fromClause.2 ⟨_, rfl, ?_, (hmembers.iso hvalid).writes f hf⟩
    obtain ⟨table, name, joins, derived⟩ := f
    rcases FromClause.validateSource_eq_ok.1 (FromClause.validate_eq_ok.1 hf).1 with
      ⟨t, ht, hd, -⟩ | ⟨d, ht, hd, halias, -⟩
    · cases ht
      cases hd
      left
      cases name <;> cases joins <;>
        simp [Members.and, Members.iso, Members.optional, Members.listed]
    · cases ht
      cases hd
      cases halias
      right
      cases joins <;> simp [Members.and, Members.iso, Members.optional, Members.listed]
  · intro j hconforms
    obtain ⟨members, rfl, -, hholds⟩ := Schema.conformsWith_fromClause.1 hconforms
    exact ⟨members, rfl, fun _ h => absurd h List.not_mem_nil, hholds⟩

-- ====================================================== other clauses

/-- Grouping has a column, and the schema says so. -/
theorem GroupBy.described_codec :
    GroupBy.codec.Described follow (fun g => g.validate = .ok ()) (ref .groupBy) := by
  refine Codec.Described.ref hfollow ?_
  have hcolumns := (described_symbol.ref hfollow (e := .column)).nonEmptyList
  refine ((described_required hcolumns "columns").iso ?_).record (by decide)
  intro _ hg
  exact ⟨GroupBy.validate_eq_ok.1 hg, fun _ _ => trivial⟩

theorem HavingCondition.described_codec :
    HavingCondition.codec.Described follow (fun p => p.validate = .ok ())
      (ref .havingCondition) := by
  refine Codec.Described.ref hfollow ?_
  refine ((
    (described_required (described_symbol.ref hfollow) "function").and <|
    (described_optional (QualifiedColumn.described_codec hfollow) "column").and <|
    (described_required (described_symbol.ref hfollow) "operator").and <|
    described_required (Literal.described_codec.ref hfollow) "value").iso ?_).record (by decide)
  intro _ hp
  obtain ⟨-, hcolumn, -, -, hvalue⟩ := HavingCondition.validate_eq_ok.1 hp
  exact ⟨trivial, hcolumn, trivial, hvalue⟩

/-- HAVING has a test, and the schema says so. -/
theorem Having.described_codec :
    Having.codec.Described follow (fun h => h.validate = .ok ()) (ref .having) := by
  refine Codec.Described.ref hfollow ?_
  refine ((
    (described_required (HavingCondition.described_codec hfollow).nonEmptyList "conditions").and <|
    described_defaulted (described_symbol.ref hfollow) "logic" Logic.and).iso ?_).record
      (by decide)
  intro _ hh
  exact ⟨Having.validate_eq_ok.1 hh, trivial⟩

/-- A sort has a key, and the schema says so. -/
theorem OrderBy.described_codec :
    OrderBy.codec.Described follow (fun o => o.validate = .ok ()) (ref .orderBy) := by
  refine Codec.Described.ref hfollow ?_
  have hitems := (OrderItem.described_codec hfollow).nonEmptyList
  refine ((described_required hitems "items").iso ?_).record (by decide)
  intro _ ho
  exact OrderBy.validate_eq_ok.1 ho

/-- A limit and an offset, both of 64 bits. -/
theorem Limit.described_codec :
    Limit.codec.Described follow (fun _ => True) (ref .limit) := by
  refine Codec.Described.ref hfollow ?_
  refine ((
    (described_required described_word64 "limit").and <|
    described_defaulted described_word64 "offset" 0).iso ?_).record (by decide)
  intro _ _
  exact ⟨trivial, trivial⟩

-- ============================================================== query

/-- The schema of queries describes their codec. That a sort names outputs is
the last rule that the schema leaves out. -/
theorem Query.described_codec :
    Query.codec.Described follow (fun q => q.validate = .ok ()) (ref .query) := by
  refine Codec.Described.ref hfollow ?_
  have hitems := (SelectExpr.described_codec hfollow).nonEmptyList
  refine ((
    (described_required hitems "select").and <|
    (described_required (FromClause.described_codec hfollow) "from").and <|
    (described_optional (TopFilter.described_codec hfollow) "where").and <|
    (described_optional (GroupBy.described_codec hfollow) "group_by").and <|
    (described_optional (Having.described_codec hfollow) "having").and <|
    (described_optional (OrderBy.described_codec hfollow) "order_by").and <|
    described_optional (Limit.described_codec hfollow) "limit").iso ?_).record (by decide)
  intro q hq
  obtain ⟨hne, hselect, hsource, hfilter, hgroup, hhaving, horder⟩ := Query.validate_eq_ok.1 hq
  exact ⟨⟨hne, hselect⟩, hsource, hfilter, hgroup, hhaving, fun o ho => (horder o ho).1,
    fun _ _ => trivial⟩

end

end TypedSelect
