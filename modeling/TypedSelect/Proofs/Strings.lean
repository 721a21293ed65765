/-
The strings of a query, and queries that differ in nothing else.

Strings are the one place where a caller may write anything. Two
definitions along the tree of a query say where they stand. `strings`
lists the contents of the string constants in the order in which the
clauses are written, which is the order they have in the SQL.
`mapStrings` changes the contents and keeps everything else.

# Queries that differ in their strings

Two queries that are equal once every string is emptied (`blanked`) differ
in the contents of strings only. It is this relation in which the SQL of
two queries is compared: the replacement of strings is a map on the
queries of such a class, and the class is given without saying which
string goes where.

# Validity

Of all the rules of validity just one looks into a string, the rule
against the character zero; the others see the blanked query. `Splits`
puts this as an equivalence, so that it can be used in both directions:
from a valid query to the same query with other strings, and back. It is
proved node by node, where a rule about a list or about a part that may be
missing splits if the rule about one element does.

A property that holds of every string at once would not do. Whether an
operator takes a value depends on the value being a string, which the
change keeps (`Literal.isString_mapStrings`), and whether a list is empty
on its length.
-/
import TypedSelect.Proofs.Validity

namespace TypedSelect

-- ========================================================= definitions

namespace Literal

/-- The content of a string constant. -/
def strings : Literal → List String
  | string s => [s]
  | _ => []

/-- The constant with the content changed, if it is a string. -/
def mapStrings (f : String → String) : Literal → Literal
  | string s => string (f s)
  | v => v

end Literal

namespace Comparand

def strings : Comparand → List String
  | list values => values.flatMap Literal.strings
  | scalar value => value.strings

def mapStrings (f : String → String) : Comparand → Comparand
  | list values => list (values.map (Literal.mapStrings f))
  | scalar value => scalar (value.mapStrings f)

end Comparand

namespace Comparison

def strings (p : Comparison) : List String := p.value.toList.flatMap Comparand.strings

def mapStrings (f : String → String) (p : Comparison) : Comparison :=
  { p with value := p.value.map (Comparand.mapStrings f) }

end Comparison

namespace Between

def strings (p : Between) : List String := p.low.strings ++ p.high.strings

def mapStrings (f : String → String) (p : Between) : Between :=
  { p with low := p.low.mapStrings f, high := p.high.mapStrings f }

end Between

namespace Condition

def strings : Condition → List String
  | simple p => p.strings
  | columns _ => []
  | between p => p.strings

def mapStrings (f : String → String) : Condition → Condition
  | simple p => simple (p.mapStrings f)
  | columns p => columns p
  | between p => between (p.mapStrings f)

end Condition

namespace ConditionGroup

def strings (g : ConditionGroup) : List String := g.conditions.flatMap Condition.strings

def mapStrings (f : String → String) (g : ConditionGroup) : ConditionGroup :=
  { g with conditions := g.conditions.map (Condition.mapStrings f) }

end ConditionGroup

namespace Filter

def strings (w : Filter) : List String :=
  w.groups.flatMap ConditionGroup.strings ++ w.between.flatMap Between.strings

def mapStrings (f : String → String) (w : Filter) : Filter :=
  { w with
    groups := w.groups.map (ConditionGroup.mapStrings f)
    between := w.between.map (Between.mapStrings f) }

end Filter

namespace WindowExpr

def strings (w : WindowExpr) : List String := w.default.toList.flatMap Literal.strings

def mapStrings (f : String → String) (w : WindowExpr) : WindowExpr :=
  { w with default := w.default.map (Literal.mapStrings f) }

end WindowExpr

namespace CaseResult

def strings : CaseResult → List String
  | column _ => []
  | literal v => v.strings

def mapStrings (f : String → String) : CaseResult → CaseResult
  | column c => column c
  | literal v => literal (v.mapStrings f)

end CaseResult

namespace CaseBranch

def strings (b : CaseBranch) : List String := b.condition.strings ++ b.result.strings

def mapStrings (f : String → String) (b : CaseBranch) : CaseBranch :=
  ⟨b.condition.mapStrings f, b.result.mapStrings f⟩

end CaseBranch

namespace CaseExpr

def strings (c : CaseExpr) : List String :=
  c.branches.flatMap CaseBranch.strings ++ c.otherwise.toList.flatMap CaseResult.strings

def mapStrings (f : String → String) (c : CaseExpr) : CaseExpr :=
  { c with
    branches := c.branches.map (CaseBranch.mapStrings f)
    otherwise := c.otherwise.map (CaseResult.mapStrings f) }

end CaseExpr

namespace SelectExpr

/-- Only windows and CASEs hold constants that may be strings. -/
def strings : SelectExpr → List String
  | window e => e.strings
  | case e => e.strings
  | _ => []

def mapStrings (f : String → String) : SelectExpr → SelectExpr
  | window e => window (e.mapStrings f)
  | case e => case (e.mapStrings f)
  | e => e

end SelectExpr

namespace ScalarSubquery

def strings (s : ScalarSubquery) : List String := s.filter.toList.flatMap Filter.strings

def mapStrings (f : String → String) (s : ScalarSubquery) : ScalarSubquery :=
  { s with filter := s.filter.map (Filter.mapStrings f) }

end ScalarSubquery

namespace SubqueryCondition

def strings (p : SubqueryCondition) : List String := p.subquery.strings

def mapStrings (f : String → String) (p : SubqueryCondition) : SubqueryCondition :=
  { p with subquery := p.subquery.mapStrings f }

end SubqueryCondition

namespace TopFilter

def strings (w : TopFilter) : List String :=
  w.toFilter.strings ++ w.subqueries.flatMap SubqueryCondition.strings

def mapStrings (f : String → String) (w : TopFilter) : TopFilter :=
  { w.toFilter.mapStrings f with
    subqueries := w.subqueries.map (SubqueryCondition.mapStrings f) }

end TopFilter

namespace DerivedTable

def strings (d : DerivedTable) : List String :=
  d.select.flatMap SelectExpr.strings ++ d.filter.toList.flatMap Filter.strings

def mapStrings (f : String → String) (d : DerivedTable) : DerivedTable :=
  { d with
    select := d.select.map (SelectExpr.mapStrings f)
    filter := d.filter.map (Filter.mapStrings f) }

end DerivedTable

namespace Join

def strings (j : Join) : List String := j.on.flatMap ConditionGroup.strings

def mapStrings (f : String → String) (j : Join) : Join :=
  { j with on := j.on.map (ConditionGroup.mapStrings f) }

end Join

namespace FromClause

def strings (c : FromClause) : List String :=
  c.derived.toList.flatMap DerivedTable.strings ++ c.joins.flatMap Join.strings

def mapStrings (f : String → String) (c : FromClause) : FromClause :=
  { c with
    joins := c.joins.map (Join.mapStrings f)
    derived := c.derived.map (DerivedTable.mapStrings f) }

end FromClause

namespace HavingCondition

def strings (p : HavingCondition) : List String := p.value.strings

def mapStrings (f : String → String) (p : HavingCondition) : HavingCondition :=
  { p with value := p.value.mapStrings f }

end HavingCondition

namespace Having

def strings (h : Having) : List String := h.conditions.flatMap HavingCondition.strings

def mapStrings (f : String → String) (h : Having) : Having :=
  { h with conditions := h.conditions.map (HavingCondition.mapStrings f) }

end Having

namespace Query

/-- The contents of the string constants, in the order in which the
clauses are written. -/
def strings (q : Query) : List String :=
  q.select.flatMap SelectExpr.strings ++ q.source.strings ++
    q.filter.toList.flatMap TopFilter.strings ++ q.having.toList.flatMap Having.strings

/-- The query with the content of every string constant changed. -/
def mapStrings (f : String → String) (q : Query) : Query :=
  { q with
    select := q.select.map (SelectExpr.mapStrings f)
    source := q.source.mapStrings f
    filter := q.filter.map (TopFilter.mapStrings f)
    having := q.having.map (Having.mapStrings f) }

/-- The query with nothing in its strings. -/
def blanked (q : Query) : Query := q.mapStrings fun _ => ""

end Query

-- ============================================================ validity

/-- Without the character zero. -/
def Validation.NulFree (s : String) : Prop := Char.ofNat 0 ∉ s.toList

open Validation (NulFree Writable)

/-- A rule looks into strings only for the character zero: it holds of a
value exactly when it holds of the value with other strings, themselves
without zeros, and the strings of the value have no zeros. -/
def Validation.Splits {α : Type} (rule : α → Prop) (change : α → α)
    (strings : α → List String) : Prop :=
  ∀ a, rule a ↔ rule (change a) ∧ ∀ s ∈ strings a, NulFree s

open Validation (Splits)

/-- A rule about every element splits if the rule about one does: the strings
of a list are those of its elements. -/
theorem Validation.Splits.list {α : Type} {rule : α → Prop} {change : α → α}
    {strings : α → List String} (h : Splits rule change strings) (l : List α) :
    (∀ a ∈ l, rule a) ↔
      (∀ a ∈ l.map change, rule a) ∧ ∀ s ∈ l.flatMap strings, NulFree s := by
  simp only [List.forall_mem_map, List.mem_flatMap]
  constructor
  · intro hall
    refine ⟨fun a ha => ((h a).1 (hall a ha)).1, ?_⟩
    rintro s ⟨a, ha, hs⟩
    exact ((h a).1 (hall a ha)).2 s hs
  · rintro ⟨himage, hstrings⟩ a ha
    exact (h a).2 ⟨himage a ha, fun s hs => hstrings s ⟨a, ha, hs⟩⟩

/-- The same for a part that may be missing. -/
theorem Validation.Splits.option {α : Type} {rule : α → Prop} {change : α → α}
    {strings : α → List String} (h : Splits rule change strings) (o : Option α) :
    (∀ a ∈ o, rule a) ↔
      (∀ a ∈ o.map change, rule a) ∧ ∀ s ∈ o.toList.flatMap strings, NulFree s := by
  cases o with
  | none => simp
  | some a => simpa using h a

section

variable {f : String → String} (hf : ∀ s, NulFree (f s))
include hf

/-- A constant can be written unless it is a string with a zero or a number
that is not finite; only the first is about contents. -/
theorem Literal.splits : Splits Writable (mapStrings f) strings := by
  intro v
  cases v with
  | string s =>
      have := hf s
      simp only [Writable, mapStrings, strings, NulFree, List.forall_mem_singleton] at this ⊢
      exact ⟨fun hs => ⟨this, hs⟩, And.right⟩
  | _ => simp [mapStrings, strings]

omit hf in
@[simp] theorem Literal.isString_mapStrings (v : Literal) :
    (v.mapStrings f).isString = v.isString := by
  cases v <;> rfl

/-- The rule asks how the operator goes with the value, then about each
constant. The first part sees kinds and lengths, which stay. -/
theorem Comparison.splits : Splits (fun p => p.validate = .ok ()) (mapStrings f) strings := by
  intro p
  dsimp only
  rw [validate_eq_ok, validate_eq_ok, validateValue_eq_ok, validateValue_eq_ok]
  obtain ⟨column, op, value⟩ := p
  cases value with
  | none => simp [mapStrings, strings]
  | some comparand =>
      cases comparand with
      | list values =>
          have hall := (Literal.splits hf).list values
          simp only [mapStrings, strings, Comparand.mapStrings, Comparand.strings,
            Option.map_some, Option.toList_some, List.flatMap_singleton, Option.some.injEq,
            Comparand.list.injEq, exists_eq_left', reduceCtorEq, false_and, exists_false,
            ne_eq, List.map_eq_nil_iff]
          rw [hall]
          tauto
      | scalar v =>
          have hv := Literal.splits hf v
          simp only [mapStrings, strings, Comparand.mapStrings, Comparand.strings,
            Option.map_some, Option.toList_some, List.flatMap_singleton, Option.some.injEq,
            Comparand.scalar.injEq, exists_eq_left', reduceCtorEq, false_and, exists_false,
            Literal.isString_mapStrings]
          rw [hv]
          tauto

theorem Between.splits : Splits (fun p => p.validate = .ok ()) (mapStrings f) strings := by
  intro p
  dsimp only
  rw [validate_eq_ok, validate_eq_ok, Literal.splits hf p.low, Literal.splits hf p.high]
  simp only [mapStrings, strings, List.forall_mem_append]
  tauto

/-- A comparison of columns has no strings, the other kinds have their own. -/
theorem Condition.splits : Splits (fun c => c.validate = .ok ()) (mapStrings f) strings := by
  intro c
  cases c with
  | simple p => exact Comparison.splits hf p
  | columns p => simp [mapStrings, strings]
  | between p => exact Between.splits hf p

theorem ConditionGroup.splits :
    Splits (fun g => g.validate = .ok ()) (mapStrings f) strings := by
  intro g
  dsimp only
  rw [validate_eq_ok, validate_eq_ok, (Condition.splits hf).list]
  simp only [mapStrings, strings, ne_eq, List.map_eq_nil_iff, and_assoc]

/-- A filter has the strings of its groups and then of its ranges, as it is
written. -/
theorem Filter.splits : Splits (fun w => w.validate = .ok ()) (mapStrings f) strings := by
  intro w
  dsimp only
  rw [validate_eq_ok, validate_eq_ok, (ConditionGroup.splits hf).list,
    (Between.splits hf).list]
  simp only [mapStrings, strings, isEmpty, List.isEmpty_map, List.forall_mem_append]
  tauto

/-- A window has at most one, its value for a missing row. -/
theorem WindowExpr.splits : Splits (fun w => w.validate = .ok ()) (mapStrings f) strings := by
  intro w
  dsimp only
  rw [validate_eq_ok, validate_eq_ok, validateOffset_eq_ok, validateOffset_eq_ok,
    (Literal.splits hf).option]
  simp only [mapStrings, strings, Option.map_eq_none_iff]
  show _ ↔ (_ ∧ w.validateArgument = .ok () ∧ _) ∧ _
  tauto

/-- A result has one if it is a constant. -/
theorem CaseResult.splits : Splits (fun r => r.validate = .ok ()) (mapStrings f) strings := by
  intro r
  cases r with
  | column c => simp [mapStrings, strings]
  | literal v => simpa [validate, mapStrings, strings] using Literal.splits hf v

/-- A branch has those of its test before that of its result. -/
theorem CaseBranch.splits : Splits (fun b => b.validate = .ok ()) (mapStrings f) strings := by
  intro b
  have hcondition := Comparison.splits hf b.condition
  have hresult := CaseResult.splits hf b.result
  dsimp only at hcondition hresult ⊢
  rw [validate_eq_ok, validate_eq_ok, hcondition, hresult]
  simp only [mapStrings, strings, List.forall_mem_append]
  tauto

/-- A CASE has those of its branches and then what holds otherwise. -/
theorem CaseExpr.splits : Splits (fun c => c.validate = .ok ()) (mapStrings f) strings := by
  intro c
  dsimp only
  rw [validate_eq_ok, validate_eq_ok, (CaseBranch.splits hf).list,
    (CaseResult.splits hf).option]
  simp only [mapStrings, strings, ne_eq, List.map_eq_nil_iff, List.forall_mem_append]
  tauto

/-- The other four kinds of items hold no strings, so nothing changes. -/
theorem SelectExpr.splits : Splits (fun e => e.validate = .ok ()) (mapStrings f) strings := by
  intro e
  cases e with
  | window e => exact WindowExpr.splits hf e
  | case e => exact CaseExpr.splits hf e
  | _ => simp [mapStrings, strings]

theorem ScalarSubquery.splits :
    Splits (fun q => q.validate = .ok ()) (mapStrings f) strings := by
  intro q
  dsimp only
  rw [validate_eq_ok, validate_eq_ok, (Filter.splits hf).option]
  simp only [mapStrings, strings]
  tauto

/-- The column and the operator of the test are as they were. -/
theorem SubqueryCondition.splits :
    Splits (fun p => p.validate = .ok ()) (mapStrings f) strings := by
  intro p
  have hsubquery := ScalarSubquery.splits hf p.subquery
  dsimp only at hsubquery ⊢
  rw [validate_eq_ok, validate_eq_ok, hsubquery]
  simp only [mapStrings, strings, ScalarSubquery.mapStrings]
  tauto

/-- A filter at the top has those of a filter and then of its subqueries. -/
theorem TopFilter.splits : Splits (fun w => w.validate = .ok ()) (mapStrings f) strings := by
  intro w
  dsimp only
  rw [validate_eq_ok, validate_eq_ok, (ConditionGroup.splits hf).list,
    (Between.splits hf).list, (SubqueryCondition.splits hf).list]
  simp only [mapStrings, strings, Filter.mapStrings, Filter.strings, isEmpty,
    Filter.isEmpty, List.isEmpty_map, List.forall_mem_append]
  tauto

/-- A derived table has those of its items and of its filter. -/
theorem DerivedTable.splits :
    Splits (fun d => d.validate = .ok ()) (mapStrings f) strings := by
  intro d
  dsimp only
  rw [validate_eq_ok, validate_eq_ok, (SelectExpr.splits hf).list,
    (Filter.splits hf).option]
  simp only [mapStrings, strings, ne_eq, List.map_eq_nil_iff, List.forall_mem_append]
  tauto

/-- A join has those of the groups it is made on. -/
theorem Join.splits : Splits (fun j => j.validate = .ok ()) (mapStrings f) strings := by
  intro j
  dsimp only
  rw [validate_eq_ok, validate_eq_ok, (ConditionGroup.splits hf).list]
  simp only [mapStrings, strings, ne_eq, List.map_eq_nil_iff]
  tauto

/-- The derived table is rendered before the joins, so its strings come
first. -/
theorem FromClause.splits : Splits (fun c => c.validate = .ok ()) (mapStrings f) strings := by
  intro c
  dsimp only
  rw [validate_eq_ok, validate_eq_ok, validateSource_eq_ok, validateSource_eq_ok,
    (Join.splits hf).list]
  obtain ⟨table, aliasName, joins, derived⟩ := c
  cases derived with
  | none => simp [mapStrings, strings, and_assoc]
  | some d =>
      have hd := DerivedTable.splits hf d
      dsimp only at hd
      simp only [mapStrings, strings, Option.map_some, Option.toList_some,
        List.flatMap_singleton, List.forall_mem_append, Option.some.injEq, reduceCtorEq,
        false_and, and_false, exists_false, exists_and_left, exists_eq_left', false_or]
      rw [hd]
      tauto

/-- A test on a group of rows has one constant. -/
theorem HavingCondition.splits :
    Splits (fun p => p.validate = .ok ()) (mapStrings f) strings := by
  intro p
  dsimp only
  rw [validate_eq_ok, validate_eq_ok, Literal.splits hf p.value]
  simp only [mapStrings, strings]
  tauto

theorem Having.splits : Splits (fun h => h.validate = .ok ()) (mapStrings f) strings := by
  intro h
  dsimp only
  rw [validate_eq_ok, validate_eq_ok, (HavingCondition.splits hf).list]
  simp only [mapStrings, strings, ne_eq, List.map_eq_nil_iff, and_assoc]

omit hf in
/-- No name is a string constant, so the names of the items stay. -/
theorem SelectExpr.aliasName?_mapStrings (e : SelectExpr) :
    (e.mapStrings f).aliasName? = e.aliasName? := by
  cases e <;> rfl

omit hf in
/-- So do the names that a sort may use. -/
theorem Query.selectAliases_mapStrings (q : Query) :
    (q.mapStrings f).selectAliases = q.selectAliases := by
  unfold selectAliases mapStrings
  rw [List.filterMap_map]
  congr 1
  funext e
  exact e.aliasName?_mapStrings

/-- All rules of validity but one see a query without the contents of its
strings. -/
theorem Query.splits : Splits (fun q => q.validate = .ok ()) (mapStrings f) strings := by
  intro q
  have hsource := FromClause.splits hf q.source
  dsimp only at hsource ⊢
  rw [validate_eq_ok, validate_eq_ok, (SelectExpr.splits hf).list, hsource,
    (TopFilter.splits hf).option, (Having.splits hf).option, selectAliases_mapStrings]
  simp only [mapStrings, strings, ne_eq, List.map_eq_nil_iff, List.forall_mem_append]
  tauto

end

/-- A query that differs from a valid one in the contents of strings only
is valid unless one of its strings has a zero. -/
theorem Query.validate_of_blanked {q q' : Query} (h : q.validate = .ok ())
    (heq : q'.blanked = q.blanked) (hnul : ∀ s ∈ q'.strings, NulFree s) :
    q'.validate = .ok () := by
  have hempty : String → NulFree "" := fun _ => List.not_mem_nil
  have hblanked : q.blanked.validate = .ok () := ((Query.splits hempty q).1 h).1
  rw [← heq] at hblanked
  exact (Query.splits hempty q').2 ⟨hblanked, hnul⟩

end TypedSelect
