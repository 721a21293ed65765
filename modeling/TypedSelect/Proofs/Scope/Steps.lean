/-
What the check of names does, one step after the other.

A walk over a query brings names into scope and looks references up, and
nothing else, so it is a list of steps: each name with the names that its
level has already, and each reference with the levels it may look into.
The steps do not depend on the settings; only whether one of them passes
does.

# Why steps

The check itself hands a scope from one part of the source to the next and
stops at the first error, so to say something of one reference one would
have to say that everything before it has passed. A step has its levels
with it. `checkScope_eq_each` says that the check is these steps in this
order, so what is said of every step is said of the check: it passes where
all steps pass, and its error is that of one of them.

# Columns

The references of a node are its columns in the order in which they are
looked up. That the check of a node looks up its references is shown for
each node, by putting those of its parts together.

# Names

The names of the source are the steps that can fail for a name. Those of
derived tables and subqueries come into an empty level. So that all names
pass is that no two of the source are one (`NamesDistinct`).
-/
import TypedSelect.Proofs.Outcome
import TypedSelect.Scope.Check

namespace TypedSelect

open Check (each optional require)

-- ============================================================= checks

namespace Check

variable {ε α β : Type} {check : α → Except ε Unit}

/-- The first of a row of checks is made first. -/
theorem each_cons {a : α} {rest : List α} :
    each check (a :: rest) = (do check a; each check rest) := rfl

theorem each_singleton {a : α} : each check [a] = check a := by
  rw [each_cons]
  cases check a <;> rfl

theorem each_append {l l' : List α} :
    each check (l ++ l') = (do each check l; each check l') := by
  induction l with
  | nil => rfl
  | cons a l ih =>
      rw [List.cons_append, each_cons, each_cons, ih]
      cases check a <;> rfl

/-- A check may be made on what something stands for. -/
theorem each_map {f : β → α} {l : List β} :
    each check (l.map f) = each (fun b => check (f b)) l := by
  induction l with
  | nil => rfl
  | cons b l ih => rw [List.map_cons, each_cons, each_cons, ih]

theorem each_flatMap {f : β → List α} {l : List β} :
    each check (l.flatMap f) = each (fun b => each check (f b)) l := by
  induction l with
  | nil => rfl
  | cons b l ih => rw [List.flatMap_cons, each_append, each_cons, ih]

/-- What may be missing is a row of one or none. -/
theorem optional_eq_each {o : Option α} : optional check o = each check o.toList := by
  cases o with
  | none => rfl
  | some a => exact each_singleton.symm

/-- A row of checks fails as the first that does not pass. That those before
it have passed is not said, as it is not needed. -/
theorem each_eq_error {l : List α} {e : ε} (h : each check l = .error e) :
    ∃ a ∈ l, check a = .error e := by
  induction l with
  | nil => cases h
  | cons a l ih =>
      rw [each_cons] at h
      cases ha : check a with
      | error e' =>
          rw [ha] at h
          cases h
          exact ⟨a, List.mem_cons_self, ha⟩
      | ok _ =>
          rw [ha] at h
          obtain ⟨b, hb, hfails⟩ := ih h
          exact ⟨b, List.mem_cons_of_mem _ hb, hfails⟩

end Check

open Check (each_append each_cons each_flatMap each_map each_singleton optional_eq_each)

-- ========================================================= references

/-- The columns of a node, in the order in which they are looked up. -/
def Operand.references : Operand → List QualifiedColumn
  | column c => [c]
  | number _ => []

@[inherit_doc Operand.references]
def Arithmetic.references (a : Arithmetic) : List QualifiedColumn :=
  a.left.references ++ a.right.references

@[inherit_doc Operand.references]
def AggregateInput.references : AggregateInput → List QualifiedColumn
  | column c => [c]
  | arithmetic a => a.references

@[inherit_doc Operand.references]
def AggregateExpr.references (a : AggregateExpr) : List QualifiedColumn :=
  a.input.toList.flatMap AggregateInput.references

@[inherit_doc Operand.references]
def OrderItem.references (i : OrderItem) : List QualifiedColumn :=
  match i.key with
  | .column c => [c]
  | .output _ => []

@[inherit_doc Operand.references]
def WindowExpr.references (w : WindowExpr) : List QualifiedColumn :=
  w.column.toList ++ w.partitionBy ++ w.orderBy.flatMap OrderItem.references

@[inherit_doc Operand.references]
def CaseResult.references : CaseResult → List QualifiedColumn
  | column c => [c]
  | literal _ => []

@[inherit_doc Operand.references]
def CaseBranch.references (b : CaseBranch) : List QualifiedColumn :=
  b.condition.column :: b.result.references

@[inherit_doc Operand.references]
def CaseExpr.references (c : CaseExpr) : List QualifiedColumn :=
  c.branches.flatMap CaseBranch.references ++ c.otherwise.toList.flatMap CaseResult.references

@[inherit_doc Operand.references]
def SelectExpr.references : SelectExpr → List QualifiedColumn
  | column e => [e.source]
  | binary e => e.arithmetic.references
  | compound e => e.inner.references ++ e.outer.references
  | aggregate e => e.references
  | window e => e.references
  | case e => e.references

@[inherit_doc Operand.references]
def Condition.references : Condition → List QualifiedColumn
  | simple p => [p.column]
  | columns p => [p.left, p.right]
  | between p => [p.column]

@[inherit_doc Operand.references]
def ConditionGroup.references (g : ConditionGroup) : List QualifiedColumn :=
  g.conditions.flatMap Condition.references

@[inherit_doc Operand.references]
def Filter.references (w : Filter) : List QualifiedColumn :=
  w.groups.flatMap ConditionGroup.references ++ w.between.map Between.column

namespace Scope

variable (s : Scope)

/-- The check of a node looks up its references, here those of an operand. -/
theorem checkOperand_eq (o : Operand) : s.checkOperand o = each s.resolve o.references := by
  cases o with
  | column c => exact each_singleton.symm
  | number n => rfl

/-- An operation looks up those of its left side and then of its right. -/
theorem checkArithmetic_eq (a : Arithmetic) :
    s.checkArithmetic a = each s.resolve a.references := by
  rw [checkArithmetic, checkOperand_eq, checkOperand_eq, Arithmetic.references, each_append]

theorem checkAggregate_eq (a : AggregateExpr) :
    s.checkAggregate a = each s.resolve a.references := by
  have hinput : ∀ i, s.checkInput i = each s.resolve i.references := by
    intro i
    cases i with
    | column c => exact each_singleton.symm
    | arithmetic a => exact s.checkArithmetic_eq a
  rw [checkAggregate, optional_eq_each, AggregateExpr.references, each_flatMap]
  exact congrArg (each · _) (funext hinput)

/-- A key of a sort looks up its column. -/
theorem checkOrderItem_eq (i : OrderItem) :
    s.checkOrderItem i = each s.resolve i.references := by
  unfold checkOrderItem OrderItem.references
  cases i.key with
  | column c => exact each_singleton.symm
  | output name => rfl

/-- A window looks up its column, its partition and its order. -/
theorem checkWindow_eq (w : WindowExpr) : s.checkWindow w = each s.resolve w.references := by
  rw [checkWindow, WindowExpr.references, each_append, each_append, optional_eq_each,
    each_flatMap, funext s.checkOrderItem_eq]
  cases each s.resolve w.column.toList <;> rfl

theorem checkCaseResult_eq (r : CaseResult) :
    s.checkCaseResult r = each s.resolve r.references := by
  cases r with
  | column c => exact each_singleton.symm
  | literal v => rfl

/-- A branch looks up the column of its test and then its result. -/
theorem checkBranch_eq (b : CaseBranch) : s.checkBranch b = each s.resolve b.references := by
  rw [checkBranch, CaseBranch.references, each_cons, checkCaseResult_eq]

theorem checkSelect_eq (e : SelectExpr) : s.checkSelect e = each s.resolve e.references := by
  cases e with
  | column e => exact each_singleton.symm
  | binary e => exact s.checkArithmetic_eq _
  | compound e =>
      rw [checkSelect, checkArithmetic_eq, checkOperand_eq]
      exact each_append.symm
  | aggregate e => exact s.checkAggregate_eq e
  | window e => exact s.checkWindow_eq e
  | case e =>
      rw [checkSelect, funext s.checkBranch_eq, optional_eq_each, funext s.checkCaseResult_eq,
        ← each_flatMap, ← each_flatMap]
      exact each_append.symm

theorem checkGroup_eq (g : ConditionGroup) : s.checkGroup g = each s.resolve g.references := by
  have hcondition : ∀ c, s.checkCondition c = each s.resolve c.references := by
    intro c
    cases c with
    | simple p => exact each_singleton.symm
    | columns p =>
        rw [checkCondition, Condition.references, each_cons, each_singleton]
    | between p => exact each_singleton.symm
  rw [checkGroup, ConditionGroup.references, each_flatMap]
  exact congrArg (each · _) (funext hcondition)

/-- A filter looks up those of its groups and then of its ranges. -/
theorem checkFilter_eq (w : Filter) : s.checkFilter w = each s.resolve w.references := by
  rw [checkFilter, Filter.references, each_append, each_flatMap, each_map,
    funext s.checkGroup_eq]

end Scope

-- ============================================================ entries

/-- The entry of a table: its alias, or else its own name. -/
def ScopeEntry.ofTable (table : Table) (aliasName : Option String) : ScopeEntry :=
  match aliasName with
  | some aliasName => ⟨aliasName, true⟩
  | none => ⟨table.name, false⟩

/-- The entry of a derived table. -/
def DerivedTable.entry (d : DerivedTable) : ScopeEntry := ⟨d.aliasName, true⟩

/-- The entry of a joined table. -/
def Join.entry (j : Join) : ScopeEntry := .ofTable j.table j.aliasName

/-- The entry of the table of a subquery. -/
def ScalarSubquery.entry (q : ScalarSubquery) : ScopeEntry := .ofTable q.table q.aliasName

/-- The entry of the table of a source, if it has one. -/
def FromClause.tableEntries (f : FromClause) : List ScopeEntry :=
  f.table.toList.map fun table => .ofTable table f.aliasName

/-- The entries of a source before its joins. -/
def FromClause.firstEntries (f : FromClause) : List ScopeEntry :=
  f.tableEntries ++ f.derived.toList.map DerivedTable.entry

/-- The entries of a source, in the order in which they come into scope. -/
def FromClause.entries (f : FromClause) : List ScopeEntry :=
  f.firstEntries ++ f.joins.map Join.entry

-- ============================================================== steps

/-- One step of the check of names. -/
inductive ScopeStep where
  /-- A name for a level that has some already. -/
  | name (before : List ScopeEntry) (entry : ScopeEntry)
  /-- A reference from a level with some levels around it. -/
  | reference (entries : List ScopeEntry) (outer : List (List ScopeEntry))
    (column : QualifiedColumn)
deriving DecidableEq

/-- Whether a step passes, and with which error it fails. -/
def ScopeStep.check (settings : Settings) : ScopeStep → ScopeCheck
  | name before entry =>
    require (!before.any fun e => sameName e.name entry.name)
      (.invalid (.duplicateAlias entry.name))
  | reference entries outer column => Scope.resolve ⟨settings, entries, outer⟩ column

/-- The references of a derived table. -/
def DerivedTable.references (d : DerivedTable) : List QualifiedColumn :=
  d.select.flatMap SelectExpr.references ++ d.filter.toList.flatMap Filter.references

/-- The references inside a subquery. -/
def ScalarSubquery.references (q : ScalarSubquery) : List QualifiedColumn :=
  q.aggregate.references ++ q.filter.toList.flatMap Filter.references

/-- The references of the ON of a join. -/
def Join.references (j : Join) : List QualifiedColumn := j.on.flatMap ConditionGroup.references

/-- The steps inside a derived table, which sees its own table only, and
then its name. -/
def DerivedTable.steps (before : List ScopeEntry) (d : DerivedTable) : List ScopeStep :=
  let own := ScopeEntry.ofTable d.table none
  .name [] own :: d.references.map (.reference [own] []) ++ [.name before d.entry]

/-- The name of a join and the references of its ON, which sees it. -/
def Join.steps (before : List ScopeEntry) (j : Join) : List ScopeStep :=
  .name before j.entry :: j.references.map (.reference (before ++ [j.entry]) [])

/-- The steps of some joins, each after those before it. -/
def Join.allSteps (before : List ScopeEntry) : List Join → List ScopeStep
  | [] => []
  | j :: rest => j.steps before ++ allSteps (before ++ [j.entry]) rest

/-- The steps of a source. -/
def FromClause.steps (f : FromClause) : List ScopeStep :=
  f.tableEntries.map (.name []) ++ f.derived.toList.flatMap (DerivedTable.steps f.tableEntries) ++
    Join.allSteps f.firstEntries f.joins

/-- The steps of a test against a subquery, which sees its own table and
then those of its query. -/
def SubqueryCondition.steps (top : List ScopeEntry) (p : SubqueryCondition) : List ScopeStep :=
  let own := p.subquery.entry
  .reference top [] p.column :: .name [] own ::
    p.subquery.references.map (.reference [own] [top])

/-- The references of the tests on groups. -/
def Having.references (h : Having) : List QualifiedColumn :=
  h.conditions.filterMap HavingCondition.column

/-- The references of the keys of a sort. -/
def OrderBy.references (o : OrderBy) : List QualifiedColumn :=
  o.items.flatMap OrderItem.references

/-- The steps of the clauses of a query, in the scope of its source. -/
def Query.clauseSteps (q : Query) : List ScopeStep :=
  let top := q.source.entries
  (q.select.flatMap SelectExpr.references).map (.reference top []) ++
    q.filter.toList.flatMap (fun w => w.references.map (.reference top []) ++
      w.subqueries.flatMap (SubqueryCondition.steps top)) ++
    (q.having.toList.flatMap Having.references).map (.reference top []) ++
    (q.orderBy.toList.flatMap OrderBy.references).map (.reference top [])

/-- The steps of a query. -/
def Query.steps (q : Query) : List ScopeStep := q.source.steps ++ q.clauseSteps

namespace Scope

variable (settings : Settings) (entries : List ScopeEntry) (outer : List (List ScopeEntry))

/-- References from one place are looked up in one scope. -/
theorem each_reference (references : List QualifiedColumn) :
    each (ScopeStep.check settings) (references.map (.reference entries outer)) =
      each (resolve ⟨settings, entries, outer⟩) references := by
  rw [each_map]
  rfl

/-- A name comes into scope if its step passes. -/
theorem push_eq (entry : ScopeEntry) :
    push ⟨settings, entries, outer⟩ entry.name entry.aliased = (do
      ScopeStep.check settings (.name entries entry)
      .ok ⟨settings, entries ++ [entry], outer⟩) := by
  unfold push ScopeStep.check require
  dsimp only
  cases entries.any fun e => sameName e.name entry.name <;> rfl

/-- A table comes into scope if the step of its name passes. -/
theorem introduce_eq (table : Table) (aliasName : Option String) :
    introduce ⟨settings, entries, outer⟩ table aliasName = (do
      ScopeStep.check settings (.name entries (.ofTable table aliasName))
      .ok ⟨settings, entries ++ [.ofTable table aliasName], outer⟩) := by
  cases aliasName with
  | none => exact push_eq settings entries outer ⟨table.name, false⟩
  | some name => exact push_eq settings entries outer ⟨name, true⟩

/-- A filter that may be missing looks up the references it has. -/
theorem optional_checkFilter_eq (s : Scope) (w : Option Filter) :
    optional s.checkFilter w = each s.resolve (w.toList.flatMap Filter.references) := by
  rw [optional_eq_each, funext s.checkFilter_eq, each_flatMap]

/-- A derived table brings its table in and looks its references up there. -/
theorem checkDerived_eq (d : DerivedTable) :
    checkDerived settings d = each (ScopeStep.check settings)
      (.name [] (.ofTable d.table none) ::
        d.references.map (.reference [.ofTable d.table none] [])) := by
  rw [checkDerived, introduce_eq, each_cons, each_reference, DerivedTable.references, each_append,
    each_flatMap]
  cases ScopeStep.check settings (.name [] (.ofTable d.table none)) with
  | error e => rfl
  | ok _ =>
      rw [← optional_checkFilter_eq, ← funext (checkSelect_eq _)]
      rfl

/-- A test against a subquery looks up its column, brings the table of the
subquery in, and looks up what is inside. -/
theorem checkSubqueryCondition_eq (p : SubqueryCondition) :
    checkSubqueryCondition ⟨settings, entries, []⟩ p =
      each (ScopeStep.check settings) (p.steps entries) := by
  rw [checkSubqueryCondition, checkSubquery, child, introduce_eq, SubqueryCondition.steps,
    each_cons, each_cons, each_reference, ScalarSubquery.references, each_append,
    ScalarSubquery.entry]
  refine congrArg (_ >>= ·) (funext fun _ => ?_)
  cases ScopeStep.check settings (.name [] (.ofTable p.subquery.table p.subquery.aliasName)) with
  | error e => rfl
  | ok _ =>
      rw [← optional_checkFilter_eq, ← checkAggregate_eq]
      rfl

/-- The filter of a query, and then its tests against subqueries. -/
theorem checkTopFilter_eq (w : TopFilter) :
    checkTopFilter ⟨settings, entries, []⟩ w = each (ScopeStep.check settings)
      (w.references.map (.reference entries []) ++
        w.subqueries.flatMap (SubqueryCondition.steps entries)) := by
  rw [checkTopFilter, checkFilter_eq, each_append, each_reference, each_flatMap,
    funext (checkSubqueryCondition_eq settings entries)]

/-- What follows a value is the rest with the value. -/
theorem ok_bind {ε α β : Type} (a : α) (f : α → Except ε β) : (.ok a >>= f) = f a := rfl

/-- A join brings its table in and looks up its ON. -/
theorem checkJoin_eq (j : Join) :
    checkJoin ⟨settings, entries, []⟩ j = (do
      each (ScopeStep.check settings) (j.steps entries)
      .ok ⟨settings, entries ++ [j.entry], []⟩) := by
  rw [checkJoin, introduce_eq, Join.steps, each_cons, each_reference, Join.references,
    each_flatMap, ← funext (checkGroup_eq _), bind_assoc, bind_assoc]
  rfl

/-- Joins one after the other, each with the names of those before it. -/
theorem checkJoins_eq (joins : List Join) :
    checkJoins ⟨settings, entries, []⟩ joins = (do
      each (ScopeStep.check settings) (Join.allSteps entries joins)
      .ok ⟨settings, entries ++ joins.map Join.entry, []⟩) := by
  induction joins generalizing entries with
  | nil => rw [List.map_nil, List.append_nil]; rfl
  | cons j rest ih =>
      rw [checkJoins, checkJoin_eq, Join.allSteps, each_append, bind_assoc, bind_assoc,
        List.map_cons, List.append_cons entries j.entry (rest.map Join.entry)]
      exact congrArg (_ >>= ·) (funext fun _ => ih _)

/-- The table of a source is the first name. -/
theorem checkTable_eq (f : FromClause) :
    checkTable { settings } f = (do
      each (ScopeStep.check settings) (f.tableEntries.map (.name []))
      .ok ⟨settings, f.tableEntries, []⟩) := by
  unfold checkTable FromClause.tableEntries
  cases f.table with
  | none => rfl
  | some table =>
      refine (introduce_eq settings [] [] table f.aliasName).trans ?_
      exact congrArg (· >>= _) each_singleton.symm

/-- A derived table is checked inside and then brings its own name in. -/
theorem checkDerivedSource_eq (f : FromClause) :
    checkDerivedSource ⟨settings, entries, []⟩ f = (do
      each (ScopeStep.check settings) (f.derived.toList.flatMap (DerivedTable.steps entries))
      .ok ⟨settings, entries ++ f.derived.toList.map DerivedTable.entry, []⟩) := by
  unfold checkDerivedSource
  cases f.derived with
  | none => rw [Option.toList_none, List.map_nil, List.append_nil]; rfl
  | some d =>
      rw [Option.toList_some, List.flatMap_singleton, DerivedTable.steps, each_append,
        each_singleton, ← checkDerived_eq, bind_assoc]
      exact congrArg (_ >>= ·) (funext fun _ => push_eq settings entries [] d.entry)

/-- A source is checked step by step and leaves its names behind. -/
theorem checkSource_eq (f : FromClause) :
    checkSource settings f = (do
      each (ScopeStep.check settings) f.steps
      .ok ⟨settings, f.entries, []⟩) := by
  rw [checkSource, checkTable_eq, FromClause.steps, each_append, each_append, bind_assoc,
    bind_assoc, bind_assoc]
  refine congrArg (_ >>= ·) (funext fun _ => ?_)
  rw [ok_bind, checkDerivedSource_eq, bind_assoc]
  exact congrArg (_ >>= ·) (funext fun _ => checkJoins_eq settings f.firstEntries f.joins)

end Scope

/-- The check of names is its steps, those of the source and then those of
the clauses in the order of the check. -/
theorem Query.checkScope_eq_each (settings : Settings) (q : Query) :
    q.checkScope settings = each (ScopeStep.check settings) q.steps := by
  rw [checkScope, Scope.checkSource_eq, steps, each_append, clauseSteps, bind_assoc]
  refine congrArg (_ >>= ·) (funext fun _ => ?_)
  rw [Scope.ok_bind, each_append, each_append, each_append, Scope.each_reference,
    Scope.each_reference, Scope.each_reference, each_flatMap, each_flatMap, each_flatMap,
    each_flatMap, optional_eq_each, optional_eq_each, optional_eq_each,
    funext (Scope.checkSelect_eq _), funext (Scope.checkTopFilter_eq settings _), bind_assoc,
    bind_assoc]
  simp only [OrderBy.references, each_flatMap, ← funext (Scope.checkOrderItem_eq _)]
  rfl

-- =============================================================== names

/-- Some names one after the other, for a level that has some already. -/
def ScopeStep.names (before : List ScopeEntry) : List ScopeEntry → List ScopeStep
  | [] => []
  | entry :: rest => .name before entry :: names (before ++ [entry]) rest

/-- No two names of the source are one to SQL. -/
def Query.NamesDistinct (q : Query) : Prop :=
  q.source.entries.Pairwise fun a b => sameName a.name b.name = false

namespace ScopeStep

theorem names_append (before l l' : List ScopeEntry) :
    names before (l ++ l') = names before l ++ names (before ++ l) l' := by
  induction l generalizing before with
  | nil => rw [List.append_nil]; rfl
  | cons e l ih => rw [List.cons_append, names, names, ih, List.append_assoc]; rfl

/-- A name comes after the names before it. The step for it holds them, and
so it knows which names are taken. -/
theorem mem_names {before level l : List ScopeEntry} {entry : ScopeEntry} :
    .name level entry ∈ names before l ↔
      ∃ first rest, l = first ++ entry :: rest ∧ level = before ++ first := by
  induction l generalizing before with
  | nil => simp [names]
  | cons e l ih =>
      rw [names, List.mem_cons, ih]
      constructor
      · rintro (heq | ⟨first, rest, rfl, rfl⟩)
        · cases heq
          exact ⟨[], l, rfl, (List.append_nil _).symm⟩
        · exact ⟨e :: first, rest, rfl, List.append_assoc ..⟩
      · rintro ⟨_ | ⟨e', first⟩, rest, hl, rfl⟩
        · cases hl
          exact .inl (by rw [List.append_nil])
        · cases hl
          exact .inr ⟨first, rest, rfl, List.append_cons ..⟩

end ScopeStep

/-- The name of a join is a step of the joins. -/
theorem Join.mem_allSteps_of_mem_names {before : List ScopeEntry} {joins : List Join}
    {step : ScopeStep} (h : step ∈ ScopeStep.names before (joins.map Join.entry)) :
    step ∈ allSteps before joins := by
  induction joins generalizing before with
  | nil => cases h
  | cons j rest ih =>
      rw [List.map_cons, ScopeStep.names, List.mem_cons] at h
      rw [allSteps, steps]
      rcases h with rfl | h
      · exact List.mem_append_left _ List.mem_cons_self
      · exact List.mem_append_right _ (ih h)

/-- A step of the joins that is a name is the name of one. -/
theorem Join.mem_names_of_mem_allSteps {before level : List ScopeEntry} {joins : List Join}
    {entry : ScopeEntry} (h : .name level entry ∈ allSteps before joins) :
    .name level entry ∈ ScopeStep.names before (joins.map Join.entry) := by
  induction joins generalizing before with
  | nil => cases h
  | cons j rest ih =>
      rw [allSteps, steps, List.cons_append, List.mem_cons, List.mem_append] at h
      rw [List.map_cons, ScopeStep.names, List.mem_cons]
      rcases h with h | h | h
      · exact .inl h
      · simp at h
      · exact .inr (ih h)

/-- The names of a source are those of its table, its derived table and its
joins. -/
theorem FromClause.names_entries (f : FromClause) :
    ScopeStep.names [] f.entries = f.tableEntries.map (.name []) ++
      (ScopeStep.names f.tableEntries (f.derived.toList.map DerivedTable.entry) ++
        ScopeStep.names f.firstEntries (f.joins.map Join.entry)) := by
  have htable : ScopeStep.names [] f.tableEntries = f.tableEntries.map (.name []) := by
    unfold tableEntries
    cases f.table <;> rfl
  rw [entries, firstEntries, ScopeStep.names_append, ScopeStep.names_append, htable,
    List.append_assoc]
  rfl

/-- Every name of the source has a step. The names of the joins come one by
one, and the conditions of a join stand between them. -/
theorem Query.mem_steps_of_mem_names {q : Query} {step : ScopeStep}
    (h : step ∈ ScopeStep.names [] q.source.entries) : step ∈ q.steps := by
  rw [FromClause.names_entries, List.mem_append, List.mem_append] at h
  rw [steps, FromClause.steps, List.mem_append, List.mem_append, List.mem_append]
  refine .inl ?_
  rcases h with h | h | h
  · exact .inl (.inl h)
  · refine .inl (.inr ?_)
    cases hd : q.source.derived with
    | none => rw [hd] at h; cases h
    | some d =>
        rw [hd, Option.toList_some, List.map_singleton] at h
        rw [Option.toList_some, List.flatMap_singleton, DerivedTable.steps]
        exact List.mem_append_right _ h
  · exact .inr (Join.mem_allSteps_of_mem_names h)

/-- A name that comes after others is a name of the source: derived tables
and subqueries have one name each. -/
theorem Query.mem_names_of_mem_steps {q : Query} {level : List ScopeEntry} {entry : ScopeEntry}
    (h : .name level entry ∈ q.steps) (hlevel : level ≠ []) :
    .name level entry ∈ ScopeStep.names [] q.source.entries := by
  rw [FromClause.names_entries, List.mem_append, List.mem_append]
  rw [steps, List.mem_append] at h
  rcases h with h | h
  · rw [FromClause.steps, List.mem_append, List.mem_append] at h
    rcases h with (h | h) | h
    · exact .inl h
    · refine .inr (.inl ?_)
      cases hd : q.source.derived with
      | none => rw [hd] at h; cases h
      | some d =>
          rw [hd, Option.toList_some, List.flatMap_singleton, DerivedTable.steps] at h
          rw [Option.toList_some, List.map_singleton]
          simpa [ScopeStep.names, hlevel] using h
    · exact .inr (.inr (Join.mem_names_of_mem_allSteps h))
  · -- a subquery has one name, which comes into an empty level
    simp [clauseSteps, SubqueryCondition.steps, hlevel] at h

/-- The names of the source pass where no two of them are one. -/
theorem ScopeStep.forall_names {settings : Settings} {before l : List ScopeEntry} :
    (∀ step ∈ names before l, step.check settings = .ok ()) ↔
      (∀ e ∈ before, ∀ e' ∈ l, sameName e.name e'.name = false) ∧
        l.Pairwise fun a b => sameName a.name b.name = false := by
  induction l generalizing before with
  | nil => simp [names]
  | cons entry l ih =>
      have hfirst : (ScopeStep.name before entry).check settings = .ok () ↔
          ∀ e ∈ before, sameName e.name entry.name = false := by
        simp [check]
      rw [names, List.forall_mem_cons, ih, hfirst, List.pairwise_cons]
      simp only [List.mem_append, List.mem_cons, or_imp, forall_and, forall_eq]
      tauto

/-- A query whose names pass has no name twice. -/
theorem Query.namesDistinct_of_steps {settings : Settings} {q : Query}
    (h : ∀ step ∈ q.steps, step.check settings = .ok ()) : q.NamesDistinct :=
  (ScopeStep.forall_names.1 fun step hstep => h step (mem_steps_of_mem_names hstep)).2

end TypedSelect
