/-
Which queries are one to SQL, and whether they pass together.

SQL reads names without regard to case, so two queries that differ in the
case of their names only are one to it. This module says which checks can
tell them apart.

# Names

Two queries that are equal in lower case have the same steps in lower
case, and a step passes when it passes in lower case, because names of a
scope compare without regard to case. So the check of names cannot tell
them apart. That the steps of a query in lower case are its steps in lower
case is shown node by node, and each lemma is one line where the node's
references are put together from those of its parts.

# Outputs

The rules of validity can, in one place: a key of a sort is looked for
among the outputs letter for letter, so of two such queries one may be
refused for an output that it has in another case. All the other rules are
the same for both (`ClausesValid`), and the outputs that a sort names are
checked last, so the error is theirs.
-/
import TypedSelect.Proofs.Query.Folding
import TypedSelect.Proofs.Scope.Agreement
import TypedSelect.Proofs.Scope.Steps

namespace TypedSelect

open Check

-- ========================================================= references

/-- The references of a node in lower case are its references in lower
case. -/
theorem Operand.references_folded (o : Operand) :
    o.folded.references = o.references.map QualifiedColumn.folded := by
  cases o <;> rfl

/-- Those of an operation are of its two sides. -/
theorem Arithmetic.references_folded (a : Arithmetic) :
    a.folded.references = a.references.map QualifiedColumn.folded := by
  simp [references, folded, Operand.references_folded]

/-- Those of an aggregate are of its input, if it has one. -/
theorem AggregateExpr.references_folded (a : AggregateExpr) :
    a.folded.references = a.references.map QualifiedColumn.folded := by
  have hinput : ∀ i : AggregateInput,
      i.folded.references = i.references.map QualifiedColumn.folded := by
    intro i
    cases i with
    | column c => rfl
    | arithmetic a => exact a.references_folded
  simp [references, folded, hinput, List.map_flatMap, List.flatMap_map, Option.toList_map]

/-- A key of a sort has one if it is a column. -/
theorem OrderItem.references_folded (i : OrderItem) :
    i.folded.references = i.references.map QualifiedColumn.folded := by
  unfold references folded SortKey.folded
  cases i.key <;> rfl

/-- Those of a window are its column and those it is split and sorted by. -/
theorem WindowExpr.references_folded (w : WindowExpr) :
    w.folded.references = w.references.map QualifiedColumn.folded := by
  simp [references, folded, OrderItem.references_folded, List.map_flatMap, List.flatMap_map,
    Option.toList_map]

/-- A result has one if it is a column. -/
theorem CaseResult.references_folded (r : CaseResult) :
    r.folded.references = r.references.map QualifiedColumn.folded := by
  cases r <;> rfl

/-- Those of a CASE are of its branches and of its ELSE. -/
theorem CaseExpr.references_folded (c : CaseExpr) :
    c.folded.references = c.references.map QualifiedColumn.folded := by
  have hbranch : ∀ b : CaseBranch,
      b.folded.references = b.references.map QualifiedColumn.folded := by
    intro b
    simp [CaseBranch.references, CaseBranch.folded, Comparison.folded,
      CaseResult.references_folded]
  simp [references, folded, hbranch, CaseResult.references_folded, List.map_flatMap,
    List.flatMap_map, Option.toList_map]

/-- Those of an item are those of its kind. -/
theorem SelectExpr.references_folded (e : SelectExpr) :
    e.folded.references = e.references.map QualifiedColumn.folded := by
  cases e with
  | column e => rfl
  | binary e => exact e.arithmetic.references_folded
  | compound e =>
      simp [references, folded, CompoundArithmetic.folded, Arithmetic.references_folded,
        Operand.references_folded]
  | aggregate e => exact e.references_folded
  | window e => exact e.references_folded
  | case e => exact e.references_folded

theorem ConditionGroup.references_folded (g : ConditionGroup) :
    g.folded.references = g.references.map QualifiedColumn.folded := by
  have hcondition : ∀ c : Condition,
      c.folded.references = c.references.map QualifiedColumn.folded := by
    intro c
    cases c <;> rfl
  simp [references, folded, hcondition, List.map_flatMap, List.flatMap_map]

/-- Those of a filter are of its groups and its ranges. -/
theorem Filter.references_folded (w : Filter) :
    w.folded.references = w.references.map QualifiedColumn.folded := by
  simp [references, folded, ConditionGroup.references_folded, Between.folded, List.map_flatMap,
    List.flatMap_map]

/-- Those of a derived table are of its items and its filter. -/
theorem DerivedTable.references_folded (d : DerivedTable) :
    d.folded.references = d.references.map QualifiedColumn.folded := by
  simp [references, folded, SelectExpr.references_folded, Filter.references_folded,
    List.map_flatMap, List.flatMap_map, Option.toList_map]

/-- Those of a subquery are of its aggregate and its filter. -/
theorem ScalarSubquery.references_folded (q : ScalarSubquery) :
    q.folded.references = q.references.map QualifiedColumn.folded := by
  simp [references, folded, AggregateExpr.references_folded, Filter.references_folded,
    List.map_flatMap, List.flatMap_map, Option.toList_map]

theorem Join.references_folded (j : Join) :
    j.folded.references = j.references.map QualifiedColumn.folded := by
  simp [references, folded, ConditionGroup.references_folded, List.map_flatMap,
    List.flatMap_map]

/-- Those of HAVING are the columns of its tests. -/
theorem Having.references_folded (h : Having) :
    h.folded.references = h.references.map QualifiedColumn.folded := by
  simp [references, folded, HavingCondition.folded, List.filterMap_map, List.map_filterMap,
    Function.comp_def]

theorem OrderBy.references_folded (o : OrderBy) :
    o.folded.references = o.references.map QualifiedColumn.folded := by
  simp [references, folded, OrderItem.references_folded, List.map_flatMap, List.flatMap_map]

-- ============================================================== steps

/-- A name of a scope in lower case. -/
def ScopeEntry.folded (e : ScopeEntry) : ScopeEntry := { e with name := lowered e.name }

/-- A table comes into scope under its alias in lower case; its own name is
in lower case anyway. -/
theorem ScopeEntry.folded_ofTable (table : Table) (aliasName : Option String) :
    (ofTable table aliasName).folded = ofTable table (aliasName.map lowered) := by
  cases aliasName with
  | some name => rfl
  | none => simp [ofTable, folded, lowered_table]

/-- A step in lower case. -/
def ScopeStep.folded : ScopeStep → ScopeStep
  | name before entry => name (before.map ScopeEntry.folded) entry.folded
  | reference entries outer column =>
    reference (entries.map ScopeEntry.folded) (outer.map (List.map ScopeEntry.folded))
      column.folded

/-- A step passes when it passes in lower case. What is compared are names,
and they compare without regard to case. -/
theorem ScopeStep.check_folded (settings : Settings) (step : ScopeStep) :
    step.folded.check settings = .ok () ↔ step.check settings = .ok () := by
  cases step with
  | name before entry => simp [check, folded, ScopeEntry.folded]
  | reference entries outer column =>
      have hanswers : ∀ (name : String) (e : ScopeEntry),
          Scope.answers ⟨settings, entries.map ScopeEntry.folded,
              outer.map (List.map ScopeEntry.folded)⟩ (lowered name) e.folded =
            Scope.answers ⟨settings, entries, outer⟩ name e := by
        intro name e
        rw [Scope.answers, Scope.answers, ScopeEntry.folded, sameName_lowered]
      cases hq : column.qualifier <;>
        simp [check, folded, Scope.resolve, Scope.admits, Scope.contains, QualifiedColumn.folded,
          hq, hanswers, Function.comp_def]

/-- The name of a source's table in lower case. -/
theorem FromClause.tableEntries_folded (f : FromClause) :
    f.folded.tableEntries = f.tableEntries.map ScopeEntry.folded := by
  simp [tableEntries, folded, ScopeEntry.folded_ofTable]

/-- The names of a source before its joins, in lower case. -/
theorem FromClause.firstEntries_folded (f : FromClause) :
    f.folded.firstEntries = f.firstEntries.map ScopeEntry.folded := by
  rw [firstEntries, tableEntries_folded, firstEntries]
  simp [folded, Option.toList_map, Function.comp_def, DerivedTable.entry, DerivedTable.folded,
    ScopeEntry.folded]

theorem Join.entry_folded (j : Join) : j.folded.entry = j.entry.folded :=
  (ScopeEntry.folded_ofTable j.table j.aliasName).symm

/-- All names of a source in lower case, in their order. -/
theorem FromClause.entries_folded (f : FromClause) :
    f.folded.entries = f.entries.map ScopeEntry.folded := by
  rw [entries, firstEntries_folded, entries]
  simp [folded, Join.entry_folded]

/-- The steps of joins in lower case, each behind the names before it. -/
theorem Join.allSteps_folded (before : List ScopeEntry) (joins : List Join) :
    allSteps (before.map ScopeEntry.folded) (joins.map folded) =
      (allSteps before joins).map ScopeStep.folded := by
  induction joins generalizing before with
  | nil => rfl
  | cons j joins ih =>
      have hnext := ih (before ++ [j.entry])
      rw [List.map_append, List.map_singleton] at hnext
      simp [allSteps, steps, entry_folded, references_folded, hnext, ScopeStep.folded]

/-- The steps of a derived table in lower case. -/
theorem DerivedTable.steps_folded (before : List ScopeEntry) (d : DerivedTable) :
    d.folded.steps (before.map ScopeEntry.folded) = (d.steps before).map ScopeStep.folded := by
  have hown : ScopeEntry.ofTable d.table none = (ScopeEntry.ofTable d.table none).folded :=
    (ScopeEntry.folded_ofTable d.table none).symm
  have hentry : d.folded.entry = d.entry.folded := rfl
  have htable : d.folded.table = d.table := rfl
  simp [steps, references_folded, hentry, htable, ScopeStep.folded, ← hown]

theorem FromClause.steps_folded (f : FromClause) :
    f.folded.steps = f.steps.map ScopeStep.folded := by
  have hjoins : f.folded.joins = f.joins.map Join.folded := rfl
  have hderived : f.folded.derived = f.derived.map DerivedTable.folded := rfl
  rw [steps, tableEntries_folded, firstEntries_folded, hjoins, hderived, Join.allSteps_folded]
  simp [steps, ScopeStep.folded, Option.toList_map, List.flatMap_map, List.map_flatMap,
    DerivedTable.steps_folded]

/-- The steps of a test against a subquery in lower case. -/
theorem SubqueryCondition.steps_folded (top : List ScopeEntry) (p : SubqueryCondition) :
    p.folded.steps (top.map ScopeEntry.folded) = (p.steps top).map ScopeStep.folded := by
  have hentry : p.folded.subquery.entry = p.subquery.entry.folded :=
    (ScopeEntry.folded_ofTable p.subquery.table p.subquery.aliasName).symm
  have hsubquery : p.folded.subquery = p.subquery.folded := rfl
  have hcolumn : p.folded.column = p.column.folded := rfl
  rw [steps, hentry, hsubquery, hcolumn, ScalarSubquery.references_folded]
  simp [steps, ScopeStep.folded]

/-- The steps of a query in lower case are its steps in lower case. -/
theorem Query.steps_folded (q : Query) : q.folded.steps = q.steps.map ScopeStep.folded := by
  have hsource : q.folded.source = q.source.folded := rfl
  have hreference : ScopeStep.folded ∘ .reference q.source.entries [] =
      .reference (q.source.entries.map ScopeEntry.folded) [] ∘ QualifiedColumn.folded := rfl
  rw [steps, clauseSteps, hsource, FromClause.steps_folded, FromClause.entries_folded, steps,
    clauseSteps]
  simp [folded, Option.toList_map, List.flatMap_map, List.map_flatMap, TopFilter.folded,
    Filter.references_folded, SubqueryCondition.steps_folded, SelectExpr.references_folded,
    Having.references_folded, OrderBy.references_folded, hreference]

/-- The check of names passes a query when it passes it in lower case. -/
theorem Query.checkScope_folded (settings : Settings) (q : Query) :
    q.folded.checkScope settings = .ok () ↔ q.checkScope settings = .ok () := by
  rw [checkScope_eq_each, checkScope_eq_each, steps_folded, each_eq_ok, each_eq_ok,
    List.forall_mem_map]
  exact forall₂_congr fun step _ => step.check_folded settings

-- ============================================================ outputs

/-- Every rule holds, except that the sort may name outputs that do not
exist. -/
def Query.ClausesValid (q : Query) : Prop :=
  q.select ≠ [] ∧ (∀ e ∈ q.select, e.validate = .ok ()) ∧ q.source.validate = .ok () ∧
    (∀ w ∈ q.filter, w.validate = .ok ()) ∧ (∀ g ∈ q.groupBy, g.validate = .ok ()) ∧
    (∀ h ∈ q.having, h.validate = .ok ()) ∧ ∀ o ∈ q.orderBy, o.validate = .ok ()

/-- The output that a key of a sort names, if it names one. -/
def OrderItem.output? (i : OrderItem) : Option String :=
  match i.key with
  | .column _ => none
  | .output name => some name

/-- The outputs that the sort names. -/
def Query.sortOutputs (q : Query) : List String :=
  q.orderBy.toList.flatMap fun o => o.items.filterMap OrderItem.output?

/-- Every output that the sort names exists, letter for letter. -/
def Query.SortsByOutputs (q : Query) : Prop := ∀ name ∈ q.sortOutputs, name ∈ q.selectAliases

instance (q : Query) : Decidable q.SortsByOutputs :=
  inferInstanceAs (Decidable (∀ name ∈ q.sortOutputs, name ∈ q.selectAliases))

/-- The clauses are valid in lower case when they are. -/
theorem Query.clausesValid_folded {q : Query} : q.folded.ClausesValid ↔ q.ClausesValid := by
  simp [ClausesValid, folded]

theorem Query.selectAliases_folded (q : Query) :
    q.folded.selectAliases = q.selectAliases.map lowered := by
  have halias : ∀ e : SelectExpr, e.folded.aliasName? = e.aliasName?.map lowered := by
    intro e
    cases e <;> rfl
  simp [selectAliases, folded, List.filterMap_map, List.map_filterMap, halias]

/-- The outputs that a sort names, in lower case. -/
theorem Query.sortOutputs_folded (q : Query) :
    q.folded.sortOutputs = q.sortOutputs.map lowered := by
  have houtput : ∀ i : OrderItem, i.folded.output? = i.output?.map lowered := by
    intro i
    unfold OrderItem.output? OrderItem.folded SortKey.folded
    cases i.key <;> rfl
  simp [sortOutputs, folded, OrderBy.folded, Option.toList_map, List.flatMap_map, List.map_flatMap,
    List.filterMap_map, List.map_filterMap, houtput]

/-- A key is checked against the outputs if it names one. -/
theorem OrderItem.validateAgainst_eq (outputs : List String) (i : OrderItem) :
    i.validateAgainst outputs = optional
      (fun name => require (outputs.contains name) (.unknownSelectAlias name)) i.output? := by
  unfold validateAgainst output?
  cases i.key <;> rfl

/-- Of a query whose clauses are valid, only the outputs that its sort
names are left to check. -/
theorem Query.validate_of_clausesValid {q : Query} (h : q.ClausesValid) :
    q.validate = each (fun name => require (q.selectAliases.contains name)
      (.unknownSelectAlias name)) q.sortOutputs := by
  obtain ⟨hselect, hexprs, hsource, hfilter, hgroup, hhaving, horder⟩ := h
  have hnonempty :
      require (!q.select.isEmpty) (ValidationError.empty .query "select") = .ok () := by
    simpa using hselect
  rw [validate, hnonempty, each_eq_ok.2 hexprs, hsource, optional_eq_ok.2 hfilter,
    optional_eq_ok.2 hgroup, optional_eq_ok.2 hhaving, sortOutputs, each_flatMap]
  cases ho : q.orderBy with
  | none => rfl
  | some o =>
      rw [Option.toList_some, each_singleton, each_filterMap,
        ← funext (OrderItem.validateAgainst_eq q.selectAliases)]
      show (do o.validate; each (OrderItem.validateAgainst q.selectAliases) o.items) = _
      rw [horder o ho]
      rfl

/-- A query is valid if its clauses are and its sort names outputs that
exist. -/
theorem Query.validate_eq_ok_iff {q : Query} :
    q.validate = .ok () ↔ q.ClausesValid ∧ q.SortsByOutputs := by
  have hclauses : q.validate = .ok () → q.ClausesValid := by
    intro h
    obtain ⟨hselect, hexprs, hsource, hfilter, hgroup, hhaving, horder⟩ := validate_eq_ok.1 h
    exact ⟨hselect, hexprs, hsource, hfilter, hgroup, hhaving, fun o ho => (horder o ho).1⟩
  constructor
  · intro h
    refine ⟨hclauses h, fun name hname => ?_⟩
    rw [validate_of_clausesValid (hclauses h), each_eq_ok] at h
    simpa using h name hname
  · rintro ⟨h, houtputs⟩
    rw [validate_of_clausesValid h, each_eq_ok]
    exact fun name hname => by simpa using houtputs name hname

/-- What a sort names in one of two queries that are one to SQL is in some
case an output of it, if the other sorts by outputs. -/
theorem Query.sameName_output {q q' : Query} (h : q.folded = q'.folded)
    (houtputs : q.SortsByOutputs) {key : String} (hkey : key ∈ q'.sortOutputs) :
    ∃ output ∈ q'.selectAliases, sameName key output = true := by
  have hlowered : lowered key ∈ q.sortOutputs.map lowered := by
    rw [← sortOutputs_folded, h, sortOutputs_folded]
    exact List.mem_map_of_mem hkey
  obtain ⟨key₀, hkey₀, hsame₀⟩ := List.mem_map.1 hlowered
  have houtput : lowered key₀ ∈ q'.selectAliases.map lowered := by
    rw [← selectAliases_folded, ← h, selectAliases_folded]
    exact List.mem_map_of_mem (houtputs key₀ hkey₀)
  obtain ⟨output, hmem, hsame⟩ := List.mem_map.1 houtput
  exact ⟨output, hmem, lowered_eq_lowered.1 (hsame₀.symm.trans hsame.symm)⟩

-- ======================================================= main results

/-- Of two queries that are one to SQL, the check of names passes both or
neither, and they are valid together unless the outputs that the sort
names exist in one of them only. Where one is valid and the other is not,
the other names an output that it has in another case, and that is why it
is refused. -/
theorem Query.case_decides_outputs_only {q q' : Query} (h : q.folded = q'.folded) :
    (q.checkAliases = .ok () ↔ q'.checkAliases = .ok ()) ∧
    ((q.SortsByOutputs ↔ q'.SortsByOutputs) → (q.validate = .ok () ↔ q'.validate = .ok ())) ∧
    (q.validate = .ok () → q'.validate ≠ .ok () →
      ∃ key ∈ q'.sortOutputs, ∃ output ∈ q'.selectAliases, sameName key output = true ∧
        key ∉ q'.selectAliases ∧ q'.validate = .error (.unknownSelectAlias key)) := by
  have hclauses : q.ClausesValid ↔ q'.ClausesValid := by
    rw [← clausesValid_folded, h, clausesValid_folded]
  refine ⟨?names, ?rules, ?refusal⟩
  case names =>
    rw [checkAliases_eq_ok, checkAliases_eq_ok, ← checkScope_folded, h, checkScope_folded]
  case rules =>
    intro houtputs
    rw [validate_eq_ok_iff, validate_eq_ok_iff, hclauses, houtputs]
  case refusal =>
    intro hq hq'
    obtain ⟨hvalid, houtputs⟩ := validate_eq_ok_iff.1 hq
    cases hfault : q'.validate with
    | ok _ => exact absurd hfault hq'
    | error e =>
        -- the clauses of the one are as valid as those of the other, so an output is missing
        rw [validate_of_clausesValid (hclauses.1 hvalid)] at hfault
        obtain ⟨key, hkey, hrequire⟩ := each_eq_error hfault
        have hmissing : key ∉ q'.selectAliases := by
          intro hmem
          simp [require, hmem] at hrequire
        obtain rfl : .unknownSelectAlias key = e := by simpa [require, hmissing] using hrequire
        obtain ⟨output, houtput, hsame⟩ := sameName_output h houtputs hkey
        exact ⟨key, hkey, output, houtput, hsame, hmissing, rfl⟩

/-- A column under a new name, by which the rows are sorted: the names of
the table and of the output, each as it is introduced and as it is used. -/
def Query.cased (table qualifier output key : String) : Query :=
  ((start (.aliased .productOffers table)).addSelect
    [.column ((ColumnExpr.qualified qualifier .title).withAlias output)]).withOrderBy
      ⟨[.by (.output key) .asc]⟩

/-- The spelling of a qualifier does not matter. -/
theorem Query.cased_passes :
    (cased "po" "Po" "Name" "Name").folded = (cased "PO" "pO" "name" "name").folded ∧
    (cased "po" "Po" "Name" "Name").validate = .ok () ∧
    (cased "PO" "pO" "name" "name").validate = .ok () ∧
    (cased "PO" "pO" "name" "name").checkAliases = .ok () := by
  have h : (cased "po" "Po" "Name" "Name").folded = (cased "PO" "pO" "name" "name").folded := by
    decide +kernel
  obtain ⟨hnames, hrules, -⟩ := case_decides_outputs_only h
  have hvalid : (cased "po" "Po" "Name" "Name").validate = .ok () := by decide +kernel
  have houtputs : (cased "po" "Po" "Name" "Name").SortsByOutputs ↔
      (cased "PO" "pO" "name" "name").SortsByOutputs := by decide +kernel
  exact ⟨h, hvalid, (hrules houtputs).1 hvalid, hnames.1 (by decide +kernel)⟩

/-- The spelling of a key does: the output is there, and the key of the
same name is refused. -/
theorem Query.cased_is_refused :
    (cased "po" "po" "Name" "Name").folded = (cased "po" "po" "Name" "name").folded ∧
    (cased "po" "po" "Name" "Name").validate = .ok () ∧
    (cased "po" "po" "Name" "Name").checkAliases = .ok () ∧
    (cased "po" "po" "Name" "name").validate = .error (.unknownSelectAlias "name") := by
  decide +kernel

end TypedSelect
