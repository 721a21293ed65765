/-
What a qualifier binds to.

SQL binds a qualifier to the first name that is one with it, looking into
the level of the reference and then into those around it. The check of
names does not stop there: it passes a reference if any of these names
answers. This module says where the two differ.

# References and levels

`Query.Sees` is a reference of a query with the levels of names that it
sees, by where the reference stands: in the ON of a join, in a derived
table, in a subquery, or in any other clause. It is a reading of the query
and does not mention the check. `Query.mem_steps_reference` says that the
check looks up just these references, each from just these levels, so what
is known of the steps is known of them.

# The one difference

Where tables may not go by their own names, a subquery over a table
without an alias hides an alias of its query that is that table's name,
and the check looks past the table and finds the alias (`HidesAlias`).
Everywhere else a qualifier that passes is bound to an alias, because a
level has no name twice. The main result puts this as an equivalence, for
all settings of this kind, and the query at the end has the difference.
-/
import TypedSelect.Proofs.Scope.Agreement
import TypedSelect.Proofs.Scope.Steps

namespace TypedSelect

open Check (each_eq_ok)

-- ========================================================= references

/-- The references in the clauses of a query that are not inside a
subquery. -/
def Query.clauseReferences (q : Query) : List QualifiedColumn :=
  q.select.flatMap SelectExpr.references ++
    q.filter.toList.flatMap (fun w =>
      w.references ++ w.subqueries.map SubqueryCondition.column) ++
    q.having.toList.flatMap Having.references ++
    q.orderBy.toList.flatMap OrderBy.references

/-- A reference of a query, with the levels of names that it sees, the
innermost first. -/
inductive Query.Sees (q : Query) : List (List ScopeEntry) → QualifiedColumn → Prop
  /-- The ON of a join sees the source up to the join. -/
  | on {before after : List Join} {j : Join} {c : QualifiedColumn}
      (joins : q.source.joins = before ++ j :: after) (mem : c ∈ j.references) :
      Sees q [q.source.firstEntries ++ before.map Join.entry ++ [j.entry]] c
  /-- A derived table sees its own table only. -/
  | derived {d : DerivedTable} {c : QualifiedColumn} (source : d ∈ q.source.derived)
      (mem : c ∈ d.references) : Sees q [[.ofTable d.table none]] c
  /-- A subquery sees its own table and then the source. -/
  | subquery {w : TopFilter} {p : SubqueryCondition} {c : QualifiedColumn} (filter : w ∈ q.filter)
      (test : p ∈ w.subqueries) (mem : c ∈ p.subquery.references) :
      Sees q [[p.subquery.entry], q.source.entries] c
  /-- Everything else sees the source. -/
  | clause {c : QualifiedColumn} (mem : c ∈ q.clauseReferences) : Sees q [q.source.entries] c

/-- The references among the steps that look up some columns in one
place. -/
theorem ScopeStep.mem_references {top entries : List ScopeEntry}
    {around outer : List (List ScopeEntry)} {c : QualifiedColumn} {l : List QualifiedColumn} :
    reference entries outer c ∈ l.map (reference top around) ↔
      c ∈ l ∧ outer = around ∧ entries = top := by
  rw [List.mem_map]
  constructor
  · rintro ⟨c, hc, heq⟩
    cases heq
    exact ⟨hc, rfl, rfl⟩
  · rintro ⟨hc, rfl, rfl⟩
    exact ⟨c, hc, rfl⟩

/-- A derived table looks its references up in its own table, between the
two names that it brings in. -/
theorem DerivedTable.mem_steps_reference {before entries : List ScopeEntry}
    {outer : List (List ScopeEntry)} {d : DerivedTable} {c : QualifiedColumn} :
    .reference entries outer c ∈ d.steps before ↔
      c ∈ d.references ∧ outer = [] ∧ entries = [.ofTable d.table none] := by
  simp [steps, ScopeStep.mem_references]

/-- The references among the steps of joins are those of each ON, which sees
the joins before it and its own. -/
theorem Join.mem_allSteps_reference {before entries : List ScopeEntry}
    {outer : List (List ScopeEntry)} {joins : List Join} {c : QualifiedColumn} :
    .reference entries outer c ∈ allSteps before joins ↔
      ∃ first j rest, joins = first ++ j :: rest ∧ c ∈ j.references ∧ outer = [] ∧
        entries = before ++ first.map entry ++ [j.entry] := by
  induction joins generalizing before with
  | nil => simp [allSteps]
  | cons j joins ih =>
      rw [allSteps, steps, List.mem_append, ih]
      constructor
      · rintro (h | ⟨first, j', rest, rfl, hc, rfl, rfl⟩)
        · rcases List.mem_cons.1 h with heq | h
          · cases heq
          · obtain ⟨hc, rfl, rfl⟩ := ScopeStep.mem_references.1 h
            exact ⟨[], j, joins, rfl, hc, rfl, by simp⟩
        · exact ⟨j :: first, j', rest, rfl, hc, rfl, by simp⟩
      · rintro ⟨_ | ⟨j₀, first⟩, j', rest, heq, hc, rfl, rfl⟩
        · cases heq
          exact .inl (by simpa using hc)
        · cases heq
          exact .inr ⟨first, j', rest, rfl, hc, rfl, by simp⟩

/-- The references of a source are those of its derived table and those of
its joins. -/
theorem FromClause.mem_steps_reference {f : FromClause} {entries : List ScopeEntry}
    {outer : List (List ScopeEntry)} {c : QualifiedColumn} :
    .reference entries outer c ∈ f.steps ↔
      (∃ d ∈ f.derived, c ∈ d.references ∧ outer = [] ∧ entries = [.ofTable d.table none]) ∨
        ∃ first j rest, f.joins = first ++ j :: rest ∧ c ∈ j.references ∧ outer = [] ∧
          entries = f.firstEntries ++ first.map Join.entry ++ [j.entry] := by
  rw [steps, List.mem_append, Join.mem_allSteps_reference]
  refine or_congr_left ?_
  cases f.derived with
  | none => simp
  | some d => simp [DerivedTable.mem_steps_reference]

/-- The references of tests against subqueries are the columns of the tests,
from the source, and those inside, from two levels. -/
theorem SubqueryCondition.mem_steps_reference {top entries : List ScopeEntry}
    {outer : List (List ScopeEntry)} {c : QualifiedColumn} {l : List SubqueryCondition} :
    .reference entries outer c ∈ l.flatMap (SubqueryCondition.steps top) ↔
      (c ∈ l.map SubqueryCondition.column ∧ outer = [] ∧ entries = top) ∨
        ∃ p ∈ l, c ∈ p.subquery.references ∧ outer = [top] ∧ entries = [p.subquery.entry] := by
  rw [List.mem_flatMap]
  constructor
  · rintro ⟨p, hp, h⟩
    rcases List.mem_cons.1 h with heq | h
    · cases heq
      exact .inl ⟨List.mem_map_of_mem hp, rfl, rfl⟩
    · rcases List.mem_cons.1 h with heq | h
      · cases heq
      · obtain ⟨hc, rfl, rfl⟩ := ScopeStep.mem_references.1 h
        exact .inr ⟨p, hp, hc, rfl, rfl⟩
  · rintro (⟨hc, rfl, rfl⟩ | ⟨p, hp, hc, rfl, rfl⟩)
    · obtain ⟨p, hp, rfl⟩ := List.mem_map.1 hc
      exact ⟨p, hp, List.mem_cons_self⟩
    · exact ⟨p, hp, List.mem_cons_of_mem _ (List.mem_cons_of_mem _ (List.mem_map_of_mem hc))⟩

/-- The references of the clauses after the source see the source, except
inside a subquery. -/
theorem Query.mem_clauseSteps_reference {q : Query} {entries : List ScopeEntry}
    {outer : List (List ScopeEntry)} {c : QualifiedColumn} :
    .reference entries outer c ∈ q.clauseSteps ↔
      (c ∈ q.clauseReferences ∧ outer = [] ∧ entries = q.source.entries) ∨
        ∃ w ∈ q.filter, ∃ p ∈ w.subqueries, c ∈ p.subquery.references ∧
          outer = [q.source.entries] ∧ entries = [p.subquery.entry] := by
  unfold clauseSteps clauseReferences
  simp only [List.mem_append, ScopeStep.mem_references]
  cases q.filter with
  | none =>
      simp only [Option.toList_none, List.flatMap_nil, List.not_mem_nil, Option.mem_def,
        reduceCtorEq, false_and, exists_false, or_false, or_and_right]
  | some w =>
      simp only [Option.toList_some, List.flatMap_singleton, List.mem_append,
        ScopeStep.mem_references, SubqueryCondition.mem_steps_reference, Option.mem_def,
        Option.some.injEq, exists_eq_left']
      grind

/-- The references that the check looks up are the references of the query,
each from the levels that it sees. -/
theorem Query.mem_steps_reference {q : Query} {entries : List ScopeEntry}
    {outer : List (List ScopeEntry)} {c : QualifiedColumn} :
    .reference entries outer c ∈ q.steps ↔ q.Sees (entries :: outer) c := by
  rw [steps, List.mem_append, FromClause.mem_steps_reference, mem_clauseSteps_reference]
  constructor
  · rintro ((⟨d, hd, hc, rfl, rfl⟩ | ⟨first, j, rest, hj, hc, rfl, rfl⟩) |
      ⟨hc, rfl, rfl⟩ | ⟨w, hw, p, hp, hc, rfl, rfl⟩)
    · exact .derived hd hc
    · exact .on hj hc
    · exact .clause hc
    · exact .subquery hw hp hc
  · intro h
    cases h with
    | on hj hc => exact .inl (.inr ⟨_, _, _, hj, hc, rfl, rfl⟩)
    | derived hd hc => exact .inl (.inl ⟨_, hd, hc, rfl, rfl⟩)
    | subquery hw hp hc => exact .inr (.inr ⟨_, hw, _, hp, hc, rfl, rfl⟩)
    | clause hc => exact .inr (.inl ⟨hc, rfl, rfl⟩)

-- ============================================================= binding

namespace ScopeEntry

/-- The name that SQL binds a qualifier to: the first that is one with
it. -/
def bound? (levels : List (List ScopeEntry)) (qualifier : String) : Option ScopeEntry :=
  levels.flatten.find? fun e => sameName e.name qualifier

/-- The innermost level has a table under its own name, which is the
qualifier, and a level around it has an alias that is the qualifier too. -/
def HidesAlias : List (List ScopeEntry) → String → Prop
  | [], _ => False
  | level :: outer, qualifier =>
    (∃ e ∈ level, e.aliased = false ∧ sameName e.name qualifier = true) ∧
      ∃ e ∈ outer.flatten, e.aliased = true ∧ sameName e.name qualifier = true

/-- No two names of a level are one to SQL. -/
def Distinct (level : List ScopeEntry) : Prop :=
  level.Pairwise fun a b => sameName a.name b.name = false

/-- A name is that of one entry of a level only. Two entries with a name in
common would be the same but for case, which is what is excluded. -/
theorem Distinct.eq {level : List ScopeEntry} (h : Distinct level) {a b : ScopeEntry}
    {name : String} (ha : a ∈ level) (hb : b ∈ level) (haname : sameName a.name name = true)
    (hbname : sameName b.name name = true) : a = b := by
  rw [sameName_iff] at haname hbname
  have hdiffer : level.Pairwise fun a b => foldCase a.name ≠ foldCase b.name :=
    h.imp fun hab => by rwa [ne_eq, ← sameName_iff, Bool.not_eq_true]
  induction hdiffer with
  | nil => cases ha
  | cons hrest _ ih =>
      rw [List.mem_cons] at ha hb
      obtain rfl | ha := ha <;> obtain rfl | hb := hb
      · rfl
      · exact absurd (haname.trans hbname.symm) (hrest _ hb)
      · exact absurd (hbname.trans haname.symm) (hrest _ ha)
      · exact ih (List.pairwise_cons.1 h).2 ha hb

/-- A qualifier that some alias answers to is bound to an alias, unless the
innermost level hides it. -/
theorem bound?_of_alias {level : List ScopeEntry} {outer : List (List ScopeEntry)}
    {qualifier : String} {a : ScopeEntry} (hlevel : Distinct level)
    (houter : Distinct outer.flatten) (ha : a ∈ (level :: outer).flatten)
    (haliased : a.aliased = true) (hname : sameName a.name qualifier = true) :
    ∃ e, bound? (level :: outer) qualifier = some e ∧
      (e.aliased = true ↔ ¬ HidesAlias (level :: outer) qualifier) := by
  rw [bound?, List.flatten_cons, List.find?_append]
  rw [List.flatten_cons, List.mem_append] at ha
  cases hfound : level.find? fun e => sameName e.name qualifier with
  | some e =>
      -- the level has the name once, so whatever else has it there is this entry
      have hmem := List.mem_of_find?_eq_some hfound
      have hsame : sameName e.name qualifier = true := by simpa using List.find?_some hfound
      refine ⟨e, rfl, ?_, ?_⟩
      · rintro he ⟨⟨b, hb, hbare, hbname⟩, -⟩
        rw [hlevel.eq hmem hb hsame hbname, hbare] at he
        cases he
      · intro hhides
        by_contra hbare
        rw [Bool.not_eq_true] at hbare
        rcases ha with ha | ha
        · rw [hlevel.eq hmem ha hsame hname, haliased] at hbare
          cases hbare
        · exact hhides ⟨⟨e, hmem, hbare, hsame⟩, a, ha, haliased, hname⟩
  | none =>
      -- the alias is further out, and nothing in this level hides it
      rw [List.find?_eq_none] at hfound
      have ha : a ∈ outer.flatten := ha.resolve_left fun h => hfound a h hname
      obtain ⟨e, he⟩ : ∃ e, bound? outer qualifier = some e :=
        Option.isSome_iff_exists.1 (List.find?_isSome.2 ⟨a, ha, by simpa using hname⟩)
      have hsame : sameName e.name qualifier = true := by simpa using List.find?_some he
      have heq := houter.eq (List.mem_of_find?_eq_some he) ha hsame hname
      refine ⟨e, he, fun _ => ?_, fun _ => by rw [heq, haliased]⟩
      rintro ⟨⟨b, hb, -, hbname⟩, -⟩
      exact hfound b hb hbname

end ScopeEntry

open ScopeEntry (bound? HidesAlias Distinct bound?_of_alias)

/-- Where the names of the source are distinct, so are those of every
level that a reference sees. -/
theorem Query.Sees.distinct {q : Query} (hq : q.NamesDistinct) {level : List ScopeEntry}
    {outer : List (List ScopeEntry)} {c : QualifiedColumn} (h : q.Sees (level :: outer) c) :
    Distinct level ∧ Distinct outer.flatten := by
  have hsource : Distinct q.source.entries := hq
  cases h with
  | @on before after j _ joins mem =>
      refine ⟨?_, .nil⟩
      rw [FromClause.entries, joins, List.map_append, List.map_cons] at hsource
      refine hsource.sublist (List.IsPrefix.sublist ⟨after.map Join.entry, ?_⟩)
      rw [List.append_assoc, List.append_assoc, List.singleton_append]
  | derived source mem => exact ⟨List.pairwise_singleton .., .nil⟩
  | subquery filter test mem =>
      exact ⟨List.pairwise_singleton .., by rwa [List.flatten_singleton]⟩
  | clause mem => exact ⟨hsource, .nil⟩

/-- Where tables may not go by their own names, an alias answers to every
qualifier that passes. -/
theorem Scope.alias_of_admits {settings : Settings} (hchecks : settings.checkAliases = true)
    (hstrict : settings.allowTableNames = false) {entries : List ScopeEntry}
    {outer : List (List ScopeEntry)} {c : QualifiedColumn} {qualifier : String}
    (hqualifier : c.qualifier = some qualifier)
    (h : Scope.admits ⟨settings, entries, outer⟩ c = true) :
    ∃ a ∈ (entries :: outer).flatten, a.aliased = true ∧ sameName a.name qualifier = true := by
  rw [admits, hqualifier, hchecks] at h
  obtain ⟨level, hlevel, a, ha, hanswers⟩ : ∃ level ∈ entries :: outer, ∃ a ∈ level,
      answers ⟨settings, entries, outer⟩ qualifier a = true := by
    simpa [contains] using h
  rw [answers, hstrict, Bool.or_false, Bool.and_eq_true] at hanswers
  exact ⟨a, List.mem_flatten.2 ⟨level, hlevel, ha⟩, hanswers.2, hanswers.1⟩

-- ======================================================== main results

/-- Where references are checked and tables may not go by their own names,
every qualifier of a query that passes is bound, and it is bound to an
alias unless a subquery's table hides one under its own name. -/
theorem Query.qualifiers_bind_aliases {settings : Settings} (hchecks : settings.checkAliases = true)
    (hstrict : settings.allowTableNames = false) {q : Query}
    (hq : q.checkScope settings = .ok ()) {levels : List (List ScopeEntry)} {c : QualifiedColumn}
    {qualifier : String} (hsees : q.Sees levels c) (hqualifier : c.qualifier = some qualifier) :
    ∃ e, bound? levels qualifier = some e ∧
      (e.aliased = true ↔ ¬ HidesAlias levels qualifier) := by
  obtain ⟨entries, outer, rfl⟩ : ∃ entries outer, levels = entries :: outer := by
    cases hsees <;> exact ⟨_, _, rfl⟩
  rw [checkScope_eq_each, each_eq_ok] at hq
  have hstep := hq _ (mem_steps_reference.2 hsees)
  have hadmits : Scope.admits ⟨settings, entries, outer⟩ c = true := by
    by_contra hnot
    rw [ScopeStep.check, Scope.resolve, if_neg hnot] at hstep
    cases hstep
  obtain ⟨a, ha, haliased, hname⟩ := Scope.alias_of_admits hchecks hstrict hqualifier hadmits
  obtain ⟨hlevel, houter⟩ := hsees.distinct (namesDistinct_of_steps hq)
  exact bound?_of_alias hlevel houter ha haliased hname

/-- The subquery of the sample sees an alias of the query around it, and
is bound to it. -/
theorem Query.sample_binds_aliases :
    sample.checkScope ⟨true, false, false⟩ = .ok () ∧
    sample.Sees [[⟨"m", true⟩], [⟨"d", true⟩, ⟨"h", true⟩]] ⟨some "d", .id⟩ ∧
    ∃ e, bound? [[⟨"m", true⟩], [⟨"d", true⟩, ⟨"h", true⟩]] "d" = some e ∧
      (e.aliased = true ↔ ¬ HidesAlias [[⟨"m", true⟩], [⟨"d", true⟩, ⟨"h", true⟩]] "d") := by
  have hc : sample.checkScope ⟨true, false, false⟩ = .ok () := by decide +kernel
  have hs : sample.Sees [[⟨"m", true⟩], [⟨"d", true⟩, ⟨"h", true⟩]] ⟨some "d", .id⟩ :=
    mem_steps_reference.1 (by decide)
  exact ⟨hc, hs, qualifiers_bind_aliases rfl rfl hc hs rfl⟩

/-- A test against a table without an alias, in a query that calls another
table by that table's name. -/
def SubqueryCondition.overshadowing : SubqueryCondition :=
  ⟨⟨some "product_matches", .price⟩, .eq, .ofTable .productMatches
    ⟨.max, some (.column ⟨some "product_matches", .matchScore⟩), false, none, "m"⟩⟩

/-- The query around that test. -/
def Query.overshadowed : Query :=
  ((start (.aliased .productOffers "product_matches")).addSelect
    [.column (.bare .title)]).withFilter { subqueries := [.overshadowing] }

/-- The check passes the qualifier for the alias, and SQL binds it to the
table of the subquery. -/
theorem Query.overshadowed_binds_table :
    overshadowed.validate = .ok () ∧ overshadowed.checkAliases = .ok () ∧
    overshadowed.checkScope ⟨true, false, false⟩ = .ok () ∧
    overshadowed.Sees [[⟨"product_matches", false⟩], [⟨"product_matches", true⟩]]
      ⟨some "product_matches", .matchScore⟩ ∧
    bound? [[⟨"product_matches", false⟩], [⟨"product_matches", true⟩]] "product_matches" =
      some ⟨"product_matches", false⟩ := by
  refine ⟨by decide +kernel, by decide +kernel, by decide +kernel, ?_, by decide +kernel⟩
  exact mem_steps_reference.1 (by decide)

end TypedSelect
