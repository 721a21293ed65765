/-
Filters, sources and whole queries read back.

Predicates are read group by group: several of them stand in parentheses,
so a parenthesis begins a group, and a column begins a predicate alone. A
subquery shows itself behind the operator. Of the clauses every one begins
with a keyword of its own, and the one before it has ended there.

# The main result

From it follows that the text determines the query (`text_determines`).
The argument is short once the reader is there. The text is scanned into
the tokens of the row, the tokens are read as the canonical form, and both
the scanner and the reader are functions. So two valid queries with one
text have one canonical form, in whatever settings each was written. That
the canonical form takes nothing more together than one text does is shown
where its renderings are.

# Connectives

Pieces with a connective between them are read as a list and a connective
(`connected`). A piece alone shows no connective, and the canonical form
has AND there. Where pieces are groups the same reader reads them, and
what keeps the two levels apart is the parentheses around a group of
several predicates.

# Filters

A range of a filter is written as a group of one predicate would be, so
the reader finds a group, and the canonical form has groups only. The
filter of a query has subqueries behind these, which are read as parts of
their own and sorted out at the end (`TopFilter.ofParts`).

# What may follow

A clause ends where the keyword of another one comes. The lists of tokens
with which a piece would go on become long towards the end of the module,
and a clause must not be followed by any token of its list. The order of
the clauses is what makes this so.
-/
import TypedSelect.Proofs.Sql.Reading.Expression
import TypedSelect.Proofs.Sql.Replacement

namespace TypedSelect

open Reader
open Traced (Yields yields_pure yields_then yields_each)

section

variable {s : Scope}

-- ============================================================= groups

namespace Reader

/-- Reads pieces with a connective between them; a piece alone has AND. -/
def connected {α : Type} (read : Reader α) : Reader (List α × Logic) := do
  let a ← read
  branch (next [.identifier "AND"])
    (do return (a :: (← many [.identifier "AND"] (do keyword "AND"; read)), .and))
    (branch (next [.identifier "OR"])
      (do return (a :: (← many [.identifier "OR"] (do keyword "OR"; read)), .or))
      (return ([a], .and)))

end Reader

/-- Reads predicates with a connective between them. -/
def ConditionGroup.readBody : Reader ConditionGroup := do
  let body ← connected Condition.read
  return ⟨body.1, body.2⟩

/-- Reads a group: several predicates in parentheses, or one alone. -/
def ConditionGroup.read : Reader ConditionGroup :=
  branch (next [.mark '(']) (Reader.parens readBody) (do return .single (← Condition.read))

/-- Reads the conditions of a join: a group alone, or several in
parentheses. -/
def Join.readOn : Reader (List ConditionGroup) :=
  branch (next [.mark '('])
    (Reader.separated (.identifier "AND") (Reader.parens ConditionGroup.readBody))
    (do return [← ConditionGroup.readBody])

/-- Pieces that no connective is part of. The reader learns the connective
from the first one that it meets, and keeps to it. -/
theorem reads_connected {α β : Type} {read : Reader β} {f : α → β} {l : List α}
    {rows : List Sql} {more : List Token} (logic : Logic) (hl : l ≠ [])
    (h : List.Forall₂ (fun a row => Reads read (Sql.tokens row) (f a) more) l rows)
    (hmore : Token.identifier "AND" ∉ more ∧ Token.identifier "OR" ∉ more) :
    Reads (connected read) (logic.join rows).tokens (l.map f, logic.among l.length)
      (.identifier "AND" :: .identifier "OR" :: more) := by
  cases h with
  | nil => exact absurd rfl hl
  | @cons a row l rows hrow hrows =>
      have hpieces : List.Forall₂ (fun a row => Reads read row a more) (l.map f)
          (rows.map Sql.tokens) :=
        List.forall₂_map_left_iff.2 (List.forall₂_map_right_iff.2 hrows)
      have htokens : (logic.join (row :: rows)).tokens =
          row.tokens ++ (rows.map Sql.tokens).flatMap (.identifier logic.name :: ·) := by
        rw [Logic.join, Sql.tokens_separated, List.flatMap_map]
        rfl
      rw [htokens]
      -- one piece shows no connective and is read with AND, as its canonical form has it
      cases hrows with
      | nil =>
          refine hrow.bind (.next_nil (.next_nil (.pure _ _) (by simp)) (by simp)) (closes_nil ?_)
          exact fun t ht => List.mem_cons_of_mem _ (List.mem_cons_of_mem _ ht)
      | cons hrow' hrows' =>
          cases logic with
          | and =>
              have hrest := (Reads.preceded hpieces hmore.1).map
                fun l => ((f a :: l, Logic.and) : List β × Logic)
              refine hrow.bind (.next_yes (hrest.mono ?_) (List.mem_singleton_self _))
                (closes_cons hmore.1)
              exact List.cons_subset_cons _ (List.subset_cons_self ..)
          | or =>
              have hrest := (Reads.preceded hpieces hmore.2).map
                fun l => ((f a :: l, Logic.or) : List β × Logic)
              refine hrow.bind (.next_no (.next_yes (hrest.mono ?_) (List.mem_singleton_self _))
                (by decide)) (closes_cons hmore.2)
              exact List.subset_cons_self ..

/-- The predicates of a group, one after the other. -/
theorem ConditionGroup.renderBody_yields {g : ConditionGroup} (h : g.validate = .ok ()) :
    (g.renderBody s).Yields fun row => ∃ rows, row = g.logic.join rows ∧
      List.Forall₂ (fun c row => c.canonical.ReadsAs (Sql.tokens row)) g.conditions rows := by
  unfold renderBody
  split
  · exact Traced.yields_fail _
  · exact (yields_each fun c hc => Condition.render_reads ((validate_eq_ok.1 h).2 c hc)).bind
      fun rows hrows => yields_pure ⟨rows, rfl, hrows⟩

/-- The predicates of a group are read back with their connective. -/
theorem ConditionGroup.renderBody_reads {g : ConditionGroup} (h : g.validate = .ok ()) :
    (g.renderBody s).Yields fun row => Reads readBody row.tokens g.canonical
      [.identifier "AND", .identifier "OR", .mark '.'] := by
  intro row hrow
  obtain ⟨rows, rfl, hrows⟩ := renderBody_yields h row hrow
  have hread := reads_connected g.logic (validate_eq_ok.1 h).1
    (hrows.imp fun _ _ hrow => hrow.reads) (by decide)
  exact hread.map fun body => ConditionGroup.mk body.1 body.2

/-- A row that reads as a group: predicates in parentheses, or one alone. -/
inductive ConditionGroup.ReadsAs (g : ConditionGroup) : List Token → Prop
  | several {tail : List Token}
      (h : Reads (Reader.parens readBody) (.mark '(' :: tail) g []) : ReadsAs g (.mark '(' :: tail)
  | alone {p : Condition} {row : List Token} (hg : g = .single p) (h : p.ReadsAs row) :
      ReadsAs g row

/-- A row that reads as a group is read as that group. -/
theorem ConditionGroup.ReadsAs.reads {g : ConditionGroup} {row : List Token} (h : g.ReadsAs row) :
    Reads ConditionGroup.read row g [.mark '.'] := by
  cases h with
  | several h => exact .mono (.next_yes h (List.mem_singleton_self _)) (List.nil_subset _)
  | alone hg h =>
      subst hg
      exact .next_no_of_begins (h.reads.map ConditionGroup.single) h.begins (by decide)

/-- A group is written as a row that reads as its canonical form. Parentheses
around it show that it has several predicates. -/
theorem ConditionGroup.render_reads {g : ConditionGroup} (h : g.validate = .ok ()) :
    (g.render s).Yields fun row => g.canonical.ReadsAs row.tokens := by
  intro row hrow
  obtain ⟨body, hbody, hrow⟩ := Traced.bind_eq_ok hrow
  cases hrow
  have hread := renderBody_reads h body hbody
  obtain ⟨rows, rfl, hrows⟩ := renderBody_yields h body hbody
  obtain ⟨conditions, logic⟩ := g
  cases hrows with
  | nil => exact absurd rfl (validate_eq_ok.1 h).1
  | @cons p row conditions rows hp hrows =>
      cases hrows with
      | nil => exact .alone rfl hp
      | cons hp' hrows =>
          show ReadsAs _ (Sql.tokens (Sql.parens _))
          rw [Sql.tokens_parens]
          exact .several (Reads.parens hread (by decide))

/-- The conditions of a join: only where there are several groups do they
stand in parentheses. -/
theorem Join.renderOn_reads {groups : List ConditionGroup}
    (h : ∀ g ∈ groups, g.validate = .ok ()) :
    (renderOn s groups).Yields fun row => Reads readOn row.tokens
      (groups.map ConditionGroup.canonical) [.identifier "AND", .identifier "OR", .mark '.'] := by
  match groups with
  | [] => exact Traced.yields_fail _
  | [g] =>
      have hg := h g (List.mem_singleton_self g)
      intro row hrow
      have hread := ConditionGroup.renderBody_reads hg row hrow
      -- a group alone has no parentheses around it, and no predicate begins with one
      have hbegins : Begins Token.isName row.tokens := by
        obtain ⟨rows, rfl, hrows⟩ := ConditionGroup.renderBody_yields hg row hrow
        obtain ⟨p, conditions, hc⟩ :=
          List.exists_cons_of_ne_nil (ConditionGroup.validate_eq_ok.1 hg).1
        rw [hc] at hrows
        cases hrows with
        | cons hp hrows => exact Sql.begins_separated hp.begins
      exact .next_no_of_begins (hread.map fun g => [g]) hbegins (by decide)
  | g :: g' :: rest =>
      refine (yields_each fun g hg => ConditionGroup.renderBody_reads (h g hg)).bind
        fun bodies hbodies => yields_pure ?_
      have hrows : List.Forall₂ (fun g row => Reads (Reader.parens ConditionGroup.readBody)
          (Sql.tokens row) g.canonical []) (g :: g' :: rest) (bodies.map Sql.parens) :=
        List.forall₂_map_right_iff.2 (hbodies.imp fun _ _ hbody => by
          rw [Sql.tokens_parens]
          exact Reads.parens hbody (by decide))
      have hread : Reads (Reader.separated (.identifier "AND") _)
          (Logic.and.join (bodies.map Sql.parens)).tokens _ _ :=
        reads_separated (List.cons_ne_nil _ _) hrows rfl List.not_mem_nil
      have hbegins : Begins (fun t => decide (t ∈ [Token.mark '(']))
          (Logic.and.join (bodies.map Sql.parens)).tokens := by
        cases hbodies with
        | cons hbody hbodies =>
            refine Sql.begins_separated ?_
            rw [Sql.tokens_parens]
            exact begins_cons (by decide)
      exact (Reads.starts_yes hread hbegins).mono (by decide)

-- ============================================================ filters

/-- Reads a filter. -/
def Filter.read : Reader Filter := do
  let parts ← connected ConditionGroup.read
  return ⟨parts.1, [], parts.2⟩

/-- Each range of a filter is one group of its canonical form. -/
theorem Filter.length_canonicalGroups (w : Filter) :
    w.canonicalGroups.length = w.groups.length + w.between.length := by
  simp [canonicalGroups]

/-- The parts of a filter are its groups, and each range is one. -/
theorem Filter.renderParts_reads {w : Filter} (hg : ∀ g ∈ w.groups, g.validate = .ok ())
    (hb : ∀ p ∈ w.between, p.validate = .ok ()) :
    (w.renderParts s).Yields fun parts =>
      List.Forall₂ (fun g row => ConditionGroup.ReadsAs g (Sql.tokens row)) w.canonicalGroups
        parts := by
  refine (yields_each fun g hm => ConditionGroup.render_reads (hg g hm)).bind
    fun groups hgroups => ?_
  refine (yields_each fun p hm => Between.render_reads (hb p hm)).bind
    fun ranges hranges => yields_pure ?_
  exact List.rel_append (List.forall₂_map_left_iff.2 hgroups)
    (List.forall₂_map_left_iff.2 (hranges.imp fun _ _ hrow => .alone rfl hrow))

/-- A filter without subqueries is read back as its canonical form, in which
the ranges are groups. -/
theorem Filter.render_reads {w : Filter} (h : w.validate = .ok ()) :
    (w.render s).Yields fun row => Reads Filter.read row.tokens w.canonical
      [.identifier "AND", .identifier "OR", .mark '.'] := by
  obtain ⟨hne, hgroups, hranges⟩ := validate_eq_ok.1 h
  refine (renderParts_reads hgroups hranges).bind fun parts hparts => ?_
  unfold Sql.joinParts
  split
  · exact Traced.yields_fail _
  next hparts' =>
    have hsome : w.canonicalGroups ≠ [] := by
      rintro hnil
      rw [hnil] at hparts
      cases hparts
      exact hparts' rfl
    have hread := reads_connected (f := id) w.logic hsome (hparts.imp fun _ _ hrow => hrow.reads)
      (by decide)
    rw [List.map_id, length_canonicalGroups] at hread
    exact yields_pure (hread.map _)

-- ========================================================= subqueries

/-- Reads the filter and the grouping of a query over one table. -/
def Reader.restriction : Reader (Option Filter × List Column) := do
  let filter ← optional (.identifier "WHERE") Filter.read
  return (filter, ← byList "GROUP" Column.read)

/-- The tokens with which such a query would go on. -/
def Reader.restrictionMore : List Token :=
  [.identifier "AS", .identifier "WHERE", .identifier "AND", .identifier "OR", .mark '.',
    .identifier "GROUP", .mark ',']

/-- A filter that may be missing is read behind its keyword. -/
theorem Filter.renderOptional_reads {w : Option Filter} (h : ∀ f ∈ w, f.validate = .ok ()) :
    (renderOptional s w).Yields fun rows =>
      ReadsClause "WHERE" Filter.read (rows.flatMap Sql.tokens) (w.map Filter.canonical)
        [.identifier "AND", .identifier "OR", .mark '.'] := by
  cases w with
  | none => exact yields_pure .none
  | some f =>
      refine (render_reads (h f rfl)).bind fun body hbody => yields_pure ?_
      show ReadsClause _ _ (.identifier "WHERE" :: (body.tokens ++ [])) _ _
      rw [List.append_nil]
      exact .some hbody

/-- A grouping has the tokens of a list that is left out when it is empty. -/
theorem Sql.groupBy_tokens (columns : List Column) :
    (Sql.groupBy columns).flatMap Sql.tokens =
      (Sql.clauseUnlessEmpty ["GROUP", "BY"] (columns.map fun c => [.word c.name])).flatMap
        Sql.tokens := by
  cases columns with
  | nil => rfl
  | cons c rest =>
      rw [Sql.clauseUnlessEmpty, List.map_cons, List.isEmpty_cons, if_neg Bool.false_ne_true,
        List.flatMap_singleton, Sql.tokens_spaced]
      rfl

/-- A filter and a grouping, each of which may be missing. Neither is taken
for the name of the table before them. -/
theorem reads_restriction {w : Option Filter} {rows : List Sql} (columns : List Column)
    (h : ReadsClause "WHERE" Filter.read (rows.flatMap Sql.tokens) (w.map Filter.canonical)
      [.identifier "AND", .identifier "OR", .mark '.']) :
    Reads Reader.restriction ((rows ++ Sql.groupBy columns).flatMap Sql.tokens)
      (w.map Filter.canonical, columns) Reader.restrictionMore ∧
    Closes [.identifier "AS"] ((rows ++ Sql.groupBy columns).flatMap Sql.tokens)
      Reader.restrictionMore := by
  have hcolumns : List.Forall₂ (fun c row => Reads Column.read (Sql.tokens row) (id c) []) columns
      (columns.map fun c => [.word c.name]) :=
    List.forall₂_map_right_iff.2 (List.forall₂_same.2 fun c _ => c.reads)
  have hgroup : Reads (byList "GROUP" Column.read) _ _ _ :=
    reads_byList hcolumns List.not_mem_nil
  have hhead : ∀ t ∈ ((Sql.groupBy columns).flatMap Sql.tokens).head?,
      t ∈ [Token.identifier "GROUP"] := by
    rw [Sql.groupBy_tokens]
    exact fun t ht => List.mem_singleton.2 (head_clauseUnlessEmpty _ _ t ht)
  rw [← Sql.groupBy_tokens, List.map_id] at hgroup
  have hcolumns' := (hgroup.mono (by decide : _ ⊆ Reader.restrictionMore)).map
    fun columns => (w.map Filter.canonical, columns)
  have hfree : ∀ t ∈ [Token.identifier "WHERE", .identifier "GROUP"],
      t ∉ [Token.identifier "AS"] := by decide
  rw [List.flatMap_append]
  exact ⟨h.bind hcolumns' hhead (by decide) (by decide),
    closes_of_head (fun t ht => hfree t (h.head_append hhead t ht)) (by decide)⟩

/-- Reads `(SELECT aggregate FROM table ...)`. -/
def ScalarSubquery.read : Reader ScalarSubquery := Reader.parens do
  keyword "SELECT"
  let aggregate ← AggregateExpr.readCall
  keyword "FROM"
  let table ← Reader.table
  let rest ← restriction
  return ⟨table.1, table.2, aggregate, rest.1, rest.2⟩

/-- A subquery is read back. It begins with a parenthesis and SELECT, which
no list of constants does. -/
theorem ScalarSubquery.render_reads {q : ScalarSubquery} (h : q.validate = .ok ()) :
    (q.render s).Yields fun row => Reads ScalarSubquery.read row.tokens q.canonical [] ∧
      ∃ tail, row.tokens = .mark '(' :: .identifier "SELECT" :: tail := by
  obtain ⟨-, haggregate, hfilter⟩ := validate_eq_ok.1 h
  refine yields_then fun inner => ?_
  refine (AggregateExpr.renderCall_reads haggregate).bind fun aggregate ha => ?_
  refine (Filter.renderOptional_reads hfilter).bind fun filter hf => yields_pure ?_
  obtain ⟨hrest, hclosed⟩ := reads_restriction q.groupBy hf
  rw [Sql.tokens_parens, Sql.tokens_spaced, List.append_assoc]
  refine ⟨.parens ?_ (by decide : Token.mark ')' ∉ restrictionMore), _, rfl⟩
  refine .expect (ha.1.bind (.expect ?_) closes_free)
  exact (reads_table q.table q.aliasName).bind (hrest.map _) hclosed

/-- Reads a part of a filter: a group, or a test against a subquery. -/
def TopFilter.readPart : Reader (ConditionGroup ⊕ SubqueryCondition) :=
  branch (next [.mark '(']) (do return .inl (← ConditionGroup.read)) (do
    let c ← QualifiedColumn.read
    branch (next [.identifier "BETWEEN"])
      (do return .inl (.single (← Condition.readRange c)))
      (do
        let op ← ComparisonOp.read
        branch startsSubquery (do return .inr ⟨c, op, ← ScalarSubquery.read⟩)
          (do return .inl (.single (← Condition.readRight c op)))))

/-- The filter with these parts. -/
def TopFilter.ofParts (parts : List (ConditionGroup ⊕ SubqueryCondition)) (logic : Logic) :
    TopFilter where
  groups := parts.filterMap Sum.getLeft?
  logic := logic
  subqueries := parts.filterMap Sum.getRight?

/-- Reads a filter with subqueries. -/
def TopFilter.read : Reader TopFilter := do
  let parts ← connected readPart
  return ofParts parts.1 parts.2

/-- A group is read as a part of the filter of a query. Where it is one
predicate, its right side is no subquery. -/
theorem ConditionGroup.ReadsAs.reads_part {g : ConditionGroup} {row : List Token}
    (h : g.ReadsAs row) : Reads TopFilter.readPart row (.inl g) [.mark '.', .mark '('] := by
  cases h with
  | several h =>
      exact .mono (.next_yes ((ConditionGroup.ReadsAs.several h).reads.map Sum.inl)
        (List.mem_singleton_self _)) (by decide)
  | alone hg h =>
      subst hg
      refine .next_no_of_begins ?_ h.begins (by decide)
      cases h with
      | range c hc h =>
          refine c.reads.bind ?_ (closes_cons (by decide))
          have hrange := h.map fun p =>
            (Sum.inl (ConditionGroup.single p) : ConditionGroup ⊕ SubqueryCondition)
          exact .mono (.next_yes hrange (List.mem_singleton_self _)) (List.nil_subset _)
      | test c op hc h hright =>
          refine c.reads.bind (.next_no_of_begins (op.reads.bind (.branch_no ?_ ?_) closes_free)
            op.begins.append (by decide)) (op.begins.append.closes (by decide))
          · exact (h.map fun p => Sum.inl (ConditionGroup.single p)).mono (by decide)
          -- the right side of a predicate is no subquery, so the part is a group
          · exact fun rest hrest => hright rest (hrest.mono (by decide))

/-- A test against a subquery is read as a part of the filter of a query.
What tells it from a test against a list is the SELECT behind the
parenthesis. -/
theorem SubqueryCondition.render_reads {p : SubqueryCondition} (h : p.validate = .ok ()) :
    (p.render s).Yields fun row =>
      Reads TopFilter.readPart row.tokens (.inr p.canonical) [.mark '.', .mark '('] := by
  obtain ⟨hcolumn, -, -, hsubquery⟩ := validate_eq_ok.1 h
  intro row hrow
  obtain ⟨column, hc, hrow⟩ := Traced.bind_eq_ok hrow
  obtain ⟨subquery, hq, hrow⟩ := Traced.bind_eq_ok hrow
  cases hrow
  obtain rfl := s.render_yields p.column column hc
  obtain ⟨hread, tail, htail⟩ := ScalarSubquery.render_reads hsubquery subquery hq
  have hbegins := p.column.begins hcolumn
  rw [Sql.tokens_spaced]
  show Reads _ (p.column.sql.tokens ++ (p.op.sql.tokens ++ (subquery.tokens ++ []))) _ _
  rw [List.append_nil]
  refine .next_no_of_begins (p.column.reads.bind (.next_no_of_begins
    (p.op.reads.bind (.branch_yes ?_ fun rest => ?_) closes_free) p.op.begins.append (by decide))
    (p.op.begins.append.closes (by decide))) hbegins.append (by decide)
  · exact (hread.map _).mono (List.nil_subset _)
  · rw [htail]
    rfl

/-- Groups and behind them subqueries are sorted into the two again. -/
theorem TopFilter.ofParts_append (groups : List ConditionGroup)
    (subqueries : List SubqueryCondition) (logic : Logic) :
    ofParts (groups.map Sum.inl ++ subqueries.map Sum.inr) logic =
      { groups, logic, subqueries } := by
  simp [ofParts, List.filterMap_append, List.filterMap_map, Function.comp_def]

/-- The filter of a query is read back as its canonical form. All parts stand
in one list, and the reader sorts them into groups and subqueries. -/
theorem TopFilter.render_reads {w : TopFilter} (h : w.validate = .ok ()) :
    (w.render s).Yields fun row => Reads TopFilter.read row.tokens w.canonical
      [.identifier "AND", .identifier "OR", .mark '.', .mark '('] := by
  obtain ⟨-, hgroups, hranges, hsubqueries⟩ := validate_eq_ok.1 h
  refine (Filter.renderParts_reads hgroups hranges).bind fun parts hparts => ?_
  refine (yields_each fun p hp => SubqueryCondition.render_reads (hsubqueries p hp)).bind
    fun subqueries hsubs => ?_
  have hall : List.Forall₂ (fun part row => Reads readPart (Sql.tokens row) (id part)
        [.mark '.', .mark '('])
      (w.canonicalGroups.map Sum.inl ++
        (w.subqueries.map SubqueryCondition.canonical).map Sum.inr) (parts ++ subqueries) :=
    List.rel_append (List.forall₂_map_left_iff.2 (hparts.imp fun _ _ hrow => hrow.reads_part))
      (List.forall₂_map_left_iff.2 (List.forall₂_map_left_iff.2 hsubs))
  unfold Sql.joinParts
  split
  · exact Traced.yields_fail _
  next hsome =>
    have hne : w.canonicalGroups.map Sum.inl ++
        (w.subqueries.map SubqueryCondition.canonical).map Sum.inr ≠ [] := by
      intro hnil
      rw [hnil] at hall
      exact hsome (List.isEmpty_iff.2 (List.forall₂_nil_left_iff.1 hall))
    -- the parts are read in one list, groups before subqueries, and sorted out after
    -- that
    have hread := (reads_connected w.logic hne hall (by decide)).map
      fun parts => ofParts parts.1 parts.2
    rw [List.map_id, ofParts_append] at hread
    simp only [List.length_append, List.length_map, Filter.length_canonicalGroups] at hread
    exact yields_pure hread

-- ============================================================= sources

/-- Reads `SELECT items FROM table ...`, which has no name yet. -/
def DerivedTable.readBody : Reader DerivedTable := do
  keyword "SELECT"
  let select ← list SelectExpr.read
  keyword "FROM"
  let table ← Table.read
  let rest ← restriction
  return ⟨select, table, "", rest.1, rest.2⟩

/-- Reads `(SELECT items FROM table ...) AS alias`. -/
def DerivedTable.read : Reader DerivedTable := do
  let d ← Reader.parens readBody
  return { d with aliasName := ← asName }

/-- Reads a table or a derived table as a source without joins. -/
def FromClause.readTable : Reader FromClause :=
  branch (next [.mark '(']) (do return .ofDerived (← DerivedTable.read)) (do
    let table ← Reader.table
    return ⟨some table.1, table.2, [], none⟩)

/-- Reads a JOIN. -/
def Join.read : Reader Join := do
  let type ← oneOf (fun t : JoinType => [.identifier t.name]) Vocabulary.all
  keyword "JOIN"
  let table ← Reader.table
  keyword "ON"
  return ⟨type, table.1, table.2, ← readOn⟩

/-- Reads a source with its joins. -/
def FromClause.read : Reader FromClause := do
  keyword "FROM"
  let source ← readTable
  return { source with
    joins := ← many [.identifier "INNER", .identifier "LEFT"] Join.read }

theorem JoinType.reads (t : JoinType) : Reads (oneOf (fun t : JoinType => [.identifier t.name])
    Vocabulary.all) [.identifier t.name] t [] :=
  .oneOf_word JoinType.name (by decide) (by cases t <;> decide)

/-- A derived table is read back with its name. It begins with a parenthesis,
which tells it from a table. -/
theorem DerivedTable.render_reads (settings : Settings) {d : DerivedTable}
    (h : d.validate = .ok ()) :
    (d.render settings).Yields fun row => Reads DerivedTable.read row.tokens d.canonical [] ∧
      ∃ tail, row.tokens = .mark '(' :: tail := by
  obtain ⟨hne, -, hselect, hfilter⟩ := validate_eq_ok.1 h
  unfold render
  split
  · exact Traced.yields_fail _
  refine yields_then fun inner => ?_
  refine (yields_each fun e he => SelectExpr.render_reads (hselect e he)).bind
    fun items hitems => ?_
  refine (Filter.renderOptional_reads hfilter).bind fun filter hf => yields_pure ?_
  obtain ⟨hrest, hclosed⟩ := reads_restriction d.groupBy hf
  have hlist := reads_listed hne hitems (by decide)
  have hbody : Reads readBody (Sql.tokens (Sql.spaced ([Sql.words ["SELECT"], Sql.listed items,
      Sql.words ["FROM"], Sql.table d.table none] ++ filter ++ Sql.groupBy d.groupBy)))
      { d.canonical with aliasName := "" } restrictionMore := by
    rw [Sql.tokens_spaced, List.append_assoc]
    exact .expect (hlist.bind (.expect (d.table.reads.bind (hrest.map _) closes_free))
      (closes_cons (by decide)))
  rw [Sql.tokens_named, Sql.tokens_parens]
  exact ⟨(Reads.parens hbody (by decide)).bind ((reads_asName d.aliasName).map _) closes_free,
    _, rfl⟩

/-- The source of a query is read back without its joins. A derived table and
a table are told apart by the parenthesis. -/
theorem FromClause.renderTable_reads (settings : Settings) {f : FromClause}
    (h : f.validateSource = .ok ()) :
    (f.renderTable settings).Yields fun p => Reads readTable (Sql.tokens p.1)
      { f.canonical with joins := [] } [.identifier "AS"] := by
  unfold renderTable canonical
  rcases validateSource_eq_ok.1 h with ⟨table, ht, hd, -⟩ | ⟨d, ht, hd, hname, hvalid⟩
  · rw [ht, hd]
    refine yields_then fun s => yields_pure ?_
    exact .next_no_of_begins ((reads_table table f.aliasName).map _)
      (Sql.begins_table table f.aliasName) (by decide)
  · rw [ht, hd, hname]
    refine (DerivedTable.render_reads settings hvalid).bind fun body hbody => ?_
    refine yields_then fun s => yields_pure ?_
    obtain ⟨hread, tail, htail⟩ := hbody
    dsimp only
    rw [htail] at hread ⊢
    exact .mono (.next_yes (hread.map _) (List.mem_singleton_self _)) (List.nil_subset _)

/-- A join is read back, and begins with the keyword of its type. -/
theorem Join.render_reads {j : Join} (h : j.validate = .ok ()) :
    (j.render s).Yields fun p =>
      Begins (fun t => decide (t ∈ [Token.identifier "INNER", .identifier "LEFT"]))
        (Sql.tokens p.1) ∧
      Reads Join.read (Sql.tokens p.1) j.canonical
        [.identifier "AND", .identifier "OR", .mark '.'] := by
  obtain ⟨-, -, hon⟩ := validate_eq_ok.1 h
  refine yields_then fun inner => ?_
  refine (renderOn_reads hon).bind fun on ho => yields_pure ?_
  dsimp only
  rw [Sql.tokens_spaced]
  refine ⟨?_, j.type.reads.bind (.expect ((reads_table j.table j.aliasName).bind
    (.expect (ho.map_nil _)) (closes_cons (by decide)))) closes_free⟩
  cases j.type <;> exact begins_cons (by decide)

/-- The joins are read back one after the other. The induction is on the
list, for every scope, since each join changes the scope of the next. -/
theorem Join.renderAll_reads {joins : List Join} :
    ∀ s : Scope, (∀ j ∈ joins, j.validate = .ok ()) →
      (renderAll s joins).Yields fun p =>
        ReadsAll [.identifier "INNER", .identifier "LEFT"] Join.read (joins.map Join.canonical)
          (p.1.map Sql.tokens) [.identifier "AND", .identifier "OR", .mark '.'] := by
  induction joins with
  | nil => intro s _; exact yields_pure .nil
  | cons j rest ih =>
      intro s h
      refine (Join.render_reads (h j (List.mem_cons_self ..))).bind fun p hp => ?_
      refine (ih p.2 fun j' hj => h j' (List.mem_cons_of_mem _ hj)).bind fun p' hp' => ?_
      exact yields_pure (.cons hp hp')

/-- The source is read back with its joins, behind its keyword. Each join
begins with the keyword of its type, and the joins end where none comes. -/
theorem FromClause.render_reads (settings : Settings) {f : FromClause}
    (h : f.validate = .ok ()) :
    (f.render settings).Yields fun p => Reads FromClause.read (p.1.flatMap Sql.tokens) f.canonical
      [.identifier "AS", .identifier "INNER", .identifier "LEFT", .identifier "AND",
        .identifier "OR", .mark '.'] ∧
      ∃ tail, p.1.flatMap Sql.tokens = .identifier "FROM" :: tail := by
  obtain ⟨hsource, hjoins⟩ := validate_eq_ok.1 h
  refine (renderTable_reads settings hsource).bind fun p hp => ?_
  refine (Join.renderAll_reads p.2 hjoins).bind fun p' hp' => ?_
  refine yields_then fun _ => yields_pure ?_
  dsimp only
  rw [List.flatMap_cons, Sql.tokens_spaced]
  refine ⟨.expect ?_, _, rfl⟩
  show Reads _ ((Sql.tokens p.1 ++ []) ++ _) _ _
  rw [List.append_nil]
  exact hp.bind (((Reads.many hp' (by decide)).mono (by decide)).map _)
    (hp'.closes (by decide) (by decide))

-- ============================================================= clauses

/-- What an aggregate over a column or over rows looks at. -/
def AggregateExpr.column? (a : AggregateExpr) : Option (Option QualifiedColumn) :=
  match a.input with
  | none => some none
  | some (.column c) => some (some c)
  | some (.arithmetic _) => none

/-- Reads a test on a group. -/
def HavingCondition.read : Reader HavingCondition := do
  let call ← AggregateExpr.readCall
  let column ← lift call.column?
  let op ← ComparisonOp.read
  return ⟨call.function, column, op, ← Literal.read⟩

/-- Reads the tests on groups. -/
def Having.read : Reader Having := do
  let body ← connected HavingCondition.read
  return ⟨body.1, body.2⟩

/-- Reads the columns that make a group, behind the first keyword. -/
def GroupBy.read : Reader GroupBy := do
  keyword "BY"
  return ⟨← list Column.read⟩

/-- Reads the keys of a sort, behind the first keyword. -/
def OrderBy.read : Reader OrderBy := do
  keyword "BY"
  return ⟨← list (OrderItem.read SortKey.read)⟩

/-- Reads a whole number of 64 bits without a sign. -/
def Reader.word : Reader UInt64 := do return .ofNat (← nat)

/-- Reads a limit behind its keyword; without an offset that is zero. -/
def Limit.read : Reader Limit := do
  let limit ← Reader.word
  let offset ← optional (.identifier "OFFSET") Reader.word
  return ⟨limit, offset.getD 0⟩

/-- The call in a test on a group is read as an aggregate without a name.
Percentiles and the median are excluded by validity, and a count of distinct
values has no second spelling here. -/
theorem HavingCondition.renderCall_reads {p : HavingCondition} (h : p.validate = .ok ()) :
    (p.renderCall s).Yields fun row => Reads AggregateExpr.readCall row.tokens
      ⟨p.function, p.column.map .column, false, none, ""⟩ [] := by
  obtain ⟨hplain, hcolumn, hcount, -⟩ := validate_eq_ok.1 h
  have hargument : (p.renderColumn s).Yields fun row =>
      (∃ c, p.column = some c ∧
        Reads AggregateInput.read row.tokens (.column c) [.mark '.'] ∧
        Begins (fun t => t.isName || t == .mark '(') row.tokens) ∨
      (p.column = none ∧ p.function = .count ∧
        Reads AggregateExpr.readArgument row.tokens (none, false) [.mark '.']) := by
    unfold renderColumn
    cases hc : p.column with
    | none =>
        dsimp only
        rw [hcount hc]
        exact yields_pure (.inr ⟨rfl, rfl,
          .next_yes (.expect (.pure _ _)) (List.mem_singleton_self _)⟩)
    | some c =>
        intro row hrow
        obtain rfl := s.render_yields c row hrow
        exact .inl ⟨c, rfl, AggregateInput.reads_column (hcolumn c hc)⟩
  refine hargument.bind fun row hrow => ?_
  obtain ⟨function, column, op, value⟩ := p
  dsimp only at hplain hrow ⊢
  rcases hrow with ⟨c, rfl, hread, hbegins⟩ | ⟨rfl, rfl, hread⟩
  · split
    next hf =>
      rw [eq_of_beq hf]
      exact yields_pure (AggregateExpr.reads_call (f := .countDistinct) rfl
        (AggregateExpr.reads_distinct hread))
    next hf =>
      rw [if_neg (by rw [hplain]; exact Bool.false_ne_true)]
      -- what is left are the functions that SQL calls by their own names
      have hbase : function.base = function := by
        cases function <;> first | rfl | exact absurd rfl hf | cases hplain
      have hmerged : AggregateExpr.merged ⟨function, some (.column c), false, none, ""⟩ =
          ⟨function, some (.column c), false, none, ""⟩ := by
        cases function <;> first | rfl | exact absurd rfl hf | cases hplain
      have := AggregateExpr.reads_call (f := function) (hbase.symm ▸ hplain)
        (AggregateExpr.reads_argument hread hbegins)
      rw [hbase, hmerged] at this
      exact yields_pure this
  · exact yields_pure (AggregateExpr.reads_call (f := .count) rfl hread)

/-- A test on a group is read back as its canonical form. -/
theorem HavingCondition.render_reads {p : HavingCondition} (h : p.validate = .ok ()) :
    (p.render s).Yields fun row => Reads HavingCondition.read row.tokens p.canonical [] := by
  obtain ⟨-, -, -, -, hvalue⟩ := validate_eq_ok.1 h
  refine (renderCall_reads h).bind fun call hcall => yields_pure ?_
  rw [Sql.tokens_spaced]
  refine hcall.bind (.lift ?_ (p.op.reads.bind ((Literal.reads hvalue).map_nil _) closes_free))
    closes_free
  cases p.column <;> rfl

/-- The tests on groups are read back behind their keyword. -/
theorem Having.render_reads {h : Having} (hv : h.validate = .ok ()) :
    (h.render s).Yields fun row => ReadsClause "HAVING" Having.read row.tokens (some h.canonical)
      [.identifier "AND", .identifier "OR"] := by
  obtain ⟨hne, hall⟩ := validate_eq_ok.1 hv
  unfold render
  split
  · exact Traced.yields_fail _
  refine (yields_each fun p hp => HavingCondition.render_reads (hall p hp)).bind
    fun rows hrows => yields_pure ?_
  have hread := reads_connected h.logic hne hrows ⟨List.not_mem_nil, List.not_mem_nil⟩
  rw [Sql.tokens_spaced]
  exact .some (hread.map_nil _)

/-- The columns that make a group are read back behind their keywords. -/
theorem GroupBy.render_reads {g : GroupBy} (h : g.validate = .ok ()) :
    g.render.Yields fun row => ReadsClause "GROUP" GroupBy.read row.tokens (some g)
      [.mark ','] := by
  have hne := validate_eq_ok.1 h
  unfold render
  split
  · exact Traced.yields_fail _
  next hsome =>
    refine yields_pure ?_
    rw [Sql.groupBy, if_neg hsome, Sql.tokens_spaced]
    exact .some (.expect ((reads_columns hne).map_nil _))

/-- The keys of a sort are read back behind their keywords. -/
theorem OrderBy.render_reads {o : OrderBy} (h : o.validate = .ok ()) :
    (o.render s).Yields fun row => ReadsClause "ORDER" OrderBy.read row.tokens (some o.canonical)
      [.mark ',', .identifier "NULLS"] := by
  obtain ⟨hne, -⟩ := validate_eq_ok.1 h
  unfold render
  split
  · exact Traced.yields_fail _
  refine (yields_each fun i _ => OrderItem.render_reads (SortKey.render_reads i.key)).bind
    fun items hitems => yields_pure ?_
  have hread := reads_listed hne hitems (by decide)
  rw [Sql.tokens_spaced]
  exact .some (.expect (hread.map_nil _))

/-- A whole number of 64 bits is read back. -/
theorem reads_word (n : UInt64) : Reads Reader.word (Sql.int n.toNat).tokens n [] := by
  have := (reads_nat n.toNat).map UInt64.ofNat
  rwa [UInt64.ofNat_toNat] at this

/-- An offset that is not written is zero, and an offset of zero is not
written. -/
theorem Limit.sql_reads (l : Limit) :
    ReadsClause "LIMIT" Limit.read l.sql.tokens (some l) [.identifier "OFFSET"] := by
  obtain ⟨limit, offset⟩ := l
  unfold sql
  dsimp only
  split
  next hzero =>
    obtain rfl := eq_of_beq hzero
    have hnone : Reads (optional (.identifier "OFFSET") Reader.word) [] none
        [.identifier "OFFSET"] := .optional_none (List.mem_singleton_self _)
    rw [Sql.tokens_spaced]
    exact .some ((reads_word limit).bind (hnone.map _) closes_free)
  next =>
    have hoffset := (Reads.optional_some (t := .identifier "OFFSET") (reads_word offset)).mono
      (List.nil_subset [.identifier "OFFSET"])
    rw [Sql.tokens_spaced]
    exact .some ((reads_word limit).bind (hoffset.map_nil _) closes_free)

/-- The filter of a query is read back behind its keyword. -/
theorem TopFilter.renderClause_reads {w : TopFilter} (h : w.validate = .ok ()) :
    (w.renderClause s).Yields fun row => ReadsClause "WHERE" TopFilter.read row.tokens
      (some w.canonical) [.identifier "AND", .identifier "OR", .mark '.', .mark '('] := by
  refine (render_reads h).bind fun body hbody => yields_pure ?_
  rw [Sql.tokens_spaced]
  show ReadsClause _ _ (.identifier "WHERE" :: (body.tokens ++ [])) _ _
  rw [List.append_nil]
  exact .some hbody

/-- The line of a clause that may be missing. -/
theorem Sql.optionalLine_reads {α β : Type} {clause : PlainClause} {render : α → Traced Sql}
    {o : Option α} {word : String} {read : Reader β} {f : α → β} {more : List Token}
    (h : ∀ a ∈ o, (render a).Yields fun row =>
      ReadsClause word read (Sql.tokens row) (some (f a)) more) :
    (optionalLine clause render o).Yields fun rows =>
      ReadsClause word read (rows.flatMap Sql.tokens) (o.map f) more := by
  cases o with
  | none => exact yields_pure .none
  | some a =>
      refine (h a rfl).bind fun row hrow => yields_then fun _ => yields_pure ?_
      rw [List.flatMap_singleton]
      exact hrow

end

-- =============================================================== query

/-- Reads a query. -/
def Query.read : Reader Query := do
  keyword "SELECT"
  let select ← list SelectExpr.read
  let source ← FromClause.read
  let filter ← optional (.identifier "WHERE") TopFilter.read
  let groupBy ← optional (.identifier "GROUP") GroupBy.read
  let having ← optional (.identifier "HAVING") Having.read
  let orderBy ← optional (.identifier "ORDER") OrderBy.read
  return ⟨select, source, filter, groupBy, having, orderBy,
    ← optional (.identifier "LIMIT") Limit.read⟩

/-- The tokens with which a query would go on. -/
def Query.more : List Token :=
  [.mark ',', .mark '.', .mark '(', .identifier "AS", .identifier "INNER", .identifier "LEFT",
    .identifier "AND", .identifier "OR", .identifier "WHERE", .identifier "GROUP",
    .identifier "HAVING", .identifier "ORDER", .identifier "NULLS", .identifier "LIMIT",
    .identifier "OFFSET"]

/-- The select list is read back behind its keyword, and what comes next is
the source. -/
theorem SelectExpr.renderList_reads {s : Scope} {items : List SelectExpr}
    (h : ∀ e ∈ items, e.validate = .ok ()) :
    (renderList s items).Yields fun row => ∃ tail, row.tokens = .identifier "SELECT" :: tail ∧
      Reads (list SelectExpr.read) tail (items.map canonical) (.mark ',' :: more) := by
  unfold renderList
  split
  · exact Traced.yields_fail _
  next hsome =>
    have hne : items ≠ [] := by
      rintro rfl
      exact hsome rfl
    refine (yields_each fun e he => render_reads (h e he)).bind fun rows hrows => ?_
    refine yields_then fun _ => yields_pure ⟨_, Sql.tokens_spaced _, ?_⟩
    have hread : Reads (list SelectExpr.read) (Sql.separated Sql.itemSeparator rows).tokens _ _ :=
      reads_separated hne hrows rfl (by decide)
    show Reads _ (Sql.tokens _ ++ []) _ _
    rwa [List.append_nil]

/-- The lines of a valid query are read as its canonical form. Each clause is
read by its own reader, and ends before whatever clause comes next. -/
theorem Query.renderLines_reads (settings : Settings) {q : Query} (h : q.validate = .ok ()) :
    (q.renderLines settings).Yields fun lines =>
      Reads Query.read (lines.flatMap Sql.tokens) q.canonical more := by
  obtain ⟨-, hselect, hsource, hfilter, hgroup, hhaving, horder⟩ := validate_eq_ok.1 h
  refine (FromClause.render_reads settings hsource).bind fun p hp => ?_
  refine (SelectExpr.renderList_reads hselect).bind fun select hs => ?_
  refine (Sql.optionalLine_reads fun w hw => TopFilter.renderClause_reads (hfilter w hw)).bind
    fun filter hf => ?_
  refine (Sql.optionalLine_reads (f := id) fun g hg => GroupBy.render_reads (hgroup g hg)).bind
    fun groupBy hg => ?_
  refine (Sql.optionalLine_reads fun h hh => Having.render_reads (hhaving h hh)).bind
    fun having hh => ?_
  refine (Sql.optionalLine_reads fun o ho => OrderBy.render_reads (horder o ho).1).bind
    fun orderBy ho => yields_pure ?_
  rw [Option.map_id, id] at hg
  obtain ⟨hread, source, hsource⟩ := hp
  obtain ⟨tail, htail, hselect⟩ := hs
  have hlimit : ReadsClause "LIMIT" Limit.read ((q.limit.map Limit.sql).toList.flatMap Sql.tokens)
      q.limit [.identifier "OFFSET"] := by
    cases q.limit with
    | none => exact .none
    | some l =>
        show ReadsClause _ _ (l.sql.tokens ++ []) _ _
        rw [List.append_nil]
        exact l.sql_reads
  -- the words with which the clauses behind each one may begin
  have hwords₁ : ∀ t ∈ ((q.limit.map Limit.sql).toList.flatMap Sql.tokens).head?,
      t ∈ [Token.identifier "LIMIT"] := fun t ht => List.mem_singleton.2 (hlimit.head t ht)
  have hwords₂ := ho.head_append hwords₁
  have hwords₃ := hh.head_append hwords₂
  have hwords₄ := hg.head_append hwords₃
  have hwords₅ := hf.head_append hwords₄
  simp only [List.flatMap_append, List.flatMap_singleton, List.append_assoc, htail]
  have hfree : ∀ t ∈ [Token.identifier "WHERE", .identifier "GROUP", .identifier "HAVING",
      .identifier "ORDER", .identifier "LIMIT"], t ∉ [Token.identifier "AS", .identifier "INNER",
        .identifier "LEFT", .identifier "AND", .identifier "OR", .mark '.'] := by
    decide
  refine .expect (hselect.bind (hread.bind ?_ ?_) ?_)
  · exact hf.bind (hg.bind (hh.bind (ho.bind ((hlimit.reads.mono (by decide)).map _)
      hwords₁ (by decide) (by decide)) hwords₂ (by decide) (by decide))
      hwords₃ (by decide) (by decide)) hwords₄ (by decide) (by decide)
  · exact closes_of_head (fun t ht => hfree t (hwords₅ t ht)) (by decide)
  · rw [hsource]
    exact closes_cons (by decide)

-- ========================================================= main result

/-- The text of a valid query is scanned into tokens that are read as the
canonical form of the query, and nothing is left over. -/
theorem Query.read_of_toSql {settings : Settings} {q : Query} {sql : String}
    (hv : q.validate = .ok ()) (h : q.toSql settings = .ok sql) :
    ∃ tokens, scan sql.toList = some tokens ∧ Query.read tokens = some (q.canonical, []) := by
  rw [toSql_eq] at h
  cases hlines : (q.renderLines settings).outcome with
  | error e => rw [hlines] at h; cases h
  | ok lines =>
      rw [hlines] at h
      cases h
      refine ⟨_, (sound_of_renderLines hv hlines).scan_text, ?_⟩
      have htokens : Sql.tokens (Sql.separated [Sql.lineEnd] lines) = lines.flatMap Sql.tokens := by
        cases lines with
        | nil => rfl
        | cons line lines => exact Sql.tokens_separated [Sql.lineEnd] line lines
      have hread := renderLines_reads settings hv lines hlines [] (ends_nil _)
      rwa [List.append_nil, ← htokens] at hread

/-- The SQL text determines the query. Two valid queries that are written
as one text are equal in their canonical forms: they differ in nothing but
in how numbers with one text are kept, in an offset of one that is left
out, in a distinct count or a median by another name, in a connective that
connects nothing, in ranges that are groups of their own, in sort keys
without a table and in the names of the aggregates of subqueries. -/
theorem Query.text_determines {settings settings' : Settings} {q q' : Query} {sql : String}
    (hv : q.validate = .ok ()) (hv' : q'.validate = .ok ())
    (h : q.toSql settings = .ok sql) (h' : q'.toSql settings' = .ok sql) :
    q.canonical = q'.canonical := by
  obtain ⟨tokens, hscan, hread⟩ := read_of_toSql hv h
  obtain ⟨tokens', hscan', hread'⟩ := read_of_toSql hv' h'
  rw [hscan] at hscan'
  cases hscan'
  rw [hread] at hread'
  exact congrArg Prod.fst (Option.some.inj hread')

/-- A query in which each part could be kept in another way. -/
def Query.spelled : Query where
  select := [
    .aggregate ⟨.median, some (.column ⟨none, .price⟩), false, none, "price"⟩,
    .aggregate ⟨.count, some (.column ⟨none, .brand⟩), true, none, "brands"⟩,
    .window ⟨.lag, some ⟨none, .price⟩, [], [⟨.column ⟨none, .id⟩, .asc, none⟩], none, none,
      "before"⟩]
  source := .ofTable .productOffers
  filter := some {
    groups := [⟨[.columns ⟨⟨none, .brand⟩, .eq, ⟨none, .seller⟩⟩], .or⟩]
    between := [⟨⟨none, .price⟩, .int 2, .string "b"⟩]
    subqueries := [⟨⟨none, .id⟩, .eq, ⟨.priceHistory, none,
      ⟨.max, some (.column ⟨none, .offerId⟩), false, none, "top"⟩, none, []⟩⟩] }
  groupBy := none
  having := some ⟨[⟨.count, none, .gt, .int 2⟩], .and⟩
  orderBy := some ⟨[⟨.output "price", .desc, none⟩]⟩
  limit := none

/-- The same query, kept in the other way. -/
def Query.respelled : Query where
  select := [
    .aggregate ⟨.percentileCont, some (.column ⟨none, .price⟩), false, some .half, "price"⟩,
    .aggregate ⟨.countDistinct, some (.column ⟨none, .brand⟩), false, none, "brands"⟩,
    .window ⟨.lag, some ⟨none, .price⟩, [], [⟨.column ⟨none, .id⟩, .asc, none⟩], some 1, none,
      "before"⟩]
  source := .ofTable .productOffers
  filter := some {
    groups := [⟨[.columns ⟨⟨none, .brand⟩, .eq, ⟨none, .seller⟩⟩], .and⟩,
      ⟨[.between ⟨⟨none, .price⟩, .float (.ofText false "2"), .string "b"⟩], .or⟩]
    between := []
    subqueries := [⟨⟨none, .id⟩, .eq, ⟨.priceHistory, none,
      ⟨.max, some (.column ⟨none, .offerId⟩), false, none, "bottom"⟩, none, []⟩⟩] }
  groupBy := none
  having := some ⟨[⟨.count, none, .gt, .float (.ofText false "2")⟩], .or⟩
  orderBy := some ⟨[⟨.column ⟨none, .price⟩, .desc, none⟩]⟩
  limit := none

/-- The two ways to keep one query have one text and one canonical form. -/
theorem Query.respelled_text :
    spelled ≠ respelled ∧ ∃ sql, spelled.toSql {} = .ok sql ∧ respelled.toSql {} = .ok sql ∧
      spelled.canonical = respelled.canonical := by
  have hv : spelled.validate = .ok () := by decide +kernel
  have hv' : respelled.validate = .ok () := by decide +kernel
  obtain ⟨sql, hsql⟩ := toSql_of_checkScope hv
    (by decide +kernel : spelled.checkScope {} = .ok ())
  have hsame : respelled.toSql {} = spelled.toSql {} := by decide +kernel
  have hsql' : respelled.toSql {} = .ok sql := hsame.trans hsql
  exact ⟨by decide +kernel, sql, hsql, hsql', text_determines hv hv' hsql hsql'⟩

end TypedSelect
