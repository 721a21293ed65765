/-
Other strings in the same query.

The renderer never looks into a string: what it writes for a query with
its strings changed is what it writes for the query, with the strings of
the text changed. So queries that are equal with their strings emptied
have texts whose tokens are equal with their strings emptied.

# Rows and tokens

A string is one lexeme of a row, so a row with its strings changed is the
row with a function applied to the contents (`Sql.mapStrings`). Rows are
put together from words, signs and rows; changing strings goes through
each of these ways, and the lemmas that say so are simp lemmas.

# Renderers

`Maps` relates a rendering to the rendering of the node with its strings
changed: the same outcome with the row changed, or the same error. One
lemma for each renderer that comes across strings; the pieces without any
are known from their soundness, which says that their rows have no
strings, and need no lemma of their own here. Validity is asked for since
what cannot be written is nowhere said to be written alike.

# Scanning

The text of a sound row is scanned as its tokens, and the tokens of two
rows that differ in their strings differ in the contents of string tokens
and in nothing else. That the scan succeeds, that there is no comment and
no semicolon, and that parentheses are balanced is part of soundness.
-/
import TypedSelect.Proofs.Scope.Agreement
import TypedSelect.Proofs.Sql.Sound

namespace TypedSelect

open Sql (Sound AllSound)
open Traced (Maps maps_pure maps_fail maps_self maps_then maps_each)
open Validation (NulFree Writable)

-- ============================================================== rows

/-- The lexeme with its content changed, if it is a string. -/
def Lexeme.mapString (f : String → String) : Lexeme → Lexeme
  | string content => string (f content)
  | l => l

namespace Sql

/-- The row with the content of every string changed. -/
def mapStrings (f : String → String) (row : Sql) : Sql := row.map (Lexeme.mapString f)

variable {f : String → String}

@[simp] theorem mapStrings_append (row row' : Sql) :
    mapStrings f (row ++ row') = mapStrings f row ++ mapStrings f row' :=
  List.map_append

@[simp] theorem mapStrings_separated (separator : Sql) (rows : List Sql) :
    mapStrings f (separated separator rows) =
      separated (mapStrings f separator) (rows.map (mapStrings f)) := by
  induction rows with
  | nil => rfl
  | cons row rows ih =>
      cases rows with
      | nil => rfl
      | cons row' rows => simp only [separated, mapStrings_append, ih, List.map_cons]

/-- Rows with spaces between them are changed one by one. -/
@[simp] theorem mapStrings_spaced (rows : List Sql) :
    mapStrings f (spaced rows) = spaced (rows.map (mapStrings f)) :=
  mapStrings_separated _ _

/-- Rows with commas between them are changed one by one. -/
@[simp] theorem mapStrings_listed (rows : List Sql) :
    mapStrings f (listed rows) = listed (rows.map (mapStrings f)) :=
  mapStrings_separated _ _

/-- Rows with a connective between them are changed one by one. -/
@[simp] theorem mapStrings_join (logic : Logic) (rows : List Sql) :
    mapStrings f (logic.join rows) = logic.join (rows.map (mapStrings f)) :=
  mapStrings_separated _ _

@[simp] theorem mapStrings_words (names : List String) :
    mapStrings f (words names) = words names := by
  unfold words
  rw [mapStrings_spaced, List.map_map]
  rfl

/-- A row in parentheses is changed inside of them. -/
@[simp] theorem mapStrings_parens (row : Sql) :
    mapStrings f (parens row) = parens (mapStrings f row) := by
  simp only [parens, mapStrings, List.map_cons, List.map_append, List.map_nil,
    Lexeme.mapString, List.cons_append]

@[simp] theorem mapStrings_named (row : Sql) (aliasName : String) :
    mapStrings f (named row aliasName) = named (mapStrings f row) aliasName := by
  simp only [named, mapStrings_spaced, mapStrings_words, List.map_cons, List.map_nil]

@[simp] theorem mapStrings_call (function : String) (row : Sql) :
    mapStrings f (call function row) = call function (mapStrings f row) := by
  show .word function :: mapStrings f (parens row) = _
  rw [mapStrings_parens]
  rfl

/-- A row without strings stays as it is. -/
theorem Sound.mapStrings_eq {row : Sql} (h : Sound row []) : mapStrings f row = row := by
  have hnone : ∀ l ∈ row, l.content? = none := List.filterMap_eq_nil_iff.1 h.strings
  refine (List.map_congr_left fun l hl => ?_).trans (List.map_id row)
  have := hnone l hl
  cases l with
  | string content => cases this
  | _ => rfl

theorem AllSound.mapStrings_eq {rows : List Sql} {strings : List String}
    (h : AllSound rows strings) (hnil : strings = []) :
    rows.map (mapStrings f) = rows := by
  induction h with
  | nil => rfl
  | cons h hrest ih =>
      obtain ⟨rfl, rfl⟩ := List.append_eq_nil_iff.1 hnil
      rw [List.map_cons, h.mapStrings_eq, ih rfl]

/-- The tokens with nothing in their strings are those of the row with
nothing in its strings. -/
theorem tokens_map_blanked (row : Sql) :
    row.tokens.map Token.blanked = (row.mapStrings fun _ => "").tokens := by
  induction row with
  | nil => rfl
  | cons l row ih =>
      have htoken : l.token?.map Token.blanked = (l.mapString fun _ => "").token? := by
        cases l with
        | sign text =>
            show some (Scan.signToken text.toList).blanked = some (Scan.signToken text.toList)
            unfold Scan.signToken
            split
            · split <;> rfl
            · rfl
        | _ => rfl
      unfold tokens mapStrings at *
      rw [List.map_cons, List.filterMap_cons, List.filterMap_cons, ← htoken]
      cases l.token? with
      | none => exact ih
      | some t => simp only [Option.map_some, List.map_cons, ih]

/-- A rendering without strings. -/
theorem maps_silent (f : String → String) {x : Traced Sql}
    (h : x.Yields fun row => Sound row []) : Maps (mapStrings f) x x :=
  maps_self fun row hrow => (h row hrow).mapStrings_eq

end Sql

open Sql (maps_silent)

-- =========================================================== constants

section

variable {f : String → String} {s : Scope}

/-- A constant that is a string is written as the changed one, and any other
constant as it was. -/
theorem Literal.sql_mapStrings {v : Literal} (h : Writable v) :
    (v.mapStrings f).sql = v.sql.mapStrings f := by
  cases v with
  | string s => rfl
  | bool b => exact (Literal.sql_sound h).mapStrings_eq.symm
  | int i => exact (Literal.sql_sound h).mapStrings_eq.symm
  | float x => exact (Literal.sql_sound h).mapStrings_eq.symm

-- ========================================================== predicates

theorem Comparison.renderValue_mapStrings {p : Comparison} (h : p.validateValue = .ok ()) :
    Maps (Sql.mapStrings f) p.renderValue (p.mapStrings f).renderValue := by
  have hop : p.op.sql.mapStrings f = p.op.sql := p.op.sql_sound.mapStrings_eq
  unfold renderValue mapStrings
  rcases validateValue_eq_ok.1 h with ⟨hn, hv⟩ | ⟨hn, hl, values, hv, hne, hw⟩ |
    ⟨hn, hl, v, hv, -, hw⟩
  · simp only [hn, hv, if_true, Option.map_none]
    exact maps_pure hop.symm
  · have hne' : values.isEmpty = false := by simpa using hne
    simp only [hn, hl, hv, hne', Bool.false_eq_true, if_false, Option.map_some,
      Comparand.mapStrings, List.isEmpty_map]
    apply maps_pure
    have hvalues : (values.map (Literal.mapStrings f)).map Literal.sql =
        (values.map Literal.sql).map (Sql.mapStrings f) := by
      rw [List.map_map, List.map_map]
      exact List.map_congr_left fun v hv => Literal.sql_mapStrings (hw v hv)
    simp only [Sql.mapStrings_spaced, Sql.mapStrings_parens, Sql.mapStrings_listed,
      List.map_cons, List.map_nil, hop, hvalues]
  · simp only [hn, hl, hv, Bool.false_eq_true, if_false, Option.map_some,
      Comparand.mapStrings]
    apply maps_pure
    simp only [Sql.mapStrings_spaced, List.map_cons, List.map_nil, hop,
      Literal.sql_mapStrings hw]

/-- A test against constants changes in its right side. -/
theorem Comparison.render_mapStrings {p : Comparison} (h : p.validate = .ok ()) :
    Maps (Sql.mapStrings f) (p.render s) ((p.mapStrings f).render s) := by
  obtain ⟨hcolumn, hvalue⟩ := validate_eq_ok.1 h
  apply (maps_silent f (Scope.render_sound hcolumn)).bind
  intro column
  refine (renderValue_mapStrings hvalue).bind fun value => maps_pure ?_
  simp only [Sql.mapStrings_spaced, List.map_cons, List.map_nil]

theorem Between.render_mapStrings {p : Between} (h : p.validate = .ok ()) :
    Maps (Sql.mapStrings f) (p.render s) ((p.mapStrings f).render s) := by
  obtain ⟨hcolumn, hlow, hhigh⟩ := validate_eq_ok.1 h
  refine (maps_silent f (Scope.render_sound hcolumn)).bind fun column => maps_pure ?_
  simp only [Sql.mapStrings_spaced, Sql.mapStrings_words, List.map_cons, List.map_nil,
    mapStrings, Literal.sql_mapStrings hlow, Literal.sql_mapStrings hhigh]

theorem Condition.render_mapStrings {c : Condition} (h : c.validate = .ok ()) :
    Maps (Sql.mapStrings f) (c.render s) ((c.mapStrings f).render s) := by
  cases c with
  | simple p => exact Comparison.render_mapStrings h
  | columns p => exact maps_silent f (ColumnComparison.render_sound h)
  | between p => exact Between.render_mapStrings h

-- ========================================================= select list

/-- Of the arguments of an offset the default may be a string. Whether an
offset is written does not depend on what the string is. -/
theorem WindowExpr.offsetArguments_mapStrings {w : WindowExpr}
    (h : ∀ v ∈ w.default, Writable v) :
    (w.mapStrings f).offsetArguments = w.offsetArguments.map (Sql.mapStrings f) := by
  have hint : ∀ i, (Sql.int i).mapStrings f = Sql.int i := fun i =>
    (Sql.int_sound i).mapStrings_eq
  unfold offsetArguments mapStrings
  cases hd : w.default with
  | some v =>
      simp only [Option.map_some, List.map_cons, List.map_nil, hint,
        Literal.sql_mapStrings (h v hd)]
  | none =>
      cases w.offset with
      | none => rfl
      | some n =>
          dsimp only [Option.map_none]
          split
          · rfl
          · rw [List.map_singleton, hint]

/-- A function with an offset has it among its arguments, and the others have
no strings. -/
theorem WindowExpr.renderArguments_mapStrings {w : WindowExpr}
    (hargument : w.validateArgument = .ok ()) (hoffset : w.validateOffset = .ok ()) :
    Maps (Sql.mapStrings f) (w.renderArguments s) ((w.mapStrings f).renderArguments s) := by
  obtain ⟨hcolumn, -⟩ := validateArgument_eq_ok.1 hargument
  obtain ⟨-, -, hwritable⟩ := validateOffset_eq_ok.1 hoffset
  have hfunction : (w.mapStrings f).function = w.function := rfl
  have hsame : (w.mapStrings f).column = w.column := rfl
  unfold renderArguments
  rw [hfunction, hsame]
  cases hc : w.column with
  | none =>
      dsimp only
      split
      · exact maps_pure rfl
      · split
        · exact maps_pure rfl
        · exact maps_fail _ _
  | some c =>
      dsimp only
      split
      · exact maps_fail _ _
      · refine (maps_silent f (Scope.render_sound (hcolumn c hc).2)).bind fun column =>
          maps_pure ?_
        -- the column has no strings, and of what follows it only the default has any
        split
        · rw [Sql.mapStrings_listed, offsetArguments_mapStrings hwritable]
          rfl
        · rfl

theorem WindowExpr.render_mapStrings {w : WindowExpr} (h : w.validate = .ok ()) :
    Maps (Sql.mapStrings f) (w.render s) ((w.mapStrings f).render s) := by
  obtain ⟨-, hargument, hoffset, hpartition, horder⟩ := validate_eq_ok.1 h
  have harguments := renderArguments_mapStrings (f := f) (s := s) hargument hoffset
  have hover : Maps (Sql.mapStrings f) (w.renderOver s) ((w.mapStrings f).renderOver s) :=
    maps_silent f (renderOver_sound hpartition horder)
  refine Maps.bind (g := Sql.mapStrings f) ?_ fun body => maps_pure ?_
  · refine harguments.bind fun arguments => hover.bind fun window => maps_pure ?_
    simp only [Sql.mapStrings_spaced, Sql.mapStrings_call, List.map_cons, List.map_nil,
      mapStrings]
  · exact (Sql.mapStrings_named _ _).symm

theorem CaseResult.render_mapStrings {r : CaseResult} (h : r.validate = .ok ()) :
    Maps (Sql.mapStrings f) (r.render s) ((r.mapStrings f).render s) := by
  obtain ⟨-, hliteral⟩ := validate_eq_ok.1 h
  cases r with
  | column c => exact maps_silent f (CaseResult.render_sound h)
  | literal v => exact maps_pure (Literal.sql_mapStrings (hliteral v rfl))

/-- A branch changes in its test and its result. -/
theorem CaseBranch.render_mapStrings {b : CaseBranch} (h : b.validate = .ok ()) :
    Maps (Sql.mapStrings f) (b.render s) ((b.mapStrings f).render s) := by
  obtain ⟨hcondition, hresult⟩ := validate_eq_ok.1 h
  apply (Comparison.render_mapStrings hcondition).bind
  intro condition
  refine (CaseResult.render_mapStrings hresult).bind fun result => maps_pure ?_
  simp only [Sql.mapStrings_spaced, Sql.mapStrings_words, List.map_cons, List.map_nil]

/-- A CASE changes in its branches and its ELSE, in tests and in results. -/
theorem CaseExpr.render_mapStrings {c : CaseExpr} (h : c.validate = .ok ()) :
    Maps (Sql.mapStrings f) (c.render s) ((c.mapStrings f).render s) := by
  obtain ⟨hne, hbranches, hotherwise, -⟩ := validate_eq_ok.1 h
  have helse : Maps (Sql.mapStrings f) (c.renderElse s) ((c.mapStrings f).renderElse s) := by
    unfold renderElse mapStrings
    cases ho : c.otherwise with
    | none => exact maps_pure (Sql.mapStrings_words _).symm
    | some r => exact CaseResult.render_mapStrings (hotherwise r ho)
  unfold render
  have hempty : (c.mapStrings f).branches.isEmpty = c.branches.isEmpty := List.isEmpty_map
  rw [hempty]
  split
  · exact maps_fail _ _
  · refine (maps_each fun b hb => CaseBranch.render_mapStrings (hbranches b hb)).bind
      fun branches => helse.bind fun otherwise => maps_pure ?_
    simp only [Sql.mapStrings_spaced, Sql.mapStrings_words, List.map_append, List.map_cons,
      List.map_nil]

/-- A window and a CASE are the items with strings. -/
theorem SelectExpr.render_mapStrings {e : SelectExpr} (h : e.validate = .ok ()) :
    Maps (Sql.mapStrings f) (e.render s) ((e.mapStrings f).render s) := by
  cases e with
  | window e => exact WindowExpr.render_mapStrings h
  | case e =>
      exact (CaseExpr.render_mapStrings h).bind fun body =>
        maps_pure (Sql.mapStrings_named _ _).symm
  | column e => exact maps_silent f (SelectExpr.render_sound h)
  | binary e => exact maps_silent f (SelectExpr.render_sound h)
  | compound e => exact maps_silent f (SelectExpr.render_sound h)
  | aggregate e => exact maps_silent f (SelectExpr.render_sound h)

-- ============================================================= filters

theorem ConditionGroup.renderBody_mapStrings {g : ConditionGroup}
    (h : g.validate = .ok ()) :
    Maps (Sql.mapStrings f) (g.renderBody s) ((g.mapStrings f).renderBody s) := by
  obtain ⟨-, hall⟩ := validate_eq_ok.1 h
  unfold renderBody
  have hempty : (g.mapStrings f).conditions.isEmpty = g.conditions.isEmpty :=
    List.isEmpty_map
  rw [hempty]
  split
  · exact maps_fail _ _
  · exact (maps_each fun c hc => Condition.render_mapStrings (hall c hc)).bind
      fun conditions => maps_pure (Sql.mapStrings_join _ _).symm

/-- In parentheses or not, since the number of tests stays. -/
theorem ConditionGroup.render_mapStrings {g : ConditionGroup} (h : g.validate = .ok ()) :
    Maps (Sql.mapStrings f) (g.render s) ((g.mapStrings f).render s) := by
  refine (renderBody_mapStrings h).bind fun body => maps_pure ?_
  have hlength : (g.mapStrings f).conditions.length = g.conditions.length :=
    List.length_map _
  rw [hlength]
  split
  · exact (Sql.mapStrings_parens _).symm
  · rfl

/-- The ON of a join changes in its groups. -/
theorem Join.renderOn_mapStrings {groups : List ConditionGroup}
    (h : ∀ g ∈ groups, g.validate = .ok ()) :
    Maps (Sql.mapStrings f) (renderOn s groups)
      (renderOn s (groups.map (ConditionGroup.mapStrings f))) := by
  match groups with
  | [] => exact maps_fail _ _
  | [g] => exact ConditionGroup.renderBody_mapStrings (h g (List.mem_singleton_self g))
  | g :: g' :: rest =>
      refine (maps_each fun g hg => ConditionGroup.renderBody_mapStrings (h g hg)).bind
        fun bodies => maps_pure ?_
      simp only [Sql.mapStrings_join, List.map_map]
      congr 1
      exact List.map_congr_left fun body _ => (Sql.mapStrings_parens body).symm

/-- A filter changes in its groups and its ranges. -/
theorem Filter.renderParts_mapStrings {w : Filter}
    (hg : ∀ g ∈ w.groups, g.validate = .ok ()) (hb : ∀ p ∈ w.between, p.validate = .ok ()) :
    Maps (List.map (Sql.mapStrings f)) (w.renderParts s) ((w.mapStrings f).renderParts s) := by
  refine (maps_each fun g hm => ConditionGroup.render_mapStrings (hg g hm)).bind
    fun groups => ?_
  refine (maps_each fun p hm => Between.render_mapStrings (hb p hm)).bind
    fun ranges => maps_pure ?_
  rw [List.map_append]

theorem Sql.joinParts_mapStrings (e : Entity) (logic : Logic) (parts : List Sql) :
    Maps (Sql.mapStrings f) (joinParts e logic parts)
      (joinParts e logic (parts.map (Sql.mapStrings f))) := by
  unfold joinParts
  rw [List.isEmpty_map]
  split
  · exact maps_fail _ _
  · exact maps_pure (Sql.mapStrings_join _ _).symm

theorem Filter.render_mapStrings {w : Filter} (h : w.validate = .ok ()) :
    Maps (Sql.mapStrings f) (w.render s) ((w.mapStrings f).render s) := by
  obtain ⟨-, hgroups, hranges⟩ := validate_eq_ok.1 h
  exact (renderParts_mapStrings hgroups hranges).bind fun parts =>
    Sql.joinParts_mapStrings _ _ parts

theorem Filter.renderOptional_mapStrings {w : Option Filter}
    (h : ∀ v ∈ w, v.validate = .ok ()) :
    Maps (List.map (Sql.mapStrings f)) (renderOptional s w)
      (renderOptional s (w.map (mapStrings f))) := by
  cases w with
  | none => exact maps_pure rfl
  | some v =>
      refine (Filter.render_mapStrings (h v rfl)).bind fun body => maps_pure ?_
      simp only [Sql.mapStrings_words, List.map_cons, List.map_nil]

theorem Sql.groupBy_mapStrings (columns : List Column) :
    (Sql.groupBy columns).map (Sql.mapStrings f) = Sql.groupBy columns := by
  unfold Sql.groupBy
  split
  · rfl
  · simp only [List.map_cons, List.map_nil, Sql.mapStrings_words,
      (Sql.columns_sound columns).mapStrings_eq]

theorem ScalarSubquery.render_mapStrings {q : ScalarSubquery} (h : q.validate = .ok ()) :
    Maps (Sql.mapStrings f) (q.render s) ((q.mapStrings f).render s) := by
  obtain ⟨hname, haggregate, hfilter⟩ := validate_eq_ok.1 h
  apply maps_then
  intro inner
  apply (maps_silent f (AggregateExpr.renderCall_sound haggregate)).bind
  intro aggregate
  refine (Filter.renderOptional_mapStrings hfilter).bind fun filter => maps_pure ?_
  simp only [Sql.mapStrings_parens, Sql.mapStrings_spaced, Sql.mapStrings_words,
    List.map_append, List.map_cons, List.map_nil, mapStrings,
    (Sql.table_sound hname).mapStrings_eq, Sql.groupBy_mapStrings]

/-- A test against a subquery changes in the subquery. -/
theorem SubqueryCondition.render_mapStrings {p : SubqueryCondition}
    (h : p.validate = .ok ()) :
    Maps (Sql.mapStrings f) (p.render s) ((p.mapStrings f).render s) := by
  obtain ⟨hcolumn, -, -, hsubquery⟩ := validate_eq_ok.1 h
  apply (maps_silent f (Scope.render_sound hcolumn)).bind
  intro column
  refine (ScalarSubquery.render_mapStrings hsubquery).bind fun subquery => maps_pure ?_
  simp only [Sql.mapStrings_spaced, List.map_cons, List.map_nil, mapStrings,
    p.op.sql_sound.mapStrings_eq]

/-- The filter of a query changes in its parts and in its subqueries. -/
theorem TopFilter.render_mapStrings {w : TopFilter} (h : w.validate = .ok ()) :
    Maps (Sql.mapStrings f) (w.render s) ((w.mapStrings f).render s) := by
  obtain ⟨-, hgroups, hranges, hsubqueries⟩ := validate_eq_ok.1 h
  apply (Filter.renderParts_mapStrings hgroups hranges).bind
  intro parts
  refine (maps_each fun p hp => SubqueryCondition.render_mapStrings (hsubqueries p hp)).bind
    fun subqueries => ?_
  rw [← List.map_append]
  exact Sql.joinParts_mapStrings _ _ _

-- ============================================================= sources

/-- Only the text of a source changes, not the scope it makes. -/
def Sql.mapFirst {α : Type} (g : α → α) (p : α × Scope) : α × Scope := (g p.1, p.2)

/-- A derived table changes in its items and its filter, and keeps its scope.
-/
theorem DerivedTable.render_mapStrings (settings : Settings) {d : DerivedTable}
    (h : d.validate = .ok ()) :
    Maps (Sql.mapStrings f) (d.render settings) ((d.mapStrings f).render settings) := by
  obtain ⟨-, -, hselect, hfilter⟩ := validate_eq_ok.1 h
  unfold render
  have hempty : (d.mapStrings f).select.isEmpty = d.select.isEmpty := List.isEmpty_map
  rw [hempty]
  split
  · exact maps_fail _ _
  apply maps_then
  intro inner
  refine (maps_each fun e he => SelectExpr.render_mapStrings (hselect e he)).bind
    fun items => ?_
  refine (Filter.renderOptional_mapStrings hfilter).bind fun filter => maps_pure ?_
  have htable : (Sql.table d.table none).mapStrings f = Sql.table d.table none := rfl
  simp only [Sql.mapStrings_named, Sql.mapStrings_parens, Sql.mapStrings_spaced,
    Sql.mapStrings_listed, Sql.mapStrings_words, List.map_append, List.map_cons,
    List.map_nil, mapStrings, htable, Sql.groupBy_mapStrings]

/-- A table has no strings, and a derived table changes inside. The scope
does not change, as names are not strings. -/
theorem FromClause.renderTable_mapStrings (settings : Settings) {c : FromClause}
    (h : c.validateSource = .ok ()) :
    Maps (Sql.mapFirst (Sql.mapStrings f)) (c.renderTable settings)
      ((c.mapStrings f).renderTable settings) := by
  have htable : (c.mapStrings f).table = c.table := rfl
  have hderived : (c.mapStrings f).derived = c.derived.map (DerivedTable.mapStrings f) := rfl
  unfold renderTable
  rw [htable, hderived]
  rcases validateSource_eq_ok.1 h with ⟨table, ht, hd, hname⟩ | ⟨d, ht, hd, -, hvalid⟩
  · rw [ht, hd]
    refine maps_then fun inner => maps_pure ?_
    rw [Sql.mapFirst, (Sql.table_sound hname).mapStrings_eq]
    rfl
  · rw [ht, hd]
    exact (DerivedTable.render_mapStrings settings hvalid).bind fun body =>
      maps_then fun inner => maps_pure rfl

theorem Join.render_mapStrings {j : Join} (h : j.validate = .ok ()) :
    Maps (Sql.mapFirst (Sql.mapStrings f)) (j.render s) ((j.mapStrings f).render s) := by
  obtain ⟨-, hname, hon⟩ := validate_eq_ok.1 h
  apply maps_then
  intro inner
  refine (renderOn_mapStrings hon).bind fun on => maps_pure ?_
  simp only [Sql.mapFirst, Sql.mapStrings_spaced, Sql.mapStrings_words, List.map_cons,
    List.map_nil, mapStrings, (Sql.table_sound hname).mapStrings_eq]

/-- Joins change one after the other, each in the scope it had. -/
theorem Join.renderAll_mapStrings {joins : List Join} :
    ∀ s : Scope, (∀ j ∈ joins, j.validate = .ok ()) →
      Maps (Sql.mapFirst (List.map (Sql.mapStrings f))) (renderAll s joins)
        (renderAll s (joins.map (mapStrings f))) := by
  induction joins with
  | nil => intro s _; exact maps_pure rfl
  | cons j rest ih =>
      intro s h
      apply (Join.render_mapStrings (h j (List.mem_cons_self ..))).bind
      intro p
      exact (ih p.2 fun j' hj => h j' (List.mem_cons_of_mem _ hj)).bind fun p' =>
        maps_pure rfl

/-- A source changes in its derived table and its joins, each of which is a
line of its own. -/
theorem FromClause.render_mapStrings (settings : Settings) {c : FromClause}
    (h : c.validate = .ok ()) :
    Maps (Sql.mapFirst (List.map (Sql.mapStrings f))) (c.render settings)
      ((c.mapStrings f).render settings) := by
  obtain ⟨hsource, hjoins⟩ := validate_eq_ok.1 h
  apply (renderTable_mapStrings settings hsource).bind
  intro p
  apply (Join.renderAll_mapStrings p.2 hjoins).bind
  intro p'
  have hlength : (c.mapStrings f).joins.length = c.joins.length := List.length_map _
  rw [hlength]
  refine maps_then fun _ => maps_pure ?_
  simp only [Sql.mapFirst, Sql.mapStrings_spaced, Sql.mapStrings_words, List.map_cons,
    List.map_nil]

-- ============================================================= clauses

theorem SelectExpr.renderList_mapStrings {items : List SelectExpr}
    (h : ∀ e ∈ items, e.validate = .ok ()) :
    Maps (Sql.mapStrings f) (renderList s items) (renderList s (items.map (mapStrings f))) := by
  unfold renderList
  rw [List.isEmpty_map, List.length_map]
  split
  · exact maps_fail _ _
  refine (maps_each fun e he => SelectExpr.render_mapStrings (h e he)).bind fun rows => ?_
  refine maps_then fun _ => maps_pure ?_
  simp only [Sql.mapStrings_spaced, Sql.mapStrings_words, Sql.mapStrings_separated,
    List.map_cons, List.map_nil]
  rfl

/-- A test on a group may be against a string. -/
theorem HavingCondition.render_mapStrings {p : HavingCondition} (h : p.validate = .ok ()) :
    Maps (Sql.mapStrings f) (p.render s) ((p.mapStrings f).render s) := by
  obtain ⟨-, -, -, -, hvalue⟩ := validate_eq_ok.1 h
  refine (maps_silent f (renderCall_sound h)).bind fun call => maps_pure ?_
  simp only [Sql.mapStrings_spaced, List.map_cons, List.map_nil, mapStrings,
    p.op.sql_sound.mapStrings_eq, Literal.sql_mapStrings hvalue]

theorem Having.render_mapStrings {h : Having} (hv : h.validate = .ok ()) :
    Maps (Sql.mapStrings f) (h.render s) ((h.mapStrings f).render s) := by
  obtain ⟨-, hall⟩ := validate_eq_ok.1 hv
  unfold render
  have hempty : (h.mapStrings f).conditions.isEmpty = h.conditions.isEmpty :=
    List.isEmpty_map
  rw [hempty]
  split
  · exact maps_fail _ _
  refine (maps_each fun p hp => HavingCondition.render_mapStrings (hall p hp)).bind
    fun rows => maps_pure ?_
  simp only [Sql.mapStrings_spaced, Sql.mapStrings_words, Sql.mapStrings_join,
    List.map_cons, List.map_nil, mapStrings]

end

/-- The line of a clause changes as the clause does. -/
theorem Sql.optionalLine_mapStrings {f : String → String} {α : Type} {clause : PlainClause}
    {render : α → Traced Sql} {change : α → α} {o : Option α}
    (h : ∀ a ∈ o, Maps (Sql.mapStrings f) (render a) (render (change a))) :
    Maps (List.map (Sql.mapStrings f)) (optionalLine clause render o)
      (optionalLine clause render (o.map change)) := by
  cases o with
  | none => exact maps_pure rfl
  | some a => exact (h a rfl).bind fun line => maps_then fun _ => maps_pure rfl

/-- A clause without strings keeps its line. -/
theorem Sql.optionalLine_silent_mapStrings (f : String → String) {α : Type}
    {clause : PlainClause} {render : α → Traced Sql} {o : Option α}
    (h : ∀ a ∈ o, (render a).Yields fun row => Sound row []) :
    Maps (List.map (Sql.mapStrings f)) (optionalLine clause render o)
      (optionalLine clause render o) :=
  maps_self fun rows hrows => (optionalLine_silent h rows hrows).mapStrings_eq rfl

-- =============================================================== query

/-- The lines of a query with its strings changed are its lines with
their strings changed. -/
theorem Query.renderLines_mapStrings (f : String → String) (settings : Settings)
    {q : Query} (h : q.validate = .ok ()) :
    Maps (List.map (Sql.mapStrings f)) (q.renderLines settings)
      ((q.mapStrings f).renderLines settings) := by
  obtain ⟨-, hselect, hsource, hfilter, -, hhaving, horder⟩ := validate_eq_ok.1 h
  apply (FromClause.render_mapStrings settings hsource).bind
  intro p
  apply (SelectExpr.renderList_mapStrings hselect).bind
  intro select
  have htop : ∀ w ∈ q.filter, Maps (Sql.mapStrings f) (w.renderClause p.2)
      ((w.mapStrings f).renderClause p.2) := fun w hw =>
    (TopFilter.render_mapStrings (hfilter w hw)).bind fun body => maps_pure (by
      simp only [Sql.mapStrings_spaced, Sql.mapStrings_words, List.map_cons, List.map_nil])
  apply (Sql.optionalLine_mapStrings htop).bind
  intro filter
  refine (Sql.optionalLine_silent_mapStrings f fun g _ => g.render_sound).bind
    fun groupBy => ?_
  have htests : ∀ h ∈ q.having, Maps (Sql.mapStrings f) (h.render p.2)
      ((h.mapStrings f).render p.2) := fun h hh => Having.render_mapStrings (hhaving h hh)
  apply (Sql.optionalLine_mapStrings htests).bind
  intro having
  refine (Sql.optionalLine_silent_mapStrings f fun o ho =>
    OrderBy.render_sound (horder o ho).1).bind fun orderBy => maps_pure ?_
  have hlimit : (q.limit.map Limit.sql).toList.map (Sql.mapStrings f) =
      (q.limit.map Limit.sql).toList := by
    cases q.limit with
    | none => rfl
    | some l =>
        show [l.sql.mapStrings f] = [l.sql]
        rw [l.sql_sound.mapStrings_eq]
  simp only [List.map_append, List.map_cons, List.map_nil, hlimit, mapStrings]

/-- Between the clauses stands a line end. -/
theorem Query.sound_of_renderLines {settings : Settings} {q : Query} {lines : List Sql}
    (hv : q.validate = .ok ()) (h : (q.renderLines settings).outcome = .ok lines) :
    Sound (Sql.separated [Sql.lineEnd] lines) q.strings :=
  .separated (Sql.separator_blank ⟨by decide, by decide⟩) (renderLines_sound settings hv lines h)

/-- Two valid queries that differ in the contents of strings only are
written as lines that differ in the contents of strings only. -/
theorem Query.renderLines_of_blanked {settings : Settings} {q q' : Query} {lines : List Sql}
    (hv : q.validate = .ok ()) (hv' : q'.validate = .ok ()) (heq : q'.blanked = q.blanked)
    (h : (q.renderLines settings).outcome = .ok lines) :
    ∃ lines', (q'.renderLines settings).outcome = .ok lines' ∧
      lines'.map (Sql.mapStrings fun _ => "") = lines.map (Sql.mapStrings fun _ => "") := by
  have hmap := renderLines_mapStrings (fun _ => "") settings hv
  have hmap' := renderLines_mapStrings (fun _ => "") settings hv'
  have hblanked : (q'.mapStrings fun _ => "") = q.mapStrings fun _ => "" := heq
  rw [hblanked] at hmap'
  have hsame := hmap'.symm.trans hmap
  rw [h] at hsame
  cases h' : (q'.renderLines settings).outcome with
  | error e => rw [h'] at hsame; cases hsame
  | ok lines' =>
      rw [h'] at hsame
      exact ⟨lines', rfl, Except.ok.inj hsame⟩

/-- The text of a sound row is scanned as its tokens. -/
theorem Sql.Sound.scan_text {row : Sql} {strings : List String} (h : Sound row strings) :
    scan (Sql.text row).toList = some row.tokens := by
  rw [Sql.text, String.toList_ofList]
  exact Sql.scan_chars h.clean h.chain

-- ========================================================= main result

/-- No string gets out of its quotes. The SQL of a valid query is scanned
without an unfinished string, a comment or a semicolon and with balanced
parentheses, and its string tokens are the strings of the query in the
order of the clauses. With any other strings without zeros in their place
the query is valid still, and its tokens differ in nothing but the contents
of those strings. -/
theorem Query.strings_stay_quoted {settings : Settings} {q : Query} {sql : String}
    (hv : q.validate = .ok ()) (hsql : q.toSql settings = .ok sql) :
    ∃ tokens, scan sql.toList = some tokens ∧
      (∀ t ∈ tokens, t.isPlain = true) ∧ Token.Balanced tokens ∧
      tokens.filterMap Token.content? = q.strings ∧
      ∀ q' : Query, q'.blanked = q.blanked → (∀ s ∈ q'.strings, NulFree s) →
        q'.validate = .ok () ∧
        ∃ sql' tokens', q'.toSql settings = .ok sql' ∧ scan sql'.toList = some tokens' ∧
          tokens'.map Token.blanked = tokens.map Token.blanked ∧
          tokens'.filterMap Token.content? = q'.strings := by
  rw [toSql_eq] at hsql
  cases hlines : (q.renderLines settings).outcome with
  | error e => rw [hlines] at hsql; cases hsql
  | ok lines =>
      rw [hlines] at hsql
      cases hsql
      have hsound := sound_of_renderLines hv hlines
      refine ⟨_, hsound.scan_text, Sql.isPlain_of_clean hsound.clean, hsound.nested 0,
        (Sql.content_tokens _).trans hsound.strings, fun q' heq hnul => ?_⟩
      -- the other query is valid since validity looks at strings for NUL alone
      have hv' := validate_of_blanked hv heq hnul
      obtain ⟨lines', hlines', hsame⟩ := renderLines_of_blanked hv hv' heq hlines
      have hsound' := sound_of_renderLines hv' hlines'
      refine ⟨hv', _, _, ?_, hsound'.scan_text, ?_,
        (Sql.content_tokens _).trans hsound'.strings⟩
      · rw [toSql_eq, hlines']
        rfl
      · rw [Sql.tokens_map_blanked, Sql.tokens_map_blanked, Sql.mapStrings_separated,
          Sql.mapStrings_separated, hsame]

/-- The sample with every string turned into one that tries to end its
quotes. -/
theorem Query.sample_strings_stay_quoted :
    ∃ sql tokens, sample.toSql {} = .ok sql ∧ scan sql.toList = some tokens ∧
      tokens.filterMap Token.content? = ["O'%", "it's", "--", "a", "';"] ∧
      ∃ sql' tokens', (sample.mapStrings fun s => s ++ "'; --\\").toSql {} = .ok sql' ∧
        scan sql'.toList = some tokens' ∧
        tokens'.map Token.blanked = tokens.map Token.blanked := by
  have hv : sample.validate = .ok () := by decide +kernel
  obtain ⟨sql, hsql⟩ := toSql_of_checkScope hv
    (by decide +kernel : sample.checkScope {} = .ok ())
  obtain ⟨tokens, hscan, -, -, hstrings, hother⟩ := strings_stay_quoted hv hsql
  obtain ⟨-, sql', tokens', hsql', hscan', hsame, -⟩ :=
    hother (sample.mapStrings fun s => s ++ "'; --\\") (by decide +kernel) (by
      unfold NulFree
      decide +kernel)
  refine ⟨sql, tokens, hsql, hscan, ?_, sql', tokens', hsql', hscan', hsame⟩
  rw [hstrings]
  decide +kernel

end TypedSelect
