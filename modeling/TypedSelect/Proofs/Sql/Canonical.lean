/-
The canonical form of a query is written as the query is.

What `Query.canonical` changes is what the renderers leave out, so each
part of a valid query renders like its canonical form, reports included.
One lemma for each renderer. The text gives the canonical form back, so
the two say the same: no canonical form takes queries together that have
different texts, and no text has two.

# What validity is for

The equations are of renderings and hold in any scope, but most of them
only for valid nodes. A constant is compared with its form through its
text, and it has one if it is finite. A call of an aggregate is written by
another branch of the renderer than its form is, and the branches agree on
the inputs that the function takes. Keys of a sort ask for nothing.

# Rendering by equations

Renderings are sequences of steps, and two sequences are compared step by
step with the laws of monads, which is why they are shown to hold here.
Elements that render alike render alike in a list (`Traced.each_map`), and
what is in a list beside others may be moved to another list if the text
does not show the difference (`Traced.each_append`).

# Keys of a sort

A caller meets the canonical form in the keys of a sort. A column without
a table and an output of the select list are written alike where they have
one name, and SQL takes such a key for the output.
-/
import TypedSelect.Proofs.Query.RoundTrip
import TypedSelect.Proofs.Sql.Reading.Statement

namespace TypedSelect

open Traced (each)
open Validation (Writable)

-- ========================================================= renderings

namespace Traced

variable {α β γ : Type}

instance : LawfulMonad Traced := by
  refine LawfulMonad.mk' Traced ?_ (fun _ _ => rfl) ?_
  · intro α x
    obtain ⟨events, outcome⟩ := x
    show Traced.bind _ _ = _
    unfold Traced.bind
    cases outcome with
    | error e => rfl
    | ok a => exact congrArg (Traced.mk · _) (List.append_nil events)
  · intro α β γ x f g
    obtain ⟨events, outcome⟩ := x
    show Traced.bind (Traced.bind _ _) _ = Traced.bind _ fun _ => Traced.bind _ _
    unfold Traced.bind
    cases outcome with
    | error e => rfl
    | ok a =>
        dsimp only
        cases (f a).outcome with
        | error e => rfl
        | ok b => exact congrArg (Traced.mk · _) (List.append_assoc ..)

/-- Elements that render as others do, one by one. -/
theorem each_map {k : α → β} {f : α → Traced γ} {f' : β → Traced γ} {l : List α}
    (h : ∀ a ∈ l, f' (k a) = f a) : each f' (l.map k) = each f l := by
  induction l with
  | nil => rfl
  | cons a rest ih =>
      rw [List.map_cons, each, each, h a (List.mem_cons_self ..),
        ih fun a' ha' => h a' (List.mem_cons_of_mem _ ha')]

theorem each_cons (f : α → Traced β) (a : α) (l : List α) :
    each f (a :: l) = do return (← f a) :: (← each f l) := rfl

theorem each_append (f : α → Traced β) (l l' : List α) :
    each f (l ++ l') = do return (← each f l) ++ (← each f l') := by
  induction l with
  | nil => exact (bind_pure _).symm
  | cons a rest ih =>
      simp only [List.cons_append, each_cons, ih, bind_assoc, pure_bind]

end Traced

open Traced (each_map each_append)

-- ========================================================== constants

/-- A number that is finite is so in canonical form. -/
theorem Number.isFinite_canonical {n : Number} (h : n.isFinite = true) :
    n.canonical.isFinite = true := by
  cases n with
  | int i => rfl
  | float x =>
      unfold canonical
      dsimp only
      cases Int64.ofText? x.isNegative x.unsignedText with
      | none => exact h
      | some i => rfl

/-- A finite number is written like its canonical form: one of floating point
that is written as a whole number of 64 bits is that whole number. -/
theorem Number.sql_canonical {n : Number} (h : n.isFinite = true) : n.canonical.sql = n.sql := by
  obtain ⟨hsign, htext⟩ := text_canonical h
  rw [sql_eq (isFinite_canonical h), sql_eq h, hsign, htext]

/-- A number is written the same as a constant. -/
theorem Literal.sql_ofNumber (n : Number) : (Literal.ofNumber n).sql = n.sql := by
  cases n <;> rfl

/-- A constant that can be written is written like its canonical form. -/
theorem Literal.sql_canonical {v : Literal} (h : Writable v) : v.canonical.sql = v.sql := by
  cases v with
  | float x =>
      rw [canonical, sql_ofNumber]
      exact Number.sql_canonical (n := .float x) h
  | _ => rfl

section

variable {s : Scope}

-- ========================================================= expressions

/-- A column without a table is always admitted, so as a key of a sort it is
written like an output of that name. -/
theorem SortKey.render_canonical (key : SortKey) : key.canonical.render s = key.render s := by
  cases key with
  | output name => rfl
  | column c =>
      obtain ⟨_ | q, column⟩ := c
      · rfl
      · rfl

/-- A sort key is written with the same direction. -/
theorem OrderItem.render_canonical (i : OrderItem) : i.canonical.render s = i.render s := by
  unfold render canonical
  rw [SortKey.render_canonical]

/-- An operand is a column, which stays, or a number. -/
theorem Operand.render_canonical {e : Entity} {field : String} {o : Operand}
    (h : o.validate e field = .ok ()) : o.canonical.render s = o.render s := by
  cases o with
  | column c => rfl
  | number n =>
      have hn := (validate_eq_ok.1 h).2 n rfl
      show Pure.pure n.canonical.sql = Pure.pure n.sql
      rw [Number.sql_canonical hn]

/-- An operation is written like its canonical form if its operands are. -/
theorem Arithmetic.render_canonical {a : Arithmetic}
    (hleft : a.left.canonical.render s = a.left.render s)
    (hright : a.right.canonical.render s = a.right.render s) :
    a.canonical.render s = a.render s := by
  unfold render canonical
  rw [hleft, hright]

theorem Arithmetic.render_canonical_of_valid {e : Entity} {a : Arithmetic}
    (h : a.validate e = .ok ()) : a.canonical.render s = a.render s := by
  obtain ⟨hleft, hright, -⟩ := validate_eq_ok.1 h
  exact render_canonical (Operand.render_canonical hleft) (Operand.render_canonical hright)

/-- So it is with an operation on an operation, on either side. -/
theorem CompoundArithmetic.render_canonical {c : CompoundArithmetic} (h : c.validate = .ok ()) :
    c.canonical.render s = c.render s := by
  obtain ⟨hleft, hright, houter, -⟩ := validate_eq_ok.1 h
  have hinner : c.inner.canonical.render s = c.inner.render s :=
    Arithmetic.render_canonical (Operand.render_canonical hleft) (Operand.render_canonical hright)
  unfold render canonical
  rw [hinner, Operand.render_canonical houter]

-- ========================================================== aggregates

/-- The median is a fraction like another. -/
theorem Double.sql_half : Double.half.sql = Sql.half := by decide +kernel

/-- What stands between the parentheses does not depend on the function
where there is an input. -/
theorem AggregateExpr.renderInput_canonical {a a' : AggregateExpr} {input : AggregateInput}
    (h : input.validate = .ok ()) (hinput : a.input = some input)
    (hinput' : a'.input = some input.canonical) : a'.renderInput s = a.renderInput s := by
  unfold renderInput
  rw [hinput, hinput']
  cases input with
  | column c => rfl
  | arithmetic e => exact Arithmetic.render_canonical_of_valid h

/-- A call is written like its canonical form. A count of distinct values and
a median are the two functions that have another form, and each is written by
its own branch as the form is by the branch of the other function. -/
theorem AggregateExpr.renderCall_canonical {a : AggregateExpr} (h : a.validate = .ok ()) :
    a.canonical.renderCall s = a.renderCall s := by
  obtain ⟨-, hvalid, -, -⟩ := validate_eq_ok.1 h
  obtain ⟨hinput, hcount⟩ := validateInput_eq_ok.1 hvalid
  obtain ⟨function, input, distinct, percentile, aliasName⟩ := a
  cases input with
  | none =>
      obtain ⟨hf, hd⟩ := hcount rfl
      cases hf
      cases hd
      rfl
  | some input =>
      -- whichever name the function goes by, it has the same input
      have hsame : ∀ f d p, renderInput s ⟨f, some input.canonical, d, p, aliasName⟩ =
          renderInput s ⟨function, some input, distinct, percentile, aliasName⟩ :=
        fun f d p => renderInput_canonical (hinput input rfl) rfl rfl
      cases function with
      | count =>
          cases distinct with
          | false => exact congrArg (· >>= _) (hsame .count false percentile)
          | true =>
              exact congrArg (· >>= fun row => Pure.pure (Sql.distinctCall "COUNT" row))
                (hsame .countDistinct false percentile)
      | median =>
          show (do return Sql.percentile _ Double.half.sql (← renderInput s _)) = _
          rw [Double.sql_half]
          exact congrArg (· >>= _) (hsame .percentileCont distinct (some .half))
      | _ => exact congrArg (· >>= _) (hsame _ _ _)

-- ============================================================= windows

/-- An offset that is left out counts as one, and an offset of one is written
only before a default. -/
theorem WindowExpr.offsetArguments_canonical {w : WindowExpr} (h : ∀ v ∈ w.default, Writable v)
    (hf : w.function.isOffset = true) : w.canonical.offsetArguments = w.offsetArguments := by
  obtain ⟨function, column, partition, order, offset, default, aliasName⟩ := w
  have hf : function.isOffset = true := hf
  unfold canonical offsetArguments
  dsimp only
  rw [if_pos hf]
  cases default with
  | none => cases offset <;> rfl
  | some d =>
      show [Sql.int _, d.canonical.sql] = _
      rw [Literal.sql_canonical (h d rfl)]
      rfl

/-- Of a window the arguments change and nothing else. An offset of one that
is left out is put in, and is not written either way where no default
follows. -/
theorem WindowExpr.render_canonical {w : WindowExpr} (h : w.validate = .ok ()) :
    w.canonical.render s = w.render s := by
  obtain ⟨-, -, hoffset, -⟩ := validate_eq_ok.1 h
  obtain ⟨-, -, hdefault⟩ := validateOffset_eq_ok.1 hoffset
  have harguments : w.canonical.renderArguments s = w.renderArguments s := by
    have hfunction : w.canonical.function = w.function := rfl
    unfold renderArguments
    rw [hfunction]
    cases hf : w.function.isOffset with
    | true =>
        rw [offsetArguments_canonical hdefault hf]
        rfl
    | false => rfl
  unfold render renderCall
  rw [harguments]
  rfl

-- ========================================================== predicates

/-- Constants in a list are written one by one. -/
theorem Literal.map_sql_canonical {values : List Literal} (h : ∀ v ∈ values, Writable v) :
    (values.map canonical).map sql = values.map sql := by
  rw [List.map_map]
  exact List.map_congr_left fun v hv => sql_canonical (h v hv)

/-- The operator and the form of the right side stay, and its constants
change. A list has as many constants as before. -/
theorem Comparison.render_canonical {p : Comparison} (h : p.validate = .ok ()) :
    p.canonical.render s = p.render s := by
  obtain ⟨-, hvalue⟩ := validate_eq_ok.1 h
  have hright : p.canonical.renderValue = p.renderValue := by
    unfold renderValue canonical
    rcases validateValue_eq_ok.1 hvalue with ⟨hn, hv⟩ | ⟨hn, hl, values, hv, -, hw⟩ |
      ⟨hn, hl, v, hv, -, hw⟩
    · simp only [hv, Option.map_none]
    · simp only [hn, hl, hv, Option.map_some, Comparand.canonical, List.isEmpty_map,
        Literal.map_sql_canonical hw]
    · simp only [hn, hl, hv, Option.map_some, Comparand.canonical, Literal.sql_canonical hw]
  unfold render
  rw [hright]
  rfl

theorem Between.render_canonical {p : Between} (h : p.validate = .ok ()) :
    p.canonical.render s = p.render s := by
  obtain ⟨-, hlow, hhigh⟩ := validate_eq_ok.1 h
  unfold render canonical
  dsimp only
  rw [Literal.sql_canonical hlow, Literal.sql_canonical hhigh]

theorem Condition.render_canonical {c : Condition} (h : c.validate = .ok ()) :
    c.canonical.render s = c.render s := by
  cases c with
  | simple p => exact Comparison.render_canonical h
  | columns p => rfl
  | between p => exact Between.render_canonical h

/-- A single row has no connective in it, so one can be put down for the
other. -/
theorem Logic.join_among (logic : Logic) {rows : List Sql} {parts : Nat}
    (h : rows.length = parts) : (logic.among parts).join rows = logic.join rows := by
  subst h
  unfold among
  split
  · cases rows with
    | nil => rfl
    | cons row rows =>
        cases rows with
        | nil => rfl
        | cons row' rows => cases ‹_ ≤ 1› with | step h => cases h
  · rfl

/-- A group of one test has the connective that it has in canonical form. -/
theorem ConditionGroup.renderBody_canonical {g : ConditionGroup} (h : g.validate = .ok ()) :
    g.canonical.renderBody s = g.renderBody s := by
  obtain ⟨-, hconditions⟩ := validate_eq_ok.1 h
  unfold renderBody canonical
  rw [List.isEmpty_map, each_map fun c hc => Condition.render_canonical (hconditions c hc)]
  split
  · rfl
  · exact Traced.bind_congr fun rows hrows => by
      rw [Logic.join_among g.logic (Traced.length_of_each hrows)]

/-- Parentheses go by how many tests there are, and that stays. -/
theorem ConditionGroup.render_canonical {g : ConditionGroup} (h : g.validate = .ok ()) :
    g.canonical.render s = g.render s := by
  unfold render
  rw [renderBody_canonical h, canonical, List.length_map]

/-- A range is written the same among the groups. -/
theorem ConditionGroup.render_single (c : Condition) :
    (single c).render s = c.render s := by
  show (each (Condition.render s) [c] >>= fun rows => Pure.pure (Logic.and.join rows)) >>=
    Pure.pure = _
  rw [bind_pure, Traced.each_cons]
  simp only [bind_assoc, pure_bind]
  exact bind_pure _

/-- The ON of a join goes by how many groups there are, and that stays. -/
theorem Join.renderOn_canonical {groups : List ConditionGroup}
    (h : ∀ g ∈ groups, g.validate = .ok ()) :
    Join.renderOn s (groups.map ConditionGroup.canonical) = Join.renderOn s groups := by
  cases groups with
  | nil => rfl
  | cons g groups =>
      cases groups with
      | nil => exact ConditionGroup.renderBody_canonical (h g (List.mem_cons_self ..))
      | cons g' groups =>
          show each _ (List.map _ (g :: g' :: groups)) >>= _ = _
          rw [each_map fun g hg => ConditionGroup.renderBody_canonical (h g hg)]
          rfl

-- ================================================================ case

/-- A result is a column, which stays, or a constant. -/
theorem CaseResult.render_canonical {r : CaseResult} (h : r.validate = .ok ()) :
    r.canonical.render s = r.render s := by
  cases r with
  | column c => rfl
  | literal v =>
      show Pure.pure v.canonical.sql = Pure.pure v.sql
      rw [Literal.sql_canonical ((validate_eq_ok.1 h).2 v rfl)]

theorem CaseBranch.render_canonical {b : CaseBranch} (h : b.validate = .ok ()) :
    b.canonical.render s = b.render s := by
  obtain ⟨hcondition, hresult⟩ := validate_eq_ok.1 h
  unfold render canonical
  rw [Comparison.render_canonical hcondition, CaseResult.render_canonical hresult]

theorem CaseExpr.render_canonical {c : CaseExpr} (h : c.validate = .ok ()) :
    c.canonical.render s = c.render s := by
  obtain ⟨-, hbranches, hotherwise, -⟩ := validate_eq_ok.1 h
  have helse : c.canonical.renderElse s = c.renderElse s := by
    unfold renderElse canonical
    cases hc : c.otherwise with
    | none => rfl
    | some r => exact CaseResult.render_canonical (hotherwise r hc)
  unfold render
  rw [helse]
  unfold canonical
  rw [List.isEmpty_map, each_map fun b hb => CaseBranch.render_canonical (hbranches b hb)]

/-- An item of one of six kinds. A column stays as it is, and the others
change where their parts do. -/
theorem SelectExpr.render_canonical {e : SelectExpr} (h : e.validate = .ok ()) :
    e.canonical.render s = e.render s := by
  cases e with
  | column e => rfl
  | binary e =>
      obtain ⟨hbody, -⟩ := BinaryArithmetic.validate_eq_ok.1 h
      exact congrArg (· >>= _) (Arithmetic.render_canonical_of_valid hbody)
  | compound e => exact congrArg (· >>= _) (CompoundArithmetic.render_canonical h)
  | aggregate e =>
      have hname : e.canonical.aliasName = e.aliasName := AggregateExpr.aliasName_merged _
      show e.canonical.renderCall s >>= _ = _
      rw [AggregateExpr.renderCall_canonical h, hname]
      rfl
  | window e => exact WindowExpr.render_canonical h
  | case e => exact congrArg (· >>= _) (CaseExpr.render_canonical h)

-- ============================================================= filters

/-- A filter whose groups are all the parts of another. Ranges become groups
of one, which are written without parentheses. -/
theorem Filter.renderParts_canonical {w w' : Filter} (hg : ∀ g ∈ w.groups, g.validate = .ok ())
    (hb : ∀ p ∈ w.between, p.validate = .ok ()) (hgroups : w'.groups = w.canonicalGroups)
    (hbetween : w'.between = []) : w'.renderParts s = w.renderParts s := by
  have hnone : each (Between.render s) [] = Pure.pure [] := rfl
  have hrange : ∀ p ∈ w.between, (ConditionGroup.single (.between p.canonical)).render s =
      p.render s := fun p hp =>
    (ConditionGroup.render_single _).trans (Between.render_canonical (hb p hp))
  unfold renderParts
  rw [hgroups, hbetween, canonicalGroups, each_append,
    each_map fun g hm => ConditionGroup.render_canonical (hg g hm), each_map hrange]
  simp only [bind_assoc, pure_bind, hnone, List.append_nil]

theorem Sql.joinParts_among (e : Entity) (logic : Logic) {parts : List Sql} {n : Nat}
    (h : parts.length = n) : joinParts e (logic.among n) parts = joinParts e logic parts := by
  unfold joinParts
  rw [logic.join_among h]

/-- A filter is written like its groups and ranges in one list of groups. -/
theorem Filter.render_canonical {w : Filter} (h : w.validate = .ok ()) :
    w.canonical.render s = w.render s := by
  obtain ⟨-, hg, hb⟩ := validate_eq_ok.1 h
  unfold render
  rw [renderParts_canonical hg hb rfl rfl]
  exact Traced.bind_congr fun parts hparts =>
    Sql.joinParts_among _ _ (length_of_renderParts _ hparts)

theorem Filter.renderOptional_canonical {w : Option Filter} (h : ∀ w' ∈ w, w'.validate = .ok ()) :
    renderOptional s (w.map canonical) = renderOptional s w := by
  cases w with
  | none => rfl
  | some w => exact congrArg (· >>= _) (render_canonical (h w rfl))

-- ========================================================== subqueries

/-- A subquery is its aggregate, its filter and its grouping. The name of the
aggregate is not written, which is why the canonical form has none. -/
theorem ScalarSubquery.render_canonical {q : ScalarSubquery} (h : q.validate = .ok ()) :
    q.canonical.render s = q.render s := by
  obtain ⟨-, haggregate, hfilter⟩ := validate_eq_ok.1 h
  have hcall : ∀ s, q.canonical.aggregate.renderCall s = q.aggregate.renderCall s := fun s =>
    (AggregateExpr.renderCall_canonical haggregate : q.aggregate.canonical.renderCall s = _)
  unfold render
  refine Traced.bind_congr fun inner _ => ?_
  rw [hcall]
  refine Traced.bind_congr fun aggregate _ => ?_
  show Filter.renderOptional inner (q.filter.map _) >>= _ = _
  rw [Filter.renderOptional_canonical hfilter]
  rfl

/-- A test against a subquery is a column, an operator and the subquery. -/
theorem SubqueryCondition.render_canonical {p : SubqueryCondition} (h : p.validate = .ok ()) :
    p.canonical.render s = p.render s := by
  obtain ⟨-, -, -, hsubquery⟩ := validate_eq_ok.1 h
  unfold render canonical
  rw [ScalarSubquery.render_canonical hsubquery]

/-- The tests against subqueries come behind the groups and ranges and are
not moved. -/
theorem TopFilter.render_canonical {w : TopFilter} (h : w.validate = .ok ()) :
    w.canonical.render s = w.render s := by
  obtain ⟨-, hg, hb, hsubqueries⟩ := validate_eq_ok.1 h
  unfold render
  rw [Filter.renderParts_canonical hg hb rfl rfl]
  refine Traced.bind_congr fun parts hparts => ?_
  rw [canonical, each_map fun p hp => SubqueryCondition.render_canonical (hsubqueries p hp)]
  refine Traced.bind_congr fun subqueries hsubqueries => Sql.joinParts_among _ _ ?_
  rw [List.length_append, Filter.length_of_renderParts _ hparts, Traced.length_of_each hsubqueries]

end

-- ============================================================= sources

/-- A derived table is its items and its filter. -/
theorem DerivedTable.render_canonical {settings : Settings} {d : DerivedTable}
    (h : d.validate = .ok ()) : d.canonical.render settings = d.render settings := by
  obtain ⟨-, -, hselect, hfilter⟩ := validate_eq_ok.1 h
  unfold render canonical
  rw [List.isEmpty_map]
  split
  · rfl
  refine Traced.bind_congr fun s _ => ?_
  rw [each_map fun e he => SelectExpr.render_canonical (hselect e he),
    Filter.renderOptional_canonical hfilter]

theorem Join.render_canonical {s : Scope} {j : Join} (h : j.validate = .ok ()) :
    j.canonical.render s = j.render s := by
  obtain ⟨-, -, hon⟩ := validate_eq_ok.1 h
  unfold render canonical
  refine Traced.bind_congr fun s _ => ?_
  dsimp only
  rw [renderOn_canonical hon]

/-- Joins one after the other, in the scopes of those before them. -/
theorem Join.renderAll_canonical {s : Scope} {joins : List Join}
    (h : ∀ j ∈ joins, j.validate = .ok ()) :
    renderAll s (joins.map canonical) = renderAll s joins := by
  induction joins generalizing s with
  | nil => rfl
  | cons j joins ih =>
      rw [List.map_cons, renderAll, render_canonical (h j (List.mem_cons_self ..))]
      refine Traced.bind_congr fun p _ => ?_
      dsimp only
      rw [ih fun j' hj' => h j' (List.mem_cons_of_mem _ hj')]

/-- A source is its table or its derived table, and its joins. The scope that
it leaves behind is the same, since no name changes. -/
theorem FromClause.render_canonical {settings : Settings} {f : FromClause}
    (h : f.validate = .ok ()) : f.canonical.render settings = f.render settings := by
  obtain ⟨hsource, hjoins⟩ := validate_eq_ok.1 h
  have htable : f.canonical.renderTable settings = f.renderTable settings := by
    obtain ⟨table, aliasName, joins, derived⟩ := f
    rcases validateSource_eq_ok.1 hsource with ⟨table, ht, hd, -⟩ | ⟨d, ht, hd, -, hvalid⟩
    · cases ht
      cases hd
      rfl
    · cases ht
      cases hd
      exact congrArg (· >>= _) (DerivedTable.render_canonical hvalid)
  unfold render
  rw [htable]
  refine Traced.bind_congr fun p _ => ?_
  obtain ⟨source, s⟩ := p
  show Join.renderAll s (f.joins.map _) >>= _ = _
  have hlength : f.canonical.joins.length = f.joins.length := List.length_map ..
  rw [Join.renderAll_canonical hjoins, hlength]

-- ============================================================= clauses

section

variable {s : Scope}

/-- A test on a group of rows changes in its constant. -/
theorem HavingCondition.render_canonical {p : HavingCondition} (h : p.validate = .ok ()) :
    p.canonical.render s = p.render s := by
  obtain ⟨-, -, -, -, hvalue⟩ := validate_eq_ok.1 h
  unfold render canonical
  dsimp only
  rw [Literal.sql_canonical hvalue]
  rfl

theorem Having.render_canonical {h : Having} (hv : h.validate = .ok ()) :
    h.canonical.render s = h.render s := by
  obtain ⟨-, hconditions⟩ := validate_eq_ok.1 hv
  unfold render canonical
  rw [List.isEmpty_map, each_map fun p hp => HavingCondition.render_canonical (hconditions p hp)]
  split
  · rfl
  · exact Traced.bind_congr fun rows hrows => by
      rw [Logic.join_among h.logic (Traced.length_of_each hrows)]

theorem OrderBy.render_canonical (o : OrderBy) : o.canonical.render s = o.render s := by
  unfold render canonical
  rw [List.isEmpty_map, each_map fun i _ => i.render_canonical]

theorem SelectExpr.renderList_canonical {items : List SelectExpr}
    (h : ∀ e ∈ items, e.validate = .ok ()) :
    renderList s (items.map canonical) = renderList s items := by
  unfold renderList
  rw [List.isEmpty_map, each_map fun e he => render_canonical (h e he), List.length_map]

theorem TopFilter.renderClause_canonical {w : TopFilter} (h : w.validate = .ok ()) :
    w.canonical.renderClause s = w.renderClause s :=
  congrArg (· >>= _) (render_canonical h)

/-- The line of a clause that may be missing. -/
theorem Sql.optionalLine_map {α : Type} {clause : PlainClause} {render : α → Traced Sql}
    {f : α → α} {o : Option α} (h : ∀ a ∈ o, render (f a) = render a) :
    optionalLine clause render (o.map f) = optionalLine clause render o := by
  cases o with
  | none => rfl
  | some a => exact congrArg (· >>= _) (h a rfl)

end

-- ======================================================== main results

/-- The lines of a valid query are those of its canonical form. The steps are
compared one by one, in the order in which they are rendered. -/
theorem Query.renderLines_canonical (settings : Settings) {q : Query} (h : q.validate = .ok ()) :
    q.canonical.renderLines settings = q.renderLines settings := by
  obtain ⟨-, hselect, hsource, hfilter, -, hhaving, -⟩ := validate_eq_ok.1 h
  unfold renderLines canonical
  dsimp only
  rw [FromClause.render_canonical hsource]
  refine Traced.bind_congr fun p _ => ?_
  obtain ⟨source, s⟩ := p
  dsimp only
  rw [SelectExpr.renderList_canonical hselect,
    Sql.optionalLine_map fun w hw => TopFilter.renderClause_canonical (hfilter w hw),
    Sql.optionalLine_map fun h hh => Having.render_canonical (hhaving h hh),
    Sql.optionalLine_map fun o _ => o.render_canonical]

/-- A valid query and its canonical form are written alike, and with the
same reports. -/
theorem Query.render_canonical (settings : Settings) {q : Query} (h : q.validate = .ok ()) :
    q.canonical.render settings = q.render settings := by
  have hitems : q.canonical.select.length = q.select.length := List.length_map ..
  have hjoins : q.canonical.source.joins.length = q.source.joins.length := List.length_map ..
  unfold render Query.sql
  rw [renderLines_canonical settings h, hitems, hjoins]

/-- The canonical form forgets nothing that the text tells: valid queries
with one canonical form have one outcome under the same settings. -/
theorem Query.toSql_of_canonical_eq (settings : Settings) {q q' : Query}
    (hv : q.validate = .ok ()) (hv' : q'.validate = .ok ()) (h : q.canonical = q'.canonical) :
    q.toSql settings = q'.toSql settings := by
  rw [toSql, toSql, ← render_canonical settings hv, h, render_canonical settings hv']

/-- Under the same settings valid queries are written as one text exactly
if they have one canonical form. -/
theorem Query.sameText_iff_canonical_eq {settings : Settings} {q q' : Query} {sql sql' : String}
    (hv : q.validate = .ok ()) (hv' : q'.validate = .ok ()) (h : q.toSql settings = .ok sql)
    (h' : q'.toSql settings = .ok sql') : sql = sql' ↔ q.canonical = q'.canonical := by
  constructor
  · rintro rfl
    obtain ⟨tokens, hscan, hread⟩ := read_of_toSql hv h
    obtain ⟨tokens', hscan', hread'⟩ := read_of_toSql hv' h'
    obtain rfl : tokens = tokens' := Option.some.inj (hscan.symm.trans hscan')
    exact congrArg Prod.fst (Option.some.inj (hread.symm.trans hread'))
  · intro hcanonical
    have hsame := toSql_of_canonical_eq settings hv hv' hcanonical
    exact Except.ok.inj (h.symm.trans (hsame.trans h'))

-- ========================================================== sort keys

/-- The query sorted by some items, of which one has the given key. -/
def Query.sortedBy (q : Query) (before : List OrderItem) (item : OrderItem)
    (after : List OrderItem) (key : SortKey) : Query :=
  q.withOrderBy ⟨before ++ { item with key } :: after⟩

/-- A column without a table and an output are one key in canonical form
where the output is called as the column is, and only there. -/
theorem Query.canonical_sortedBy_eq {q : Query} {before after : List OrderItem}
    {item : OrderItem} {c : Column} {name : String} :
    (q.sortedBy before item after (.column (.bare c))).canonical =
        (q.sortedBy before item after (.output name)).canonical ↔ name = c.name := by
  simp [canonical, sortedBy, withOrderBy, OrderBy.canonical, OrderItem.canonical,
    SortKey.canonical, QualifiedColumn.bare, eq_comm]

/-- Take two queries that can be read and differ in one key of the sort, a
column without a table in one and an output in the other. Both have SQL,
and under the same settings they never have the same, unless the output is
called letter for letter as the column is: then they have one text. -/
theorem Query.sort_keys_differ_in_text {q : Query} {before after : List OrderItem}
    {item : OrderItem} {c : Column} {name source source' : String}
    (hcolumn : ofJson source = .ok (q.sortedBy before item after (.column (.bare c))))
    (houtput : ofJson source' = .ok (q.sortedBy before item after (.output name))) :
    (∃ sql, (q.sortedBy before item after (.column (.bare c))).toSql {} = .ok sql) ∧
    (∃ sql, (q.sortedBy before item after (.output name)).toSql {} = .ok sql) ∧
    ∀ settings sql sql',
      (q.sortedBy before item after (.column (.bare c))).toSql settings = .ok sql →
      (q.sortedBy before item after (.output name)).toSql settings = .ok sql' →
      (sql = sql' ↔ name = c.name) := by
  obtain ⟨-, hv, hnames⟩ := checked_eq_ok.1 (checked_of_ofJson hcolumn)
  obtain ⟨-, hv', hnames'⟩ := checked_eq_ok.1 (checked_of_ofJson houtput)
  refine ⟨toSql_of_checkScope hv (checkAliases_eq_ok.1 hnames),
    toSql_of_checkScope hv' (checkAliases_eq_ok.1 hnames'), fun settings sql sql' h h' => ?_⟩
  rw [sameText_iff_canonical_eq hv hv' h h', canonical_sortedBy_eq]

/-- The average of the prices under a name, sorted by some key. -/
def Query.averaged (name : String) (key : SortKey) : Query :=
  ((start (.ofTable .productOffers)).addSelect
    [.aggregate ⟨.avg, some (.column (.bare .price)), false, none, name⟩]).sortedBy
      [] (.by (.output name) .desc) [] key

/-- It has no floating point numbers, so it is read from its own JSON. -/
theorem Query.ofJson_averaged (name : String) (key : SortKey)
    (h : (averaged name key).checked = .ok (averaged name key)) :
    ofJson (averaged name key).toJson = .ok (averaged name key) := by
  refine ofJsonWith_toJson h ?_
  simp [AllFloats, averaged, sortedBy, withOrderBy, addSelect, start, FromClause.ofTable,
    SelectExpr.AllFloats, AggregateExpr.AllFloats, AggregateInput.AllFloats,
    FromClause.AllFloats]

/-- The average of the prices is not the price, where it goes by another
name. -/
theorem Query.averaged_is_not_price :
    ∃ sql sql', (averaged "mean" (.column (.bare .price))).toSql {} = .ok sql ∧
      (averaged "mean" (.output "mean")).toSql {} = .ok sql' ∧ sql ≠ sql' := by
  have hcolumn := ofJson_averaged "mean" (.column (.bare .price)) (by decide +kernel)
  have houtput := ofJson_averaged "mean" (.output "mean") (by decide +kernel)
  obtain ⟨⟨sql, hsql⟩, ⟨sql', hsql'⟩, htexts⟩ := sort_keys_differ_in_text hcolumn houtput
  refine ⟨sql, sql', hsql, hsql', ?_⟩
  rw [ne_eq, htexts {} sql sql' hsql hsql']
  decide

/-- Called as the column is, it is the key that a sort by the column
names. -/
theorem Query.averaged_price_is_price :
    ofJson (averaged "price" (.column (.bare .price))).toJson =
      .ok (averaged "price" (.column (.bare .price))) ∧
    ofJson (averaged "price" (.output "price")).toJson =
      .ok (averaged "price" (.output "price")) ∧
    ∃ sql, (averaged "price" (.column (.bare .price))).toSql {} = .ok sql ∧
      (averaged "price" (.output "price")).toSql {} = .ok sql := by
  refine ⟨ofJson_averaged _ _ (by decide +kernel), ofJson_averaged _ _ (by decide +kernel),
    "SELECT AVG(price) AS price\nFROM product_offers\nORDER BY price DESC", ?_, ?_⟩
  · decide +kernel
  · decide +kernel

end TypedSelect
