/-
The rule of names that the check of names decides.

The rule has no order: the names of the source are distinct, and every
qualifier is one with a name that its reference sees and that may stand
for a table. The check goes step by step and stops at the first fault, but
which names a reference may look into does not depend on what came before
it, so the check passes exactly where the rule holds.

# Steps and references

The steps of the check are the names of the source, the names inside
derived tables and subqueries, and the references. A derived table and a
subquery bring in one name each, which can meet no other. So the steps
pass where the names of the source are distinct and the references do, and
that a reference passes is one line of the rule.

# As a rule of validity

The check is used twice: for rendering, under the settings at hand, and
among the rules of validity, under the default settings and with its
errors put among theirs. The second use is where a failure could be put
down to the form of the query; it is not, since a step fails for a name
that is taken or a qualifier that means nothing, and for no other reason.
-/
import TypedSelect.Proofs.Scope.Binding

namespace TypedSelect

open Check (each_eq_error each_eq_ok)

-- ============================================================== the rule

/-- The name may be what this qualifier means: it is one with it, and an
alias or, where tables may go by their own names, any name. -/
def ScopeEntry.Means (settings : Settings) (qualifier : String) (e : ScopeEntry) : Prop :=
  sameName e.name qualifier = true ∧ (e.aliased = true ∨ settings.allowTableNames = true)

/-- The names of the source are distinct, and if references are checked,
every qualifier means a name that its reference sees. -/
structure Query.WellScoped (settings : Settings) (q : Query) : Prop where
  distinct : q.NamesDistinct
  bound : settings.checkAliases = true → ∀ levels c qualifier, q.Sees levels c →
    c.qualifier = some qualifier → ∃ e ∈ levels.flatten, e.Means settings qualifier

-- ============================================================= one step

/-- A reference passes if its qualifier, where it has one that is checked,
means a name of the levels it looks into. -/
theorem ScopeStep.check_reference_eq_ok {settings : Settings} {entries : List ScopeEntry}
    {outer : List (List ScopeEntry)} {c : QualifiedColumn} :
    (reference entries outer c).check settings = .ok () ↔
      (settings.checkAliases = true → ∀ qualifier, c.qualifier = some qualifier →
        ∃ e ∈ (entries :: outer).flatten, e.Means settings qualifier) := by
  -- all levels are asked, so the order of the entries does not count
  have hcontains : ∀ qualifier, Scope.contains ⟨settings, entries, outer⟩ qualifier = true ↔
      ∃ e ∈ (entries :: outer).flatten, e.Means settings qualifier := by
    intro qualifier
    simp only [Scope.contains, Scope.answers, ScopeEntry.Means, List.any_eq_true,
      Bool.and_eq_true, Bool.or_eq_true, List.mem_flatten]
    grind
  have hadmits : (reference entries outer c).check settings = .ok () ↔
      Scope.admits ⟨settings, entries, outer⟩ c = true := by
    rw [check, Scope.resolve]
    split
    next h => exact iff_of_true rfl h
    next h => exact iff_of_false (fun hok => by cases hok) h
  rw [hadmits, Scope.admits]
  cases c.qualifier with
  | none => exact iff_of_true rfl fun _ _ h => absurd h.symm (Option.some_ne_none _)
  | some qualifier =>
      cases hchecks : settings.checkAliases with
      | false => exact iff_of_true rfl fun h => absurd h Bool.false_ne_true
      | true =>
          simp only [Bool.not_true, Bool.false_or, hcontains, true_imp_iff, Option.some.injEq,
            forall_eq']

/-- A step fails for a name that is there twice or a qualifier that means
nothing. -/
theorem ScopeStep.check_eq_error {settings : Settings} {step : ScopeStep} {e : QueryError}
    (h : step.check settings = .error e) :
    (∃ name, e = .invalid (.duplicateAlias name)) ∨
      ∃ aliasName reference, e = .unresolvedAlias aliasName reference := by
  cases step with
  | name before entry =>
      rw [check, Check.require] at h
      split at h
      next => cases h
      next => exact .inl ⟨entry.name, (Except.error.inj h).symm⟩
  | reference entries outer c =>
      rw [check, Scope.resolve] at h
      split at h
      next => cases h
      next => exact .inr ⟨_, _, (Except.error.inj h).symm⟩

-- ========================================================= main results

/-- The steps pass where the names are distinct and the references do. A step
for a name fails if an earlier one has the name, and of two equal names one
is the earlier. -/
theorem Query.forall_steps {settings : Settings} {q : Query} :
    (∀ step ∈ q.steps, step.check settings = .ok ()) ↔ q.NamesDistinct ∧
      ∀ entries outer c, q.Sees (entries :: outer) c →
        (ScopeStep.reference entries outer c).check settings = .ok () := by
  refine ⟨fun h => ⟨namesDistinct_of_steps h, fun entries outer c hsees =>
    h _ (mem_steps_reference.2 hsees)⟩, ?_⟩
  rintro ⟨hdistinct, hreferences⟩ step hstep
  cases step with
  | reference entries outer c => exact hreferences entries outer c (mem_steps_reference.1 hstep)
  | name level entry =>
      by_cases hlevel : level = []
      · -- the first name of a level
        rw [hlevel]
        rfl
      · have hname := mem_names_of_mem_steps hstep hlevel
        refine ScopeStep.forall_names.2 ⟨?_, hdistinct⟩ _ hname
        exact fun e he => absurd he List.not_mem_nil

/-- The check of names passes just the queries that keep the rule. The check
is a list of steps in an order, and the rule has none. -/
theorem Query.checkScope_eq_ok_iff {settings : Settings} {q : Query} :
    q.checkScope settings = .ok () ↔ q.WellScoped settings := by
  rw [checkScope_eq_each, each_eq_ok, forall_steps]
  simp only [ScopeStep.check_reference_eq_ok]
  constructor
  · rintro ⟨hdistinct, hbound⟩
    refine ⟨hdistinct, fun hchecks levels c qualifier hsees => ?_⟩
    obtain ⟨entries, outer, rfl⟩ : ∃ entries outer, levels = entries :: outer := by
      cases hsees <;> exact ⟨_, _, rfl⟩
    exact hbound entries outer c hsees hchecks qualifier
  · rintro ⟨hdistinct, hbound⟩
    exact ⟨hdistinct, fun entries outer c hsees hchecks qualifier =>
      hbound hchecks _ c qualifier hsees⟩

/-- As a rule of validity the check has the outcome of the check, with its
errors as they are. -/
theorem Query.checkAliases_eq {q : Query} :
    (q.checkScope {} = .ok () ∧ q.checkAliases = .ok ()) ∨
      ∃ e e', q.checkScope {} = .error e ∧ q.checkAliases = .error e' ∧ e' ≠ .malformed := by
  rw [checkAliases]
  cases hcheck : q.checkScope {} with
  | ok _ => exact .inl ⟨rfl, rfl⟩
  | error e =>
      rw [checkScope_eq_each] at hcheck
      obtain ⟨step, -, hfails⟩ := each_eq_error hcheck
      refine .inr ⟨e, ?_⟩
      rcases ScopeStep.check_eq_error hfails with ⟨name, rfl⟩ | ⟨aliasName, reference, rfl⟩ <;>
        exact ⟨_, rfl, rfl, nofun⟩

/-- The check of names passes exactly the queries that keep the rule, under
any settings; as a rule of validity it decides the rule under the default
settings, and a failure is never put down to the form of the query. -/
theorem Query.check_decides_rule (settings : Settings) (q : Query) :
    (q.checkScope settings = .ok () ↔ q.WellScoped settings) ∧
      (q.checkAliases = .ok () ↔ q.WellScoped {}) ∧ q.checkAliases ≠ .error .malformed := by
  refine ⟨checkScope_eq_ok_iff, ?_⟩
  rw [← checkScope_eq_ok_iff]
  rcases q.checkAliases_eq with ⟨hscope, haliases⟩ | ⟨e, e', hscope, haliases, hform⟩
  · rw [hscope, haliases]
    exact ⟨iff_of_true rfl rfl, nofun⟩
  · rw [hscope, haliases]
    exact ⟨iff_of_false nofun nofun, fun h => hform (Except.error.inj h)⟩

end TypedSelect
