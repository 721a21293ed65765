/-
What a computation with faults comes to.

There are two kinds of computations in this library. A check gives nothing
but a fault, and checks are put one after the other. A rendering gives a
row of SQL or an error, and along the way it reports what it does. For
both this module says what a sequence of steps comes to in terms of its
steps, so that no proof about an entity unfolds the sequencing.

# Checks

A check that passes is the conjunction of its parts. The lemmas are simp
lemmas, and the rules of validity, entity by entity, are what simp makes of
the checks with them.

# Renderings

The outcome of a rendering is that of its steps with the reports left out.
Four measures of a rendering stand on this:

- `Yields` says what holds of the result if there is one. It is how shape,
  tokens and readings of the SQL are proved.
- `Maps` says that one rendering comes to an image of another, fault for
  fault. It compares a query with the query whose strings were replaced,
  and with its canonical form.
- `Formed` says that a rendering never ends at a node without SQL.
- `InStep` compares a rendering with a check that walks the same nodes and
  looks up the same names.

All are built up along the sequence of steps, each with a rule for a value,
for a sequence and for a list, so the proof for a node is the list of its
parts.

# In step

The rendering and the check of names look up the same references in the
same order, but the rendering may stop earlier, at a node without SQL, and
the check is done at some point while the rendering still writes.
`InStep` allows the first, and `InStep.finish` and `Follows.skip` are the
rules for the second.
-/
import Mathlib.Data.List.Forall2
import TypedSelect.Check
import TypedSelect.Event

namespace TypedSelect

-- ============================================================= checks

namespace Check

variable {ε α β : Type}

@[simp] theorem require_eq_ok {condition : Bool} {fault : ε} :
    require condition fault = .ok () ↔ condition = true := by
  cases condition <;> simp [require]

/-- A check of a part that may be missing passes if the part does, should
there be one. -/
@[simp] theorem optional_eq_ok {check : α → Except ε Unit} {o : Option α} :
    optional check o = .ok () ↔ ∀ a ∈ o, check a = .ok () := by
  cases o <;> simp [optional]

/-- Checks one after the other pass when both do. The second runs only after
the first has passed, but then there is no fault to be different. -/
@[simp] theorem bind_eq_ok {x : Except ε Unit} {f : Unit → Except ε Unit} :
    (x >>= f) = .ok () ↔ x = .ok () ∧ f () = .ok () := by
  cases x <;> simp [bind, Except.bind]

/-- A check of every element passes if each element does. -/
@[simp] theorem each_eq_ok {check : α → Except ε Unit} {l : List α} :
    each check l = .ok () ↔ ∀ a ∈ l, check a = .ok () := by
  induction l with
  | nil => simp [each]
  | cons a rest ih => simp [each, ih]

/-- A check of the parts that some elements have is a check of every
element. -/
theorem each_filterMap (check : β → Except ε Unit) (part : α → Option β) (l : List α) :
    each check (l.filterMap part) = each (fun a => optional check (part a)) l := by
  induction l with
  | nil => rfl
  | cons a rest ih =>
      cases hp : part a with
      | none => simp [each, optional, hp, ih, bind, Except.bind]
      | some b => simp [each, optional, hp, ih]

end Check

-- ========================================================= renderings

namespace Traced

variable {α β : Type}

@[simp] theorem outcome_pure (a : α) : (Pure.pure a : Traced α).outcome = .ok a := rfl

/-- The outcome of a sequence is the sequence of the outcomes; the events of
both go elsewhere. -/
@[simp] theorem outcome_bind (x : Traced α) (f : α → Traced β) :
    (x >>= f).outcome = x.outcome >>= fun a => (f a).outcome := by
  show (Traced.bind x f).outcome = _
  unfold Traced.bind
  cases x.outcome <;> rfl

@[simp] theorem outcome_fail (e : QueryError) :
    (fail e : Traced α).outcome = .error e := rfl

/-- A node without SQL is an error like others. -/
@[simp] theorem outcome_illFormed (e : Entity) (fault : FormFault) :
    (illFormed e fault : Traced α).outcome = .error (.illFormed e fault) := rfl

@[simp] theorem outcome_lift (outcome : Except QueryError α) :
    (lift outcome).outcome = outcome := rfl

@[simp] theorem outcome_report (event : Event) : (report event).outcome = .ok () := rfl

/-- A sequence that succeeds has steps that succeed, and the second one is
that for the value of the first. -/
theorem bind_eq_ok {x : Traced α} {f : α → Traced β} {b : β}
    (h : (x >>= f).outcome = .ok b) :
    ∃ a, x.outcome = .ok a ∧ (f a).outcome = .ok b := by
  rw [outcome_bind] at h
  cases hx : x.outcome with
  | error e => rw [hx] at h; cases h
  | ok a => rw [hx] at h; exact ⟨a, rfl, h⟩

/-- Two ways to go on that agree on what there is to go on with. Where the
first step fails there is nothing. -/
theorem bind_congr {x : Traced α} {f f' : α → Traced β}
    (h : ∀ a, x.outcome = .ok a → f a = f' a) : x >>= f = x >>= f' := by
  show Traced.bind x f = Traced.bind x f'
  unfold Traced.bind
  cases hx : x.outcome with
  | error e => rfl
  | ok a =>
      dsimp only
      rw [h a hx]

/-- Whatever the rendering comes to has the property. A rendering that fails
has every property, so this says what the result is like and not that there
is one. -/
def Yields (x : Traced α) (P : α → Prop) : Prop := ∀ a, x.outcome = .ok a → P a

theorem yields_pure {P : α → Prop} {a : α} (h : P a) : (Pure.pure a : Traced α).Yields P := by
  intro b hb
  cases hb
  exact h

theorem yields_fail {P : α → Prop} (e : QueryError) : (fail e : Traced α).Yields P := by
  intro a h
  cases h

/-- A property of what a sequence yields, from one of what its first step
yields. The property of the first step is all that the rest may use of it. -/
theorem Yields.bind {x : Traced α} {f : α → Traced β} {P : α → Prop} {Q : β → Prop}
    (hx : x.Yields P) (hf : ∀ a, P a → (f a).Yields Q) : (x >>= f).Yields Q := by
  intro b h
  obtain ⟨a, ha, h⟩ := bind_eq_ok h
  exact hf a (hx a ha) b h

/-- What follows a step without regard to its value. -/
theorem yields_then {x : Traced α} {f : α → Traced β} {Q : β → Prop}
    (hf : ∀ a, (f a).Yields Q) : (x >>= f).Yields Q := by
  intro b h
  obtain ⟨a, -, h⟩ := bind_eq_ok h
  exact hf a b h

/-- What the elements of a list yield, one by one and in their order. -/
theorem yields_each {f : α → Traced β} {R : α → β → Prop} {l : List α}
    (hf : ∀ a ∈ l, (f a).Yields (R a)) : (each f l).Yields (List.Forall₂ R l) := by
  induction l with
  | nil => exact yields_pure .nil
  | cons a rest ih =>
      refine (hf a (List.mem_cons_self ..)).bind fun b hb => ?_
      refine (ih fun a' ha' => hf a' (List.mem_cons_of_mem _ ha')).bind fun bs hbs => ?_
      exact yields_pure (.cons hb hbs)

/-- A rendering of every element has as many results as there are elements. -/
theorem length_of_each {f : α → Traced β} {l : List α} {bs : List β}
    (h : (each f l).outcome = .ok bs) : bs.length = l.length :=
  (yields_each (R := fun _ _ => True) (fun _ _ _ _ => trivial) bs h).length_eq.symm

-- ============================================================ images

variable {γ δ : Type}

/-- A rendering comes to the image of what another one comes to, and fails
with the same error where that fails. -/
def Maps (g : α → β) (x : Traced α) (y : Traced β) : Prop :=
  y.outcome = x.outcome.map g

theorem maps_pure {g : α → β} {a : α} {b : β} (h : b = g a) :
    Maps g (Pure.pure a) (Pure.pure b) := by
  rw [h]
  rfl

theorem maps_fail (g : α → β) (e : QueryError) : Maps g (fail e) (fail e) := rfl

/-- A rendering whose results are their own images, as one in which there is
nothing that the map would change. -/
theorem maps_self {g : α → α} {x : Traced α} (h : x.Yields fun a => g a = a) :
    Maps g x x := by
  unfold Maps
  cases hx : x.outcome with
  | error e => rfl
  | ok a => rw [Except.map, h a hx]

/-- Two sequences whose first steps and whose rests correspond. The rest of
the second is taken at the image of what the first step gives. -/
theorem Maps.bind {g : α → β} {k : γ → δ} {x : Traced α} {y : Traced β}
    {f : α → Traced γ} {f' : β → Traced δ} (hx : Maps g x y)
    (hf : ∀ a, Maps k (f a) (f' (g a))) : Maps k (x >>= f) (y >>= f') := by
  unfold Maps at *
  rw [outcome_bind, outcome_bind, hx]
  cases x.outcome with
  | error e => rfl
  | ok a => exact hf a

/-- Two sequences with the same first step, as where a name is looked up. -/
theorem maps_then {k : γ → δ} {x : Traced α} {f : α → Traced γ} {f' : α → Traced δ}
    (hf : ∀ a, Maps k (f a) (f' a)) : Maps k (x >>= f) (x >>= f') :=
  (maps_self fun _ _ => rfl : Maps id x x).bind hf

/-- Two lists whose elements correspond, rendered element by element. -/
theorem maps_each {g : γ → δ} {k : α → β} {f : α → Traced γ} {f' : β → Traced δ}
    {l : List α} (hf : ∀ a ∈ l, Maps g (f a) (f' (k a))) :
    Maps (List.map g) (each f l) (each f' (l.map k)) := by
  induction l with
  | nil => exact maps_pure rfl
  | cons a rest ih =>
      refine (hf a (List.mem_cons_self ..)).bind fun b => ?_
      exact (ih fun a' ha' => hf a' (List.mem_cons_of_mem _ ha')).bind fun bs =>
        maps_pure rfl

-- ======================================================= well formed

/-- The rendering meets no node without SQL. It may fail in other ways. -/
def Formed (x : Traced α) : Prop :=
  ∀ e fault, x.outcome ≠ .error (.illFormed e fault)

theorem formed_pure (a : α) : (Pure.pure a : Traced α).Formed := by
  intro e fault h
  cases h

theorem formed_report (event : Event) : (report event).Formed := by
  intro e fault h
  cases h

/-- A sequence is well formed when each step is, the later ones after a
success of the earlier. -/
theorem Formed.bind {x : Traced α} {f : α → Traced β} (hx : x.Formed)
    (hf : ∀ a, x.outcome = .ok a → (f a).Formed) : (x >>= f).Formed := by
  intro e fault h
  rw [outcome_bind] at h
  cases ho : x.outcome with
  | error e' =>
      rw [ho] at h
      cases h
      exact hx e fault ho
  | ok a =>
      rw [ho] at h
      exact hf a ho e fault h

/-- What follows a step without regard to its value. -/
theorem Formed.then {x : Traced α} {f : α → Traced β} (hx : x.Formed)
    (hf : ∀ a, (f a).Formed) : (x >>= f).Formed :=
  hx.bind fun a _ => hf a

/-- A list is formed if the rendering of each element is. -/
theorem formed_each {f : α → Traced β} {l : List α}
    (hf : ∀ a ∈ l, (f a).Formed) : (each f l).Formed := by
  induction l with
  | nil => exact formed_pure _
  | cons a rest ih =>
      refine (hf a (List.mem_cons_self ..)).then fun b => ?_
      exact (ih fun a' ha' => hf a' (List.mem_cons_of_mem _ ha')).then
        fun bs => formed_pure _

end Traced

-- ============================================================ in step

/-- The errors about table names: a name that is taken and a reference that
nothing answers to. A rendering and a check can share no others. -/
inductive QueryError.AboutNames : QueryError → Prop where
  | duplicateAlias (name : String) : AboutNames (.invalid (.duplicateAlias name))
  | unresolvedAlias (aliasName reference : String) :
    AboutNames (.unresolvedAlias aliasName reference)

/-- The outcome of a rendering keeps step with that of a check: both give
related results, both fail with one error about names, or the rendering stops
before the check does, at a node without SQL. In the last case nothing is
said about the check, which may go on and fail or pass. -/
inductive InStep {α β : Type} (R : α → β → Prop) :
    Except QueryError α → Except QueryError β → Prop where
  | ok {a : α} {b : β} (h : R a b) : InStep R (.ok a) (.ok b)
  | fault {e : QueryError} (h : e.AboutNames) : InStep R (.error e) (.error e)
  | illFormed (e : Entity) (fault : FormFault) (c : Except QueryError β) :
    InStep R (.error (.illFormed e fault)) c

namespace InStep

variable {α β γ δ : Type} {R : α → β → Prop} {S : γ → δ → Prop}

/-- A step that both take, and that fails on names only. -/
theorem refl {c : Except QueryError α}
    (h : ∀ e, c = .error e → e.AboutNames) : InStep Eq c c := by
  cases c with
  | ok a => exact .ok rfl
  | error e => exact .fault (h e rfl)

/-- Two sequences keep step when their first steps do and what comes
after related results does. -/
theorem bind {x : Except QueryError α} {c : Except QueryError β}
    {f : α → Except QueryError γ} {g : β → Except QueryError δ}
    (hx : InStep R x c) (hf : ∀ a b, R a b → InStep S (f a) (g b)) :
    InStep S (x >>= f) (c >>= g) := by
  cases hx with
  | ok h => exact hf _ _ h
  | fault h => exact .fault h
  | illFormed e fault c => exact .illFormed e fault _

/-- A rendering that goes on after the check is done, without looking at
another name. -/
theorem finish {S : γ → β → Prop} {x : Except QueryError α} {c : Except QueryError β}
    {f : α → Except QueryError γ} (hx : InStep R x c)
    (hf : ∀ a b, R a b → InStep S (f a) (.ok b)) : InStep S (x >>= f) c := by
  cases hx with
  | ok h => exact hf _ _ h
  | fault h => exact .fault h
  | illFormed e fault c => exact .illFormed e fault c

/-- Where a rendering succeeds so does the check, with a related result. -/
theorem ok_of_ok {x : Except QueryError α} {c : Except QueryError β} {a : α}
    (h : InStep R x c) (hx : x = .ok a) : ∃ b, c = .ok b ∧ R a b := by
  cases h with
  | ok h =>
      cases hx
      exact ⟨_, rfl, h⟩
  | fault h => cases hx
  | illFormed e fault c => cases hx

/-- Every error of a rendering but a node without SQL is about names, and is
the check's own. -/
theorem error_of_error {x : Except QueryError α} {c : Except QueryError β}
    {e : QueryError} (h : InStep R x c) (hx : x = .error e)
    (he : ∀ entity fault, e ≠ .illFormed entity fault) :
    e.AboutNames ∧ c = .error e := by
  cases h with
  | ok h => cases hx
  | fault h =>
      cases hx
      exact ⟨h, rfl⟩
  | illFormed entity fault c =>
      cases hx
      exact absurd rfl (he entity fault)

end InStep

/-- A rendering keeps step with a check of which only the passing
matters. -/
abbrev Traced.Follows {α : Type} (x : Traced α) (c : Except QueryError Unit) : Prop :=
  InStep (fun _ _ => True) x.outcome c

namespace Traced

variable {α β : Type}

/-- A value keeps step with a check that is done. -/
theorem follows_pure (a : α) : (Pure.pure a : Traced α).Follows (.ok ()) := .ok trivial

/-- A node without SQL keeps step with every check. -/
theorem follows_illFormed (e : Entity) (fault : FormFault)
    (c : Except QueryError Unit) : (illFormed e fault : Traced α).Follows c :=
  .illFormed e fault c

/-- The first steps match and the rest matches. The check has no value, so
nothing but its passing is handed on. -/
theorem Follows.bind {x : Traced α} {f : α → Traced β}
    {c : Except QueryError Unit} {g : Unit → Except QueryError Unit}
    (hx : x.Follows c) (hf : ∀ a, (f a).Follows (g ())) :
    (x >>= f).Follows (c >>= g) := by
  unfold Follows
  rw [outcome_bind]
  exact InStep.bind hx fun a _ _ => hf a

/-- The check is done and the rendering only writes. -/
theorem Follows.finish {x : Traced α} {f : α → Traced β} {c : Except QueryError Unit}
    (hx : x.Follows c) (hf : ∀ a, (f a).Follows (.ok ())) : (x >>= f).Follows c := by
  unfold Follows
  rw [outcome_bind]
  exact InStep.finish hx fun a _ _ => hf a

/-- The rendering writes something in which the check has no interest. -/
theorem Follows.skip {x : Traced α} {f : α → Traced β} {c : Except QueryError Unit}
    (hx : x.Follows (.ok ())) (hf : ∀ a, (f a).Follows c) : (x >>= f).Follows c :=
  Follows.bind (g := fun _ => c) hx hf

/-- Two lists are walked in step if the elements are. -/
theorem follows_each {f : α → Traced β} {check : α → Except QueryError Unit}
    (hf : ∀ a, (f a).Follows (check a)) :
    ∀ l : List α, (each f l).Follows (Check.each check l) := by
  intro l
  induction l with
  | nil => exact follows_pure _
  | cons a rest ih =>
      refine (hf a).bind fun b => ?_
      exact ih.finish fun bs => follows_pure _

end Traced

end TypedSelect
