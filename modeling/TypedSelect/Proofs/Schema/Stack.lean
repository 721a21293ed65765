/-
Expansion with a stack, and why it ends.

Here the definitions that expansion is inside of lie on a stack in its
state; a definition is pushed where it is entered and popped where its
expansion comes back, with a value or with an error. Nothing grows smaller
where a definition is entered, and nothing in the text shows that this
does not go on forever. So it is written with a number of levels, as many
as the definitions that may be inside one another, and without an outcome
where they run out.

# Why it ends

It ends on every schema: as many levels as there are definitions never run
out, and more of them change nothing. What carries the proof is that the
stack is the same after a computation as before it, so that it is the path
of `expand`, and a definition is pushed only if it exists and is not on
the stack: there are only so many of them. `Mirrors` says this of a
computation and of the one on a path that it mirrors, for all numbers of
levels that are enough at once, so that the outcome does not depend on the
number.

# The record

That the stack holds no definition that is done, and that none is entered
again, are invariants of the record that the recursion keeps of its calls.
The record is written only: no step looks at it. `Recorded` holds whatever
the outcome is. `Underway` says more and holds as long as there is no
error, for an error leaves definitions that are neither on the stack nor
done.

# One step

The cases at a reference are the same five as without a stack, each with
the outcome and with the progress behind it. A definition is popped before
it is known whether its expansion failed, so that the stack is restored on
an error as well.
-/
import TypedSelect.Proofs.Schema.Sharing

namespace TypedSelect

namespace Schema

open Json (member?)

-- ============================================================= progress

/-- What expansion has at hand at a moment. -/
structure Moment where
  /-- The definitions that are being expanded, the outermost first. -/
  stack : List DefinitionKey
  /-- The definitions that have been expanded, with their expansions. An
  entry is added whenever one has been, and never replaced. -/
  done : Expanded

/-- How far expansion has come: what it has at hand, and a record of its
way. -/
structure Progress extends Moment where
  /-- The definitions that it has entered, the last one first. -/
  entered : List DefinitionKey
  /-- What was at hand whenever the recursion was called, the last call
  first. -/
  calls : List Moment

namespace Progress

/-- Nothing is at hand where expansion starts. -/
def start : Progress := ⟨⟨[], []⟩, [], []⟩

/-- A call is put on record. -/
def call (p : Progress) : Progress := { p with calls := p.toMoment :: p.calls }

/-- A definition is pushed. -/
def enter (key : DefinitionKey) (p : Progress) : Progress :=
  { p with stack := p.stack ++ [key], entered := key :: p.entered }

/-- The last definition is popped. -/
def leave (p : Progress) : Progress := { p with stack := p.stack.dropLast }

/-- What a definition has been expanded to is kept, unless that failed. -/
def keep (key : DefinitionKey) : Except SchemaError Json → Progress → Progress
  | .ok body, p => { p with done := (key, body) :: p.done }
  | .error _, p => p

variable {p : Progress}

@[simp] theorem stack_call : p.call.stack = p.stack := rfl

@[simp] theorem done_call : p.call.done = p.done := rfl

theorem stack_leave {path : List DefinitionKey} {key : DefinitionKey}
    (h : p.stack = path ++ [key]) : p.leave.stack = path := by
  rw [leave, h, List.dropLast_concat]

@[simp] theorem stack_keep (key : DefinitionKey) (outcome : Except SchemaError Json) :
    (p.keep key outcome).stack = p.stack := by
  cases outcome <;> rfl

end Progress

/-- A recursive computation on the progress. An error leaves the progress
as it is there; there is no outcome where the levels run out. -/
abbrev Recursion (α : Type) := ExceptT SchemaError (StateT Progress Option) α

namespace Stacked

mutual

/-- A node with its references replaced by the answers for them. -/
def expand (answer : String → Recursion Json) (node : Json) : Recursion Json := do
  modify Progress.call
  match node with
  | .obj members =>
    match member? referenceKey members with
    | some (.str reference) => do
      let target ← answer reference
      let siblings ← expandMembers answer members
      return refine target siblings
    | some other => throw (.unsupportedReference other.text)
    | none => do
      let members ← expandMembers answer members
      return .obj members
  | .arr items => do
    let items ← expandItems answer items
    return .arr items
  | value => return value
termination_by structural node

/-- Items with their references replaced, from the first on. -/
def expandItems (answer : String → Recursion Json) : List Json → Recursion (List Json)
  | [] => return []
  | item :: rest => do
    let item ← expand answer item
    let rest ← expandItems answer rest
    return item :: rest
termination_by structural items => items

/-- The members other than a reference, with the references inside them
replaced, from the first on. -/
def expandMembers (answer : String → Recursion Json) :
    List (String × Json) → Recursion (List (String × Json))
  | [] => return []
  | (key, value) :: rest =>
    if key = referenceKey then expandMembers answer rest
    else do
      let value ← expand answer value
      let rest ← expandMembers answer rest
      return (key, value) :: rest
termination_by structural members => members

end

/-- What a reference refers to, with the references inside it replaced. The
definition is popped before it is known whether its expansion failed. Every
definition inside another takes one of the levels, and where none is left
there is no outcome. -/
def resolve (definitions : Definitions) (levels : Nat) (reference : String) : Recursion Json := do
  modify Progress.call
  let now ← get
  if reference = rootReference then throw (rootCycle now.stack)
  else
    match DefinitionKey.ofPointer? reference with
    | none => throw (.unsupportedReference reference)
    | some key =>
      match lookup key now.done with
      | some body => return body
      | none =>
        if now.stack.contains key then throw (cycle now.stack key)
        else
          match lookup key definitions with
          | none => throw (.unknownDefinition key.name)
          | some body =>
            match levels with
            | 0 => (failure : StateT Progress Option (Except SchemaError Json))
            | levels + 1 =>
              (do
                modify (Progress.enter key)
                let outcome ← (expand (resolve definitions levels) body).run
                modify Progress.leave
                modify (Progress.keep key outcome)
                return outcome : StateT Progress Option (Except SchemaError Json))
termination_by structural levels

/-- The schema with every reference replaced and its definitions removed,
with so many levels. -/
def inline (levels : Nat) (schema : Json) : Recursion Json :=
  expand (resolve (definitionsOf schema.ordered) levels) (withoutDefinitions schema.ordered)

end Stacked

-- ================================================================ ends

section

variable {α β : Type} {x : Recursion α} {f : α → Recursion β} {a : α} {e : SchemaError}
variable {before between after : Progress} {outcome : Except SchemaError α}

/-- From this progress the computation ends, with this outcome and at that
progress. -/
def Ends (x : Recursion α) (before : Progress) (outcome : Except SchemaError α)
    (after : Progress) : Prop :=
  x.run.run before = some (outcome, after)

theorem ends_pure : Ends (pure a) before (.ok a) before := rfl

theorem ends_throw : Ends (throw e : Recursion α) before (.error e) before := rfl

/-- A step that comes to a value is followed by the next. -/
theorem Ends.bind_ok {outcome : Except SchemaError β} (hx : Ends x before (.ok a) between)
    (hf : Ends (f a) between outcome after) : Ends (x >>= f) before outcome after := by
  unfold Ends at hx ⊢
  rw [ExceptT.run_bind, StateT.run_bind, hx]
  exact hf

theorem Ends.bind_error (hx : Ends x before (.error e) between) :
    Ends (x >>= f) before (.error e) between := by
  unfold Ends at hx ⊢
  rw [ExceptT.run_bind, StateT.run_bind, hx]
  rfl

theorem Ends.called (h : Ends x before.call outcome after) :
    Ends (do modify Progress.call; x) before outcome after := h

theorem Ends.get {f : Progress → Recursion α} (h : Ends (f before) before outcome after) :
    Ends (MonadState.get >>= f) before outcome after := h

end

variable {definitions : Definitions} {key : DefinitionKey} {body node v : Json}
variable {path : List DefinitionKey} {reference : String} {p : Progress} {levels : Nat}

-- ====================================================== the record

/-- The stack holds no definition twice, and only definitions that exist
and are not done. -/
structure Moment.Orderly (definitions : Definitions) (now : Moment) : Prop where
  distinct : now.stack.Nodup
  defined : ∀ key ∈ now.stack, ∃ body, lookup key definitions = some body
  unfinished : ∀ key ∈ now.stack, key ∉ now.done.map Prod.fst

namespace Progress

/-- What the record shows, an error or not: every call was in order, only
definitions that exist have been entered, none of them twice, and none is
done twice. -/
structure Recorded (definitions : Definitions) (p : Progress) : Prop where
  calls : ∀ now ∈ p.calls, now.Orderly definitions
  defined : ∀ key ∈ p.entered, ∃ body, lookup key definitions = some body
  entered : p.entered.Nodup
  done : (p.done.map Prod.fst).Nodup

/-- As long as nothing has failed, what is at hand is in order, and every
definition that was entered is on the stack still or done. -/
structure Underway (definitions : Definitions) (p : Progress) : Prop
    extends p.Recorded definitions where
  now : p.toMoment.Orderly definitions
  accounted : ∀ key, key ∈ p.entered ↔ key ∈ p.stack ∨ key ∈ p.done.map Prod.fst

/-- The record behind an outcome. -/
def After {α : Type} (definitions : Definitions) : Except SchemaError α → Progress → Prop
  | .ok _, p => p.Underway definitions
  | .error _, p => p.Recorded definitions

theorem underway_start : start.Underway definitions where
  calls := nofun
  defined := nofun
  entered := .nil
  done := .nil
  now := ⟨.nil, nofun, nofun⟩
  accounted _ := by simp [start]

/-- A call puts what is at hand on record, and that is in order. -/
theorem Underway.call (h : p.Underway definitions) : p.call.Underway definitions where
  calls now hnow := (List.mem_cons.1 hnow).elim (fun heq => heq ▸ h.now) (h.calls now)
  defined := h.defined
  entered := h.entered
  done := h.done
  now := h.now
  accounted := h.accounted

/-- A definition that is neither on the stack nor done has not been entered
yet. -/
theorem Underway.enter (h : p.Underway definitions) (hstack : key ∉ p.stack)
    (hdone : key ∉ p.done.map Prod.fst) (hbody : lookup key definitions = some body) :
    (p.enter key).Underway definitions where
  calls := h.calls
  defined := List.forall_mem_cons.2 ⟨⟨body, hbody⟩, h.defined⟩
  entered := List.nodup_cons.2 ⟨fun hmem => ((h.accounted key).1 hmem).elim hstack hdone, h.entered⟩
  done := h.done
  now := {
    distinct := List.nodup_append.2 ⟨h.now.distinct, List.nodup_singleton _,
      fun k hk k' hk' heq => hstack (List.mem_singleton.1 hk' ▸ heq ▸ hk)⟩
    defined := fun k hk => (List.mem_append.1 hk).elim (h.now.defined k) fun hk =>
      ⟨body, List.mem_singleton.1 hk ▸ hbody⟩
    unfinished := fun k hk => (List.mem_append.1 hk).elim (h.now.unfinished k) fun hk =>
      List.mem_singleton.1 hk ▸ hdone }
  accounted k := by
    have := h.accounted k
    simp only [Progress.enter, List.mem_cons, List.mem_append, List.not_mem_nil, or_false, this]
    tauto

/-- The definition on top of the stack is done for the first time. It was
entered once, and what is done was entered before. -/
theorem Underway.keep (h : p.Underway definitions) (hstack : p.stack = path ++ [key]) :
    (p.leave.keep key (.ok v)).Underway definitions := by
  have hleave := stack_leave hstack
  obtain ⟨hdistinct, hdefined, hunfinished⟩ := h.now
  rw [hstack] at hdistinct hdefined hunfinished
  have hkey : key ∈ path ++ [key] := List.mem_append_right _ (List.mem_singleton_self key)
  refine ⟨⟨h.calls, h.defined, h.entered, List.nodup_cons.2 ⟨hunfinished key hkey, h.done⟩⟩,
    ⟨?_, ?_, ?_⟩, fun k => ?_⟩
  · exact hleave ▸ hdistinct.of_append_left
  · exact fun k hk => hdefined k (List.mem_append_left _ (hleave ▸ hk))
  · intro k hk hdone
    have hpath : k ∈ path := hleave ▸ hk
    rcases List.mem_cons.1 hdone with rfl | hdone
    · exact (List.nodup_append.1 hdistinct).2.2 k hpath k (List.mem_singleton_self k) rfl
    · exact hunfinished k (List.mem_append_left _ hpath) hdone
  · have haccounted := h.accounted k
    rw [hstack, List.mem_append, List.mem_singleton] at haccounted
    change k ∈ p.entered ↔ k ∈ p.leave.stack ∨ k ∈ key :: p.done.map Prod.fst
    rw [hleave, haccounted, List.mem_cons, or_assoc]

/-- The same with an error, behind which less is known. -/
theorem After.keep {outcome : Except SchemaError Json} (h : p.After definitions outcome)
    (hstack : p.stack = path ++ [key]) : (p.leave.keep key outcome).After definitions outcome := by
  cases outcome with
  | ok v => exact Underway.keep h hstack
  | error e => exact ⟨h.calls, h.defined, h.entered, h.done⟩

end Progress

-- ============================================================ one step

/-- A definition is not found if no key is its own. -/
theorem lookup_eq_none_iff : lookup key definitions = none ↔ key ∉ definitions.map Prod.fst := by
  induction definitions with
  | nil => simp [lookup]
  | cons d definitions ih =>
      obtain ⟨k, b⟩ := d
      rw [lookup, List.map_cons, List.mem_cons, not_or, ← ih]
      split
      next heq => simp [heq]
      next hne => simp [Ne.symm hne]

namespace Stacked

/-- A reference to the whole document is an error with all of the stack. -/
theorem resolve_root :
    Ends (resolve definitions levels rootReference) p (.error (rootCycle p.stack)) p.call := by
  rw [resolve]
  exact .called (.get ends_throw)

/-- A reference of no known shape is an error. -/
theorem resolve_unsupported (hroot : reference ≠ rootReference)
    (hkey : DefinitionKey.ofPointer? reference = none) :
    Ends (resolve definitions levels reference) p (.error (.unsupportedReference reference))
      p.call := by
  rw [resolve]
  refine .called (.get ?_)
  rw [if_neg hroot, hkey]
  exact ends_throw

section

variable (hkey : DefinitionKey.ofPointer? reference = some key)
include hkey

theorem resolve_done (hdone : lookup key p.done = some v) :
    Ends (resolve definitions levels reference) p (.ok v) p.call := by
  rw [resolve]
  refine .called (.get ?_)
  rw [if_neg (ne_rootReference hkey), hkey]
  simp only [Progress.done_call, hdone]
  exact ends_pure

variable (hdone : lookup key p.done = none)
include hdone

theorem resolve_again (hstack : key ∈ p.stack) :
    Ends (resolve definitions levels reference) p (.error (cycle p.stack key)) p.call := by
  rw [resolve]
  refine .called (.get ?_)
  rw [if_neg (ne_rootReference hkey), hkey]
  simp only [Progress.done_call, hdone, Progress.stack_call, List.contains_iff_mem, if_pos hstack]
  exact ends_throw

variable (hstack : key ∉ p.stack)
include hstack

theorem resolve_missing (hbody : lookup key definitions = none) :
    Ends (resolve definitions levels reference) p (.error (.unknownDefinition key.name))
      p.call := by
  rw [resolve]
  refine .called (.get ?_)
  rw [if_neg (ne_rootReference hkey), hkey]
  simp only [Progress.done_call, hdone, Progress.stack_call, List.contains_iff_mem, if_neg hstack,
    hbody]
  exact ends_throw

/-- A definition that is entered comes off the stack where its body has
been expanded and where that failed, and what it came to is kept. Its body
is expanded with one level less. -/
theorem resolve_entered (hbody : lookup key definitions = some body)
    {outcome : Except SchemaError Json} {after : Progress}
    (h : Ends (expand (resolve definitions levels) body) (p.call.enter key) outcome after) :
    Ends (resolve definitions (levels + 1) reference) p outcome
      (after.leave.keep key outcome) := by
  rw [resolve]
  refine .called (.get ?_)
  rw [if_neg (ne_rootReference hkey), hkey]
  simp only [Progress.done_call, hdone, Progress.stack_call, List.contains_iff_mem, if_neg hstack,
    hbody]
  -- from here on the outcome is looked at only after the definition is popped
  unfold Ends at h ⊢
  change ((expand (resolve definitions levels) body).run.run (p.call.enter key)).bind _ = _
  rw [h]
  rfl

end

end Stacked

-- ============================================================ mirroring

section

variable {α β : Type} {x : Nat → Recursion α} {y : Expansion α}

/-- With this path on the stack the computation ends, in the same way with
as many levels as there are definitions off the path and with more; it
leaves the stack as it was, comes to what the one on the path comes to, and
keeps its record. -/
def Mirrors (definitions : Definitions) (path : List DefinitionKey) (x : Nat → Recursion α)
    (y : Expansion α) : Prop :=
  ∀ before : Progress, before.stack = path → ∃ outcome after,
    (∀ levels, (pending definitions path).length ≤ levels →
      Ends (x levels) before outcome after) ∧
    after.stack = path ∧ y.run before.done = outcome.map (fun a => (a, after.done)) ∧
    (before.Underway definitions → after.After definitions outcome)

theorem mirrors_pure (a : α) : Mirrors definitions path (fun _ => pure a) (pure a) :=
  fun before hbefore => ⟨.ok a, before, fun _ _ => ends_pure, hbefore, rfl, id⟩

theorem mirrors_throw (e : SchemaError) :
    Mirrors definitions path (fun _ => (throw e : Recursion α)) (throw e) :=
  fun before hbefore => ⟨.error e, before, fun _ _ => ends_throw, hbefore, rfl, (·.toRecorded)⟩

theorem Mirrors.called (h : Mirrors definitions path x y) :
    Mirrors definitions path (fun levels => do modify Progress.call; x levels) y := by
  intro before hbefore
  obtain ⟨outcome, after, hends, hafter, hrun, hkept⟩ := h before.call hbefore
  exact ⟨outcome, after, fun levels hlevels => (hends levels hlevels).called, hafter, hrun,
    fun hunderway => hkept hunderway.call⟩

/-- Steps mirror one another in turn, and leave the stack as it was in
between. -/
theorem Mirrors.bind {f : Nat → α → Recursion β} {g : α → Expansion β}
    (hx : Mirrors definitions path x y)
    (hf : ∀ a, Mirrors definitions path (fun levels => f levels a) (g a)) :
    Mirrors definitions path (fun levels => x levels >>= f levels) (y >>= g) := by
  intro before hbefore
  obtain ⟨outcome, between, hends, hbetween, hrun, hkept⟩ := hx before hbefore
  cases outcome with
  | error e =>
      refine ⟨.error e, between, fun levels hlevels => (hends levels hlevels).bind_error,
        hbetween, ?_, hkept⟩
      rw [StateT.run_bind, hrun]
      rfl
  | ok a =>
      obtain ⟨outcome, after, hends', hafter, hrun', hkept'⟩ := hf a between hbetween
      refine ⟨outcome, after, fun levels hlevels =>
        (hends levels hlevels).bind_ok (hends' levels hlevels), hafter, ?_,
        fun h => hkept' (hkept h)⟩
      rw [StateT.run_bind, hrun]
      exact hrun'

end

section

variable {answer : Nat → String → Recursion Json} {items : List Json}
variable {members : List (String × Json)}

theorem mirrors_expandItems
    (each : ∀ item ∈ items, Mirrors definitions path
      (fun levels => Stacked.expand (answer levels) item) (expand definitions path item)) :
    Mirrors definitions path (fun levels => Stacked.expandItems (answer levels) items)
      (expandItems definitions path items) := by
  induction items with
  | nil =>
      rw [expandItems]
      exact mirrors_pure []
  | cons item items ih =>
      rw [List.forall_mem_cons] at each
      rw [expandItems]
      exact each.1.bind fun item => (ih each.2).bind fun items => mirrors_pure (item :: items)

theorem mirrors_expandMembers
    (each : ∀ m ∈ members, Mirrors definitions path
      (fun levels => Stacked.expand (answer levels) m.2) (expand definitions path m.2)) :
    Mirrors definitions path (fun levels => Stacked.expandMembers (answer levels) members)
      (expandMembers definitions path members) := by
  induction members with
  | nil =>
      rw [expandMembers]
      exact mirrors_pure []
  | cons m members ih =>
      obtain ⟨key, value⟩ := m
      rw [List.forall_mem_cons] at each
      simp only [Stacked.expandMembers]
      rw [expandMembers]
      split
      next => exact ih each.2
      next =>
        exact each.1.bind fun value => (ih each.2).bind fun members =>
          mirrors_pure ((key, value) :: members)

/-- A node is expanded on the stack as it is on the path, if its references
are resolved so. The recursion over a node ends with the node. -/
theorem mirrors_expand {node : Json} (hanswer : ∀ reference, Mirrors definitions path
      (fun levels => answer levels reference) (resolve definitions path reference)) :
    Mirrors definitions path (fun levels => Stacked.expand (answer levels) node)
      (expand definitions path node) := by
  induction node using Json.induction_parts with
  | scalar j hj =>
      rw [expand_of_isScalar hj]
      cases j with
      | arr items => cases hj
      | obj members => cases hj
      | _ => exact (mirrors_pure _).called
  | arr items ih =>
      rw [expand]
      exact ((mirrors_expandItems ih).bind fun items => mirrors_pure (Json.arr items)).called
  | obj members ih =>
      have hmembers := mirrors_expandMembers ih
      simp only [Stacked.expand]
      rw [expand]
      refine Mirrors.called ?_
      cases member? referenceKey members with
      | none => exact hmembers.bind fun members => mirrors_pure (Json.obj members)
      | some argument =>
          cases argument with
          | str reference =>
              exact (hanswer reference).bind fun target => hmembers.bind fun members =>
                mirrors_pure (refine target members)
          | _ => exact mirrors_throw _

end

/-- A reference is resolved on the stack as it is on the path: each
definition that is entered leaves fewer of them to enter, and so there is a
level left for it. By induction on the path, case by case. -/
theorem mirrors_resolve :
    Mirrors definitions path (fun levels => Stacked.resolve definitions levels reference)
      (resolve definitions path reference) := by
  induction path using path_induction definitions generalizing reference with
  | step path ih =>
      rintro before rfl
      by_cases hroot : reference = rootReference
      · subst hroot
        refine ⟨_, _, fun _ _ => Stacked.resolve_root, rfl, ?_, fun h => h.call.toRecorded⟩
        rw [resolve, if_pos rfl]
        rfl
      cases hkey : DefinitionKey.ofPointer? reference with
      | none =>
          refine ⟨_, _, fun _ _ => Stacked.resolve_unsupported hroot hkey, rfl, ?_,
            fun h => h.call.toRecorded⟩
          rw [resolve, if_neg hroot, hkey]
          rfl
      | some key =>
          cases hdone : lookup key before.done with
          | some v =>
              exact ⟨_, _, fun _ _ => Stacked.resolve_done hkey hdone, rfl,
                resolve_expanded hkey hdone, fun h => h.call⟩
          | none =>
              by_cases hmem : key ∈ before.stack
              · exact ⟨_, _, fun _ _ => Stacked.resolve_again hkey hdone hmem, rfl,
                  resolve_cycle hkey hdone hmem, fun h => h.call.toRecorded⟩
              cases hbody : lookup key definitions with
              | none =>
                  exact ⟨_, _, fun _ _ => Stacked.resolve_missing hkey hdone hmem hbody, rfl,
                    resolve_unknown hkey hdone hmem hbody, fun h => h.call.toRecorded⟩
              | some body =>
                  obtain ⟨outcome, after, hends, hafter, hrun, hkept⟩ :=
                    mirrors_expand (fun reference => ih key body hmem hbody)
                      (before.call.enter key) rfl
                  have hfewer := pending_lt (fun h => hmem (List.contains_iff_mem.1 h)) hbody
                  refine ⟨outcome, after.leave.keep key outcome, fun levels hlevels => ?_,
                    (Progress.stack_keep ..).trans (Progress.stack_leave hafter), ?_, fun h => ?_⟩
                  · -- `key` is off the path, so the levels are not down to zero here
                    cases levels with
                    | zero => omega
                    | succ levels =>
                        exact Stacked.resolve_entered hkey hdone hmem hbody
                          (hends levels (by omega))
                  · have hrun' : (expand definitions (before.stack ++ [key]) body).run before.done =
                      outcome.map (fun a => (a, after.done)) := hrun
                    rw [resolve_enter hkey hdone hmem hbody, hrun']
                    cases outcome <;> rfl
                  · have hnew : key ∉ before.done.map Prod.fst := lookup_eq_none_iff.1 hdone
                    exact (hkept (h.call.enter hmem hnew hbody)).keep hafter

-- ============================================================= the end

/-- There are no more distinct definitions than there are definitions. -/
theorem length_le_definitions {keys : List DefinitionKey} (hdistinct : keys.Nodup)
    (hdefined : ∀ key ∈ keys, ∃ body, lookup key definitions = some body) :
    keys.length ≤ definitions.length := by
  have hsub : keys ⊆ definitions.map Prod.fst := fun key hkey =>
    have ⟨_, hbody⟩ := hdefined key hkey
    mem_keys_of_lookup hbody
  simpa using hdistinct.length_le_of_subset hsub

/-- No more definitions are off the path than there are. -/
theorem length_pending_le : (pending definitions path).length ≤ definitions.length :=
  (List.length_filter_le ..).trans_eq (List.length_map ..)

/-- Inlining ends on every schema, also where definitions are cyclic, with
the outcome of `inline`: with as many levels as there are definitions none
runs out, and with more of them it goes the same way. On that way the stack
always holds distinct definitions of the schema, none of them done, so that
it is no higher than there are definitions; no definition is entered twice,
and none is done twice. From whatever progress a reference is resolved,
that ends too, with the outcome of `resolve` on the stack as its path, and
the stack is what it was, on success and on error. -/
theorem inlining_ends (schema : Json) :
    (∃ after : Progress,
      (∀ levels, (definitionsOf schema.ordered).length ≤ levels →
        Ends (Stacked.inline levels schema) .start (inline schema) after) ∧
      after.stack = [] ∧
      (∀ now ∈ after.calls, now.Orderly (definitionsOf schema.ordered) ∧
        now.stack.length ≤ (definitionsOf schema.ordered).length) ∧
      after.entered.Nodup ∧ after.entered.length ≤ (definitionsOf schema.ordered).length ∧
      (after.done.map Prod.fst).Nodup) ∧
    ∀ (reference : String) (before : Progress), ∃ outcome after,
      (∀ levels, (definitionsOf schema.ordered).length ≤ levels →
        Ends (Stacked.resolve (definitionsOf schema.ordered) levels reference) before outcome
          after) ∧
      after.stack = before.stack ∧
      (resolve (definitionsOf schema.ordered) before.stack reference).run before.done =
        outcome.map (fun body => (body, after.done)) := by
  constructor
  · have hmirrors : Mirrors (definitionsOf schema.ordered) []
        (fun levels => Stacked.inline levels schema)
        (expand (definitionsOf schema.ordered) [] (withoutDefinitions schema.ordered)) :=
      mirrors_expand fun _ => mirrors_resolve
    obtain ⟨outcome, after, hends, hstack, hrun, hkept⟩ := hmirrors .start rfl
    -- what was recorded on the way stays, however the run ends
    have hrecorded : after.Recorded (definitionsOf schema.ordered) := by
      have hafter := hkept Progress.underway_start
      cases outcome with
      | ok v => exact hafter.toRecorded
      | error e => exact hafter
    have houtcome : inline schema = outcome := by
      change (expand (definitionsOf schema.ordered) [] (withoutDefinitions schema.ordered)).run [] =
        outcome.map (fun a => (a, after.done)) at hrun
      rw [inline, hrun]
      cases outcome <;> rfl
    refine ⟨after, fun levels hlevels => houtcome ▸ hends levels (length_pending_le.trans hlevels),
      hstack, fun now hnow => ?_, hrecorded.entered,
      length_le_definitions hrecorded.entered hrecorded.defined, hrecorded.done⟩
    have horderly := hrecorded.calls now hnow
    exact ⟨horderly, length_le_definitions horderly.distinct horderly.defined⟩
  · intro reference before
    obtain ⟨outcome, after, hends, hstack, hrun, -⟩ := mirrors_resolve before rfl
    exact ⟨outcome, after, fun levels hlevels => hends levels (length_pending_le.trans hlevels),
      hstack, hrun⟩

/-- A reference that stands alone fails as what it refers to does. -/
theorem expand_alone_eq_error {answer : String → Recursion Json} {e : SchemaError}
    {after : Progress} (h : Ends (answer reference) p.call (.error e) after) :
    Ends (Stacked.expand answer (.obj [(referenceKey, .str reference)])) p (.error e) after := by
  have hmember : member? referenceKey [(referenceKey, .str reference)] =
    some (.str reference) := if_pos rfl
  rw [Stacked.expand, hmember]
  exact .called h.bind_error

/-- A definition that is a reference to itself, and a schema that is a
reference to it. -/
def selfNamed : Json :=
  .obj [("$defs", .obj [("Loop", .obj [(referenceKey, .str "#/$defs/Loop")])]),
    (referenceKey, .str "#/$defs/Loop")]

/-- The definition that refers to itself is entered once, which takes one
level, and is on the stack when the reference to it is met again; and there
the expansion ends. -/
theorem selfNamed_ends :
    (Stacked.inline 0 selfNamed).run.run .start = none ∧
    ∃ after : Progress,
      (∀ levels, 1 ≤ levels → Ends (Stacked.inline levels selfNamed) .start
        (.error (.selfReference ["Loop", "Loop"])) after) ∧
      after.stack = [] ∧ after.entered = [⟨.defs, "Loop"⟩] ∧ after.done = [] ∧
      after.calls.map Moment.stack = [[⟨.defs, "Loop"⟩], [⟨.defs, "Loop"⟩], [], []] ∧
      ∀ now ∈ after.calls, now.stack.length ≤ 1 := by
  have hkey : DefinitionKey.ofPointer? "#/$defs/Loop" = some ⟨.defs, "Loop"⟩ := by decide
  have hends : Ends (Stacked.inline 1 selfNamed) .start (.error (.selfReference ["Loop", "Loop"]))
      (Progress.start.call.call.enter ⟨.defs, "Loop"⟩).call.call.leave := by
    apply expand_alone_eq_error
    refine Stacked.resolve_entered hkey rfl List.not_mem_nil rfl ?_
    apply expand_alone_eq_error
    exact Stacked.resolve_again hkey rfl (by decide)
  obtain ⟨after, hends', hstack, hcalls, -⟩ := (inlining_ends selfNamed).1
  obtain ⟨houtcome, rfl⟩ := Prod.mk.inj (Option.some.inj ((hends' 1 (le_refl 1)).symm.trans hends))
  exact ⟨by decide +kernel, _, fun levels hlevels => houtcome ▸ hends' levels hlevels, hstack,
    rfl, rfl, rfl, fun now hnow => (hcalls now hnow).2⟩

end Schema

end TypedSelect
