/-
Keeping what has been expanded changes nothing.

A definition is kept by its key alone, and taken again on another path
than the one it was expanded on. What makes this right is that a
definition is kept only once its expansion has ended, so that it is on no
cycle; every definition on a path leads to those that are looked up there,
so a kept one is never on the path it is taken on, and neither is anything
it reaches. Then expanding it anew would have come to the same, and where
expansion fails, both ways fail at the same reference.

# Two computations

`Tracks` relates the computation that keeps what it expands to the one
that does not: from a state where the invariant holds they have the same
outcome, an error or a value. It is shown of the walk for any answers that
track one another, since the walk is one definition for both, and then of
references by induction on the path.

# The invariant

`Kept` says of every kept expansion that it is what the definition comes
to on some path, which need not be the one it is used on. `Leading` says
of the path that all definitions on it lead to what is looked up, and is
what is known about the path at every reference. The two meet in
`Kept.resolveAfresh`.
-/
import TypedSelect.Proofs.Schema.Reachability

namespace TypedSelect

namespace Schema

open Json (member?)
open Relation (TransGen)

-- ============================================================ tracking

section

variable {α β : Type} {inv : Expanded → Prop}

/-- From a state where the invariant holds, the computation that keeps what
it expands comes to what the other one does, and to the invariant. -/
def Tracks (inv : Expanded → Prop) (x : Expansion α) (y : Except SchemaError α) : Prop :=
  ∀ st, inv st →
    match y with
    | .ok a => ∃ st', x.run st = .ok (a, st') ∧ inv st'
    | .error e => x.run st = .error e

/-- A value without a fault is tracked by itself. -/
theorem tracks_pure (a : α) : Tracks inv (pure a) (.ok a) := fun st hst => ⟨st, rfl, hst⟩

theorem tracks_throw (e : SchemaError) : Tracks inv (throw e : Expansion α) (.error e) :=
  fun _ _ => rfl

/-- Steps are tracked one after the other, and an error ends both. What has
been kept in between still agrees with what expansion afresh gives. -/
theorem Tracks.bind {x : Expansion α} {y : Except SchemaError α} {f : α → Expansion β}
    {g : α → Except SchemaError β} (hx : Tracks inv x y) (hf : ∀ a, Tracks inv (f a) (g a)) :
    Tracks inv (x >>= f) (y >>= g) := by
  intro st hst
  have hrun := hx st hst
  rw [StateT.run_bind]
  cases y with
  | error e =>
      rw [hrun]
      rfl
  | ok a =>
      obtain ⟨st', hrun, hst'⟩ := hrun
      rw [hrun]
      exact hf a st' hst'

variable {answer : String → Expansion Json} {answer' : String → Except SchemaError Json}

theorem tracks_walkItems {items : List Json}
    (each : ∀ item ∈ items, Tracks inv (walk answer item) (walk answer' item)) :
    Tracks inv (walkItems answer items) (walkItems answer' items) := by
  induction items with
  | nil => exact tracks_pure []
  | cons item items ih =>
      rw [List.forall_mem_cons] at each
      rw [walkItems, walkItems]
      exact each.1.bind fun item => (ih each.2).bind fun items => tracks_pure (item :: items)

theorem tracks_walkMembers {members : List (String × Json)}
    (each : ∀ m ∈ members, Tracks inv (walk answer m.2) (walk answer' m.2)) :
    Tracks inv (walkMembers answer members) (walkMembers answer' members) := by
  induction members with
  | nil => exact tracks_pure []
  | cons m members ih =>
      obtain ⟨key, value⟩ := m
      rw [List.forall_mem_cons] at each
      rw [walkMembers, walkMembers]
      split
      next => exact ih each.2
      next =>
        exact each.1.bind fun value => (ih each.2).bind fun members =>
          tracks_pure ((key, value) :: members)

/-- A walk keeps track as far as its answers do. The walk itself keeps
nothing, so all that changes the state are the answers. -/
theorem tracks_walk {node : Json}
    (h : ∀ reference, Cites node (.str reference) →
      Tracks inv (answer reference) (answer' reference)) :
    Tracks inv (walk answer node) (walk answer' node) := by
  induction node using Json.induction_parts with
  | scalar j hj =>
      cases j with
      | arr items => cases hj
      | obj members => cases hj
      | _ => exact tracks_pure _
  | arr items ih =>
      rw [walk, walk]
      exact (tracks_walkItems fun item hitem => ih item hitem fun reference hcites =>
        h reference (hcites.item hitem)).bind fun items => tracks_pure (Json.arr items)
  | obj members ih =>
      have hmembers := tracks_walkMembers fun m hm => ih m hm fun reference hcites =>
        h reference (hcites.value hm)
      rw [walk, walk]
      cases hmember : member? referenceKey members with
      | none => exact hmembers.bind fun members => tracks_pure (Json.obj members)
      | some argument =>
          cases argument with
          -- both walks take the target first and then the siblings
          | str reference =>
              exact (h reference (cites_self hmember)).bind fun target =>
                hmembers.bind fun members => tracks_pure (refine target members)
          | _ => exact tracks_throw _

end

-- ========================================================= what is kept

/-- What has been kept under a key is what the definition comes to when it
is expanded anew, on some path. -/
def Kept (definitions : Definitions) (st : Expanded) : Prop :=
  ∀ key v, lookup key st = some v → ∃ path body, lookup key definitions = some body ∧
    expandAfresh definitions (path ++ [key]) body = .ok v

variable {definitions : Definitions} {path : List DefinitionKey} {reference : String}
variable {key : DefinitionKey} {body node v : Json} {st : Expanded}

theorem Kept.cons (hst : Kept definitions st) (hbody : lookup key definitions = some body)
    (h : expandAfresh definitions (path ++ [key]) body = .ok v) :
    Kept definitions ((key, v) :: st) := by
  intro key' v' hlookup
  rw [lookup] at hlookup
  split at hlookup
  next heq =>
    cases hlookup
    exact ⟨path, body, heq ▸ hbody, heq ▸ h⟩
  next => exact hst key' v' hlookup

/-- Every definition on the path leads to this one. -/
def Leading (definitions : Definitions) (path : List DefinitionKey) (key : DefinitionKey) : Prop :=
  ∀ k ∈ path, TransGen (Leads definitions) k key

/-- A definition that all on the path lead to, once entered, is on the path
and leads to what its body names. -/
theorem Leading.enter {key' : DefinitionKey} (h : Leading definitions path key)
    (hbody : lookup key definitions = some body) (hnames : Names body key') :
    Leading definitions (path ++ [key]) key' := by
  have hleads : Leads definitions key key' := ⟨body, hbody, hnames⟩
  intro k hk
  rcases List.mem_append.1 hk with hk | hk
  · exact (h k hk).tail hleads
  · rw [List.mem_singleton.1 hk]
    exact .single hleads

/-- A kept definition is what expanding it anew comes to, wherever a
reference to it is met. It is on no cycle, so nothing that leads to it is
within its reach, and the path does not matter. -/
theorem Kept.resolveAfresh (hdefinitions : DefinitionsInOrder definitions)
    (hst : Kept definitions st) (hkey : DefinitionKey.ofPointer? reference = some key)
    (hv : lookup key st = some v) (hpath : Leading definitions path key) :
    resolveAfresh definitions path reference = .ok v := by
  obtain ⟨path', body, hbody, h⟩ := hst key v hv
  have hacyclic := acyclic_of_entered hdefinitions hbody h
  have hnot : ∀ k ∈ path ++ [key], ¬ Reaches definitions body k := by
    intro k hk hreaches
    have hleads := leads_of_reaches hbody hreaches
    rcases List.mem_append.1 hk with hk | hk
    · exact hacyclic (hleads.trans (hpath k hk))
    · rw [List.mem_singleton.1 hk] at hleads
      exact hacyclic hleads
  refine resolveAfresh_eq_ok.2 ⟨key, body, hkey, fun hmem => hacyclic (hpath key hmem), hbody, ?_⟩
  exact expandAfresh_of_path hdefinitions (hdefinitions key body hbody) h hnot

/-- A definition that is being expanded and not kept is a self-reference. -/
theorem resolve_cycle (hkey : DefinitionKey.ofPointer? reference = some key)
    (hst : lookup key st = none) (hpath : key ∈ path) :
    (resolve definitions path reference).run st = .error (cycle path key) := by
  rw [resolve, if_neg (ne_rootReference hkey), hkey]
  dsimp only
  rw [StateT.run_bind]
  simp only [StateT.run_get, pure_bind, hst, dif_pos (List.contains_iff_mem.2 hpath)]
  rfl

theorem resolve_unknown (hkey : DefinitionKey.ofPointer? reference = some key)
    (hst : lookup key st = none) (hpath : key ∉ path) (hbody : lookup key definitions = none) :
    (resolve definitions path reference).run st = .error (.unknownDefinition key.name) := by
  have hnew : ¬ path.contains key = true := fun h => hpath (List.contains_iff_mem.1 h)
  rw [resolve, if_neg (ne_rootReference hkey), hkey]
  dsimp only
  rw [StateT.run_bind]
  simp only [StateT.run_get, pure_bind, hst, dif_neg hnew]
  split
  next => rfl
  next h =>
    rw [hbody] at h
    cases h

/-- A reference is resolved as it would be anew. A definition that is entered
is tracked on the longer path, and kept if its expansion ends. -/
theorem tracks_resolve (hdefinitions : DefinitionsInOrder definitions)
    (hpath : ∀ key, DefinitionKey.ofPointer? reference = some key → Leading definitions path key) :
    Tracks (Kept definitions) (resolve definitions path reference)
      (resolveAfresh definitions path reference) := by
  induction path using path_induction definitions generalizing reference with
  | step path ih =>
      intro st hst
      by_cases hroot : reference = rootReference
      · rw [resolve, resolveAfresh, if_pos hroot, if_pos hroot]
        rfl
      cases hkey : DefinitionKey.ofPointer? reference with
      | none =>
          rw [resolve, resolveAfresh, if_neg hroot, if_neg hroot, hkey]
          rfl
      | some key =>
          have hleading := hpath key hkey
          -- what was kept was expanded on another path, and comes to the same on this one
          cases hmemo : lookup key st with
          | some v =>
              rw [hst.resolveAfresh hdefinitions hkey hmemo hleading]
              exact ⟨st, resolve_expanded hkey hmemo, hst⟩
          | none =>
              by_cases hmem : key ∈ path
              · rw [resolveAfresh_cycle hkey hmem]
                exact resolve_cycle hkey hmemo hmem
              cases hbody : lookup key definitions with
              | none =>
                  rw [resolveAfresh_unknown hkey hmem hbody]
                  exact resolve_unknown hkey hmemo hmem hbody
              | some body =>
                  have htracks : Tracks (Kept definitions)
                      (expand definitions (path ++ [key]) body)
                      (expandAfresh definitions (path ++ [key]) body) := by
                    rw [expand_eq_walk]
                    exact tracks_walk fun reference hcites =>
                      ih key body hmem hbody fun key' hkey' =>
                        hleading.enter hbody ⟨reference, hcites, hkey'⟩
                  have hrun := htracks st hst
                  rw [resolveAfresh_enter hkey hmem hbody, resolve_enter hkey hmemo hmem hbody]
                  cases h : expandAfresh definitions (path ++ [key]) body with
                  | error e =>
                      rw [h] at hrun
                      rw [hrun]
                      rfl
                  | ok v =>
                      rw [h] at hrun
                      obtain ⟨st', hrun, hst'⟩ := hrun
                      rw [hrun]
                      exact ⟨(key, v) :: st', rfl, hst'.cons hbody h⟩

/-- From nothing kept, expansion comes to what it does anew. Everything that
is kept on the way is what expansion afresh would give. -/
theorem expand_run_eq (hdefinitions : DefinitionsInOrder definitions) (node : Json) :
    ((expand definitions [] node).run []).map Prod.fst = expandAfresh definitions [] node := by
  have htracks : Tracks (Kept definitions) (expand definitions [] node)
      (expandAfresh definitions [] node) := by
    rw [expand_eq_walk]
    exact tracks_walk fun reference _ => tracks_resolve hdefinitions fun key _ k hk => nomatch hk
  have hrun := htracks [] nofun
  cases h : expandAfresh definitions [] node with
  | error e =>
      rw [h] at hrun
      rw [hrun]
      rfl
  | ok v =>
      rw [h] at hrun
      obtain ⟨st', hrun, -⟩ := hrun
      rw [hrun]
      rfl

-- ========================================================= documents

/-- A definition of a schema stands in it, so it is in order where the schema
is. -/
theorem within_of_lookup {schema : Json} (h : lookup key (definitionsOf schema) = some body) :
    Json.Within body schema := by
  obtain ⟨s, -, hmem⟩ := List.mem_flatMap.1 (mem_of_lookup h)
  unfold sectionDefinitions at hmem
  split at hmem
  next members hget =>
    obtain ⟨m, hm, heq⟩ := List.mem_map.1 hmem
    cases heq
    cases schema with
    | obj root => exact .value (Json.mem_of_member? hget) (.value hm .self)
    | _ => cases hget
  next => cases hmem

/-- The definitions of a schema in order are in order. -/
theorem definitionsInOrder {schema : Json} (h : schema.InOrder) :
    DefinitionsInOrder (definitionsOf schema) := fun _ _ hbody members hwithin =>
  h members (hwithin.trans (within_of_lookup hbody))

/-- Without its definitions a schema is still in order. -/
theorem inOrder_withoutDefinitions {schema : Json} (h : schema.InOrder) :
    (withoutDefinitions schema).InOrder := by
  cases schema with
  | obj root =>
      intro members hwithin
      obtain heq | ⟨m, hm, hwithin⟩ := Json.within_obj.1 hwithin
      · cases heq
        exact (h root .self).filter _
      · exact h members (.value (List.mem_of_mem_filter hm) hwithin)
  | _ => exact h

/-- What is kept while a schema is inlined never shows: the outcome, the
value or the error, is that of expanding every definition anew. -/
theorem sharing_is_invisible (schema : Json) : inline schema = inlineAfresh schema :=
  expand_run_eq (definitionsInOrder (Json.inOrder_ordered schema)) _

end Schema

end TypedSelect
