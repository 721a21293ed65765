/-
What inlining leaves for a second time.

An inlined schema has no reference and its members are in order, so there
is nothing in it to replace; inlining it again only takes definitions off
its root. Those of the schema itself are gone by then. But a root that is
a reference is replaced by its definition, which may be a reference in
turn, and each of these brings what it has under the name of a section to
the root of the result.

# The chain of heads

`Heads` says that a node is a reference to a definition with some body,
and its closure is the chain of all that the root is replaced by, one
behind another. A member is at the root of the result exactly if some node
of the chain has it: the members beside a reference are laid over those of
its target, and none is lost. The two exceptions are the reference itself
and the keyword that a target is put under when it is no object, and the
name of a section is neither.

# Settled

From this it follows when inlining a second time has no effect, and that a
third time never has. Both need that what is expanded is in order, since
inlining sorts its schema first.
-/
import TypedSelect.Proofs.Schema.Pointer
import TypedSelect.Proofs.Schema.Refusals

namespace TypedSelect

namespace Schema

open Json (member?)
open Relation (ReflTransGen)

variable {definitions : Definitions} {path : List DefinitionKey} {reference name : String}
variable {key : DefinitionKey} {node body target v : Json}
variable {members beside : List (String × Json)}

-- ============================================================== order

/-- Members in order, laid over a target in order, come to a value in order.
A target that is no object is wrapped into one first. -/
theorem inOrder_refine (htarget : target.InOrder) (hbeside : Json.InOrder (.obj beside)) :
    (refine target beside).InOrder := by
  cases beside with
  | nil => exact htarget
  | cons m beside =>
      rw [Json.inOrder_obj] at hbeside
      have hbase : Json.InOrder (.obj (keywordsOf target)) := by
        cases target with
        | obj base => exact htarget
        | _ =>
            -- a target that is no object stands alone in a list, under one keyword
            refine Json.inOrder_obj.2 ⟨List.pairwise_singleton _ _, fun m hm => ?_⟩
            rw [List.mem_singleton.1 hm]
            refine Json.inOrder_arr.2 fun item hitem => ?_
            rwa [List.mem_singleton.1 hitem]
      rw [Json.inOrder_obj] at hbase
      rw [refine_cons]
      refine Json.inOrder_obj.2 ⟨ascending_overlay hbase.1, fun m' hm' => ?_⟩
      rcases mem_of_mem_overlay hm' with h | h
      · exact hbeside.2 m' h
      · exact hbase.2 m' h

/-- A walk whose answers are in order comes to a value in order. By induction
on the parts of the node. -/
theorem inOrder_of_walk {answer : String → Except SchemaError Json} (hnode : node.InOrder)
    (hwalk : walk answer node = .ok v)
    (h : ∀ reference target, answer reference = .ok target → target.InOrder) : v.InOrder := by
  induction node using Json.induction_parts generalizing v with
  | scalar j hj =>
      rw [walk_of_isScalar hj] at hwalk
      cases hwalk
      exact hnode
  | arr items ih =>
      obtain ⟨items', hitems, rfl⟩ := walk_arr_eq_ok hwalk
      refine Json.inOrder_arr.2 fun item' hitem' => ?_
      obtain ⟨item, hitem, hwalk⟩ := item_of_walk hitems hitem'
      exact ih item hitem (hnode.item hitem) hwalk
  | obj members ih =>
      obtain ⟨members', hmembers, hcases⟩ := walk_obj_eq_ok hwalk
      have hvalues : Json.InOrder (.obj members') := by
        refine Json.inOrder_obj.2 ⟨ascending_of_walk (hnode members .self) hmembers, ?_⟩
        intro m' hm'
        obtain ⟨m, hm, -, hwalk⟩ := member_of_walk hmembers hm'
        have hm := (mem_siblings.1 hm).1
        exact ih m hm (hnode.value hm) hwalk
      obtain ⟨-, rfl⟩ | ⟨reference, target, -, htarget, rfl⟩ := hcases
      · exact hvalues
      · exact inOrder_refine (h reference target htarget) hvalues

/-- What is expanded is in order, if the definitions are. -/
theorem inOrder_of_expandAfresh (hdefinitions : DefinitionsInOrder definitions)
    (hnode : node.InOrder) (h : expandAfresh definitions path node = .ok v) : v.InOrder := by
  induction path using path_induction definitions generalizing node v with
  | step path ih =>
      refine inOrder_of_walk hnode h fun reference target htarget => ?_
      obtain ⟨key, body, -, hpath, hbody, htarget⟩ := resolveAfresh_eq_ok.1 htarget
      exact ih key body hpath hbody (hdefinitions key body hbody) htarget

-- =============================================================== roots

/-- The node is a reference to a definition with this body. -/
def Heads (definitions : Definitions) (node body : Json) : Prop :=
  ∃ reference key, node.get? referenceKey = some (.str reference) ∧
    DefinitionKey.ofPointer? reference = some key ∧ lookup key definitions = some body

/-- Members laid over a target add their keys to those of the target. -/
theorem get?_refine (hbeside : (beside.map Prod.fst).Nodup) (hname : name ≠ "allOf") :
    (refine target beside).get? name = none ↔
      member? name beside = none ∧ target.get? name = none := by
  cases beside with
  | nil => exact (and_iff_right rfl).symm
  | cons m beside =>
      have hbase : member? name (keywordsOf target) = target.get? name := by
        cases target with
        | obj base => rfl
        | _ => exact if_neg hname.symm
      rw [refine_cons, Json.get?, member?_overlay hbeside, hbase, Option.or_eq_none_iff]

theorem member?_of_walk {answer : String → Except SchemaError Json}
    (h : walkMembers answer members = .ok beside) (hname : name ≠ referenceKey) :
    member? name beside = none ↔ member? name members = none := by
  rw [Json.member?_eq_none_iff, keys_of_walk h, ← Json.member?_eq_none_iff,
    member?_siblings hname]

/-- A node that is no reference is the end of its chain. -/
theorem forall_heads_of_last (hlast : ∀ body, ¬ Heads definitions node body) {p : Json → Prop} :
    (∀ part, ReflTransGen (Heads definitions) node part → p part) ↔ p node := by
  refine ⟨fun h => h node .refl, fun h part hpart => ?_⟩
  rcases hpart.cases_head with rfl | ⟨body, hbody, -⟩
  · exact h
  · exact absurd hbody (hlast body)

/-- A reference is followed by the chain of its definition. What holds along
the chain holds of the reference and along that of its body. -/
theorem forall_heads_of_reference {p : Json → Prop}
    (hmember : member? referenceKey members = some (.str reference))
    (hkey : DefinitionKey.ofPointer? reference = some key)
    (hbody : lookup key definitions = some body) :
    (∀ part, ReflTransGen (Heads definitions) (.obj members) part → p part) ↔
      p (.obj members) ∧ ∀ part, ReflTransGen (Heads definitions) body part → p part := by
  have hfirst : Heads definitions (.obj members) body := ⟨reference, key, hmember, hkey, hbody⟩
  refine ⟨fun h => ⟨h _ .refl, fun part hpart => h part (.head hfirst hpart)⟩, ?_⟩
  rintro ⟨hself, hrest⟩ part hpart
  rcases hpart.cases_head with rfl | ⟨body', ⟨reference', key', hmember', hkey', hbody'⟩, hpart⟩
  · exact hself
  · rw [Json.get?, hmember] at hmember'
    cases hmember'
    rw [hkey] at hkey'
    cases hkey'
    rw [hbody] at hbody'
    cases hbody'
    exact hrest part hpart

/-- The root of an expansion lacks what every node of the chain lacks. By
induction on the path: a reference adds the members beside it to those that
the chain of its target brings. -/
theorem get?_of_expandAfresh (hdefinitions : DefinitionsInOrder definitions)
    (hnode : node.InOrder) (h : expandAfresh definitions path node = .ok v)
    (href : name ≠ referenceKey) (hname : name ≠ "allOf") :
    v.get? name = none ↔
      ∀ part, ReflTransGen (Heads definitions) node part → part.get? name = none := by
  induction path using path_induction definitions generalizing node v with
  | step path ih =>
      cases node with
      | obj members =>
          obtain ⟨beside, hbeside, hcases⟩ := walk_obj_eq_ok h
          obtain ⟨hmember, rfl⟩ | ⟨reference, target, hmember, htarget, rfl⟩ := hcases
          · rw [forall_heads_of_last]
            · exact member?_of_walk hbeside href
            · rintro body ⟨reference, key, hget, -⟩
              rw [Json.get?, hmember] at hget
              cases hget
          · -- the members beside the reference come first, then the chain of its target
            obtain ⟨key, body, hkey, hpath, hbody, htarget⟩ := resolveAfresh_eq_ok.1 htarget
            have hnodup := (ascending_of_walk (hnode members .self) hbeside).nodup
            rw [get?_refine hnodup hname, member?_of_walk hbeside href,
              ih key body hpath hbody (hdefinitions key body hbody) htarget,
              forall_heads_of_reference hmember hkey hbody]
            rfl
      | arr items =>
          obtain ⟨items', -, rfl⟩ := walk_arr_eq_ok h
          rw [forall_heads_of_last]
          · rfl
          · rintro body ⟨_, _, hget, -⟩
            cases hget
      | _ =>
          rw [expandAfresh, walk_of_isScalar rfl] at h
          cases h
          rw [forall_heads_of_last]
          rintro body ⟨_, _, hget, -⟩
          cases hget

-- ============================================================ sections

/-- There is nothing to take off a root without sections, and there is where
it has one, whatever stands in it. -/
theorem withoutDefinitions_eq_self :
    withoutDefinitions v = v ↔ ∀ s : Section, v.get? s.name = none := by
  cases v with
  | obj members =>
      rw [withoutDefinitions, Json.obj.injEq, List.filter_eq_self]
      simp only [Json.get?, Json.member?_eq_none_iff]
      constructor
      · intro h s hs
        obtain ⟨m, hm, heq⟩ := List.mem_map.1 hs
        have hsection := isSectionName_iff.2 ⟨s, heq.symm⟩
        have hnot := h m hm
        rw [hsection] at hnot
        cases hnot
      · intro h m hm
        rw [Bool.not_eq_true', Bool.eq_false_iff, ne_eq, isSectionName_iff]
        rintro ⟨s, hs⟩
        exact h s (hs ▸ List.mem_map_of_mem hm)
  | _ => exact iff_of_true rfl fun _ => rfl

theorem withoutDefinitions_twice :
    withoutDefinitions (withoutDefinitions v) = withoutDefinitions v := by
  cases v with
  | obj members =>
      rw [withoutDefinitions, withoutDefinitions, List.filter_filter]
      simp only [Bool.and_self]
  | _ => rfl

theorem referenceFree_withoutDefinitions (h : ReferenceFree v) :
    ReferenceFree (withoutDefinitions v) := by
  cases v with
  | obj members =>
      rw [referenceFree_obj] at h
      exact referenceFree_obj.2 fun m hm => h m (List.mem_of_mem_filter hm)
  | _ => exact h

/-- From a value in order without references inlining only takes the
sections off. -/
theorem inline_of_referenceFree (horder : v.InOrder) (hfree : ReferenceFree v) :
    inline v = .ok (withoutDefinitions v) := by
  rw [inline_eq, horder.ordered]
  exact walk_of_referenceFree (referenceFree_withoutDefinitions hfree)

-- ========================================================= main results

/-- What has been inlined is in order and without references: inlining it
again takes the sections off its root, and a third time changes nothing.
So it is already settled the first time exactly if its root has no
section; and its root has a section exactly if a definition brings one,
of those that the root of the schema is a reference to, one behind
another. -/
theorem inlining_again {schema v : Json} (h : inline schema = .ok v) :
    inline v = .ok (withoutDefinitions v) ∧
    inline (withoutDefinitions v) = .ok (withoutDefinitions v) ∧
    (inline v = .ok v ↔ ∀ s : Section, v.get? s.name = none) ∧
    ∀ s : Section, v.get? s.name = none ↔ ∀ part,
      ReflTransGen (Heads (definitionsOf schema.ordered)) (withoutDefinitions schema.ordered) part →
        part.get? s.name = none := by
  rw [inline_eq] at h
  have horder := Json.inOrder_ordered schema
  have hdefinitions := definitionsInOrder horder
  have hroot := inOrder_withoutDefinitions horder
  have hv := inOrder_of_expandAfresh hdefinitions hroot h
  have hfree := referenceFree_of_expandAfresh h
  have hagain := inline_of_referenceFree hv hfree
  refine ⟨hagain, ?_, ?_, fun s => ?_⟩
  · rw [inline_of_referenceFree (inOrder_withoutDefinitions hv)
      (referenceFree_withoutDefinitions hfree), withoutDefinitions_twice]
  · rw [hagain, Except.ok.injEq, withoutDefinitions_eq_self]
  · exact get?_of_expandAfresh hdefinitions hroot h (by cases s <;> decide) (by cases s <;> decide)

/-- A schema that is its definition `A`, and that definition has a section
of its own. -/
def sectioned : Json :=
  .obj [("$ref", .str "#/$defs/A"),
    ("$defs", .obj [("A", .obj [("$defs", .obj [("B", .bool true)])])])]

/-- The section of the definition comes to the root. -/
theorem inline_sectioned : inline sectioned = .ok (.obj [("$defs", .obj [("B", .bool true)])]) := by
  rw [inline_eq]
  show walk _ (.obj [("$ref", .str "#/$defs/A")]) = _
  have hkey : DefinitionKey.ofPointer? "#/$defs/A" = some ⟨.defs, "A"⟩ := by decide
  rw [walk_reference rfl, resolveAfresh_enter hkey List.not_mem_nil rfl]
  rfl

/-- The section of the definition is at the root of the result, gone when
that is inlined again, and then nothing changes any more. -/
theorem sectioned_again :
    inline sectioned = .ok (.obj [("$defs", .obj [("B", .bool true)])]) ∧
      inline (.obj [("$defs", .obj [("B", .bool true)])]) = .ok (.obj []) ∧
      inline (.obj []) = .ok (.obj []) ∧
      inline (.obj [("$defs", .obj [("B", .bool true)])]) ≠
        .ok (.obj [("$defs", .obj [("B", .bool true)])]) := by
  obtain ⟨hagain, hthird, hsettled, -⟩ := inlining_again inline_sectioned
  exact ⟨inline_sectioned, hagain, hthird, fun h => nomatch hsettled.1 h .defs⟩

/-- Inlining a second time is not always without effect, and the root of
what is inlined not always without sections. -/
theorem inlining_is_not_settled :
    ¬ ∀ schema v : Json, inline schema = .ok v →
      inline v = .ok v ∧ ∀ s : Section, v.get? s.name = none := by
  intro h
  obtain ⟨-, hnone⟩ := h sectioned _ inline_sectioned
  cases hnone .defs

end Schema

end TypedSelect
