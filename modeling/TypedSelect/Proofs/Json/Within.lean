/-
The parts of a JSON value.

A value stands within another one when it is all of it or stands within an
item or the value of a member. What holds of every object within a value
is what holds throughout it; values are in order when every object has its
members in ascending order of their keys, which is what sorting makes of
any value.

# Two kinds of proofs

What is proved about all values goes by `induction_parts`, which has one
case for values without parts, one for lists and one for objects. It hides
that values are nested in lists and in pairs, for which there is no direct
induction. What is proved about all parts of a value goes by `Within`, and
for a list or an object the lemmas here say which parts it has.

# Order

A schema is sorted before it is looked into, and the schemas that are
written here are put together in order. Sorting such a value leaves it as
it is, which is `InOrder.ordered`.
-/
import TypedSelect.Proofs.Json.Order
import TypedSelect.Proofs.Json.RoundTrip

namespace TypedSelect

/-- A value inside a value, or all of it. -/
inductive Json.Within (part : Json) : Json → Prop
  | self : Within part part
  | item {items : List Json} {j : Json} (mem : j ∈ items) (inner : Within part j) :
      Within part (.arr items)
  | value {members : List (String × Json)} {m : String × Json} (mem : m ∈ members)
      (inner : Within part m.2) : Within part (.obj members)

namespace Json

variable {part : Json}

theorem Within.trans {j inner : Json} (h : Within part inner) (hinner : Within inner j) :
    Within part j := by
  induction hinner with
  | self => exact h
  | item mem _ ih => exact .item mem ih
  | value mem _ ih => exact .value mem ih

/-- A property that a value has when its parts have it holds of every
value. -/
theorem induction_parts {motive : Json → Prop}
    (scalar : ∀ j, isScalar j = true → motive j)
    (arr : ∀ items, (∀ item ∈ items, motive item) → motive (.arr items))
    (obj : ∀ members, (∀ m ∈ members, motive m.2) → motive (.obj members)) :
    ∀ j, motive j
  | .arr items => arr items fun item _ => induction_parts scalar arr obj item
  | .obj members => obj members fun m _ => induction_parts scalar arr obj m.2
  | .null => scalar _ rfl
  | .bool _ => scalar _ rfl
  | .int _ => scalar _ rfl
  | .float _ => scalar _ rfl
  | .str _ => scalar _ rfl
termination_by j => sizeOf j
decreasing_by
  · have := List.sizeOf_lt_of_mem ‹item ∈ items›
    simp only [Json.arr.sizeOf_spec]
    omega
  · have := List.sizeOf_lt_of_mem ‹m ∈ members›
    cases m
    simp only [Json.obj.sizeOf_spec, Prod.mk.sizeOf_spec] at this ⊢
    omega

/-- The parts of an object are itself and the parts of its members' values. -/
theorem within_obj {members : List (String × Json)} :
    Within part (.obj members) ↔ part = .obj members ∨ ∃ m ∈ members, Within part m.2 := by
  constructor
  · intro h
    cases h with
    | self => exact .inl rfl
    | value mem inner => exact .inr ⟨_, mem, inner⟩
  · rintro (rfl | ⟨m, mem, inner⟩)
    · exact .self
    · exact .value mem inner

/-- The parts of a list are itself and the parts of its items. -/
theorem within_arr {items : List Json} :
    Within part (.arr items) ↔ part = .arr items ∨ ∃ j ∈ items, Within part j := by
  constructor
  · intro h
    cases h with
    | self => exact .inl rfl
    | item mem inner => exact .inr ⟨_, mem, inner⟩
  · rintro (rfl | ⟨j, mem, inner⟩)
    · exact .self
    · exact .item mem inner

/-- A value without parts has only itself within. -/
theorem within_of_isScalar {j : Json} (hj : isScalar j = true) : Within part j ↔ part = j := by
  constructor
  · intro h
    cases h with
    | self => rfl
    | item _ _ => cases hj
    | value _ _ => cases hj
  · rintro rfl
    exact .self

theorem within_str {s : String} : Within part (.str s) ↔ part = .str s := within_of_isScalar rfl

theorem within_int {i : Int} : Within part (.int i) ↔ part = .int i := within_of_isScalar rfl

end Json

/-- Every object has each key once. -/
def Json.KeysDistinct (j : Json) : Prop :=
  ∀ members, Json.Within (.obj members) j → (members.map Prod.fst).Nodup

/-- Every object has its members in ascending order of their keys. -/
def Json.InOrder (j : Json) : Prop :=
  ∀ members, Json.Within (.obj members) j → Json.Ascending members

namespace Json

/-- The items of a list in order are in order. -/
theorem InOrder.item {items : List Json} {j : Json} (h : InOrder (.arr items)) (hj : j ∈ items) :
    InOrder j := fun members hwithin => h members (.item hj hwithin)

/-- The values of the members of an object in order are in order. -/
theorem InOrder.value {members : List (String × Json)} {m : String × Json}
    (h : InOrder (.obj members)) (hm : m ∈ members) : InOrder m.2 :=
  fun members hwithin => h members (.value hm hwithin)

/-- A list is in order if its items are. -/
theorem inOrder_arr {items : List Json} : InOrder (.arr items) ↔ ∀ item ∈ items, InOrder item := by
  refine ⟨fun h item hitem => h.item hitem, fun h members hwithin => ?_⟩
  rcases within_arr.1 hwithin with heq | ⟨item, hitem, hwithin⟩
  · cases heq
  · exact h item hitem members hwithin

/-- An object is in order if its members ascend and their values are in
order. -/
theorem inOrder_obj {members : List (String × Json)} :
    InOrder (.obj members) ↔ Ascending members ∧ ∀ m ∈ members, InOrder m.2 := by
  refine ⟨fun h => ⟨h members .self, fun m hm => h.value hm⟩, fun h members' hwithin => ?_⟩
  rcases within_obj.1 hwithin with heq | ⟨m, hm, hwithin⟩
  · cases heq
    exact h.1
  · exact h.2 m hm members' hwithin

/-- A value in order is its own ordered form: sorting its members leaves them
as they are. -/
theorem InOrder.ordered {j : Json} (h : InOrder j) : j.ordered = j := by
  induction j using induction_parts with
  | scalar j hj =>
      cases j with
      | arr items => cases hj
      | obj members => cases hj
      | _ => rfl
  | arr items ih => exact ordered_arr fun item hitem => ih item hitem (h.item hitem)
  | obj members ih =>
      have hvalues : members.map (fun m => (m.1, m.2.ordered)) = members :=
        (List.map_congr_left fun m hm => by rw [ih m hm (h.value hm)]).trans (List.map_id' _)
      rw [Json.ordered, orderedMembers_eq, hvalues, sortMembers_of_ascending (h members .self)]

/-- Sorting puts in no member that was not there. -/
theorem mem_of_mem_sortMembers {members : List (String × Json)} {m : String × Json}
    (h : m ∈ sortMembers members) : m ∈ members := by
  induction members using List.reverseRecOn with
  | nil => cases h
  | append_singleton members last ih =>
      rw [sortMembers_concat] at h
      rw [List.mem_append, List.mem_singleton]
      rcases mem_of_mem_insertMember h with rfl | h
      · exact .inr rfl
      · exact .inl (ih h)

/-- Sorting puts every object in order, whatever its keys were, and not only
the outermost one. By induction on the parts of a value. -/
theorem inOrder_ordered (j : Json) : j.ordered.InOrder := by
  induction j using induction_parts with
  | scalar j hj =>
      intro members hwithin
      cases j with
      | arr items => cases hj
      | obj members => cases hj
      | _ => cases (within_of_isScalar rfl).1 hwithin
  | arr items ih =>
      intro members hwithin
      rw [ordered, orderedItems_eq, within_arr] at hwithin
      rcases hwithin with hwithin | ⟨j, hj, hwithin⟩
      · cases hwithin
      · obtain ⟨item, hitem, rfl⟩ := List.mem_map.1 hj
        exact ih item hitem members hwithin
  | obj ms ih =>
      intro members hwithin
      rw [ordered, orderedMembers_eq, within_obj] at hwithin
      rcases hwithin with hwithin | ⟨m, hm, hwithin⟩
      · cases hwithin
        exact ascending_sortMembers _
      · obtain ⟨m', hm', rfl⟩ := List.mem_map.1 (mem_of_mem_sortMembers hm)
        exact ih m' hm' members hwithin

end Json

end TypedSelect
