/-
The walk of expansion, apart from what a reference comes to.

Expansion walks over a schema and asks at each reference what it refers
to. `walk` is that walk with the answers left open, in any monad with the
errors of schemas, so that the same walk can be looked at with and without
the definitions that have been expanded kept. It is structural, where
expansion itself is not: everything about entering definitions is in the
answers.

# Citations

`Cites` says what stands under the key of a reference in some object of
the node, a string or not. What a walk comes to is settled by the answers
for the references that the schema cites, and the lemmas here say how:
which errors it can have (`blamed_of_walk`), when it succeeds
(`answered_of_walk`), what is left in it (`referenceFree_of_walk`), and
when two walks come to the same (`walk_congr`). Each is an induction on
the parts of the node, with one case for values without parts, one for
lists and one for objects; an object has three cases again, with no
reference, with a reference, and with something else under its key.

# Order

The walk looks at the first member under the key of a reference and skips
all of them, so an object with the key twice would hide what stands under
it the second time. The nodes that are walked over are in order and have
every key once. Where this is needed it is a hypothesis.
-/
import Mathlib.Data.List.Forall2
import TypedSelect.Proofs.Json.Order
import TypedSelect.Proofs.Json.Within
import TypedSelect.Schema.Inline

namespace TypedSelect

namespace Schema

open Json (member? Within)

-- ================================================================ walk

section

variable {m : Type → Type} [Monad m] [MonadExceptOf SchemaError m]

mutual

/-- A node with its references replaced by the answers for them. -/
def walk (answer : String → m Json) : Json → m Json
  | .obj members =>
    match member? referenceKey members with
    | some (.str reference) => do
      let target ← answer reference
      let siblings ← walkMembers answer members
      return refine target siblings
    | some other => throw (.unsupportedReference other.text)
    | none => do
      let members ← walkMembers answer members
      return .obj members
  | .arr items => do
    let items ← walkItems answer items
    return .arr items
  | value => return value
termination_by structural node => node

/-- Items with their references replaced, from the first on. -/
def walkItems (answer : String → m Json) : List Json → m (List Json)
  | [] => return []
  | item :: rest => do
    let item ← walk answer item
    let rest ← walkItems answer rest
    return item :: rest
termination_by structural items => items

/-- The members other than a reference, with the references inside them
replaced, from the first on. -/
def walkMembers (answer : String → m Json) :
    List (String × Json) → m (List (String × Json))
  | [] => return []
  | (key, value) :: rest =>
    if key = referenceKey then walkMembers answer rest
    else do
      let value ← walk answer value
      let rest ← walkMembers answer rest
      return (key, value) :: rest
termination_by structural members => members

end

end

/-- Items are expanded by the walk, if each of them is. -/
theorem expandItems_eq_walk {definitions : Definitions} {path : List DefinitionKey}
    {items : List Json} (h : ∀ item ∈ items, expand definitions path item =
      walk (resolve definitions path) item) :
    expandItems definitions path items = walkItems (resolve definitions path) items := by
  induction items with
  | nil => rw [expandItems, walkItems]
  | cons item items ih =>
      rw [List.forall_mem_cons] at h
      rw [expandItems, walkItems, h.1, ih h.2]

/-- Members are expanded by the walk, if each value is. -/
theorem expandMembers_eq_walk {definitions : Definitions} {path : List DefinitionKey}
    {members : List (String × Json)} (h : ∀ m ∈ members, expand definitions path m.2 =
      walk (resolve definitions path) m.2) :
    expandMembers definitions path members =
      walkMembers (resolve definitions path) members := by
  induction members with
  | nil => rw [expandMembers, walkMembers]
  | cons m members ih =>
      rw [List.forall_mem_cons] at h
      rw [expandMembers, walkMembers, h.1, ih h.2]

/-- Expansion walks with what it finds for each reference. By induction on
the parts of the node. -/
theorem expand_eq_walk (definitions : Definitions) (path : List DefinitionKey) (node : Json) :
    expand definitions path node = walk (resolve definitions path) node := by
  induction node using Json.induction_parts with
  | scalar j hj =>
      cases j with
      | arr items => cases hj
      | obj members => cases hj
      | _ => simp only [expand, walk]
  | arr items ih => rw [expand, walk, expandItems_eq_walk ih]
  | obj members ih =>
      have hsame := expandMembers_eq_walk ih
      cases hmember : member? referenceKey members with
      | none => simp only [expand, walk, hmember, hsame]
      | some j => cases j <;> simp only [expand, walk, hmember, hsame]

-- ========================================================== citations

/-- What stands under the key of a reference in an object of the node. -/
def Cites (node argument : Json) : Prop :=
  ∃ members, Within (.obj members) node ∧ member? referenceKey members = some argument

/-- No object of the node has the key of a reference. -/
def ReferenceFree (node : Json) : Prop :=
  ∀ members, Within (.obj members) node → referenceKey ∉ members.map Prod.fst

variable {node argument : Json} {members : List (String × Json)}

/-- An object cites what stands under its own key of a reference. -/
theorem cites_self (h : member? referenceKey members = some argument) :
    Cites (.obj members) argument := ⟨members, .self, h⟩

theorem Cites.item {items : List Json} {item : Json} (h : Cites item argument)
    (hitem : item ∈ items) : Cites (.arr items) argument := by
  obtain ⟨members, hwithin, hmember⟩ := h
  exact ⟨members, .item hitem hwithin, hmember⟩

/-- What the value of a member cites the object does. -/
theorem Cites.value {m : String × Json} (h : Cites m.2 argument) (hm : m ∈ members) :
    Cites (.obj members) argument := by
  obtain ⟨members', hwithin, hmember⟩ := h
  exact ⟨members', .value hm hwithin, hmember⟩

theorem not_cites_of_isScalar (h : Json.isScalar node = true) : ¬ Cites node argument := by
  rintro ⟨members, hwithin, -⟩
  rw [Json.within_of_isScalar h] at hwithin
  subst hwithin
  cases h

/-- A list cites what one of its items does. -/
theorem cites_arr {items : List Json} :
    Cites (.arr items) argument ↔ ∃ item ∈ items, Cites item argument := by
  constructor
  · rintro ⟨members, hwithin, hmember⟩
    obtain heq | ⟨item, hitem, hwithin⟩ := Json.within_arr.1 hwithin
    · cases heq
    · exact ⟨item, hitem, members, hwithin, hmember⟩
  · rintro ⟨item, hitem, h⟩
    exact h.item hitem

/-- An object cites what stands under its key of a reference, and what one of
its members does. -/
theorem cites_obj :
    Cites (.obj members) argument ↔
      member? referenceKey members = some argument ∨ ∃ m ∈ members, Cites m.2 argument := by
  constructor
  · rintro ⟨members', hwithin, hmember⟩
    obtain heq | ⟨m, hm, hwithin⟩ := Json.within_obj.1 hwithin
    · cases heq
      exact .inl hmember
    · exact .inr ⟨m, hm, members', hwithin, hmember⟩
  · rintro (h | ⟨m, hm, h⟩)
    · exact cites_self h
    · exact h.value hm

theorem not_cites_empty : ¬ Cites (.obj []) argument := fun h =>
  (cites_obj.1 h).elim nofun fun ⟨_, hm, _⟩ => nomatch hm

/-- A reference that stands alone is all there is to cite. -/
theorem cites_reference {reference : String} :
    Cites (.obj [(referenceKey, .str reference)]) argument ↔ argument = .str reference := by
  refine ⟨fun h => ?_, fun h => cites_self (h ▸ if_pos rfl)⟩
  obtain h | ⟨m, hm, h⟩ := cites_obj.1 h
  · rw [member?, if_pos rfl] at h
    exact (Option.some.inj h).symm
  · rw [List.mem_singleton.1 hm] at h
    exact absurd h (not_cites_of_isScalar rfl)

theorem referenceFree_of_isScalar (h : Json.isScalar node = true) : ReferenceFree node := by
  intro members hwithin
  rw [Json.within_of_isScalar h] at hwithin
  subst hwithin
  cases h

/-- A list has no reference if no item has one. -/
theorem referenceFree_arr {items : List Json} :
    ReferenceFree (.arr items) ↔ ∀ item ∈ items, ReferenceFree item := by
  constructor
  · intro h item hitem members hwithin
    exact h members (.item hitem hwithin)
  · intro h members hwithin
    obtain heq | ⟨item, hitem, hwithin⟩ := Json.within_arr.1 hwithin
    · cases heq
    · exact h item hitem members hwithin

/-- An object has no reference if no key is one and no value has one. Keys
count wherever they stand, also inside of data. -/
theorem referenceFree_obj :
    ReferenceFree (.obj members) ↔
      ∀ m ∈ members, m.1 ≠ referenceKey ∧ ReferenceFree m.2 := by
  constructor
  · intro h m hm
    refine ⟨fun hkey => h members .self (hkey ▸ List.mem_map_of_mem hm), ?_⟩
    intro members' hwithin
    exact h members' (.value hm hwithin)
  · intro h members' hwithin hkey
    obtain heq | ⟨m, hm, hwithin⟩ := Json.within_obj.1 hwithin
    · cases heq
      obtain ⟨m, hm, heq⟩ := List.mem_map.1 hkey
      exact (h m hm).1 heq
    · exact (h m hm).2 members' hwithin hkey

/-- The members of an object laid over those of another one. -/
def overlay (beside base : List (String × Json)) : List (String × Json) :=
  beside.foldl (fun ms m => Json.insertMember m.1 m.2 ms) base

/-- The members of a target; one that is no object is put into an object
first. -/
def keywordsOf : Json → List (String × Json)
  | .obj members => members
  | other => [("allOf", .arr [other])]

/-- With nothing beside a reference its target stays as it is. -/
theorem refine_nil (target : Json) : refine target [] = target := rfl

/-- With something beside it, that is laid over the keywords of the target. -/
theorem refine_cons (target : Json) (m : String × Json) (beside : List (String × Json)) :
    refine target (m :: beside) = .obj (overlay (m :: beside) (keywordsOf target)) := rfl

/-- What is laid over others is one of the two. -/
theorem mem_of_mem_overlay {base beside : List (String × Json)} {m : String × Json}
    (h : m ∈ overlay beside base) : m ∈ beside ∨ m ∈ base := by
  unfold overlay at h
  induction beside generalizing base with
  | nil => exact .inr h
  | cons m' beside ih =>
      rcases ih h with h | h
      · exact .inl (List.mem_cons_of_mem _ h)
      · rcases Json.mem_of_mem_insertMember h with rfl | h
        · exact .inl List.mem_cons_self
        · exact .inr h

/-- A key leads to what was laid over, and where nothing was, to what lies
below. -/
theorem member?_overlay {base beside : List (String × Json)} {name : String}
    (h : (beside.map Prod.fst).Nodup) :
    member? name (overlay beside base) = (member? name beside).or (member? name base) := by
  unfold overlay
  induction beside generalizing base with
  | nil => rfl
  | cons m beside ih =>
      obtain ⟨key, v⟩ := m
      rw [List.map_cons, List.nodup_cons] at h
      rw [List.foldl_cons, ih h.2, Json.member?_insertMember, member?]
      by_cases hkey : key = name
      · rw [if_pos hkey, if_pos hkey, Json.member?_eq_none_iff.2 (hkey ▸ h.1)]
        rfl
      · rw [if_neg hkey, if_neg hkey]

/-- Members are laid over others in the order of their keys. -/
theorem ascending_overlay {base beside : List (String × Json)} (h : Json.Ascending base) :
    Json.Ascending (overlay beside base) := by
  unfold overlay
  induction beside generalizing base with
  | nil => exact h
  | cons m beside ih => exact ih h.insertMember

/-- The keywords of a target without references have none. -/
theorem ReferenceFree.keywordsOf {target : Json} (h : ReferenceFree target) {m : String × Json}
    (hm : m ∈ keywordsOf target) : m.1 ≠ referenceKey ∧ ReferenceFree m.2 := by
  cases target with
  | obj base => exact referenceFree_obj.1 h m hm
  | _ =>
      rw [List.mem_singleton.1 hm]
      have hkey : "allOf" ≠ referenceKey := by decide
      refine ⟨hkey, referenceFree_arr.2 fun item hitem => ?_⟩
      rw [List.mem_singleton.1 hitem]
      exact h

/-- Neither has a target with members without references laid over it. -/
theorem ReferenceFree.refine {target : Json} (htarget : ReferenceFree target)
    (hmembers : ∀ m ∈ members, m.1 ≠ referenceKey ∧ ReferenceFree m.2) :
    ReferenceFree (refine target members) := by
  cases members with
  | nil => exact htarget
  | cons m members =>
      rw [refine_cons, referenceFree_obj]
      intro m' hm'
      rcases mem_of_mem_overlay hm' with h | h
      · exact hmembers m' h
      · exact htarget.keywordsOf h

-- =========================================================== outcomes

section

variable {ε α β : Type} {x : Except ε α} {f : α → Except ε β} {e : ε}

/-- An element of the one list has its partner in the other. -/
theorem exists_related {R : α → β → Prop} {as : List α} {bs : List β}
    (h : List.Forall₂ R as bs) {a : α} (ha : a ∈ as) : ∃ b ∈ bs, R a b := by
  obtain ⟨i, hi, rfl⟩ := List.mem_iff_getElem.1 ha
  obtain ⟨hlength, heach⟩ := List.forall₂_iff_get.1 h
  exact ⟨_, List.getElem_mem (hlength ▸ hi), heach i hi (hlength ▸ hi)⟩

/-- Two steps come to a value if both do. -/
theorem bind_eq_ok {b : β} : x >>= f = .ok b ↔ ∃ a, x = .ok a ∧ f a = .ok b := by
  cases x with
  | error e => exact ⟨nofun, fun ⟨_, h, _⟩ => nomatch h⟩
  | ok a => exact ⟨fun h => ⟨a, rfl, h⟩, fun ⟨_, rfl, h⟩ => h⟩

/-- Two steps come to an error at the first or at the second. With this a
failure of a sequence is traced to the step that fails. -/
theorem bind_eq_error :
    x >>= f = .error e ↔ x = .error e ∨ ∃ a, x = .ok a ∧ f a = .error e := by
  cases x with
  | error e' =>
      refine ⟨fun h => .inl ?_, fun h => ?_⟩
      · cases h
        rfl
      · rcases h with h | ⟨_, h, -⟩
        · cases h
          rfl
        · cases h
  | ok a => exact ⟨fun h => .inr ⟨a, rfl, h⟩, fun h => h.elim nofun fun ⟨_, rfl, h⟩ => h⟩

end

/-- The members beside a reference. -/
def siblings (members : List (String × Json)) : List (String × Json) :=
  members.filter fun m => m.1 ≠ referenceKey

/-- The siblings of a reference are the members under other keys. -/
theorem mem_siblings {m : String × Json} :
    m ∈ siblings members ↔ m ∈ members ∧ m.1 ≠ referenceKey := by
  rw [siblings, List.mem_filter, decide_eq_true_eq]

theorem siblings_of_member?_eq_none (h : member? referenceKey members = none) :
    siblings members = members := by
  refine List.filter_eq_self.2 fun m hm => decide_eq_true fun hkey => ?_
  exact Json.member?_eq_none_iff.1 h (hkey ▸ List.mem_map_of_mem hm)

/-- Other keys lead to the same among the siblings. -/
theorem member?_siblings {name : String} (h : name ≠ referenceKey) :
    member? name (siblings members) = member? name members :=
  Json.member?_filter (p := fun key => decide (key ≠ referenceKey)) (decide_eq_true h)

variable {answer answer' : String → Except SchemaError Json} {v : Json} {e : SchemaError}
variable {items items' : List Json} {members' : List (String × Json)}

/-- A value without parts is walked over as it is. -/
theorem walk_of_isScalar (h : Json.isScalar node = true) : walk answer node = .ok node := by
  cases node with
  | arr items => cases h
  | obj members => cases h
  | _ => rfl

/-- At a reference the members beside it are laid over its target. -/
theorem walk_reference {reference : String}
    (h : member? referenceKey members = some (.str reference)) :
    walk answer (.obj members) = do
      let target ← answer reference
      let members ← walkMembers answer members
      return refine target members := by
  rw [walk, h]

/-- Nothing but a string refers to anything. -/
theorem walk_unsupported (h : member? referenceKey members = some argument)
    (hstr : ∀ reference, argument ≠ .str reference) :
    walk answer (.obj members) = .error (.unsupportedReference argument.text) := by
  rw [walk, h]
  cases argument with
  | str reference => exact absurd rfl (hstr reference)
  | _ => rfl

/-- If the walk succeeds, what stands under the key of a reference is a
string. -/
theorem isString_of_walk (h : member? referenceKey members = some argument)
    (hwalk : walk answer (.obj members) = .ok v) : ∃ reference, argument = .str reference := by
  by_contra hstr
  rw [walk_unsupported h (not_exists.1 hstr)] at hwalk
  cases hwalk

theorem walk_obj (h : member? referenceKey members = none) :
    walk answer (.obj members) = do
      let members ← walkMembers answer members
      return .obj members := by
  rw [walk, h]

/-- Items are walked over if each of them is, and keep their places. Stated
as a relation of the two lists, so that proofs need no recursion on them. -/
theorem walkItems_eq_ok :
    walkItems answer items = .ok items' ↔
      List.Forall₂ (fun item item' => walk answer item = .ok item') items items' := by
  induction items generalizing items' with
  | nil =>
      rw [walkItems, List.forall₂_nil_left_iff]
      exact ⟨fun h => (Except.ok.inj h).symm, fun h => h ▸ rfl⟩
  | cons item items ih =>
      rw [walkItems, bind_eq_ok, List.forall₂_cons_left_iff]
      refine exists_congr fun item' => ?_
      rw [bind_eq_ok]
      constructor
      · rintro ⟨hitem, items', hitems, heq⟩
        exact ⟨items', hitem, ih.1 hitems, (Except.ok.inj heq).symm⟩
      · rintro ⟨items', hitem, hitems, rfl⟩
        exact ⟨hitem, items', ih.2 hitems, rfl⟩

/-- Members are walked over if each beside a reference is, and keep their
keys. -/
theorem walkMembers_eq_ok :
    walkMembers answer members = .ok members' ↔
      List.Forall₂ (fun m m' => m'.1 = m.1 ∧ walk answer m.2 = .ok m'.2)
        (siblings members) members' := by
  induction members generalizing members' with
  | nil =>
      rw [walkMembers, siblings, List.filter_nil, List.forall₂_nil_left_iff]
      exact ⟨fun h => (Except.ok.inj h).symm, fun h => h ▸ rfl⟩
  | cons m members ih =>
      obtain ⟨key, value⟩ := m
      rw [walkMembers, siblings, List.filter_cons]
      split
      -- the reference is left out on both sides
      next hkey => rw [if_neg (by simpa using hkey), ih, siblings]
      next hkey =>
        rw [if_pos (by simpa using hkey), bind_eq_ok, List.forall₂_cons_left_iff]
        constructor
        · rintro ⟨value', hvalue, hrest⟩
          obtain ⟨members', hmembers, heq⟩ := bind_eq_ok.1 hrest
          exact ⟨(key, value'), members', ⟨rfl, hvalue⟩, ih.1 hmembers,
            (Except.ok.inj heq).symm⟩
        · rintro ⟨⟨_, value'⟩, members', ⟨rfl, hvalue⟩, hmembers, rfl⟩
          exact ⟨value', hvalue, bind_eq_ok.2 ⟨members', ih.2 hmembers, rfl⟩⟩

theorem walk_arr_eq_ok (h : walk answer (.arr items) = .ok v) :
    ∃ items', walkItems answer items = .ok items' ∧ v = .arr items' := by
  rw [walk, bind_eq_ok] at h
  obtain ⟨items', hitems, heq⟩ := h
  exact ⟨items', hitems, (Except.ok.inj heq).symm⟩

/-- All that an object can come to: its members walked over, alone or laid
over the answer for its reference. -/
theorem walk_obj_eq_ok (h : walk answer (.obj members) = .ok v) :
    ∃ members', walkMembers answer members = .ok members' ∧
      (member? referenceKey members = none ∧ v = .obj members' ∨
        ∃ reference target, member? referenceKey members = some (.str reference) ∧
          answer reference = .ok target ∧ v = refine target members') := by
  cases hmember : member? referenceKey members with
  | none =>
      rw [walk_obj hmember, bind_eq_ok] at h
      obtain ⟨members', hmembers, heq⟩ := h
      exact ⟨members', hmembers, .inl ⟨rfl, (Except.ok.inj heq).symm⟩⟩
  | some argument =>
      obtain ⟨reference, rfl⟩ := isString_of_walk hmember h
      rw [walk_reference hmember, bind_eq_ok] at h
      obtain ⟨target, htarget, h⟩ := h
      obtain ⟨members', hmembers, heq⟩ := bind_eq_ok.1 h
      exact ⟨members', hmembers, .inr ⟨reference, target, rfl, htarget,
        (Except.ok.inj heq).symm⟩⟩

/-- Each item has been walked over. -/
theorem walk_item (h : walkItems answer items = .ok items') {item : Json} (hitem : item ∈ items) :
    ∃ item', walk answer item = .ok item' := by
  obtain ⟨item', -, hwalk⟩ := exists_related (walkItems_eq_ok.1 h) hitem
  exact ⟨item', hwalk⟩

/-- Each item of the result is what one comes to. -/
theorem item_of_walk (h : walkItems answer items = .ok items') {item' : Json}
    (hitem : item' ∈ items') : ∃ item ∈ items, walk answer item = .ok item' :=
  exists_related (walkItems_eq_ok.1 h).flip hitem

/-- Each member beside a reference has been walked over. -/
theorem walk_member (h : walkMembers answer members = .ok members') {m : String × Json}
    (hm : m ∈ siblings members) : ∃ v', walk answer m.2 = .ok v' := by
  obtain ⟨m', -, -, hwalk⟩ := exists_related (walkMembers_eq_ok.1 h) hm
  exact ⟨m'.2, hwalk⟩

/-- Each member of the result is what one comes to, under its key. -/
theorem member_of_walk (h : walkMembers answer members = .ok members') {m' : String × Json}
    (hm : m' ∈ members') :
    ∃ m ∈ siblings members, m'.1 = m.1 ∧ walk answer m.2 = .ok m'.2 :=
  exists_related (walkMembers_eq_ok.1 h).flip hm

/-- The keys of the members beside a reference stay. -/
theorem keys_of_walk (h : walkMembers answer members = .ok members') :
    members'.map Prod.fst = (siblings members).map Prod.fst := by
  have hkeys : List.Forall₂ (· = ·) ((siblings members).map Prod.fst) (members'.map Prod.fst) := by
    rw [List.forall₂_map_left_iff, List.forall₂_map_right_iff]
    exact (walkMembers_eq_ok.1 h).imp fun m m' h => h.1.symm
  rw [List.forall₂_eq_eq_eq] at hkeys
  exact hkeys.symm

theorem ascending_of_walk (hms : Json.Ascending members)
    (h : walkMembers answer members = .ok members') : Json.Ascending members' := by
  have hsiblings : ((siblings members).map Prod.fst).Pairwise (· < ·) :=
    List.pairwise_map.2 (hms.filter _)
  rw [← keys_of_walk h] at hsiblings
  exact List.pairwise_map.1 hsiblings

/-- If items fail, one of them does, in the same way. It is the first that
does, but no proof needs to know which. -/
theorem walkItems_eq_error (h : walkItems answer items = .error e) :
    ∃ item ∈ items, walk answer item = .error e := by
  induction items with
  | nil => cases h
  | cons item items ih =>
      rw [walkItems, bind_eq_error] at h
      rcases h with h | ⟨_, -, h⟩
      · exact ⟨item, List.mem_cons_self, h⟩
      · rcases bind_eq_error.1 h with h | ⟨_, -, h⟩
        · obtain ⟨item', hmem, h⟩ := ih h
          exact ⟨item', List.mem_cons_of_mem _ hmem, h⟩
        · cases h

/-- If members fail, the value of one of them does, in the same way. The
reference itself is not walked over and cannot be to blame. -/
theorem walkMembers_eq_error (h : walkMembers answer members = .error e) :
    ∃ m ∈ members, walk answer m.2 = .error e := by
  induction members with
  | nil => cases h
  | cons m members ih =>
      have hrest : walkMembers answer members = .error e →
          ∃ m' ∈ m :: members, walk answer m'.2 = .error e := by
        intro h
        obtain ⟨m', hmem, h⟩ := ih h
        exact ⟨m', List.mem_cons_of_mem _ hmem, h⟩
      rw [walkMembers] at h
      split at h
      next => exact hrest h
      next =>
        rcases bind_eq_error.1 h with h | ⟨_, -, h⟩
        · exact ⟨m, List.mem_cons_self, h⟩
        · rcases bind_eq_error.1 h with h | ⟨_, -, h⟩
          · exact hrest h
          · cases h

-- ============================================ the walk and its answers

/-- A walk that ends has asked for every reference, and each had an
answer. -/
theorem answered_of_walk (hnode : node.InOrder) (hwalk : walk answer node = .ok v)
    (hcites : Cites node argument) :
    ∃ reference target, argument = .str reference ∧ answer reference = .ok target := by
  induction node using Json.induction_parts generalizing v with
  | scalar j hj => exact absurd hcites (not_cites_of_isScalar hj)
  | arr items ih =>
      obtain ⟨item, hitem, hcites⟩ := cites_arr.1 hcites
      obtain ⟨items', hitems, -⟩ := walk_arr_eq_ok hwalk
      obtain ⟨item', hwalk⟩ := walk_item hitems hitem
      exact ih item hitem (hnode.item hitem) hwalk hcites
  | obj members ih =>
      obtain ⟨members', hmembers, hcases⟩ := walk_obj_eq_ok hwalk
      have hvalue : ∀ m ∈ members, Cites m.2 argument → m.1 ≠ referenceKey →
          ∃ reference target, argument = .str reference ∧ answer reference = .ok target := by
        intro m hm hcites hkey
        obtain ⟨v', hwalk⟩ := walk_member hmembers (mem_siblings.2 ⟨hm, hkey⟩)
        exact ih m hm (hnode.value hm) hwalk hcites
      obtain ⟨hmember, -⟩ | ⟨reference, target, hmember, htarget, -⟩ := hcases <;>
        obtain h | ⟨m, hm, hcites⟩ := cites_obj.1 hcites
      · rw [hmember] at h
        cases h
      · refine hvalue m hm hcites fun hkey => ?_
        exact Json.member?_eq_none_iff.1 hmember (hkey ▸ List.mem_map_of_mem hm)
      · rw [hmember] at h
        exact ⟨reference, target, (Option.some.inj h).symm, htarget⟩
      · refine hvalue m hm hcites fun hkey => ?_
        -- with each key once, what stands there is the reference itself
        have hm' : (referenceKey, m.2) ∈ members := hkey ▸ hm
        have hnodup := (hnode members .self).nodup
        rw [Json.member?_of_mem hnodup hm'] at hmember
        rw [Option.some.inj hmember] at hcites
        exact not_cites_of_isScalar rfl hcites

/-- Items that are walked over alike come to the same. -/
theorem walkItems_congr (h : ∀ item ∈ items, walk answer item = walk answer' item) :
    walkItems answer items = walkItems answer' items := by
  induction items with
  | nil => rfl
  | cons item items ih =>
      rw [List.forall_mem_cons] at h
      rw [walkItems, walkItems, h.1, ih h.2]

/-- Members that are walked over alike come to the same. -/
theorem walkMembers_congr (h : ∀ m ∈ members, walk answer m.2 = walk answer' m.2) :
    walkMembers answer members = walkMembers answer' members := by
  induction members with
  | nil => rfl
  | cons m members ih =>
      rw [List.forall_mem_cons] at h
      rw [walkMembers, walkMembers, h.1, ih h.2]

/-- What a walk comes to is settled by the answers for the references in
the node. -/
theorem walk_congr
    (h : ∀ reference, Cites node (.str reference) → answer reference = answer' reference) :
    walk answer node = walk answer' node := by
  induction node using Json.induction_parts with
  | scalar j hj => rw [walk_of_isScalar hj, walk_of_isScalar hj]
  | arr items ih =>
      rw [walk, walk, walkItems_congr fun item hitem =>
        ih item hitem fun reference hcites => h reference (hcites.item hitem)]
  | obj members ih =>
      have heach := walkMembers_congr fun m hm =>
        ih m hm fun reference hcites => h reference (hcites.value hm)
      cases hmember : member? referenceKey members with
      | none => rw [walk_obj hmember, walk_obj hmember, heach]
      | some under =>
          by_cases hstr : ∃ reference, under = .str reference
          · obtain ⟨reference, rfl⟩ := hstr
            rw [walk_reference hmember, walk_reference hmember, heach,
              h reference (cites_self hmember)]
          · have hstr := not_exists.1 hstr
            rw [walk_unsupported hmember hstr, walk_unsupported hmember hstr]

/-- A walk that ends comes to the same with other answers that include the
ones it was given. -/
theorem walk_eq_ok_of_answers (hnode : node.InOrder) (hwalk : walk answer node = .ok v)
    (h : ∀ reference target, Cites node (.str reference) → answer reference = .ok target →
      answer' reference = .ok target) : walk answer' node = .ok v := by
  rw [← hwalk]
  refine (walk_congr fun reference hcites => ?_).symm
  obtain ⟨reference', target, heq, htarget⟩ := answered_of_walk hnode hwalk hcites
  cases heq
  rw [htarget, h reference target hcites htarget]

/-- What is to blame for the failure of a walk: something under the key of
a reference that is no string, or a reference whose answer failed so. -/
def Blamed (answer : String → Except SchemaError Json) (e : SchemaError) (node : Json) : Prop :=
  (∃ argument, Cites node argument ∧ (∀ reference, argument ≠ .str reference) ∧
    e = .unsupportedReference argument.text) ∨
  ∃ reference, Cites node (.str reference) ∧ answer reference = .error e

/-- What is to blame in a part is to blame in the whole. -/
theorem Blamed.imp {part : Json} (h : Blamed answer e part)
    (hcites : ∀ argument, Cites part argument → Cites node argument) : Blamed answer e node :=
  Or.imp (fun ⟨argument, h, he⟩ => ⟨argument, hcites argument h, he⟩)
    (fun ⟨reference, h, he⟩ => ⟨reference, hcites _ h, he⟩) h

/-- If a walk fails, something it cites is to blame. The first failure ends
it, so the error is that of one reference. -/
theorem blamed_of_walk (h : walk answer node = .error e) : Blamed answer e node := by
  induction node using Json.induction_parts with
  | scalar j hj =>
      rw [walk_of_isScalar hj] at h
      cases h
  | arr items ih =>
      rw [walk, bind_eq_error] at h
      rcases h with h | ⟨_, -, h⟩
      · obtain ⟨item, hitem, h⟩ := walkItems_eq_error h
        exact (ih item hitem h).imp fun argument hcites => hcites.item hitem
      · cases h
  | obj members ih =>
      -- the fault may be in a member, with or without a reference beside it
      have hvalues : walkMembers answer members = .error e →
          Blamed answer e (.obj members) := by
        intro h
        obtain ⟨m, hm, h⟩ := walkMembers_eq_error h
        exact (ih m hm h).imp fun argument hcites => hcites.value hm
      cases hmember : member? referenceKey members with
      | none =>
          rw [walk_obj hmember, bind_eq_error] at h
          rcases h with h | ⟨_, -, h⟩
          · exact hvalues h
          · cases h
      | some under =>
          by_cases hstr : ∃ reference, under = .str reference
          · obtain ⟨reference, rfl⟩ := hstr
            rw [walk_reference hmember, bind_eq_error] at h
            rcases h with h | ⟨_, -, h⟩
            · exact .inr ⟨reference, cites_self hmember, h⟩
            · rcases bind_eq_error.1 h with h | ⟨_, -, h⟩
              · exact hvalues h
              · cases h
          · rw [walk_unsupported hmember fun reference h => hstr ⟨reference, h⟩] at h
            cases h
            exact .inl ⟨under, cites_self hmember, fun reference h => hstr ⟨reference, h⟩, rfl⟩

/-- No reference is left by a walk whose answers have none. By induction on
the parts of the node, where an object with a reference gives way to an
answer. -/
theorem referenceFree_of_walk (hwalk : walk answer node = .ok v)
    (h : ∀ reference target, Cites node (.str reference) → answer reference = .ok target →
      ReferenceFree target) : ReferenceFree v := by
  induction node using Json.induction_parts generalizing v with
  | scalar j hj =>
      rw [walk_of_isScalar hj] at hwalk
      cases hwalk
      exact referenceFree_of_isScalar hj
  | arr items ih =>
      obtain ⟨items', hitems, rfl⟩ := walk_arr_eq_ok hwalk
      refine referenceFree_arr.2 fun item' hitem' => ?_
      obtain ⟨item, hitem, hwalk⟩ := item_of_walk hitems hitem'
      exact ih item hitem hwalk fun reference target hcites =>
        h reference target (hcites.item hitem)
  | obj members ih =>
      obtain ⟨members', hmembers, hcases⟩ := walk_obj_eq_ok hwalk
      have hvalues : ∀ m' ∈ members', m'.1 ≠ referenceKey ∧ ReferenceFree m'.2 := by
        intro m' hm'
        obtain ⟨m, hm, hkey, hwalk⟩ := member_of_walk hmembers hm'
        rw [mem_siblings] at hm
        exact ⟨hkey ▸ hm.2, ih m hm.1 hwalk fun reference target hcites =>
          h reference target (hcites.value hm.1)⟩
      obtain ⟨-, rfl⟩ | ⟨reference, target, hmember, htarget, rfl⟩ := hcases
      · exact referenceFree_obj.2 hvalues
      · exact (h reference target (cites_self hmember) htarget).refine hvalues

/-- Where there is no reference nothing is replaced. So what expansion has
finished is not changed by another walk. -/
theorem walk_of_referenceFree (h : ReferenceFree node) : walk answer node = .ok node := by
  induction node using Json.induction_parts with
  | scalar j hj => exact walk_of_isScalar hj
  | arr items ih =>
      have hitems : walkItems answer items = .ok items :=
        walkItems_eq_ok.2 <| List.forall₂_same.2 fun item hitem =>
          ih item hitem (referenceFree_arr.1 h item hitem)
      rw [walk, hitems]
      rfl
  | obj members ih =>
      have heach := referenceFree_obj.1 h
      have hnone : member? referenceKey members = none :=
        Json.member?_eq_none_iff.2 (h members .self)
      have hmembers : walkMembers answer members = .ok members := by
        rw [walkMembers_eq_ok, siblings_of_member?_eq_none hnone]
        exact List.forall₂_same.2 fun m hm => ⟨rfl, ih m hm (heach m hm).2⟩
      rw [walk_obj hnone, hmembers]
      rfl

end Schema

end TypedSelect
