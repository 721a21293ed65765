/-
One value, presented in other ways.

`Restates` has one rule for each way to present the same value again: the
members of an object in another order, a null for a member that was left
out or none for a null, a default where it went without saying, and a list
of the fields in the place of the object. It says of which record each of
these is true by the grammar, and it goes into every part of a value. A
codec is steady when it reads the same from either presentation.

# Slots

All that changes about a record is its slots, one by one. `SlotRestates`
is a slot before and after a change: its value is presented in another
way, or what an absent member means is said, or no longer said.
`Grammar.Restates.slots` takes every rule of the relation to this one
notion. From there on nothing is said about objects and lists, and each
way to build members has one lemma on slots.

# Tags

The tag of a choice may stand anywhere among the members and stands first
among the positions. It is told apart from the record behind it by
`Untags`, and the two are presented each for itself.

# One direction

Every rule says that what is read from the first presentation is read
from the second, and nothing about what is refused. A null can be said and
left out again, so its rules come in pairs. A default can be said and an
object become a list, and for these there is no rule back.

# Depth

A reader has a limit for how deep a value may nest, and another
presentation may nest deeper. How deep a value nests is bounded by the
grammar that it is read by, and all grammars here stay below the limit.
-/
import TypedSelect.Proofs.Json.Follows
import TypedSelect.Proofs.Json.Order

namespace TypedSelect

open Json (member?)

variable {α β : Type}

-- ======================================================= restatements

/-- The value that says what leaving the member out says. -/
def Presence.absent? : Presence → Option Json
  | required => none
  | optional => some .null
  | defaulted value => some value
  | listed => some (.arr [])
  | marked => some (.bool false)

/-- What an object says of a field: the value of its member, or what it
says by leaving the member out. -/
def Field.SaidBy (members : List (String × Json)) (field : Field) (j : Json) : Prop :=
  member? field.1 members = some j ∨
    member? field.1 members = none ∧ field.2.1.absent? = some j

/-- The same value in another presentation, after one change: inside one of
its parts, in the order of its members, by saying or not saying what an
absent member means, or from members to positions. The tag of a choice may
stand anywhere among the members, and first among the positions. -/
inductive Grammar.Restates : Grammar → Json → Json → Prop
  | item {g : Grammar} (before after : List Json) {a b : Json} (inner : Restates g a b) :
      Restates (.list g) (.arr (before ++ a :: after)) (.arr (before ++ b :: after))
  | value {fields : List Field} (before after : List (String × Json)) {name : String}
      {presence : Presence} {g : Grammar} {a b : Json} (field : (name, presence, g) ∈ fields)
      (inner : Restates g a b) :
      Restates (.record fields) (.obj (before ++ (name, a) :: after))
        (.obj (before ++ (name, b) :: after))
  | position {fields : List Field} (before after : List Json) {name : String}
      {presence : Presence} {g : Grammar} {a b : Json}
      (field : fields[before.length]? = some (name, presence, g)) (inner : Restates g a b) :
      Restates (.record fields) (.arr (before ++ a :: after)) (.arr (before ++ b :: after))
  | reorder {fields : List Field} {members members' : List (String × Json)}
      (perm : members.Perm members') : Restates (.record fields) (.obj members) (.obj members')
  | add {fields : List Field} {members : List (String × Json)} {name : String}
      {presence : Presence} {g : Grammar} {j : Json} (field : (name, presence, g) ∈ fields)
      (implied : presence.absent? = some j) (missing : name ∉ members.map Prod.fst) :
      Restates (.record fields) (.obj members) (.obj ((name, j) :: members))
  | drop {fields : List Field} {members : List (String × Json)} {name : String} {g : Grammar}
      (field : (name, .optional, g) ∈ fields) :
      Restates (.record fields) (.obj ((name, .null) :: members)) (.obj members)
  | extend {fields : List Field} {items : List Json} {name : String} {presence : Presence}
      {g : Grammar} {j : Json} (field : fields[items.length]? = some (name, presence, g))
      (implied : presence.absent? = some j) :
      Restates (.record fields) (.arr items) (.arr (items ++ [j]))
  | shorten {fields : List Field} {items : List Json} {name : String} {g : Grammar}
      (field : fields[items.length]? = some (name, .optional, g)) :
      Restates (.record fields) (.arr (items ++ [.null])) (.arr items)
  | positions {fields : List Field} {members : List (String × Json)} {items : List Json}
      (said : List.Forall₂ (Field.SaidBy members) fields items) :
      Restates (.record fields) (.obj members) (.arr items)
  | choice {key tag : String} {cases : List (String × List Field)} {fields : List Field}
      {j j' mark body body' : Json} (untags : Untags key j mark body)
      (untags' : Untags key j' mark body')
      (marks : Marks true (cases.map Prod.fst) .inside mark tag) (chosen : (tag, fields) ∈ cases)
      (inner : Restates (.record fields) body body') : Restates (.tagged key cases) j j'

/-- A slot before and after a change. -/
inductive SlotRestates (presence : Presence) (g : Grammar) : Option Json → Option Json → Prop
  | same (slot : Option Json) : SlotRestates presence g slot slot
  | value {a b : Json} (inner : g.Restates a b) : SlotRestates presence g (some a) (some b)
  | add {j : Json} (implied : presence.absent? = some j) : SlotRestates presence g none (some j)
  | drop (may : presence = .optional) : SlotRestates presence g (some .null) none

/-- The slots of a record before and after a change. -/
inductive SlotsRestate : List Field → List (Option Json) → List (Option Json) → Prop
  | nil : SlotsRestate [] [] []
  | cons {name : String} {presence : Presence} {g : Grammar} {fields : List Field}
      {slot slot' : Option Json} {slots slots' : List (Option Json)}
      (head : SlotRestates presence g slot slot') (tail : SlotsRestate fields slots slots') :
      SlotsRestate ((name, presence, g) :: fields) (slot :: slots) (slot' :: slots')

section

variable {fields : List Field} {slots slots' : List (Option Json)}

theorem SlotsRestate.refl (h : slots.length = fields.length) : SlotsRestate fields slots slots := by
  induction fields generalizing slots with
  | nil =>
      obtain rfl := List.length_eq_zero_iff.1 h
      exact .nil
  | cons field fields ih =>
      cases slots with
      | nil => cases h
      | cons slot slots => exact .cons (.same slot) (ih (Nat.succ.inj h))

/-- One slot changes, and the others stay. This is how a change of one member
becomes a change of the slots of a record. -/
theorem SlotsRestate.set {i : Nat} {name : String} {presence : Presence} {g : Grammar}
    {slot' : Option Json} (hlength : slots.length = fields.length)
    (hfield : fields[i]? = some (name, presence, g)) (slot : Option Json)
    (hslot : slots[i]? = some slot) (h : SlotRestates presence g slot slot') :
    SlotsRestate fields slots (slots.set i slot') := by
  induction fields generalizing slots i with
  | nil => cases hfield
  | cons field fields ih =>
      cases slots with
      | nil => cases hlength
      | cons first slots =>
          cases i with
          | zero =>
              cases hfield
              cases hslot
              exact .cons h (.refl (Nat.succ.inj hlength))
          | succ i => exact .cons (.same first) (ih (Nat.succ.inj hlength) hfield hslot)

/-- The slots that two lookups give change if each of them does. -/
theorem SlotsRestate.map {f f' : String → Option Json}
    (h : ∀ name presence g, (name, presence, g) ∈ fields →
      SlotRestates presence g (f name) (f' name)) :
    SlotsRestate fields ((fields.map Prod.fst).map f) ((fields.map Prod.fst).map f') := by
  induction fields with
  | nil => exact .nil
  | cons field fields ih =>
      obtain ⟨name, presence, g⟩ := field
      exact .cons (h name presence g List.mem_cons_self)
        (ih fun name presence g hmem => h name presence g (List.mem_cons_of_mem _ hmem))

/-- The slots of two parts change as those of each part do. -/
theorem SlotsRestate.append {fields' : List Field}
    (h : SlotsRestate (fields ++ fields') slots slots') :
    SlotsRestate fields (slots.take fields.length) (slots'.take fields.length) ∧
      SlotsRestate fields' (slots.drop fields.length) (slots'.drop fields.length) := by
  induction fields generalizing slots slots' with
  | nil => exact ⟨.nil, h⟩
  | cons field fields ih =>
      cases h with
      | cons head tail =>
          obtain ⟨htake, hdrop⟩ := ih tail
          exact ⟨.cons head htake, hdrop⟩

end

-- =========================================================== in slots

/-- What a name means in a record. -/
theorem eq_of_mem_fields {fields : List Field} (hnodup : (fields.map Prod.fst).Nodup)
    {name : String} {field field' : Presence × Grammar} (h : (name, field) ∈ fields)
    (h' : (name, field') ∈ fields) : field = field' :=
  (Prod.mk.inj (List.inj_on_of_nodup_map hnodup h h' rfl)).2

/-- Two lookups that differ in one field change its slot. -/
theorem SlotsRestate.map_of_ne {fields : List Field} (hnodup : (fields.map Prod.fst).Nodup)
    {name : String} {presence : Presence} {g : Grammar} {f f' : String → Option Json}
    (field : (name, presence, g) ∈ fields) (h : SlotRestates presence g (f name) (f' name))
    (hothers : ∀ other, other ≠ name → f other = f' other) :
    SlotsRestate fields ((fields.map Prod.fst).map f) ((fields.map Prod.fst).map f') := by
  refine .map fun other presence' g' field' => ?_
  by_cases hname : other = name
  · subst hname
    cases eq_of_mem_fields hnodup field field'
    exact h
  · rw [hothers other hname]
    exact .same _

/-- A member in front hides nothing under another key. -/
theorem member?_cons_ne {name other : String} {j : Json} {members : List (String × Json)}
    (h : other ≠ name) : member? other ((name, j) :: members) = member? other members :=
  if_neg h.symm

theorem Spells.length_eq {names : List String} {j : Json} {slots : List (Option Json)}
    (h : Spells names j slots) : slots.length = names.length := by
  cases h with
  | object _ _ => exact List.length_map _
  | positions short =>
      rw [List.length_append, List.length_map, List.length_replicate]
      exact Nat.add_sub_cancel' short

/-- One item more in a list is one slot that is filled. -/
theorem set_positions {count : Nat} {items : List Json} {j : Json} (h : items.length < count) :
    (items.map some ++ List.replicate (count - items.length) none).set items.length (some j) =
      (items ++ [j]).map some ++ List.replicate (count - (items ++ [j]).length) none := by
  obtain ⟨more, hmore⟩ := Nat.exists_eq_add_of_lt h
  have hcount : count - items.length = more + 1 := by omega
  have hrest : count - (items ++ [j]).length = more := by
    rw [List.length_append, List.length_singleton]
    omega
  rw [hcount, hrest, List.replicate_succ]
  simp

/-- The slot behind the last item of a list is empty. -/
theorem set_positions_none {count : Nat} {items : List Json} :
    (items.map some ++ List.replicate (count - items.length) none).set items.length none =
      items.map some ++ List.replicate (count - items.length) none := by
  cases count - items.length with
  | zero => exact List.set_eq_of_length_le (by simp)
  | succ more => simp [List.replicate_succ]

/-- The slots of an object and those of the list that says the same. An item
of the list is the value of a member or what its absence means. -/
theorem SlotsRestate.said {fields : List Field} {members : List (String × Json)}
    {items : List Json} (h : List.Forall₂ (Field.SaidBy members) fields items) :
    SlotsRestate fields ((fields.map Prod.fst).map fun name => member? name members)
      (items.map some) := by
  induction h with
  | nil => exact .nil
  | cons head _ ih =>
      refine .cons ?_ ih
      show SlotRestates _ _ (member? _ members) _
      rcases head with hmember | ⟨hmissing, himplied⟩
      · rw [hmember]
        exact .same _
      · rw [hmissing]
        exact .add himplied

/-- A record that is presented in another way has slots that say the same.
Each rule is one case: a value in another presentation, another order, or one
member more or less, in an object or at the end of a list. -/
theorem Grammar.Restates.slots {fields : List Field} {j j' : Json} {slots : List (Option Json)}
    (h : (Grammar.record fields).Restates j j') (hnodup : (fields.map Prod.fst).Nodup)
    (hspells : Spells (fields.map Prod.fst) j slots) :
    ∃ slots', Spells (fields.map Prod.fst) j' slots' ∧ SlotsRestate fields slots slots' := by
  have hlength := hspells.length_eq
  rw [List.length_map] at hlength
  cases h with
  | @value _ before after name presence g a b field inner =>
      cases hspells with
      | object distinct known =>
          have hbefore := Members.notMem_before_of_nodup distinct
          have hnames : (before ++ (name, b) :: after).map Prod.fst =
              (before ++ (name, a) :: after).map Prod.fst := by simp
          refine ⟨_, .object (hnames ▸ distinct) ?_, .map_of_ne hnodup field ?_ fun other hother =>
            Members.member?_middle_ne before after a b hother⟩
          · have hknown := List.forall_mem_map.2 known
            exact List.forall_mem_map.1 (hnames ▸ hknown)
          · rw [Members.member?_middle after a hbefore, Members.member?_middle after b hbefore]
            exact .value inner
  -- in a list the item's position is the position of its field
  | @position _ before after name presence g a b field inner =>
      cases hspells with
      | positions short =>
          refine ⟨_, .positions (by simpa using short), ?_⟩
          simpa using SlotsRestate.set hlength field (some a) (by simp) (.value inner)
  | reorder perm =>
      cases hspells with
      | object distinct known =>
          refine ⟨_, .object ((perm.map Prod.fst).nodup_iff.1 distinct)
            fun m hm => known m (perm.mem_iff.2 hm), .map fun name presence g _ => ?_⟩
          rw [Json.member?_perm perm distinct]
          exact .same _
  | @add _ members name presence g j field implied missing =>
      cases hspells with
      | object distinct known =>
          refine ⟨_, .object (List.nodup_cons.2 ⟨missing, distinct⟩)
            (List.forall_mem_cons.2 ⟨List.mem_map_of_mem field, known⟩),
            .map_of_ne hnodup field ?_ fun other hother => (member?_cons_ne hother).symm⟩
          rw [member?, if_pos rfl, Json.member?_eq_none missing]
          exact .add implied
  | @drop _ members name g field =>
      cases hspells with
      | object distinct known =>
          obtain ⟨missing, hdistinct⟩ := List.nodup_cons.1 distinct
          refine ⟨_, .object hdistinct fun m hm => known m (List.mem_cons_of_mem _ hm),
            .map_of_ne hnodup field ?_ fun other hother => member?_cons_ne hother⟩
          rw [member?, if_pos rfl, Json.member?_eq_none missing]
          exact .drop rfl
  | @extend _ items name presence g j field implied =>
      cases hspells with
      | positions short =>
          have hlt := (List.getElem?_eq_some_iff.1 field).1
          have hset := SlotsRestate.set hlength field none (by simp [hlt]) (.add implied)
          refine ⟨_, .positions (by simpa [Nat.succ_le_iff] using hlt), ?_⟩
          rwa [set_positions (by simpa using hlt)] at hset
  -- the slot of the last item was filled, and is empty without it
  | @shorten _ items name g field =>
      cases hspells with
      | positions short =>
          have hlt := (List.getElem?_eq_some_iff.1 field).1
          rw [← set_positions (by simpa using hlt)] at hlength ⊢
          have hset := SlotsRestate.set hlength field (some .null) (by simp [hlt]) (.drop rfl)
          rw [List.set_set, set_positions_none] at hset
          exact ⟨_, .positions (by simpa using hlt.le), hset⟩
  | @positions _ members items said =>
      cases hspells with
      | object distinct known =>
          have hitems := said.length_eq
          refine ⟨_, .positions (by simp [hitems]), ?_⟩
          simpa [hitems] using SlotsRestate.said said

-- ============================================================== the law

/-- What is read from one presentation is read from the next. -/
def Codec.Steady (c : Codec α) (g : Grammar) : Prop :=
  ∀ {place j j' a}, g.Restates j j' → c.decodeAt place j = some a → c.decodeAt place j' = some a

/-- The same of some members, slot by slot. -/
structure Members.Steady (m : Members α) (fields : List Field) : Prop where
  names : m.names = fields.map Prod.fst
  reads : ∀ {place slots slots' a}, SlotsRestate fields slots slots' →
    m.decodeAt place slots = some a → m.decodeAt place slots' = some a

/-- The same of the records under the tags of a choice. -/
structure Variants.Steady (v : Variants α) (cases : List (String × List Field)) : Prop where
  tags : v.tags = cases.map Prod.fst
  reads : (cases.map Prod.fst).Nodup → ∀ {tag fields j j' a}, (tag, fields) ∈ cases →
    (Grammar.record fields).Restates j j' → v.decode tag j = some a → v.decode tag j' = some a

namespace Codec

/-- Nothing to read where there is one presentation only. -/
theorem steady_plain {c : Codec α} {g : Grammar} (h : ∀ j j', ¬ g.Restates j j') : c.Steady g :=
  fun hj _ => absurd hj (h _ _)

theorem steady_text : text.Steady .text := steady_plain fun _ _ h => by cases h

/-- There is one way to present a number of 32 bits. -/
theorem steady_word32 : word32.Steady .whole := steady_plain fun _ _ h => by cases h

/-- There is one way to present a number of 64 bits. -/
theorem steady_word64 : word64.Steady .whole := steady_plain fun _ _ h => by cases h

/-- Nor does a restatement touch a floating point number. -/
theorem steady_double : double.Steady .fraction := steady_plain fun _ _ h => by cases h

/-- Nor a symbol, which the rules leave as it is spelled. -/
theorem steady_symbol [Vocabulary α] :
    (symbol : Codec α).Steady (.symbol (Vocabulary.names α)) := steady_plain fun _ _ h => by cases h

/-- One item is presented in another way. -/
theorem Steady.list {c : Codec α} {g : Grammar} (h : c.Steady g) : (list c).Steady (.list g) := by
  intro place j j' values hj hread
  cases hj with
  | @item _ before after a b inner =>
      change (before ++ a :: after).mapM (c.decodeAt place) = some values at hread
      obtain ⟨x, hx⟩ := mapM_append_cons_eq_some hread
      show (before ++ b :: after).mapM (c.decodeAt place) = some values
      rw [List.mapM_append, List.mapM_cons, hx] at hread
      rw [List.mapM_append, List.mapM_cons, h inner hx]
      exact hread

end Codec

namespace Members

/-- One member is its one slot. -/
theorem steady_one {m : Members α} {name : String} {presence : Presence} {g : Grammar}
    (hnames : m.names = [name])
    (hreads : ∀ {place slot slot' a}, SlotRestates presence g slot slot' →
      m.decodeAt place [slot] = some a → m.decodeAt place [slot'] = some a) :
    m.Steady [(name, presence, g)] where
  names := hnames
  reads h hread := by
    cases h with
    | cons head tail =>
        cases tail
        exact hreads head hread

/-- A member that must be there is read from its slot, in any presentation. -/
theorem steady_required {c : Codec α} {g : Grammar} (h : c.Steady g) (name : String) :
    (required name c).Steady [(name, .required, g)] := by
  refine steady_one rfl fun hslot hread => ?_
  cases hslot with
  | same slot => exact hread
  | value inner => exact h inner hread
  | add implied => cases implied
  | drop may => cases may

/-- A null is presented in one way. -/
theorem restates_ne_null {g : Grammar} {j j' : Json} (h : g.Restates j j') :
    j ≠ .null ∧ j' ≠ .null := by
  cases h with
  | choice untags untags' _ _ _ => cases untags <;> cases untags' <;> exact ⟨nofun, nofun⟩
  | _ => exact ⟨nofun, nofun⟩

/-- A member that may be missing and is not null is read as its value. -/
theorem optional_of_ne_null {c : Codec α} {name : String} {place : Place} {j : Json}
    (h : j ≠ .null) :
    (optional name c).decodeAt place [some j] = (c.decodeAt place j).map some := by
  cases j with
  | null => exact absurd rfl h
  | _ => rfl

/-- A member that may be missing may be null or not there, and is none both
times. -/
theorem steady_optional {c : Codec α} {g : Grammar} (h : c.Steady g) (name : String) :
    (optional name c).Steady [(name, .optional, g)] := by
  refine steady_one rfl fun hslot hread => ?_
  cases hslot with
  | same slot => exact hread
  | value inner =>
      obtain ⟨hne, hne'⟩ := restates_ne_null inner
      rw [optional_of_ne_null hne] at hread
      obtain ⟨a, ha, rfl⟩ := Option.map_eq_some_iff.1 hread
      rw [optional_of_ne_null hne', h inner ha]
      rfl
  | add implied =>
      cases implied
      exact hread
  | drop _ => exact hread

/-- A member with a default may say it or not, if the default is read back
from what is written for it. -/
theorem steady_defaulted {c : Codec α} {g : Grammar} (h : c.Steady g) (name : String)
    (default : α) (hdefault : ∀ place, c.decodeAt place (c.encode default) = some default) :
    (defaulted name c default).Steady [(name, .defaulted (c.encode default), g)] := by
  refine steady_one rfl fun {place _ _ _} hslot hread => ?_
  cases hslot with
  | same slot => exact hread
  | value inner => exact h inner hread
  | add implied =>
      cases implied
      cases hread
      exact hdefault place
  | drop may => cases may

/-- A list that may be missing may be empty instead. -/
theorem steady_listed {c : Codec α} {g : Grammar} (h : c.Steady g) (name : String) :
    (listed name c).Steady [(name, .listed, .list g)] := by
  refine steady_one rfl fun hslot hread => ?_
  cases hslot with
  | same slot => exact hread
  | value inner => exact h.list inner hread
  | add implied =>
      cases implied
      exact hread
  | drop may => cases may

theorem steady_marked (name : String) : (marked name).Steady [(name, .marked, .truth)] := by
  refine steady_one rfl fun hslot hread => ?_
  cases hslot with
  | same slot => exact hread
  | value inner => cases inner
  | add implied =>
      cases implied
      exact hread
  | drop may => cases may

/-- The slots of two parts are presented each for itself. The list of slots
is cut by the number of fields of the first part. -/
theorem Steady.and {m : Members α} {n : Members β} {fields fields' : List Field}
    (hm : m.Steady fields) (hn : n.Steady fields') : (m.and n).Steady (fields ++ fields') where
  names := by
    show m.names ++ n.names = _
    rw [hm.names, hn.names, List.map_append]
  reads hslots hread := by
    obtain ⟨ha, hb⟩ := and_eq_some hread
    obtain ⟨htake, hdrop⟩ := hslots.append
    have hlength : m.names.length = fields.length := by rw [hm.names, List.length_map]
    rw [← hlength] at htake hdrop
    show (m.decodeAt _ _).bind _ = _
    rw [hm.reads htake ha, Option.bind_some]
    show (n.decodeAt _ _).bind _ = _
    rw [hn.reads hdrop hb]
    rfl

theorem Steady.iso {m : Members α} {fields : List Field} (h : m.Steady fields) (make : α → β)
    (view : β → α) : (m.iso make view).Steady fields where
  names := h.names
  reads hslots hread := by
    obtain ⟨a, ha, rfl⟩ := Option.map_eq_some_iff.1 hread
    show (m.decodeAt _ _).map make = _
    rw [h.reads hslots ha]
    rfl

/-- The slots that a value spells are the ones that are read, whether it
spells them by name or by position. -/
theorem slots_of_spells {names : List String} {j : Json} {slots : List (Option Json)}
    (h : Spells names j slots) : Codec.slots names j = some slots := by
  cases h with
  | object distinct known =>
      unfold Codec.slots
      dsimp only
      rw [if_pos]
      rw [keysDistinct_of_nodup distinct, Bool.and_true, List.all_eq_true]
      exact fun m hm => List.contains_iff_mem.2 (known m hm)
  | positions short =>
      unfold Codec.slots
      dsimp only
      rw [if_pos short]

/-- A record is read the same from two presentations: the slots of the one
restate the slots of the other. -/
theorem Steady.readAt {m : Members α} {fields : List Field} (h : m.Steady fields)
    (hnodup : m.names.Nodup) {place : Place} {j j' : Json} {a : α}
    (hj : (Grammar.record fields).Restates j j') (hread : m.readAt place j = some a) :
    m.readAt place j' = some a := by
  obtain ⟨slots, hspells, ha⟩ := readAt_eq_some hread
  rw [h.names] at hspells hnodup
  obtain ⟨slots', hspells', hslots⟩ := hj.slots hnodup hspells
  unfold Members.readAt
  rw [h.names, slots_of_spells hspells', Option.bind_some]
  exact h.reads hslots ha

/-- Steady members with different names make a steady record. -/
theorem Steady.record {m : Members α} {fields : List Field} (h : m.Steady fields)
    (hnodup : m.names.Nodup) : m.record.Steady (.record fields) :=
  fun hj hread => h.readAt hnodup hj hread

end Members

namespace Variants

/-- A choice of one record is as steady as its members. -/
theorem steady_one {m : Members α} {fields : List Field} (h : m.Steady fields) (tag : String)
    (hnodup : m.names.Nodup) : (one tag m).Steady [(tag, fields)] where
  tags := rfl
  reads _ {t _ _ _ _} hcase hj hread := by
    cases List.mem_singleton.1 hcase
    change (if tag = tag then m.readAt .inside _ else none) = some _ at hread
    show (if tag = tag then m.readAt .inside _ else none) = some _
    rw [if_pos rfl] at hread ⊢
    exact h.readAt hnodup hj hread

/-- A tag of the first choice is read by the first. -/
theorem decode_or_left {v : Variants α} {w : Variants β} {tag : String} (h : tag ∈ v.tags)
    (j : Json) : (v.or w).decode tag j = (v.decode tag j).map .inl :=
  if_pos (List.contains_iff_mem.2 h)

/-- A tag that is none of the first choice is read by the second. -/
theorem decode_or_right {v : Variants α} {w : Variants β} {tag : String} (h : tag ∉ v.tags)
    (j : Json) : (v.or w).decode tag j = (w.decode tag j).map .inr :=
  if_neg fun hmem => h (List.contains_iff_mem.1 hmem)

/-- Two choices make a steady one. Both presentations have the same tag, so
the same one reads them. -/
theorem Steady.or {v : Variants α} {w : Variants β} {cases cases' : List (String × List Field)}
    (hv : v.Steady cases) (hw : w.Steady cases') : (v.or w).Steady (cases ++ cases') where
  tags := by
    show v.tags ++ w.tags = _
    rw [hv.tags, hw.tags, List.map_append]
  reads hnodup {tag _ j j' _} hcase hj hread := by
    rw [List.map_append, List.nodup_append] at hnodup
    obtain ⟨hnodup, hnodup', hdisjoint⟩ := hnodup
    rcases List.mem_append.1 hcase with hcase | hcase
    · have htag : tag ∈ v.tags := hv.tags ▸ List.mem_map_of_mem hcase
      rw [decode_or_left htag] at hread ⊢
      obtain ⟨a, ha, rfl⟩ := Option.map_eq_some_iff.1 hread
      rw [hv.reads hnodup hcase hj ha]
      rfl
    -- a tag of both lists would be read on the left, but there is none
    · have htag : tag ∉ v.tags := fun hmem =>
        hdisjoint tag (hv.tags ▸ hmem) tag (List.mem_map_of_mem hcase) rfl
      rw [decode_or_right htag] at hread ⊢
      obtain ⟨b, hb, rfl⟩ := Option.map_eq_some_iff.1 hread
      rw [hw.reads hnodup' hcase hj hb]
      rfl

/-- A choice seen as another type is as steady. -/
theorem Steady.iso {v : Variants α} {cases : List (String × List Field)} (h : v.Steady cases)
    (make : α → β) (view : β → α) : (v.iso make view).Steady cases where
  tags := h.tags
  reads hnodup {_ _ _ _ _} hcase hj hread := by
    obtain ⟨a, ha, rfl⟩ := Option.map_eq_some_iff.1 hread
    show (v.decode _ _).map make = _
    rw [h.reads hnodup hcase hj ha]
    rfl

/-- A tag is found wherever it stands among the members, and what is left are
the others in their order. -/
theorem untag_of_untags {key : String} {j mark body : Json} (h : Untags key j mark body) :
    untag key j = some (mark, body) := by
  cases h with
  | @object before after mark once =>
      rw [List.map_append, List.mem_append, not_or] at once
      have hothers : ∀ {rest : List (String × Json)}, key ∉ rest.map Prod.fst →
          rest.filter (fun m => m.1 == key) = [] ∧ rest.filter (fun m => m.1 != key) = rest := by
        intro rest hrest
        rw [List.filter_eq_nil_iff, List.filter_eq_self]
        refine ⟨fun m hm heq => ?_, fun m hm => bne_iff_ne.2 fun heq => ?_⟩
        · exact hrest (eq_of_beq heq ▸ List.mem_map_of_mem hm)
        · exact hrest (heq ▸ List.mem_map_of_mem hm)
      obtain ⟨hbefore, hbefore'⟩ := hothers once.1
      obtain ⟨hafter, hafter'⟩ := hothers once.2
      unfold untag
      dsimp only
      simp [List.filter_append, hbefore, hafter, hbefore', hafter']
  | positions => rfl

/-- A tag by name or by position is read as the tag, inside a tagged value. -/
theorem tagOf_of_marks {tags : List String} {mark : Json} {tag : String}
    (h : Marks true tags .inside mark tag) : tagOf tags .inside mark = some tag := by
  cases h with
  | name _ => rfl
  | @position i _ _ known =>
      show (if (0 : Int) ≤ i then tags[(i : Int).toNat]? else none) = some tag
      rw [if_pos (Int.natCast_nonneg i), Int.toNat_natCast, known]

/-- The tag and the record behind it are presented each for itself. The
change leaves the tag as it was. -/
theorem Steady.tagged {v : Variants α} {cases : List (String × List Field)} (h : v.Steady cases)
    (hnodup : (cases.map Prod.fst).Nodup) (key : String) :
    (tagged key v).Steady (.tagged key cases) := by
  intro place j j' a hj hread
  cases hj with
  | choice untags untags' marks chosen inner =>
      obtain ⟨⟨mark, body⟩, huntag, hread⟩ := Option.bind_eq_some_iff.1 hread
      obtain ⟨t, htag, ha⟩ := Option.bind_eq_some_iff.1 hread
      rw [untag_of_untags untags] at huntag
      obtain ⟨rfl, rfl⟩ := Prod.mk.inj (Option.some.inj huntag)
      have hinside := tagOf_inside htag
      rw [h.tags, tagOf_of_marks marks] at hinside
      cases hinside
      show (untag key j').bind _ = _
      rw [untag_of_untags untags', Option.bind_some]
      show (tagOf _ _ _).bind _ = _
      rw [htag, Option.bind_some]
      exact h.reads hnodup chosen inner ha

end Variants

-- ============================================================== depth

mutual

/-- How deep the values of a grammar nest. The longer spellings of a symbol
are objects. -/
def Grammar.height : Grammar → Nat
  | text => 0
  | truth => 0
  | whole => 0
  | fraction => 0
  | number => 0
  | symbol _ => 2
  | list item => item.height + 1
  | either first second => max first.height second.height
  | record fields => heightOfFields fields + 1
  | tagged _ cases => heightOfCases cases + 1

/-- How deep the values of members nest, which may be empty lists. -/
def Grammar.heightOfFields : List Field → Nat
  | [] => 1
  | (_, _, g) :: fields => max g.height (heightOfFields fields)

/-- How deep the members of any choice nest. -/
def Grammar.heightOfCases : List (String × List Field) → Nat
  | [] => 0
  | (_, fields) :: cases => max (heightOfFields fields) (heightOfCases cases)

end

namespace Grammar

open Json (Nested)

theorem height_le_of_mem {tag : String} {fields : List Field} {cases : List (String × List Field)}
    (h : (tag, fields) ∈ cases) : heightOfFields fields ≤ heightOfCases cases := by
  induction cases with
  | nil => cases h
  | cons first cases ih =>
      obtain ⟨t, fs⟩ := first
      rw [heightOfCases]
      rcases List.mem_cons.1 h with heq | h
      · cases heq
        exact Nat.le_max_left _ _
      · exact (ih h).trans (Nat.le_max_right _ _)

/-- There is room for an empty list in any record. -/
theorem one_le_heightOfFields (fields : List Field) : 1 ≤ heightOfFields fields := by
  induction fields with
  | nil => exact Nat.le_refl 1
  | cons field fields ih =>
      obtain ⟨name, presence, g⟩ := field
      exact ih.trans (Nat.le_max_right _ _)

theorem nested_of_marks {lenient : Bool} {tags : List String} {place : Place} {mark : Json}
    {tag : String} {depth : Nat} (h : Marks lenient tags place mark tag) : Nested depth mark := by
  cases h with
  | name _ => exact .str
  | position _ _ => exact .int

/-- An object or a list nests one level deeper than what is in its slots. -/
theorem nested_of_spells {names : List String} {j : Json} {slots : List (Option Json)} {depth : Nat}
    (h : Spells names j slots) (heach : ∀ v, some v ∈ slots → Nested depth v) :
    Nested (depth + 1) j := by
  cases h with
  | object distinct known =>
      refine .obj fun m hm => heach m.2 ?_
      exact List.mem_map.2 ⟨m.1, known m hm, Json.member?_of_mem distinct hm⟩
  | positions _ =>
      exact .arr fun item hitem => heach item (List.mem_append_left _ (List.mem_map_of_mem hitem))

/-- A tag beside the members of a record makes it no deeper. What holds the
tag is one level above the tag and above the members alike. -/
theorem nested_of_untags {key : String} {j mark body : Json} {depth : Nat}
    (h : Untags key j mark body) (hmark : Nested depth mark) (hbody : Nested (depth + 1) body) :
    Nested (depth + 1) j := by
  cases h with
  | object _ =>
      cases hbody with
      | obj each =>
          refine .obj fun m hm => ?_
          rcases List.mem_append.1 hm with hm | hm
          · exact each m (List.mem_append_left _ hm)
          · rcases List.mem_cons.1 hm with rfl | hm
            · exact hmark
            · exact each m (List.mem_append_right _ hm)
  | positions =>
      cases hbody with
      | arr each => exact .arr (List.forall_mem_cons.2 ⟨hmark, each⟩)

theorem nested_nil : Nested 1 (.arr []) := .arr nofun

/-- The slots of one more member. -/
theorem nested_cons {field : Field} {fields : List Field} {slot : Option Json}
    {slots : List (Option Json)}
    (hslot : ∀ j, slot = some j → Nested (heightOfFields (field :: fields)) j)
    (hrest : ∀ j, some j ∈ slots → Nested (heightOfFields fields) j) :
    ∀ j, some j ∈ slot :: slots → Nested (heightOfFields (field :: fields)) j := by
  intro j hj
  rcases List.mem_cons.1 hj with hj | hj
  · exact hslot j hj.symm
  · exact (hrest j hj).mono (Nat.le_max_right _ _)

variable {lenient : Bool}

mutual

/-- What is rewritten nests no deeper than its grammar. There is one case for
each form of the grammar, and the slots of records have their own lemma. -/
theorem Rewrites.nested {g : Grammar} {place : Place} {j j' : Json} :
    g.Rewrites lenient place j j' → Nested g.height j
  | .text _ => .str
  | .truth _ => .bool
  | .whole _ => .int
  | .fraction _ => .float
  | .wholeFraction _ => .int
  | .float _ => .float
  | .int _ _ => .int
  | .wideInt _ => .int
  | .name _ => .str
  | .nameOfNull _ => .obj fun _ hm => List.mem_singleton.1 hm ▸ .null
  | .nameOfEmpty _ _ => .obj fun _ hm => List.mem_singleton.1 hm ▸ .obj nofun
  | .list each => .arr each.nested
  | .first this => this.nested.mono (Nat.le_max_left _ _)
  | .second this => this.nested.mono (Nat.le_max_right _ _)
  | .record spells each => nested_of_spells spells each.nested
  | .tagged untags marks chosen spells each =>
      (nested_of_untags untags (nested_of_marks marks) (nested_of_spells spells each.nested)).mono
        (Nat.succ_le_succ (height_le_of_mem chosen))

/-- No item nests deeper than the grammar of the items. -/
theorem RewritesItems.nested {item : Grammar} {place : Place} {items items' : List Json} :
    RewritesItems lenient item place items items' → ∀ j ∈ items, Nested item.height j
  | .nil => nofun
  | .cons head tail => List.forall_mem_cons.2 ⟨head.nested, tail.nested⟩

/-- No value in a slot nests deeper than the grammars of the fields. A slot
that is left out holds null, false or an empty list at most. -/
theorem RewritesFields.nested {fields : List Field} {place : Place} {slots : List (Option Json)}
    {members : List (String × Json)} : RewritesFields lenient fields place slots members →
    ∀ j, some j ∈ slots → Nested (heightOfFields fields) j
  | .nil => nofun
  | .kept _ this rest =>
      nested_cons (fun _ h => Option.some.inj h ▸ this.nested.mono (Nat.le_max_left _ _))
        rest.nested
  | .null rest => nested_cons (fun _ h => Option.some.inj h ▸ .null) rest.nested
  | .empty rest =>
      nested_cons (fun _ h => Option.some.inj h ▸
        nested_nil.mono (one_le_heightOfFields _)) rest.nested
  | .off rest => nested_cons (fun _ h => Option.some.inj h ▸ .bool) rest.nested
  | .default rest | .missing _ rest => nested_cons nofun rest.nested

end

end Grammar

end TypedSelect
