/-
Schemas that describe a codec.

A schema describes a codec when every valid value is written as something
that conforms to it, and everything that conforms to it is read. Each way
to build a codec is described by the schema that is built the same way, so
the description of an entity is put together from those of its members.

# Valid values

What is written conforms only if it is valid: a list that must not be
empty, a name that must be one. So the law is about a property of values,
which is handed down to the members. What validation asks for beyond the
schema is left out on the way down, since a weaker property of the whole
is enough for its parts.

# What is not read

One member is read from less than its schema admits: the offset of a
window, which has 32 bits. `Readable` leaves the larger ones out, and
objects that have a key twice, which no schema can tell apart. The
condition on offsets is about one record, but it has to come down to it
from the whole text. So members are described under a condition `R` on
what is looked up, which is trivial for all others.

# Shapes

Members are compared with a shape, which is the properties of a schema and
the ones of them that are required. The schema of a record is the shape
closed, and that of a tagged record is a choice between shapes with the
tag put in. The order of members in a shape does not matter, and the
schemas use this: not all of them list the members in the order of the
codec.
-/
import TypedSelect.Proofs.Json.Within
import TypedSelect.Proofs.Schema.Pieces

namespace TypedSelect

open Json (member?)
open Schema (Holds Shape arrayOf conformsWith ref)

-- ============================================================ readable

/-- Every offset of a window fits 32 bits. -/
def Json.OffsetsFit (j : Json) : Prop :=
  ∀ members i, Json.Within (.obj members) j → member? "type" members = some (.str "window") →
    member? "offset" members = some (.int i) → i < UInt32.size

/-- What can be read wherever a schema admits it. -/
structure Json.Readable (j : Json) : Prop where
  keys : j.KeysDistinct
  offsets : j.OffsetsFit

namespace Json.Readable

/-- The items of a list that can be read can be read. -/
theorem item {items : List Json} {j : Json} (h : Readable (.arr items)) (hj : j ∈ items) :
    Readable j where
  keys members hwithin := h.keys members (.item hj hwithin)
  offsets members i hwithin := h.offsets members i (.item hj hwithin)

theorem value {members : List (String × Json)} {m : String × Json}
    (h : Readable (.obj members)) (hm : m ∈ members) : Readable m.2 where
  keys members hwithin := h.keys members (.value hm hwithin)
  offsets members i hwithin := h.offsets members i (.value hm hwithin)

end Json.Readable

/-- Members with distinct keys and values that can be read. -/
structure Json.ReadableMembers (members : List (String × Json)) : Prop where
  nodup : (members.map Prod.fst).Nodup
  values : ∀ m ∈ members, Json.Readable m.2

/-- The members of an object that can be read have distinct keys. -/
theorem Json.Readable.members {members : List (String × Json)}
    (h : Json.Readable (.obj members)) : Json.ReadableMembers members where
  nodup := h.keys members .self
  values _ hm := h.value hm

/-- Members taken away leave members that can be read. -/
theorem Json.ReadableMembers.filter {members : List (String × Json)}
    (h : Json.ReadableMembers members) (p : String × Json → Bool) :
    Json.ReadableMembers (members.filter p) where
  nodup := h.nodup.sublist (List.filter_sublist.map _)
  values m hm := h.values m (List.mem_of_mem_filter hm)

open Json (Readable ReadableMembers)

-- ============================================================= the law

variable {α β : Type} {follow : String → Json → Bool} {valid : α → Prop} {valid' : β → Prop}
  {schema : Json}

/-- Valid values are written as the schema says, and what the schema
admits is read. -/
structure Codec.Described (follow : String → Json → Bool) (c : Codec α) (valid : α → Prop)
    (schema : Json) : Prop where
  writes : ∀ a, valid a → conformsWith follow schema (c.encode a) = true
  reads : ∀ place j, Readable j → conformsWith follow schema j = true →
    ∃ a, c.decodeAt place j = some a

/-- What is looked up under the keys of an object: members that must be
there are, and each conforms to its schema. -/
structure Fills (follow : String → Json → Bool) (shape : Shape) (get : String → Option Json) :
    Prop where
  required : ∀ name ∈ shape.required, ∃ j, get name = some j
  conforms : ∀ name schema j, (name, schema) ∈ shape.properties → get name = some j →
    Readable j ∧ conformsWith follow schema j = true

/-- The members are written as the shape says, and what fills the shape is
read. `R` is what they ask for beside their schemas. -/
structure Members.Described (follow : String → Json → Bool) (R : (String → Option Json) → Prop)
    (m : Members α) (valid : α → Prop) (shape : Shape) : Prop where
  names : ∀ name ∈ shape.properties.map Prod.fst, name ∈ m.names
  writes : ∀ a, valid a → Holds follow shape.properties (m.encode a)
  requires : ∀ a, ∀ name ∈ shape.required, name ∈ (m.encode a).map Prod.fst
  reads : ∀ place get, R get → Fills follow shape get →
    ∃ a, m.decodeAt place (m.names.map get) = some a

-- ============================================================= members

namespace Codec

/-- A list of an entity is read item by item. Each item conforms to the
schema of the entity, and what conforms is read. -/
theorem Described.reads_list {c : Codec α} (h : c.Described follow valid schema) {place : Place}
    {items : List Json} (hreadable : Readable (.arr items))
    (hitems : ∀ item ∈ items, conformsWith follow schema item = true) :
    ∃ values, (list c).decodeAt place (.arr items) = some values := by
  show ∃ values, items.mapM (c.decodeAt place) = some values
  have hall : ∀ item ∈ items, ∃ a, c.decodeAt place item = some a := fun item hitem =>
    h.reads place item (hreadable.item hitem) (hitems item hitem)
  clear hreadable hitems
  induction items with
  | nil => exact ⟨[], rfl⟩
  | cons item items ih =>
      obtain ⟨a, ha⟩ := hall item List.mem_cons_self
      obtain ⟨values, hvalues⟩ := ih fun item hitem => hall item (List.mem_cons_of_mem _ hitem)
      exact ⟨a :: values, by rw [List.mapM_cons, ha, hvalues]; rfl⟩

/-- A list of valid values is written item by item. -/
theorem Described.writes_list {c : Codec α} (h : c.Described follow valid schema)
    {values : List α} (hvalues : ∀ a ∈ values, valid a) :
    ∀ item ∈ values.map c.encode, conformsWith follow schema item = true := by
  intro item hitem
  obtain ⟨a, ha, rfl⟩ := List.mem_map.1 hitem
  exact h.writes a (hvalues a ha)

/-- A list is described by the array of its items' schema. -/
theorem Described.list {c : Codec α} {e : Entity} (h : c.Described follow valid (ref e)) :
    (list c).Described follow (fun values => ∀ a ∈ values, valid a) (arrayOf e) where
  writes values hvalues :=
    Schema.conformsWith_arrayOf.2 ⟨_, rfl, h.writes_list hvalues⟩
  reads place j hreadable hconforms := by
    obtain ⟨items, rfl, hitems⟩ := Schema.conformsWith_arrayOf.1 hconforms
    exact h.reads_list hreadable hitems

/-- A list that must not be empty is described by an array that must not be.
The codec reads an empty one too, which is why this is about validity. -/
theorem Described.nonEmptyList {c : Codec α} {e : Entity} (h : c.Described follow valid (ref e)) :
    (Codec.list c).Described follow (fun values => values ≠ [] ∧ ∀ a ∈ values, valid a)
      (Schema.nonEmptyArrayOf e) where
  writes values hvalues :=
    Schema.conformsWith_nonEmptyArrayOf.2
      ⟨_, rfl, fun h => hvalues.1 (List.map_eq_nil_iff.1 h), h.writes_list hvalues.2⟩
  reads place j hreadable hconforms := by
    obtain ⟨items, rfl, -, hitems⟩ := Schema.conformsWith_nonEmptyArrayOf.1 hconforms
    exact h.reads_list hreadable hitems

end Codec

namespace Members

variable {R : (String → Option Json) → Prop}

/-- One member is its one name. What is asked of a single member is gathered
here once, and the lemmas for the kinds of members fill it in. -/
theorem described_one {m : Members α} {name : String} {required : List String}
    (hnames : m.names = [name])
    (hwrites : ∀ a, valid a → ∀ p ∈ m.encode a, p.1 = name ∧ conformsWith follow schema p.2 = true)
    (hrequires : ∀ a, ∀ n ∈ required, n ∈ (m.encode a).map Prod.fst)
    (hreads : ∀ place slot get, R get → get name = slot →
      (∀ n ∈ required, ∃ j, get n = some j) →
      (∀ j, slot = some j → Readable j ∧ conformsWith follow schema j = true) →
      ∃ a, m.decodeAt place [slot] = some a) :
    m.Described follow R valid ⟨[(name, schema)], required⟩ where
  names n hn := by
    rw [hnames]
    exact hn
  writes a ha p hp := by
    obtain ⟨rfl, hconforms⟩ := hwrites a ha p hp
    exact ⟨schema, List.mem_singleton_self _, hconforms⟩
  requires := hrequires
  reads place get hroom h := by
    rw [hnames]
    exact hreads place (get name) get hroom rfl h.required
      fun j hj => h.conforms name schema j (List.mem_singleton_self _) hj

/-- A member that must be there is a property that is required, so an object
that fills the shape has a value for it to read. -/
theorem described_required {c : Codec α} (h : c.Described follow valid schema) (name : String) :
    (required name c).Described follow R valid ⟨[(name, schema)], [name]⟩ := by
  refine described_one rfl ?_ ?_ ?_
  · intro a ha p hp
    rw [List.mem_singleton.1 hp]
    exact ⟨rfl, h.writes a ha⟩
  · intro a n hn
    exact hn
  · intro place slot get _ hslot hrequired hconforms
    obtain ⟨j, hj⟩ := hrequired name (List.mem_singleton_self name)
    rw [hslot] at hj
    obtain ⟨hreadable, hschema⟩ := hconforms j hj
    rw [hj]
    exact h.reads place j hreadable hschema

/-- A member that may be missing is read from whatever its schema admits,
and from a null as well. -/
theorem reads_optional {c : Codec α} {place : Place} {name : String} {slot : Option Json}
    (h : ∀ j, slot = some j → ∃ a, c.decodeAt place j = some a) :
    ∃ o, (optional name c).decodeAt place [slot] = some o := by
  cases slot with
  | none => exact ⟨none, rfl⟩
  | some j =>
      obtain ⟨a, ha⟩ := h j rfl
      cases j with
      | null => exact ⟨none, rfl⟩
      | _ => exact ⟨some a, congrArg (Option.map some) ha⟩

/-- A member that may be missing is a property that is not required. It is
never written as null, which the schema would refuse. -/
theorem described_optional {c : Codec α} (h : c.Described follow valid schema) (name : String) :
    (optional name c).Described follow R (fun o => ∀ a ∈ o, valid a)
      ⟨[(name, schema)], []⟩ := by
  refine described_one rfl ?_ ?_ ?_
  · intro o ho p hp
    cases o with
    | none => cases hp
    | some a =>
        rw [List.mem_singleton.1 hp]
        exact ⟨rfl, h.writes a (ho a rfl)⟩
  · intro o n hn
    cases hn
  · intro place slot get _ _ _ hconforms
    refine reads_optional fun j hj => ?_
    obtain ⟨hreadable, hschema⟩ := hconforms j hj
    exact h.reads place j hreadable hschema

/-- A member with a default is a property that is not required. It is always
written, and where it is missing the default is read. -/
theorem described_defaulted {c : Codec α} (h : c.Described follow valid schema) (name : String)
    (default : α) :
    (defaulted name c default).Described follow R valid ⟨[(name, schema)], []⟩ := by
  refine described_one rfl ?_ ?_ ?_
  · intro a ha p hp
    rw [List.mem_singleton.1 hp]
    exact ⟨rfl, h.writes a ha⟩
  · intro a n hn
    cases hn
  · intro place slot get _ _ _ hconforms
    cases slot with
    | none => exact ⟨default, rfl⟩
    | some j =>
        obtain ⟨hreadable, hschema⟩ := hconforms j rfl
        exact h.reads place j hreadable hschema

/-- A list that may be missing is an array that may be missing. An empty list
is not written, and an empty array is read as one. -/
theorem described_listed {c : Codec α} {e : Entity} (h : c.Described follow valid (ref e))
    (name : String) :
    (listed name c).Described follow R (fun values => ∀ a ∈ values, valid a)
      ⟨[(name, arrayOf e)], []⟩ := by
  refine described_one rfl ?_ ?_ ?_
  · intro values hvalues p hp
    cases values with
    | nil => cases hp
    | cons a values =>
        rw [List.mem_singleton.1 hp]
        exact ⟨rfl, h.list.writes _ hvalues⟩
  · intro values n hn
    cases hn
  · intro place slot get _ _ _ hconforms
    cases slot with
    | none => exact ⟨[], rfl⟩
    | some j =>
        obtain ⟨hreadable, hschema⟩ := hconforms j rfl
        exact h.list.reads place j hreadable hschema

/-- A mark is a truth value that may be missing. It is written as true or not
at all, and a false that is given is read. -/
theorem described_marked (name : String) :
    (marked name).Described follow R (fun _ => True)
      ⟨[(name, Schema.typed "boolean" [])], []⟩ := by
  refine described_one rfl ?_ ?_ ?_
  · intro on _ p hp
    cases on with
    | false => cases hp
    | true =>
        rw [List.mem_singleton.1 hp]
        exact ⟨rfl, Schema.conformsWith_boolean.2 ⟨true, rfl⟩⟩
  · intro on n hn
    cases hn
  · intro place slot get _ _ _ hconforms
    cases slot with
    | none => exact ⟨false, rfl⟩
    | some j =>
        obtain ⟨-, hschema⟩ := hconforms j rfl
        obtain ⟨b, rfl⟩ := Schema.conformsWith_boolean.1 hschema
        exact ⟨b, rfl⟩

/-- Both parts find their members among those of the record, and the shape is
that of the one and then that of the other. -/
theorem Described.and {m : Members α} {n : Members β} {s t : Shape}
    (hm : m.Described follow R valid s) (hn : n.Described follow R valid' t) :
    (m.and n).Described follow R (fun p => valid p.1 ∧ valid' p.2)
      ⟨s.properties ++ t.properties, s.required ++ t.required⟩ where
  names name hname := by
    rw [List.map_append] at hname
    rcases List.mem_append.1 hname with hname | hname
    · exact List.mem_append_left _ (hm.names name hname)
    · exact List.mem_append_right _ (hn.names name hname)
  writes p hp entry hentry := by
    rcases List.mem_append.1 hentry with hentry | hentry
    · obtain ⟨schema, hschema, hconforms⟩ := hm.writes p.1 hp.1 entry hentry
      exact ⟨schema, List.mem_append_left _ hschema, hconforms⟩
    · obtain ⟨schema, hschema, hconforms⟩ := hn.writes p.2 hp.2 entry hentry
      exact ⟨schema, List.mem_append_right _ hschema, hconforms⟩
  requires p name hname := by
    show name ∈ (m.encode p.1 ++ n.encode p.2).map Prod.fst
    rw [List.map_append]
    rcases List.mem_append.1 hname with hname | hname
    · exact List.mem_append_left _ (hm.requires p.1 name hname)
    · exact List.mem_append_right _ (hn.requires p.2 name hname)
  reads place get hroom h := by
    obtain ⟨a, ha⟩ := hm.reads place get hroom
      ⟨fun name hname => h.required name (List.mem_append_left _ hname),
        fun name schema j hmem => h.conforms name schema j (List.mem_append_left _ hmem)⟩
    obtain ⟨b, hb⟩ := hn.reads place get hroom
      ⟨fun name hname => h.required name (List.mem_append_right _ hname),
        fun name schema j hmem => h.conforms name schema j (List.mem_append_right _ hmem)⟩
    -- the slots of the two are side by side, and cutting them by length gives each its
    -- own
    have hlength : m.names.length = (m.names.map get).length := List.length_map _ |>.symm
    refine ⟨(a, b), ?_⟩
    show (m.and n).decodeAt place ((m.names ++ n.names).map get) = some (a, b)
    unfold Members.and
    dsimp only
    rw [List.map_append, hlength, List.take_left, List.drop_left, ha, hb]
    rfl

/-- Members seen as another type are described by the same shape. -/
theorem Described.iso {m : Members α} {s : Shape} (h : m.Described follow R valid s)
    {make : α → β} {view : β → α} (hvalid : ∀ b, valid' b → valid (view b)) :
    (m.iso make view).Described follow R valid' s where
  names := h.names
  writes b hb := h.writes (view b) (hvalid b hb)
  requires b := h.requires (view b)
  reads place get hroom hfills := by
    obtain ⟨a, ha⟩ := h.reads place get hroom hfills
    exact ⟨make a, congrArg (Option.map make) ha⟩

/-- The order of the members in a shape is nothing to a description. -/
theorem Described.reorder {m : Members α} {s t : Shape} (h : m.Described follow R valid s)
    (hproperties : s.properties.Perm t.properties) (hrequired : s.required = t.required) :
    m.Described follow R valid t where
  names name hname := h.names name ((hproperties.map Prod.fst).mem_iff.2 hname)
  writes a ha p hp := by
    obtain ⟨schema, hschema, hconforms⟩ := h.writes a ha p hp
    exact ⟨schema, hproperties.mem_iff.1 hschema, hconforms⟩
  requires a name hname := h.requires a name (hrequired ▸ hname)
  reads place get hroom hfills := h.reads place get hroom
    ⟨fun name hname => hfills.required name (hrequired ▸ hname),
      fun name schema j hmem => hfills.conforms name schema j (hproperties.mem_iff.1 hmem)⟩

-- ============================================================= records

/-- An object that holds what a shape declares fills the shape. Properties
are found by their names, which are different. -/
theorem fills_of_holds {s : Shape} {members : List (String × Json)}
    (hnodup : (s.properties.map Prod.fst).Nodup) (hreadable : ReadableMembers members)
    (hrequired : ∀ name ∈ s.required, name ∈ members.map Prod.fst)
    (hholds : Holds follow s.properties members) :
    Fills follow s fun name => member? name members where
  required name hname := by
    obtain ⟨⟨key, j⟩, hmem, rfl⟩ := List.mem_map.1 (hrequired name hname)
    exact ⟨j, Json.member?_of_mem hreadable.nodup hmem⟩
  conforms name schema j hmem hj := by
    have hmember := Json.mem_of_member? hj
    obtain ⟨schema', hmem', hconforms⟩ := hholds (name, j) hmember
    have hschema := Json.member?_of_mem hnodup hmem
    rw [Json.member?_of_mem hnodup hmem'] at hschema
    cases hschema
    exact ⟨hreadable.values _ hmember, hconforms⟩

/-- An object that fills the shape of a record is read as the record. Members
that the shape does not declare are excluded by it. -/
theorem Described.readAt {m : Members α} {s : Shape} (h : m.Described follow R valid s)
    (hnodup : (s.properties.map Prod.fst).Nodup) {place : Place}
    {members : List (String × Json)} (hreadable : ReadableMembers members)
    (hroom : R fun name => member? name members)
    (hrequired : ∀ name ∈ s.required, name ∈ members.map Prod.fst)
    (hholds : Holds follow s.properties members) :
    ∃ a, m.readAt place (.obj members) = some a := by
  obtain ⟨a, ha⟩ := h.reads place (fun name => member? name members) hroom
    (fills_of_holds hnodup hreadable hrequired hholds)
  have hknown : members.all (fun p => m.names.contains p.1) = true := by
    rw [List.all_eq_true]
    intro p hp
    obtain ⟨schema, hschema, -⟩ := hholds p hp
    exact List.contains_iff_mem.2 (h.names _ (List.mem_map.2 ⟨_, hschema, rfl⟩))
  refine ⟨a, ?_⟩
  show (if (members.all (fun p => m.names.contains p.1) &&
    Codec.keysDistinct members) = true then _ else _ : Option _).bind _ = some a
  rw [hknown, keysDistinct_of_nodup hreadable.nodup]
  exact ha

/-- A record whose schema asks that the members of a shape are there, and
perhaps for more. -/
theorem Described.object {m : Members α} {s : Shape}
    (h : m.Described follow (fun _ => True) valid s)
    (hnodup : (s.properties.map Prod.fst).Nodup)
    (hwrites : ∀ a, valid a → conformsWith follow schema (.obj (m.encode a)) = true)
    (hreads : ∀ j, conformsWith follow schema j = true →
      ∃ members, j = .obj members ∧ (∀ name ∈ s.required, name ∈ members.map Prod.fst) ∧
        Holds follow s.properties members) :
    m.record.Described follow valid schema where
  writes := hwrites
  reads place j hreadable hconforms := by
    obtain ⟨members, rfl, hrequired, hholds⟩ := hreads j hconforms
    exact h.readAt hnodup hreadable.members trivial hrequired hholds

/-- A record is described by its shape, closed against other members. -/
theorem Described.record {m : Members α} {s : Shape}
    (h : m.Described follow (fun _ => True) valid s)
    (hnodup : (s.properties.map Prod.fst).Nodup) :
    m.record.Described follow valid s.closed :=
  h.object hnodup
    (fun a ha => (Schema.conformsWith_closed hnodup).2 ⟨_, rfl, h.requires a, h.writes a ha⟩)
    fun _ hconforms => (Schema.conformsWith_closed hnodup).1 hconforms

end Members

-- ============================================================= choices

/-- Under each tag the record is written as the shape of the tag says, and
what fills the shape is read. -/
structure Variants.Described (follow : String → Json → Bool)
    (R : String → (String → Option Json) → Prop) (v : Variants α) (valid : α → Prop)
    (cases : List (String × Shape)) : Prop where
  tags : v.tags = cases.map Prod.fst
  writes : ∀ a, valid a → ∃ c ∈ cases, (v.encode a).1 = c.1 ∧
    (∀ name ∈ c.2.required, name ∈ (v.encode a).2.map Prod.fst) ∧
    Holds follow c.2.properties (v.encode a).2
  reads : v.tags.Nodup → ∀ c ∈ cases, ∀ members, ReadableMembers members →
    R c.1 (fun name => member? name members) →
    (∀ name ∈ c.2.required, name ∈ members.map Prod.fst) →
    Holds follow c.2.properties members → ∃ a, v.decode c.1 (.obj members) = some a

namespace Variants

variable {R : String → (String → Option Json) → Prop}

/-- A choice of one record is described by its shape under its tag. -/
theorem described_one {m : Members α} {tag : String} {s : Shape}
    (h : m.Described follow (R tag) valid s) (hnodup : (s.properties.map Prod.fst).Nodup) :
    (one tag m).Described follow R valid [(tag, s)] where
  tags := rfl
  writes a ha := ⟨(tag, s), List.mem_singleton_self _, rfl, h.requires a, h.writes a ha⟩
  reads _ c hc members hreadable hroom hrequired hholds := by
    cases List.mem_singleton.1 hc
    show ∃ a, (if tag = tag then m.readAt .inside (.obj members) else none) = some a
    rw [if_pos rfl]
    exact h.readAt hnodup hreadable hroom hrequired hholds

/-- Two choices are described by the cases of both. Reading goes by the tag,
and tags that are different keep the cases apart. -/
theorem Described.or {v : Variants α} {w : Variants β} {cases cases' : List (String × Shape)}
    (hv : v.Described follow R valid cases) (hw : w.Described follow R valid' cases') :
    (v.or w).Described follow R (Sum.elim valid valid') (cases ++ cases') where
  tags := by
    show v.tags ++ w.tags = _
    rw [hv.tags, hw.tags, List.map_append]
  writes s hs := by
    cases s with
    | inl a =>
        obtain ⟨c, hc, hrest⟩ := hv.writes a hs
        exact ⟨c, List.mem_append_left _ hc, hrest⟩
    | inr b =>
        obtain ⟨c, hc, hrest⟩ := hw.writes b hs
        exact ⟨c, List.mem_append_right _ hc, hrest⟩
  reads hnodup c hc members hreadable hroom hrequired hholds := by
    have htags : (v.tags ++ w.tags).Nodup := hnodup
    obtain ⟨hvtags, hwtags, hdisjoint⟩ := List.nodup_append.1 htags
    unfold Variants.or
    dsimp only
    rcases List.mem_append.1 hc with hc | hc
    · have htag : c.1 ∈ v.tags := hv.tags ▸ List.mem_map_of_mem hc
      obtain ⟨a, ha⟩ := hv.reads hvtags c hc members hreadable hroom hrequired hholds
      rw [if_pos (List.contains_iff_mem.2 htag), ha]
      exact ⟨.inl a, rfl⟩
    · have htag : c.1 ∈ w.tags := hw.tags ▸ List.mem_map_of_mem hc
      -- the tag belongs to the right list alone, so the left one does not catch it
      have hother : ¬ v.tags.contains c.1 = true := fun h =>
        hdisjoint _ (List.contains_iff_mem.1 h) _ htag rfl
      obtain ⟨b, hb⟩ := hw.reads hwtags c hc members hreadable hroom hrequired hholds
      rw [if_neg hother, hb]
      exact ⟨.inr b, rfl⟩

/-- A choice seen as another type is described by the same cases. -/
theorem Described.iso {v : Variants α} {cases : List (String × Shape)}
    (h : v.Described follow R valid cases) {make : α → β} {view : β → α}
    (hvalid : ∀ b, valid' b → valid (view b)) :
    (v.iso make view).Described follow R valid' cases where
  tags := h.tags
  writes b hb := h.writes (view b) (hvalid b hb)
  reads hnodup c hc members hreadable hroom hrequired hholds := by
    obtain ⟨a, ha⟩ := h.reads hnodup c hc members hreadable hroom hrequired hholds
    exact ⟨make a, congrArg (Option.map make) ha⟩

/-- The one member under the tag's key is taken off, wherever it stands among
the others. -/
theorem untag_of_mem {key : String} {mark : Json} {members : List (String × Json)}
    (hnodup : (members.map Prod.fst).Nodup) (hmem : (key, mark) ∈ members) :
    untag key (.obj members) = some (mark, .obj (members.filter fun m => m.1 != key)) := by
  obtain ⟨before, after, rfl⟩ := List.append_of_mem hmem
  rw [List.map_append, List.map_cons, List.nodup_middle, List.nodup_cons,
    ← List.map_append] at hnodup
  have hothers : (before ++ after).filter (fun m => m.1 == key) = [] := by
    rw [List.filter_eq_nil_iff]
    exact fun m hm heq => hnodup.1 (List.mem_map.2 ⟨m, hm, eq_of_beq heq⟩)
  rw [List.filter_append, List.append_eq_nil_iff] at hothers
  unfold untag
  simp only [List.filter_append, List.filter_cons, hothers.1, hothers.2, beq_self_eq_true,
    if_true, List.nil_append]

/-- What stands behind the tag is read as the tag says. -/
theorem decodeAt_tagged {v : Variants α} {key tag : String} {members : List (String × Json)}
    (hnodup : (members.map Prod.fst).Nodup) (hmem : (key, .str tag) ∈ members) (place : Place) :
    (tagged key v).decodeAt place (.obj members) =
      v.decode tag (.obj (members.filter fun m => m.1 != key)) := by
  show (untag key (.obj members)).bind (fun p => (tagOf v.tags place p.1).bind fun t =>
    v.decode t p.2) = _
  rw [untag_of_mem hnodup hmem]
  cases place <;> rfl

/-- Without the tag no required member is lost. -/
theorem required_without_tag {key : String} {required : List String}
    {members : List (String × Json)} (hkey : key ∉ required)
    (h : ∀ name ∈ required, name ∈ members.map Prod.fst) :
    ∀ name ∈ required, name ∈ (members.filter fun m => m.1 != key).map Prod.fst := by
  intro name hname
  obtain ⟨m, hm, rfl⟩ := List.mem_map.1 (h name hname)
  have hne : m.1 ≠ key := fun heq => hkey (heq ▸ hname)
  exact List.mem_map_of_mem (List.mem_filter.2 ⟨hm, bne_iff_ne.2 hne⟩)

/-- A tagged record is described by a choice between the shapes with their
tags. Different tags make the options exclude one another, so that exactly
one of them is met; and the tag taken off leaves what the shape says. -/
theorem Described.tagged {v : Variants α} {cases : List (String × Shape)} {key : String}
    (h : v.Described follow R valid cases) (htags : (cases.map Prod.fst).Nodup)
    (hnodup : ∀ c ∈ cases, (key :: c.2.properties.map Prod.fst).Nodup)
    (hrequired : ∀ c ∈ cases, key ∉ c.2.required)
    (hroom : ∀ tag members, Readable (.obj members) →
      member? key members = some (.str tag) →
      R tag fun name => member? name (members.filter fun m => m.1 != key)) :
    (tagged key v).Described follow valid
      (Schema.oneOf (cases.map fun c => c.2.tagged key c.1)) where
  writes a ha := by
    obtain ⟨c, hc, htag, hthere, hholds⟩ := h.writes a ha
    -- what is declared leaves the tag's key free
    have hfree : ∀ m ∈ (v.encode a).2, m.1 ≠ key := by
      intro m hm heq
      obtain ⟨schema, hschema, -⟩ := hholds m hm
      exact (List.nodup_cons.1 (hnodup c hc)).1 (List.mem_map.2 ⟨_, hschema, heq⟩)
    refine (Schema.conformsWith_choice htags hnodup).2
      ⟨c, hc, (Schema.conformsWith_tagged (hnodup c hc)).2 ⟨_, rfl, ?_, ?_, ?_, ?_⟩⟩
    · exact List.mem_cons_self
    · intro m hm hkey
      rcases List.mem_cons.1 hm with rfl | hm
      · exact congrArg Json.str htag
      · exact absurd hkey (hfree m hm)
    · exact fun name hname => List.mem_cons_of_mem _ (hthere name hname)
    · intro m hm
      obtain ⟨hm, hne⟩ := List.mem_filter.1 hm
      rcases List.mem_cons.1 hm with rfl | hm
      · exact absurd rfl (bne_iff_ne.1 hne)
      · exact hholds m hm
  reads place j hreadable hconforms := by
    obtain ⟨c, hc, hconforms⟩ := (Schema.conformsWith_choice htags hnodup).1 hconforms
    obtain ⟨members, rfl, hmem, htag, hthere, hholds⟩ :=
      (Schema.conformsWith_tagged (hnodup c hc)).1 hconforms
    obtain ⟨⟨k, mark⟩, hm, rfl⟩ := List.mem_map.1 hmem
    have hmark : mark = .str c.1 := htag _ hm rfl
    subst hmark
    have hmembers := hreadable.members
    rw [decodeAt_tagged hmembers.nodup hm]
    exact h.reads (h.tags ▸ htags) c hc (members.filter fun m => m.1 != k)
      (hmembers.filter _) (hroom c.1 members hreadable (Json.member?_of_mem hmembers.nodup hm))
      (required_without_tag (hrequired c hc) hthere) hholds

/-- A tagged record whose parts ask for nothing beside their schemas. -/
theorem Described.choice {v : Variants α} {cases : List (String × Shape)} {key : String}
    (h : v.Described follow (fun _ _ => True) valid cases) (htags : (cases.map Prod.fst).Nodup)
    (hnodup : ∀ c ∈ cases, (key :: c.2.properties.map Prod.fst).Nodup)
    (hrequired : ∀ c ∈ cases, key ∉ c.2.required) :
    (Variants.tagged key v).Described follow valid
      (Schema.oneOf (cases.map fun c => c.2.tagged key c.1)) :=
  h.tagged htags hnodup hrequired fun _ _ _ _ => trivial

end Variants

end TypedSelect
