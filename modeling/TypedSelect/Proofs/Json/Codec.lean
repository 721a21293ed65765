/-
Laws of codecs.

A lawful codec reads back what it writes, wherever the value stands, and
what it writes nests at most so deep and holds no other floating point
numbers than the value does. This module states the law and shows that
each way to build a codec keeps it.

# The law

`Codec.Lawful` has three parts. What is written is read back; it is not
null; and it can be printed at some depth if the numbers in the value are
good. The second part is there for the sake of optional members, which
are left out by being null: a codec that writes null could not stand
under one.

The law is taken with a depth and with a notion of good numbers. Both are
parameters, since what they are is settled at the top only: the depth by
the limit of the reader, the good numbers by the reading of numbers.

# Members and variants

A record is built from members and a choice from variants, so each of the
two has a law of its own, and the law of a record or a choice is what
they come to when they are closed. A record asks for the names of its
members to be different, and a choice for its tags to be different and
for the tag's key to be no member's name. Both are settled once, for a
record or a choice, not where its parts are put together: half a record
has a law too, which only says nothing of reading until the names are
known to be different.
-/
import TypedSelect.Json.Codec
import TypedSelect.Proofs.Json.RoundTrip

namespace TypedSelect

open Json (Printable InRange member?)

variable {α β : Type} {good : Double → Prop} {kept : α → Prop} {kept' : β → Prop}
  {depth : Nat}

-- ============================================================= the law

/-- What is written is read back and is not null. `kept` are the values
whose floating point numbers are all good; their JSON is printable at this
depth. -/
structure Codec.Lawful (good : Double → Prop) (c : Codec α) (kept : α → Prop)
    (depth : Nat) : Prop where
  reads : ∀ place a, c.decodeAt place (c.encode a) = some a
  solid : ∀ a, c.encode a ≠ .null
  prints : ∀ a, kept a → Printable good depth (c.encode a)

/-- A codec whose JSON nests `levels` deep is one that the reader can take,
if its limit has room for so many levels; what is left of the limit stands
around them. -/
theorem Codec.Lawful.printable {c : Codec α} {levels : Nat}
    (h : c.Lawful good kept (Json.nestingLimit - levels + levels))
    (hroom : levels ≤ Json.nestingLimit) {a : α} (ha : kept a) :
    Printable good Json.nestingLimit (c.encode a) := by
  rw [Nat.sub_add_cancel hroom] at h
  exact h.prints a ha

/-- Every symbol answers to its name. -/
class LawfulVocabulary (α : Type) [Vocabulary α] : Prop where
  symbolNamed?_name : ∀ a : α, Codec.symbolNamed? (Vocabulary.name a) = some a

namespace Codec

-- ============================================================ scalars

/-- Text is written as itself and read back. It holds no number, so it asks
for nothing. -/
theorem lawful_text : text.Lawful good (fun _ => True) depth where
  reads _ _ := rfl
  solid _ h := by cases h
  prints s _ := .str depth s

/-- A number below the limit is taken for what it is. -/
theorem natBelow_ofNat {n limit : Nat} (h : n < limit) : natBelow limit (.int n) = some n := by
  show (if 0 ≤ (n : Int) ∧ (n : Int) < limit then some (n : Int).toNat else none) = some n
  rw [if_pos ⟨Int.natCast_nonneg n, Int.ofNat_lt.2 h⟩, Int.toNat_natCast]

/-- A whole number below a limit of 64 bits at most is read back. The two
widths are cases of it. -/
theorem lawful_whole {c : Codec α} {limit : Nat} {make : Nat → α} {view : α → Nat}
    (hlimit : limit ≤ UInt64.size)
    (hdecode : ∀ place j, c.decodeAt place j = (natBelow limit j).map make)
    (hencode : ∀ a, c.encode a = .int (view a)) (hmake : ∀ a, make (view a) = a)
    (hview : ∀ a, view a < limit) : c.Lawful good (fun _ => True) depth where
  reads place a := by rw [hdecode, hencode, natBelow_ofNat (hview a), Option.map_some, hmake]
  solid a h := by
    rw [hencode] at h
    cases h
  prints a _ := by
    rw [hencode]
    exact .int depth ⟨(by decide : Int64.minValue.toInt ≤ 0).trans (Int.natCast_nonneg _),
      Int.ofNat_lt.2 ((hview a).trans_le hlimit)⟩

theorem lawful_word32 : word32.Lawful good (fun _ => True) depth :=
  lawful_whole (by decide) (fun _ _ => rfl) (fun _ => rfl) (fun _ => UInt32.ofNat_toNat)
    fun n => n.toNat_lt

/-- A number of 64 bits is read back, up to the largest one. -/
theorem lawful_word64 : word64.Lawful good (fun _ => True) depth :=
  lawful_whole le_rfl (fun _ _ => rfl) (fun _ => rfl) (fun _ => UInt64.ofNat_toNat)
    fun n => n.toNat_lt

/-- A floating point number is read back if it is a good one: this is where
the numbers of a value come into the law. -/
theorem lawful_double : double.Lawful good good depth where
  reads _ _ := rfl
  solid _ h := by cases h
  prints _ hx := .float depth hx

/-- A symbol is written by its name and found by it again, if no other symbol
before it has the name. -/
theorem lawful_symbol [Vocabulary α] [LawfulVocabulary α] :
    (symbol : Codec α).Lawful good (fun _ => True) depth where
  reads _ a := LawfulVocabulary.symbolNamed?_name a
  solid _ h := by cases h
  prints a _ := .str depth _

/-- A list of values is read back one by one, at one level more. The reader
of a list gives up at the first item that it cannot read, so the induction is
on the values that were written. -/
theorem Lawful.list {c : Codec α} (h : c.Lawful good kept depth) :
    (list c).Lawful good (fun values => ∀ a ∈ values, kept a) (depth + 1) where
  reads place values := by
    show (values.map c.encode).mapM (c.decodeAt place) = some values
    induction values with
    | nil => rfl
    | cons a values ih =>
        rw [List.map_cons, List.mapM_cons, h.reads, ih]
        rfl
  solid _ h := by cases h
  prints values hvalues := by
    refine .arr fun item hitem => ?_
    obtain ⟨a, ha, rfl⟩ := List.mem_map.1 hitem
    exact h.prints a (hvalues a ha)

end Codec

-- ============================================================ members

/-- The members are written under some of their names, in order, and are
read back from the slots of all their names. -/
structure Members.Lawful (good : Double → Prop) (m : Members α) (kept : α → Prop)
    (depth : Nat) : Prop where
  keys : ∀ a, ((m.encode a).map Prod.fst).Sublist m.names
  reads : m.names.Nodup → ∀ place a,
    m.decodeAt place (m.names.map fun name => member? name (m.encode a)) = some a
  prints : ∀ a, kept a → ∀ p ∈ m.encode a, Printable good depth p.2

namespace Json

/-- A key that no member has leads to nothing. -/
theorem member?_eq_none {name : String} {members : List (String × Json)}
    (h : name ∉ members.map Prod.fst) : member? name members = none := by
  induction members with
  | nil => rfl
  | cons m members ih =>
      obtain ⟨key, value⟩ := m
      rw [List.map_cons, List.mem_cons, not_or] at h
      rw [member?, if_neg (Ne.symm h.1), ih h.2]

/-- Members that follow under other keys do not get in the way of a key. -/
theorem member?_append_left {name : String} (members : List (String × Json))
    {others : List (String × Json)} (h : name ∉ others.map Prod.fst) :
    member? name (members ++ others) = member? name members := by
  induction members with
  | nil => exact member?_eq_none h
  | cons m members ih =>
      obtain ⟨key, value⟩ := m
      rw [List.cons_append, member?, member?, ih]

/-- Neither do members that stand before, under other keys. -/
theorem member?_append_right {name : String} {members : List (String × Json)}
    (others : List (String × Json)) (h : name ∉ members.map Prod.fst) :
    member? name (members ++ others) = member? name others := by
  induction members with
  | nil => rfl
  | cons m members ih =>
      obtain ⟨key, value⟩ := m
      rw [List.map_cons, List.mem_cons, not_or] at h
      rw [List.cons_append, member?, if_neg (Ne.symm h.1), ih h.2]

theorem member?_self (name : String) (j : Json) : member? name [(name, j)] = some j := if_pos rfl

end Json

open Json (member?_append_left member?_append_right member?_self)

namespace Members

/-- A member that must be there is always written, so it is found again. -/
theorem lawful_required {c : Codec α} (h : c.Lawful good kept depth) (name : String) :
    (required name c).Lawful good kept depth where
  keys _ := List.Sublist.refl _
  reads _ place a := by
    show (required name c).decodeAt place [member? name [(name, c.encode a)]] = some a
    rw [member?_self]
    exact h.reads place a
  prints a ha p hp := by
    rw [List.mem_singleton.1 hp]
    exact h.prints a ha

/-- A member that may be missing is left out when there is no value, and an
absent member is read as none. A value that is there is not null, so it is
not taken for none. -/
theorem lawful_optional {c : Codec α} (h : c.Lawful good kept depth) (name : String) :
    (optional name c).Lawful good (fun o => ∀ a ∈ o, kept a) depth where
  keys o := by
    cases o with
    | none => exact List.nil_sublist _
    | some a => exact List.Sublist.refl _
  reads _ place o := by
    cases o with
    | none => rfl
    | some a =>
        show (optional name c).decodeAt place [member? name [(name, c.encode a)]] = _
        rw [member?_self]
        -- `null` would be read as nothing, and what is written is not `null`
        have hsolid := h.solid a
        have hread := h.reads place a
        generalize c.encode a = j at hsolid hread
        cases j with
        | null => exact absurd rfl hsolid
        | _ => exact congrArg (Option.map some) hread
  prints o ho p hp := by
    cases o with
    | none => cases hp
    | some a =>
        rw [List.mem_singleton.1 hp]
        exact h.prints a (ho a rfl)

/-- A member with a default is written even when it has the default. -/
theorem lawful_defaulted {c : Codec α} (h : c.Lawful good kept depth) (name : String)
    (default : α) : (defaulted name c default).Lawful good kept depth where
  keys _ := List.Sublist.refl _
  reads _ place a := by
    show (defaulted name c default).decodeAt place [member? name [(name, c.encode a)]] = some a
    rw [member?_self]
    exact h.reads place a
  prints a ha p hp := by
    rw [List.mem_singleton.1 hp]
    exact h.prints a ha

/-- A list that may be missing is left out when it is empty, and an absent
list is read as the empty one. -/
theorem lawful_listed {c : Codec α} (h : c.Lawful good kept depth) (name : String) :
    (listed name c).Lawful good (fun values => ∀ a ∈ values, kept a) (depth + 1) where
  keys values := by
    cases values with
    | nil => exact List.nil_sublist _
    | cons a values => exact List.Sublist.refl _
  reads _ place values := by
    cases values with
    | nil => rfl
    | cons a values =>
        show (listed name c).decodeAt place
          [member? name [(name, (Codec.list c).encode (a :: values))]] = _
        rw [member?_self]
        exact h.list.reads place (a :: values)
  prints values hvalues p hp := by
    cases values with
    | nil => cases hp
    | cons a values =>
        rw [List.mem_singleton.1 hp]
        exact h.list.prints _ hvalues

/-- A mark is written only when it is set, and an absent mark is not set. So
both values come back, the one from a member and the other from none. -/
theorem lawful_marked (name : String) : (marked name).Lawful good (fun _ => True) depth where
  keys on := by
    cases on with
    | false => exact List.nil_sublist _
    | true => exact List.Sublist.refl _
  reads _ place on := by
    cases on with
    | false => rfl
    | true =>
        show (marked name).decodeAt place [member? name [(name, .bool true)]] = _
        rw [member?_self]
        rfl
  prints on _ p hp := by
    cases on with
    | false => cases hp
    | true =>
        rw [List.mem_singleton.1 hp]
        exact .bool depth true

/-- Each part finds its members among those of both. The names of the two
must not meet, which is part of the names being different. -/
theorem Lawful.and {m : Members α} {n : Members β} (hm : m.Lawful good kept depth)
    (hn : n.Lawful good kept' depth) :
    (m.and n).Lawful good (fun p => kept p.1 ∧ kept' p.2) depth where
  keys p := by
    show ((m.encode p.1 ++ n.encode p.2).map Prod.fst).Sublist _
    rw [List.map_append]
    exact (hm.keys p.1).append (hn.keys p.2)
  reads hnodup place p := by
    obtain ⟨a, b⟩ := p
    have hparts : (m.names ++ n.names).Nodup := hnodup
    obtain ⟨hmnames, hnnames, hdisjoint⟩ := List.nodup_append.1 hparts
    -- no name of one part is a key of the other
    have hleft : (m.names.map fun name => member? name (m.encode a ++ n.encode b)) =
        m.names.map fun name => member? name (m.encode a) := by
      refine List.map_congr_left fun name hname => member?_append_left _ fun hkey => ?_
      exact hdisjoint name hname name ((hn.keys b).subset hkey) rfl
    have hright : (n.names.map fun name => member? name (m.encode a ++ n.encode b)) =
        n.names.map fun name => member? name (n.encode b) := by
      refine List.map_congr_left fun name hname => member?_append_right _ fun hkey => ?_
      exact hdisjoint name ((hm.keys a).subset hkey) name hname rfl
    have hslots : ((m.and n).names.map fun name => member? name ((m.and n).encode (a, b))) =
        (m.names.map fun name => member? name (m.encode a)) ++
          n.names.map fun name => member? name (n.encode b) := by
      rw [← hleft, ← hright]
      exact List.map_append
    rw [hslots]
    have hlength : m.names.length =
        (m.names.map fun name => member? name (m.encode a)).length := List.length_map _ |>.symm
    unfold Members.and
    dsimp only
    rw [hlength, List.take_left, List.drop_left, hm.reads hmnames, hn.reads hnnames]
    rfl
  prints p hp entry hentry := by
    rcases List.mem_append.1 hentry with hentry | hentry
    · exact hm.prints p.1 hp.1 entry hentry
    · exact hn.prints p.2 hp.2 entry hentry

/-- A record of members that is seen as another type keeps the law, if the
view can be undone and hands the parts the numbers that are theirs. -/
theorem Lawful.iso {m : Members α} (h : m.Lawful good kept depth) {make : α → β} {view : β → α}
    (hmake : ∀ b, make (view b) = b) (hkept : ∀ b, kept' b → kept (view b)) :
    (m.iso make view).Lawful good kept' depth where
  keys b := h.keys (view b)
  reads hnodup place b := by
    show (m.decodeAt place (m.names.map fun name => member? name (m.encode (view b)))).map make =
      some b
    rw [h.reads hnodup place (view b), Option.map_some, hmake]
  prints b hb := h.prints (view b) (hkept b hb)

-- ============================================================ records

/-- The check of keys passes if the keys are different. It compares each key
with those behind it, which is what a list without duplicates is about. -/
theorem keysDistinct_of_nodup {members : List (String × Json)}
    (h : (members.map Prod.fst).Nodup) : Codec.keysDistinct members = true := by
  induction members with
  | nil => rfl
  | cons m members ih =>
      obtain ⟨key, value⟩ := m
      rw [List.map_cons, List.nodup_cons] at h
      rw [Codec.keysDistinct, ih h.2, Bool.and_true, Bool.not_eq_true', List.any_eq_false]
      intro p hp heq
      have hmem : p.1 ∈ members.map Prod.fst := List.mem_map_of_mem hp
      rw [eq_of_beq heq] at hmem
      exact h.1 hmem

/-- What the members write is read back as a record. Every key is one of the
names, no key is there twice, and each slot is filled from its member. -/
theorem Lawful.readAt {m : Members α} (h : m.Lawful good kept depth) (hnodup : m.names.Nodup)
    (place : Place) (a : α) : m.readAt place (.obj (m.encode a)) = some a := by
  have hkeys := h.keys a
  have hknown : (m.encode a).all (fun p => m.names.contains p.1) = true := by
    rw [List.all_eq_true]
    intro p hp
    exact List.contains_iff_mem.2 (hkeys.subset (List.mem_map_of_mem hp))
  have hdistinct := keysDistinct_of_nodup (hkeys.nodup hnodup)
  show (if ((m.encode a).all (fun p => m.names.contains p.1) &&
    Codec.keysDistinct (m.encode a)) = true then _ else _ : Option _).bind _ = some a
  rw [hknown, hdistinct]
  exact h.reads hnodup place a

/-- Members with different names make a lawful record, one level deeper. -/
theorem Lawful.record {m : Members α} (h : m.Lawful good kept depth) (hnodup : m.names.Nodup) :
    m.record.Lawful good kept (depth + 1) where
  reads := h.readAt hnodup
  solid _ h := by cases h
  prints a ha := .obj (h.prints a ha)

end Members

-- ============================================================ choices

/-- What is written is a tag of the choice and a record that is read back
under this tag; the record leaves the tag's key free. -/
structure Variants.Lawful (good : Double → Prop) (v : Variants α) (key : String)
    (kept : α → Prop) (depth : Nat) : Prop where
  tag : ∀ a, (v.encode a).1 ∈ v.tags
  free : ∀ a, ∀ p ∈ (v.encode a).2, p.1 ≠ key
  reads : v.tags.Nodup → ∀ a, v.decode (v.encode a).1 (.obj (v.encode a).2) = some a
  prints : ∀ a, kept a → ∀ p ∈ (v.encode a).2, Printable good depth p.2

namespace Variants

variable {key : String}

/-- A choice of one record is lawful, if no member is called like the key of
the tag. -/
theorem lawful_one {m : Members α} (h : m.Lawful good kept depth) (tag : String)
    (hnames : (key :: m.names).Nodup) : (one tag m).Lawful good key kept depth where
  tag _ := List.mem_singleton_self tag
  free a p hp heq := by
    have hmem : p.1 ∈ m.names := (h.keys a).subset (List.mem_map_of_mem hp)
    exact (List.nodup_cons.1 hnames).1 (heq ▸ hmem)
  reads _ a := by
    show (if tag = tag then m.readAt .inside _ else none) = some a
    rw [if_pos rfl]
    exact h.readAt (List.nodup_cons.1 hnames).2 .inside a
  prints := h.prints

/-- Two choices make one. The tag decides which of the two reads, and a tag
of the second is none of the first. -/
theorem Lawful.or {v : Variants α} {w : Variants β} (hv : v.Lawful good key kept depth)
    (hw : w.Lawful good key kept' depth) :
    (v.or w).Lawful good key (Sum.elim kept kept') depth where
  tag s := by
    cases s with
    | inl a => exact List.mem_append_left _ (hv.tag a)
    | inr b => exact List.mem_append_right _ (hw.tag b)
  free s := by
    cases s with
    | inl a => exact hv.free a
    | inr b => exact hw.free b
  reads hnodup s := by
    have htags : (v.tags ++ w.tags).Nodup := hnodup
    obtain ⟨hvtags, hwtags, hdisjoint⟩ := List.nodup_append.1 htags
    unfold Variants.or
    dsimp only
    cases s with
    | inl a =>
        rw [if_pos (List.contains_iff_mem.2 (hv.tag a)), hv.reads hvtags]
        rfl
    | inr b =>
        -- no tag is in both lists, so the value is not read as one of the others
        have hother : ¬ v.tags.contains (w.encode b).1 = true := fun h =>
          hdisjoint _ (List.contains_iff_mem.1 h) _ (hw.tag b) rfl
        rw [if_neg hother, hw.reads hwtags]
        rfl
  prints s hs := by
    cases s with
    | inl a => exact hv.prints a hs
    | inr b => exact hw.prints b hs

/-- A choice seen as another type keeps the law. -/
theorem Lawful.iso {v : Variants α} (h : v.Lawful good key kept depth) {make : α → β}
    {view : β → α} (hmake : ∀ b, make (view b) = b)
    (hkept : ∀ b, kept' b → kept (view b)) :
    (v.iso make view).Lawful good key kept' depth where
  tag b := h.tag (view b)
  free b := h.free (view b)
  reads hnodup b := by
    show (v.decode (v.encode (view b)).1 (.obj (v.encode (view b)).2)).map make = some b
    rw [h.reads hnodup (view b), Option.map_some, hmake]
  prints b hb := h.prints (view b) (hkept b hb)

/-- The tag is taken off the record that it was put on, and what is left is
the record as its members wrote it. -/
theorem Lawful.tagged {v : Variants α} (h : v.Lawful good key kept depth) (htags : v.tags.Nodup) :
    (tagged key v).Lawful good kept (depth + 1) where
  reads place a := by
    have hrest : (v.encode a).2.filter (fun m => m.1 == key) = [] := by
      rw [List.filter_eq_nil_iff]
      exact fun p hp heq => h.free a p hp (eq_of_beq heq)
    have hbody : (v.encode a).2.filter (fun m => m.1 != key) = (v.encode a).2 := by
      rw [List.filter_eq_self]
      exact fun p hp => bne_iff_ne.2 (h.free a p hp)
    -- the tag is the first member and no other has its key, so taking it out leaves the
    -- body
    have huntag : untag key (.obj ((key, .str (v.encode a).1) :: (v.encode a).2)) =
        some (.str (v.encode a).1, .obj (v.encode a).2) := by
      unfold untag
      simp only [List.filter_cons, beq_self_eq_true, bne_self_eq_false, if_true, hrest, hbody,
        Bool.false_eq_true, if_false]
    show (untag key (.obj ((key, .str (v.encode a).1) :: (v.encode a).2))).bind _ = some a
    rw [huntag]
    exact h.reads htags a
  solid _ h := by cases h
  prints a ha := by
    refine .obj fun p hp => ?_
    rcases List.mem_cons.1 hp with rfl | hp
    · exact .str depth _
    · exact h.prints a ha p hp

end Variants

end TypedSelect
