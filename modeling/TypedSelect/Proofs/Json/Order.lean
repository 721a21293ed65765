/-
Objects with their members in the order of the keys.

Sorting keeps the members of an object with distinct keys, whatever order
they came in, and leaves a sorted list as it is. So an object can be
looked into without saying how it is sorted, and a value that is put
together from sorted objects is its own ordered form.

# Why objects are sorted

A schema is kept with the members of its objects in ascending order of the
keys, and every change to an object puts the member where it belongs. What
is proved about schemas is about looking members up, so the order must not
come into it. `member?_insertMember` and `member?_sortMembers` say that it
does not: after an insertion, and after sorting, a key leads to what it
should.

# Distinct keys

Looking up finds the first member under a key, and sorting lets the last
one win. The two agree when the keys are distinct, so distinct keys are a
hypothesis wherever sorting and looking up meet. What is built from
distinct names has them, and so has everything that was sorted once.
-/
import Mathlib.Data.List.Induction
import Mathlib.Data.String.Basic
import TypedSelect.Proofs.Json.Codec

namespace TypedSelect

namespace Json

variable {key name : String} {value : Json} {members : List (String × Json)}

-- =========================================================== insertion

/-- The new value is found under its key, and the other keys keep theirs. The
members need not be in order for this. -/
theorem member?_insertMember :
    member? name (insertMember key value members) =
      if key = name then some value else member? name members := by
  induction members with
  | nil => rfl
  | cons m members ih =>
      obtain ⟨k, v⟩ := m
      rw [insertMember]
      split
      next => rfl
      next hlt =>
        split
        next heq =>
          rw [member?, member?, heq]
          split <;> rfl
        next hne =>
          rw [member?, member?, ih]
          by_cases hk : k = name
          · rw [if_pos hk, if_neg fun h => hne (h.trans hk.symm), if_pos hk]
          · rw [if_neg hk, if_neg hk]

/-- The members under other keys stay when one is inserted. Only one with the
same key is replaced. -/
theorem mem_insertMember_of_ne {m : String × Json} (h : m ∈ members) (hne : m.1 ≠ key) :
    m ∈ insertMember key value members := by
  induction members with
  | nil => cases h
  | cons m' members ih =>
      obtain ⟨k, v⟩ := m'
      rw [insertMember]
      split
      next => exact List.mem_cons_of_mem _ h
      next =>
        split
        next heq =>
          rcases List.mem_cons.1 h with rfl | h
          · exact absurd heq.symm hne
          · exact List.mem_cons_of_mem _ h
        next =>
          rcases List.mem_cons.1 h with rfl | h
          · exact List.mem_cons_self
          · exact List.mem_cons_of_mem _ (ih h)

/-- After an insertion there is the new member and nothing that was not there
before. -/
theorem mem_of_mem_insertMember {m : String × Json} (h : m ∈ insertMember key value members) :
    m = (key, value) ∨ m ∈ members := by
  induction members with
  | nil => exact .inl (List.mem_singleton.1 h)
  | cons m' members ih =>
      obtain ⟨k, v⟩ := m'
      rw [insertMember] at h
      split at h
      next => exact List.mem_cons.1 h
      next =>
        split at h
        next =>
          rcases List.mem_cons.1 h with h | h
          · exact .inl h
          · exact .inr (List.mem_cons_of_mem _ h)
        next =>
          rcases List.mem_cons.1 h with h | h
          · exact .inr (h ▸ List.mem_cons_self)
          · exact (ih h).imp_right (List.mem_cons_of_mem _)

/-- Keys in strictly ascending order. -/
def Ascending (members : List (String × Json)) : Prop :=
  members.Pairwise fun a b => a.1 < b.1

/-- A member is inserted where its key belongs, so the order stays. The cases
are those of the function: before the head, in its place, or behind it. -/
theorem Ascending.insertMember (h : Ascending members) :
    Ascending (insertMember key value members) := by
  induction members with
  | nil => exact List.pairwise_singleton _ _
  | cons m members ih =>
      obtain ⟨k, v⟩ := m
      obtain ⟨hhead, htail⟩ := List.pairwise_cons.1 h
      rw [Json.insertMember]
      split
      -- it comes first, before the head and so before everything
      next hlt =>
        refine List.pairwise_cons.2 ⟨fun m hm => ?_, h⟩
        rcases List.mem_cons.1 hm with rfl | hm
        · exact hlt
        · exact lt_trans hlt (hhead m hm)
      next hlt =>
        split
        -- it takes the place of the member with its key
        next heq => exact List.pairwise_cons.2 ⟨fun m hm => heq ▸ hhead m hm, htail⟩
        -- it comes later, and the head stays the least
        next hne =>
          refine List.pairwise_cons.2 ⟨fun m hm => ?_, ih htail⟩
          rcases mem_of_mem_insertMember hm with rfl | hm
          · exact lt_of_le_of_ne (not_lt.1 hlt) (Ne.symm hne)
          · exact hhead m hm

/-- A member with a greater key than all others goes to the end. -/
theorem insertMember_of_forall_lt (h : ∀ m ∈ members, m.1 < key) :
    insertMember key value members = members ++ [(key, value)] := by
  induction members with
  | nil => rfl
  | cons m members ih =>
      obtain ⟨k, v⟩ := m
      have hk : k < key := h (k, v) List.mem_cons_self
      rw [insertMember, if_neg (not_lt.2 hk.le), if_neg hk.ne',
        ih fun m hm => h m (List.mem_cons_of_mem _ hm)]
      rfl

-- ============================================================= sorting

/-- The last member is inserted last. -/
theorem sortMembers_concat : sortMembers (members ++ [(key, value)]) =
    insertMember key value (sortMembers members) := by
  unfold sortMembers
  rw [List.foldl_append]
  rfl

theorem ascending_sortMembers (members : List (String × Json)) :
    Ascending (sortMembers members) := by
  induction members using List.reverseRecOn with
  | nil => exact List.Pairwise.nil
  | append_singleton members m ih =>
      rw [sortMembers_concat]
      exact ih.insertMember

/-- What is in ascending order stays as it is: each member is greater than
the ones before it and goes to the end. -/
theorem sortMembers_of_ascending (h : Ascending members) : sortMembers members = members := by
  induction members using List.reverseRecOn with
  | nil => rfl
  | append_singleton members m ih =>
      obtain ⟨hmembers, -, hlast⟩ := List.pairwise_append.1 h
      rw [sortMembers_concat, ih hmembers,
        insertMember_of_forall_lt fun m' hm' => hlast m' hm' m (List.mem_singleton_self m)]

/-- With distinct keys every key keeps its value. Members are inserted one by
one, and none takes the place of another. -/
theorem member?_sortMembers (h : (members.map Prod.fst).Nodup) :
    member? name (sortMembers members) = member? name members := by
  induction members using List.reverseRecOn with
  | nil => rfl
  | append_singleton members m ih =>
      obtain ⟨key, value⟩ := m
      rw [List.map_append] at h
      obtain ⟨hmembers, -, hdisjoint⟩ := List.nodup_append.1 h
      have hkey : key ∉ members.map Prod.fst := fun hmem =>
        hdisjoint key hmem key (List.mem_singleton_self key) rfl
      rw [sortMembers_concat, member?_insertMember, ih hmembers]
      by_cases hname : key = name
      · rw [if_pos hname, member?_append_right _ (hname ▸ hkey)]
        exact (if_pos hname).symm
      · have hother : name ∉ [(key, value)].map Prod.fst := fun hmem =>
          hname (List.mem_singleton.1 hmem).symm
        rw [if_neg hname, member?_append_left _ hother]

/-- A value that is found is the value of a member. The converse needs keys
that are different. -/
theorem mem_of_member? (h : member? name members = some value) : (name, value) ∈ members := by
  induction members with
  | nil => cases h
  | cons m members ih =>
      obtain ⟨k, v⟩ := m
      rw [member?] at h
      split at h
      next hk =>
        cases h
        exact hk ▸ List.mem_cons_self
      next => exact List.mem_cons_of_mem _ (ih h)

/-- With distinct keys every member is found. Otherwise the first one under
the key is found, and hides the others. -/
theorem member?_of_mem (hnodup : (members.map Prod.fst).Nodup) (h : (name, value) ∈ members) :
    member? name members = some value := by
  induction members with
  | nil => cases h
  | cons m members ih =>
      obtain ⟨k, v⟩ := m
      rw [List.map_cons, List.nodup_cons] at hnodup
      rw [member?]
      rcases List.mem_cons.1 h with heq | h
      · cases heq
        exact if_pos rfl
      · have hmem : name ∈ members.map Prod.fst := List.mem_map.2 ⟨(name, value), h, rfl⟩
        have hk : k ≠ name := fun hk => hnodup.1 (hk ▸ hmem)
        rw [if_neg hk, ih hnodup.2 h]

/-- Nothing is found under a key that no member has, and only then. -/
theorem member?_eq_none_iff : member? name members = none ↔ name ∉ members.map Prod.fst := by
  refine ⟨fun h hname => ?_, member?_eq_none⟩
  induction members with
  | nil => cases hname
  | cons m members ih =>
      rw [member?] at h
      split at h
      next => cases h
      next hne =>
        rcases List.mem_cons.1 hname with heq | hname
        · exact hne heq.symm
        · exact ih h hname

/-- Taking away members under other keys does not hide this one. -/
theorem member?_filter {p : String → Bool} (h : p name = true) :
    member? name (members.filter fun m => p m.1) = member? name members := by
  induction members with
  | nil => rfl
  | cons m members ih =>
      obtain ⟨k, v⟩ := m
      rw [List.filter_cons]
      split
      next => rw [member?, member?, ih]
      next hkey => rw [ih, member?, if_neg fun heq : k = name => hkey (heq ▸ h)]

/-- With distinct keys the order of the members does not matter. By induction
on the permutation, where only the swap of two members needs their keys. -/
theorem member?_perm {members' : List (String × Json)}
    (h : members.Perm members') (hdistinct : (members.map Prod.fst).Nodup) :
    member? name members = member? name members' := by
  induction h with
  | nil => rfl
  | cons m _ ih =>
      obtain ⟨key, value⟩ := m
      rw [member?, member?, ih (List.nodup_cons.1 hdistinct).2]
  | swap m m' rest =>
      obtain ⟨key, value⟩ := m
      obtain ⟨key', value'⟩ := m'
      have hne : key' ≠ key := fun heq => (List.nodup_cons.1 hdistinct).1 (heq ▸ List.mem_cons_self)
      simp only [member?]
      split
      next h => rw [if_neg (h ▸ hne.symm)]
      next => rfl
  | trans h₁ _ ih ih' =>
      rw [ih hdistinct, ih' ((h₁.map Prod.fst).nodup_iff.1 hdistinct)]

theorem Ascending.nodup (h : Ascending members) : (members.map Prod.fst).Nodup :=
  List.pairwise_map.2 (h.imp fun hlt => hlt.ne)

/-- With distinct keys the sorted members are the members. Without that the
last of those under one key would be left. -/
theorem mem_sortMembers (h : (members.map Prod.fst).Nodup) {m : String × Json} :
    m ∈ sortMembers members ↔ m ∈ members := by
  have hsorted := (ascending_sortMembers members).nodup
  obtain ⟨key, value⟩ := m
  constructor
  · intro hm
    have hfound := member?_of_mem hsorted hm
    rw [member?_sortMembers h] at hfound
    exact mem_of_member? hfound
  · intro hm
    have hfound := member?_of_mem h hm
    rw [← member?_sortMembers h] at hfound
    exact mem_of_member? hfound

-- ======================================================= ordered values

/-- The items of a list are ordered one by one. -/
theorem orderedItems_eq (items : List Json) : orderedItems items = items.map ordered := by
  induction items with
  | nil => rfl
  | cons item items ih => rw [orderedItems, ih, List.map_cons]

/-- The values of the members are ordered one by one, under their keys. -/
theorem orderedMembers_eq (members : List (String × Json)) :
    orderedMembers members = members.map fun m => (m.1, m.2.ordered) := by
  induction members with
  | nil => rfl
  | cons m members ih =>
      obtain ⟨k, v⟩ := m
      rw [orderedMembers, ih, List.map_cons]

theorem ordered_arr {items : List Json} (h : ∀ item ∈ items, item.ordered = item) :
    (arr items).ordered = arr items := by
  rw [ordered, orderedItems_eq, List.map_congr_left h, List.map_id']

/-- Objects put together in order from ordered values are ordered. -/
theorem ordered_object (hnodup : (members.map Prod.fst).Nodup)
    (h : ∀ m ∈ members, m.2.ordered = m.2) : (object members).ordered = object members := by
  have hvalues : orderedMembers (sortMembers members) = sortMembers members := by
    rw [orderedMembers_eq]
    refine (List.map_congr_left fun m hm => ?_).trans (List.map_id' _)
    rw [h m ((mem_sortMembers hnodup).1 hm)]
  unfold object
  rw [ordered, hvalues, sortMembers_of_ascending (ascending_sortMembers members)]

end Json

end TypedSelect
