/-
Codecs that follow a grammar.

A codec follows a grammar when what it reads is written again up to
rewriting, and when one more member is read only where the grammar has
room for it. Each way to build a codec follows the grammar that is built
the same way, so nothing is to be said about an entity but what its
grammar is.

# Two directions

The grammar bounds the codec from both sides. `rewrites` says that
reading loses nothing: from what was read to what is written there are
only the steps that the grammar has rules for. `fills` says that reading
overlooks nothing: take a value that is read, put one member more into
any object in it, and if that is read too, the member is one that the
record has and that was missing. A codec that skipped unknown members
would have the first but not the second.

# Slots

A record is read in two steps. An object or a list is spread over slots,
one for each name, and the members then read their slots. The first step
knows about keys, their order and their repetition; the second knows only
positions. `Members.Follows` is about the second, and the lemmas about
records put the first before it: an insertion into a value of the object
is an insertion into its slot, and an insertion of a key is a new slot
filled or no reading at all.

# Tags

A tagged value is read by taking the tag off. An insertion may meet the
tag itself, the key of the tag, or the rest. There is no object in a tag,
a second tag is refused, and the rest is a record, so only the last can
be read.
-/
import Mathlib.Data.List.Nodup
import TypedSelect.Proofs.Json.Codec
import TypedSelect.Proofs.Json.Grammar

namespace TypedSelect

-- ============================================================= the law

open Json (Inserts member?)
open Grammar (RewritesFields RewritesItems)

variable {α β : Type}

/-- What is read is written again as it was, up to rewriting, and one more
member is read only where the grammar has room for it. -/
structure Codec.Follows (c : Codec α) (g : Grammar) : Prop where
  rewrites : ∀ {place j a}, c.decodeAt place j = some a → g.Rewrites true place j (c.encode a)
  fills : ∀ {place key j j' a a'}, c.decodeAt place j = some a → Inserts key j j' →
    c.decodeAt place j' = some a' → g.Fills key j j'

/-- The same of some members, slot by slot. -/
structure Members.Follows (m : Members α) (fields : List Field) : Prop where
  names : m.names = fields.map Prod.fst
  width : ∀ {place slots a}, m.decodeAt place slots = some a → slots.length = fields.length
  rewrites : ∀ {place slots a}, m.decodeAt place slots = some a →
    RewritesFields true fields place slots (m.encode a)
  fills : ∀ {place key slots a a' j j'} {i : Nat}, m.decodeAt place slots = some a →
    slots[i]? = some (some j) → Inserts key j j' →
    m.decodeAt place (slots.set i (some j')) = some a' →
    ∃ name presence g, fields[i]? = some (name, presence, g) ∧ g.Fills key j j'

/-- The same of the records under the tags of a choice. -/
structure Variants.Follows (v : Variants α) (cases : List (String × List Field)) : Prop where
  tags : v.tags = cases.map Prod.fst
  rewrites : ∀ {tag j a}, v.decode tag j = some a → ∃ fields slots, (tag, fields) ∈ cases ∧
    Spells (fields.map Prod.fst) j slots ∧ (v.encode a).1 = tag ∧
    RewritesFields true fields .inside slots (v.encode a).2
  fills : ∀ {tag key j j' a a'}, v.decode tag j = some a → Inserts key j j' →
    v.decode tag j' = some a' → ∃ fields, (tag, fields) ∈ cases ∧
    (Grammar.record fields).Fills key j j'

-- ============================================================ scalars

namespace Codec

/-- A text is written as it was read, and has no room for a member. The
second half holds for every value that is neither a list nor an object. -/
theorem follows_text : text.Follows .text where
  rewrites {_ j _} h := by
    cases j with
    | str s =>
        cases h
        exact .text _
    | _ => cases h
  fills {_ _ j _ _ _} h hins _ := by
    cases j with
    | str s => exact absurd hins Json.not_inserts_str
    | _ => cases h

theorem follows_boolean : boolean.Follows .truth where
  rewrites {_ j _} h := by
    cases j with
    | bool b =>
        cases h
        exact .truth _
    | _ => cases h
  fills {_ _ j _ _ _} h hins _ := by
    cases j with
    | bool b => cases hins
    | _ => cases h

/-- What is taken for a number below a limit is a whole number below it. The
reader refuses negative numbers and fractions. -/
theorem natBelow_eq_some {limit n : Nat} {j : Json} (h : natBelow limit j = some n) :
    j = .int n ∧ n < limit := by
  cases j with
  | int i =>
      unfold natBelow at h
      dsimp only at h
      split at h
      next hi =>
        cases h
        rw [Int.toNat_of_nonneg hi.1]
        exact ⟨rfl, by omega⟩
      next => cases h
  | _ => cases h

/-- A whole number below a limit is written as it was read, whatever the
limit is. A number beyond it is not read. -/
theorem follows_whole {c : Codec α} {limit : Nat} {make : Nat → α} {view : α → Nat}
    (hdecode : ∀ place j, c.decodeAt place j = (natBelow limit j).map make)
    (hencode : ∀ a, c.encode a = .int (view a)) (hview : ∀ n < limit, view (make n) = n) :
    c.Follows .whole where
  rewrites h := by
    rw [hdecode] at h
    obtain ⟨n, hn, rfl⟩ := Option.map_eq_some_iff.1 h
    obtain ⟨rfl, hlt⟩ := natBelow_eq_some hn
    rw [hencode, hview n hlt]
    exact .whole n
  fills h hins _ := by
    rw [hdecode] at h
    obtain ⟨n, hn, rfl⟩ := Option.map_eq_some_iff.1 h
    rw [(natBelow_eq_some hn).1] at hins
    exact absurd hins Json.not_inserts_int

/-- A number of 32 bits follows the grammar of whole numbers. -/
theorem follows_word32 : word32.Follows .whole :=
  follows_whole (fun _ _ => rfl) (fun _ => rfl) fun _ hlt => UInt32.toNat_ofNat_of_lt' hlt

theorem follows_word64 : word64.Follows .whole :=
  follows_whole (fun _ _ => rfl) (fun _ => rfl) fun _ hlt => UInt64.toNat_ofNat_of_lt' hlt

/-- A floating point number is written as it was read, and a whole number as
the floating point number that it was turned into. -/
theorem follows_double : double.Follows .fraction where
  rewrites {_ j _} h := by
    cases j with
    | float x =>
        cases h
        exact .fraction _
    | int i =>
        cases h
        exact .wholeFraction i
    | _ => cases h
  fills {_ _ j _ _ _} h hins _ := by
    cases j with
    | float x => cases hins
    | int i => cases hins
    | _ => cases h

/-- What answers to a name has this name, and the name is in the vocabulary. -/
theorem symbolNamed?_eq_some [Vocabulary α] {s : String} {a : α} (h : symbolNamed? s = some a) :
    Vocabulary.name a = s ∧ s ∈ Vocabulary.names α := by
  unfold symbolNamed? at h
  have htrue := List.find?_some h
  have hname : Vocabulary.name a = s := eq_of_beq htrue
  exact ⟨hname, hname ▸ List.mem_map_of_mem (List.mem_of_find?_eq_some h)⟩

/-- Nothing with a name in it stands for nothing. -/
theorem isVoid_eq_true {place : Place} {j : Json} (h : isVoid place j = true) :
    j = .null ∨ place = .inside ∧ j = .obj [] := by
  cases j with
  | null => exact .inl rfl
  | obj members =>
      rcases members with _ | ⟨m, rest⟩
      · cases place with
        | outside => exact absurd h Bool.false_ne_true
        | inside => exact .inr ⟨rfl, rfl⟩
      · cases place <;> exact absurd h Bool.false_ne_true
  | _ => cases place <;> exact absurd h Bool.false_ne_true

/-- A symbol was read from its name or from an object with its name as the
only key, and under the key there was nothing. -/
theorem symbol_eq_some [Vocabulary α] {place : Place} {j : Json} {a : α}
    (h : symbol.decodeAt place j = some a) : Vocabulary.name a ∈ Vocabulary.names α ∧
      (j = .str (Vocabulary.name a) ∨
        ∃ void, isVoid place void = true ∧ j = .obj [(Vocabulary.name a, void)]) := by
  cases j with
  | str s =>
      obtain ⟨rfl, hmem⟩ := symbolNamed?_eq_some h
      exact ⟨hmem, .inl rfl⟩
  | obj members =>
      rcases members with _ | ⟨⟨s, void⟩, _ | ⟨m, rest⟩⟩
      · cases h
      · change (if isVoid place void = true then symbolNamed? s else none) = some a at h
        split at h
        next hvoid =>
          obtain ⟨rfl, hmem⟩ := symbolNamed?_eq_some h
          exact ⟨hmem, .inr ⟨void, hvoid, rfl⟩⟩
        next => cases h
      · cases h
  | _ => cases h

/-- What stands for nothing does not when it gets a member. -/
theorem isVoid_of_inserts {place : Place} {key : String} {j j' : Json}
    (h : isVoid place j = true) (hins : Inserts key j j') : isVoid place j' = false := by
  rcases isVoid_eq_true h with rfl | ⟨rfl, rfl⟩
  · cases hins
  · rcases Json.inserts_obj hins with ⟨before, after, value, hmembers, rfl⟩ |
      ⟨before, after, name, a, b, hmembers, -, -⟩
    · obtain ⟨rfl, rfl⟩ := List.append_eq_nil_iff.1 hmembers.symm
      rfl
    · exact absurd (congrArg List.length hmembers) (by simp)

/-- A name over nothing has no room for a member, beside it or below. A
second member makes the object no spelling of a name, and a member below
makes what stands there something. -/
theorem symbol_ne_inserts [Vocabulary α] {place : Place} {key : String} {j j' : Json} {a a' : α}
    (h : symbol.decodeAt place j = some a) (hins : Inserts key j j') :
    symbol.decodeAt place j' ≠ some a' := by
  intro h'
  obtain ⟨-, rfl | ⟨void, hvoid, rfl⟩⟩ := symbol_eq_some h
  · exact Json.not_inserts_str hins
  obtain ⟨-, rfl | ⟨void', hvoid', rfl⟩⟩ := symbol_eq_some h'
  · rcases Json.inserts_obj hins with ⟨_, _, _, _, h⟩ | ⟨_, _, _, _, _, _, h, _⟩ <;> cases h
  rcases Json.inserts_obj hins with ⟨before, after, value, hmembers, h⟩ |
    ⟨before, after, name, b, b', hmembers, h, hinner⟩
  · -- one member before, two after
    have hone := congrArg List.length hmembers
    have htwo := congrArg List.length (Json.obj.inj h)
    simp only [List.length_append, List.length_cons, List.length_nil] at hone htwo
    omega
  · rcases before with _ | ⟨m, before⟩
    · rw [List.nil_append] at hmembers h
      have hb : void = b := (Prod.mk.inj (List.cons.inj hmembers).1).2
      have hb' : void' = b' := (Prod.mk.inj (List.cons.inj (Json.obj.inj h)).1).2
      rw [hb', isVoid_of_inserts (hb ▸ hvoid) hinner] at hvoid'
      cases hvoid'
    · have hone := congrArg List.length hmembers
      simp only [List.cons_append, List.length_append, List.length_cons, List.length_nil] at hone
      omega

/-- A symbol is written by its name, however it was read, and none of its
spellings has room for a member. -/
theorem follows_symbol [Vocabulary α] :
    (symbol : Codec α).Follows (.symbol (Vocabulary.names α)) where
  rewrites h := by
    obtain ⟨hmem, rfl | ⟨void, hvoid, rfl⟩⟩ := symbol_eq_some h
    · exact .name hmem
    · rcases isVoid_eq_true hvoid with rfl | ⟨rfl, rfl⟩
      · exact .nameOfNull hmem
      · exact .nameOfEmpty rfl hmem
  fills h hins h' := absurd h' (symbol_ne_inserts h hins)

theorem mapM_append_cons_eq_some {f : Json → Option α} {before after : List Json} {j : Json}
    {values : List α} (h : (before ++ j :: after).mapM f = some values) : ∃ a, f j = some a := by
  rw [List.mapM_append, List.mapM_cons] at h
  obtain ⟨_, -, h⟩ := Option.bind_eq_some_iff.1 h
  obtain ⟨_, h, -⟩ := Option.bind_eq_some_iff.1 h
  obtain ⟨a, ha, -⟩ := Option.bind_eq_some_iff.1 h
  exact ⟨a, ha⟩

/-- Each item follows the grammar of the items. A member that is put into a
list goes into one of them. -/
theorem Follows.list {c : Codec α} {g : Grammar} (h : c.Follows g) :
    (list c).Follows (.list g) where
  rewrites {place j values} hread := by
    cases j with
    | arr items =>
        refine .list ?_
        change items.mapM (c.decodeAt place) = some values at hread
        -- reading a list is reading its items, so the induction is on the list that was
        -- read
        induction items generalizing values with
        | nil =>
            cases hread
            exact .nil
        | cons item items ih =>
            rw [List.mapM_cons] at hread
            obtain ⟨a, ha, hread⟩ := Option.bind_eq_some_iff.1 hread
            obtain ⟨rest, hrest, hread⟩ := Option.bind_eq_some_iff.1 hread
            cases hread
            exact .cons (h.rewrites ha) (ih hrest)
    | _ => cases hread
  fills {place _ j j' values values'} hread hins hread' := by
    cases j with
    | arr items =>
        obtain ⟨before, after, a, b, rfl, rfl, hinner⟩ := Json.inserts_arr hins
        obtain ⟨x, hx⟩ := mapM_append_cons_eq_some hread
        obtain ⟨y, hy⟩ := mapM_append_cons_eq_some hread'
        exact .item before after (h.fills hx hinner hy)
    | _ => cases hread

end Codec

-- ============================================================ members

namespace Members

/-- One member is its one slot. What a kind of member has to say is how the
slot is rewritten and how its value is filled. -/
theorem follows_one {m : Members α} {name : String} {presence : Presence} {g : Grammar}
    (hnames : m.names = [name])
    (hwidth : ∀ {place slots a}, m.decodeAt place slots = some a → ∃ slot, slots = [slot])
    (hrewrites : ∀ {place slot a}, m.decodeAt place [slot] = some a →
      RewritesFields true [(name, presence, g)] place [slot] (m.encode a))
    (hfills : ∀ {place key j j' a a'}, m.decodeAt place [some j] = some a → Inserts key j j' →
      m.decodeAt place [some j'] = some a' → g.Fills key j j') :
    m.Follows [(name, presence, g)] where
  names := hnames
  width h := by
    obtain ⟨slot, rfl⟩ := hwidth h
    rfl
  rewrites h := by
    obtain ⟨slot, rfl⟩ := hwidth h
    exact hrewrites h
  fills {_ _ _ _ _ _ _ i} h hslot hins h' := by
    obtain ⟨slot, rfl⟩ := hwidth h
    cases i with
    | zero =>
        cases hslot
        exact ⟨name, presence, g, rfl, hfills h hins h'⟩
    | succ i => cases hslot

/-- A member that must be there is rewritten in its slot. -/
theorem follows_required {c : Codec α} {g : Grammar} (h : c.Follows g) (name : String) :
    (required name c).Follows [(name, .required, g)] := by
  refine follows_one rfl ?_ ?_ ?_
  · intro _ slots _ hread
    rcases slots with _ | ⟨_ | j, _ | ⟨s, slots⟩⟩ <;> first | cases hread | exact ⟨_, rfl⟩
  · intro _ slot _ hread
    cases slot with
    | none => cases hread
    | some j => exact .kept trivial (h.rewrites hread) .nil
  · intro _ _ _ _ _ _ hread hins hread'
    exact h.fills hread hins hread'

/-- A member that may be missing and is there is null, and read as none, or
it is a value. -/
theorem optional_eq_some {c : Codec α} {name : String} {place : Place} {j : Json} {o : Option α}
    (h : (optional name c).decodeAt place [some j] = some o) :
    j = .null ∧ o = none ∨ j ≠ .null ∧ ∃ a, c.decodeAt place j = some a ∧ o = some a := by
  by_cases hnull : j = .null
  · subst hnull
    cases h
    exact .inl ⟨rfl, rfl⟩
  · have hread : (c.decodeAt place j).map some = some o := by
      cases j with
      | null => exact absurd rfl hnull
      | _ => exact h
    obtain ⟨a, ha, rfl⟩ := Option.map_eq_some_iff.1 hread
    exact .inr ⟨hnull, a, ha, rfl⟩

/-- A member that may be missing is left out if it was null or not there.
Otherwise it is kept and what stands in it follows its own grammar. -/
theorem follows_optional {c : Codec α} {g : Grammar} (h : c.Follows g) (name : String) :
    (optional name c).Follows [(name, .optional, g)] := by
  refine follows_one rfl ?_ ?_ ?_
  · intro _ slots _ hread
    rcases slots with _ | ⟨_ | j, _ | ⟨s, slots⟩⟩ <;>
      first | exact ⟨_, rfl⟩ | simp [optional] at hread
  · intro _ slot _ hread
    cases slot with
    | none =>
        cases hread
        exact .missing (.inl rfl) .nil
    | some j =>
        rcases optional_eq_some hread with ⟨rfl, rfl⟩ | ⟨hnull, a, ha, rfl⟩
        -- `null` is read as nothing, like a field that is not there
        · exact .null .nil
        · exact .kept hnull (h.rewrites ha) .nil
  · intro _ _ _ _ _ _ hread hins hread'
    rcases optional_eq_some hread with ⟨rfl, rfl⟩ | ⟨-, a, ha, rfl⟩
    · cases hins
    · rcases optional_eq_some hread' with ⟨rfl, rfl⟩ | ⟨-, b, hb, rfl⟩
      · cases hins
      · exact h.fills ha hins hb

/-- A member with a default that was not there is written with the default,
so the text that is written says more than the one that was read. -/
theorem follows_defaulted {c : Codec α} {g : Grammar} (h : c.Follows g) (name : String)
    (default : α) :
    (defaulted name c default).Follows [(name, .defaulted (c.encode default), g)] := by
  refine follows_one rfl ?_ ?_ ?_
  · intro _ slots _ hread
    rcases slots with _ | ⟨_ | j, _ | ⟨s, slots⟩⟩ <;> first | exact ⟨_, rfl⟩ | cases hread
  · intro _ slot _ hread
    cases slot with
    | none =>
        cases hread
        exact .default .nil
    | some j => exact .kept trivial (h.rewrites hread) .nil
  · intro _ _ _ _ _ _ hread hins hread'
    exact h.fills hread hins hread'

/-- A list that may be missing is left out if it was empty or not there. Null
in its place is no list and is not read. -/
theorem follows_listed {c : Codec α} {g : Grammar} (h : c.Follows g) (name : String) :
    (listed name c).Follows [(name, .listed, .list g)] := by
  refine follows_one rfl ?_ ?_ ?_
  · intro _ slots _ hread
    rcases slots with _ | ⟨_ | j, _ | ⟨s, slots⟩⟩ <;> first | exact ⟨_, rfl⟩ | cases hread
  · intro _ slot values hread
    cases slot with
    | none =>
        cases hread
        exact .missing (.inr (.inl rfl)) .nil
    | some j =>
        have hlist := h.list.rewrites hread
        -- an empty list is not written, and a list that has items is
        cases values with
        | nil =>
            cases hlist with
            | list each =>
                cases each
                exact .empty .nil
        | cons a values =>
            refine .kept ?_ hlist .nil
            rintro rfl
            cases hread
  · intro _ _ _ _ _ _ hread hins hread'
    exact h.list.fills hread hins hread'

/-- A mark is left out if it was false or not there, and otherwise it is true
and stays. -/
theorem follows_marked (name : String) : (marked name).Follows [(name, .marked, .truth)] := by
  refine follows_one rfl ?_ ?_ ?_
  · intro _ slots _ hread
    rcases slots with _ | ⟨_ | j, _ | ⟨s, slots⟩⟩ <;> first | exact ⟨_, rfl⟩ | cases hread
  · intro _ slot on hread
    cases slot with
    | none =>
        cases hread
        exact .missing (.inr (.inr rfl)) .nil
    | some j =>
        have htruth := Codec.follows_boolean.rewrites hread
        cases htruth with
        | truth =>
            cases on with
            | false => exact .off .nil
            | true => exact .kept (by simp [Presence.Keeps]) (.truth true) .nil
  · intro _ _ _ _ _ _ hread hins hread'
    exact Codec.follows_boolean.fills hread hins hread'

/-- The slots of two parts are those of the one and then those of the other,
both in what is read and in what is written. By induction on how the slots of
the first part are rewritten. -/
theorem rewritesFields_append {lenient : Bool} {place : Place} {fields fields' : List Field}
    {slots slots' : List (Option Json)} {members members' : List (String × Json)}
    (h : RewritesFields lenient fields place slots members)
    (h' : RewritesFields lenient fields' place slots' members') :
    RewritesFields lenient (fields ++ fields') place (slots ++ slots') (members ++ members') := by
  induction fields generalizing slots members with
  | nil =>
      cases h
      exact h'
  | cons field fields ih =>
      cases h with
      | kept keeps this rest => exact .kept keeps this (ih rest)
      | null rest => exact .null (ih rest)
      | empty rest => exact .empty (ih rest)
      | off rest => exact .off (ih rest)
      | default rest => exact .default (ih rest)
      | missing may rest => exact .missing may (ih rest)

/-- Two parts are read from the slots of the one and the slots of the other. -/
theorem and_eq_some {m : Members α} {n : Members β} {place : Place} {slots : List (Option Json)}
    {p : α × β} (h : (m.and n).decodeAt place slots = some p) :
    m.decodeAt place (slots.take m.names.length) = some p.1 ∧
      n.decodeAt place (slots.drop m.names.length) = some p.2 := by
  obtain ⟨a, ha, h⟩ := Option.bind_eq_some_iff.1 h
  obtain ⟨b, hb, h⟩ := Option.bind_eq_some_iff.1 h
  cases h
  exact ⟨ha, hb⟩

/-- Two parts follow the fields of both. A slot belongs to the one part or to
the other, by its position. -/
theorem Follows.and {m : Members α} {n : Members β} {fields fields' : List Field}
    (hm : m.Follows fields) (hn : n.Follows fields') :
    (m.and n).Follows (fields ++ fields') where
  names := by
    show m.names ++ n.names = _
    rw [hm.names, hn.names, List.map_append]
  width {_ slots _} h := by
    obtain ⟨ha, hb⟩ := and_eq_some h
    rw [List.length_append, ← hm.width ha, ← hn.width hb, ← List.length_append,
      List.take_append_drop]
  rewrites {_ slots _} h := by
    obtain ⟨ha, hb⟩ := and_eq_some h
    have hparts := rewritesFields_append (hm.rewrites ha) (hn.rewrites hb)
    rwa [List.take_append_drop] at hparts
  fills {place key slots p p' j j' i} h hslot hins h' := by
    obtain ⟨ha, hb⟩ := and_eq_some h
    obtain ⟨ha', hb'⟩ := and_eq_some h'
    have hlength : m.names.length = fields.length := by rw [hm.names, List.length_map]
    -- the slot of the value decides which part reads it
    by_cases hi : i < m.names.length
    · rw [List.take_set] at ha'
      have hleft : (slots.take m.names.length)[i]? = some (some j) := by
        rw [List.getElem?_take_of_lt hi]
        exact hslot
      rw [List.getElem?_append_left (hlength ▸ hi)]
      exact hm.fills ha hleft hins ha'
    · rw [List.drop_set, if_neg hi] at hb'
      have hright : (slots.drop m.names.length)[i - m.names.length]? = some (some j) := by
        rw [List.getElem?_drop, Nat.add_sub_cancel' (Nat.le_of_not_lt hi)]
        exact hslot
      rw [List.getElem?_append_right (hlength ▸ Nat.le_of_not_lt hi), ← hlength]
      exact hn.fills hb hright hins hb'

/-- Members seen as another type follow the same fields. What is written for
the new type is what is written for the old one. -/
theorem Follows.iso {m : Members α} {fields : List Field} (h : m.Follows fields) {make : α → β}
    {view : β → α} (hview : ∀ a, view (make a) = a) : (m.iso make view).Follows fields where
  names := h.names
  width hread := by
    obtain ⟨a, ha, -⟩ := Option.map_eq_some_iff.1 hread
    exact h.width ha
  rewrites hread := by
    obtain ⟨a, ha, rfl⟩ := Option.map_eq_some_iff.1 hread
    show RewritesFields true fields _ _ (m.encode (view (make a)))
    rw [hview]
    exact h.rewrites ha
  fills hread hslot hins hread' := by
    obtain ⟨a, ha, -⟩ := Option.map_eq_some_iff.1 hread
    obtain ⟨a', ha', -⟩ := Option.map_eq_some_iff.1 hread'
    exact h.fills ha hslot hins ha'

-- ============================================================ records

theorem nodup_of_keysDistinct {members : List (String × Json)}
    (h : Codec.keysDistinct members = true) : (members.map Prod.fst).Nodup := by
  induction members with
  | nil => exact List.nodup_nil
  | cons m members ih =>
      obtain ⟨key, value⟩ := m
      rw [Codec.keysDistinct, Bool.and_eq_true, Bool.not_eq_true', List.any_eq_false] at h
      rw [List.map_cons, List.nodup_cons]
      refine ⟨fun hmem => ?_, ih h.2⟩
      obtain ⟨p, hp, heq⟩ := List.mem_map.1 hmem
      exact h.1 p hp (beq_iff_eq.2 heq)

/-- Slots come from an object with known, different keys or from a list that
is not too long, and from nothing else. -/
theorem spells_of_slots {names : List String} {j : Json} {slots : List (Option Json)}
    (h : Codec.slots names j = some slots) : Spells names j slots := by
  cases j with
  | obj members =>
      unfold Codec.slots at h
      dsimp only at h
      split at h
      next hobj =>
        cases h
        rw [Bool.and_eq_true, List.all_eq_true] at hobj
        exact .object (nodup_of_keysDistinct hobj.2)
          fun m hm => List.contains_iff_mem.1 (hobj.1 m hm)
      next => cases h
  | arr items =>
      unfold Codec.slots at h
      dsimp only at h
      split at h
      next hshort =>
        cases h
        exact .positions hshort
      next => cases h
  | _ => cases h

/-- A record is read by its members from the slots that it spells. -/
theorem readAt_eq_some {m : Members α} {place : Place} {j : Json} {a : α}
    (h : m.readAt place j = some a) :
    ∃ slots, Spells m.names j slots ∧ m.decodeAt place slots = some a := by
  obtain ⟨slots, hslots, ha⟩ := Option.bind_eq_some_iff.1 h
  exact ⟨slots, spells_of_slots hslots, ha⟩

/-- The first member under a key, if the ones before it have other keys. -/
theorem member?_middle {name : String} {before : List (String × Json)}
    (after : List (String × Json)) (j : Json) (h : name ∉ before.map Prod.fst) :
    member? name (before ++ (name, j) :: after) = some j := by
  rw [Json.member?_append_right _ h]
  exact if_pos rfl

/-- The value of one member is nothing to the others. -/
theorem member?_middle_ne {name other : String} (before after : List (String × Json))
    (j j' : Json) (h : other ≠ name) :
    member? other (before ++ (name, j) :: after) =
      member? other (before ++ (name, j') :: after) := by
  induction before with
  | nil =>
      show member? other ((name, j) :: after) = member? other ((name, j') :: after)
      rw [member?, member?, if_neg h.symm, if_neg h.symm]
  | cons m before ih =>
      obtain ⟨key, value⟩ := m
      rw [List.cons_append, List.cons_append, member?, member?, ih]

/-- No member before another one has its name. -/
theorem notMem_before_of_nodup {name : String} {before after : List (String × Json)} {j : Json}
    (h : ((before ++ (name, j) :: after).map Prod.fst).Nodup) : name ∉ before.map Prod.fst := by
  rw [List.map_append, List.map_cons, List.nodup_middle, List.nodup_cons, List.mem_append,
    not_or] at h
  exact h.1.1

/-- Another value for one member is another value for its slot. The slots are
found by name, so this needs names that are different. -/
theorem map_member?_middle {names : List String} (hnames : names.Nodup) {i : Nat} {name : String}
    (hi : names[i]? = some name) {before : List (String × Json)} (after : List (String × Json))
    (j : Json) {j' : Json} (hbefore : name ∉ before.map Prod.fst) :
    (names.map fun n => member? n (before ++ (name, j') :: after)) =
      (names.map fun n => member? n (before ++ (name, j) :: after)).set i (some j') := by
  obtain ⟨hlt, hget⟩ := List.getElem?_eq_some_iff.1 hi
  refine List.ext_getElem (by simp) fun k hk hk' => ?_
  rw [List.getElem_set, List.getElem_map]
  rw [List.length_map] at hk
  by_cases hik : i = k
  · subst hik
    rw [if_pos rfl, hget, member?_middle after j' hbefore]
  · have hne : names[k] ≠ name := by
      rw [← hget]
      exact fun h => hik ((List.Nodup.getElem_inj_iff hnames).1 h).symm
    rw [if_neg hik, List.getElem_map, member?_middle_ne before after j' j hne]

/-- Another item is another value for its slot. -/
theorem positions_middle {count : Nat} (before after : List Json) (j j' : Json) :
    (before ++ j' :: after).map some ++
        List.replicate (count - (before ++ j' :: after).length) none =
      ((before ++ j :: after).map some ++
        List.replicate (count - (before ++ j :: after).length) none).set before.length
          (some j') := by
  simp

/-- A record has room for the members that were left out. A new key stands
under a name that was missing; a member inside a value stands in the slot of
this value, and a member inside a position in the slot of the position. -/
theorem Follows.readAt_fills {m : Members α} {fields : List Field} (h : m.Follows fields)
    (hnodup : m.names.Nodup) {place : Place} {key : String} {j j' : Json} {a a' : α}
    (hread : m.readAt place j = some a) (hins : Inserts key j j')
    (hread' : m.readAt place j' = some a') : (Grammar.record fields).Fills key j j' := by
  obtain ⟨slots, hspells, ha⟩ := readAt_eq_some hread
  obtain ⟨slots', hspells', ha'⟩ := readAt_eq_some hread'
  cases hspells with
  | @object members distinct known =>
      rcases Json.inserts_obj hins with ⟨before, after, value, rfl, rfl⟩ |
        ⟨before, after, name, b, b', rfl, rfl, hinner⟩
      · -- a new key: it was in neither half of the members
        cases hspells' with
        | object distinct' known' =>
            have hkey : key ∈ m.names := known' (key, value) (by simp)
            rw [List.map_append, List.map_cons, List.nodup_middle, ← List.map_append,
              List.nodup_cons] at distinct'
            exact .here before after value (h.names ▸ hkey) distinct'.1
      · cases hspells' with
        | object distinct' known' =>
            have hname : name ∈ m.names := known (name, b) (by simp)
            obtain ⟨i, hi⟩ := List.getElem?_of_mem hname
            have hbefore := notMem_before_of_nodup distinct
            have hslot : (m.names.map fun n => member? n (before ++ (name, b) :: after))[i]? =
                some (some b) := by
              rw [List.getElem?_map, hi, Option.map_some, member?_middle after b hbefore]
            rw [map_member?_middle hnodup hi after b hbefore] at ha'
            obtain ⟨name', presence, g, hfield, hfills⟩ := h.fills ha hslot hinner ha'
            have hsame : name = name' := by
              rw [h.names, List.getElem?_map, hfield] at hi
              exact (Option.some.inj hi).symm
            exact .value before after (hsame ▸ List.mem_of_getElem? hfield) hfills
  -- A list has no keys, so the member is inside one of its items.
  | @positions items short =>
      obtain ⟨before, after, b, b', rfl, rfl, hinner⟩ := Json.inserts_arr hins
      cases hspells' with
      | positions short' =>
          have hslot : ((before ++ b :: after).map some ++ List.replicate
              (m.names.length - (before ++ b :: after).length) none)[before.length]? =
              some (some b) := by simp
          rw [positions_middle before after b b'] at ha'
          obtain ⟨name, presence, g, hfield, hfills⟩ := h.fills ha hslot hinner ha'
          exact .position before after hfield hfills

/-- Members with different names make a record that follows the record of
their fields. -/
theorem Follows.record {m : Members α} {fields : List Field} (h : m.Follows fields)
    (hnodup : m.names.Nodup) : m.record.Follows (.record fields) where
  rewrites hread := by
    obtain ⟨slots, hspells, ha⟩ := readAt_eq_some hread
    exact .record (h.names ▸ hspells) (h.rewrites ha)
  fills := h.readAt_fills hnodup

end Members

-- ============================================================ choices

namespace Variants

/-- A choice of one record follows its one case. The record is read in any of
its spellings, and its members are spread over the slots by their names. -/
theorem follows_one {m : Members α} {fields : List Field} (h : m.Follows fields) (tag : String)
    (hnodup : m.names.Nodup) : (one tag m).Follows [(tag, fields)] where
  tags := rfl
  rewrites {t _ _} hread := by
    change (if t = tag then m.readAt .inside _ else none) = some _ at hread
    split at hread
    next heq =>
      obtain ⟨slots, hspells, ha⟩ := Members.readAt_eq_some hread
      exact ⟨fields, slots, List.mem_singleton.2 (heq ▸ rfl), h.names ▸ hspells, heq.symm,
        h.rewrites ha⟩
    next => cases hread
  fills {t _ _ _ _ _} hread hins hread' := by
    change (if t = tag then m.readAt .inside _ else none) = some _ at hread hread'
    split at hread
    next heq =>
      rw [if_pos heq] at hread'
      exact ⟨fields, List.mem_singleton.2 (heq ▸ rfl), h.readAt_fills hnodup hread hins hread'⟩
    next => cases hread

/-- A choice of two reads with the first if the tag is one of its tags, and
with the second if not. -/
theorem or_eq_some {v : Variants α} {w : Variants β} {tag : String} {j : Json} {s : α ⊕ β}
    (h : (v.or w).decode tag j = some s) :
    tag ∈ v.tags ∧ (∃ a, v.decode tag j = some a ∧ s = .inl a) ∨
      tag ∉ v.tags ∧ ∃ b, w.decode tag j = some b ∧ s = .inr b := by
  change (if v.tags.contains tag = true then (v.decode tag j).map Sum.inl
    else (w.decode tag j).map Sum.inr) = some s at h
  split at h
  next htag =>
    obtain ⟨a, ha, rfl⟩ := Option.map_eq_some_iff.1 h
    exact .inl ⟨List.contains_iff_mem.1 htag, a, ha, rfl⟩
  next htag =>
    obtain ⟨b, hb, rfl⟩ := Option.map_eq_some_iff.1 h
    exact .inr ⟨fun hmem => htag (List.contains_iff_mem.2 hmem), b, hb, rfl⟩

theorem Follows.or {v : Variants α} {w : Variants β} {cases cases' : List (String × List Field)}
    (hv : v.Follows cases) (hw : w.Follows cases') : (v.or w).Follows (cases ++ cases') where
  tags := by
    show v.tags ++ w.tags = _
    rw [hv.tags, hw.tags, List.map_append]
  rewrites hread := by
    rcases or_eq_some hread with ⟨-, a, ha, rfl⟩ | ⟨-, b, hb, rfl⟩
    · obtain ⟨fields, slots, hcase, hrest⟩ := hv.rewrites ha
      exact ⟨fields, slots, List.mem_append_left _ hcase, hrest⟩
    · obtain ⟨fields, slots, hcase, hrest⟩ := hw.rewrites hb
      exact ⟨fields, slots, List.mem_append_right _ hcase, hrest⟩
  fills hread hins hread' := by
    rcases or_eq_some hread with ⟨htag, a, ha, -⟩ | ⟨htag, b, hb, -⟩ <;>
      rcases or_eq_some hread' with ⟨htag', a', ha', -⟩ | ⟨htag', b', hb', -⟩
    · obtain ⟨fields, hcase, hfills⟩ := hv.fills ha hins ha'
      exact ⟨fields, List.mem_append_left _ hcase, hfills⟩
    -- one tag was read both times, so both values come from one of the two
    · exact absurd htag htag'
    · exact absurd htag' htag
    · obtain ⟨fields, hcase, hfills⟩ := hw.fills hb hins hb'
      exact ⟨fields, List.mem_append_right _ hcase, hfills⟩

/-- A choice seen as another type follows the same cases, since its tags and
its bodies are those of the first type. -/
theorem Follows.iso {v : Variants α} {cases : List (String × List Field)} (h : v.Follows cases)
    {make : α → β} {view : β → α} (hview : ∀ a, view (make a) = a) :
    (v.iso make view).Follows cases where
  tags := h.tags
  rewrites hread := by
    obtain ⟨a, ha, rfl⟩ := Option.map_eq_some_iff.1 hread
    show ∃ fields slots, _ ∧ _ ∧ (v.encode (view (make a))).1 = _ ∧
      RewritesFields true fields .inside slots (v.encode (view (make a))).2
    rw [hview]
    exact h.rewrites ha
  fills hread hins hread' := by
    obtain ⟨a, ha, -⟩ := Option.map_eq_some_iff.1 hread
    obtain ⟨a', ha', -⟩ := Option.map_eq_some_iff.1 hread'
    exact h.fills ha hins ha'

/-- The tag of an object is its only member under the key, and the rest are
the other members in their order. -/
theorem untag_obj_eq_some {key : String} {members : List (String × Json)} {mark body : Json}
    (h : untag key (.obj members) = some (mark, body)) :
    members.filter (fun m => m.1 == key) = [(key, mark)] ∧
      body = .obj (members.filter fun m => m.1 != key) := by
  unfold untag at h
  dsimp only at h
  split at h
  next k t hfilter =>
    cases h
    have hk : k = key := eq_of_beq
      (List.of_mem_filter (p := fun m : String × Json => m.1 == key)
        (hfilter ▸ List.mem_singleton_self (k, mark)))
    exact ⟨hk ▸ hfilter, rfl⟩
  next => cases h

/-- A tag is taken off an object wherever it stands in it, or off a list from
its head. -/
theorem untags_of_untag {key : String} {j mark body : Json}
    (h : untag key j = some (mark, body)) : Untags key j mark body := by
  cases j with
  | obj members =>
      obtain ⟨hfilter, rfl⟩ := untag_obj_eq_some h
      obtain ⟨before, after, rfl, hbefore, -, hafter⟩ := List.filter_eq_cons_iff.1 hfilter
      rw [List.filter_eq_nil_iff] at hafter
      -- the tag is the only member with its key, or the filter would hold more
      have hothers : ∀ m ∈ before ++ after, m.1 ≠ key := by
        intro m hm heq
        rcases List.mem_append.1 hm with hm | hm
        · exact hbefore m hm (beq_iff_eq.2 heq)
        · exact hafter m hm (beq_iff_eq.2 heq)
      have hbody : (before ++ (key, mark) :: after).filter (fun m => m.1 != key) =
          before ++ after := by
        rw [List.filter_append, List.filter_cons_of_neg (by simp), ← List.filter_append,
          List.filter_eq_self]
        exact fun m hm => bne_iff_ne.2 (hothers m hm)
      rw [hbody]
      refine .object fun hmem => ?_
      obtain ⟨m, hm, heq⟩ := List.mem_map.1 hmem
      exact hothers m hm heq
  | arr items =>
      cases items with
      | nil => cases h
      | cons t items =>
          cases h
          exact .positions
  | _ => cases h

/-- A tag is read by its name, or by its position where that is allowed.
Which of the two was used is not seen in what is written, so both are
spellings of one tag. -/
theorem marks_of_tagOf {tags : List String} {place : Place} {mark : Json} {tag : String}
    (h : tagOf tags place mark = some tag) (hmem : tag ∈ tags) :
    Marks true tags place mark tag := by
  cases mark with
  | str s =>
      cases place <;> cases h <;> exact .name hmem
  | int i =>
      cases place with
      | outside => cases h
      | inside =>
          change (if 0 ≤ i then tags[i.toNat]? else none) = some tag at h
          split at h
          next hi =>
            rw [← Int.toNat_of_nonneg hi]
            exact .position rfl h
          next => cases h
  | _ => cases place <;> cases h

/-- There is no object in a tag, so nothing that an insertion can be made
into is one. -/
theorem tagOf_of_inserts {tags : List String} {place : Place} {key : String} {mark mark' : Json}
    (hins : Inserts key mark mark') : tagOf tags place mark = none := by
  cases hins <;> cases place <;> rfl

/-- Inside a tagged value no fewer tags are read. -/
theorem tagOf_inside {tags : List String} {place : Place} {mark : Json} {tag : String}
    (h : tagOf tags place mark = some tag) : tagOf tags .inside mark = some tag := by
  cases place with
  | inside => exact h
  | outside =>
      cases mark with
      | str t => exact h
      | _ => cases h

/-- A member under the key of the tag is the tag, and no other member is
under that key. -/
theorem untag_tag {key : String} {before after : List (String × Json)} {j mark body : Json}
    (h : untag key (.obj (before ++ (key, j) :: after)) = some (mark, body)) :
    j = mark ∧ (before ++ after).filter (fun m => m.1 == key) = [] := by
  obtain ⟨hmark, -⟩ := untag_obj_eq_some h
  rw [List.filter_append, List.filter_cons_of_pos (by simp)] at hmark
  obtain ⟨hbefore, hcons⟩ | ⟨_, -, hnil⟩ := List.append_eq_cons_iff.1 hmark
  · obtain ⟨hj, hafter⟩ := List.cons.inj hcons
    rw [List.filter_append, hbefore, hafter]
    exact ⟨(Prod.mk.inj hj).2, rfl⟩
  · cases (List.append_eq_nil_iff.1 hnil.symm).2

/-- A member under another key stays in the rest. -/
theorem untag_other {key name : String} {before after : List (String × Json)}
    {j mark body : Json} (hname : name ≠ key)
    (h : untag key (.obj (before ++ (name, j) :: after)) = some (mark, body)) :
    (before ++ after).filter (fun m => m.1 == key) = [(key, mark)] ∧
      body = .obj (before.filter (fun m => m.1 != key) ++
        (name, j) :: after.filter (fun m => m.1 != key)) := by
  obtain ⟨hmark, rfl⟩ := untag_obj_eq_some h
  rw [List.filter_append, List.filter_cons_of_neg (by simpa using hname),
    ← List.filter_append] at hmark
  refine ⟨hmark, ?_⟩
  rw [List.filter_append, List.filter_cons_of_pos (by simpa using hname)]

/-- Members with one tag among them have no other. -/
theorem mark_unique {key : String} {members : List (String × Json)} {mark mark' : Json}
    (h : members.filter (fun m => m.1 == key) = [(key, mark)])
    (h' : members.filter (fun m => m.1 == key) = [(key, mark')]) : mark' = mark :=
  (Prod.mk.inj (List.cons.inj (h'.symm.trans h)).1).2

/-- One more member stands beside the tag, and the tag stays. The insertion
goes into what is read under the tag. -/
theorem untag_inserts {tagKey key : String} {j j' mark mark' body body' : Json}
    {tags : List String} {place : Place} {tag : String}
    (h : untag tagKey j = some (mark, body)) (htag : tagOf tags place mark = some tag)
    (hins : Inserts key j j') (h' : untag tagKey j' = some (mark', body')) :
    mark' = mark ∧ Inserts key body body' := by
  have hclosed : ∀ {t}, ¬ Inserts key mark t := fun hinner => by
    rw [tagOf_of_inserts hinner] at htag
    cases htag
  cases j with
  | obj members =>
      rcases Json.inserts_obj hins with ⟨before, after, value, rfl, rfl⟩ |
        ⟨before, after, name, a, b, rfl, rfl, hinner⟩
      · obtain ⟨hmark, rfl⟩ := untag_obj_eq_some h
        by_cases hkey : key = tagKey
        · -- two members under the tag's key are no tag
          subst hkey
          rw [(untag_tag h').2] at hmark
          cases hmark
        · obtain ⟨hmark', rfl⟩ := untag_other hkey h'
          rw [List.filter_append]
          exact ⟨mark_unique hmark hmark', .here _ _ value⟩
      · by_cases hname : name = tagKey
        · subst hname
          obtain ⟨rfl, -⟩ := untag_tag h
          exact absurd hinner hclosed
        · obtain ⟨hmark, rfl⟩ := untag_other hname h
          obtain ⟨hmark', rfl⟩ := untag_other hname h'
          exact ⟨mark_unique hmark hmark', .value _ _ name hinner⟩
  | arr items =>
      obtain ⟨before, after, a, b, rfl, rfl, hinner⟩ := Json.inserts_arr hins
      cases before with
      | nil =>
          cases h
          exact absurd hinner hclosed
      | cons t before =>
          cases h
          cases h'
          exact ⟨rfl, .item before after hinner⟩
  | _ => cases h

/-- A tagged record is followed case by case. What stands behind the tag is
inside a tagged value from there on. -/
theorem Follows.tagged {v : Variants α} {cases : List (String × List Field)} (h : v.Follows cases)
    (key : String) : (tagged key v).Follows (.tagged key cases) where
  rewrites hread := by
    obtain ⟨⟨mark, body⟩, huntag, hread⟩ := Option.bind_eq_some_iff.1 hread
    obtain ⟨t, htag, ha⟩ := Option.bind_eq_some_iff.1 hread
    obtain ⟨fields, slots, hcase, hspells, rfl, hfields⟩ := h.rewrites ha
    have hmem : _ ∈ cases.map Prod.fst := List.mem_map_of_mem hcase
    rw [h.tags] at htag
    exact .tagged (untags_of_untag huntag) (marks_of_tagOf htag hmem) hcase hspells hfields
  fills hread hins hread' := by
    obtain ⟨⟨mark, body⟩, huntag, hread⟩ := Option.bind_eq_some_iff.1 hread
    obtain ⟨t, htag, ha⟩ := Option.bind_eq_some_iff.1 hread
    obtain ⟨⟨mark', body'⟩, huntag', hread'⟩ := Option.bind_eq_some_iff.1 hread'
    obtain ⟨t', htag', ha'⟩ := Option.bind_eq_some_iff.1 hread'
    obtain ⟨rfl, hbody⟩ := untag_inserts huntag htag hins huntag'
    obtain rfl : t = t' := Option.some.inj (htag.symm.trans htag')
    obtain ⟨fields, hcase, hfills⟩ := h.fills ha hbody ha'
    have hmem : t ∈ cases.map Prod.fst := List.mem_map_of_mem hcase
    rw [h.tags] at htag
    exact .choice (untags_of_untag huntag) (untags_of_untag huntag')
      (marks_of_tagOf (tagOf_inside htag) hmem) hcase hfills

end Variants

end TypedSelect
