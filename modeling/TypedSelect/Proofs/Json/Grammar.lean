/-
What reading a value and writing it again may change.

A `Grammar` is the JSON form of an entity as data: its members in their
order, which of them may be missing, and what stands in each place.
A codec follows a grammar when it does no more than rewrite and takes no
other insertion, and each way to build a codec follows the grammar that
is built the same way.

# Rewriting

`Rewrites` has one rule for each difference there may be between a value
that is read and the value that is written for it, and nothing goes
without a rule: members come into the order of the record, a list of
members becomes an object, a null or an empty list or a false mark is
left out, a default is filled in, a name over null becomes the name, and
a whole number becomes a floating point number where one is asked for or
where it has more than 64 bits. With leave there are two rules more, for
two spellings that are only read inside a tagged value. A proof that the
leave is needed is a value that has no rewriting without it.

# Insertion

`Inserts` puts one more member into some object, however deep, and
`Fills` says when the grammar has room for it: the member is one of those
that were left out. That a codec takes no other insertion is how it is
said that unknown and repeated members are refused at every depth.

# Why relations

Both are relations between values and not functions of them, since a
grammar does not compute what is written: the codec does. The rules are
read by a person, and the proofs match them against the codec.
-/
import Mathlib.Data.List.Nodup
import TypedSelect.Proofs.Json.Codec

namespace TypedSelect

open Json (member?)

-- ============================================================ grammars

/-- Whether a member must be there, and what is read where it is not. -/
inductive Presence where
  | required
  | optional
  | defaulted (value : Json)
  | listed
  | marked

/-- The JSON form of an entity. A `fraction` is a floating point number,
and a `number` is one too unless it is a whole number of 64 bits. -/
inductive Grammar where
  | text
  | truth
  | whole
  | fraction
  | number
  | symbol (names : List String)
  | list (item : Grammar)
  | either (first second : Grammar)
  | record (fields : List (String × Presence × Grammar))
  | tagged (key : String) (cases : List (String × List (String × Presence × Grammar)))

/-- A member of a record: its name, its presence and its value. -/
abbrev Field := String × Presence × Grammar

/-- The names of a vocabulary. -/
def Vocabulary.names (α : Type) [Vocabulary α] : List String :=
  (Vocabulary.all (α := α)).map Vocabulary.name

/-- Whether a member with this value is written out; what it says is said
by leaving it out otherwise. -/
def Presence.Keeps : Presence → Json → Prop
  | optional, j => j ≠ .null
  | listed, j => j ≠ .arr []
  | marked, j => j ≠ .bool false
  | _, _ => True

/-- The slots that an object or a list gives to the named members. -/
inductive Spells (names : List String) : Json → List (Option Json) → Prop
  | object {members : List (String × Json)} (distinct : (members.map Prod.fst).Nodup)
      (known : ∀ m ∈ members, m.1 ∈ names) :
      Spells names (.obj members) (names.map fun name => member? name members)
  | positions {items : List Json} (short : items.length ≤ names.length) :
      Spells names (.arr items)
        (items.map some ++ List.replicate (names.length - items.length) none)

/-- A value with a tag: what stands in the place of the tag, and the value
without it. -/
inductive Untags (key : String) : Json → Json → Json → Prop
  | object {before after : List (String × Json)} {mark : Json}
      (once : key ∉ (before ++ after).map Prod.fst) :
      Untags key (.obj (before ++ (key, mark) :: after)) mark (.obj (before ++ after))
  | positions {mark : Json} {items : List Json} :
      Untags key (.arr (mark :: items)) mark (.arr items)

/-- The tag that is meant: its name, or with leave, inside another tagged
value, its position among the tags. -/
inductive Marks (lenient : Bool) (tags : List String) : Place → Json → String → Prop
  | name {place : Place} {tag : String} (known : tag ∈ tags) :
      Marks lenient tags place (.str tag) tag
  | position {i : Nat} {tag : String} (leave : lenient = true) (known : tags[i]? = some tag) :
      Marks lenient tags .inside (.int i) tag

-- =========================================================== rewriting

mutual

/-- What is written for a value that was read. With leave, two spellings
more are read inside tagged values: an empty object for the null under the
name of a symbol, and a position for a tag. -/
inductive Grammar.Rewrites (lenient : Bool) : Grammar → Place → Json → Json → Prop
  | text {place : Place} (s : String) : Rewrites lenient .text place (.str s) (.str s)
  | truth {place : Place} (b : Bool) : Rewrites lenient .truth place (.bool b) (.bool b)
  | whole {place : Place} (i : Int) : Rewrites lenient .whole place (.int i) (.int i)
  | fraction {place : Place} (x : Double) :
      Rewrites lenient .fraction place (.float x) (.float x)
  | wholeFraction {place : Place} (i : Int) :
      Rewrites lenient .fraction place (.int i) (.float (.ofInt i))
  | float {place : Place} (x : Double) : Rewrites lenient .number place (.float x) (.float x)
  | int {place : Place} {i : Int} (low : Int64.minValue.toInt ≤ i)
      (high : i ≤ Int64.maxValue.toInt) : Rewrites lenient .number place (.int i) (.int i)
  | wideInt {place : Place} {i : Int}
      (wide : i < Int64.minValue.toInt ∨ Int64.maxValue.toInt < i) :
      Rewrites lenient .number place (.int i) (.float (.ofInt i))
  | name {names : List String} {place : Place} {s : String} (known : s ∈ names) :
      Rewrites lenient (.symbol names) place (.str s) (.str s)
  | nameOfNull {names : List String} {place : Place} {s : String} (known : s ∈ names) :
      Rewrites lenient (.symbol names) place (.obj [(s, .null)]) (.str s)
  | nameOfEmpty {names : List String} {s : String} (leave : lenient = true)
      (known : s ∈ names) : Rewrites lenient (.symbol names) .inside (.obj [(s, .obj [])]) (.str s)
  | list {item : Grammar} {place : Place} {items items' : List Json}
      (each : RewritesItems lenient item place items items') :
      Rewrites lenient (.list item) place (.arr items) (.arr items')
  | first {g h : Grammar} {place : Place} {j j' : Json} (this : Rewrites lenient g place j j') :
      Rewrites lenient (.either g h) place j j'
  | second {g h : Grammar} {place : Place} {j j' : Json} (this : Rewrites lenient h place j j') :
      Rewrites lenient (.either g h) place j j'
  | record {fields : List Field} {place : Place} {j : Json} {slots : List (Option Json)}
      {members : List (String × Json)} (spells : Spells (fields.map Prod.fst) j slots)
      (each : RewritesFields lenient fields place slots members) :
      Rewrites lenient (.record fields) place j (.obj members)
  | tagged {key tag : String} {cases : List (String × List Field)} {fields : List Field}
      {place : Place} {j mark body : Json} {slots : List (Option Json)}
      {members : List (String × Json)} (untags : Untags key j mark body)
      (marks : Marks lenient (cases.map Prod.fst) place mark tag)
      (chosen : (tag, fields) ∈ cases) (spells : Spells (fields.map Prod.fst) body slots)
      (each : RewritesFields lenient fields .inside slots members) :
      Rewrites lenient (.tagged key cases) place j (.obj ((key, .str tag) :: members))

/-- Every item is rewritten, in its place. -/
inductive Grammar.RewritesItems (lenient : Bool) :
    Grammar → Place → List Json → List Json → Prop
  | nil {item : Grammar} {place : Place} : RewritesItems lenient item place [] []
  | cons {item : Grammar} {place : Place} {j j' : Json} {items items' : List Json}
      (head : Rewrites lenient item place j j')
      (tail : RewritesItems lenient item place items items') :
      RewritesItems lenient item place (j :: items) (j' :: items')

/-- Every member is written in the order of the record. One that was there
is rewritten, unless leaving it out says the same; one that was not there
is left out or has its default. -/
inductive Grammar.RewritesFields (lenient : Bool) :
    List Field → Place → List (Option Json) → List (String × Json) → Prop
  | nil {place : Place} : RewritesFields lenient [] place [] []
  | kept {name : String} {presence : Presence} {g : Grammar} {fields : List Field}
      {place : Place} {j j' : Json} {slots : List (Option Json)}
      {members : List (String × Json)} (keeps : presence.Keeps j)
      (this : Rewrites lenient g place j j')
      (rest : RewritesFields lenient fields place slots members) :
      RewritesFields lenient ((name, presence, g) :: fields) place (some j :: slots)
        ((name, j') :: members)
  | null {name : String} {g : Grammar} {fields : List Field} {place : Place}
      {slots : List (Option Json)} {members : List (String × Json)}
      (rest : RewritesFields lenient fields place slots members) :
      RewritesFields lenient ((name, .optional, g) :: fields) place (some .null :: slots) members
  | empty {name : String} {g : Grammar} {fields : List Field} {place : Place}
      {slots : List (Option Json)} {members : List (String × Json)}
      (rest : RewritesFields lenient fields place slots members) :
      RewritesFields lenient ((name, .listed, g) :: fields) place (some (.arr []) :: slots)
        members
  | off {name : String} {g : Grammar} {fields : List Field} {place : Place}
      {slots : List (Option Json)} {members : List (String × Json)}
      (rest : RewritesFields lenient fields place slots members) :
      RewritesFields lenient ((name, .marked, g) :: fields) place (some (.bool false) :: slots)
        members
  | default {name : String} {value : Json} {g : Grammar} {fields : List Field}
      {place : Place} {slots : List (Option Json)} {members : List (String × Json)}
      (rest : RewritesFields lenient fields place slots members) :
      RewritesFields lenient ((name, .defaulted value, g) :: fields) place (none :: slots)
        ((name, value) :: members)
  | missing {name : String} {presence : Presence} {g : Grammar} {fields : List Field}
      {place : Place} {slots : List (Option Json)} {members : List (String × Json)}
      (may : presence = .optional ∨ presence = .listed ∨ presence = .marked)
      (rest : RewritesFields lenient fields place slots members) :
      RewritesFields lenient ((name, presence, g) :: fields) place (none :: slots) members

end

namespace Grammar

variable {lenient : Bool} {place : Place} {fields : List Field} {key : String}

/-- What is in a slot is rewritten by the grammar of the slot, unless the
slot is one of those that are left out. -/
theorem RewritesFields.slot {slots : List (Option Json)} {members : List (String × Json)} {i : Nat}
    {name : String} {presence : Presence} {g : Grammar} {j : Json}
    (h : RewritesFields lenient fields place slots members)
    (hfield : fields[i]? = some (name, presence, g)) (hslot : slots[i]? = some (some j))
    (hkeeps : presence.Keeps j) : ∃ j', g.Rewrites lenient place j j' := by
  induction fields generalizing slots members i with
  | nil => cases hfield
  | cons field fields ih =>
      cases i with
      | zero =>
          cases hfield
          cases h with
          | kept _ this _ =>
              cases hslot
              exact ⟨_, this⟩
          -- a value that is left out in one of these ways is none that the field keeps
          | null _ | empty _ | off _ =>
              cases hslot
              exact absurd rfl hkeeps
          | default _ | missing _ _ => cases hslot
      | succ i =>
          cases h with
          | kept _ _ rest | null rest | empty rest | off rest | default rest | missing _ rest =>
              exact ih rest hfield hslot

/-- A member of a record is rewritten by its grammar. It is how a rewriting
of a large value is followed down to one place in it. -/
theorem Rewrites.member {members : List (String × Json)} {i : Nat} {name : String}
    {presence : Presence} {g : Grammar} {j written : Json}
    (h : (Grammar.record fields).Rewrites lenient place (.obj members) written)
    (hfield : fields[i]? = some (name, presence, g)) (hj : member? name members = some j)
    (hkeeps : presence.Keeps j) : ∃ j', g.Rewrites lenient place j j' := by
  cases h with
  | record spells each =>
      cases spells with
      | object distinct known =>
          refine each.slot hfield ?_ hkeeps
          rw [List.getElem?_map, List.getElem?_map, hfield]
          exact congrArg some hj

/-- A tag at the head of an object is taken off it, and nothing else can be,
since no other member may have its key. -/
theorem untags_head {mark mark' body : Json} {members : List (String × Json)}
    (h : Untags key (.obj ((key, mark) :: members)) mark' body) :
    mark' = mark ∧ body = .obj members := by
  generalize hsource : Json.obj ((key, mark) :: members) = source at h
  cases h with
  | @object before after mark' once =>
      have hmembers := Json.obj.inj hsource
      cases before with
      | nil =>
          obtain ⟨hfirst, rfl⟩ := List.cons.inj hmembers
          exact ⟨(Prod.mk.inj hfirst).2.symm, rfl⟩
      | cons first before =>
          obtain ⟨rfl, -⟩ := List.cons.inj hmembers
          exact absurd List.mem_cons_self once
  | positions => cases hsource

/-- What stands behind a tag is rewritten by the record of the tag, as a
value inside a tagged one. -/
theorem Rewrites.untagged {cases : List (String × List Field)} {mark written : Json}
    {members : List (String × Json)}
    (h : (Grammar.tagged key cases).Rewrites lenient place (.obj ((key, mark) :: members))
      written) :
    ∃ tag fields body, Marks lenient (cases.map Prod.fst) place mark tag ∧
      (tag, fields) ∈ cases ∧
      (Grammar.record fields).Rewrites lenient .inside (.obj members) body := by
  cases h with
  | tagged untags marks chosen spells each =>
      obtain ⟨rfl, rfl⟩ := untags_head untags
      exact ⟨_, _, _, marks, chosen, .record spells each⟩

end Grammar

-- =========================================================== insertion

/-- One more member, with this key and any value, in an object anywhere in
the value. -/
inductive Json.Inserts (key : String) : Json → Json → Prop
  | here (before after : List (String × Json)) (value : Json) :
      Inserts key (.obj (before ++ after)) (.obj (before ++ (key, value) :: after))
  | item (before after : List Json) {a b : Json} (inner : Inserts key a b) :
      Inserts key (.arr (before ++ a :: after)) (.arr (before ++ b :: after))
  | value (before after : List (String × Json)) (name : String) {a b : Json}
      (inner : Inserts key a b) :
      Inserts key (.obj (before ++ (name, a) :: after)) (.obj (before ++ (name, b) :: after))

/-- The new member is one that the record it stands in has and that was
left out. -/
inductive Grammar.Fills (key : String) : Grammar → Json → Json → Prop
  | item {g : Grammar} (before after : List Json) {a b : Json} (inner : Fills key g a b) :
      Fills key (.list g) (.arr (before ++ a :: after)) (.arr (before ++ b :: after))
  | first {g h : Grammar} {a b : Json} (inner : Fills key g a b) : Fills key (.either g h) a b
  | second {g h : Grammar} {a b : Json} (inner : Fills key h a b) : Fills key (.either g h) a b
  | here {fields : List Field} (before after : List (String × Json)) (value : Json)
      (known : key ∈ fields.map Prod.fst) (missing : key ∉ (before ++ after).map Prod.fst) :
      Fills key (.record fields) (.obj (before ++ after)) (.obj (before ++ (key, value) :: after))
  | value {fields : List Field} (before after : List (String × Json)) {name : String}
      {presence : Presence} {g : Grammar} {a b : Json} (field : (name, presence, g) ∈ fields)
      (inner : Fills key g a b) :
      Fills key (.record fields) (.obj (before ++ (name, a) :: after))
        (.obj (before ++ (name, b) :: after))
  | position {fields : List Field} (before after : List Json) {name : String}
      {presence : Presence} {g : Grammar} {a b : Json}
      (field : fields[before.length]? = some (name, presence, g)) (inner : Fills key g a b) :
      Fills key (.record fields) (.arr (before ++ a :: after)) (.arr (before ++ b :: after))
  | choice {tagKey tag : String} {cases : List (String × List Field)} {fields : List Field}
      {j j' mark body body' : Json} (untags : Untags tagKey j mark body)
      (untags' : Untags tagKey j' mark body')
      (marks : Marks true (cases.map Prod.fst) .inside mark tag) (chosen : (tag, fields) ∈ cases)
      (inner : Fills key (.record fields) body body') : Fills key (.tagged tagKey cases) j j'

namespace Json

/-- There is no object in a text, a number, a truth value or a null. -/
theorem not_inserts_str {key s : String} {j : Json} : ¬ Inserts key (.str s) j := nofun

theorem not_inserts_int {key : String} {i : Int} {j : Json} : ¬ Inserts key (.int i) j := nofun

/-- An object gets the member itself, or one of its values does. -/
theorem inserts_obj {key : String} {members : List (String × Json)} {j : Json}
    (h : Inserts key (.obj members) j) :
    (∃ before after value, members = before ++ after ∧
      j = .obj (before ++ (key, value) :: after)) ∨
    ∃ before after name a b, members = before ++ (name, a) :: after ∧
      j = .obj (before ++ (name, b) :: after) ∧ Inserts key a b := by
  generalize hsource : Json.obj members = source at h
  cases h with
  | here before after value => exact .inl ⟨before, after, value, Json.obj.inj hsource, rfl⟩
  | item before after inner => cases hsource
  | value before after name inner =>
      exact .inr ⟨before, after, name, _, _, Json.obj.inj hsource, rfl, inner⟩

/-- In a list, one of the items gets the member. -/
theorem inserts_arr {key : String} {items : List Json} {j : Json}
    (h : Inserts key (.arr items) j) : ∃ before after a b, items = before ++ a :: after ∧
      j = .arr (before ++ b :: after) ∧ Inserts key a b := by
  generalize hsource : Json.arr items = source at h
  cases h with
  | item before after inner => exact ⟨before, after, _, _, Json.arr.inj hsource, rfl, inner⟩
  | _ => cases hsource

end Json

/-- A record gets a member only under a name of its own that was missing, if
it is the record itself that got longer. -/
theorem Grammar.fills_members {key : String} {fields : List Field}
    {members members' : List (String × Json)}
    (h : Fills key (.record fields) (.obj members) (.obj members'))
    (hlength : members.length < members'.length) :
    key ∈ fields.map Prod.fst ∧ key ∉ members.map Prod.fst := by
  generalize hj : Json.obj members = j at h
  generalize hj' : Json.obj members' = j' at h
  cases h with
  | here before after value known missing =>
      obtain rfl := Json.obj.inj hj
      exact ⟨known, missing⟩
  | value before after field inner =>
      obtain rfl := Json.obj.inj hj
      obtain rfl := Json.obj.inj hj'
      simp at hlength
  | position => cases hj

end TypedSelect
