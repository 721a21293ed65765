/-
JSON text read back.

There are two writers, one that puts no blanks and one that puts every
element on a line of its own. Their texts of a value differ in nothing but
blanks, so `Layout` says what they share: what stands before an element,
before a closing bracket and behind a colon, all of it blank, and that the
rest is the text of the parts. What has a layout is a text of its value.
The reader takes every text of a value as the value, so it takes these.

# What can be written

Not every value is read back. `Printable` are the ones that are: they nest
no deeper than a bound, their whole numbers have 64 bits, and their
floating point numbers have some property. The property is a parameter.
For reading back it is that the reading takes the number's own text to the
number (`Double.ReadBy`), since a reading need not do this for every
number.

# What is not said here

Nothing here is about queries or schemas. What they write is shown to be
printable next to their codecs and descriptions, and with that the two
main results of this module, one for each writer, are what it takes to
read them back.
-/
import TypedSelect.Proofs.Json.Text

namespace TypedSelect

namespace Json

-- ============================================================= values

/-- The values nested at most so deep whose whole numbers fit 64 bits and
whose floating point numbers have a property. -/
inductive Printable (p : Double → Prop) : Nat → Json → Prop where
  | null (depth : Nat) : Printable p depth null
  | bool (depth : Nat) (value : Bool) : Printable p depth (bool value)
  | int (depth : Nat) {i : Int} (h : InRange i) : Printable p depth (int i)
  | float (depth : Nat) {x : Double} (h : p x) : Printable p depth (float x)
  | str (depth : Nat) (s : String) : Printable p depth (str s)
  | arr {depth : Nat} {items : List Json} (h : ∀ item ∈ items, Printable p depth item) :
    Printable p (depth + 1) (arr items)
  | obj {depth : Nat} {members : List (String × Json)}
    (h : ∀ m ∈ members, Printable p depth m.2) : Printable p (depth + 1) (obj members)

/-- A stronger property of numbers makes fewer values printable. -/
theorem Printable.imp {p p' : Double → Prop} (hp : ∀ x, p x → p' x) {depth : Nat} {j : Json}
    (h : Printable p depth j) : Printable p' depth j := by
  induction h with
  | null depth => exact .null depth
  | bool depth value => exact .bool depth value
  | int depth hi => exact .int depth hi
  | float depth hx => exact .float depth (hp _ hx)
  | str depth s => exact .str depth s
  | arr _ ih => exact .arr ih
  | obj _ ih => exact .obj ih

/-- A value without parts. -/
def isScalar : Json → Bool
  | arr _ => false
  | obj _ => false
  | _ => true

/-- The texts after the first one, each behind a comma, and the closing
character. -/
def separated (gap last : List Char) (close : Char) : List (List Char) → List Char
  | [] => last ++ [close]
  | text :: texts => ',' :: (gap ++ (text ++ separated gap last close texts))

/-- Texts between commas up to the closing character. -/
def bracketed (gap last : List Char) (close : Char) : List (List Char) → List Char
  | [] => [close]
  | text :: texts => gap ++ (text ++ separated gap last close texts)

/-- The text of a member. -/
def memberText (space : List Char) (write : Json → List Char) (m : String × Json) : List Char :=
  quoted m.1 ++ ':' :: (space ++ write m.2)

/-- A writer, told how deep the value stands, that puts nothing but blanks
around the parts of a value. -/
structure Layout (write : Nat → Json → List Char) where
  /-- What stands before an element at a depth. -/
  line : Nat → List Char
  /-- What stands before the closing character at a depth. -/
  last : Nat → List Char
  /-- What stands behind a colon. -/
  space : List Char
  line_blank : ∀ depth, AllBlank (line depth)
  last_blank : ∀ depth, AllBlank (last depth)
  space_blank : AllBlank space
  scalar : ∀ depth value, value.isScalar = true → write depth value = scalarText value
  arr : ∀ depth items, write depth (arr items) =
    '[' :: bracketed (line (depth + 1)) (last depth) ']' (items.map (write (depth + 1)))
  obj : ∀ depth members, write depth (obj members) =
    '\x7b' :: bracketed (line (depth + 1)) (last depth) '\x7d'
      (members.map (memberText space (write (depth + 1))))

-- ======================================================== the two texts

/-- The compact items of a list stand between commas with nothing around
them. -/
theorem compactItems_eq (items : List Json) :
    compactItems items = separated [] [] ']' (items.map compact) := by
  induction items with
  | nil => rfl
  | cons item items ih =>
      rw [compactItems, ih]
      rfl

theorem compactMembers_eq (members : List (String × Json)) :
    compactMembers members = separated [] [] '\x7d' (members.map (memberText [] compact)) := by
  induction members with
  | nil => rfl
  | cons m members ih =>
      obtain ⟨key, value⟩ := m
      rw [compactMembers, ih, List.map_cons, separated, memberText]
      simp only [List.nil_append, List.append_assoc, List.cons_append]

/-- The compact text has no blanks. -/
def compactLayout : Layout fun _ => compact where
  line _ := []
  last _ := []
  space := []
  line_blank _ := allBlank_nil
  last_blank _ := allBlank_nil
  space_blank := allBlank_nil
  scalar depth value h := by
    cases value with
    | arr items => cases h
    | obj members => cases h
    | _ => rfl
  arr depth items := by
    cases items with
    | nil => rfl
    | cons item items =>
        rw [compact, compactItems_eq]
        rfl
  obj depth members := by
    cases members with
    | nil => rfl
    | cons m members =>
        obtain ⟨key, value⟩ := m
        rw [compact, compactMembers_eq, List.map_cons, bracketed, memberText]
        simp only [List.nil_append, List.append_assoc, List.cons_append]

/-- The indented items of a list begin on new lines, one level further in. -/
theorem indentedItems_eq (depth : Nat) (items : List Json) :
    indentedItems depth items =
      separated (newline (depth + 1)) (newline depth) ']' (items.map (indented (depth + 1))) := by
  induction items with
  | nil => rfl
  | cons item items ih =>
      rw [indentedItems, ih, List.map_cons, separated]
      simp only [List.append_assoc, List.cons_append]

/-- So do the indented members of an object, with one blank behind the colon.
-/
theorem indentedMembers_eq (depth : Nat) (members : List (String × Json)) :
    indentedMembers depth members =
      separated (newline (depth + 1)) (newline depth) '\x7d'
        (members.map (memberText [' '] (indented (depth + 1)))) := by
  induction members with
  | nil => rfl
  | cons m members ih =>
      obtain ⟨key, value⟩ := m
      rw [indentedMembers, ih, List.map_cons, separated, memberText]
      simp only [List.append_assoc, List.cons_append, List.nil_append]

/-- The indented text has every element on its own line. -/
def indentedLayout : Layout indented where
  line := newline
  last := newline
  space := [' ']
  line_blank := allBlank_newline
  last_blank := allBlank_newline
  space_blank := by
    intro c hc
    rw [List.mem_singleton.1 hc]
    rfl
  scalar depth value h := by
    cases value with
    | arr items => cases h
    | obj members => cases h
    | _ => rfl
  arr depth items := by
    cases items with
    | nil => rfl
    | cons item items =>
        rw [indented, indentedItems_eq, List.map_cons, bracketed]
        simp only [List.append_assoc, List.cons_append]
  obj depth members := by
    cases members with
    | nil => rfl
    | cons m members =>
        obtain ⟨key, value⟩ := m
        rw [indented, indentedMembers_eq, List.map_cons, bracketed, memberText]
        simp only [List.append_assoc, List.cons_append, List.nil_append]

-- ============================================================ as texts

section

variable {α : Type} {spells : α → List Char → Prop} {spell : α → List Char} {gap last : List Char}
  {items : List α}

/-- Texts between commas are a continuation in the reader's sense, once each
of them is a text of its element. -/
theorem continued_separated (hgap : AllBlank gap) (hlast : AllBlank last) (close : Char)
    (hitems : ∀ x ∈ items, spells x (spell x)) :
    Continued spells close items (separated gap last close (items.map spell)) := by
  induction items with
  | nil => exact .close hlast
  | cons x items ih =>
      exact .comma allBlank_nil hgap (hitems x List.mem_cons_self)
        (ih fun y hy => hitems y (List.mem_cons_of_mem _ hy))

/-- So is the first of them with the ones behind it. -/
theorem enclosed_bracketed (hgap : AllBlank gap) (hlast : AllBlank last) (close : Char)
    (hitems : ∀ x ∈ items, spells x (spell x)) :
    Enclosed spells close items (bracketed gap last close (items.map spell)) := by
  cases items with
  | nil => exact .empty allBlank_nil
  | cons x items =>
      exact .elements hgap (hitems x List.mem_cons_self)
        (continued_separated hgap hlast close fun y hy => hitems y (List.mem_cons_of_mem _ hy))

end

section

variable {reading : Numeral.Reading}

/-- A whole number of 64 bits is written as a token of itself. -/
theorem token_int {i : Int} (hi : InRange i) : Token reading (int i) (intText i) := by
  rw [← Numeral.chars_ofInt]
  refine .number (numeralText_chars (Numeral.wellFormed_ofInt i)) ?_
  unfold Numeral.toJson?
  rw [Numeral.toInt?_ofInt hi]

/-- A floating point number is, if the reading takes its text back to it. -/
theorem token_float {x : Double} (hx : x.ReadBy reading) :
    Token reading (float x) x.jsonText.toList := by
  obtain ⟨n, htext, hn, hint, hread⟩ := hx
  rw [htext]
  refine .number (numeralText_chars hn) ?_
  unfold Numeral.toJson?
  rw [hint, hread]
  rfl

/-- A member is written as a member, once its value is written as the value. -/
theorem memberText_spelled {spells : Json → List Char → Prop} {space : List Char}
    {write : Json → List Char} {m : String × Json} (hspace : AllBlank space)
    (hvalue : spells m.2 (write m.2)) : MemberText spells m (memberText space write m) :=
  .mk (charsText_flatMap m.1.toList) allBlank_nil hspace hvalue

variable {write : Nat → Json → List Char} (layout : Layout write)
include layout

/-- A layout gives a text of every value that can be read back. How far in
the writer is does not matter, since it only puts blanks. -/
theorem Layout.spelled {depth : Nat} {j : Json} (hj : Printable (Double.ReadBy reading) depth j)
    (level : Nat) : Spelled reading depth j (write level j) := by
  induction hj generalizing level with
  | null depth =>
      rw [layout.scalar _ _ rfl]
      exact spelled_of_token .null
  | bool depth value =>
      rw [layout.scalar _ _ rfl]
      cases value with
      | true => exact spelled_of_token .true
      | false => exact spelled_of_token .false
  | int depth hi =>
      rw [layout.scalar _ _ rfl]
      exact spelled_of_token (token_int hi)
  | float depth hx =>
      rw [layout.scalar _ _ rfl]
      exact spelled_of_token (token_float hx)
  | str depth s =>
      rw [layout.scalar _ _ rfl]
      exact spelled_of_token (.str (charsText_flatMap s.toList))
  | @arr depth items _ ih =>
      rw [layout.arr]
      exact .inr (.inl ⟨items, _, rfl, rfl, enclosed_bracketed (layout.line_blank _)
        (layout.last_blank _) ']' fun item hitem => ih item hitem (level + 1)⟩)
  | @obj depth members _ ih =>
      rw [layout.obj]
      exact .inr (.inr ⟨members, _, rfl, rfl, enclosed_bracketed (layout.line_blank _)
        (layout.last_blank _) '\x7d' fun m hm =>
          memberText_spelled layout.space_blank (ih m hm (level + 1))⟩)

/-- What a layout writes at the outermost level is read back, if the value
nests no deeper than the reader goes. -/
theorem Layout.parse {j : Json} (hj : Printable (Double.ReadBy reading) nestingLimit j) :
    parseWith? reading (String.ofList (write 0 j)) = some j := by
  have hspelled := layout.spelled hj 0
  refine parseWith?_eq_some_iff.2 ⟨⟨nestingLimit, [], write 0 j, [], allBlank_nil, hspelled,
    allBlank_nil, ?_⟩, nested_of_spelled hspelled⟩
  rw [String.toList_ofList, List.nil_append, List.append_nil]

end

/-- The compact text of a value reads back as the value. -/
theorem parseWith?_text {reading : Numeral.Reading} {j : Json}
    (hj : Printable (Double.ReadBy reading) nestingLimit j) :
    parseWith? reading j.text = some j := compactLayout.parse hj

/-- The indented text of a value reads back as the value. -/
theorem parseWith?_prettyText {reading : Numeral.Reading} {j : Json}
    (hj : Printable (Double.ReadBy reading) nestingLimit j) :
    parseWith? reading j.prettyText = some j := indentedLayout.parse hj

end Json

end TypedSelect
