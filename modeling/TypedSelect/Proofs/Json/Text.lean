/-
The texts of JSON values.

`Spelled` says which texts a value has: the texts of its parts in their
order, between brackets and commas, with any blanks around each, and those
of a scalar are its tokens. The reader takes such a text as the value that
it spells and takes no other, so a text has one value, and it is the same
whatever the blanks are.

# Depth

Texts are built by how deep they nest, which is what the reader bounds
too. So `Spelled` is a recursion on the depth, the reader's level is its
argument, and the proofs in both directions are inductions on it. A text
has a depth of its own only through its value (`Spelled.of_nested`): how
deep the text of a value nests is how deep the value does.

# Numbers

A token of a number is any text of a numeral that the reading takes to
the number. The reading is a parameter of everything here, since what is
said about texts does not depend on how numbers are rounded.

# The main result

`parseWith?_eq_some_iff` is all that the other modules use: a text is read
as a value if it is a text of the value and the value nests no deeper than
the limit. With `TextOf.unique` a text determines its value, so no proof
above this module looks at characters of JSON.
-/
import TypedSelect.Proofs.Json.Scan

namespace TypedSelect

namespace Json

open Numeral (Ender)

-- ============================================================= tokens

/-- A value without parts as written. -/
inductive Token (reading : Numeral.Reading) : Json → List Char → Prop
  | null : Token reading null ['n', 'u', 'l', 'l']
  | true : Token reading (bool true) ['t', 'r', 'u', 'e']
  | false : Token reading (bool false) ['f', 'a', 'l', 's', 'e']
  | number {n : Numeral} {j : Json} {text : List Char} (numeral : NumeralText n text)
      (value : n.toJson? reading = some j) : Token reading j text
  | str {s : String} {text : List Char} (chars : CharsText s.toList text) :
      Token reading (str s) ('"' :: text)

-- ============================================================ nesting

/-- A member as written. -/
inductive MemberText (value : Json → List Char → Prop) : String × Json → List Char → Prop
  | mk {key : String} {j : Json} {name gap space text : List Char}
      (chars : CharsText key.toList name) (blank : AllBlank gap) (blank' : AllBlank space)
      (spells : value j text) :
      MemberText value (key, j) ('"' :: (name ++ (gap ++ ':' :: (space ++ text))))

/-- The texts of a value that is nested at most so deep. -/
def Spelled (reading : Numeral.Reading) : Nat → Json → List Char → Prop
  | 0, j, text => Token reading j text
  | depth + 1, j, text =>
    Token reading j text ∨
      (∃ items more, j = arr items ∧ text = '[' :: more ∧
        Enclosed (Spelled reading depth) ']' items more) ∨
      ∃ members more, j = obj members ∧ text = '\x7b' :: more ∧
        Enclosed (MemberText (Spelled reading depth)) '\x7d' members more

/-- The texts of a value by itself. -/
def TextOf (reading : Numeral.Reading) (j : Json) (source : String) : Prop :=
  ∃ depth before text after, AllBlank before ∧ Spelled reading depth j text ∧ AllBlank after ∧
    source.toList = before ++ (text ++ after)

-- ======================================================= what is taken

section

variable {rest : List Char}

/-- What is read as a member is a member as written, if what is read as its
value is a text of that. -/
theorem sound_readMember {value : Scanner Json} {spells : Json → List Char → Prop} {fuel : Nat}
    (hvalue : Sound value spells) : Sound (readMember fuel value) (MemberText spells) := by
  intro s m rest h
  obtain ⟨gap, hgap, hs⟩ := skipBlanks_eq s
  unfold readMember at h
  split at h
  next s' hskip =>
    rw [hskip] at hs
    obtain ⟨⟨key, s''⟩, hkey, hbehind⟩ := Option.bind_eq_some_iff.1 h
    obtain ⟨name, rfl, hname⟩ := readString_eq_some hkey
    obtain ⟨gap', hgap', hs''⟩ := skipBlanks_eq s''
    dsimp only at hbehind
    split at hbehind
    next t hcolon =>
      rw [hcolon] at hs''
      obtain ⟨⟨j, _⟩, hj, hdone⟩ := Option.bind_eq_some_iff.1 hbehind
      cases hdone
      obtain ⟨space, text, hspace, htext, rfl⟩ := hvalue hj
      refine ⟨gap, _, hgap, .mk hname hgap' hspace htext, ?_⟩
      rw [hs, hs'']
      simp
    next => cases hbehind
  next => cases h

/-- What is read is a token, or begins with a bracket and goes on with what
is read one level below. -/
theorem readValue_cases {reading : Numeral.Reading} {fuel depth : Nat} {s : List Char} {j : Json}
    (h : readValue reading fuel depth s = some (j, rest)) :
    (∃ text, skipBlanks s = text ++ rest ∧ Token reading j text) ∨
    (∃ level more items, depth = level + 1 ∧ skipBlanks s = '[' :: more ∧ j = arr items ∧
      readElements fuel (readValue reading fuel level) ']' more = some (items, rest)) ∨
    ∃ level more members, depth = level + 1 ∧ skipBlanks s = '\x7b' :: more ∧ j = obj members ∧
      readElements fuel (readMember fuel (readValue reading fuel level)) '\x7d' more =
        some (members, rest) := by
  unfold readValue at h
  split at h
  next more hs =>
    cases depth with
    | zero => cases h
    | succ level =>
        obtain ⟨⟨items, _⟩, hitems, hdone⟩ := Option.map_eq_some_iff.1 h
        cases hdone
        exact .inr (.inl ⟨level, more, items, rfl, hs, rfl, hitems⟩)
  next more hs =>
    cases depth with
    | zero => cases h
    | succ level =>
        obtain ⟨⟨members, _⟩, hmembers, hdone⟩ := Option.map_eq_some_iff.1 h
        cases hdone
        exact .inr (.inr ⟨level, more, members, rfl, hs, rfl, hmembers⟩)
  next more hs =>
    obtain ⟨⟨read, _⟩, hread, hdone⟩ := Option.map_eq_some_iff.1 h
    cases hdone
    obtain ⟨text, rfl, htext⟩ := readString_eq_some hread
    exact .inl ⟨_, hs, .str htext⟩
  next more hs =>
    obtain ⟨_, hword, hdone⟩ := Option.map_eq_some_iff.1 h
    cases hdone
    exact .inl ⟨_, by rw [hs, eq_append_of_dropWord hword]; rfl, .true⟩
  next more hs =>
    obtain ⟨_, hword, hdone⟩ := Option.map_eq_some_iff.1 h
    cases hdone
    exact .inl ⟨_, by rw [hs, eq_append_of_dropWord hword]; rfl, .false⟩
  next more hs =>
    obtain ⟨_, hword, hdone⟩ := Option.map_eq_some_iff.1 h
    cases hdone
    exact .inl ⟨_, by rw [hs, eq_append_of_dropWord hword]; rfl, .null⟩
  -- neither a bracket, a quote nor the start of a word: a numeral
  next =>
    obtain ⟨⟨n, _⟩, hn, hbehind⟩ := Option.bind_eq_some_iff.1 h
    obtain ⟨v, hv, hdone⟩ := Option.bind_eq_some_iff.1 hbehind
    cases hdone
    obtain ⟨text, htext, hnumeral⟩ := readNumeral_eq_some hn
    exact .inl ⟨text, htext, .number hnumeral hv⟩

/-- A token is a text of its value at any depth. -/
theorem spelled_of_token {reading : Numeral.Reading} {depth : Nat} {j : Json} {text : List Char}
    (h : Token reading j text) : Spelled reading depth j text := by
  cases depth with
  | zero => exact h
  | succ depth => exact .inl h

/-- What is read is a text of the value read. This is by induction on the
depth that is left: the parts are read with one level less. -/
theorem sound_readValue (reading : Numeral.Reading) (fuel depth : Nat) :
    Sound (readValue reading fuel depth) (Spelled reading depth) := by
  induction depth with
  | zero =>
      intro s j rest h
      obtain ⟨gap, hgap, hs⟩ := skipBlanks_eq s
      rcases readValue_cases h with ⟨text, htext, htoken⟩ | ⟨_, _, _, hlevel, _⟩ |
        ⟨_, _, _, hlevel, _⟩
      · exact ⟨gap, text, hgap, htoken, htext ▸ hs⟩
      -- at depth zero there is no room for a list or an object
      · cases hlevel
      · cases hlevel
  | succ depth ih =>
      intro s j rest h
      obtain ⟨gap, hgap, hs⟩ := skipBlanks_eq s
      rcases readValue_cases h with ⟨text, htext, htoken⟩ | ⟨_, _, items, ⟨⟩, hopen, rfl, hitems⟩ |
        ⟨_, _, members, ⟨⟩, hopen, rfl, hmembers⟩
      · exact ⟨gap, text, hgap, spelled_of_token htoken, htext ▸ hs⟩
      · obtain ⟨text, rfl, htext⟩ := readElements_eq_some ih hitems
        exact ⟨gap, '[' :: text, hgap, .inr (.inl ⟨items, text, rfl, rfl, htext⟩),
          by rw [hs, hopen]; rfl⟩
      · obtain ⟨text, rfl, htext⟩ := readElements_eq_some (sound_readMember ih) hmembers
        exact ⟨gap, '\x7b' :: text, hgap, .inr (.inr ⟨members, text, rfl, rfl, htext⟩),
          by rw [hs, hopen]; rfl⟩

end

-- ======================================================= what is read

/-- A value whose text begins with this character, after its blanks. -/
theorem reads_of_cons {α : Type} {scanner : Scanner α} {c : Char} {more : List Char} {x : α}
    (hc : isBlank c = false)
    (h : ∀ s rest, skipBlanks s = c :: (more ++ rest) → (∀ d ∈ rest.head?, Ender d) →
      scanner s = some (x, rest)) : Reads scanner (c :: more) x := by
  intro gap rest hgap hrest
  exact h _ rest (skipBlanks_append hgap hc _) hrest

/-- The first character of a numeral is none of another token. -/
theorem ne_of_start {c : Char} (hc : c = '-' ∨ c.isDigit = true) (d : Char) (hminus : d ≠ '-')
    (hdigit : d.isDigit = false) : c ≠ d := by
  rcases hc with rfl | hc
  · exact hminus.symm
  · exact ne_of_class hc d hdigit

theorem isBlank_of_start {c : Char} (hc : c = '-' ∨ c.isDigit = true) : isBlank c = false := by
  simp only [isBlank, Bool.or_eq_false_iff, decide_eq_false_iff_not]
  exact ⟨⟨⟨ne_of_start hc ' ' (by decide) rfl, ne_of_start hc '\t' (by decide) rfl⟩,
    ne_of_start hc '\n' (by decide) rfl⟩, ne_of_start hc '\r' (by decide) rfl⟩

section

variable {reading : Numeral.Reading} {fuel depth : Nat} {j : Json} {text : List Char}

/-- A number is read from any text of a numeral for it. The first character
tells it from every other token. -/
theorem reads_numeral {n : Numeral} (hn : NumeralText n text) (hj : n.toJson? reading = some j) :
    Reads (readValue reading fuel depth) text j := by
  obtain ⟨c, more, rfl, hc⟩ := numeralText_cons hn
  have hne := ne_of_start hc
  apply reads_of_cons (isBlank_of_start hc)
  intro s rest hs hrest
  have hread := readNumeral_text hn hrest
  rw [List.cons_append] at hread
  unfold readValue
  rw [hs]
  split
  -- a number begins with a digit or a minus, so none of the other branches is taken
  next heq => exact absurd (List.cons.inj heq).1 (hne '[' (by decide) rfl)
  next heq => exact absurd (List.cons.inj heq).1 (hne '\x7b' (by decide) rfl)
  next heq => exact absurd (List.cons.inj heq).1 (hne '"' (by decide) rfl)
  next heq => exact absurd (List.cons.inj heq).1 (hne 't' (by decide) rfl)
  next heq => exact absurd (List.cons.inj heq).1 (hne 'f' (by decide) rfl)
  next heq => exact absurd (List.cons.inj heq).1 (hne 'n' (by decide) rfl)
  next =>
    simp only [hread, hj, Option.bind_eq_bind, Option.bind_some]
    rfl

/-- A value without parts is read from any of its tokens. The first character
decides which reader is used, and it differs from kind to kind. -/
theorem reads_token (h : Token reading j text) (hfuel : text.length ≤ fuel) :
    Reads (readValue reading fuel depth) text j := by
  cases h with
  | number hn hj => exact reads_numeral hn hj
  | null | true | false =>
      apply reads_of_cons rfl
      intro s rest hs _
      unfold readValue
      rw [hs]
      rfl
  | str hchars =>
      apply reads_of_cons rfl
      intro s rest hs _
      unfold readValue
      rw [hs]
      show (readString fuel (_ ++ rest)).map _ = _
      rw [readString_charsText hchars (Nat.le_of_succ_le hfuel)]
      rfl

/-- A member is read from any of its texts, once values are. Blanks may stand
on both sides of the colon. -/
theorem reads_memberText {value : Scanner Json} {spells : Json → List Char → Prop}
    {m : String × Json}
    (hvalue : ∀ {j text}, spells j text → text.length ≤ fuel → Reads value text j)
    (h : MemberText spells m text) (hfuel : text.length ≤ fuel) :
    Reads (readMember fuel value) text m := by
  obtain @⟨key, j, name, gap, space, text, hname, hgap, hspace, htext⟩ := h
  simp only [List.length_cons, List.length_append] at hfuel
  apply reads_of_cons rfl
  intro s rest hs hrest
  have hj := hvalue htext (by omega) space rest hspace hrest
  have hkey : readString fuel (name ++ (gap ++ ':' :: (space ++ (text ++ rest)))) =
      some (key, gap ++ ':' :: (space ++ (text ++ rest))) :=
    readString_charsText hname (by omega) _
  unfold readMember
  rw [hs]
  simp only [List.append_assoc, List.cons_append, hkey, Option.bind_eq_bind, Option.bind_some]
  rw [skipBlanks_append hgap rfl]
  show (value _).bind _ = _
  rw [hj]
  rfl

theorem closes_arr : Closes ']' := ⟨rfl, by decide, by decide⟩

theorem closes_obj : Closes '\x7d' := ⟨rfl, by decide, by decide⟩

/-- The text of a value begins with something that closes nothing. -/
theorem token_start (h : Token reading j text) :
    ∃ c more, text = c :: more ∧ isBlank c = false ∧ c ≠ ']' := by
  cases h with
  | number hn _ =>
      obtain ⟨c, more, rfl, hc⟩ := numeralText_cons hn
      exact ⟨c, more, rfl, isBlank_of_start hc, ne_of_start hc ']' (by decide) rfl⟩
  | _ => exact ⟨_, _, rfl, rfl, by decide⟩

theorem spelled_start (h : Spelled reading depth j text) :
    ∃ c more, text = c :: more ∧ isBlank c = false ∧ c ≠ ']' := by
  cases depth with
  | zero => exact token_start h
  | succ depth =>
      rcases h with h | ⟨items, more, -, rfl, -⟩ | ⟨members, more, -, rfl, -⟩
      · exact token_start h
      · exact ⟨'[', more, rfl, rfl, by decide⟩
      · exact ⟨'\x7b', more, rfl, rfl, by decide⟩

/-- A value is read from any of its texts. The texts of its parts are in
the text of the value, so the fuel lasts for them. -/
theorem reads_spelled (h : Spelled reading depth j text) (hfuel : text.length ≤ fuel) :
    Reads (readValue reading fuel depth) text j := by
  induction depth generalizing j text with
  | zero => exact reads_token h hfuel
  | succ depth ih =>
      rcases h with h | ⟨items, more, rfl, rfl, hitems⟩ | ⟨members, more, rfl, rfl, hmembers⟩
      · exact reads_token h hfuel
      · apply reads_of_cons rfl
        intro s rest hs _
        unfold readValue
        rw [hs]
        show (readElements fuel (readValue reading fuel depth) ']' (more ++ rest)).map _ = _
        rw [readElements_enclosed closes_arr ih spelled_start hitems (Nat.le_of_succ_le hfuel)]
        rfl
      · apply reads_of_cons rfl
        intro s rest hs _
        -- an object ends at its brace, and every member begins with a quote
        have hstart : ∀ {m text}, MemberText (Spelled reading depth) m text →
            ∃ c more, text = c :: more ∧ isBlank c = false ∧ c ≠ '\x7d' := by
          rintro _ _ ⟨⟩
          exact ⟨_, _, rfl, rfl, by decide⟩
        unfold readValue
        rw [hs]
        show (readElements fuel (readMember fuel (readValue reading fuel depth)) '\x7d'
          (more ++ rest)).map _ = _
        rw [readElements_enclosed closes_obj (reads_memberText ih) hstart hmembers
          (Nat.le_of_succ_le hfuel)]
        rfl

end

-- ============================================================== depth

section

variable {reading : Numeral.Reading} {j k : Json} {source : String}

/-- Nested at most so deep. -/
inductive Nested : Nat → Json → Prop
  | null {depth : Nat} : Nested depth null
  | bool {depth : Nat} {b : Bool} : Nested depth (bool b)
  | int {depth : Nat} {i : Int} : Nested depth (int i)
  | float {depth : Nat} {x : Double} : Nested depth (float x)
  | str {depth : Nat} {s : String} : Nested depth (str s)
  | arr {depth : Nat} {items : List Json} (each : ∀ item ∈ items, Nested depth item) :
      Nested (depth + 1) (arr items)
  | obj {depth : Nat} {members : List (String × Json)} (each : ∀ m ∈ members, Nested depth m.2) :
      Nested (depth + 1) (obj members)

/-- A value that nests so deep nests at most deeper, so a bound may be
relaxed wherever two parts have different ones. -/
theorem Nested.mono {depth depth' : Nat} (h : Nested depth j) (hle : depth ≤ depth') :
    Nested depth' j := by
  induction h generalizing depth' with
  | null => exact .null
  | bool => exact .bool
  | int => exact .int
  | float => exact .float
  | str => exact .str
  | arr _ ih =>
      obtain ⟨depth', rfl⟩ := Nat.exists_eq_add_of_le' ((Nat.le_add_left 1 _).trans hle)
      exact .arr fun item hitem => ih item hitem (Nat.le_of_succ_le_succ hle)
  | obj _ ih =>
      obtain ⟨depth', rfl⟩ := Nat.exists_eq_add_of_le' ((Nat.le_add_left 1 _).trans hle)
      exact .obj fun m hm => ih m hm (Nat.le_of_succ_le_succ hle)

theorem nested_of_token {depth : Nat} {text : List Char} (h : Token reading j text) :
    Nested depth j := by
  cases h with
  | null => exact .null
  | true => exact .bool
  | false => exact .bool
  | str _ => exact .str
  | @number n _ _ _ hj =>
      unfold Numeral.toJson? at hj
      split at hj
      next =>
        cases hj
        exact .int
      next =>
        obtain ⟨x, -, rfl⟩ := Option.map_eq_some_iff.1 hj
        exact .float

/-- A value nests no deeper than one of its texts. -/
theorem nested_of_spelled {depth : Nat} {text : List Char} (h : Spelled reading depth j text) :
    Nested depth j := by
  induction depth generalizing j text with
  | zero => exact nested_of_token h
  | succ depth ih =>
      rcases h with h | ⟨items, more, rfl, rfl, hitems⟩ | ⟨members, more, rfl, rfl, hmembers⟩
      · exact nested_of_token h
      · exact .arr (hitems.forall ih)
      · refine .obj (hmembers.forall ?_)
        rintro _ _ ⟨-, -, -, hspelled⟩
        exact ih hspelled

/-- A text need not nest deeper than its value does. So the bound of a text
is a matter of the value alone. -/
theorem Spelled.of_nested {depth depth' : Nat} {text : List Char}
    (h : Spelled reading depth j text) (hj : Nested depth' j) : Spelled reading depth' j text := by
  induction depth generalizing depth' j text with
  | zero => exact spelled_of_token h
  | succ depth ih =>
      rcases h with h | ⟨items, more, rfl, rfl, hitems⟩ | ⟨members, more, rfl, rfl, hmembers⟩
      · exact spelled_of_token h
      · cases hj with
        | arr each =>
            exact .inr (.inl ⟨items, more, rfl, rfl,
              hitems.imp fun item hitem => fun htext => ih htext (each item hitem)⟩)
      · cases hj with
        | obj each =>
            refine .inr (.inr ⟨members, more, rfl, rfl, hmembers.imp fun m hm => ?_⟩)
            rintro _ ⟨hname, hgap, hspace, hspelled⟩
            exact .mk hname hgap hspace (ih hspelled (each _ hm))

-- ======================================================== main results

/-- A value is read from its text at any depth that has room for it, and only
blanks are left. -/
theorem TextOf.readValue {depth : Nat} (h : TextOf reading j source) (hj : Nested depth j) :
    ∃ after, AllBlank after ∧
      Json.readValue reading (source.length + 1) depth source.toList = some (j, after) := by
  obtain ⟨_, before, text, after, hbefore, hspelled, hafter, hsource⟩ := h
  have hlength := congrArg List.length hsource
  rw [String.length_toList, List.length_append, List.length_append] at hlength
  refine ⟨after, hafter, ?_⟩
  rw [hsource]
  refine reads_spelled (hspelled.of_nested hj) (by omega) before after hbefore fun c hc => ?_
  exact ender_of_blank (hafter c (List.mem_of_mem_head? hc))

/-- A value with a text nests at some depth. -/
theorem TextOf.nested (h : TextOf reading j source) : ∃ depth, Nested depth j := by
  obtain ⟨depth, _, _, _, _, hspelled, _⟩ := h
  exact ⟨depth, nested_of_spelled hspelled⟩

/-- A text has one value: at a depth with room for both it is read as each. -/
theorem TextOf.unique (h : TextOf reading j source) (h' : TextOf reading k source) : j = k := by
  obtain ⟨depth, hj⟩ := h.nested
  obtain ⟨depth', hk⟩ := h'.nested
  obtain ⟨_, -, hread⟩ := h.readValue (hj.mono (Nat.le_max_left depth depth'))
  obtain ⟨_, -, hread'⟩ := h'.readValue (hk.mono (Nat.le_max_right depth depth'))
  rw [hread] at hread'
  cases hread'
  rfl

/-- The texts that are read as a value are its texts, unless it nests too
deep. -/
theorem parseWith?_eq_some_iff :
    parseWith? reading source = some j ↔ TextOf reading j source ∧ Nested nestingLimit j := by
  constructor
  · intro h
    unfold parseWith? at h
    split at h
    next value rest hread =>
      split at h
      next hempty =>
        cases h
        obtain ⟨before, text, hbefore, hspelled, hsource⟩ := sound_readValue _ _ _ hread
        refine ⟨⟨nestingLimit, before, text, rest, hbefore, hspelled, ?_, hsource⟩,
          nested_of_spelled hspelled⟩
        obtain ⟨gap, hgap, hrest⟩ := skipBlanks_eq rest
        rw [List.isEmpty_iff.1 hempty, List.append_nil] at hrest
        exact hrest ▸ hgap
      next => cases h
    next => cases h
  · intro ⟨htext, hj⟩
    obtain ⟨after, hafter, hread⟩ := htext.readValue hj
    -- what the scanner leaves over is blank, so nothing is left after it is skipped
    have hskip : skipBlanks after = [] := List.dropWhile_eq_nil_iff.2 hafter
    unfold parseWith?
    rw [hread]
    simp [hskip]

end

end Json

end TypedSelect
