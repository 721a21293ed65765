/-
Nothing in the text of a query is dropped.

The JSON a query was read from and the JSON it is written as are the same
up to the rules of `Grammar.Rewrites`, and a text with one more member
somewhere is no query unless the grammar has room for the member. So
whatever a caller writes is either in the query or makes the text be
refused.

# What is left open

Three things do not go without saying. Inside tagged values two more
spellings are taken than elsewhere: an empty object for a name, and the
position of a tag for the tag. And floating point numbers are the ones
that the reading finds, which need not be the ones that the text denotes.
The rules have a flag for the first two and the statement a parameter for
the third, and the last theorem shows that none of them can be left out.

# The argument

The codec of queries follows the grammar of queries. Its first half is the
rewriting. Its second half is about two pieces of JSON that differ in one
member: if both are read, the member fills a place that the grammar has.
So if the grammar has no such place and the one is read, the other is not,
and a text of it is malformed (`ofJsonWith_of_inserts`).
-/
import TypedSelect.Proofs.Query.Grammar

namespace TypedSelect

namespace Query

open Json (Inserts Numeral)

variable {reading : Numeral.Reading}

/-- A text with a member too many is malformed, whatever the member's value
and wherever the object stands. -/
theorem ofJsonWith_of_inserts {t' key : String} {j j' : Json} {q : Query}
    (hq : codec.decode j = some q)
    (hj' : Json.parseWith? reading t' = some j') (hins : Inserts key j j')
    (hroom : ¬ Grammar.query.Fills key j j') : ofJsonWith reading t' = .error .malformed := by
  have hnone : codec.readWith reading t' = none := by
    unfold Codec.readWith
    rw [hj', Option.bind_some]
    cases hq' : codec.decode j' with
    | none => rfl
    | some q' => exact absurd (follows_codec.fills hq hins hq') hroom
  unfold ofJsonWith
  rw [hnone]

-- ============================================================= samples

/-- The rows of one item. -/
def ofItem (item : SelectExpr) : Query :=
  ⟨[item], .ofTable .productOffers, none, none, none, none, none⟩

/-- A query of one item with these members, as JSON. -/
def itemJson (members : List (String × Json)) : Json :=
  .obj [("select", .arr [.obj members]), ("from", .obj [("table", .str "product_offers")])]

/-- A column under its name over an empty object, inside a tagged item. -/
def emptyName : String :=
  "\x7b\"select\":[\x7b\"type\":\"column\",\"column\":\x7b\"price\":\x7b\x7d\x7d\x7d]," ++
    "\"from\":\x7b\"table\":\"product_offers\"\x7d\x7d"

/-- The reader takes the text for the JSON that it spells. -/
theorem parse_emptyName : Json.parse? emptyName =
    some (itemJson [("type", .str "column"), ("column", .obj [("price", .obj [])])]) := by
  rfl

/-- The same text with a member that queries do not have. -/
def misspelled : String :=
  "\x7b\"select\":[\x7b\"type\":\"column\",\"column\":\x7b\"price\":\x7b\x7d\x7d\x7d]," ++
    "\"from\":\x7b\"table\":\"product_offers\"\x7d,\"were\":null\x7d"

/-- So it does with the member that queries do not have. -/
theorem parse_misspelled : Json.parse? misspelled =
    some (.obj [("select", .arr [.obj [("type", .str "column"),
      ("column", .obj [("price", .obj [])])]]), ("from", .obj [("table", .str "product_offers")]),
      ("were", .null)]) := by
  rfl

/-- An operand with the position of its tag, inside a tagged item. -/
def numberedTag : String :=
  "\x7b\"select\":[\x7b\"type\":\"binary_arithmetic\",\"left\":\x7b\"kind\":1,\"value\":2\x7d," ++
    "\"op\":\"+\",\"right\":\x7b\"kind\":\"column\",\"column\":\"price\"\x7d,\"alias\":\"n\"\x7d]," ++
    "\"from\":\x7b\"table\":\"product_offers\"\x7d\x7d"

set_option maxRecDepth 1000 in
/-- And with the position in place of a tag. -/
theorem parse_numberedTag : Json.parse? numberedTag =
    some (itemJson [("type", .str "binary_arithmetic"),
      ("left", .obj [("kind", .int 1), ("value", .int 2)]), ("op", .str "+"),
      ("right", .obj [("kind", .str "column"), ("column", .str "price")]),
      ("alias", .str "n")]) := by
  rfl

/-- A number with more digits than are read, in the shortest spelling. -/
def manyDigits : String :=
  "[[[\"binary_arithmetic\",[\"number\",249.49856642924962],\"+\"," ++
    "[\"column\",null,\"price\"],\"n\"]],[\"product_offers\"]]"

-- ======================================================== main results

/-- Whatever the reading of numbers, the JSON of a text that is read as a
query is rewritten to the JSON of the query, and that is what the query's
own text holds for a reading that takes its floating point numbers back.
Every text of the same value with one member more is malformed, unless
the member is one that the record it stands in has and that was left out. -/
theorem drops_nothing {t : String} {q : Query} (h : codec.readWith reading t = some q) :
    ∃ j, Json.parseWith? reading t = some j ∧
      Grammar.query.Rewrites true .outside j (codec.encode q) ∧
      q.toJson = (codec.encode q).text ∧
      (∀ own : Numeral.Reading, q.AllFloats (Double.ReadBy own) →
        Json.parseWith? own q.toJson = some (codec.encode q)) ∧
      ∀ key t' j', Json.parseWith? reading t' = some j' → Inserts key j j' →
        ¬ Grammar.query.Fills key j j' → ofJsonWith reading t' = .error .malformed := by
  obtain ⟨j, hj, hq⟩ := Option.bind_eq_some_iff.1 h
  refine ⟨j, hj, follows_codec.rewrites hq, rfl, ?_, ?_⟩
  · intro own hown
    exact Json.parseWith?_text (printable_encode hown)
  · intro key t' j' hj' hins hroom
    exact ofJsonWith_of_inserts hq hj' hins hroom

/-- The column is read and written with its name alone, and the text with
the member that queries do not have is malformed. -/
theorem emptyName_drops_nothing :
    codec.read emptyName = some (ofItem (.column ⟨none, .price, none⟩)) ∧
      Grammar.query.Rewrites true .outside
        (itemJson [("type", .str "column"), ("column", .obj [("price", .obj [])])])
        (itemJson [("type", .str "column"), ("column", .str "price")]) ∧
      ofJson misspelled = .error .malformed := by
  have hread : codec.read emptyName = some (ofItem (.column ⟨none, .price, none⟩)) :=
    congrArg (·.bind codec.decode) parse_emptyName
  obtain ⟨j, hj, hrewrites, -, -, hstrict⟩ := drops_nothing hread
  obtain rfl := Option.some.inj (parse_emptyName.symm.trans hj)
  refine ⟨hread, hrewrites, hstrict "were" misspelled _ parse_misspelled ?_ ?_⟩
  · exact .here [_, _] [] .null
  · intro hfills
    have hkey := (Grammar.fills_members hfills (by decide)).1
    revert hkey
    decide

/-- The first item of a select list is rewritten by the grammar of items.
What holds of the rewriting of the query is taken down to where it matters. -/
theorem rewrites_item {lenient : Bool} {item written : Json} {others : List (String × Json)}
    (h : Grammar.query.Rewrites lenient .outside (.obj (("select", .arr [item]) :: others))
      written) : ∃ j, Grammar.selectExpr.Rewrites lenient .outside item j := by
  obtain ⟨_, hselect⟩ := h.member (i := 0) rfl (if_pos rfl) trivial
  cases hselect with
  | list each =>
      cases each with
      | cons head tail => exact ⟨_, head⟩

/-- None of the three can be left out: an empty object under a name, a
position for a tag, and a floating point number that is not the nearest. -/
theorem leave_is_needed :
    (∃ q j, codec.read emptyName = some q ∧ Json.parse? emptyName = some j ∧
      ¬ Grammar.query.Rewrites false .outside j (codec.encode q)) ∧
    (∃ q j, codec.read numberedTag = some q ∧ Json.parse? numberedTag = some j ∧
      ¬ Grammar.query.Rewrites false .outside j (codec.encode q)) ∧
    ∃ q q', codec.read manyDigits = some q ∧
      codec.readWith Numeral.nearest? manyDigits = some q' ∧ q ≠ q' := by
  refine ⟨⟨ofItem (.column ⟨none, .price, none⟩), _,
      congrArg (·.bind codec.decode) parse_emptyName, parse_emptyName, ?_⟩,
    ⟨ofItem (.binary ⟨⟨.number (.int 2), .add, .column ⟨none, .price⟩⟩, "n"⟩), _,
      congrArg (·.bind codec.decode) parse_numberedTag, parse_numberedTag, ?_⟩,
    ⟨ofItem (.binary ⟨⟨.number (.float (.ofDecimal false 2494985664292496 (-13))), .add,
        .column ⟨none, .price⟩⟩, "n"⟩),
      ofItem (.binary ⟨⟨.number (.float (.ofDecimal false 24949856642924962 (-14))), .add,
        .column ⟨none, .price⟩⟩, "n"⟩), ?_, ?_, ?_⟩⟩
  · intro h
    obtain ⟨_, hitem⟩ := rewrites_item h
    obtain ⟨tag, fields, _, hmarks, hchosen, hbody⟩ := hitem.untagged
    cases hmarks with
    | name known =>
        have hfields : fields = Grammar.columnExprFields := by simpa using hchosen
        subst hfields
        obtain ⟨_, hcolumn⟩ := hbody.member (i := 1) rfl (if_pos rfl) trivial
        cases hcolumn with
        -- without the flag there is no rule for an empty object
        | nameOfEmpty leave _ => cases leave
  · intro h
    obtain ⟨_, hitem⟩ := rewrites_item h
    obtain ⟨tag, fields, _, hmarks, hchosen, hbody⟩ := hitem.untagged
    cases hmarks with
    | name known =>
        have hfields : fields = Grammar.binaryArithmeticFields := by simpa using hchosen
        subst hfields
        obtain ⟨_, hleft⟩ := hbody.member (i := 0) rfl (if_pos rfl) trivial
        obtain ⟨_, _, _, hmarks, -⟩ := hleft.untagged
        cases hmarks with
        -- nor one for a position
        | position leave _ => cases leave
  · decide +kernel
  · decide +kernel
  · decide +kernel

end Query

end TypedSelect
