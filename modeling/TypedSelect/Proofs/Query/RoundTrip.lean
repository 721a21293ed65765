/-
A query survives its JSON text.

The two texts of a query are read back as the query when its floating
point numbers are, and a reading that finds the nearest number takes back
every finite one. A valid query is finite, so one that has passed the
checks passes them again when it is read from its own text.

# Three steps

The JSON of a query nests far less than the reader allows and holds the
numbers of the query only (`printable_encode`), so the reader takes either
text for that JSON. The codec is lawful, so the JSON is decoded to the
query (`decode_encode`). And the checks see the query that they have seen
before. Each step has its own hypothesis, and the lemmas keep them apart:
the first two need nothing but good numbers, and hold for queries that no
check has seen.

# The reading of numbers is a parameter

How a numeral becomes a floating point number is left open throughout
(`reading`). The library has one way of its own that is not always the
nearest, so the statements come in two forms: for a reading that takes
back the numbers of the query at hand, whichever reading it is, and for a
reading that finds the nearest number, where being finite is enough.

A query reaches a caller as the result of the checks, either on a text or
on a query that was put together. `reads_back` speaks of both at once:
what they let through is valid, and so its numbers are finite.
-/
import TypedSelect.Proofs.Query.Codec
import TypedSelect.Proofs.Scope.Agreement

namespace TypedSelect

namespace Query

open Json (Numeral Printable)

variable {reading : Numeral.Reading} {q : Query}

/-- The JSON of a query nests far less than the reader allows, and it holds
the floating point numbers of the query and no others. -/
theorem printable_encode {good : Double → Prop} (h : q.AllFloats good) :
    Printable good Json.nestingLimit (codec.encode q) := by
  have hroom : jsonDepth ≤ Json.nestingLimit := by decide
  exact lawful_codec.printable hroom h

/-- What a query is encoded as is decoded to it. No condition on the numbers
is needed, as nothing is written as text here. -/
theorem decode_encode (q : Query) : codec.decode (codec.encode q) = some q :=
  (@lawful_codec (fun _ => True) 0).reads .outside q

/-- Both texts are read back if the floating point numbers are. Either text
is one of the JSON that the query is encoded as. -/
theorem readWith_of_printable
    (h : Printable (Double.ReadBy reading) Json.nestingLimit (codec.encode q)) :
    codec.readWith reading q.toJson = some q ∧
      codec.readWith reading q.toPrettyJson = some q := by
  have htext := Json.parseWith?_text h
  have hpretty := Json.parseWith?_prettyText h
  unfold Codec.readWith
  constructor
  · show (Json.parseWith? reading (codec.encode q).text).bind codec.decode = some q
    rw [htext, Option.bind_some, decode_encode]
  · show (Json.parseWith? reading (codec.encode q).prettyText).bind codec.decode = some q
    rw [hpretty, Option.bind_some, decode_encode]

/-- A query that has passed the checks and is read back passes them again,
and has the same SQL. -/
theorem ofJsonWith_of_readWith (hread : codec.readWith reading q.toJson = some q)
    (hq : q.checked = .ok q) :
    ofJsonWith reading q.toJson = .ok q ∧
      ∀ settings, (ofJsonWith reading q.toJson).map (toSql settings) =
        .ok (q.toSql settings) := by
  have hok : ofJsonWith reading q.toJson = .ok q := by
    unfold ofJsonWith
    rw [hread]
    exact hq
  refine ⟨hok, fun settings => ?_⟩
  rw [hok]
  rfl

/-- Whatever the reading, a query that has passed the checks is the query
of its text if the reading takes its floating point numbers back. The
library's own reading is one of them. -/
theorem ofJsonWith_toJson (hq : q.checked = .ok q)
    (h : q.AllFloats (Double.ReadBy reading)) : ofJsonWith reading q.toJson = .ok q :=
  (ofJsonWith_of_readWith (readWith_of_printable (printable_encode h)).1 hq).1

/-- A query with a zero with a sign, whole numbers that are floating
point and some that are not, and numbers with exponents. -/
def numbers : Query where
  select := [
    .binary ⟨⟨.column ⟨none, .price⟩, .mul, .number (.float (.ofDecimal false 119 (-2)))⟩,
      "gross"⟩,
    .case ⟨[⟨⟨⟨none, .title⟩, .isNull, none⟩, .literal (.float (.ofDecimal true 0 0))⟩],
      some (.literal (.int 0)), "mark"⟩,
    .aggregate ⟨.percentileCont, some (.column ⟨none, .price⟩), false,
      some (.ofDecimal false 5 (-1)), "mid"⟩]
  source := ⟨some .productOffers, none, [], none⟩
  filter := some {
    groups := [⟨[.simple ⟨⟨none, .price⟩, .isIn,
      some (.list [.float (.ofDecimal false 20 0), .int 20,
        .float (.ofDecimal false 5 (-324))])⟩], .and⟩]
    between := [⟨⟨none, .rating⟩, .float (.ofDecimal true 1 16), .string "\"\\\n"⟩] }
  groupBy := none
  having := none
  orderBy := none
  limit := some ⟨10, 0⟩

-- ======================================================== main results

/-- Where numerals are read as the nearest number, a query is decoded from
either of its texts, valid or not, if its floating point numbers are
finite. A query that was read from a text or put together clause by
clause, and passed the checks on the way out, is read from its text and
has the same SQL. -/
theorem reads_back (hreading : reading.IsNearest) :
    (∀ q : Query, q.AllFloats Double.Finite →
      codec.readWith reading q.toJson = some q ∧
        codec.readWith reading q.toPrettyJson = some q) ∧
    ∀ q : Query, (∃ source, ofJsonWith reading source = .ok q) ∨
        (∃ q₀ : Query, q₀.checked = .ok q) →
      ofJsonWith reading q.toJson = .ok q ∧
        ∀ settings, (ofJsonWith reading q.toJson).map (toSql settings) =
          .ok (q.toSql settings) := by
  have hfinite : ∀ q : Query, q.AllFloats Double.Finite →
      codec.readWith reading q.toJson = some q ∧
        codec.readWith reading q.toPrettyJson = some q := by
    intro q h
    exact readWith_of_printable
      ((printable_encode h).imp fun _ => Double.readBy_of_isNearest hreading)
  refine ⟨hfinite, fun q h => ?_⟩
  have hq : q.checked = .ok q := by
    rcases h with ⟨source, h⟩ | ⟨q₀, h⟩
    · exact checked_of_ofJson h
    · obtain ⟨rfl, _⟩ := checked_eq_ok.1 h
      exact h
  have hvalid : q.validate = .ok () := (checked_eq_ok.1 hq).2.1
  exact ofJsonWith_of_readWith (hfinite q (finite_of_validate hvalid)).1 hq

/-- The numbers are read back from both texts where the reading is the
nearest one. -/
theorem numbers_read_back :
    Numeral.Reading.IsNearest Numeral.nearest? ∧ numbers.checked = .ok numbers ∧
      ofJsonWith Numeral.nearest? numbers.toJson = .ok numbers ∧
      codec.readWith Numeral.nearest? numbers.toPrettyJson = some numbers := by
  have hnearest : Numeral.Reading.IsNearest Numeral.nearest? := fun _ _ h => h
  have hchecked : numbers.checked = .ok numbers := by decide +kernel
  have hvalid : numbers.validate = .ok () := (checked_eq_ok.1 hchecked).2.1
  obtain ⟨hread, hrest⟩ := reads_back hnearest
  exact ⟨hnearest, hchecked, (hrest numbers (.inr ⟨numbers, hchecked⟩)).1,
    (hread numbers (finite_of_validate hvalid)).2⟩

end Query

end TypedSelect
