/-
A filter and the same filter as one that could have subqueries.

Inside a subquery or a derived table a filter has no subqueries of its
own, so there are two kinds of filters, and a filter of the plain kind is
turned into the other one where it is used at the top. Validity,
rendering, the check of names and the JSON form each have a body for
either kind. That the two agree is therefore a statement about four pairs
of functions.

# Pairs of bodies

Where the list of subqueries is empty each pair of bodies goes through the
same steps, and the step over the subqueries is one that does nothing. So
the two can only differ where a filter tests nothing and the error names
its entity. In the check such a step is a last one that always passes
(`Check.bind_ok`), in the rendering it puts nothing at the end of the parts
(`render_promote`), and where there is a part it does not matter for which
entity the parts are joined (`joinParts_congr`).

# The JSON

The JSON of both is the same object: the list of subqueries is left out
where it is empty. For an object that says nothing of subqueries, the
reader of the one kind has a slot more than the reader of the other, and
it is a slot that stays empty. The proof takes both readings apart, slot
by slot (`Members.decodeAt_and`).

# What is lost

A text is read back only if the reading takes back its numbers, and the
library's own reading does not always do that. `finePrice` is a valid
filter whose text is read as a filter with another price, by both kinds
alike.
-/
import TypedSelect.Proofs.Query.RoundTrip
import TypedSelect.Proofs.Scope.Steps

namespace TypedSelect

open Json (Numeral)

-- ============================================================ sequences

/-- A check that is the last one: what comes after it passes always. -/
theorem Check.bind_ok {ε : Type} (x : Except ε Unit) : (x >>= fun _ => .ok ()) = x := by
  cases x <;> rfl

/-- A member with one slot is read from the first one, and the others are
read from what is left. -/
theorem Members.decodeAt_and {α β : Type} {m : Members α} {n : Members β} {place : Place}
    {slot : Option Json} {slots : List (Option Json)} (hm : m.names.length = 1) :
    (m.and n).decodeAt place (slot :: slots) =
      (m.decodeAt place [slot]).bind fun a =>
        (n.decodeAt place slots).bind fun b => some (a, b) := by
  show ((m.decodeAt place (List.take m.names.length (slot :: slots))).bind fun a =>
    (n.decodeAt place (List.drop m.names.length (slot :: slots))).bind fun b => some (a, b)) = _
  rw [hm]
  rfl

-- ============================================================ one filter

namespace Filter

variable (w : Filter) (s : Scope)

/-- Without subqueries a filter tests something under either kind or under
none. -/
theorem isEmpty_promote : w.promote.isEmpty = w.isEmpty := Bool.and_true _

/-- A filter that could have subqueries and has none is its parts alone. -/
theorem render_promote :
    w.promote.render s = w.renderParts s >>= Sql.joinParts .topFilter w.logic := by
  refine Traced.bind_congr fun parts _ => ?_
  show Sql.joinParts .topFilter w.logic (parts ++ []) = _
  rw [List.append_nil]

/-- Where a filter has a part, which entity it is does not matter. -/
theorem joinParts_congr {parts : List Sql} (h : parts ≠ []) (e e' : Entity) (logic : Logic) :
    Sql.joinParts e logic parts = Sql.joinParts e' logic parts := by
  cases parts with
  | nil => exact absurd rfl h
  | cons part rest => rfl

/-- Where a filter tests something there is a part to join, so the entity
that an error would name does not come into it. -/
theorem render_promote_of_tests {w : Filter} (h : w.isEmpty = false) :
    w.promote.render s = w.render s := by
  rw [render_promote]
  refine Traced.bind_congr fun parts hparts => joinParts_congr ?_ _ _ _
  rintro rfl
  have hlength := length_of_renderParts s hparts
  have hempty : w.isEmpty = true := by
    rw [List.length_nil] at hlength
    simp only [isEmpty, Bool.and_eq_true, List.isEmpty_iff_length_eq_zero]
    omega
  rw [hempty] at h
  cases h

/-- The two checks differ in the entity of their first fault, which does not
occur here, and in a last step over no subqueries. -/
theorem validate_promote_of_tests {w : Filter} (h : w.isEmpty = false) :
    w.promote.validate = w.validate := by
  have hw : w.promote.isEmpty = false := (isEmpty_promote w).trans h
  unfold TopFilter.validate Filter.validate
  rw [h, hw]
  show (_ >>= fun _ => _ >>= fun _ => Check.each Between.validate w.between >>= fun _ => .ok ()) = _
  rw [Check.bind_ok]
  rfl

/-- The check of names of either looks up the same references. The one with
subqueries ends with a step over none of them. -/
theorem checkTopFilter_promote :
    s.checkTopFilter w.promote = Check.each s.resolve w.references := by
  rw [← s.checkFilter_eq]
  exact Check.bind_ok _

-- ============================================================== the JSON

/-- A name that no member has does not matter to what may be said. -/
theorem all_contains {members : List (String × Json)} {name : String}
    (h : name ∉ members.map Prod.fst) (before after : List String) :
    (members.all fun m => (before ++ name :: after).contains m.1) =
      members.all fun m => (before ++ after).contains m.1 := by
  rw [Bool.eq_iff_iff, List.all_eq_true, List.all_eq_true]
  refine forall₂_congr fun m hm => ?_
  have hne : m.1 ≠ name := fun heq => h (heq ▸ List.mem_map_of_mem hm)
  simp [hne]

/-- An object that says nothing of subqueries is read as the one kind of
filter exactly if it is read as the other. -/
theorem decode_promote {members : List (String × Json)}
    (h : "subqueries" ∉ members.map Prod.fst) :
    TopFilter.codec.decode (.obj members) = (codec.decode (.obj members)).map promote := by
  have hall := all_contains h ["groups", "between"] ["group_logic"]
  have hnone : Json.member? "subqueries" members = none := Json.member?_eq_none h
  show (Codec.slots (["groups", "between"] ++ "subqueries" :: ["group_logic"])
      (.obj members)).bind _ =
    ((Codec.slots (["groups", "between"] ++ ["group_logic"]) (.obj members)).bind _).map promote
  unfold Codec.slots
  dsimp only
  rw [hall]
  split
  · simp only [List.cons_append, List.nil_append, List.map_cons, List.map_nil, hnone,
      Option.bind_some, Members.iso]
    rw [Members.decodeAt_and rfl, Members.decodeAt_and rfl, Members.decodeAt_and rfl,
      Members.decodeAt_and rfl, Members.decodeAt_and rfl]
    -- slot by slot: both read the same members from the same slots, and the
    -- slot in between is the empty list of subqueries
    cases (Members.listed "groups" ConditionGroup.codec).decodeAt .outside
        [Json.member? "groups" members] with
    | none => rfl
    | some groups =>
        cases (Members.listed "between" Between.codec).decodeAt .outside
            [Json.member? "between" members] with
        | none => rfl
        | some between =>
            cases (Members.defaulted "group_logic" Codec.symbol Logic.and).decodeAt .outside
                [Json.member? "group_logic" members] with
            | none => rfl
            | some logic => rfl
  · rfl

/-- The JSON of a filter nests far less than the reader allows. -/
theorem printable_encode {good : Double → Prop} {w : Filter} (h : w.AllFloats good) :
    Json.Printable good Json.nestingLimit (codec.encode w) :=
  lawful_codec.printable (by decide) h

/-- The text of a filter is read as either kind if its floating point
numbers are. -/
theorem readWith_of_printable {reading : Numeral.Reading} {w : Filter}
    (h : Json.Printable (Double.ReadBy reading) Json.nestingLimit (codec.encode w)) :
    codec.readWith reading (codec.write w) = some w ∧
      TopFilter.codec.readWith reading (codec.write w) = some w.promote := by
  have hparse : Json.parseWith? reading (codec.write w) = some (codec.encode w) :=
    Json.parseWith?_text h
  have hreads : codec.decode (codec.encode w) = some w :=
    (@lawful_codec (fun _ => True) 0).reads .outside w
  have hreads' : TopFilter.codec.decode (codec.encode w) = some w.promote :=
    (@TopFilter.lawful_codec (fun _ => True) 0).reads .outside w.promote
  unfold Codec.readWith
  rw [hparse]
  exact ⟨hreads, hreads'⟩

-- ========================================================= main results

/-- A filter and its promotion are interchangeable. Where there is
something to test they are valid alike and rendered alike, with the same
text, error and report; where there is nothing each is refused under its
own name. Their names are looked up in the same order with the same
outcome. They have one JSON, which is read as either of them wherever the
reading takes their floating point numbers back, as the nearest one does
with all that are finite; and so has every object without subqueries. -/
theorem promotes (w : Filter) :
    (w.isEmpty = false →
      w.promote.validate = w.validate ∧ ∀ s, w.promote.render s = w.render s) ∧
    (w.isEmpty = true →
      (w.validate = .error (.empty .filter "groups") ∧
        w.promote.validate = .error (.empty .topFilter "groups")) ∧
      ∀ s, w.render s = Traced.illFormed .filter .noConditions ∧
        w.promote.render s = Traced.illFormed .topFilter .noConditions) ∧
    (∀ s : Scope, s.checkFilter w = Check.each s.resolve w.references ∧
      s.checkTopFilter w.promote = Check.each s.resolve w.references) ∧
    TopFilter.codec.write w.promote = codec.write w ∧
    (∀ reading, w.AllFloats (Double.ReadBy reading) →
      codec.readWith reading (codec.write w) = some w ∧
        TopFilter.codec.readWith reading (codec.write w) = some w.promote) ∧
    (∀ reading : Numeral.Reading, reading.IsNearest → w.AllFloats Double.Finite →
      codec.readWith reading (codec.write w) = some w ∧
        TopFilter.codec.readWith reading (codec.write w) = some w.promote) ∧
    ∀ members : List (String × Json), "subqueries" ∉ members.map Prod.fst →
      TopFilter.codec.decode (.obj members) = (codec.decode (.obj members)).map promote := by
  refine ⟨fun h => ⟨validate_promote_of_tests h, fun s => render_promote_of_tests s h⟩,
    fun h => ?_, fun s => ⟨s.checkFilter_eq w, checkTopFilter_promote w s⟩, rfl,
    fun _ h => readWith_of_printable (printable_encode h), fun reading hreading h => ?_,
    fun _ => decode_promote⟩
  · obtain ⟨groups, between, logic⟩ := w
    obtain ⟨hgroups, hbetween⟩ := Bool.and_eq_true_iff.1 h
    cases List.isEmpty_iff.1 hgroups
    cases List.isEmpty_iff.1 hbetween
    exact ⟨⟨rfl, rfl⟩, fun _ => ⟨rfl, rfl⟩⟩
  · exact readWith_of_printable ((printable_encode h).imp fun _ =>
      Double.readBy_of_isNearest hreading)

/-- A test in a group and a range, with one floating point number. -/
def priced : Filter where
  groups := [.single (.simple ⟨.bare .brand, .like, some (.scalar (.string "O'%"))⟩)]
  between := [⟨.bare .price, .float (.ofDecimal false 5 (-1)), .int 250⟩]
  logic := .or

/-- The filter with a price is read from its text as either kind, by the
library's own reading; the one that tests nothing is refused twice, under
two names. -/
theorem priced_promotes :
    priced.promote.validate = .ok () ∧
    priced.promote.render ⟨{}, [], []⟩ = priced.render ⟨{}, [], []⟩ ∧
    codec.read (codec.write priced) = some priced ∧
    TopFilter.codec.read (codec.write priced) = some priced.promote ∧
    ({ : Filter}).promote.render ⟨{}, [], []⟩ = Traced.illFormed .topFilter .noConditions := by
  -- one half is read back from the digits that it is written in
  have hhalf : Double.ReadBy Numeral.toDouble? (.ofDecimal false 5 (-1)) := by
    refine ⟨⟨false, ['0'], some ['5'], none⟩, by decide +kernel, ?_, rfl, by decide +kernel⟩
    refine ⟨List.cons_ne_nil _ _, ?_, .inl rfl, fun digits hdigits => ?_⟩
    · exact fun c hc => List.mem_singleton.1 hc ▸ rfl
    · cases hdigits
      exact ⟨List.cons_ne_nil _ _, fun c hc => List.mem_singleton.1 hc ▸ rfl⟩
  have hread : priced.AllFloats (Double.ReadBy Numeral.toDouble?) := by
    refine ⟨fun g hg => ?_, fun p hp => ?_⟩
    · cases List.mem_singleton.1 hg
      intro c hc
      cases List.mem_singleton.1 hc
      intro v hv
      cases hv
      trivial
    · cases List.mem_singleton.1 hp
      exact ⟨hhalf, trivial⟩
  obtain ⟨htests, -, -, -, hreads, -⟩ := promotes priced
  obtain ⟨hvalid, hrender⟩ := htests rfl
  have hempty := (promotes {}).2.1 rfl
  exact ⟨hvalid.trans (by decide +kernel), hrender _, (hreads _ hread).1, (hreads _ hread).2,
    (hempty.2 _).2⟩

/-- A price in a range, with more digits than the library reads. -/
def finePrice : Filter where
  between := [⟨.bare .price, .float (.ofDecimal false 24949856642924962 (-14)), .int 250⟩]

/-- The price is finite and the filter valid, and its text is read as a
filter with another price, as either kind. -/
theorem finePrice_is_lost :
    finePrice.AllFloats Double.Finite ∧ finePrice.validate = .ok () ∧
    codec.write finePrice = "\x7b\"between\":[\x7b\"column\":\x7b\"column\":\"price\"\x7d," ++
      "\"low\":249.49856642924962,\"high\":250\x7d],\"group_logic\":\"AND\"\x7d" ∧
    ∃ w : Filter, w ≠ finePrice ∧ codec.read (codec.write finePrice) = some w ∧
      TopFilter.codec.read (codec.write finePrice) = some w.promote := by
  refine ⟨⟨nofun, ?_⟩, by decide +kernel, by decide +kernel,
    { between := [⟨.bare .price, .float (.ofDecimal false 2494985664292496 (-13)), .int 250⟩] },
    by decide +kernel, by decide +kernel, by decide +kernel⟩
  have hfinite : (Double.ofDecimal false 24949856642924962 (-14)).isFinite = true := by
    decide +kernel
  intro p hp
  cases List.mem_singleton.1 hp
  exact ⟨hfinite, trivial⟩

end Filter

end TypedSelect
