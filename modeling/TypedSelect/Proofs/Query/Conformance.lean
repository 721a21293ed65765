/-
Queries and the schema of queries.

What a valid query is written as conforms to the schema of queries, with
the references in it or without, and what conforms to the schema is read,
as long as no offset of a window is larger than a window can have: the
schema only asks that it is not negative.

# Two documents

The schema comes in two forms. One is a document that refers to its own
definitions; the other has every reference replaced by its target. A
value is accepted by a document if it conforms for every way to follow
references that agrees with the definitions of the document
(`FollowsInto`). The description of queries by their schema holds for each
such way, so it gives both forms at once: `accepts_query` for the document
with references, and `accepts_entity` for the one without, by what the
inlining is known to keep.

# One direction and the other

From a valid query to its JSON the schema asks for nothing that the rules
of validity do not give. From JSON to a query two conditions are needed
that no schema of this kind can state: that no object has a key twice,
which the reader refuses, and that the offsets of windows fit into 32
bits. The second could be stated and is not, and the last theorems show
the number at which schema and reader part.
-/
import TypedSelect.Proofs.Query.RoundTrip
import TypedSelect.Proofs.Query.Schema
import TypedSelect.Proofs.Schema.Definitions

namespace TypedSelect

namespace Query

open Json (Numeral)
open Schema (Accepts FollowsInto conformsWith entityDefinitions followed ref)

/-- The document of queries follows its references in its own definitions. -/
theorem definitionsOf_query : Schema.definitionsOf Schema.query = entityDefinitions :=
  Schema.definitionsOf_document (by decide) (by simp [Json.member?, Schema.Section.name,
    Schema.referenceKey]) (by simp [Json.member?, Schema.Section.name, Schema.referenceKey])

/-- What conforms however references are followed is accepted by the document
with references, as following them into its definitions is one way. -/
theorem accepts_query {j : Json}
    (h : ∀ follow, FollowsInto entityDefinitions follow →
      conformsWith follow (Schema.ofEntity .query) j = true) : Accepts Schema.query j := by
  refine ⟨10, fun depth hdepth => ?_⟩
  have hfollow := Schema.followsInto_entities hdepth
  rw [definitionsOf_query, Schema.conformsWith_query, hfollow.entity]
  exact h _ hfollow

/-- The inlined document accepts exactly what conforms however references are
followed: they all lead into the definitions that were put in their place. -/
theorem accepts_entity {schema j : Json} (hschema : Schema.entity Entity.query.name = .ok schema) :
    Accepts schema j ↔ ∀ follow, FollowsInto entityDefinitions follow →
      conformsWith follow (Schema.ofEntity .query) j = true := by
  have hmeans : ∀ follow, FollowsInto entityDefinitions follow → ∀ follow',
      conformsWith follow' schema j = conformsWith follow (Schema.ofEntity .query) j := by
    intro follow hfollow follow'
    obtain ⟨schema', hschema', hmeans⟩ := Schema.entity_eq_ok hfollow .query
    rw [hschema] at hschema'
    cases hschema'
    exact hmeans follow' j
  constructor
  · rintro ⟨depth, h⟩ follow hfollow
    rw [← hmeans follow hfollow]
    exact h depth le_rfl
  · intro h
    have hfollow := Schema.followsInto_entities le_rfl
    exact ⟨0, fun depth _ => (hmeans _ hfollow _).trans (h _ hfollow)⟩

/-- The description of queries by their schema, references followed. -/
theorem described {follow : String → Json → Bool} (h : FollowsInto entityDefinitions follow) :
    codec.Described follow (fun q => q.validate = .ok ()) (Schema.ofEntity .query) :=
  have hresolves : Schema.Resolves follow := h.entity
  have href := described_codec hresolves
  { writes := fun q hq => (Schema.conformsWith_ref hresolves).symm.trans (href.writes q hq)
    reads := fun place j hreadable hconforms =>
      href.reads place j hreadable ((Schema.conformsWith_ref hresolves).trans hconforms) }

-- ======================================================== main results

/-- What a valid query is written as conforms to the schema of queries,
without references and with them. -/
theorem json_conforms {q : Query} (hq : q.validate = .ok ()) :
    ∃ j schema, q.toJson = j.text ∧
      (∀ reading : Numeral.Reading, reading.IsNearest →
        Json.parseWith? reading q.toJson = some j ∧
        Json.parseWith? reading q.toPrettyJson = some j) ∧
      Schema.entity "Query" = .ok schema ∧ Accepts schema j ∧ Accepts Schema.query j := by
  have hconforms : ∀ follow, FollowsInto entityDefinitions follow →
      conformsWith follow (Schema.ofEntity .query) (codec.encode q) = true :=
    fun follow hfollow => (described hfollow).writes q hq
  obtain ⟨schema, hschema, -⟩ := Schema.entity_eq_ok (Schema.followsInto_entities le_rfl) .query
  refine ⟨codec.encode q, schema, rfl, fun reading hreading => ?_, hschema,
    (accepts_entity hschema).2 hconforms, accepts_query hconforms⟩
  have hprintable := (printable_encode (finite_of_validate hq)).imp fun _ =>
    Double.readBy_of_isNearest hreading
  exact ⟨Json.parseWith?_text hprintable, Json.parseWith?_prettyText hprintable⟩

/-- The query of many kinds of numbers conforms. -/
theorem numbers_json_conforms :
    numbers.validate = .ok () ∧ ∃ j schema, numbers.toJson = j.text ∧
      (∀ reading : Numeral.Reading, reading.IsNearest →
        Json.parseWith? reading numbers.toJson = some j ∧
        Json.parseWith? reading numbers.toPrettyJson = some j) ∧
      Schema.entity "Query" = .ok schema ∧ Accepts schema j ∧ Accepts Schema.query j := by
  have hvalid : numbers.validate = .ok () := by decide +kernel
  exact ⟨hvalid, json_conforms hvalid⟩

/-- What conforms to the schema of queries is read, if no object has a
key twice and no offset of a window is larger than 32 bits hold. -/
theorem conforming_is_read {schema j : Json} (hkeys : j.KeysDistinct) (hoffsets : j.OffsetsFit)
    (hschema : Schema.entity "Query" = .ok schema) (hconforms : Accepts schema j) :
    ∃ q, codec.decode j = some q := by
  have hfollow := Schema.followsInto_entities le_rfl
  exact (described hfollow).reads .outside j ⟨hkeys, hoffsets⟩
    ((accepts_entity hschema).1 hconforms _ hfollow)

/-- An item that looks this far back. -/
def lookingBackItem (offset : Int) : Json :=
  .obj [("type", .str "window"), ("function", .str "LAG"),
    ("column", .obj [("column", .str "price")]),
    ("order_by", .arr [.obj [("column", .obj [("kind", .str "column"),
      ("column", .str "price")]), ("direction", .str "DESC")]]),
    ("offset", .int offset), ("alias", .str "n")]

/-- A query with one item, which looks this far back. -/
def lookingBack (offset : Int) : Json :=
  .obj [("select", .arr [lookingBackItem offset]),
    ("from", .obj [("table", .str "product_offers")])]

/-- The schema admits every offset that is a whole number of 64 bits. It has
a minimum and no maximum, so what the decoder refuses above 32 bits conforms.
-/
theorem conformsWith_lookingBack {follow : String → Json → Bool} {offset : Int}
    (hfollow : FollowsInto entityDefinitions follow) (hle : 0 ≤ offset)
    (hlt : offset < UInt64.size) :
    conformsWith follow (Schema.ofEntity .query) (lookingBack offset) = true := by
  have hresolves : Schema.Resolves follow := hfollow.entity
  -- all parts but the offset are what their own codecs write
  have hfunction : conformsWith follow (ref .windowFunction) (.str "LAG") = true :=
    (described_symbol.ref hresolves (e := .windowFunction)).writes .lag trivial
  have hcolumn : conformsWith follow (ref .qualifiedColumn)
      (.obj [("column", .str "price")]) = true :=
    (QualifiedColumn.described_codec hresolves).writes ⟨none, .price⟩ rfl
  have hitems : conformsWith follow (Schema.arrayOf .orderItem)
      (.arr [.obj [("column", .obj [("kind", .str "column"), ("column", .str "price")]),
        ("direction", .str "DESC")]]) = true :=
    Schema.conformsWith_arrayOf.2 ⟨_, rfl, List.forall_mem_singleton.2
      ((OrderItem.described_codec hresolves).writes ⟨.column ⟨none, .price⟩, .desc, none⟩ rfl)⟩
  have hname : conformsWith follow Schema.identifier (.str "n") = true :=
    described_name.writes "n" (by decide +kernel)
  have hsource : conformsWith follow (ref .fromClause)
      (.obj [("table", .str "product_offers")]) = true :=
    (FromClause.described_codec hresolves).writes (.ofTable .productOffers) rfl
  have hoffset : conformsWith follow Schema.count (.int offset) = true :=
    Schema.conformsWith_count.2 ⟨offset, rfl, hle, hlt⟩
  have hwindow : conformsWith follow (Schema.windowExpr.tagged "type" "window")
      (lookingBackItem offset) = true := by
    refine (Schema.conformsWith_tagged (by decide)).2 ⟨_, rfl, by simp, by simp, ?_, ?_⟩
    · simp [Schema.windowExpr]
    · simpa [Schema.Holds, Schema.windowExpr] using
        And.intro hfunction (And.intro hcolumn (And.intro hitems (And.intro hoffset hname)))
  have hselect : conformsWith follow (ref .selectExpr) (lookingBackItem offset) = true := by
    rw [Schema.conformsWith_ref hresolves]
    show conformsWith follow (Schema.oneOf ([("column", Schema.columnExpr),
      ("binary_arithmetic", Schema.binaryArithmetic),
      ("compound_arithmetic", Schema.compoundArithmetic),
      ("aggregate", Schema.aggregateExpr), ("window", Schema.windowExpr),
      ("case", Schema.caseExpr)].map fun c => c.2.tagged "type" c.1)) _ = true
    exact (Schema.conformsWith_choice (by decide) (by decide)).2
      ⟨("window", Schema.windowExpr), by simp, hwindow⟩
  refine (Schema.conformsWith_closed (by decide)).2 ⟨_, rfl, by simp, ?_⟩
  have hselects : conformsWith follow (Schema.nonEmptyArrayOf .selectExpr)
      (.arr [lookingBackItem offset]) = true :=
    Schema.conformsWith_nonEmptyArrayOf.2
      ⟨_, rfl, List.cons_ne_nil _ _, List.forall_mem_singleton.2 hselect⟩
  simpa [Schema.Holds] using And.intro hselects hsource

/-- A query that looks back no further than 32 bits hold is one that the
description of queries promises to be read. -/
theorem readable_lookingBack {offset : Int} (hfits : offset < UInt32.size) :
    (lookingBack offset).Readable := by
  constructor
  · intro members h
    simp [lookingBack, lookingBackItem, Json.within_obj, Json.within_arr, Json.within_str,
      Json.within_int, or_assoc] at h
    rcases h with rfl | rfl | rfl | rfl | rfl | rfl <;> simp
  · intro members i h
    simp [lookingBack, lookingBackItem, Json.within_obj, Json.within_arr, Json.within_str,
      Json.within_int, or_assoc] at h
    rcases h with rfl | rfl | rfl | rfl | rfl | rfl <;> simp [Json.member?]
    rintro rfl
    exact hfits

/-- The widest offset that is read. -/
theorem lookingBack_is_read : ∃ schema, Schema.entity "Query" = .ok schema ∧
    Accepts schema (lookingBack 4294967295) ∧
      ∃ q, codec.decode (lookingBack 4294967295) = some q := by
  obtain ⟨schema, hschema, -⟩ := Schema.entity_eq_ok (Schema.followsInto_entities le_rfl) .query
  have hreadable := readable_lookingBack (by decide : (4294967295 : Int) < UInt32.size)
  have haccepts : Accepts schema (lookingBack 4294967295) :=
    (accepts_entity hschema).2 fun follow hfollow =>
      conformsWith_lookingBack hfollow (by decide) (by decide)
  exact ⟨schema, hschema, haccepts,
    conforming_is_read hreadable.keys hreadable.offsets hschema haccepts⟩

/-- The next one conforms as well, and is not read. -/
theorem lookingBack_is_not_read : ∃ schema, Schema.entity "Query" = .ok schema ∧
    Accepts schema (lookingBack 4294967296) ∧
      codec.decode (lookingBack 4294967296) = none := by
  obtain ⟨schema, hschema, -⟩ := Schema.entity_eq_ok (Schema.followsInto_entities le_rfl) .query
  have haccepts : Accepts schema (lookingBack 4294967296) :=
    (accepts_entity hschema).2 fun follow hfollow =>
      conformsWith_lookingBack hfollow (by decide) (by decide)
  exact ⟨schema, hschema, haccepts, by decide +kernel⟩

end Query

end TypedSelect
