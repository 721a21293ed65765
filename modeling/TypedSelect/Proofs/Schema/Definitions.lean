/-
The schemas of entities refer to entities below them.

Each entity has a level, and the schema of an entity refers to entities of
lower levels. That ranks the definitions: a document that holds them means
what the references in it lead to, and the schema of an entity can be
written without references. Both are schemas of the same values.

# Levels

The level of an entity is how deep entities nest in it. That the
references of a schema are to lower levels is shown piece by piece: for
every way to build a schema there is a lemma on what it refers to, and
`refers_ofEntity` puts them together, entity by entity, with the levels
compared by computation. Ranked definitions cannot lead in circles, so a
self-reference is never met, and ten references one inside another are as
deep as it gets.

# Two documents

There are two ways to write the schema of an entity down. One is a
document with the definitions of all entities and a reference to one of
them; this is how the schema of queries is written. The other has the
references inlined and needs no definitions. That the two say the same is
`entity_eq_ok` and `conformsWith_query`. A document also has a title and a
dialect, which refuse nothing.

# Looking up

Definitions are found by their keys in the order they are sorted in. The
names of entities are different, so every entity is found by its own
(`lookup_entity`), and what is found is the schema of an entity.
-/
import TypedSelect.Proofs.Json.Codec
import TypedSelect.Proofs.Schema.Inline
import TypedSelect.Proofs.Schema.Pointer

namespace TypedSelect

namespace Schema

open Json (member? object strings)

variable {n : Nat}

-- ============================================================== levels

/-- How deep entities nest in an entity, at most. -/
def level : Entity → Nat
  | .table | .column | .arithmeticOp | .comparisonOp | .aggregateFunction | .windowFunction
  | .joinType | .logic | .direction | .nullsOrder | .number | .literal => 0
  | .comparand | .qualifiedColumn | .groupBy | .limit => 1
  | .operand | .sortKey | .columnExpr | .comparison | .columnComparison | .between
  | .caseResult | .havingCondition => 2
  | .orderItem | .arithmetic | .binaryArithmetic | .compoundArithmetic | .caseBranch
  | .condition | .having => 3
  | .orderBy | .aggregateInput | .windowExpr | .caseExpr | .conditionGroup => 4
  | .aggregateExpr | .filter | .join => 5
  | .selectExpr | .scalarSubquery => 6
  | .subqueryCondition | .derivedTable => 7
  | .topFilter | .fromClause => 8
  | .query => 9

/-- The reference leads to an entity below this level. -/
def Lower (n : Nat) (reference : String) : Prop := ∃ e, reference = pointerTo e ∧ level e < n

-- ============================================================== pieces

theorem refers_ref {e : Entity} (h : level e < n) : Refers (Lower n) .schema (ref e) :=
  .reference ⟨e, rfl, h⟩

/-- A list of texts is data and refers to nothing. -/
theorem isData_strings (names : List String) : isData (strings names) = true :=
  List.all_eq_true.2 fun s hs => by
    obtain ⟨name, -, rfl⟩ := List.mem_map.1 hs
    rfl

/-- A keyword whose argument is data, beside keywords that refer lower. -/
theorem refers_typed {type : String} {keywords : List (String × Json)}
    (hnodup : ("type" :: keywords.map Prod.fst).Nodup)
    (hnoRef : referenceKey ∉ keywords.map Prod.fst)
    (h : ∀ k ∈ keywords, Refers (Lower n) (role k.1) k.2) :
    Refers (Lower n) .schema (typed type keywords) := by
  refine .schema hnodup ?_ (List.forall_mem_cons.2 ⟨.data rfl, h⟩)
  rw [List.map_cons, List.mem_cons, not_or]
  exact ⟨by simp [referenceKey], hnoRef⟩

theorem refers_identifier : Refers (Lower n) .schema identifier :=
  refers_typed (by simp) (by simp [referenceKey]) (List.forall_mem_cons.2
    ⟨.data rfl, List.forall_mem_singleton.2 (.data rfl)⟩)

theorem refers_count : Refers (Lower n) .schema count :=
  refers_typed (by simp) (by simp [referenceKey]) (List.forall_mem_singleton.2 (.data rfl))

/-- A list of a lower entity refers to that. -/
theorem refers_arrayOf {e : Entity} (h : level e < n) :
    Refers (Lower n) .schema (arrayOf e) :=
  refers_typed (by simp) (by simp [referenceKey]) (List.forall_mem_singleton.2 (refers_ref h))

theorem refers_nonEmptyArrayOf {e : Entity} (h : level e < n) :
    Refers (Lower n) .schema (nonEmptyArrayOf e) :=
  refers_typed (by simp) (by simp [referenceKey]) (List.forall_mem_cons.2
    ⟨refers_ref h, List.forall_mem_singleton.2 (.data rfl)⟩)

theorem refers_symbols {α : Type} [Vocabulary α] : Refers (Lower n) .schema (symbols α) :=
  refers_typed (by simp) (by simp [referenceKey])
    (List.forall_mem_singleton.2 (.data (isData_strings _)))

theorem refers_constant {value : String} : Refers (Lower n) .schema (constant value) :=
  .schema (by simp) (by simp [referenceKey]) (List.forall_mem_singleton.2 (.data rfl))

/-- A closed shape refers to what the schemas of its properties refer to. No
property is called like a reference. -/
theorem refers_closed {s : Shape} (hnodup : (s.properties.map Prod.fst).Nodup)
    (hnoRef : referenceKey ∉ s.properties.map Prod.fst)
    (h : ∀ p ∈ s.properties, Refers (Lower n) .schema p.2) :
    Refers (Lower n) .schema s.closed := by
  refine refers_typed (by simp) (by simp [referenceKey]) ?_
  rw [List.forall_mem_cons, List.forall_mem_cons, List.forall_mem_singleton]
  exact ⟨.properties hnodup hnoRef h, .data (isData_strings _), .data rfl⟩

/-- A choice refers to what its options refer to. -/
theorem refers_oneOf {options : List Json} (h : ∀ s ∈ options, Refers (Lower n) .schema s) :
    Refers (Lower n) .schema (oneOf options) :=
  .schema (by simp) (by simp [referenceKey]) (List.forall_mem_singleton.2 (.schemas h))

/-- A shape under a tag refers to what the shape does; the tag is a constant.
-/
theorem refers_tagged {s : Shape} {key value : String}
    (hnodup : (key :: s.properties.map Prod.fst).Nodup)
    (hnoRef : referenceKey ∉ key :: s.properties.map Prod.fst)
    (h : ∀ p ∈ s.properties, Refers (Lower n) .schema p.2) :
    Refers (Lower n) .schema (s.tagged key value) :=
  refers_closed hnodup hnoRef (List.forall_mem_cons.2 ⟨refers_constant, h⟩)

theorem refers_boolean : Refers (Lower n) .schema (typed "boolean" []) :=
  refers_typed (by simp) (by simp) (List.forall_mem_nil _)

/-- Neither does that of fractions between zero and one. -/
theorem refers_fraction : Refers (Lower n) .schema
    (typed "number" [("minimum", .int 0), ("maximum", .int 1)]) :=
  refers_typed (by simp) (by simp [referenceKey])
    (List.forall_mem_cons.2 ⟨.data rfl, List.forall_mem_singleton.2 (.data rfl)⟩)

/-- A schema that asks for keys. -/
theorem refers_required {names : List String} :
    Refers (Lower n) .schema (object [("required", strings names)]) :=
  .schema (by simp) (by simp [referenceKey])
    (List.forall_mem_singleton.2 (.data (isData_strings names)))

/-- A schema that asks for keys, and for something not to be so. -/
theorem refers_requiredNot {names : List String} {s : Json} (h : Refers (Lower n) .schema s) :
    Refers (Lower n) .schema (object [("required", strings names), ("not", s)]) :=
  .schema (by simp) (by simp [referenceKey])
    (List.forall_mem_cons.2 ⟨.data (isData_strings names), List.forall_mem_singleton.2 h⟩)

/-- A FROM clause is written out, since it has a choice between a table and a
derived table beside its properties. -/
theorem refers_fromClause : Refers (Lower (level .fromClause)) .schema fromClause := by
  refine refers_typed (by simp) (by simp [referenceKey]) ?_
  rw [List.forall_mem_cons, List.forall_mem_cons, List.forall_mem_singleton]
  refine ⟨.properties (by simp) (by simp [referenceKey]) ?_, .schemas ?_, .data rfl⟩
  · simp (disch := decide) [refers_ref, refers_identifier, refers_arrayOf]
  · rw [List.forall_mem_cons, List.forall_mem_singleton]
    refine ⟨refers_requiredNot refers_required, refers_requiredNot (.schema (by simp)
      (by simp [referenceKey]) (List.forall_mem_singleton.2 (.schemas ?_)))⟩
    rw [List.forall_mem_cons, List.forall_mem_singleton]
    exact ⟨refers_required, refers_required⟩

/-- The schema of an entity refers to lower entities. Vocabularies and
constants refer to none; choices and records refer to what their properties
do, each a level below. -/
theorem refers_ofEntity (e : Entity) : Refers (Lower (level e)) .schema (ofEntity e) := by
  cases e
  case table | column | arithmeticOp | comparisonOp | aggregateFunction | windowFunction
      | joinType | logic | direction | nullsOrder => exact refers_symbols
  case number => exact refers_typed (by simp) (by simp) (List.forall_mem_nil _)
  -- here the types are a list, which is data
  case literal =>
    exact .schema (by simp) (by simp [referenceKey])
      (List.forall_mem_singleton.2 (.data (isData_strings _)))
  case comparand =>
    refine .schema (by simp) (by simp [referenceKey]) (List.forall_mem_singleton.2 (.schemas ?_))
    simp (disch := decide) [refers_ref, refers_nonEmptyArrayOf]
  case fromClause => exact refers_fromClause
  case operand | sortKey | aggregateInput | caseResult =>
    refine refers_oneOf ?_
    rw [List.forall_mem_cons, List.forall_mem_singleton]
    refine ⟨refers_tagged (by decide) (by decide) ?_, refers_tagged (by decide) (by decide) ?_⟩
    all_goals simp (disch := decide) [qualifiedColumn, arithmetic, refers_ref, refers_identifier]
  case condition =>
    refine refers_oneOf ?_
    rw [List.forall_mem_cons, List.forall_mem_cons, List.forall_mem_singleton]
    refine ⟨refers_tagged (by decide) (by decide) ?_, refers_tagged (by decide) (by decide) ?_,
      refers_tagged (by decide) (by decide) ?_⟩
    all_goals simp (disch := decide) [comparison, columnComparison, between, refers_ref]
  case selectExpr =>
    refine refers_oneOf ?_
    rw [List.forall_mem_cons, List.forall_mem_cons, List.forall_mem_cons, List.forall_mem_cons,
      List.forall_mem_cons, List.forall_mem_singleton]
    refine ⟨refers_tagged (by decide) (by decide) ?_, refers_tagged (by decide) (by decide) ?_,
      refers_tagged (by decide) (by decide) ?_, refers_tagged (by decide) (by decide) ?_,
      refers_tagged (by decide) (by decide) ?_, refers_tagged (by decide) (by decide) ?_⟩
    all_goals simp (disch := decide) [columnExpr, binaryArithmetic, arithmetic,
      compoundArithmetic, aggregateExpr, windowExpr, caseExpr, refers_ref, refers_identifier,
      refers_boolean, refers_fraction, refers_count, refers_arrayOf, refers_nonEmptyArrayOf]
  -- all other entities are closed records
  all_goals
    refine refers_closed (by decide) (by decide) ?_
    simp (disch := decide) [qualifiedColumn, columnExpr, binaryArithmetic, arithmetic,
      compoundArithmetic, aggregateExpr, windowExpr, caseExpr, comparison, columnComparison,
      between, filter, topFilter, refers_ref, refers_identifier, refers_boolean,
      refers_fraction, refers_count, refers_arrayOf, refers_nonEmptyArrayOf]

-- ========================================================= definitions

instance : LawfulVocabulary Entity where
  symbolNamed?_name e := by cases e <;> rfl

theorem name_injective : Function.Injective Entity.name := fun e e' h => by
  have hname : Vocabulary.name e = Vocabulary.name e' := h
  have hfound := LawfulVocabulary.symbolNamed?_name e
  rw [hname, LawfulVocabulary.symbolNamed?_name] at hfound
  exact (Option.some.inj hfound).symm

/-- Every entity has a definition, under its name. -/
def definedMembers : List (String × Json) :=
  (Vocabulary.all (α := Entity)).map fun e => (e.name, ofEntity e)

/-- The definitions are those of the entities and no others. -/
theorem mem_definedMembers {m : String × Json} :
    m ∈ definedMembers ↔ ∃ e : Entity, m = (e.name, ofEntity e) := by
  unfold definedMembers
  rw [List.mem_map]
  constructor
  · rintro ⟨e, -, rfl⟩
    exact ⟨e, rfl⟩
  · rintro ⟨e, rfl⟩
    exact ⟨e, List.mem_of_find?_eq_some (LawfulVocabulary.symbolNamed?_name e), rfl⟩

theorem nodup_definedMembers : (definedMembers.map Prod.fst).Nodup := by
  unfold definedMembers
  rw [List.map_map]
  exact List.Nodup.map name_injective (by decide)

/-- The definitions of all entities, each under its key. -/
def entityDefinitions : Definitions :=
  (Json.sortMembers definedMembers).map fun m => (⟨.defs, m.1⟩, m.2)

/-- A definition is found by its name among those of one section. -/
theorem lookup_map {s : Section} {name : String} {members : List (String × Json)} :
    lookup ⟨s, name⟩ (members.map fun m => (⟨s, m.1⟩, m.2)) = member? name members := by
  induction members with
  | nil => rfl
  | cons m members ih =>
      rw [List.map_cons, lookup, member?, ih]
      exact if_congr (by simp) rfl rfl

/-- The definition of an entity is found under its name. -/
theorem lookup_entity (e : Entity) :
    lookup ⟨.defs, e.name⟩ entityDefinitions = some (ofEntity e) := by
  unfold entityDefinitions
  rw [lookup_map, Json.member?_sortMembers nodup_definedMembers]
  exact Json.member?_of_mem nodup_definedMembers (mem_definedMembers.2 ⟨e, rfl⟩)

/-- What is found is the definition of an entity. -/
theorem entity_of_lookup {key : DefinitionKey} {body : Json}
    (h : lookup key entityDefinitions = some body) :
    ∃ e : Entity, key = ⟨.defs, e.name⟩ ∧ body = ofEntity e := by
  obtain ⟨m, hm, heq⟩ := List.mem_map.1 (mem_of_lookup h)
  obtain ⟨e, rfl⟩ := mem_definedMembers.1 ((Json.mem_sortMembers nodup_definedMembers).1 hm)
  obtain ⟨rfl, rfl⟩ := Prod.mk.inj heq
  exact ⟨e, rfl, rfl⟩

/-- A document with the definitions of the entities. -/
theorem definitionsOf_document {members : List (String × Json)}
    (hnodup : (members.map Prod.fst).Nodup)
    (hdefs : member? Section.defs.name members = some definitions)
    (hothers : member? Section.definitions.name members = none) :
    definitionsOf (object members) = entityDefinitions := by
  have hsection : ∀ s : Section, (object members).get? s.name = member? s.name members :=
    fun s => Json.member?_sortMembers hnodup
  unfold definitionsOf Section.all
  rw [List.flatMap_cons, List.flatMap_cons, List.flatMap_nil, List.append_nil,
    sectionDefinitions, sectionDefinitions, hsection, hsection, hdefs, hothers, List.append_nil]
  rfl

theorem ordered_definitions : definitions.ordered = definitions := by
  refine Json.ordered_object nodup_definedMembers fun m hm => ?_
  obtain ⟨e, rfl⟩ := mem_definedMembers.1 hm
  exact (refers_ofEntity e).ordered

-- =========================================================== references

/-- The reference to an entity leads to the key of its definition. -/
theorem ofPointer?_pointerTo (e : Entity) :
    DefinitionKey.ofPointer? (pointerTo e) = some ⟨.defs, e.name⟩ := by
  refine ofPointer?_pointer fun hname : e.name = "" => ?_
  have hfound : Codec.symbolNamed? e.name = some e := LawfulVocabulary.symbolNamed?_name e
  rw [hname] at hfound
  cases hfound

/-- The level of the entity that a key names. -/
def rank (key : DefinitionKey) : Nat :=
  ((Codec.symbolNamed? key.name : Option Entity).map level).getD 0

/-- The key of an entity has the level of the entity. -/
theorem rank_entity (e : Entity) : rank ⟨.defs, e.name⟩ = level e := by
  have hfound : Codec.symbolNamed? e.name = some e := LawfulVocabulary.symbolNamed?_name e
  unfold rank
  rw [hfound]
  rfl

/-- A reference to a lower entity leads to a definition of lower rank. -/
theorem below_of_lower {reference : String} (h : Lower n reference) :
    Below entityDefinitions rank n reference := by
  obtain ⟨e, rfl, hlt⟩ := h
  exact ⟨_, _, ofPointer?_pointerTo e, lookup_entity e, (rank_entity e).trans_lt hlt⟩

/-- The definitions of entities are ranked by their levels. -/
theorem ranked_entityDefinitions : Ranked entityDefinitions rank := by
  intro key body h
  obtain ⟨e, rfl, rfl⟩ := entity_of_lookup h
  rw [rank_entity]
  exact (refers_ofEntity e).mono fun _ => below_of_lower

/-- Ten references one inside another are as deep as it gets. -/
theorem followsInto_entities {depth : Nat} (hdepth : 10 ≤ depth) :
    FollowsInto entityDefinitions (followed entityDefinitions depth) := by
  refine followsInto_followed ranked_entityDefinitions fun key body h => ?_
  obtain ⟨e, rfl, rfl⟩ := entity_of_lookup h
  have hlevel : ∀ e, level e < 10 := fun e => by cases e <;> decide
  exact (rank_entity e).trans_lt ((hlevel e).trans_le hdepth)

/-- A reference to an entity says what the schema of the entity says. -/
theorem FollowsInto.entity {follow : String → Json → Bool}
    (h : FollowsInto entityDefinitions follow) (e : Entity) (v : Json) :
    follow (pointerTo e) v = conformsWith follow (ofEntity e) v :=
  h _ _ _ (ofPointer?_pointerTo e) (lookup_entity e) v

-- =========================================================== documents

variable {follow : String → Json → Bool} {v : Json}

/-- The members of a document beside its reference refuse nothing. -/
theorem admits_remark {siblings : List (String × Json)} {keyword : String} {argument : Json}
    (h : keyword ∈ ["$schema", "title", Section.defs.name]) :
    Admits follow siblings (keyword, argument) v := by
  simp only [List.mem_cons, List.not_mem_nil, or_false] at h
  rcases h with rfl | rfl | rfl <;> cases argument <;> rfl

/-- The document of queries says what its reference says. -/
theorem conformsWith_query :
    conformsWith follow query v = follow (pointerTo .query) v := by
  unfold query
  rw [Bool.eq_iff_iff, conformsWith_object (by decide), List.forall_mem_cons,
    List.forall_mem_cons, List.forall_mem_cons, List.forall_mem_singleton, admits_reference]
  exact ⟨fun h => h.2.2.1, fun h => ⟨admits_remark (by decide), admits_remark (by decide),
    h, admits_remark (by decide)⟩⟩

/-- A title laid over a schema changes nothing, because the verdict of a
title is true for every value and no other keyword looks at it. -/
theorem conformsWith_title {title : Json} {members : List (String × Json)} :
    conformsWith follow (.obj (Json.insertMember "title" title members)) v =
      conformsWith follow (.obj members) v := by
  have hdeclares : declares (Json.insertMember "title" title members) = declares members := by
    funext key
    unfold declares
    rw [Json.member?_insertMember, if_neg (by decide)]
  rw [conformsWith, conformsWith, Bool.eq_iff_iff, allAdmit_eq_true, allAdmit_eq_true]
  constructor
  · intro h k hk
    by_cases htitle : k.1 = "title"
    · obtain ⟨keyword, argument⟩ := k
      exact admits_remark (by rw [show keyword = "title" from htitle]; decide)
    · exact (Admits.congr hdeclares).1 (h k (Json.mem_insertMember_of_ne hk htitle))
  · intro h k hk
    rcases Json.mem_of_mem_insertMember hk with rfl | hk
    · exact admits_remark (by decide)
    · exact (Admits.congr hdeclares).2 (h k hk)

/-- A reference with a title beside it is expanded to what it refers to,
under the title. -/
theorem yields_expand_titled (hfollow : FollowsInto entityDefinitions follow) (e : Entity)
    (title : String) :
    Yields (Sound entityDefinitions follow) (expand entityDefinitions []
        (.obj [(referenceKey, .str (pointerTo e)), ("title", .str title)]))
      fun j' => ∀ follow' v, conformsWith follow' j' v = conformsWith follow (ofEntity e) v := by
  have hmember : member? referenceKey [(referenceKey, Json.str (pointerTo e)),
      ("title", .str title)] = some (.str (pointerTo e)) := by rw [member?, if_pos rfl]
  have hbelow : Below entityDefinitions rank (level e + 1) (pointerTo e) :=
    below_of_lower ⟨e, rfl, Nat.lt_succ_self _⟩
  rw [expand, hmember]
  refine (yields_resolve ranked_entityDefinitions hfollow hbelow
    (List.forall_mem_nil _)).bind fun target htarget => ?_
  obtain ⟨members, rfl⟩ := (htarget follow).1
  rw [expandMembers, if_pos rfl, expandMembers, if_neg (by decide), expand_of_isScalar rfl,
    expandMembers]
  refine .pure fun follow' v => (conformsWith_title.trans ((htarget follow').2 v)).trans ?_
  exact conformsWith_reference.trans (hfollow.entity e v)

/-- The schema of an entity says what its definition says, and has no
references to follow. -/
theorem entity_eq_ok (hfollow : FollowsInto entityDefinitions follow) (e : Entity) :
    ∃ schema, entity e.name = .ok schema ∧
      ∀ follow' v, conformsWith follow' schema v = conformsWith follow (ofEntity e) v := by
  have hfound : (Vocabulary.all (α := Entity)).find? (fun e' => e'.name == e.name) = some e :=
    LawfulVocabulary.symbolNamed?_name e
  have hnodup : ([("title", Json.str e.name), (referenceKey, .str (pointerTo e)),
      (Section.defs.name, definitions)].map Prod.fst).Nodup := by
    simp [referenceKey, Section.name]
  -- in order, the document has its definitions first, and without them it is a reference
  have hsorted : Json.sortMembers [("title", .str e.name), (referenceKey, .str (pointerTo e)),
      (Section.defs.name, definitions)] = [(Section.defs.name, definitions),
        (referenceKey, .str (pointerTo e)), ("title", .str e.name)] := by
    have hfirst : Section.defs.name < referenceKey := by decide
    have hlast : referenceKey < "title" := by decide
    simp [Json.sortMembers, Json.insertMember, hfirst, hlast]
  have hordered : (object [("title", .str e.name), (referenceKey, .str (pointerTo e)),
      (Section.defs.name, definitions)]).ordered = object [("title", .str e.name),
        (referenceKey, .str (pointerTo e)), (Section.defs.name, definitions)] := by
    refine Json.ordered_object hnodup ?_
    simp [Json.ordered, ordered_definitions]
  have hrest : withoutDefinitions (object [("title", .str e.name),
      (referenceKey, .str (pointerTo e)), (Section.defs.name, definitions)]) =
        .obj [(referenceKey, .str (pointerTo e)), ("title", .str e.name)] := by
    unfold object
    rw [hsorted]
    rfl
  have hstart : Sound entityDefinitions follow [] := by
    intro key j' h
    cases h
  obtain ⟨schema, st, hrun, -, hmeans⟩ := yields_expand_titled hfollow e e.name [] hstart
  refine ⟨schema, ?_, hmeans⟩
  unfold entity
  rw [hfound]
  dsimp only
  unfold inline
  dsimp only
  rw [hordered, definitionsOf_document hnodup (by simp [member?, referenceKey, Section.name])
    (by simp [member?, referenceKey, Section.name]), hrest, hrun]
  rfl

end Schema

end TypedSelect
