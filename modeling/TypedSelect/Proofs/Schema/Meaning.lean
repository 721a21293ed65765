/-
Whether a schema still means the same when it is inlined.

A reference means its target, so putting the target in its place changes
nothing; this is carried through the schema keyword by keyword. Where no
keyword beside a reference gets in the way, and no constant holds what
looks like a reference, an inlined schema accepts what the schema does.

# Laying over

What stands beside a reference is laid over the target, which is not the
same as asking for both. A keyword that both have keeps the argument from
beside the reference alone, and `additionalProperties` of the one comes to
read the `properties` of the other. `Compatible` says that neither
happens, and then laying over asks for both (`valid_overlay`).

# Likeness

A schema and its expansion are compared as being alike: they come to the
same verdict from some depth on, each with its own definitions. The
expansion is less deep, since to follow a reference costs a depth and to
stand in its place does not, so nothing can be said of one depth.

# Where schemas stand

Expansion walks over every value, but only some values are schemas: those
that are reached through keywords of the vocabulary and through
references. `Subschema` are these, and it is of these that something is
asked. The proof goes by the path first and by the node second: a target
is expanded on a longer path, a part of the node on the same one.

# What is lost

The last result has one schema for each way in which inlining changes what
a schema means, with a value that tells the two apart.
-/
import TypedSelect.Proofs.Schema.Draft
import TypedSelect.Proofs.Schema.Refusals

namespace TypedSelect

namespace Schema

namespace Draft

open Json (member? Within)

variable {definitions definitions' : Definitions} {verdict : Json → Json → Bool}
variable {base beside ms : List (String × Json)} {keyword : String} {argument value : Json}
variable {depth : Nat}

-- ====================================================== laying over

/-- A keyword reads those beside it only to see which properties they
declare. -/
theorem admits_siblings {siblings siblings' : List (String × Json)}
    (h : keyword = "additionalProperties" → declares siblings = declares siblings') :
    admits definitions verdict siblings keyword argument value =
      admits definitions verdict siblings' keyword argument value := by
  unfold admits
  split
  case h_10 => rw [h rfl]
  all_goals rfl

/-- A keyword outside of the vocabulary admits everything. -/
theorem admits_of_place (h : place keyword = none) (href : keyword ≠ referenceKey) :
    admits definitions verdict ms keyword argument value = true := by
  unfold admits
  split
  next => exact absurd rfl href
  iterate 13
    next => cases h
  next => rfl

/-- With distinct keys, what holds of all members holds of what is found. -/
theorem all_iff_member? {p : String × Json → Bool} (h : (ms.map Prod.fst).Nodup) :
    ms.all p = true ↔ ∀ name a, member? name ms = some a → p (name, a) = true := by
  rw [List.all_eq_true]
  constructor
  · intro hall name a hmember
    exact hall (name, a) (Json.mem_of_member? hmember)
  · rintro hall ⟨name, a⟩ hmem
    exact hall name a (Json.member?_of_mem h hmem)

/-- Members that can be laid over others without loss: a keyword that both
have is the same in both, and where the one closes its object the other
declares no properties that it does not. -/
structure Compatible (base beside : List (String × Json)) : Prop where
  same : ∀ keyword a b, (place keyword).isSome → member? keyword base = some a →
    member? keyword beside = some b → a = b
  closed_base : (member? "additionalProperties" base).isSome →
    (member? "properties" beside).isSome → (member? "properties" base).isSome
  closed_beside : (member? "additionalProperties" beside).isSome →
    (member? "properties" base).isSome → (member? "properties" beside).isSome

theorem declares_of_member? {siblings siblings' : List (String × Json)}
    (h : member? "properties" siblings = member? "properties" siblings') :
    declares siblings = declares siblings' := by
  funext key
  unfold declares
  rw [h]

/-- Where the target is closed, the properties it declares stay. -/
theorem Compatible.declares_base (h : Compatible base beside)
    (hbeside : (beside.map Prod.fst).Nodup)
    (hclosed : (member? "additionalProperties" base).isSome) :
    declares (overlay beside base) = declares base := by
  refine declares_of_member? ?_
  rw [member?_overlay hbeside]
  cases hps : member? "properties" beside with
  | none => rfl
  | some ps =>
      obtain ⟨ps', hps'⟩ := Option.isSome_iff_exists.1 (h.closed_base hclosed (hps ▸ rfl))
      rw [hps', h.same _ _ _ rfl hps' hps]
      rfl

/-- Where what is laid over it is closed, no properties are added. -/
theorem Compatible.declares_beside (h : Compatible base beside)
    (hbeside : (beside.map Prod.fst).Nodup)
    (hclosed : (member? "additionalProperties" beside).isSome) :
    declares (overlay beside base) = declares beside := by
  refine declares_of_member? ?_
  rw [member?_overlay hbeside]
  cases hps : member? "properties" base with
  | none => exact Option.or_none
  | some ps =>
      obtain ⟨ps', hps'⟩ := Option.isSome_iff_exists.1 (h.closed_beside hclosed (hps ▸ rfl))
      rw [hps']
      rfl

/-- Laying members over compatible ones asks for both. A keyword that stays
is looked up in one of the two, and what is declared around it is the same
where that matters. -/
theorem valid_overlay (hcompatible : Compatible base beside) (hbase : Json.Ascending base)
    (hbeside : (beside.map Prod.fst).Nodup) (href : ∀ k ∈ base, k.1 ≠ referenceKey) :
    valid definitions (depth + 1) (.obj (overlay beside base)) value =
      (valid definitions (depth + 1) (.obj base) value &&
        valid definitions (depth + 1) (.obj beside) value) := by
  -- what is declared matters to a closed object alone, and that declares what both do together
  have hdeclaresBase : ∀ {k a}, member? k base = some a → k = "additionalProperties" →
      declares (overlay beside base) = declares base := fun hk heq =>
    hcompatible.declares_base hbeside (heq ▸ hk ▸ rfl)
  have hdeclaresBeside : ∀ {k b}, member? k beside = some b → k = "additionalProperties" →
      declares (overlay beside base) = declares beside := fun hk heq =>
    hcompatible.declares_beside hbeside (heq ▸ hk ▸ rfl)
  rw [Bool.eq_iff_iff, Bool.and_eq_true, valid_obj, valid_obj, valid_obj,
    all_iff_member? (ascending_overlay hbase).nodup, all_iff_member? hbase.nodup,
    all_iff_member? hbeside]
  simp only [member?_overlay hbeside]
  constructor
  · refine fun h => ⟨fun k a hk => ?_, fun k b hk => ?_⟩
    · rw [← admits_siblings (hdeclaresBase hk)]
      cases hplace : place k with
      | none => exact admits_of_place hplace (href _ (Json.mem_of_member? hk))
      | some r =>
          refine h k a ?_
          cases hb : member? k beside with
          | none => exact hk
          | some b =>
              rw [hcompatible.same k a b (hplace ▸ rfl) hk hb]
              rfl
    · rw [← admits_siblings (hdeclaresBeside hk)]
      exact h k b (by rw [hk]; rfl)
  · rintro ⟨hbase', hbeside'⟩ k c hk
    rcases Option.or_eq_some_iff.1 hk with hk | ⟨-, hk⟩
    · rw [admits_siblings (hdeclaresBeside hk)]
      exact hbeside' k c hk
    · rw [admits_siblings (hdeclaresBase hk)]
      exact hbase' k c hk

-- ======================================================= references

variable {path : List DefinitionKey} {reference : String} {key : DefinitionKey}
variable {root node body target v : Json}

/-- A reference asks for its target, and what stands beside it for the rest.
The target is read one depth below. -/
theorem valid_reference (hms : (ms.map Prod.fst).Nodup)
    (hmember : member? referenceKey ms = some (.str reference))
    (hkey : DefinitionKey.ofPointer? reference = some key)
    (hbody : lookup key definitions = some body) :
    valid definitions (depth + 1) (.obj ms) value =
      (valid definitions depth body value &&
        valid definitions (depth + 1) (.obj (siblings ms)) value) := by
  have htarget : admits definitions (valid definitions depth) ms referenceKey (.str reference)
      value = valid definitions depth body value := by
    show Option.any _ _ = _
    rw [hkey, Option.bind_some, hbody, Option.any_some]
  have hdeclares : declares ms = declares (siblings ms) :=
    declares_of_member? (member?_siblings (by decide)).symm
  rw [Bool.eq_iff_iff, Bool.and_eq_true, valid_obj, valid_obj, List.all_eq_true,
    List.all_eq_true, ← htarget]
  constructor
  · intro h
    refine ⟨h _ (Json.mem_of_member? hmember), fun k hk => ?_⟩
    rw [admits_siblings fun _ => hdeclares.symm]
    exact h k (mem_siblings.1 hk).1
  · rintro ⟨htarget, hsiblings⟩ ⟨keyword, a⟩ hk
    by_cases hkeyword : keyword = referenceKey
    · -- with each key once, this is the reference that was followed
      subst hkeyword
      rw [Json.member?_of_mem hms hk] at hmember
      cases hmember
      exact htarget
    · rw [admits_siblings fun _ => hdeclares]
      exact hsiblings _ (mem_siblings.2 ⟨hk, hkeyword⟩)

/-- A schema in an object of its own is that schema, one depth below. -/
theorem valid_allOf {s : Json} :
    valid definitions (depth + 1) (.obj [("allOf", .arr [s])]) value =
      valid definitions depth s value := by
  rw [valid_obj, List.all_cons, List.all_nil, Bool.and_true]
  show (items (.arr [s])).all (valid definitions depth · value) = _
  rw [items, List.all_cons, List.all_nil, Bool.and_true]

/-- What a schema is alike to, it is alike to once that is put into an
object. -/
theorem Alike.keywordsOf {s : Json} (h : Alike definitions definitions' s target) :
    Alike definitions definitions' s (.obj (keywordsOf target)) := by
  cases target with
  | obj members => exact h
  | _ =>
      obtain ⟨depth, h⟩ := h
      refine ⟨depth + 1, fun n n' hn hn' x => ?_⟩
      cases n' with
      | zero => cases hn'
      | succ n' =>
          rw [h n n' (by omega) (by omega)]
          exact valid_allOf.symm

/-- A reference is alike to its target with the members beside it laid over
that, if the two are compatible. -/
theorem Alike.refine (hms : (ms.map Prod.fst).Nodup)
    (hmember : member? referenceKey ms = some (.str reference))
    (hkey : DefinitionKey.ofPointer? reference = some key)
    (hbody : lookup key definitions = some body)
    (htarget : Alike definitions definitions' body target)
    (hbeside : Alike definitions definitions' (.obj (siblings ms)) (.obj beside))
    (hnodup : (beside.map Prod.fst).Nodup)
    (hbase : Json.Ascending (Schema.keywordsOf target))
    (href : ∀ k ∈ Schema.keywordsOf target, k.1 ≠ referenceKey)
    (hcompatible : Compatible (Schema.keywordsOf target) beside) :
    Alike definitions definitions' (.obj ms) (Schema.refine target beside) := by
  -- with nothing beside it the target stays as it is
  obtain ⟨kept, ⟨d, hkept⟩, hrefine⟩ : ∃ kept, Alike definitions definitions' body kept ∧
      ∀ n x, valid definitions' (n + 1) (Schema.refine target beside) x =
        (valid definitions' (n + 1) kept x && valid definitions' (n + 1) (.obj beside) x) := by
    cases beside with
    | nil =>
        refine ⟨target, htarget, fun n x => ?_⟩
        rw [refine_nil, valid_obj, List.all_nil, Bool.and_true]
    | cons m beside =>
        refine ⟨_, htarget.keywordsOf, fun n x => ?_⟩
        rw [refine_cons, valid_overlay hcompatible hbase hnodup href]
  obtain ⟨d', hbeside⟩ := hbeside
  refine ⟨max d d' + 1, fun n n' hn hn' x => ?_⟩
  cases n with
  | zero => cases hn
  | succ n =>
      cases n' with
      | zero => cases hn'
      | succ n' =>
          rw [valid_reference hms hmember hkey hbody, hrefine, hkept n (n' + 1) (by omega)
            (by omega), hbeside (n + 1) (n' + 1) (by omega) (by omega)]

-- ======================================================== subschemas

/-- A schema in an argument, going by what the argument is for. -/
def Inside : Option Role → Json → Json → Prop
  | some .schema, a, s => s = a
  | some .schemas, a, s => s ∈ items a
  | some .properties, a, s => ∃ p ∈ members a, s = p.2
  | _, _, _ => False

/-- The schemas that a schema is read with: itself, those in its keywords,
and the targets of its references. -/
inductive Subschema (definitions : Definitions) (root : Json) : Json → Prop
  | root : Subschema definitions root root
  | argument {ms : List (String × Json)} {k : String × Json} {s : Json}
      (outer : Subschema definitions root (.obj ms)) (mem : k ∈ ms)
      (inside : Inside (place k.1) k.2 s) : Subschema definitions root s
  | target {ms : List (String × Json)} {reference : String} {key : DefinitionKey} {body : Json}
      (outer : Subschema definitions root (.obj ms))
      (cites : member? referenceKey ms = some (.str reference))
      (points : DefinitionKey.ofPointer? reference = some key)
      (found : lookup key definitions = some body) : Subschema definitions root body

/-- Whether a value can be a schema. -/
def isSchema : Json → Bool
  | .bool _ => true
  | .obj _ => true
  | _ => false

/-- An argument that fits its keyword, with no reference in it where it is
data. -/
def Shaped : Option Role → Json → Prop
  | some .schemas, a => ∃ options, a = .arr options
  | some .properties, a => ∃ ps, a = .obj ps ∧ ∀ p ∈ ps, isSchema p.2 = true
  | some .data, a => ReferenceFree a
  | _, _ => True

/-- The keywords of a schema that can be inlined without loss: their
arguments fit, and what stands beside a reference can be laid over its
target. -/
structure Plain (definitions : Definitions) (ms : List (String × Json)) : Prop where
  shaped : ∀ k ∈ ms, Shaped (place k.1) k.2
  refines : ∀ reference target beside, member? referenceKey ms = some (.str reference) →
    resolveAfresh definitions [] reference = .ok target →
    walkMembers (resolveAfresh definitions []) ms = .ok beside →
    Compatible (Schema.keywordsOf target) beside

/-- A schema in an argument is a part of the argument, under whatever keyword
the argument stands. -/
theorem within_of_inside {role : Option Role} {a s : Json} (h : Inside role a s) : Within s a := by
  cases role with
  | none => cases h
  | some role =>
      cases role with
      | schema => exact (h : s = a) ▸ .self
      | schemas =>
          cases a with
          | arr items => exact .item h .self
          | _ => cases h
      | properties =>
          obtain ⟨p, hp, rfl⟩ := h
          cases a with
          | obj members => exact .value hp .self
          | _ => cases hp
      | data => cases h

/-- Properties hold no reference of their own: under its key would be a
schema, and no string. -/
theorem member?_referenceKey_of_schemas {answer : String → Except SchemaError Json}
    {ps : List (String × Json)} (hps : ∀ p ∈ ps, isSchema p.2 = true)
    (hwalk : walk answer (.obj ps) = .ok v) : member? referenceKey ps = none := by
  cases hmember : member? referenceKey ps with
  | none => rfl
  | some argument =>
      obtain ⟨reference, rfl⟩ := isString_of_walk hmember hwalk
      cases hps _ (Json.mem_of_member? hmember)

/-- A list of schemas is walked over one by one. -/
theorem alike_of_walk_arr {answer : String → Except SchemaError Json} {options : List Json}
    (hwalk : walk answer (.arr options) = .ok v)
    (hinside : ∀ s ∈ options, ∀ v, walk answer s = .ok v → Alike definitions definitions' s v) :
    ∃ options', v = .arr options' ∧
      List.Forall₂ (Alike definitions definitions') options options' := by
  obtain ⟨options', hoptions, rfl⟩ := walk_arr_eq_ok hwalk
  refine ⟨options', rfl, ((List.forall₂_and_left options options').2
    ⟨fun _ hs => hs, walkItems_eq_ok.1 hoptions⟩).imp ?_⟩
  exact fun s v h => hinside s h.1 v h.2

/-- So are the schemas of properties, and they keep their names. -/
theorem alike_of_walk_properties {answer : String → Except SchemaError Json}
    {ps : List (String × Json)} (hps : ∀ p ∈ ps, isSchema p.2 = true)
    (hwalk : walk answer (.obj ps) = .ok v)
    (hinside : ∀ p ∈ ps, ∀ v, walk answer p.2 = .ok v →
      Alike definitions definitions' p.2 v) :
    ∃ ps', v = .obj ps' ∧
      List.Forall₂ (fun p p' => p'.1 = p.1 ∧ Alike definitions definitions' p.2 p'.2) ps ps' := by
  have hnone := member?_referenceKey_of_schemas hps hwalk
  rw [walk_obj hnone, bind_eq_ok] at hwalk
  obtain ⟨ps', hwalk, heq⟩ := hwalk
  cases heq
  rw [walkMembers_eq_ok, siblings_of_member?_eq_none hnone] at hwalk
  refine ⟨ps', rfl, ((List.forall₂_and_left ps ps').2 ⟨fun _ hp => hp, hwalk⟩).imp ?_⟩
  exact fun p p' h => ⟨h.2.1, hinside p h.1 p'.2 h.2.2⟩

/-- An argument that fits and is walked over schema by schema is taken as
it was. -/
theorem alikeKeyword_of_walk {answer : String → Except SchemaError Json} {k k' : String × Json}
    (hkey : k'.1 = k.1) (hshaped : Shaped (place k.1) k.2) (hwalk : walk answer k.2 = .ok k'.2)
    (hinside : ∀ s v, Inside (place k.1) k.2 s → walk answer s = .ok v →
      Alike definitions definitions' s v) :
    AlikeKeyword definitions definitions' k k' := by
  obtain ⟨keyword, a⟩ := k
  obtain ⟨keyword', a'⟩ := k'
  cases hkey
  suffices h : Eventually fun n n' =>
      Agree (valid definitions n) (valid definitions' n') (place keyword) a a' from
    h.mono fun n n' h => ⟨rfl, h⟩
  dsimp only at hshaped hwalk hinside
  -- from here on the keyword counts only by what stands in it
  generalize place keyword = role at hshaped hinside ⊢
  cases role with
  | none => exact eventually_of_forall fun _ _ => trivial
  | some role =>
      cases role with
      | schema => exact hinside a a' rfl hwalk
      | schemas =>
          obtain ⟨options, rfl⟩ := hshaped
          obtain ⟨options', rfl, heach⟩ :=
            alike_of_walk_arr hwalk fun s hs v => hinside s v hs
          exact (eventually_forall₂ heach).mono fun n n' h => ⟨options, options', rfl, rfl, h⟩
      | properties =>
          obtain ⟨ps, rfl, hps⟩ := hshaped
          obtain ⟨ps', rfl, heach⟩ :=
            alike_of_walk_properties hps hwalk fun p hp v => hinside p.2 v ⟨p, hp, rfl⟩
          have hevent : List.Forall₂ (fun p p' => Eventually fun n n' => p'.1 = p.1 ∧
              ∀ x, valid definitions n p.2 x = valid definitions' n' p'.2 x) ps ps' :=
            heach.imp fun p p' h => h.2.mono fun n n' halike => ⟨h.1, halike⟩
          exact (eventually_forall₂ hevent).mono fun n n' h => ⟨ps, ps', rfl, rfl, h⟩
      | data =>
          -- data is walked as well, but without references the walk leaves it as it is
          rw [walk_of_referenceFree hshaped] at hwalk
          exact eventually_of_forall fun _ _ => (Except.ok.inj hwalk).symm

-- ============================================================ inlining

/-- The members of an expanded schema are in order. A reference with siblings
is where this needs an argument: they are laid over the target by key. -/
theorem ascending_of_expandAfresh (hdefinitions : DefinitionsInOrder definitions)
    (hnode : node.InOrder) (h : expandAfresh definitions path node = .ok v) :
    Json.Ascending (Schema.keywordsOf v) := by
  induction path using path_induction definitions generalizing node v with
  | step path ih =>
      cases node with
      | obj ms =>
          obtain ⟨beside, hwalk, hcases⟩ := walk_obj_eq_ok h
          obtain ⟨-, rfl⟩ | ⟨reference, target, -, htarget, rfl⟩ := hcases
          · exact ascending_of_walk (hnode ms .self) hwalk
          · obtain ⟨key, body, -, hpath, hbody, htarget⟩ := resolveAfresh_eq_ok.1 htarget
            -- the target is expanded with its key on the path, which is what the
            -- induction is on
            have hbase := ih key body hpath hbody (hdefinitions key body hbody) htarget
            cases beside with
            | nil => exact hbase
            | cons m beside =>
                rw [refine_cons]
                -- a sibling is put where its key belongs
                exact ascending_overlay hbase
      | arr items =>
          obtain ⟨items', -, rfl⟩ := walk_arr_eq_ok h
          exact List.pairwise_singleton _ _
      | _ =>
          rw [expandAfresh, walk_of_isScalar rfl] at h
          cases h
          exact List.pairwise_singleton _ _

/-- Members that are expanded on some path are expanded so on none. -/
theorem walkMembers_of_path (hdefinitions : DefinitionsInOrder definitions)
    (hms : (Json.obj ms).InOrder)
    (h : walkMembers (resolveAfresh definitions path) ms = .ok beside) :
    walkMembers (resolveAfresh definitions []) ms = .ok beside := by
  rw [walkMembers_eq_ok] at h ⊢
  refine ((List.forall₂_and_left _ _).2 ⟨fun _ hm => hm, h⟩).imp fun m m' h => ⟨h.2.1, ?_⟩
  have hm := hms.value (mem_siblings.1 h.1).1
  exact expandAfresh_of_path hdefinitions hm h.2.2 fun key hmem => nomatch hmem

/-- The keywords beside a reference are taken as they were, if the schemas
in them are alike to what those come to. -/
theorem alikeKeywords_of_walk {answer : String → Except SchemaError Json}
    (hplain : Plain definitions ms) (h : walkMembers answer ms = .ok beside)
    (hinside : ∀ k ∈ ms, ∀ s v, Inside (place k.1) k.2 s → walk answer s = .ok v →
      Alike definitions definitions' s v) :
    List.Forall₂ (AlikeKeyword definitions definitions') (siblings ms) beside := by
  refine ((List.forall₂_and_left _ _).2 ⟨fun _ hm => hm, walkMembers_eq_ok.1 h⟩).imp ?_
  rintro k k' ⟨hk, hkey, hwalk⟩
  have hmem := (mem_siblings.1 hk).1
  exact alikeKeyword_of_walk hkey (hplain.shaped k hmem) hwalk (hinside k hmem)

/-- An object of keywords is alike to what it is expanded to, if the schemas
in it and the target of its reference are. -/
theorem alike_expanded_obj (hdefinitions : DefinitionsInOrder definitions)
    (hplain : Plain definitions ms) (hnode : (Json.obj ms).InOrder)
    (hinside : ∀ k ∈ ms, ∀ s v, Inside (place k.1) k.2 s →
      expandAfresh definitions path s = .ok v → Alike definitions definitions' s v)
    (htarget : ∀ reference key body v, member? referenceKey ms = some (.str reference) →
      DefinitionKey.ofPointer? reference = some key → key ∉ path →
      lookup key definitions = some body → expandAfresh definitions (path ++ [key]) body = .ok v →
      Alike definitions definitions' body v)
    (h : expandAfresh definitions path (.obj ms) = .ok v) :
    Alike definitions definitions' (.obj ms) v := by
  have hascending := hnode ms .self
  obtain ⟨beside, hwalk, hcases⟩ := walk_obj_eq_ok h
  have hkeywords : List.Forall₂ (AlikeKeyword definitions definitions') (siblings ms) beside :=
    alikeKeywords_of_walk hplain hwalk hinside
  obtain ⟨hmember, rfl⟩ | ⟨reference, target, hmember, hresolve, rfl⟩ := hcases
  -- without a reference all keywords are siblings
  · rw [siblings_of_member?_eq_none hmember] at hkeywords
    refine alike_obj hkeywords fun k hk hkey => ?_
    exact Json.member?_eq_none_iff.1 hmember (hkey ▸ List.mem_map_of_mem hk)
  -- with one, the target and the siblings are alike apart, and they are compatible
  · obtain ⟨key, body, hkey, hpath, hbody, hexpand⟩ := resolveAfresh_eq_ok.1 hresolve
    have hbeside : Alike definitions definitions' (.obj (siblings ms)) (.obj beside) :=
      alike_obj hkeywords fun k hk => (mem_siblings.1 hk).2
    have hcompatible : Compatible (Schema.keywordsOf target) beside :=
      hplain.refines reference target beside hmember (resolveAfresh_of_path hdefinitions hresolve)
        (walkMembers_of_path hdefinitions hnode hwalk)
    exact Alike.refine hascending.nodup hmember hkey hbody
      (htarget reference key body target hmember hkey hpath hbody hexpand) hbeside
      (ascending_of_walk hascending hwalk).nodup
      (ascending_of_expandAfresh hdefinitions (hdefinitions key body hbody) hexpand)
      (fun k hk => ((referenceFree_of_expandAfresh hexpand).keywordsOf hk).1) hcompatible

/-- An expanded schema is alike to what it was expanded from. A part of it is
expanded on the same path and is smaller; a target is expanded on a longer
path. -/
theorem alike_of_expandAfresh (hdefinitions : DefinitionsInOrder definitions)
    (hplain : ∀ ms, Subschema definitions root (.obj ms) → Plain definitions ms)
    (hsub : Subschema definitions root node) (hnode : node.InOrder)
    (h : expandAfresh definitions path node = .ok v) : Alike definitions definitions' node v := by
  induction path using path_induction definitions generalizing node v with
  | step path ih =>
      -- a schema in a keyword may stand two levels down, so all parts go at once
      suffices hparts : ∀ part v, Within part node → Subschema definitions root part →
          expandAfresh definitions path part = .ok v → Alike definitions definitions' part v from
        hparts node v .self hsub h
      clear h hsub
      induction node using Json.induction_parts with
      | scalar j hj =>
          intro part v hwithin _ h
          cases (Json.within_of_isScalar hj).1 hwithin
          rw [expandAfresh, walk_of_isScalar hj] at h
          cases h
          refine alike_self fun keywords heq => ?_
          subst heq
          cases hj
      | arr items ihitems =>
          intro part v hwithin hsub h
          rcases Json.within_arr.1 hwithin with rfl | ⟨item, hitem, hwithin⟩
          · obtain ⟨items', -, rfl⟩ := walk_arr_eq_ok h
            exact alike_arr
          · exact ihitems item hitem (hnode.item hitem) part v hwithin hsub h
      | obj ms ihms =>
          intro part v hwithin hsub h
          rcases Json.within_obj.1 hwithin with rfl | ⟨m, hm, hwithin⟩
          · refine alike_expanded_obj hdefinitions (hplain ms hsub) hnode
              (fun k hk s v hinside => ?_)
              (fun reference key body v hmember hkey hpath hbody => ?_) h
            · -- schemas in keywords are within the node
              exact ihms k hk (hnode.value hk) s v (within_of_inside hinside)
                (.argument hsub hk hinside)
            · -- the target of the reference is entered on a longer path
              exact ih key body hpath hbody (.target hsub hmember hkey hbody)
                (hdefinitions key body hbody)
          · exact ihms m hm (hnode.value hm) part v hwithin hsub h

/-- Definitions say nothing themselves. So a schema may be read with the
sections of definitions or without them. -/
theorem valid_withoutDefinitions {schema : Json} :
    valid definitions depth (withoutDefinitions schema) value =
      valid definitions depth schema value := by
  cases depth with
  | zero => rfl
  | succ depth =>
      cases schema with
      | obj ms =>
          have hdeclares : declares (ms.filter fun m => !isSectionName m.1) = declares ms :=
            declares_of_member? (Json.member?_filter (p := fun key => !isSectionName key) rfl)
          rw [withoutDefinitions, Bool.eq_iff_iff, valid_obj, valid_obj, List.all_eq_true,
            List.all_eq_true]
          constructor
          · intro h k hk
            by_cases hsection : isSectionName k.1 = true
            · obtain ⟨s, -, hs⟩ := List.any_eq_true.1 hsection
              have hname : k.1 = s.name := (beq_iff_eq.1 hs).symm
              rw [hname]
              -- a section of definitions asks nothing of a value
              cases s <;> exact admits_of_place rfl (by decide)
            · rw [admits_siblings fun _ => hdeclares.symm]
              exact h k (List.mem_filter.2 ⟨hk, by simpa using hsection⟩)
          · intro h k hk
            rw [admits_siblings fun _ => hdeclares]
            exact h k (List.mem_of_mem_filter hk)
      | _ => rfl

/-- A plain schema accepts what it did once it is inlined. -/
theorem inlining_keeps_plain {schema v : Json} (hinline : inline schema = .ok v)
    (hplain : ∀ ms, Subschema (definitionsOf schema.ordered) (withoutDefinitions schema.ordered)
      (.obj ms) → Plain (definitionsOf schema.ordered) ms) (x : Json) :
    Validates v x ↔ Validates schema.ordered x := by
  have horder := Json.inOrder_ordered schema
  rw [inline_eq] at hinline
  obtain ⟨depth, h⟩ : Alike (definitionsOf schema.ordered) (definitionsOf v)
      (withoutDefinitions schema.ordered) v :=
    alike_of_expandAfresh (definitionsInOrder horder) hplain .root
      (inOrder_withoutDefinitions horder) hinline
  refine (Alike.validates ⟨depth, fun n n' hn hn' x => ?_⟩).symm
  rw [← h n n' hn hn', valid_withoutDefinitions]

/-- A schema that is its definition `N` with more keywords beside the
reference to it. -/
def narrowed (n : Json) (beside : List (String × Json)) : Json :=
  .obj (("$defs", .obj [("N", n)]) :: ("$ref", .str "#/$defs/N") :: beside)

variable {n : Json} {s : Json}

theorem ofPointer?_narrowed : DefinitionKey.ofPointer? "#/$defs/N" = some ⟨.defs, "N"⟩ := by decide

/-- It is inlined to its definition with what stands beside the reference
laid over that. -/
theorem inline_narrowed
    (hroot : withoutDefinitions (narrowed n beside).ordered =
      .obj (("$ref", .str "#/$defs/N") :: beside))
    (hbody : lookup ⟨.defs, "N"⟩ (definitionsOf (narrowed n beside).ordered) = some n) :
    inline (narrowed n beside) = (do
      let target ← expandAfresh (definitionsOf (narrowed n beside).ordered) [⟨.defs, "N"⟩] n
      let beside ← walkMembers
        (resolveAfresh (definitionsOf (narrowed n beside).ordered) [])
        (("$ref", .str "#/$defs/N") :: beside)
      return refine target beside) := by
  rw [inline_eq, hroot, expandAfresh, walk_reference rfl,
    resolveAfresh_enter ofPointer?_narrowed List.not_mem_nil hbody, List.nil_append]

/-- It is read with its definition, if no other schemas are in either. These
two are all that a reading of the schema comes to. -/
theorem subschema_narrowed (hbeside : ∀ k ∈ beside, ∀ s, ¬ Inside (place k.1) k.2 s)
    (hn : ∀ ms, n = .obj ms → member? referenceKey ms = none ∧
      ∀ k ∈ ms, ∀ s, ¬ Inside (place k.1) k.2 s)
    (h : Subschema [(⟨.defs, "N"⟩, n)] (.obj (("$ref", .str "#/$defs/N") :: beside)) s) :
    s = .obj (("$ref", .str "#/$defs/N") :: beside) ∨ s = n := by
  induction h with
  | root => exact .inl rfl
  | argument outer mem inside ih =>
      rcases ih with heq | rfl
      · cases heq
        rcases List.mem_cons.1 mem with rfl | mem
        -- no schema stands in the reference
        · cases inside
        · exact absurd inside (hbeside _ mem _)
      · exact absurd inside ((hn _ rfl).2 _ mem _)
  | target outer cites points found ih =>
      rcases ih with heq | rfl
      · cases heq
        cases cites
        rw [ofPointer?_narrowed] at points
        cases points
        cases found
        exact .inr rfl
      · rw [(hn _ rfl).1] at cites
        cases cites

/-- A definition and a reference to it with different keywords ask for
both. -/
theorem narrowed_is_kept :
    inline (narrowed (.obj [("type", .str "integer")]) [("minimum", .int 0)]) =
        .ok (.obj [("minimum", .int 0), ("type", .str "integer")]) ∧
      ∀ x, Validates (.obj [("minimum", .int 0), ("type", .str "integer")]) x ↔
        Validates (narrowed (.obj [("type", .str "integer")]) [("minimum", .int 0)]).ordered x := by
  have hinline : inline (narrowed (.obj [("type", .str "integer")]) [("minimum", .int 0)]) =
      .ok (.obj [("minimum", .int 0), ("type", .str "integer")]) := by
    rw [inline_narrowed rfl rfl]
    rfl
  refine ⟨hinline, inlining_keeps_plain hinline fun ms hsub => ?_⟩
  have htype : ∀ k ∈ [("type", Json.str "integer")], ∀ s, ¬ Inside (place k.1) k.2 s := by
    intro k hk s
    rw [List.mem_singleton.1 hk]
    exact id
  have hminimum : ∀ k ∈ [("minimum", Json.int 0)], ∀ s, ¬ Inside (place k.1) k.2 s := by
    intro k hk s
    rw [List.mem_singleton.1 hk]
    exact id
  have hn : ∀ ms, Json.obj [("type", .str "integer")] = .obj ms →
      member? referenceKey ms = none ∧ ∀ k ∈ ms, ∀ s, ¬ Inside (place k.1) k.2 s := by
    intro ms heq
    cases heq
    exact ⟨rfl, htype⟩
  rcases subschema_narrowed hminimum hn hsub with heq | heq
  · cases heq
    refine ⟨fun k hk => ?_, fun reference target beside hmember htarget hbeside => ?_⟩
    · rcases List.mem_cons.1 hk with rfl | hk
      · trivial
      · rw [List.mem_singleton.1 hk]
        exact referenceFree_of_isScalar rfl
    · cases hmember
      rw [resolveAfresh_enter ofPointer?_narrowed List.not_mem_nil rfl] at htarget
      cases htarget
      cases hbeside
      refine ⟨fun keyword a b _ ha hb => ?_, nofun, nofun⟩
      cases List.mem_singleton.1 (Json.mem_of_member? ha)
      cases hb
  · cases heq
    refine ⟨fun k hk => ?_, nofun⟩
    rw [List.mem_singleton.1 hk]
    exact referenceFree_of_isScalar rfl

/-- A keyword beside a reference takes the place of the same keyword of the
target, an object closed beside a reference is opened for the properties of
the target, and a constant that looks like a reference is replaced: each
time the inlined schema accepts what the schema does not. -/
theorem inlining_loses_keywords :
    (inline (narrowed (.obj [("minimum", .int 5)]) [("minimum", .int 0)]) =
        .ok (.obj [("minimum", .int 0)]) ∧
      Validates (.obj [("minimum", .int 0)]) (.int 3) ∧
      ¬ Validates (narrowed (.obj [("minimum", .int 5)]) [("minimum", .int 0)]).ordered
        (.int 3)) ∧
    (inline (narrowed (.obj [("properties", .obj [("a", .bool true)])])
        [("additionalProperties", .bool false)]) =
        .ok (.obj [("additionalProperties", .bool false),
          ("properties", .obj [("a", .bool true)])]) ∧
      Validates (.obj [("additionalProperties", .bool false),
        ("properties", .obj [("a", .bool true)])]) (.obj [("a", .null)]) ∧
      ¬ Validates (narrowed (.obj [("properties", .obj [("a", .bool true)])])
        [("additionalProperties", .bool false)]).ordered (.obj [("a", .null)])) ∧
    (inline (.obj [("$defs", .obj [("N", .bool true)]),
        ("const", .obj [("$ref", .str "#/$defs/N")])]) = .ok (.obj [("const", .bool true)]) ∧
      Validates (.obj [("const", .bool true)]) (.bool true) ∧
      ¬ Validates (Json.obj [("$defs", .obj [("N", .bool true)]),
        ("const", .obj [("$ref", .str "#/$defs/N")])]).ordered (.bool true)) := by
  refine ⟨⟨?_, ?_, ?_⟩, ⟨?_, ?_, ?_⟩, ?_, ?_, ?_⟩
  · rw [inline_narrowed rfl rfl]
    rfl
  · exact validates_of_add 1 fun _ => rfl
  · exact not_validates_of_add 2 fun _ => rfl
  · rw [inline_narrowed rfl rfl]
    rfl
  · exact validates_of_add 2 fun _ => rfl
  · exact not_validates_of_add 3 fun _ => rfl
  · rw [inline_eq]
    show walk _ (.obj [("const", .obj [("$ref", .str "#/$defs/N")])]) = _
    rw [walk_obj rfl, walkMembers, if_neg (by decide), walk_reference rfl,
      resolveAfresh_enter ofPointer?_narrowed List.not_mem_nil rfl]
    rfl
  · exact validates_of_add 1 fun _ => rfl
  · exact not_validates_of_add 1 fun _ => rfl

end Draft

end Schema

end TypedSelect
