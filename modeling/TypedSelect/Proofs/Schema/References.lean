/-
Where references stand in a schema.

A keyword says what its argument is: a schema, a list of schemas, the
schemas of properties, or data that is compared with a value and never
followed. `Refers` says that the references of a schema stand where a
schema may stand, alone in their objects, and which ones there are.

# Sameness

Such a schema means the same when its references are followed another way
that agrees on them, and when parts of it are replaced by schemas that
mean the same. `Same` is that relation, role by role: of two schemas that
they accept the same, of two lists of schemas that their items do, of two
objects of properties that they have the same names and their schemas do,
of data that it is equal.

# One keyword at a time

A keyword is handed the verdicts of its argument. So if the arguments of a
keyword mean the same, the keyword says the same, and this is shown once
for each role and not for each keyword (`SameKeyword.admits`). Only
`additionalProperties` looks at the keywords beside it, for the names of
properties, and these stay.

# What for

Expansion keeps the roles of a schema and replaces its references. That a
schema means the same afterwards is then a matter of its references alone.
-/
import TypedSelect.Proofs.Schema.Pieces

namespace TypedSelect

namespace Schema

open Json (member? object)

-- =============================================================== roles

/-- What a part of a schema is for. -/
inductive Role where
  | schema
  | schemas
  | properties
  | data

/-- What the argument of a keyword is for. -/
def role : String → Role
  | "items" => .schema
  | "not" => .schema
  | "anyOf" => .schemas
  | "oneOf" => .schemas
  | "properties" => .properties
  | _ => .data

/-- A value with nothing inside. -/
def isScalar : Json → Bool
  | .arr _ => false
  | .obj _ => false
  | _ => true

/-- A value with nothing inside, or a list of such values. -/
def isData : Json → Bool
  | .arr items => items.all isScalar
  | j => isScalar j

/-- A part of a schema whose references all stand alone and are among
these. -/
inductive Refers (among : String → Prop) : Role → Json → Prop
  | reference {r : String} (h : among r) :
      Refers among .schema (object [(referenceKey, .str r)])
  | schema {keywords : List (String × Json)} (nodup : (keywords.map Prod.fst).Nodup)
      (noRef : referenceKey ∉ keywords.map Prod.fst)
      (args : ∀ k ∈ keywords, Refers among (role k.1) k.2) :
      Refers among .schema (object keywords)
  | schemas {options : List Json} (each : ∀ s ∈ options, Refers among .schema s) :
      Refers among .schemas (.arr options)
  | properties {ps : List (String × Json)} (nodup : (ps.map Prod.fst).Nodup)
      (noRef : referenceKey ∉ ps.map Prod.fst) (each : ∀ p ∈ ps, Refers among .schema p.2) :
      Refers among .properties (object ps)
  | data {j : Json} (h : isData j = true) : Refers among .data j

-- ============================================================== sameness

/-- Two parts that mean the same in a role, each with its references
followed its own way. A schema that is an object stays one. -/
def Same (follow' follow : String → Json → Bool) : Role → Json → Json → Prop
  | .schema, j', j => (∃ members, j' = .obj members) ∧
      ∀ v, conformsWith follow' j' v = conformsWith follow j v
  | .schemas, j', j => ∃ options' options, j' = .arr options' ∧ j = .arr options ∧
      List.Forall₂ (fun s' s => ∀ v, conformsWith follow' s' v = conformsWith follow s v)
        options' options
  | .properties, j', j => ∃ ps' ps, j' = .obj ps' ∧ j = .obj ps ∧
      List.Forall₂ (fun p' p => p'.1 = p.1 ∧
        ∀ v, conformsWith follow' p'.2 v = conformsWith follow p.2 v) ps' ps
  | .data, j', j => j' = j ∧ isData j = true

variable {follow' follow : String → Json → Bool} {v : Json}

/-- The same keyword with arguments that mean the same. -/
def SameKeyword (follow' follow : String → Json → Bool) (k' k : String × Json) : Prop :=
  k'.1 = k.1 ∧ Same follow' follow (role k.1) k'.2 k.2

theorem conformsWith_of_isScalar {j : Json} (h : isScalar j = true) :
    conformsWith follow' j = conformsWith follow j := by
  cases j with
  | obj members => cases h
  | _ => rfl

/-- Neither has data, whatever it says as a schema. -/
theorem conformsWith_of_isData {j : Json} (h : isData j = true) :
    conformsWith follow' j = conformsWith follow j := by
  cases j with
  | obj members => cases h
  | _ => rfl

/-- Nor as a list of schemas, since its items are scalars. -/
theorem verdicts_of_isData {j : Json} (h : isData j = true) :
    verdicts follow' j = verdicts follow j := by
  cases j with
  | arr items =>
      funext v
      rw [verdicts, verdicts, verdictsOf_eq, verdictsOf_eq]
      exact List.map_congr_left fun s hs =>
        congrFun (conformsWith_of_isScalar (List.all_eq_true.1 h s hs)) v
  | _ => rfl

theorem propertyVerdict_of_isData {j : Json} (h : isData j = true) :
    propertyVerdict follow' j = propertyVerdict follow j := by
  cases j with
  | obj members => cases h
  | _ => rfl

/-- A keyword that is no reference does not follow any itself. -/
theorem admits_follow {sib : List (String × Json)} {keyword : String} {a : Json}
    (hkey : keyword ≠ referenceKey) (c : Json → Bool) (o : Json → List Bool)
    (p : String → Json → Option Bool) :
    admits follow' sib keyword a c o p v = admits follow sib keyword a c o p v := by
  unfold admits
  split <;> first | rfl | exact absurd rfl hkey

/-- Lists of schemas that mean the same give the same verdicts. -/
theorem Same.verdicts {options' options : List Json}
    (h : List.Forall₂ (fun s' s => ∀ v, conformsWith follow' s' v = conformsWith follow s v)
      options' options) :
    verdictsOf follow' options' v = verdictsOf follow options v := by
  induction h with
  | nil => rfl
  | cons hs _ ih => rw [verdictsOf, verdictsOf, hs, ih]

/-- Properties with schemas that mean the same give the same verdicts. -/
theorem Same.propertyOf {ps' ps : List (String × Json)} {name : String}
    (h : List.Forall₂ (fun p' p => p'.1 = p.1 ∧
      ∀ v, conformsWith follow' p'.2 v = conformsWith follow p.2 v) ps' ps) :
    propertyOf follow' ps' name v = propertyOf follow ps name v := by
  induction h with
  | nil => rfl
  | cons hp _ ih => rw [Schema.propertyOf, Schema.propertyOf, hp.1, hp.2, ih]

/-- A keyword that is no reference says the same with an argument that means
the same. Which part of the argument's verdicts it is handed goes by its
role. -/
theorem SameKeyword.admits {siblings' siblings : List (String × Json)} {k' k : String × Json}
    (h : SameKeyword follow' follow k' k) (hkey : k.1 ≠ referenceKey)
    (hdeclares : declares siblings' = declares siblings) :
    Schema.admits follow' siblings' k'.1 k'.2 (conformsWith follow' k'.2)
        (Schema.verdicts follow' k'.2) (propertyVerdict follow' k'.2) v =
      Schema.admits follow siblings k.1 k.2 (conformsWith follow k.2)
        (Schema.verdicts follow k.2) (propertyVerdict follow k.2) v := by
  obtain ⟨keyword', a'⟩ := k'
  obtain ⟨keyword, a⟩ := k
  obtain ⟨rfl, hsame⟩ : keyword' = keyword ∧ Same follow' follow (role keyword) a' a := h
  dsimp only at hkey ⊢
  unfold role at hsame
  -- what an argument is used for is settled by its keyword: one case for each of the five with
  -- schemas in them, and the last for all others
  split at hsame
  case h_1 =>
    obtain ⟨⟨members, rfl⟩, hconforms⟩ := hsame
    rw [funext hconforms]
    cases a <;> cases v <;> rfl
  case h_2 =>
    obtain ⟨⟨members, rfl⟩, hconforms⟩ := hsame
    rw [funext hconforms]
    cases a <;> rfl
  case h_3 =>
    obtain ⟨options', options, rfl, rfl, hoptions⟩ := hsame
    exact congrArg (List.any · id) (Same.verdicts hoptions)
  case h_4 =>
    obtain ⟨options', options, rfl, rfl, hoptions⟩ := hsame
    exact congrArg (fun l => List.count true l == 1) (Same.verdicts hoptions)
  case h_5 =>
    obtain ⟨ps', ps, rfl, rfl, hps⟩ := hsame
    cases v with
    | obj members =>
        exact congrArg (List.all members ·) (funext fun m => congrArg (Option.getD · true)
          (Same.propertyOf hps))
    | _ => rfl
  case h_6 =>
    obtain ⟨rfl, hdata⟩ := hsame
    rw [conformsWith_of_isData hdata, verdicts_of_isData hdata, propertyVerdict_of_isData hdata,
      admits_follow hkey]
    unfold Schema.admits
    rw [hdeclares]

/-- Properties with schemas that mean the same have the same names. -/
theorem Same.hasKey {ps' ps : List (String × Json)} {name : String}
    (h : List.Forall₂ (fun p' p => p'.1 = p.1 ∧
      ∀ v, conformsWith follow' p'.2 v = conformsWith follow p.2 v) ps' ps) :
    Schema.hasKey ps' name = Schema.hasKey ps name := by
  induction h with
  | nil => rfl
  | cons hp _ ih =>
      unfold Schema.hasKey at ih ⊢
      rw [List.any_cons, List.any_cons, hp.1, ih]

/-- The same keywords declare the same properties. Following references
changes schemas under the properties and never their names. -/
theorem SameKeyword.declares {ks' ks : List (String × Json)}
    (h : List.Forall₂ (SameKeyword follow' follow) ks' ks) :
    Schema.declares ks' = Schema.declares ks := by
  funext name
  induction h with
  | nil => rfl
  | @cons k' k ks' ks hk _ ih =>
      obtain ⟨keyword', a'⟩ := k'
      obtain ⟨keyword, a⟩ := k
      obtain ⟨rfl, hsame⟩ : keyword' = keyword ∧ Same follow' follow (role keyword) a' a := hk
      unfold Schema.declares at ih ⊢
      rw [member?, member?]
      by_cases hkeyword : keyword' = "properties"
      · subst hkeyword
        obtain ⟨ps', ps, rfl, rfl, hps⟩ := hsame
        exact Same.hasKey hps
      · rw [if_neg hkeyword, if_neg hkeyword]
        exact ih

/-- Keywords with arguments that mean the same say the same together. -/
theorem SameKeyword.allAdmit {siblings' siblings ks' ks : List (String × Json)}
    (h : List.Forall₂ (SameKeyword follow' follow) ks' ks)
    (hkeys : referenceKey ∉ ks.map Prod.fst)
    (hdeclares : Schema.declares siblings' = Schema.declares siblings) :
    Schema.allAdmit follow' siblings' ks' v = Schema.allAdmit follow siblings ks v := by
  induction h with
  | nil => rfl
  | cons hk _ ih =>
      rw [List.map_cons, List.mem_cons, not_or] at hkeys
      rw [Schema.allAdmit, Schema.allAdmit, ih hkeys.2, hk.admits (Ne.symm hkeys.1) hdeclares]

/-- An object of keywords with arguments that mean the same means the
same. -/
theorem Same.object {ks' ks : List (String × Json)}
    (h : List.Forall₂ (SameKeyword follow' follow) ks' ks)
    (hkeys : referenceKey ∉ ks.map Prod.fst) :
    Same follow' follow .schema (.obj ks') (.obj ks) := by
  refine ⟨⟨ks', rfl⟩, fun v => ?_⟩
  rw [conformsWith, conformsWith]
  exact SameKeyword.allAdmit h hkeys (SameKeyword.declares h)

-- ============================================================ following

variable {among : String → Prop}

/-- A reference that stands alone says what it is followed to. -/
theorem conformsWith_reference {reference : String} :
    conformsWith follow (object [(referenceKey, .str reference)]) v = follow reference v :=
  Bool.eq_iff_iff.2 (conformsWith_single.trans admits_reference)

/-- The sorted keys are the keys. -/
theorem mem_keys_sortMembers {members : List (String × Json)} {key : String}
    (hnodup : (members.map Prod.fst).Nodup) :
    key ∈ (Json.sortMembers members).map Prod.fst ↔ key ∈ members.map Prod.fst := by
  rw [List.mem_map, List.mem_map]
  exact exists_congr fun m => and_congr_left fun _ => Json.mem_sortMembers hnodup

theorem Refers.mono {among' : String → Prop} {r : Role} {j : Json} (h : Refers among r j)
    (hamong : ∀ reference, among reference → among' reference) : Refers among' r j := by
  induction h with
  | reference hr => exact .reference (hamong _ hr)
  | schema nodup noRef args ih => exact .schema nodup noRef ih
  | schemas each ih => exact .schemas ih
  | properties nodup noRef each ih => exact .properties nodup noRef ih
  | data h => exact .data h

/-- A schema means the same under another way to follow its references
that agrees on them. -/
theorem Refers.same {r : Role} {j : Json} (h : Refers among r j)
    (hfollow : ∀ reference, among reference → ∀ v, follow' reference v = follow reference v) :
    Same follow' follow r j j := by
  induction h with
  | reference hr =>
      refine ⟨⟨_, rfl⟩, fun v => ?_⟩
      rw [conformsWith_reference, conformsWith_reference, hfollow _ hr]
  | schema nodup noRef args ih =>
      refine Same.object (List.forall₂_same.2 fun k hk => ⟨rfl, ?_⟩)
        (noRef ∘ (mem_keys_sortMembers nodup).1)
      exact ih k ((Json.mem_sortMembers nodup).1 hk)
  | schemas each ih =>
      exact ⟨_, _, rfl, rfl, List.forall₂_same.2 fun s hs => (ih s hs).2⟩
  | properties nodup noRef each ih =>
      refine ⟨_, _, rfl, rfl, List.forall₂_same.2 fun p hp => ⟨rfl, ?_⟩⟩
      exact (ih p ((Json.mem_sortMembers nodup).1 hp)).2
  | data h => exact ⟨rfl, h⟩

/-- Such a schema is in order, so sorting the members of its objects changes
nothing. There is one case for each form. -/
theorem Refers.ordered {r : Role} {j : Json} (h : Refers among r j) : j.ordered = j := by
  have hscalar : ∀ s : Json, isScalar s = true → s.ordered = s := by
    intro s hs
    cases s with
    | arr items => cases hs
    | obj members => cases hs
    | _ => rfl
  induction h with
  | reference hr =>
      exact Json.ordered_object (List.nodup_singleton _) fun m hm => by
        rw [List.mem_singleton.1 hm]; rfl
  | schema nodup noRef args ih => exact Json.ordered_object nodup ih
  | schemas each ih => exact Json.ordered_arr ih
  | properties nodup noRef each ih => exact Json.ordered_object nodup ih
  | @data j h =>
      cases j with
      | arr items => exact Json.ordered_arr fun s hs => hscalar s (List.all_eq_true.1 h s hs)
      | _ => exact hscalar _ h

end Schema

end TypedSelect
