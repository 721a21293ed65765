/-
A schema without its references means what it meant.

The definitions are ranked: each refers to definitions of lower rank only.
Then a reference needs no more than its rank to be followed to the end,
and expansion meets no definition that it is already expanding.

# The walk

Expansion keeps the definitions that it has expanded, so what it does at a
reference depends on what it did before. `Yields` is a triple about it:
from a state where the invariant holds it comes to an end, in a state
where the invariant holds again, with such a result. Each step of the walk
has a rule, and a proof about a schema is put together from those of its
parts. That the walk ends without an error is part of the statement.

# The invariant

What carries the proof is that each definition that is kept means what its
definition means, however references are followed in it: there are none
left (`Sound`). A definition that is used again therefore stands for what
the reference refers to. The induction is on the rank: a definition of
some rank is expanded while only definitions of this rank or more are on
the path, so it is not there yet, and neither is what it refers to.

# What for

Ranked definitions are those of the entities. For schemas in general there
is no rank, and expansion can fail; how it does and what it then reports
is shown with expansion that keeps nothing.
-/
import TypedSelect.Proofs.Schema.References

namespace TypedSelect

namespace Schema

open Json (member? object)

-- =============================================================== ranks

/-- The reference leads to a definition below this rank. -/
def Below (definitions : Definitions) (rank : DefinitionKey → Nat) (n : Nat)
    (reference : String) : Prop :=
  ∃ key body, DefinitionKey.ofPointer? reference = some key ∧
    lookup key definitions = some body ∧ rank key < n

/-- Every definition refers to definitions of lower rank only. -/
def Ranked (definitions : Definitions) (rank : DefinitionKey → Nat) : Prop :=
  ∀ key body, lookup key definitions = some body →
    Refers (Below definitions rank (rank key)) .schema body

/-- References are followed to their definitions. -/
def FollowsInto (definitions : Definitions) (follow : String → Json → Bool) : Prop :=
  ∀ reference key body, DefinitionKey.ofPointer? reference = some key →
    lookup key definitions = some body → ∀ v, follow reference v = conformsWith follow body v

variable {definitions : Definitions} {rank : DefinitionKey → Nat} {follow : String → Json → Bool}

/-- One reference is followed at the cost of one depth. -/
theorem followed_succ {depth : Nat} {reference : String} {key : DefinitionKey} {body v : Json}
    (hkey : DefinitionKey.ofPointer? reference = some key)
    (hbody : lookup key definitions = some body) :
    followed definitions (depth + 1) reference v =
      conformsWith (followed definitions depth) body v := by
  rw [followed, hkey, Option.bind_some, hbody]

/-- What is below a rank is below any higher one. -/
theorem Below.mono {m n : Nat} {reference : String} (hle : m ≤ n)
    (h : Below definitions rank m reference) : Below definitions rank n reference := by
  obtain ⟨key, body, hkey, hbody, hlt⟩ := h
  exact ⟨key, body, hkey, hbody, hlt.trans_le hle⟩

/-- From its rank on a definition means the same however deep references are
followed: by induction on the rank, since it refers to lower ones. -/
theorem followed_stable (hranked : Ranked definitions rank) {depth : Nat} {reference : String}
    (h : Below definitions rank depth reference) (v : Json) :
    followed definitions (depth + 1) reference v = followed definitions depth reference v := by
  induction depth generalizing reference v with
  | zero =>
      obtain ⟨key, body, -, -, hlt⟩ := h
      cases hlt
  | succ depth ih =>
      obtain ⟨key, body, hkey, hbody, hlt⟩ := h
      rw [followed_succ hkey hbody, followed_succ hkey hbody]
      have hsame := (hranked key body hbody).same fun reference h =>
        ih (h.mono (Nat.le_of_lt_succ hlt))
      exact hsame.2 v

/-- Deep enough, every reference is followed to its definition. -/
theorem followsInto_followed (hranked : Ranked definitions rank) {depth : Nat}
    (hdepth : ∀ key body, lookup key definitions = some body → rank key < depth) :
    FollowsInto definitions (followed definitions depth) := by
  intro reference key body hkey hbody v
  rw [← followed_stable hranked ⟨key, body, hkey, hbody, hdepth key body hbody⟩,
    followed_succ hkey hbody]

-- ========================================================= the walk

/-- From a state where the invariant holds the walk comes to an end, with
such a result and the invariant. -/
def Yields {α : Type} (inv : Expanded → Prop) (x : Expansion α) (post : α → Prop) : Prop :=
  ∀ st, inv st → ∃ a st', x.run st = .ok (a, st') ∧ inv st' ∧ post a

section

variable {α β : Type} {inv : Expanded → Prop}

/-- A value that is returned is the result, and nothing is kept. -/
theorem Yields.pure {post : α → Prop} {a : α} (h : post a) :
    Yields inv (Pure.pure a : Expansion α) post :=
  fun st hst => ⟨a, st, rfl, hst, h⟩

/-- What follows a step starts from the invariant and from the step's result.
-/
theorem Yields.bind {x : Expansion α} {f : α → Expansion β} {post : α → Prop} {post' : β → Prop}
    (hx : Yields inv x post) (hf : ∀ a, post a → Yields inv (f a) post') :
    Yields inv (x >>= f) post' := by
  intro st hst
  obtain ⟨a, st₁, hrun, hst₁, ha⟩ := hx st hst
  obtain ⟨b, st₂, hrun', hst₂, hb⟩ := hf a ha st₁ hst₁
  refine ⟨b, st₂, ?_, hst₂, hb⟩
  rw [StateT.run_bind, hrun]
  exact hrun'

theorem Yields.imp {x : Expansion α} {post post' : α → Prop} (hx : Yields inv x post)
    (h : ∀ a, post a → post' a) : Yields inv x post' := by
  intro st hst
  obtain ⟨a, st', hrun, hst', ha⟩ := hx st hst
  exact ⟨a, st', hrun, hst', h a ha⟩

variable {path : List DefinitionKey}

/-- The items of a list are expanded one by one. -/
theorem yields_expandItems {R : Json → Json → Prop} {items : List Json}
    (each : ∀ s ∈ items, Yields inv (expand definitions path s) (R · s)) :
    Yields inv (expandItems definitions path items) (List.Forall₂ R · items) := by
  induction items with
  | nil =>
      rw [expandItems]
      exact .pure .nil
  | cons s items ih =>
      rw [List.forall_mem_cons] at each
      rw [expandItems]
      exact each.1.bind fun s' hs => (ih each.2).bind fun items' hitems => .pure (.cons hs hitems)

/-- The members of an object are expanded one by one, and keep their keys.
This is for an object without a reference; one that has a reference is
resolved. -/
theorem yields_expandMembers {R : String → Json → Json → Prop}
    {members : List (String × Json)} (noRef : referenceKey ∉ members.map Prod.fst)
    (each : ∀ m ∈ members, Yields inv (expand definitions path m.2) (R m.1 · m.2)) :
    Yields inv (expandMembers definitions path members)
      (List.Forall₂ (fun m' m => m'.1 = m.1 ∧ R m.1 m'.2 m.2) · members) := by
  induction members with
  | nil =>
      rw [expandMembers]
      exact .pure .nil
  | cons m members ih =>
      obtain ⟨key, value⟩ := m
      rw [List.forall_mem_cons] at each
      rw [List.map_cons, List.mem_cons, not_or] at noRef
      rw [expandMembers, if_neg (Ne.symm noRef.1)]
      exact each.1.bind fun value' hvalue => (ih noRef.2 each.2).bind fun members' hmembers =>
        .pure (.cons ⟨rfl, hvalue⟩ hmembers)

/-- An object without a reference is expanded member by member. -/
theorem yields_expand_obj {R : String → Json → Json → Prop}
    {members : List (String × Json)} (noRef : referenceKey ∉ members.map Prod.fst)
    (each : ∀ m ∈ members, Yields inv (expand definitions path m.2) (R m.1 · m.2)) :
    Yields inv (expand definitions path (.obj members)) fun j' => ∃ members', j' = .obj members' ∧
      List.Forall₂ (fun m' m => m'.1 = m.1 ∧ R m.1 m'.2 m.2) members' members := by
  have hnone : member? referenceKey members = none := by
    cases hmember : member? referenceKey members with
    | none => rfl
    | some j => exact absurd (List.mem_map_of_mem (Json.mem_of_member? hmember)) noRef
  rw [expand, hnone]
  exact (yields_expandMembers noRef each).bind fun members' h => .pure ⟨members', rfl, h⟩

theorem expand_of_isScalar {s : Json} (h : isScalar s = true) :
    expand definitions path s = pure s := by
  cases s with
  | obj members => cases h
  | arr items => cases h
  | _ =>
      rw [expand]
      all_goals
        intro _ heq
        cases heq

/-- Data is expanded to itself, since there is no reference in it. Expansion
goes through defaults and enumerations as through anything else. -/
theorem yields_expand_isData {j : Json} (h : isData j = true) :
    Yields inv (expand definitions path j) (· = j) := by
  have hscalar : ∀ s, isScalar s = true → Yields inv (expand definitions path s) (· = s) := by
    intro s hs
    rw [expand_of_isScalar hs]
    exact .pure rfl
  cases j with
  | arr items =>
      rw [expand]
      refine (yields_expandItems fun s hs => hscalar s (List.all_eq_true.1 h s hs)).bind
        fun items' hitems => .pure (congrArg Json.arr ?_)
      rwa [List.forall₂_eq_eq_eq] at hitems
  | obj members => cases h
  | _ => exact hscalar _ h

end

-- ============================================================= meaning

/-- A part of a schema stands for another, however references are followed
in it. -/
def StandsFor (follow : String → Json → Bool) (r : Role) (j' j : Json) : Prop :=
  ∀ follow', Same follow' follow r j' j

/-- What has been expanded stands for its definition. -/
def Sound (definitions : Definitions) (follow : String → Json → Bool) (st : Expanded) : Prop :=
  ∀ key j', lookup key st = some j' →
    ∃ body, lookup key definitions = some body ∧ StandsFor follow .schema j' body

variable {path : List DefinitionKey} {n : Nat}

/-- The expansion of a part stands for it if what its references refer to is
expanded so. By induction on how the part is built, with the members of an
object in the order they are sorted in. -/
theorem Refers.yields_expand {inv : Expanded → Prop} {among : String → Prop}
    (hresolve : ∀ reference, among reference → Yields inv (resolve definitions path reference)
      (StandsFor follow .schema · (object [(referenceKey, .str reference)])))
    {r : Role} {j : Json} (h : Refers among r j) :
    Yields inv (expand definitions path j) (StandsFor follow r · j) := by
  induction h with
  -- a reference stands alone, so nothing is laid over its target
  | @reference reference hr =>
      have hobject : object [(referenceKey, .str reference)] =
          .obj [(referenceKey, .str reference)] := rfl
      have hmember : member? referenceKey [(referenceKey, Json.str reference)] =
          some (.str reference) := by rw [member?, if_pos rfl]
      rw [hobject, expand, hmember]
      refine (hresolve reference hr).bind fun target htarget => ?_
      rw [expandMembers, if_pos rfl, expandMembers]
      exact .pure htarget
  | @schema keywords nodup noRef args ih =>
      have hkeys := noRef ∘ (mem_keys_sortMembers nodup).1
      refine (yields_expand_obj (R := fun k => StandsFor follow (role k)) hkeys fun k hk =>
        ih k ((Json.mem_sortMembers nodup).1 hk)).imp ?_
      rintro _ ⟨ks', rfl, hks⟩ follow'
      exact Same.object (hks.imp fun k' k hk => ⟨hk.1, hk.2 follow'⟩) hkeys
  | @schemas options each ih =>
      rw [expand]
      refine (yields_expandItems ih).bind fun options' hoptions => .pure fun follow' => ?_
      exact ⟨options', options, rfl, rfl, hoptions.imp fun s' s hs => (hs follow').2⟩
  | @properties ps nodup noRef each ih =>
      have hkeys := noRef ∘ (mem_keys_sortMembers nodup).1
      refine (yields_expand_obj (R := fun _ => StandsFor follow .schema) hkeys fun p hp =>
        ih p ((Json.mem_sortMembers nodup).1 hp)).imp ?_
      rintro _ ⟨ps', rfl, hps⟩ follow'
      exact ⟨ps', _, rfl, rfl, hps.imp fun p' p hp => ⟨hp.1, (hp.2 follow').2⟩⟩
  | data h =>
      refine (yields_expand_isData h).imp ?_
      rintro _ rfl follow'
      exact ⟨rfl, h⟩

/-- A definition that is found is one of the definitions. The search is from
the front, so of two under one key the first is found. -/
theorem mem_of_lookup {definitions : Definitions} {key : DefinitionKey} {body : Json}
    (h : lookup key definitions = some body) : (key, body) ∈ definitions := by
  induction definitions with
  | nil => cases h
  | cons d definitions ih =>
      obtain ⟨k, b⟩ := d
      rw [lookup] at h
      split at h
      next heq =>
        cases h
        exact List.mem_cons.2 (.inl (heq ▸ rfl))
      next => exact List.mem_cons_of_mem _ (ih h)

/-- A reference to a definition is none to the whole document. -/
theorem ne_rootReference {reference : String} {key : DefinitionKey}
    (hkey : DefinitionKey.ofPointer? reference = some key) : reference ≠ rootReference := by
  rintro rfl
  cases hkey

/-- A definition that has been expanded is used again. -/
theorem resolve_expanded {reference : String} {key : DefinitionKey} {body : Json} {st : Expanded}
    (hkey : DefinitionKey.ofPointer? reference = some key) (hst : lookup key st = some body) :
    (resolve definitions path reference).run st = .ok (body, st) := by
  rw [resolve, if_neg (ne_rootReference hkey), hkey]
  dsimp only
  rw [StateT.run_bind]
  simp only [StateT.run_get, pure_bind, hst]
  rfl

/-- One that has not is expanded, with itself on the path, and kept. What is
kept is the expanded body, and it is kept only when the expansion succeeds. -/
theorem resolve_enter {reference : String} {key : DefinitionKey} {body : Json} {st : Expanded}
    (hkey : DefinitionKey.ofPointer? reference = some key) (hst : lookup key st = none)
    (hpath : key ∉ path) (hbody : lookup key definitions = some body) :
    (resolve definitions path reference).run st =
      ((expand definitions (path ++ [key]) body).run st).map fun p =>
        (p.1, (key, p.1) :: p.2) := by
  have hnew : ¬ path.contains key = true := fun h => hpath (List.contains_iff_mem.1 h)
  rw [resolve, if_neg (ne_rootReference hkey), hkey]
  dsimp only
  rw [StateT.run_bind]
  simp only [StateT.run_get, pure_bind, hst, dif_neg hnew]
  split
  next h => rw [hbody] at h; cases h
  next body' h =>
    rw [hbody] at h
    cases h
    rw [StateT.run_bind]
    cases (expand definitions (path ++ [key]) body).run st <;> rfl

/-- A reference stands for its definition. -/
theorem StandsFor.reference (hfollow : FollowsInto definitions follow) {reference : String}
    {key : DefinitionKey} {j' body : Json}
    (hkey : DefinitionKey.ofPointer? reference = some key)
    (hbody : lookup key definitions = some body) (h : StandsFor follow .schema j' body) :
    StandsFor follow .schema j' (object [(referenceKey, .str reference)]) := by
  intro follow'
  obtain ⟨hobject, hconforms⟩ := h follow'
  refine ⟨hobject, fun v => ?_⟩
  rw [hconforms, conformsWith_reference, hfollow reference key body hkey hbody]

/-- What a reference refers to is expanded, if nothing of lower rank is being
expanded. Either it is kept already, or its definition is entered, and the
path still has nothing of lower rank than that. -/
theorem yields_resolve (hranked : Ranked definitions rank)
    (hfollow : FollowsInto definitions follow) {reference : String}
    (h : Below definitions rank n reference) (hpath : ∀ key ∈ path, n ≤ rank key) :
    Yields (Sound definitions follow) (resolve definitions path reference)
      (StandsFor follow .schema · (object [(referenceKey, .str reference)])) := by
  induction n using Nat.strong_induction_on generalizing path reference with
  | _ n ih =>
      obtain ⟨key, body, hkey, hbody, hlt⟩ := h
      intro st hst
      cases hmemo : lookup key st with
      | some j' =>
          obtain ⟨body', hbody', hstands⟩ := hst key j' hmemo
          exact ⟨j', st, resolve_expanded hkey hmemo, hst, .reference hfollow hkey hbody' hstands⟩
      | none =>
          -- the path has ranks from `n` up, and this one is lower
          have hnew : key ∉ path := fun hmem => absurd hlt (hpath key hmem).not_gt
          have hlonger : ∀ key' ∈ path ++ [key], rank key ≤ rank key' := by
            intro key' hmem
            rcases List.mem_append.1 hmem with hmem | hmem
            · exact hlt.le.trans (hpath key' hmem)
            · rw [List.mem_singleton.1 hmem]
          obtain ⟨j', st', hrun, hst', hstands⟩ :=
            (hranked key body hbody).yields_expand
              (fun reference h => ih (rank key) hlt h hlonger) st hst
          refine ⟨j', (key, j') :: st', ?_, ?_, .reference hfollow hkey hbody hstands⟩
          · rw [resolve_enter hkey hmemo hnew hbody, hrun]
            rfl
          · intro key' j hlookup
            rw [lookup] at hlookup
            split at hlookup
            next heq =>
              cases hlookup
              exact ⟨body, heq ▸ hbody, hstands⟩
            next => exact hst' key' j hlookup

end Schema

end TypedSelect
