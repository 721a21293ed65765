/-
The path that a self-reference reports.

Expansion keeps the definitions it is inside of on a path. What carries
everything here is how such a path comes about: a definition is put on it
when the node in hand names it, and from then on the node in hand is its
body. So each definition on the path leads to the next one, and none
stands there twice.

# Descent

`Descent` says this as a relation between the root of a document, a path
and the node in hand, with one rule for entering a definition. What holds
of the path is shown by induction on the way there: its definitions are
distinct and defined, each leads to the next, the root names the first,
and the node in hand is the body of the last.

# Two ways to close

A self-reference closes the path. The node in hand names a definition on
it, and what is reported is the path from that one on (`Loop`). Or it
refers to the whole document, and what is reported is all of the path with
the document at both ends (`RootLoop`). The second is a loop as well, for
the root names the first definition of the path.

# The induction

That every report is one of the two is by induction on the path, which
cannot grow for ever, since its definitions are distinct. Each step either
ends in an error, and it is seen which, or enters one definition more and
is a descent again. The steps are those of expansion without sharing; that
sharing changes no result is shown elsewhere.
-/
import Mathlib.Data.List.Chain
import TypedSelect.Proofs.Schema.Refusals

namespace TypedSelect

namespace Schema

variable {definitions : Definitions} {path keys : List DefinitionKey} {key : DefinitionKey}
variable {root node body : Json} {names : List String}

-- ============================================================== descent

/-- Expansion that starts at the root has come to the node, with these
definitions entered on its way and not left yet. -/
inductive Descent (definitions : Definitions) (root : Json) : List DefinitionKey → Json → Prop
  | start : Descent definitions root [] root
  | enter {path : List DefinitionKey} {key : DefinitionKey} {node body : Json}
      (above : Descent definitions root path node) (names : Names node key) (fresh : key ∉ path)
      (defined : lookup key definitions = some body) :
      Descent definitions root (path ++ [key]) body

/-- What is in hand behind the last definition that was entered: its body,
or the root where none was. -/
def inHand (definitions : Definitions) (root : Json) : Option DefinitionKey → Option Json
  | none => some root
  | some key => lookup key definitions

namespace Descent

/-- No definition is entered while it is being expanded. -/
theorem nodup (h : Descent definitions root path node) : path.Nodup := by
  induction h with
  | start => exact List.nodup_nil
  | enter _ _ fresh _ ih =>
      exact List.nodup_append.2 ⟨ih, List.nodup_singleton _, fun _ hk _ hk' heq =>
        fresh (List.mem_singleton.1 hk' ▸ heq ▸ hk)⟩

theorem defined (h : Descent definitions root path node) (hkey : key ∈ path) :
    ∃ body, lookup key definitions = some body := by
  induction h with
  | start => cases hkey
  | enter _ _ _ defined ih =>
      rcases List.mem_append.1 hkey with hkey | hkey
      · exact ih hkey
      · exact ⟨_, List.mem_singleton.1 hkey ▸ defined⟩

/-- The node in hand is the body of the last definition, or the root. -/
theorem inHand_getLast? (h : Descent definitions root path node) :
    inHand definitions root path.getLast? = some node := by
  cases h with
  | start => rfl
  | enter _ _ _ defined => rwa [List.getLast?_concat]

/-- The last definition on the path leads to what the node in hand names. -/
theorem leads (h : Descent definitions root path node) (hnames : Names node key)
    {last : DefinitionKey} (hlast : last ∈ path.getLast?) : Leads definitions last key := by
  have hbody := h.inHand_getLast?
  rw [hlast] at hbody
  exact ⟨node, hbody, hnames⟩

/-- Each definition on the path leads to the next. -/
theorem isChain (h : Descent definitions root path node) : path.IsChain (Leads definitions) := by
  induction h with
  | start => exact .nil
  | enter above names _ _ ih =>
      refine List.isChain_append.2 ⟨ih, .singleton _, fun last hlast key hkey => ?_⟩
      cases hkey
      exact above.leads names hlast

/-- The root names the first definition on the path. -/
theorem names_head (h : Descent definitions root path node) (hkey : key ∈ path.head?) :
    Names root key := by
  induction h with
  | start => cases hkey
  | @enter path key' _ _ above names _ _ ih =>
      cases path with
      | nil =>
          cases hkey
          cases above.inHand_getLast?
          exact names
      | cons first rest => exact ih hkey

end Descent

-- ================================================================ loops

/-- A chain of definitions that ends where it starts, and passes no
definition twice on its way. -/
structure Loop (definitions : Definitions) (keys : List DefinitionKey) : Prop where
  defined : ∀ key ∈ keys, ∃ body, lookup key definitions = some body
  chain : keys.IsChain (Leads definitions)
  closed : keys.head? = keys.getLast?
  distinct : keys.dropLast.Nodup
  moves : 2 ≤ keys.length

/-- A chain of definitions from the root back to it, that passes none
twice. -/
structure RootLoop (definitions : Definitions) (root : Json) (keys : List DefinitionKey) :
    Prop where
  defined : ∀ key ∈ keys, ∃ body, lookup key definitions = some body
  chain : keys.IsChain (Leads definitions)
  first : ∀ key ∈ keys.head?, Names root key
  closed : ∃ node, inHand definitions root keys.getLast? = some node ∧
    Cites node (.str rootReference)
  distinct : keys.Nodup

/-- From a definition on the path on, the path is a loop once the node in
hand names that definition. -/
theorem Descent.loop {before after : List DefinitionKey}
    (h : Descent definitions root (before ++ key :: after) node) (hnames : Names node key) :
    Loop definitions (key :: after ++ [key]) where
  defined key' hkey' := by
    refine h.defined (List.mem_append_right _ ?_)
    rcases List.mem_append.1 hkey' with hkey' | hkey'
    · exact hkey'
    · exact List.mem_singleton.1 hkey' ▸ List.mem_cons_self
  chain := by
    refine List.isChain_append.2 ⟨(List.isChain_append.1 h.isChain).2.1, .singleton _,
      fun last hlast key' hkey' => ?_⟩
    cases hkey'
    refine h.leads hnames ?_
    rwa [List.getLast?_append_of_ne_nil _ (List.cons_ne_nil _ _)]
  closed := by rw [List.getLast?_concat]; rfl
  distinct := by
    rw [List.dropLast_concat]
    exact h.nodup.of_append_right
  moves := by simp

/-- All of the path is a loop through the root, once the node in hand refers
to the whole document. -/
theorem Descent.rootLoop (h : Descent definitions root path node)
    (hcites : Cites node (.str rootReference)) : RootLoop definitions root path where
  defined _ := h.defined
  chain := h.isChain
  first _ := h.names_head
  closed := ⟨node, h.inHand_getLast?, hcites⟩
  distinct := h.nodup

/-- What is reported of a definition on the path is the path from there
on. -/
theorem cycle_append {before after : List DefinitionKey} (hbefore : key ∉ before) :
    cycle (before ++ key :: after) key =
      .selfReference ((key :: after ++ [key]).map DefinitionKey.name) := by
  have hdrop : (before ++ key :: after).dropWhile (· != key) = key :: after := by
    have hother : ∀ k ∈ before, (k != key) = true := fun k hk =>
      bne_iff_ne.2 fun heq => hbefore (heq ▸ hk)
    rw [List.dropWhile_append_of_pos hother, List.dropWhile_cons_of_neg (by simp)]
  rw [cycle, hdrop]

-- ====================================================== what is reported

/-- What a report of a self-reference can say: the names along a loop of
definitions, or the names along a loop through the root, between two
references to the root. -/
def Reported (definitions : Definitions) (root : Json) (names : List String) : Prop :=
  (∃ keys, names = keys.map DefinitionKey.name ∧ Loop definitions keys) ∨
    ∃ keys, names = [rootReference] ++ keys.map DefinitionKey.name ++ [rootReference] ∧
      RootLoop definitions root keys

/-- Wherever expansion has come to, the self-reference it then reports is a
loop: the path grows by one definition at a time up to where it closes. -/
theorem Descent.reported (h : Descent definitions root path node)
    (herror : expandAfresh definitions path node = .error (.selfReference names)) :
    Reported definitions root names := by
  induction path using path_induction definitions generalizing node with
  -- a report comes from some reference below the node, not from its own
  -- shape
  | step path ih =>
      rcases blamed_of_walk herror with ⟨_, _, _, heq⟩ | ⟨reference, hcites, herror⟩
      · cases heq
      generalize houtcome : Except.error (SchemaError.selfReference names) = outcome at herror
      cases herror ▸ comesTo_resolveAfresh definitions path reference with
      | root whole =>
          cases houtcome
          exact .inr ⟨path, rfl, h.rootLoop (whole ▸ hcites)⟩
      | unsupported => cases houtcome
      | cycle points again =>
          -- what is reported is the path from where the definition was entered
          obtain ⟨before, after, rfl, hbefore⟩ := List.eq_append_cons_of_mem again
          rw [cycle_append hbefore] at houtcome
          cases houtcome
          exact .inl ⟨_, rfl, h.loop ⟨reference, hcites, points⟩⟩
      | unknown => cases houtcome
      | entered points off found expands =>
          exact ih _ _ off found (h.enter ⟨reference, hcites, points⟩ off found)
            (expands.trans houtcome.symm)

/-- A report starts and ends with the same name, and has a name on either
end. -/
theorem Reported.closed (h : Reported definitions root names) :
    2 ≤ names.length ∧ names.head? = names.getLast? := by
  rcases h with ⟨keys, rfl, hloop⟩ | ⟨keys, rfl, -⟩
  · rw [List.length_map, List.head?_map, List.getLast?_map, hloop.closed]
    exact ⟨hloop.moves, rfl⟩
  · rw [List.getLast?_concat]
    exact ⟨by simp, rfl⟩

/-- A self-reference that is reported is there: its path starts and ends
with the same name, and names a chain of definitions of the schema, each
with a reference to the next one in its body, that comes back to where it
started, at a definition or at the root, and passes nothing else twice. -/
theorem selfReference_is_loop {schema : Json} (h : inline schema = .error (.selfReference names)) :
    2 ≤ names.length ∧ names.head? = names.getLast? ∧
      Reported (definitionsOf schema.ordered) (withoutDefinitions schema.ordered) names := by
  rw [inline_eq] at h
  have hreported := Descent.start.reported h
  exact ⟨hreported.closed.1, hreported.closed.2, hreported⟩

/-- A reference that stands alone fails as its answer does. -/
theorem walk_alone_eq_error {answer : String → Except SchemaError Json} {reference : String}
    {e : SchemaError} (h : answer reference = .error e) :
    walk answer (.obj [(referenceKey, .str reference)]) = .error e := by
  have hmember : Json.member? referenceKey [(referenceKey, .str reference)] =
    some (.str reference) := if_pos rfl
  rw [walk_reference hmember, h]
  rfl

/-- Two definitions that refer to each other, and a schema that refers to
the first. -/
def mutualPair : Json :=
  .obj [("$defs", .obj [("A", .obj [(referenceKey, .str "#/$defs/B")]),
    ("B", .obj [(referenceKey, .str "#/$defs/A")])]), (referenceKey, .str "#/$defs/A")]

/-- The two definitions that refer to each other are reported as the loop
they are. -/
theorem mutualPair_is_loop :
    inline mutualPair = .error (.selfReference ["A", "B", "A"]) ∧
      ∃ keys : List DefinitionKey, keys.map DefinitionKey.name = ["A", "B", "A"] ∧
        Loop (definitionsOf mutualPair.ordered) keys := by
  have hA : DefinitionKey.ofPointer? "#/$defs/A" = some ⟨.defs, "A"⟩ := by decide
  have hB : DefinitionKey.ofPointer? "#/$defs/B" = some ⟨.defs, "B"⟩ := by decide
  have hinline : inline mutualPair = .error (.selfReference ["A", "B", "A"]) := by
    rw [inline_eq]
    apply walk_alone_eq_error
    rw [resolveAfresh_enter hA List.not_mem_nil rfl]
    apply walk_alone_eq_error
    rw [resolveAfresh_enter hB (by decide) rfl]
    apply walk_alone_eq_error
    rw [resolveAfresh_cycle hA (by decide)]
    rfl
  refine ⟨hinline, ?_⟩
  obtain ⟨-, -, ⟨keys, hnames, hloop⟩ | ⟨keys, hnames, -⟩⟩ := selfReference_is_loop hinline
  · exact ⟨keys, hnames.symm, hloop⟩
  · have hhead : "A" = rootReference := (List.cons.inj hnames).1
    exact absurd hhead (by decide)

end Schema

end TypedSelect
