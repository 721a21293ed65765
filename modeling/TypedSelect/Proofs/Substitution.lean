/-
One text in the place of another.

Every occurrence of a pattern gives way to a replacement, from the left,
and an occurrence starts where the one before it has ended. A replacement
is not looked at again, so that two substitutions one after the other are
not the same as both at once.

Two things in this library are defined by such substitutions: a string is
put in quotes by doubling the quotes in it, and a name is taken from a
reference by undoing its two escapes one after the other. The proofs about
both want recursions on characters, and get them from the three equations
below: at the end of the text, at an occurrence, and at a character where
no occurrence begins. The definition recurses on the length of the text,
since an occurrence takes more than one character off it, and nothing
outside this module unfolds it.

A pattern is given by its first character and the others, since an empty
one would occur everywhere. It is also what the third equation is about:
most characters are not the first one, and then nothing has to be said
about what follows (`substitute_cons_of_ne`).
-/
import Mathlib.Data.List.Basic

namespace TypedSelect

/-- The text with every occurrence of a pattern replaced. A pattern has a
first character and may have more of them. -/
def substitute (first : Char) (more replacement : List Char) : List Char → List Char
  | [] => []
  | c :: text =>
    match _h : (first :: more).isPrefixOf? (c :: text) with
    | some behind => replacement ++ substitute first more replacement behind
    | none => c :: substitute first more replacement text
termination_by text => text.length
decreasing_by
  · have hlength := congrArg List.length (List.isPrefixOf?_eq_some_iff_append_eq.1 _h)
    simp only [List.length_append, List.length_cons] at hlength ⊢
    omega
  · simp

variable {first c : Char} {more replacement text : List Char}

/-- In an empty text there is nothing to replace. -/
theorem substitute_nil : substitute first more replacement [] = [] := by
  rw [substitute]

/-- An occurrence of the pattern is replaced, and the text goes on behind
it. -/
theorem substitute_pattern (text : List Char) :
    substitute first more replacement (first :: (more ++ text)) =
      replacement ++ substitute first more replacement text := by
  have hbegins : (first :: more).isPrefixOf? (first :: (more ++ text)) = some text :=
    List.isPrefixOf?_eq_some_iff_append_eq.2 rfl
  rw [substitute]
  split
  next behind h =>
    rw [hbegins] at h
    cases h
    rfl
  next h =>
    rw [hbegins] at h
    cases h

/-- Where the pattern does not begin, a character stays. This and the
equation for an occurrence are how a substitution is computed in proofs. -/
theorem substitute_cons (h : c = first → ¬ more <+: text) :
    substitute first more replacement (c :: text) =
      c :: substitute first more replacement text := by
  have hbegins : (first :: more).isPrefixOf? (c :: text) = none := by
    rw [Option.eq_none_iff_forall_ne_some]
    intro behind heq
    rw [List.isPrefixOf?_eq_some_iff_append_eq, List.cons_append, List.cons.injEq] at heq
    exact h heq.1.symm ⟨behind, heq.2⟩
  rw [substitute]
  split
  next behind h =>
    rw [hbegins] at h
    cases h
  next => rfl

/-- Above all where the character is not the first one of the pattern. -/
theorem substitute_cons_of_ne (h : c ≠ first) :
    substitute first more replacement (c :: text) =
      c :: substitute first more replacement text :=
  substitute_cons fun hc => absurd hc h

end TypedSelect
