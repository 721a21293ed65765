/-
Runs of characters.

Both scanners of this library, the one for JSON and the one for SQL, take
a run of characters of one class off their input. The run ends at the
first character outside the class, so a run is read back whole when such
a character or the end of the text follows it. That is `span_append`, and
every round trip through a text rests on it: a writer puts characters of
one class side by side, and the lemma asks only what stands behind them.

# Classes as inequalities

The classes are the ones of ASCII, and the library has them as truth
values. The lemmas on letters turn each into inequalities between
characters. A range of a pattern in a schema and a range of the scanner
are compared in this form, where both are pairs of bounds.

# Digits

The runs that matter most are the digits of a number. `AllDigits` is
closed under everything the writers do to digits: writing a number in base
ten, putting zeros before or behind it, and putting two runs side by side.
The first digit of a number other than zero is no zero, and JSON asks for
that of every numeral; it is also why a numeral is read to its end, since
a leading zero would end it at once.

Used by the numerals of JSON, by the tokens of SQL, by the names of a
query and by the patterns of its schema.
-/

namespace TypedSelect

variable {c : Char} {run rest : List Char}

/-- A character of a class is none that lies outside. Both facts are settled
by computation where the second character is given, so this is how a
scanner's branches for single characters are passed over. -/
theorem ne_of_class {p : Char → Bool} (hc : p c = true) (d : Char)
    (hd : p d = false) : c ≠ d := by
  rintro rfl
  rw [hc] at hd
  cases hd

/-- A run of characters up to one that does not belong to it. The condition
on what follows speaks of its first character only, if there is one, so the
end of the text needs no case of its own. -/
theorem span_append {p : Char → Bool} (hrun : ∀ d ∈ run, p d = true)
    (hrest : ∀ d ∈ rest.head?, p d = false) :
    (run ++ rest).takeWhile p = run ∧ (run ++ rest).dropWhile p = rest := by
  rw [List.takeWhile_append_of_pos hrun, List.dropWhile_append_of_pos hrun]
  cases rest with
  | nil => simp
  | cons d rest => simp [hrest d rfl]

-- ============================================================ letters

theorem isUpper_iff : c.isUpper = true ↔ 'A' ≤ c ∧ c ≤ 'Z' := decide_eq_true_iff

theorem isLower_iff : c.isLower = true ↔ 'a' ≤ c ∧ c ≤ 'z' :=
  Bool.and_eq_true_iff.trans (and_congr decide_eq_true_iff decide_eq_true_iff)

/-- A letter is of one of the two ranges. -/
theorem isAlpha_iff : c.isAlpha = true ↔ ('A' ≤ c ∧ c ≤ 'Z') ∨ ('a' ≤ c ∧ c ≤ 'z') := by
  rw [← isUpper_iff, ← isLower_iff, ← Bool.or_eq_true]
  rfl

/-- The digits are a third range, apart from the letters. -/
theorem isDigit_iff : c.isDigit = true ↔ '0' ≤ c ∧ c ≤ '9' := Char.isDigit_iff_toNat

/-- What may stand inside a name, the underscore aside: a letter of either
case or a digit. -/
theorem isAlphanum_iff : c.isAlphanum = true ↔
    (('A' ≤ c ∧ c ≤ 'Z') ∨ ('a' ≤ c ∧ c ≤ 'z')) ∨ ('0' ≤ c ∧ c ≤ '9') := by
  rw [← isAlpha_iff, ← isDigit_iff, ← Bool.or_eq_true]
  rfl

-- ============================================================= digits

/-- Nothing but digits. -/
def AllDigits (text : List Char) : Prop := ∀ c ∈ text, c.isDigit = true

theorem AllDigits.append {a b : List Char} (ha : AllDigits a) (hb : AllDigits b) :
    AllDigits (a ++ b) := fun c hc => (List.mem_append.1 hc).elim (ha c) (hb c)

/-- The text of a number in base ten is a run of digits. -/
theorem allDigits_toDigits (n : Nat) : AllDigits (Nat.toDigits 10 n) := fun _ hc =>
  Nat.isDigit_of_mem_toDigits (by decide) (by decide) hc

/-- So are the zeros that a writer pads it with. -/
theorem allDigits_replicate (count : Nat) : AllDigits (List.replicate count '0') := by
  intro c hc
  rw [List.eq_of_mem_replicate hc]
  rfl

/-- The digits of a number other than zero do not begin with one. The first
digit is that of the number without its last digit, as long as anything is
left of it, so the induction is on the number. -/
theorem head_toDigits_ne {n : Nat} (hn : n ≠ 0) : (Nat.toDigits 10 n).head? ≠ some '0' := by
  induction n using Nat.strongRecOn with
  | _ n ih =>
      rcases Nat.lt_or_ge n 10 with hlt | hge
      · -- a single digit, read back from its character
        rw [Nat.toDigits_of_lt_base hlt]
        intro h
        have hzero : Nat.digitChar n = '0' := Option.some.inj h
        have hback := Nat.toNat_digitChar_sub_48_of_lt_ten hlt
        rw [hzero] at hback
        exact hn hback.symm
      · -- the last digit does not change the first one
        have hhead := ih (n / 10) (Nat.div_lt_self (by omega) (by decide)) (by omega)
        rw [Nat.toDigits_of_base_le (by decide) hge]
        obtain ⟨d, digits, hd⟩ := List.exists_cons_of_ne_nil
          (Nat.toDigits_ne_nil : Nat.toDigits 10 (n / 10) ≠ [])
        rw [hd] at hhead ⊢
        exact hhead

end TypedSelect
