/-
The texts of numerals.

The text of a numeral is its sign, its digits, its fraction and its
exponent in any of their spellings. The scanner takes nothing else for a
numeral, and it takes exactly that off the input when nothing follows that
a numeral could go on with. The text of a finite number is such a numeral,
and the number nearest to what the numeral denotes is the number it was
written for.

# Texts and numerals

Two texts can stand for one numeral, since an exponent may have a sign or
not and either letter. `NumeralText` is the relation between the two, and
`Numeral.chars` picks the text that the writer writes. What is taken off
the input is shown for the relation, in both directions: everything that
is taken is a text of the numeral, and every text is taken whole if the
rest begins with an `Ender`.

# From numerals to numbers

`Numeral.nearest?` is the finite number nearest to a numeral, and a
reading `IsNearest` if it finds this number wherever there is one. The
reading that the parser uses by itself is not nearest, since it works in
steps and rounds more than once. So what is shown of reading a text back
is shown of any reading that takes the numbers in question back, which is
`ReadBy`; a nearest reading takes back all of them.

# Laying out digits

The shortest digits of a number are laid out around a point, with zeros
filled in, or behind a point with a power of ten. Both layouts are
numerals, and both denote the decimal that was laid out; the first one may
put zeros at the end of the digits, which change the digits and the power
together and not the value.
-/
import Mathlib.Data.List.TakeDrop
import Mathlib.Data.List.TakeWhile
import TypedSelect.Json.Reader
import TypedSelect.Json.Writer
import TypedSelect.Proofs.Characters
import TypedSelect.Proofs.Double.Shortest

namespace TypedSelect

namespace Json

variable {rest : List Char}

-- ============================================================= digits

/-- Zeros at the end of the digits multiply by powers of ten. -/
theorem digitsValue_append_zeros (digits : List Char) (k : Nat) :
    digitsValue (digits ++ List.replicate k '0') = digitsValue digits * 10 ^ k := by
  show Nat.ofDigitChars 10 (digits ++ List.replicate k '0') 0 = Nat.ofDigitChars 10 digits 0 * _
  rw [Nat.ofDigitChars_append, Nat.ofDigitChars_replicate_zero, Nat.mul_comm]

theorem digitsValue_zeros_append (k : Nat) (digits : List Char) :
    digitsValue (List.replicate k '0' ++ digits) = digitsValue digits := by
  show Nat.ofDigitChars 10 (List.replicate k '0' ++ digits) 0 = Nat.ofDigitChars 10 digits 0
  rw [Nat.ofDigitChars_append, Nat.ofDigitChars_replicate_zero, Nat.mul_zero]

/-- The digits of a number have it as their value. -/
theorem digitsValue_toDigits (n : Nat) : digitsValue (Nat.toDigits 10 n) = n :=
  Nat.ofDigitChars_ten_toDigits

-- ============================================================== parts

/-- A run of digits is read up to what is no digit. -/
theorem readDigits_append {digits : List Char} (hne : digits ≠ []) (hdigits : AllDigits digits)
    (hrest : ∀ c ∈ rest.head?, c.isDigit = false) :
    readDigits (digits ++ rest) = some (digits, rest) := by
  obtain ⟨htake, hdrop⟩ := span_append hdigits hrest
  unfold readDigits
  rw [List.span_eq_takeWhile_dropWhile, htake, hdrop]
  cases digits with
  | nil => exact absurd rfl hne
  | cons c digits => rfl

/-- The digits before the point are read up to what is no digit. A lone zero
ends them, which is why no needless zero may stand in front. -/
theorem readWhole_append {whole : List Char} (hne : whole ≠ []) (hwhole : AllDigits whole)
    (hlead : whole = ['0'] ∨ whole.head? ≠ some '0')
    (hrest : ∀ c ∈ rest.head?, c.isDigit = false) :
    readWhole (whole ++ rest) = some (whole, rest) := by
  rcases hlead with rfl | hlead
  · rfl
  · have hdigits := readDigits_append hne hwhole hrest
    obtain ⟨c, more, rfl⟩ := List.exists_cons_of_ne_nil hne
    have hc : c ≠ '0' := fun h => hlead (congrArg some h)
    rw [← hdigits]
    show readWhole (c :: (more ++ rest)) = _
    unfold readWhole
    split
    next heq => exact absurd (List.cons.inj heq).1 hc
    next => rfl

namespace Numeral

/-- The text of a fraction. -/
def partChars : Option (List Char) → List Char
  | none => []
  | some digits => '.' :: digits

/-- The text of an exponent, which always has its sign. -/
def powerChars : Option Int → List Char
  | none => []
  | some p => 'e' :: (if p < 0 then '-' else '+') :: Nat.toDigits 10 p.natAbs

/-- The sign of an exponent is written for positive ones too, after the small
letter. -/
theorem powerChars_some (p : Int) : powerChars (some p) =
    (if p < 0 then ['e', '-'] else ['e', '+']) ++ Nat.toDigits 10 p.natAbs := by
  show 'e' :: (if p < 0 then '-' else '+') :: _ = _
  split <;> rfl

/-- The text of a numeral. -/
def chars (n : Numeral) : List Char :=
  (if n.negative then ['-'] else []) ++ (n.whole ++ (partChars n.part ++ powerChars n.power))

/-- The numerals that the grammar allows: digits before the point without
needless zeros in front, and digits after the point if there is one. -/
structure WellFormed (n : Numeral) : Prop where
  whole_ne : n.whole ≠ []
  whole : AllDigits n.whole
  lead : n.whole = ['0'] ∨ n.whole.head? ≠ some '0'
  part : ∀ digits ∈ n.part, digits ≠ [] ∧ AllDigits digits

/-- A lone digit is no needless zero. -/
theorem lead_singleton (c : Char) : [c] = ['0'] ∨ [c].head? ≠ some '0' := by
  by_cases hc : c = '0'
  · left
    rw [hc]
  · right
    exact fun h => hc (Option.some.inj h)

/-- A character that cannot go on with a numeral. -/
def Ender (c : Char) : Prop := c.isDigit = false ∧ c ≠ '.' ∧ c ≠ 'e' ∧ c ≠ 'E'

instance (c : Char) : Decidable (Ender c) :=
  inferInstanceAs (Decidable (c.isDigit = false ∧ c ≠ '.' ∧ c ≠ 'e' ∧ c ≠ 'E'))

end Numeral

open Numeral (Ender partChars powerChars)

/-- A fraction is read if there is one, and none is read if no point follows.
-/
theorem readFraction_append {part : Option (List Char)}
    (hpart : ∀ digits ∈ part, digits ≠ [] ∧ AllDigits digits)
    (hrest : ∀ c ∈ rest.head?, c.isDigit = false ∧ c ≠ '.') :
    readFraction (partChars part ++ rest) = some (part, rest) := by
  cases part with
  | none =>
      show readFraction rest = _
      unfold readFraction
      split
      next rest => exact absurd rfl (hrest '.' rfl).2
      next => rfl
  | some digits =>
      obtain ⟨hne, hdigits⟩ := hpart digits rfl
      show (readDigits (digits ++ rest)).map _ = _
      rw [readDigits_append hne hdigits fun c hc => (hrest c hc).1]
      rfl

-- =========================================================== numerals

/-- An exponent as written. -/
inductive PowerText : Option Int → List Char → Prop
  | none : PowerText none []
  | plain {e : Char} {digits : List Char} (letter : e = 'e' ∨ e = 'E') (first : digits ≠ [])
      (all : AllDigits digits) : PowerText (some (digitsValue digits)) (e :: digits)
  | plus {e : Char} {digits : List Char} (letter : e = 'e' ∨ e = 'E') (first : digits ≠ [])
      (all : AllDigits digits) : PowerText (some (digitsValue digits)) (e :: '+' :: digits)
  | minus {e : Char} {digits : List Char} (letter : e = 'e' ∨ e = 'E') (first : digits ≠ [])
      (all : AllDigits digits) : PowerText (some (-digitsValue digits)) (e :: '-' :: digits)

/-- A numeral as written. -/
inductive NumeralText (n : Numeral) : List Char → Prop
  | mk {power : List Char} (wellFormed : n.WellFormed) (tail : PowerText n.power power) :
      NumeralText n
        ((if n.negative then ['-'] else []) ++ (n.whole ++ (partChars n.part ++ power)))

/-- What is written for an exponent is one of its spellings: the small
letter, a sign, which is a plus also where none is needed, and the digits. -/
theorem powerText_powerChars (power : Option Int) : PowerText power (powerChars power) := by
  cases power with
  | none => exact .none
  | some p =>
      have hne : Nat.toDigits 10 p.natAbs ≠ [] := Nat.toDigits_ne_nil
      have hvalue := digitsValue_toDigits p.natAbs
      rw [Numeral.powerChars_some]
      by_cases hp : p < 0
      · have hminus := PowerText.minus (.inl rfl) hne (allDigits_toDigits p.natAbs)
        rw [hvalue, Int.ofNat_natAbs_of_nonpos hp.le, neg_neg] at hminus
        rw [if_pos hp]
        exact hminus
      · have hplus := PowerText.plus (.inl rfl) hne (allDigits_toDigits p.natAbs)
        rw [hvalue, Int.natAbs_of_nonneg (not_lt.1 hp)] at hplus
        rw [if_neg hp]
        exact hplus

/-- What is written for a numeral is one of its texts. -/
theorem numeralText_chars {n : Numeral} (hn : n.WellFormed) : NumeralText n n.chars :=
  .mk hn (powerText_powerChars n.power)

-- ======================================================= what is taken

/-- Digits that were read stood in front of the rest, one at least. -/
theorem readDigits_eq_some {s digits : List Char} (h : readDigits s = some (digits, rest)) :
    s = digits ++ rest ∧ digits ≠ [] ∧ AllDigits digits := by
  unfold readDigits at h
  rw [List.span_eq_takeWhile_dropWhile] at h
  split at h
  next => cases h
  next hne heq =>
    cases h
    obtain ⟨rfl, rfl⟩ := Prod.mk.inj heq
    exact ⟨List.takeWhile_append_dropWhile.symm, hne, fun c hc => List.mem_takeWhile_imp hc⟩

/-- So did the digits before a point, with no needless zero among them. A
zero in front is taken alone, and a digit behind it ends the numeral. -/
theorem readWhole_eq_some {s whole : List Char} (h : readWhole s = some (whole, rest)) :
    s = whole ++ rest ∧ whole ≠ [] ∧ AllDigits whole ∧
      (whole = ['0'] ∨ whole.head? ≠ some '0') := by
  unfold readWhole at h
  split at h
  next s =>
    cases h
    exact ⟨rfl, List.cons_ne_nil _ _, fun c hc => List.mem_singleton.1 hc ▸ rfl, .inl rfl⟩
  next hzero =>
    obtain ⟨rfl, hne, hdigits⟩ := readDigits_eq_some h
    refine ⟨rfl, hne, hdigits, .inr fun hhead => ?_⟩
    obtain ⟨c, digits, rfl⟩ := List.exists_cons_of_ne_nil hne
    cases hhead
    exact hzero _ rfl

/-- So did a fraction, with digits behind its point. A point without digits
is an error, so there is always one at least. -/
theorem readFraction_eq_some {s : List Char} {part : Option (List Char)}
    (h : readFraction s = some (part, rest)) :
    s = partChars part ++ rest ∧ ∀ digits ∈ part, digits ≠ [] ∧ AllDigits digits := by
  unfold readFraction at h
  split at h
  next s =>
    obtain ⟨⟨digits, rest'⟩, hdigits, h⟩ := Option.map_eq_some_iff.1 h
    cases h
    obtain ⟨rfl, hne, hall⟩ := readDigits_eq_some hdigits
    exact ⟨rfl, by rintro _ ⟨⟩; exact ⟨hne, hall⟩⟩
  next =>
    cases h
    exact ⟨rfl, by rintro _ ⟨⟩⟩

/-- A sign that was read stood in front of the rest, or there was none and it
counts as plus. -/
theorem readExponentSign_eq {s : List Char} {negative : Bool}
    (h : readExponentSign s = (negative, rest)) :
    negative = true ∧ s = '-' :: rest ∨ negative = false ∧ (s = '+' :: rest ∨ s = rest) := by
  unfold readExponentSign at h
  split at h <;> cases h
  next => exact .inl ⟨rfl, rfl⟩
  next => exact .inr ⟨rfl, .inl rfl⟩
  next => exact .inr ⟨rfl, .inr rfl⟩

/-- An exponent that was read stood in front of the rest, in one of its
spellings. -/
theorem readExponent_eq_some {s : List Char} {power : Option Int}
    (h : readExponent s = some (power, rest)) :
    ∃ text, s = text ++ rest ∧ PowerText power text := by
  unfold readExponent at h
  split at h
  next e s =>
    split at h
    next he =>
      rcases hsign : readExponentSign s with ⟨negative, s'⟩
      rw [hsign] at h
      obtain ⟨⟨digits, rest'⟩, hdigits, h⟩ := Option.map_eq_some_iff.1 h
      cases h
      obtain ⟨rfl, hne, hall⟩ := readDigits_eq_some hdigits
      rcases readExponentSign_eq hsign with ⟨rfl, rfl⟩ | ⟨rfl, rfl | rfl⟩
      · exact ⟨e :: '-' :: digits, rfl, .minus he hne hall⟩
      · exact ⟨e :: '+' :: digits, rfl, .plus he hne hall⟩
      · exact ⟨e :: digits, rfl, .plain he hne hall⟩
    next =>
      cases h
      exact ⟨[], rfl, .none⟩
  next =>
    cases h
    exact ⟨[], rfl, .none⟩

/-- All parts but the sign stood in front of the rest, one behind the other. -/
theorem readUnsigned_eq_some {s : List Char} {negative : Bool} {n : Numeral}
    (h : readUnsigned negative s = some (n, rest)) :
    n.negative = negative ∧ n.WellFormed ∧ ∃ power, PowerText n.power power ∧
      s = n.whole ++ (partChars n.part ++ (power ++ rest)) := by
  obtain ⟨⟨whole, _⟩, hwhole, h⟩ := Option.bind_eq_some_iff.1 h
  obtain ⟨⟨part, _⟩, hpart, h⟩ := Option.bind_eq_some_iff.1 h
  obtain ⟨⟨power, _⟩, hpower, h⟩ := Option.bind_eq_some_iff.1 h
  cases h
  obtain ⟨rfl, hne, hall, hlead⟩ := readWhole_eq_some hwhole
  obtain ⟨rfl, hdigits⟩ := readFraction_eq_some hpart
  obtain ⟨text, rfl, htext⟩ := readExponent_eq_some hpower
  exact ⟨rfl, ⟨hne, hall, hlead, hdigits⟩, text, htext, rfl⟩

/-- What is taken for a numeral is one as it is written. -/
theorem readNumeral_eq_some {s : List Char} {n : Numeral} (h : readNumeral s = some (n, rest)) :
    ∃ text, s = text ++ rest ∧ NumeralText n text := by
  unfold readNumeral at h
  split at h <;> obtain ⟨hnegative, hn, power, hpower, rfl⟩ := readUnsigned_eq_some h <;>
    refine ⟨_, ?_, .mk hn hpower⟩ <;> rw [hnegative]
  · simp
  · simp

-- ======================================================== what is read

/-- Neither an exponent nor what ends a numeral begins with a digit or a
point, so a fraction before it ends there. -/
theorem powerText_head {power : Option Int} {text : List Char} (h : PowerText power text)
    (hrest : ∀ c ∈ rest.head?, Ender c) :
    ∀ c ∈ (text ++ rest).head?, c.isDigit = false ∧ c ≠ '.' := by
  cases h with
  | none => exact fun c hc => ⟨(hrest c hc).1, (hrest c hc).2.1⟩
  | plain he _ _ | plus he _ _ | minus he _ _ =>
      rintro c ⟨⟩
      rcases he with rfl | rfl <;> decide

/-- Every spelling of an exponent is read, up to what ends the numeral. There
are two letters and three ways to give the sign, and each is a case. -/
theorem readExponent_powerText {power : Option Int} {text : List Char} (h : PowerText power text)
    (hrest : ∀ c ∈ rest.head?, Ender c) : readExponent (text ++ rest) = some (power, rest) := by
  cases h with
  | none =>
      cases rest with
      | nil => rfl
      | cons c rest =>
          obtain ⟨-, -, he, hE⟩ := hrest c rfl
          show (if c = 'e' ∨ c = 'E' then _ else _) = _
          rw [if_neg (not_or.2 ⟨he, hE⟩)]
  | @plain e digits he hne hall =>
      have hdigits := readDigits_append hne hall fun c hc => (hrest c hc).1
      -- where no sign is written, the first digit is not taken for one
      have hsign : readExponentSign (digits ++ rest) = (false, digits ++ rest) := by
        obtain ⟨d, more, rfl⟩ := List.exists_cons_of_ne_nil hne
        have hd := hall d List.mem_cons_self
        unfold readExponentSign
        split
        next heq => exact absurd (List.cons.inj heq).1 (ne_of_class hd '-' rfl)
        next heq => exact absurd (List.cons.inj heq).1 (ne_of_class hd '+' rfl)
        next => rfl
      simp [readExponent, he, hsign, hdigits]
  | plus he hne hall =>
      have hdigits := readDigits_append hne hall fun c hc => (hrest c hc).1
      simp [readExponent, he, readExponentSign, hdigits]
  | minus he hne hall =>
      have hdigits := readDigits_append hne hall fun c hc => (hrest c hc).1
      simp [readExponent, he, readExponentSign, hdigits]

/-- A fraction does not begin with a digit, so the digits before the point
end there. -/
theorem partText_head {part : Option (List Char)} (h : ∀ c ∈ rest.head?, c.isDigit = false) :
    ∀ c ∈ (partChars part ++ rest).head?, c.isDigit = false := by
  cases part with
  | none => exact h
  | some digits =>
      rintro c ⟨⟩
      rfl

/-- The texts of numerals begin with a sign or a digit. -/
theorem numeralText_cons {n : Numeral} {text : List Char} (h : NumeralText n text) :
    ∃ c more, text = c :: more ∧ (c = '-' ∨ c.isDigit = true) := by
  obtain ⟨hn, -⟩ := h
  cases n.negative with
  | true => exact ⟨'-', _, rfl, .inl rfl⟩
  | false =>
      obtain ⟨c, more, hwhole⟩ := List.exists_cons_of_ne_nil hn.whole_ne
      rw [hwhole]
      exact ⟨c, _, rfl, .inr (hn.whole c (hwhole ▸ List.mem_cons_self))⟩

/-- Every text of a numeral is read as the numeral, up to what ends it. Each
part ends where the next one begins. -/
theorem readNumeral_text {n : Numeral} {text : List Char} (h : NumeralText n text)
    (hrest : ∀ c ∈ rest.head?, Ender c) : readNumeral (text ++ rest) = some (n, rest) := by
  obtain @⟨power, hn, hpower⟩ := h
  have hbehind := powerText_head hpower hrest
  have hread : readUnsigned n.negative (n.whole ++ (partChars n.part ++ (power ++ rest))) =
      some (n, rest) := by
    unfold readUnsigned
    simp only [readWhole_append hn.whole_ne hn.whole hn.lead
        (partText_head fun c hc => (hbehind c hc).1),
      readFraction_append hn.part hbehind, readExponent_powerText hpower hrest,
      Option.bind_eq_bind, Option.bind_some]
    rfl
  cases hneg : n.negative with
  | true =>
      rw [hneg] at hread
      simp only [if_true, List.append_assoc, List.cons_append, List.nil_append]
      exact hread
  | false =>
      rw [hneg] at hread
      -- the text begins with a digit, which `readNumeral` does not take for a sign
      obtain ⟨c, more, hwhole⟩ := List.exists_cons_of_ne_nil hn.whole_ne
      have hc : c ≠ '-' := ne_of_class (hn.whole c (hwhole ▸ List.mem_cons_self)) '-' rfl
      rw [← hread]
      simp only [Bool.false_eq_true, if_false, List.nil_append, List.append_assoc, hwhole,
        List.cons_append]
      unfold readNumeral
      split
      next heq => exact absurd (List.cons.inj heq).1 hc
      next => rfl

-- ====================================================== whole numbers

/-- The numeral of a whole number. -/
def Numeral.ofInt (i : Int) : Numeral := ⟨decide (i < 0), Nat.toDigits 10 i.natAbs, none, none⟩

/-- The numeral of a whole number is written like the number. -/
theorem Numeral.chars_ofInt (i : Int) : (ofInt i).chars = intText i := by
  unfold chars ofInt
  cases i with
  | ofNat n => exact List.append_nil _
  | negSucc n =>
      have hneg : decide (Int.negSucc n < 0) = true := decide_eq_true (Int.negSucc_lt_zero n)
      rw [hneg]
      exact congrArg ('-' :: ·) (List.append_nil _)

/-- The digits of a whole number have no needless zero in front. This is so
of the digits of any natural number, and the sign is kept apart. -/
theorem Numeral.wellFormed_ofInt (i : Int) : (ofInt i).WellFormed where
  whole_ne := Nat.toDigits_ne_nil
  whole := allDigits_toDigits _
  lead := by
    by_cases hi : i.natAbs = 0
    · left
      show Nat.toDigits 10 i.natAbs = _
      rw [hi]
      rfl
    · exact .inr (head_toDigits_ne hi)
  part := fun _ h => by cases h

/-- The whole numbers that JSON values hold fit 64 bits, with a sign or
without. -/
def InRange (i : Int) : Prop := Int64.minValue.toInt ≤ i ∧ i < UInt64.size

/-- A whole number of 64 bits is read as what it is. With more bits it would
be read as a floating point number. -/
theorem Numeral.toInt?_ofInt {i : Int} (hi : InRange i) : (ofInt i).toInt? = some i := by
  obtain ⟨hge, hlt⟩ := hi
  unfold toInt? ofInt
  simp only [Option.isSome_none, Bool.or_self, Bool.false_eq_true, if_false,
    digitsValue_toDigits, decide_eq_true_eq]
  by_cases hneg : i < 0
  · rw [if_pos hneg, if_pos ⟨by omega, by omega⟩]
    congr 1
    omega
  · rw [if_neg hneg, if_pos (by omega)]
    congr 1
    omega

-- ============================================= floating point numbers

/-- The finite number nearest to what a numeral denotes, if there is
one. -/
def Numeral.nearest? : Reading := fun n =>
  let part := n.part.getD []
  let x := Double.ofDecimal n.negative (digitsValue (n.whole ++ part))
    (n.power.getD 0 - part.length)
  if x.isFinite then some x else none

/-- A reading that finds the nearest finite number where there is one. -/
def Numeral.Reading.IsNearest (reading : Reading) : Prop :=
  ∀ n x, n.nearest? = some x → reading n = some x

/-- Reading step by step rounds more than once, so it is not always
nearest. -/
theorem Numeral.not_isNearest_toDouble? : ¬ Reading.IsNearest toDouble? := by
  intro h
  have hnearest := h ⟨false, "249".toList, some "49856642924962".toList, none⟩
    (.ofDecimal false 24949856642924962 (-14)) (by decide +kernel)
  revert hnearest
  decide +kernel

end Json

namespace Decimal

open Json (digitsValue digitsValue_append_zeros digitsValue_zeros_append digitsValue_toDigits)

/-- The digits around the point are those of the decimal, and as many of
them stand behind it as the scale says. -/
theorem positional_value (d : Decimal) :
    digitsValue (d.positional.1 ++ d.positional.2) = d.digits * 10 ^ d.scale.toNat ∧
      d.positional.2.length = (-d.scale).toNat := by
  unfold positional
  split
  next hscale =>
    refine ⟨?_, ?_⟩
    · rw [List.append_nil, zeros, digitsValue_append_zeros, digitText, digitsValue_toDigits]
    · rw [List.length_nil]
      omega
  next hscale =>
    have hscale' : d.scale.toNat = 0 := by omega
    rw [hscale', Nat.pow_zero, Nat.mul_one]
    dsimp only
    split
    -- the point stands in front of all digits, behind one zero
    next hshort =>
      refine ⟨?_, ?_⟩
      · show digitsValue (List.replicate 1 '0' ++ (List.replicate _ '0' ++ d.digitText)) = _
        rw [digitsValue_zeros_append, digitsValue_zeros_append, digitText, digitsValue_toDigits]
      · rw [List.length_append, zeros, List.length_replicate]
        omega
    next hlong =>
      refine ⟨?_, ?_⟩
      · rw [List.take_append_drop, digitText, digitsValue_toDigits]
      · rw [List.length_drop]
        omega

/-- No needless zero stands in front of the point. Either all digits are
behind it and a single zero is before it, or the digits before it begin with
the first digit of the decimal, which is not zero. -/
theorem positional_lead {d : Decimal} (hd : d.digits ≠ 0 ∨ d.scale ≤ 0) :
    d.positional.1 = ['0'] ∨ d.positional.1.head? ≠ some '0' := by
  by_cases hzero : d.digits = 0
  · have htext : d.digitText = ['0'] := by
      rw [digitText, hzero]
      rfl
    left
    unfold positional
    rw [htext]
    split
    next hscale =>
      have : d.scale.toNat = 0 := by omega
      rw [this]
      rfl
    next hscale =>
      dsimp only
      rw [if_pos (by rw [List.length_singleton]; omega)]
  · -- a point in front of all digits has a single zero before it, and no digits begin with one
    have hhead : d.digitText.head? ≠ some '0' := head_toDigits_ne hzero
    have hne : d.digitText ≠ [] := Nat.toDigits_ne_nil
    obtain ⟨c, more, hcons⟩ := List.exists_cons_of_ne_nil hne
    unfold positional
    split
    · right
      rw [hcons] at hhead ⊢
      exact hhead
    · dsimp only
      split
      · exact .inl rfl
      next hlong =>
        right
        rw [List.head?_take, if_neg (by omega)]
        exact hhead

end Decimal

namespace Double

open Json (Numeral digitsValue digitsValue_toDigits)

/-- A numeral that denotes a decimal is nearest to the number the decimal
is nearest to. -/
theorem nearest?_eq {n : Numeral} {d : Decimal} {x : Magnitude} {k : Nat}
    (hvalue : digitsValue (n.whole ++ n.part.getD []) = d.digits * 10 ^ k)
    (hscale : n.power.getD 0 - (n.part.getD []).length + k = d.scale)
    (hx : d.toDouble n.negative = .finite n.negative x) :
    n.nearest? = some (.finite n.negative x) := by
  unfold Numeral.nearest?
  dsimp only
  rw [hvalue, ofDecimal_mul_pow, hscale]
  show (if (d.toDouble n.negative).isFinite = true then some (d.toDouble n.negative) else none) = _
  rw [hx]
  rfl

/-- Only zero has no digits. -/
theorem shortest_digits_ne {x : Magnitude} (hx : x.mantissa ≠ 0) (tie : Tie) :
    (x.shortest tie).digits ≠ 0 := by
  intro hzero
  have hread := x.toDouble_shortest tie false
  unfold Decimal.toDouble ofDecimal at hread
  rw [hzero] at hread
  cases hread
  exact hx rfl

/-- Digits around a point are a numeral, which is nearest to the number. If
no digit is left behind the point, a zero is put there, so that the text is
not read as a whole number. -/
theorem positional_numeral {d : Decimal} {negative : Bool} {x : Magnitude}
    (hd : d.digits ≠ 0 ∨ d.scale ≤ 0) (hx : d.toDouble negative = .finite negative x) :
    ∃ n : Numeral, n.negative = negative ∧ n.WellFormed ∧ n.toInt? = none ∧
      n.nearest? = some (finite negative x) ∧
      n.whole ++ (Numeral.partChars n.part ++ Numeral.powerChars n.power) =
        match d.positional with
        | (whole, []) => whole ++ ['.', '0']
        | (whole, part) => whole ++ '.' :: part := by
  obtain ⟨hne, hwhole, hpart⟩ := d.positional_digits
  obtain ⟨hvalue, hlength⟩ := d.positional_value
  have hlead := Decimal.positional_lead hd
  generalize d.positional = digits at *
  obtain ⟨whole, part⟩ := digits
  cases part with
  | nil =>
      -- the zero behind the point is one more digit and one more place
      refine ⟨⟨negative, whole, some ['0'], none⟩, rfl, ⟨hne, hwhole, hlead, ?_⟩, rfl, ?_, rfl⟩
      · rintro digits ⟨⟩
        exact ⟨List.cons_ne_nil _ _, allDigits_replicate 1⟩
      · rw [List.append_nil] at hvalue
        rw [List.length_nil] at hlength
        refine nearest?_eq (d := d) (k := d.scale.toNat + 1) ?_ ?_ hx
        · show digitsValue (whole ++ List.replicate 1 '0') = _
          rw [Json.digitsValue_append_zeros, hvalue, Nat.mul_assoc, ← Nat.pow_add]
        · show (0 : Int) - (1 : Nat) + (d.scale.toNat + 1 : Nat) = d.scale
          omega
  | cons c part =>
      refine ⟨⟨negative, whole, some (c :: part), none⟩, rfl, ⟨hne, hwhole, hlead, ?_⟩, rfl, ?_,
        ?_⟩
      · rintro digits ⟨⟩
        exact ⟨List.cons_ne_nil _ _, hpart⟩
      · refine nearest?_eq (d := d) (k := d.scale.toNat) hvalue ?_ hx
        show (0 : Int) - (c :: part).length + (d.scale.toNat : Nat) = d.scale
        rw [List.length_cons] at hlength ⊢
        omega
      · show whole ++ ('.' :: c :: part ++ []) = whole ++ '.' :: c :: part
        rw [List.append_nil]

/-- Digits behind a point with a power of ten are a numeral, which is nearest
to the number. -/
theorem scientific_numeral {d : Decimal} {negative : Bool} {x : Magnitude}
    (hx : d.toDouble negative = .finite negative x) :
    ∃ n : Numeral, n.negative = negative ∧ n.WellFormed ∧ n.toInt? = none ∧
      n.nearest? = some (finite negative x) ∧
      n.whole ++ (Numeral.partChars n.part ++ Numeral.powerChars n.power) = d.scientific := by
  have hdigits : AllDigits d.digitText := allDigits_toDigits _
  have hvalue : digitsValue d.digitText = d.digits := digitsValue_toDigits _
  have hpower : d.leadingPower = d.digitText.length + d.scale - 1 := rfl
  have hmark := Numeral.powerChars_some d.leadingPower
  have hne : d.digitText ≠ [] := Nat.toDigits_ne_nil
  obtain ⟨c, more, htext⟩ := List.exists_cons_of_ne_nil hne
  have hc : AllDigits [c] := by
    intro d' hd'
    rw [List.mem_singleton.1 hd']
    exact hdigits c (htext ▸ List.mem_cons_self ..)
  unfold Decimal.scientific
  rw [htext] at hvalue hpower ⊢
  -- a digit that stands alone has no point behind it
  cases more with
  | nil =>
      refine ⟨⟨negative, [c], none, some d.leadingPower⟩, rfl,
        ⟨List.cons_ne_nil _ _, hc, Numeral.lead_singleton c, fun _ h => by cases h⟩, rfl, ?_,
        congrArg (c :: ·) hmark⟩
      refine nearest?_eq (d := d) (k := 0) (hvalue.trans (Nat.mul_one _).symm) ?_ hx
      show d.leadingPower - (0 : Nat) + (0 : Nat) = d.scale
      rw [hpower, List.length_singleton]
      omega
  | cons c' more =>
      refine ⟨⟨negative, [c], some (c' :: more), some d.leadingPower⟩, rfl,
        ⟨List.cons_ne_nil _ _, hc, Numeral.lead_singleton c, ?_⟩, rfl, ?_, ?_⟩
      · rintro digits ⟨⟩
        refine ⟨List.cons_ne_nil _ _, fun d' hd' => hdigits d' ?_⟩
        rw [htext]
        exact List.mem_cons_of_mem _ hd'
      · refine nearest?_eq (d := d) (k := 0) (hvalue.trans (Nat.mul_one _).symm) ?_ hx
        show d.leadingPower - ((c' :: more).length : Nat) + (0 : Nat) = d.scale
        rw [hpower, List.length_cons]
        omega
      · show [c] ++ ('.' :: (c' :: more) ++ Numeral.powerChars (some d.leadingPower)) = _
        rw [hmark]
        exact (List.append_assoc (c :: '.' :: c' :: more) _ _).symm

/-- The text of a finite number is a numeral nearest to the number, and no
whole number. The digits are the shortest ones, whose nearest number is the
number by the choice of them. -/
theorem jsonText_numeral (negative : Bool) (x : Magnitude) :
    ∃ n : Numeral, (finite negative x).jsonText.toList = n.chars ∧ n.WellFormed ∧
      n.toInt? = none ∧ n.nearest? = some (finite negative x) := by
  have hx : (x.shortest .even).toDouble negative = finite negative x :=
    x.toDouble_shortest .even negative
  have hd : (x.shortest .even).digits ≠ 0 ∨ (x.shortest .even).scale ≤ 0 := by
    by_cases hzero : x.mantissa = 0
    · right
      unfold Magnitude.shortest
      rw [if_pos hzero]
    · exact .inl (shortest_digits_ne hzero .even)
  have hnumeral : ∃ n : Numeral, n.negative = negative ∧ n.WellFormed ∧ n.toInt? = none ∧
      n.nearest? = some (finite negative x) ∧
      n.whole ++ (Numeral.partChars n.part ++ Numeral.powerChars n.power) = jsonMagnitude x := by
    unfold jsonMagnitude
    dsimp only
    split
    · exact positional_numeral hd hx
    · exact scientific_numeral hx
  obtain ⟨n, hneg, hformed, hint, hnearest, htext⟩ := hnumeral
  refine ⟨n, ?_, hformed, hint, hnearest⟩
  unfold jsonText Numeral.chars
  rw [String.toList_ofList, htext, hneg]

/-- A reading takes the text of the number back to the number. -/
def ReadBy (reading : Numeral.Reading) (x : Double) : Prop :=
  ∃ n : Numeral, x.jsonText.toList = n.chars ∧ n.WellFormed ∧ n.toInt? = none ∧
    reading n = some x

/-- Finite numbers are taken back by a reading that finds the nearest
number. -/
theorem readBy_of_isNearest {reading : Numeral.Reading} (h : reading.IsNearest) {x : Double}
    (hx : x.isFinite = true) : x.ReadBy reading := by
  cases x with
  | finite negative x =>
      obtain ⟨n, htext, hn, hint, hnearest⟩ := jsonText_numeral negative x
      exact ⟨n, htext, hn, hint, h n _ hnearest⟩
  | infinite negative => cases hx
  | nan => cases hx

end Double

end TypedSelect
