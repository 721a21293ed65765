/-
Numbers by their decimal text.

SQL shows a number by its sign and its digits and does not say whether it
is kept as a whole number or as a floating point one. The text still tells
everything else: a finite number is the one that its digits are nearest
to. So two numbers have one text exactly when they are equal once every
number that is written like a whole number of 64 bits is taken for that
one. This is `canonical_eq_iff`, the place where the canonical form of a
query touches numbers.

# Reading a text back

`Number.ofText` is a reading made for the proof. It takes the digits with
the point moved behind them, and the number nearest to that; where the
text could be that of a whole number of 64 bits, it is. The texts here
have no exponent, however large or small the number, so the digits and
the place of the point are all there is.

The text of a magnitude is the shortest decimal of it, with zeros put in
where the point lies outside the digits. The zeros go over into the scale
(`toDouble_ofText`), and the shortest decimal is known to read back.

# Two ways to be a whole number

A floating point number is written without a point exactly if its
shortest decimal has no digits behind it. Its text is then the text of a
whole number (`plainMagnitude_of_digits`), zeros included, and the whole
number is found from it if 64 bits are enough. The one exception is zero
with a minus sign: no whole number is written like that, so the float
stays a float.
-/
import TypedSelect.Proofs.Json.Numeral
import TypedSelect.Query.Value

namespace TypedSelect

open Json (digitsValue digitsValue_toDigits)

-- ============================================================ reading

/-- The decimal with this text: digits, and perhaps a point among them. -/
def Decimal.ofText (text : List Char) : Decimal :=
  let part := (text.dropWhile Char.isDigit).drop 1
  ⟨digitsValue (text.takeWhile Char.isDigit ++ part), -(part.length : Int)⟩

/-- The number nearest to the decimal with this text. -/
def Double.ofText (negative : Bool) (text : String) : Double :=
  (Decimal.ofText text.toList).toDouble negative

/-- The whole number of 64 bits that is written like this, if there is one.
None is written with a minus and a zero. -/
def Int64.ofText? (negative : Bool) (text : String) : Option Int64 :=
  let magnitude : Int := digitsValue text.toList
  let i := if negative then -magnitude else magnitude
  if text.toList.all Char.isDigit && !(negative && i == 0) &&
      decide (-2 ^ 63 ≤ i ∧ i < 2 ^ 63) then
    some (Int64.ofInt i)
  else none

namespace Number

/-- The number that is written like this; a whole one if it can be. -/
def ofText (negative : Bool) (text : String) : Number :=
  match Int64.ofText? negative text with
  | some i => int i
  | none => float (Double.ofText negative text)

/-- Whether the number is written with a minus sign. -/
def isNegative : Number → Bool
  | int i => decide (i.toInt < 0)
  | float x => x.isNegative

/-- The text without its sign. -/
def unsignedText : Number → String
  | int i => toString i.toInt.natAbs
  | float x => x.unsignedText

/-- The number as a whole one, if a whole one of 64 bits is written the
same. -/
def canonical : Number → Number
  | int i => int i
  | float x =>
    match Int64.ofText? x.isNegative x.unsignedText with
    | some i => int i
    | none => float x

end Number

-- ====================================================== whole numbers

/-- A zero behind the digits is a factor of ten. -/
theorem toDigits_mul_ten {n : Nat} (hn : n ≠ 0) :
    Nat.toDigits 10 (n * 10) = Nat.toDigits 10 n ++ ['0'] := by
  rw [Nat.toDigits_of_base_le (by decide) (by omega), Nat.mul_div_cancel n (by decide),
    Nat.mul_mod_left]
  rfl

theorem toDigits_mul_pow {n : Nat} (hn : n ≠ 0) (k : Nat) :
    Nat.toDigits 10 (n * 10 ^ k) = Nat.toDigits 10 n ++ List.replicate k '0' := by
  induction k with
  | zero => rw [Nat.pow_zero, Nat.mul_one, List.replicate_zero, List.append_nil]
  | succ k ih =>
      have hne : n * 10 ^ k ≠ 0 := Nat.mul_ne_zero hn (Nat.pow_pos (by decide)).ne'
      rw [Nat.pow_succ, ← Nat.mul_assoc, toDigits_mul_ten hne, ih, List.append_assoc,
        List.replicate_succ']

/-- A number is written as its digits in base ten. -/
theorem toString_toList (n : Nat) : (toString n).toList = Nat.toDigits 10 n := Nat.toList_repr

/-- A whole number is found by its text: the digits are those of its absolute
value, the sign is put back, and 64 bits are what it came from. -/
theorem Int64.ofText?_toString (i : Int64) :
    Int64.ofText? (decide (i.toInt < 0)) (toString i.toInt.natAbs) = some i := by
  have hdigits : (toString i.toInt.natAbs).toList.all Char.isDigit = true := by
    rw [toString_toList]
    exact List.all_eq_true.2 (allDigits_toDigits _)
  have hvalue : (if decide (i.toInt < 0) = true then
      -(digitsValue (toString i.toInt.natAbs).toList : Int)
      else digitsValue (toString i.toInt.natAbs).toList) = i.toInt := by
    rw [toString_toList, digitsValue_toDigits]
    split
    next h =>
      have := of_decide_eq_true h
      omega
    next h =>
      have : ¬ i.toInt < 0 := fun hneg => h (decide_eq_true hneg)
      omega
  -- minus zero is not written for a whole number, and would not be read as one
  have hzero : (decide (i.toInt < 0) && i.toInt == 0) = false := by
    cases h : i.toInt == 0 with
    | false => exact Bool.and_false _
    | true => rw [eq_of_beq h]; rfl
  have hrange : -2 ^ 63 ≤ i.toInt ∧ i.toInt < 2 ^ 63 := ⟨i.le_toInt, i.toInt_lt⟩
  unfold Int64.ofText?
  dsimp only
  rw [hvalue, hdigits, hzero, decide_eq_true hrange, Int64.ofInt_toInt]
  rfl

-- ============================================================= floats

namespace Double

/-- The SQL text of a magnitude is worth its shortest decimal. Where the
digits end before the point there are zeros behind them, and where they begin
behind it there are zeros before them; neither changes the number. -/
theorem toDouble_ofText (negative : Bool) (m : Magnitude) :
    (Decimal.ofText (plainMagnitude m)).toDouble negative = .finite negative m := by
  have hread := m.toDouble_shortest .up negative
  obtain ⟨-, hwhole, -⟩ := (m.shortest .up).positional_digits
  obtain ⟨hvalue, hlength⟩ := (m.shortest .up).positional_value
  -- the point, where there is one, ends the digits in front of it
  have hparts : (plainMagnitude m).takeWhile Char.isDigit = (m.shortest .up).positional.1 ∧
      ((plainMagnitude m).dropWhile Char.isDigit).drop 1 = (m.shortest .up).positional.2 := by
    unfold plainMagnitude
    generalize (m.shortest .up).positional = digits at *
    obtain ⟨whole, part⟩ := digits
    cases part with
    | nil =>
        have hnone : ∀ d ∈ ([] : List Char).head?, d.isDigit = false := by rintro d ⟨⟩
        have hspan := span_append hwhole hnone
        rw [List.append_nil] at hspan
        exact ⟨hspan.1, by rw [hspan.2]; rfl⟩
    | cons c part =>
        have hpoint : ∀ d ∈ ('.' :: c :: part).head?, d.isDigit = false := by rintro d ⟨⟩; rfl
        have hspan := span_append hwhole hpoint
        exact ⟨hspan.1, by rw [hspan.2]; rfl⟩
  unfold Decimal.ofText
  dsimp only
  rw [hparts.1, hparts.2, hvalue, hlength, ← hread]
  unfold Decimal.toDouble
  dsimp only
  rw [ofDecimal_mul_pow]
  congr 1
  omega

/-- The SQL text of a finite number reads back, so no two finite numbers
share one. -/
theorem ofText_unsignedText {x : Double} (h : x.isFinite = true) :
    ofText x.isNegative x.unsignedText = x := by
  cases x with
  | finite negative m =>
      unfold ofText unsignedText
      rw [String.toList_ofList]
      exact toDouble_ofText negative m
  | infinite negative => cases h
  | nan => cases h

/-- A text of digits alone is that of a whole number. There is no point in it
then, so the digits end before the place where it would be, and the first of
them is no zero. -/
theorem plainMagnitude_of_digits {m : Magnitude}
    (h : (plainMagnitude m).all Char.isDigit = true) :
    plainMagnitude m = Nat.toDigits 10 (digitsValue (plainMagnitude m)) := by
  by_cases hscale : 0 ≤ (m.shortest .up).scale
  · have htext : plainMagnitude m =
        (m.shortest .up).digitText ++ List.replicate (m.shortest .up).scale.toNat '0' := by
      unfold plainMagnitude Decimal.positional
      rw [if_pos hscale]
      rfl
    have hvalue : digitsValue (plainMagnitude m) =
        (m.shortest .up).digits * 10 ^ (m.shortest .up).scale.toNat := by
      rw [htext, Json.digitsValue_append_zeros, Decimal.digitText, digitsValue_toDigits]
    by_cases hm : m.mantissa = 0
    · rw [Magnitude.eq_zero_of_mantissa hm]
      decide +kernel
    · rw [hvalue, toDigits_mul_pow (shortest_digits_ne hm .up), htext]
      rfl
  · -- behind the point of a fraction stands at least one digit
    exfalso
    have hlength := (m.shortest .up).positional_value.2
    have hpoint : '.' ∈ plainMagnitude m := by
      unfold plainMagnitude
      generalize (m.shortest .up).positional = digits at *
      obtain ⟨whole, part⟩ := digits
      cases part with
      | nil =>
          rw [List.length_nil] at hlength
          omega
      | cons c part => exact List.mem_append_right _ (List.mem_cons_self ..)
    exact absurd (List.all_eq_true.1 h '.' hpoint) (by decide)

/-- A number that is written like a whole one has its text. The sign agrees,
since a zero with a minus was ruled out. -/
theorem text_of_ofText? {x : Double} {i : Int64} (hx : x.isFinite = true)
    (h : Int64.ofText? x.isNegative x.unsignedText = some i) :
    decide (i.toInt < 0) = x.isNegative ∧ toString i.toInt.natAbs = x.unsignedText := by
  cases x with
  | finite negative m =>
      unfold Int64.ofText? at h
      dsimp only at h
      rw [unsignedText, String.toList_ofList] at h
      obtain ⟨hguard, hi⟩ := Option.ite_none_right_eq_some.1 h
      cases hi
      simp only [Bool.and_eq_true, Bool.not_eq_true', decide_eq_true_eq] at hguard
      obtain ⟨⟨hdigits, hzero⟩, hlow, hhigh⟩ := hguard
      -- a magnitude that is digits alone is written without leading zeros
      have htext :
          toString (digitsValue (plainMagnitude m)) = unsignedText (.finite negative m) := by
        rw [unsignedText, ← String.toList_inj, toString_toList, String.toList_ofList]
        exact (plainMagnitude_of_digits hdigits).symm
      rw [Int64.toInt_ofInt_of_le hlow hhigh]
      generalize digitsValue (plainMagnitude m) = value at *
      cases negative with
      | false => exact ⟨decide_eq_false (Int.not_lt.2 (Int.natCast_nonneg value)), htext⟩
      | true =>
          -- a negative zero is kept as it is, so the number is below zero
          have hne : -(value : Int) ≠ 0 := by simpa [isNegative] using hzero
          refine ⟨decide_eq_true (show -(value : Int) < 0 by omega), ?_⟩
          have habs : (-(value : Int)).natAbs = value := by omega
          show toString (-(value : Int)).natAbs = _
          rw [habs, htext]
  | infinite negative => cases hx
  | nan => cases hx

end Double

-- ============================================================ numbers

namespace Number

/-- A finite number is read back in its canonical form. That is a whole
number where the text is that of one, and else the number as it is. -/
theorem ofText_unsignedText {n : Number} (h : n.isFinite = true) :
    ofText n.isNegative n.unsignedText = n.canonical := by
  cases n with
  | int i =>
      unfold ofText isNegative unsignedText
      dsimp only
      rw [Int64.ofText?_toString]
      rfl
  | float x =>
      unfold ofText isNegative unsignedText canonical
      dsimp only
      rw [Double.ofText_unsignedText h]

/-- The canonical form of a number is written as the number is. The other
direction, that the text gives the form back, is the lemma before. -/
theorem text_canonical {n : Number} (h : n.isFinite = true) :
    n.canonical.isNegative = n.isNegative ∧ n.canonical.unsignedText = n.unsignedText := by
  cases n with
  | int i => exact ⟨rfl, rfl⟩
  | float x =>
      cases hx : Int64.ofText? x.isNegative x.unsignedText with
      | none =>
          have hself : (float x).canonical = float x := by
            unfold canonical
            dsimp only
            rw [hx]
          rw [hself]
          exact ⟨rfl, rfl⟩
      | some i =>
          have hwhole : (float x).canonical = int i := by
            unfold canonical
            dsimp only
            rw [hx]
          rw [hwhole]
          exact Double.text_of_ofText? h hx

/-- Finite numbers agree in their canonical forms exactly when they have one
text. One way the canonical form is written like the number; the other way it
is what the text is read back as. -/
theorem canonical_eq_iff {n m : Number} (hn : n.isFinite = true) (hm : m.isFinite = true) :
    n.canonical = m.canonical ↔
      n.isNegative = m.isNegative ∧ n.unsignedText = m.unsignedText := by
  constructor
  · intro h
    obtain ⟨hn₁, hn₂⟩ := text_canonical hn
    obtain ⟨hm₁, hm₂⟩ := text_canonical hm
    exact ⟨by rw [← hn₁, ← hm₁, h], by rw [← hn₂, ← hm₂, h]⟩
  · rintro ⟨hsign, htext⟩
    rw [← ofText_unsignedText hn, ← ofText_unsignedText hm, hsign, htext]

end Number

end TypedSelect
