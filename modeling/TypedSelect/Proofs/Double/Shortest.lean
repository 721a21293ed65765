/-
The shortest decimal reads back.

A finite number is written with the fewest digits that are enough to find
it again. The search goes through grids that get finer by a power of ten
at each step, takes the two decimals of the grid around the number, and
keeps one that reads back, by the rule for ties where both do. That the
text of a number denotes it is therefore nearly a fact about the search,
except where the search finds nothing.

# Zeros

Digits times a power of ten stand for the same number however many zeros
are moved between the two (`ofDecimal_mul_pow`). Reading a decimal first
compares the place of its top digit with the smallest and the largest
number, and such a shift moves neither the top digit nor the fraction. So
zeros at the end of the digits may be dropped (`toDouble_stripZeros`), and
the notation with and without an exponent mean the same.

# The search

The search only ever keeps decimals that read back
(`readsBack_onGrid`); nothing is said about how it ranks them, because no
property of the text depends on it. Where it finds none it falls back on
the exact value. A magnitude is a decimal exactly, with as many fives as
its exponent is below zero (`exactDecimal_eq`). It is neither so small nor
so large that the reading would cut it off before it divides
(`neg_zerosOfSmallest_le_top`, `top_le_digitsOfLargest`), and an exact
fraction rounds to itself.

# Texts

Both texts of a number, the one in JSON and the one in SQL, lay out the
digits of this decimal around a point. What stands before the point is
never empty, and on both sides there is nothing but digits
(`positional_digits`). The scanners of both languages start from there.
-/
import TypedSelect.Double.Text
import TypedSelect.Proofs.Characters
import TypedSelect.Proofs.Double.Nearest

namespace TypedSelect

open Magnitude (nearest?_mul nearest?_of_fraction)

namespace Double

-- ============================================================= digits

theorem digitCount_pos (n : Nat) : 0 < digitCount n := Nat.length_toDigits_pos

/-- A number has no more digits than a bound exactly if it is below that
power of ten. -/
theorem digitCount_le_iff {n k : Nat} (hk : 0 < k) : digitCount n ≤ k ↔ n < 10 ^ k :=
  Nat.length_toDigits_le_iff (by decide) hk

/-- A number lies below the power of ten that has one digit more. -/
theorem lt_pow_digitCount (n : Nat) : n < 10 ^ digitCount n :=
  (digitCount_le_iff (digitCount_pos n)).1 (Nat.le_refl _)

/-- Another zero is another digit, unless there is nothing but zeros. -/
theorem digitCount_mul_ten {n : Nat} (hn : n ≠ 0) : digitCount (10 * n) = digitCount n + 1 := by
  unfold digitCount
  rw [Nat.toDigits_of_base_le (by decide) (by omega), Nat.mul_div_cancel_left n (by decide),
    List.length_append, List.length_singleton]

-- ============================================================ shifting

/-- A zero among the digits is a step of the scale. The digit that is added
moves the top of the number up and the scale moves it down again, so both
ends of the range are compared as before; what is rounded is the same
fraction with a factor of ten on both sides, or on neither. -/
theorem ofDecimal_mul_ten (negative : Bool) (n : Nat) (scale : Int) :
    ofDecimal negative (10 * n) scale = ofDecimal negative n (scale + 1) := by
  by_cases hn : n = 0
  · subst hn
    rfl
  · have hten : 10 * n ≠ 0 := by omega
    have htop : (digitCount (10 * n) : Int) + scale = digitCount n + (scale + 1) := by
      rw [digitCount_mul_ten hn]
      omega
    have hnearest : Magnitude.nearest? (10 * n * 10 ^ scale.toNat) (10 ^ (-scale).toNat) =
        Magnitude.nearest? (n * 10 ^ (scale + 1).toNat) (10 ^ (-(scale + 1)).toNat) := by
      -- at a scale that is not negative both fractions are the same, and below zero both
      -- sides of the one are ten times those of the other
      by_cases hscale : 0 ≤ scale
      · have hpos : (scale + 1).toNat = scale.toNat + 1 := by omega
        have hneg : (-scale).toNat = (-(scale + 1)).toNat := by omega
        rw [hpos, hneg, Nat.pow_succ]
        congr 1
        ring
      · have hpos : scale.toNat = 0 ∧ (scale + 1).toNat = 0 := by omega
        have hneg : (-scale).toNat = (-(scale + 1)).toNat + 1 := by omega
        rw [hpos.1, hpos.2, hneg, Nat.pow_succ, Nat.pow_zero, Nat.mul_one, Nat.mul_one,
          Nat.mul_comm (10 ^ _) 10]
        exact nearest?_mul (by decide) (Nat.pos_iff_ne_zero.1 (Nat.pow_pos (by decide))) n
    unfold ofDecimal
    simp only [Nat.pow_eq, htop, hten, hn, hnearest]

/-- Zeros behind the digits are steps of the scale, one for each. By
induction on the number of zeros from the case of a single one. -/
theorem ofDecimal_mul_pow (negative : Bool) (n k : Nat) (scale : Int) :
    ofDecimal negative (n * 10 ^ k) scale = ofDecimal negative n (scale + k) := by
  induction k generalizing scale with
  | zero =>
      rw [Nat.pow_zero, Nat.mul_one]
      congr 1
      omega
  | succ k ih =>
      have hshape : n * 10 ^ (k + 1) = 10 * (n * 10 ^ k) := by
        rw [Nat.pow_succ]
        ring
      rw [hshape, ofDecimal_mul_ten, ih]
      congr 1
      omega

/-- The sign plays no part in the reading: a magnitude is found first and the
sign is put on it at the end. -/
theorem ofDecimal_of_false {negative : Bool} {digits : Nat} {scale : Int} {x : Magnitude}
    (h : ofDecimal false digits scale = .finite false x) :
    ofDecimal negative digits scale = .finite negative x := by
  unfold ofDecimal at h ⊢
  dsimp only at h ⊢
  split at h
  next hzero =>
    rw [if_pos hzero]
    cases h
    rfl
  next hzero =>
    rw [if_neg hzero]
    split at h
    next => cases h
    next hlarge =>
      rw [if_neg hlarge]
      split at h
      next => cases h; rfl
      next => cases h

end Double

namespace Decimal

/-- Zeros at the end may be dropped, however many steps the dropping takes.
The decimal changes and the number that it stands for does not. -/
theorem toDouble_stripZeros (negative : Bool) (fuel : Nat) (d : Decimal) :
    (d.stripZeros fuel).toDouble negative = d.toDouble negative := by
  induction fuel generalizing d with
  | zero => rfl
  | succ fuel ih =>
      unfold stripZeros
      split
      next h =>
        have hdigits : 10 * (d.digits / 10) = d.digits := by omega
        rw [ih]
        unfold toDouble
        rw [← Double.ofDecimal_mul_ten, hdigits]
      next => rfl

end Decimal

namespace Magnitude

-- ======================================================== exact value

/-- The digits of the exact value, in two powers of which one is one: an
exponent is either above zero and gives twos, or below and gives fives,
because half a unit is five tenths of it. -/
theorem exactDecimal_eq (x : Magnitude) :
    x.exactDecimal.digits = x.mantissa * 2 ^ x.exponent.toNat * 5 ^ (-x.exponent).toNat ∧
      x.exactDecimal.scale = -((-x.exponent).toNat : Int) := by
  refine ⟨rfl, ?_⟩
  show (if 0 ≤ x.exponent then 0 else x.exponent) = _
  split <;> omega

/-- The exact value is not so small that it would be taken for zero. The
smallest magnitude has its top digit where the reading still looks. -/
theorem neg_zerosOfSmallest_le_top {x : Magnitude} (hx : x.mantissa ≠ 0) :
    -(Double.zerosOfSmallest : Int) ≤
      Double.digitCount x.exactDecimal.digits + x.exactDecimal.scale := by
  obtain ⟨hdigits, hscale⟩ := x.exactDecimal_eq
  have hge := x.exponent_ge
  have hlt := Double.lt_pow_digitCount x.exactDecimal.digits
  rw [hscale]
  generalize Double.digitCount x.exactDecimal.digits = count at *
  rw [hdigits] at hlt
  generalize hb : (-x.exponent).toNat = b at *
  -- the digits hold a power of five as high as the scale is deep, so there are enough
  -- of them
  have hfive : 5 ^ b < 10 ^ count := by
    refine lt_of_le_of_lt ?_ hlt
    have hpos : 0 < x.mantissa * 2 ^ x.exponent.toNat :=
      Nat.mul_pos (Nat.pos_of_ne_zero hx) (Nat.two_pow_pos _)
    exact Nat.le_mul_of_pos_left _ hpos
  have htwo : 2 ^ b ≤ 10 ^ Double.zerosOfSmallest :=
    (Nat.pow_le_pow_right (by decide) (by omega)).trans
      (by decide +kernel : 2 ^ 1074 ≤ 10 ^ Double.zerosOfSmallest)
  have hten : 10 ^ b < 10 ^ (Double.zerosOfSmallest + count) := by
    calc 10 ^ b = 2 ^ b * 5 ^ b := Nat.mul_pow 2 5 b
      _ < 10 ^ Double.zerosOfSmallest * 10 ^ count :=
          Nat.mul_lt_mul_of_le_of_lt htwo hfive (Nat.pow_pos (by decide))
      _ = 10 ^ (Double.zerosOfSmallest + count) := (Nat.pow_add ..).symm
  have := (Nat.pow_lt_pow_iff_right (by decide)).1 hten
  omega

/-- Nor so large that it would be taken for infinite: every magnitude is
below `2 ^ 1024`. -/
theorem top_le_digitsOfLargest (x : Magnitude) :
    (Double.digitCount x.exactDecimal.digits : Int) + x.exactDecimal.scale ≤
      Double.digitsOfLargest := by
  obtain ⟨hdigits, hscale⟩ := x.exactDecimal_eq
  have hle := x.exponent_le
  have hlt := x.mantissa_lt
  have htwo : x.mantissa * 2 ^ x.exponent.toNat < 10 ^ Double.digitsOfLargest := by
    calc x.mantissa * 2 ^ x.exponent.toNat < 2 ^ 53 * 2 ^ x.exponent.toNat :=
          Nat.mul_lt_mul_of_pos_right hlt (Nat.two_pow_pos _)
      _ ≤ 2 ^ 53 * 2 ^ 971 :=
          Nat.mul_le_mul_left _ (Nat.pow_le_pow_right (by decide) (by omega))
      _ ≤ 10 ^ Double.digitsOfLargest := by decide +kernel
  rw [hscale]
  generalize (-x.exponent).toNat = b at *
  have hcount : Double.digitCount x.exactDecimal.digits ≤ Double.digitsOfLargest + b := by
    rw [Double.digitCount_le_iff (Nat.add_pos_left (by decide) b), hdigits, Nat.pow_add]
    apply Nat.mul_lt_mul_of_lt_of_le htwo (Nat.pow_le_pow_left (by decide) b)
    exact Nat.pow_pos (by decide)
  omega

/-- The exact value of a magnitude reads back. Crosswise, its fraction and
the fraction of the magnitude are the same power of ten of each other. -/
theorem readsBack_exactDecimal {x : Magnitude} (hx : x.mantissa ≠ 0) :
    x.readsBack x.exactDecimal = true := by
  have hlow := neg_zerosOfSmallest_le_top hx
  have hhigh := x.top_le_digitsOfLargest
  obtain ⟨hdigits, hscale⟩ := x.exactDecimal_eq
  have hne : x.exactDecimal.digits ≠ 0 := by
    rw [hdigits]
    exact Nat.mul_ne_zero (Nat.mul_ne_zero hx (Nat.two_pow_pos _).ne')
      (Nat.pow_pos (by decide)).ne'
  have hnearest : nearest?
      (x.exactDecimal.digits * 10 ^ x.exactDecimal.scale.toNat)
      (10 ^ (-x.exactDecimal.scale).toNat) = some x := by
    have hpos : x.exactDecimal.scale.toNat = 0 := by omega
    have hneg : (-x.exactDecimal.scale).toNat = (-x.exponent).toNat := by omega
    refine nearest?_of_fraction (Nat.pow_pos (by decide)).ne' hx ?_
    show _ * 2 ^ (-x.exponent).toNat = x.mantissa * 2 ^ x.exponent.toNat * _
    -- the scale is the binary exponent, so a factor of five stands for each factor of
    -- two
    have hten : 10 ^ (-x.exponent).toNat =
        2 ^ (-x.exponent).toNat * 5 ^ (-x.exponent).toNat := Nat.mul_pow 2 5 _
    rw [hpos, hneg, hdigits, hten]
    ring
  unfold readsBack Decimal.toDouble Double.ofDecimal
  simp only [Nat.pow_eq, hne, false_or, not_lt.2 hlow, not_lt.2 hhigh, if_false, hnearest,
    beq_self_eq_true]

-- ============================================================= search

/-- Whichever of the two decimals on a grid is kept, by whichever rule, it is
one that was seen to read back. -/
theorem readsBack_onGrid {tie : Tie} {x : Magnitude} {scale : Int} {d : Decimal}
    (h : x.onGrid tie scale = some d) : x.readsBack d = true := by
  unfold onGrid at h
  dsimp only at h
  split at h
  next hb _ => cases h; exact hb
  next _ ha => cases h; exact ha
  next => cases h
  next hb ha =>
    split at h
    · cases h; exact hb
    · cases h; exact ha
    · split at h
      · cases h; exact ha
      · split at h
        · cases h; exact hb
        · cases h; exact ha

/-- A magnitude without a mantissa is zero; its exponent is the lowest one
then. -/
theorem eq_zero_of_mantissa {x : Magnitude} (hx : x.mantissa = 0) : x = zero := by
  obtain ⟨mantissa, exponent, hlt, hge, hle, hcanonical⟩ := x
  obtain rfl : mantissa = 0 := hx
  obtain rfl : exponent = -1074 := hcanonical.resolve_left (by decide)
  rfl

/-- The shortest decimal of a magnitude is one that it is nearest to. What
the search found reads back because it was checked, and the exact value does
where nothing was found. -/
theorem readsBack_shortest (tie : Tie) (x : Magnitude) :
    x.readsBack (x.shortest tie) = true := by
  unfold shortest
  split
  next hx =>
    rw [eq_zero_of_mantissa hx]
    rfl
  next hx =>
    dsimp only
    unfold readsBack
    rw [Decimal.toDouble_stripZeros]
    show x.readsBack _ = true
    cases hfound : (List.range 17).findSome? fun (n : Nat) =>
        x.onGrid tie (x.leadingScale - (n : Int)) with
    | none => exact readsBack_exactDecimal hx
    | some d =>
        obtain ⟨n, -, hn⟩ := List.exists_of_findSome?_eq_some hfound
        exact readsBack_onGrid hn

/-- The shortest decimal read with a sign is the number with that sign. This
is all that the texts of numbers need of this module. -/
theorem toDouble_shortest (tie : Tie) (negative : Bool) (x : Magnitude) :
    (x.shortest tie).toDouble negative = .finite negative x :=
  Double.ofDecimal_of_false (eq_of_beq (x.readsBack_shortest tie))

end Magnitude

-- ============================================================== texts

namespace Decimal

/-- The text before the point has a digit, and both texts are digits. The
digits end before the point, begin behind it or go across it, and the padding
with zeros is made of digits in each case. -/
theorem positional_digits (d : Decimal) :
    d.positional.1 ≠ [] ∧ AllDigits d.positional.1 ∧ AllDigits d.positional.2 := by
  have hdigits : AllDigits d.digitText := allDigits_toDigits _
  have hne : d.digitText ≠ [] := Nat.toDigits_ne_nil
  unfold positional
  split
  · exact ⟨fun h => hne (List.append_eq_nil_iff.1 h).1,
      hdigits.append (allDigits_replicate _), fun c hc => by cases hc⟩
  · dsimp only
    split
    -- all digits are behind the point, with a zero before it
    next hshort =>
      refine ⟨List.cons_ne_nil _ _, ?_, (allDigits_replicate _).append hdigits⟩
      intro c hc
      rw [List.mem_singleton.1 hc]
      rfl
    -- the point is among the digits, and at least one of them is before it
    next hlong =>
      refine ⟨?_, fun c hc => hdigits c (List.mem_of_mem_take hc),
        fun c hc => hdigits c (List.mem_of_mem_drop hc)⟩
      intro hnil
      have hlen := congrArg List.length hnil
      rw [List.length_take, List.length_nil] at hlen
      omega

end Decimal

end TypedSelect
