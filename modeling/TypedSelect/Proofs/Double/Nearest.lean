/-
Rounding a fraction to the nearest number.

The rounding guesses the exponent of the result from the lengths of
numerator and denominator, corrects the guess by one where it has to,
rounds the mantissa at that exponent, half to even, and makes one more
step where the rounded mantissa got too long. All of this computes with
numbers of a form that depends on how the fraction was written. What is
proved here does not depend on it.

# Units and levels

Every magnitude is a multiple of `2 ^ (-1074)`, so a magnitude is best
seen as `mantissa * 2 ^ level` of these units, with a level that is never
negative. `units` counts them, and a fraction is compared to a magnitude by
multiplying with its denominator, so that everything stays a natural
number.

The level of a fraction is pinned down by two inequalities (`AtLevel`): 53
bits of it reach beyond the fraction, and 52 do not, unless the level is
zero. There is one such level (`AtLevel.unique`), it does not change when
numerator and denominator are multiplied by the same number
(`AtLevel.mul`), and the computed exponent is it (`exponentOf_eq`).
Rounding half to even does not change either, so `nearest?_mul` follows.

# What the texts of numbers need

Two consequences carry everything about texts of numbers. A fraction that
is exactly a magnitude rounds to it, in whatever form it is written
(`nearest?_of_fraction`), and digits times a power of ten can be shifted
without changing what they round to. The first is why exact decimals read
back, the second why the texts of one number in two notations do.

# Nearest

That the result is nearest is proved last (`gap_nearest?_le`), since
nothing else needs it. Within the level and above, every magnitude is
among the multiples that were rounded to; the ones below lie on the far
side of `2 ^ 52` of them, which is itself one of these multiples.
-/
import Mathlib.Tactic.Ring
import Mathlib.Tactic.Linarith
import TypedSelect.Double.Shortest

namespace TypedSelect

namespace Magnitude

-- ============================================================= levels

/-- The smallest magnitude other than zero is `2 ^ (-lowest)`. The exponents
of magnitudes go down to the negative of it and no further. -/
def lowest : Nat := 1074

/-- A whole number of the smallest units. The numerator of a fraction is
counted in them, and its denominator is left as it is. -/
def units (num : Nat) : Nat := num * 2 ^ lowest

/-- The level of the magnitudes around `num / den`: 53 bits of it reach
beyond the fraction, and 52 do not unless the level is zero. -/
def AtLevel (num den level : Nat) : Prop :=
  units num < 2 ^ 53 * (den * 2 ^ level) ∧
    (2 ^ 52 * (den * 2 ^ level) ≤ units num ∨ level = 0)

/-- A fraction has one level. Of two different levels the lower one would
have 53 bits beyond the fraction and the higher one, at least twice as large,
52 bits that are not. -/
theorem AtLevel.unique {num den l l' : Nat} (h : AtLevel num den l)
    (h' : AtLevel num den l') : l = l' := by
  have hle : ∀ {l l' : Nat}, AtLevel num den l → AtLevel num den l' → l' ≤ l := by
    intro l l' h h'
    rcases h'.2 with hlow | rfl
    · by_contra hlt
      have hpow : 2 ^ l * 2 ≤ 2 ^ l' := by
        rw [← Nat.pow_succ]
        exact Nat.pow_le_pow_right (by decide) (by omega)
      have hmul : den * (2 ^ l * 2) ≤ den * 2 ^ l' := Nat.mul_le_mul_left _ hpow
      have hupper := h.1
      rw [← Nat.mul_assoc] at hmul
      omega
    · exact Nat.zero_le _
  exact Nat.le_antisymm (hle h' h) (hle h h')

/-- The level does not depend on a common factor: both inequalities are
between multiples of the numerator and of the denominator. -/
theorem AtLevel.mul {num den l : Nat} (h : AtLevel num den l) {c : Nat} (hc : 0 < c) :
    AtLevel (c * num) (c * den) l := by
  have hunits : units (c * num) = c * units num := Nat.mul_assoc _ _ _
  have hden : ∀ b, b * (c * den * 2 ^ l) = c * (b * (den * 2 ^ l)) := fun b => by ring
  unfold AtLevel
  rw [hunits, hden, hden]
  refine ⟨Nat.mul_lt_mul_of_pos_left h.1 hc, h.2.imp_left fun hlow => ?_⟩
  exact Nat.mul_le_mul_left _ hlow

/-- Numerator and denominator in units of `2 ^ exponent` are the fraction
in the smallest units, shortened. -/
theorem scaled_eq (num den level : Nat) : ∃ c, 0 < c ∧
    units num = c * (scaled num den ((level : Int) - 1074)).1 ∧
    den * 2 ^ level = c * (scaled num den ((level : Int) - 1074)).2 := by
  have hlowest : lowest = 1074 := rfl
  unfold scaled units
  simp only [Nat.pow_eq]
  by_cases h : level ≤ lowest
  -- the exponent is not positive, so the numerator is scaled and the denominator is not
  · have hneg : (-((level : Int) - 1074)).toNat = lowest - level := by omega
    have hpos : ((level : Int) - 1074).toNat = 0 := by omega
    have hsplit : 2 ^ lowest = 2 ^ (lowest - level) * 2 ^ level := by
      rw [← Nat.pow_add, Nat.sub_add_cancel h]
    refine ⟨2 ^ level, Nat.two_pow_pos _, ?_, ?_⟩
    · rw [hneg, hsplit]
      ring
    · rw [hpos]
      ring
  -- the other way round
  · have hneg : (-((level : Int) - 1074)).toNat = 0 := by omega
    have hpos : ((level : Int) - 1074).toNat = level - lowest := by omega
    have hsplit : 2 ^ level = 2 ^ (level - lowest) * 2 ^ lowest := by
      rw [← Nat.pow_add]
      congr 1
      omega
    refine ⟨2 ^ lowest, Nat.two_pow_pos _, ?_, ?_⟩
    · rw [hneg]
      ring
    · rw [hpos, hsplit]
      ring

/-- Twice a power of two, in a product. Bounds on lengths become bounds on
products with this and the next lemma. -/
theorem mul_two_pow_lt {a b c d : Nat} (h : a < 2 ^ b) (hle : b + c ≤ d) : a * 2 ^ c < 2 ^ d := by
  calc a * 2 ^ c < 2 ^ b * 2 ^ c := Nat.mul_lt_mul_of_pos_right h (Nat.two_pow_pos _)
    _ = 2 ^ (b + c) := (Nat.pow_add ..).symm
    _ ≤ 2 ^ d := Nat.pow_le_pow_right (by decide) hle

theorem le_mul_two_pow {a b c d : Nat} (h : 2 ^ b ≤ a) (hle : d ≤ b + c) : 2 ^ d ≤ a * 2 ^ c := by
  calc 2 ^ d ≤ 2 ^ (b + c) := Nat.pow_le_pow_right (by decide) hle
    _ = 2 ^ b * 2 ^ c := Nat.pow_add ..
    _ ≤ a * 2 ^ c := Nat.mul_le_mul_right _ h

/-- Where there is a denominator there is one at every level. -/
theorem scaled_pos {den : Nat} (hden : den ≠ 0) (num level : Nat) :
    0 < (scaled num den ((level : Int) - 1074)).2 := by
  obtain ⟨c, -, -, hd⟩ := scaled_eq num den level
  refine Nat.pos_of_ne_zero fun h => ?_
  rw [h, Nat.mul_zero] at hd
  exact Nat.mul_ne_zero hden (Nat.two_pow_pos level).ne' hd

/-- The lengths of numerator and denominator never give too low a level: a
number is less than twice the power of two that its length names, and the
1022 makes room for that factor. -/
theorem units_lt_of_log2 {num den level : Nat} (hden : den ≠ 0)
    (h : num.log2 + 1022 ≤ level + den.log2) : units num < 2 ^ 53 * (den * 2 ^ level) := by
  have hlow : 2 ^ (num.log2 + 1022) ≤ den * 2 ^ level :=
    le_mul_two_pow (Nat.log2_self_le hden) (by omega)
  have hhigh : units num < 2 ^ (53 + (num.log2 + 1022)) :=
    mul_two_pow_lt Nat.lt_log2_self (by unfold lowest; omega)
  rw [Nat.pow_add] at hhigh
  exact hhigh.trans_le (Nat.mul_le_mul_left _ hlow)

/-- One level below that is never too high. A number is at least the power of
two that its length names, so the guess is off by one at most. -/
theorem le_units_of_log2 {num den level : Nat} (hnum : num ≠ 0)
    (h : level + 1 + den.log2 ≤ num.log2 + 1022) : 2 ^ 52 * (den * 2 ^ level) ≤ units num := by
  have hhigh : den * 2 ^ level < 2 ^ (num.log2 + 1022) :=
    mul_two_pow_lt Nat.lt_log2_self (by omega)
  have hlow : 2 ^ (52 + (num.log2 + 1022)) ≤ units num :=
    le_mul_two_pow (Nat.log2_self_le hnum) (by unfold lowest; omega)
  rw [Nat.pow_add] at hlow
  exact (Nat.mul_le_mul_left _ hhigh.le).trans hlow

/-- The exponent of a fraction is its level: the guess from the lengths of
numerator and denominator is right or one too high. -/
theorem exponentOf_eq {num den : Nat} (hnum : num ≠ 0) (hden : den ≠ 0) :
    ∃ level : Nat, exponentOf num den = (level : Int) - 1074 ∧ AtLevel num den level := by
  obtain ⟨level, hlevel⟩ : ∃ level, level = num.log2 + 1022 - den.log2 := ⟨_, rfl⟩
  -- the guess is taken from the lengths of the two numbers and is one too high at most
  have hguess : max (-1074) ((num.log2 : Int) - den.log2 - 52) = (level : Int) - 1074 := by
    omega
  obtain ⟨c, hc, hn, hd⟩ := scaled_eq num den level
  have hupper : units num < 2 ^ 53 * (den * 2 ^ level) := units_lt_of_log2 hden (by omega)
  unfold exponentOf
  simp only [hguess, Nat.div_lt_iff_lt_mul (scaled_pos hden num level)]
  split
  next hsmall =>
    have hbelow : units num < 2 ^ 52 * (den * 2 ^ level) := by
      rw [hn, hd, Nat.mul_left_comm]
      exact Nat.mul_lt_mul_of_pos_left hsmall hc
    -- the guess was too high, unless it is at the bottom, where mantissas may be short
    cases level with
    | zero => exact ⟨0, by omega, hupper, .inr rfl⟩
    | succ level =>
        have hdouble : 2 ^ 53 * (den * 2 ^ level) = 2 ^ 52 * (den * 2 ^ (level + 1)) := by
          rw [Nat.pow_succ]
          ring
        exact ⟨level, by omega, hdouble ▸ hbelow, .inl (le_units_of_log2 hnum (by omega))⟩
  next hlarge =>
    refine ⟨level, rfl, hupper, .inl ?_⟩
    rw [hn, hd, Nat.mul_left_comm]
    exact Nat.mul_le_mul_left _ (Nat.le_of_not_lt hlarge)

-- =========================================================== rounding

/-- Rounding does not depend on a common factor: quotient, remainder and the
comparison of the remainder with half the divisor all scale with it. -/
theorem roundHalfEven_mul {c : Nat} (hc : 0 < c) (n d : Nat) :
    roundHalfEven (c * n) (c * d) = roundHalfEven n d := by
  have htwice : 2 * (c * n % (c * d)) = c * (2 * (n % d)) := by
    rw [Nat.mul_mod_mul_left, Nat.mul_left_comm]
  unfold roundHalfEven
  simp only [Nat.mul_div_mul_left _ _ hc, htwice, Nat.mul_lt_mul_left hc]

/-- A whole number stays as it is. -/
theorem roundHalfEven_mul_self {d : Nat} (hd : 0 < d) (m : Nat) :
    roundHalfEven (m * d) d = m := by
  unfold roundHalfEven
  simp only [Nat.mul_mod_left, Nat.mul_zero, hd, if_true, Nat.mul_div_cancel m hd]

/-- The magnitude with a rounded mantissa at a level, where the mantissa
may have got one bit longer. -/
def atLevel? (mantissa level : Nat) : Option Magnitude :=
  if mantissa = 0x20000000000000 then make? 0x10000000000000 ((level : Int) - 1074 + 1)
  else make? mantissa ((level : Int) - 1074)

/-- The nearest magnitude, in the smallest units. The level is any that the
inequalities allow, since there is only one; after this no lemma looks at how
the exponent was guessed. -/
theorem nearest?_eq {num den level : Nat} (hnum : num ≠ 0) (hden : den ≠ 0)
    (h : AtLevel num den level) :
    nearest? num den = atLevel? (roundHalfEven (units num) (den * 2 ^ level)) level := by
  obtain ⟨l, he, hl⟩ := exponentOf_eq hnum hden
  obtain rfl := hl.unique h
  obtain ⟨c, hc, hn, hd⟩ := scaled_eq num den l
  unfold nearest? atLevel?
  simp only [hnum, if_false, he, hn, hd, roundHalfEven_mul hc]

/-- What a fraction rounds to does not depend on a common factor. The
numerator zero is settled apart, as it has no level. -/
theorem nearest?_mul {c : Nat} (hc : 0 < c) {den : Nat} (hden : den ≠ 0) (num : Nat) :
    nearest? (c * num) (c * den) = nearest? num den := by
  by_cases hnum : num = 0
  · rw [hnum, Nat.mul_zero]
    rfl
  · obtain ⟨level, -, h⟩ := exponentOf_eq hnum hden
    have hcnum : c * num ≠ 0 := Nat.mul_ne_zero hc.ne' hnum
    have hcden : c * den ≠ 0 := Nat.mul_ne_zero hc.ne' hden
    have hunits : units (c * num) = c * units num := Nat.mul_assoc _ _ _
    rw [nearest?_eq hcnum hcden (h.mul hc), nearest?_eq hnum hden h, hunits,
      Nat.mul_assoc c den, roundHalfEven_mul hc]

-- ==================================================== exact fractions

/-- The level of a magnitude, which is its exponent counted from the lowest
one. -/
def level (x : Magnitude) : Nat := (x.exponent + 1074).toNat

/-- An exponent is never below the lowest, so the level holds all of it. -/
theorem exponent_eq (x : Magnitude) : x.exponent = (x.level : Int) - 1074 := by
  have := x.exponent_ge
  unfold level
  omega

/-- A magnitude in the smallest units. Its fraction has a power of two in the
numerator or in the denominator, and either way this is what it counts. -/
theorem fraction_eq (x : Magnitude) :
    units x.fraction.1 = x.mantissa * 2 ^ x.level * x.fraction.2 := by
  have hlevel : x.level = (x.exponent + 1074).toNat := rfl
  have hge := x.exponent_ge
  have hlowest : lowest = 1074 := rfl
  have hsplit : 2 ^ x.exponent.toNat * 2 ^ lowest = 2 ^ x.level * 2 ^ (-x.exponent).toNat := by
    rw [← Nat.pow_add, ← Nat.pow_add]
    congr 1
    omega
  show x.mantissa * 2 ^ x.exponent.toNat * 2 ^ lowest =
    x.mantissa * 2 ^ x.level * 2 ^ (-x.exponent).toNat
  rw [Nat.mul_assoc, hsplit, Nat.mul_assoc]

/-- The parts of a magnitude make it again; the checks that `make?` performs
are its own invariants. -/
theorem make?_self (x : Magnitude) : make? x.mantissa x.exponent = some x := by
  unfold make?
  rw [dif_pos ⟨x.mantissa_lt, x.exponent_ge, x.exponent_le, x.canonical⟩]

/-- A fraction that is exactly a magnitude rounds to it. The invariants of
the magnitude say that its own level is the level of the fraction, and there
the division leaves no remainder. -/
theorem nearest?_of_exact {x : Magnitude} {num den : Nat} (hden : den ≠ 0)
    (hx : x.mantissa ≠ 0) (h : units num = x.mantissa * (den * 2 ^ x.level)) :
    nearest? num den = some x := by
  have hpos : 0 < den * 2 ^ x.level :=
    Nat.mul_pos (Nat.pos_of_ne_zero hden) (Nat.two_pow_pos _)
  have hnum : num ≠ 0 := by
    rintro rfl
    have := Nat.mul_pos (Nat.pos_of_ne_zero hx) hpos
    rw [units, Nat.zero_mul] at h
    omega
  have hlevel : AtLevel num den x.level := by
    refine ⟨?_, ?_⟩
    · rw [h]
      exact Nat.mul_lt_mul_of_pos_right x.mantissa_lt hpos
    · rw [h]
      rcases x.canonical with hcanonical | hexponent
      · exact .inl (Nat.mul_le_mul_right _ hcanonical)
      · refine .inr ?_
        rw [level, hexponent]
        rfl
  have hne : x.mantissa ≠ 0x20000000000000 := Nat.ne_of_lt x.mantissa_lt
  -- a value that is exact is not rounded, and it is on its own level already
  rw [nearest?_eq hnum hden hlevel, h, roundHalfEven_mul_self hpos, atLevel?, if_neg hne,
    ← exponent_eq]
  exact x.make?_self

/-- The same for two ways to write a fraction, compared crosswise. -/
theorem nearest?_of_fraction {x : Magnitude} {num den : Nat} (hden : den ≠ 0)
    (hx : x.mantissa ≠ 0) (h : num * x.fraction.2 = x.fraction.1 * den) :
    nearest? num den = some x := by
  have hpos : 0 < x.fraction.2 := Nat.two_pow_pos _
  refine nearest?_of_exact hden hx (Nat.eq_of_mul_eq_mul_right hpos ?_)
  calc units num * x.fraction.2 = num * x.fraction.2 * 2 ^ lowest := Nat.mul_right_comm _ _ _
    _ = units x.fraction.1 * den := by rw [h, Nat.mul_right_comm, units]
    _ = x.mantissa * (den * 2 ^ x.level) * x.fraction.2 := by
      rw [fraction_eq]
      ring

-- ============================================================ nearest

/-- How far apart two whole numbers are. One of the differences is always
zero. -/
def gap (a b : Nat) : Nat := (a - b) + (b - a)

/-- No multiple of `d` is nearer to `n` than the rounded one. The multiples
next to `n` are the ones below and above it, and half the divisor decides
between the two. -/
theorem gap_roundHalfEven_le {d : Nat} (hd : 0 < d) (n j : Nat) :
    gap (roundHalfEven n d * d) n ≤ gap (j * d) n := by
  have hn := Nat.div_add_mod' n d
  have hround : roundHalfEven n d = n / d ∧ 2 * (n % d) ≤ d ∨
      roundHalfEven n d = n / d + 1 ∧ d ≤ 2 * (n % d) := by
    unfold roundHalfEven
    dsimp only
    split
    · exact .inl ⟨rfl, by omega⟩
    · split
      · exact .inr ⟨rfl, by omega⟩
      · rcases Nat.mod_two_eq_zero_or_one (n / d) with heven | hodd
        · exact .inl ⟨by rw [heven, Nat.add_zero], by omega⟩
        · exact .inr ⟨by rw [hodd], by omega⟩
  have hsucc : (n / d + 1) * d = n / d * d + d := Nat.succ_mul _ _
  -- no multiple lies between the two around `n`
  have hj : j * d ≤ n / d * d ∨ n / d * d + d ≤ j * d := by
    rcases Nat.lt_or_ge (n / d) j with hlt | hge
    · exact .inr (hsucc ▸ Nat.mul_le_mul_right d hlt)
    · exact .inl (Nat.mul_le_mul_right d hge)
  have hlt : n % d < d := Nat.mod_lt n hd
  unfold gap
  rcases hround with ⟨hm, hr⟩ | ⟨hm, hr⟩
  · rw [hm]
    generalize n / d * d = below, n % d = rest, j * d = other at *
    omega
  · rw [hm, hsucc]
    generalize n / d * d = below, n % d = rest, j * d = other at *
    omega

/-- The mantissa may get one bit longer without changing the value: `2 ^ 53`
at a level is `2 ^ 52` at the next. -/
theorem value_of_atLevel? {mantissa level : Nat} {x : Magnitude}
    (h : atLevel? mantissa level = some x) :
    x.mantissa * 2 ^ x.level = mantissa * 2 ^ level := by
  have hmake : ∀ {m : Nat} {e : Int}, make? m e = some x → x.mantissa = m ∧ x.exponent = e := by
    intro m e hm
    unfold make? at hm
    split at hm
    · cases hm
      exact ⟨rfl, rfl⟩
    · cases hm
  unfold atLevel? at h
  split at h
  -- the mantissa was rounded up to the next power of two, which is one level higher
  next hm =>
    obtain ⟨hmantissa, hexponent⟩ := hmake h
    have hlevel : x.level = level + 1 := by
      unfold Magnitude.level
      omega
    rw [hmantissa, hlevel, hm, Nat.pow_succ]
    ring
  next =>
    obtain ⟨hmantissa, hexponent⟩ := hmake h
    have hlevel : x.level = level := by
      unfold Magnitude.level
      omega
    rw [hmantissa, hlevel]

/-- No magnitude is nearer to a fraction than the one it rounds to: those
of its level and above are among the multiples that were rounded to, and
those below lie on the far side of `2 ^ 52` of them. -/
theorem gap_nearest?_le {num den : Nat} (hden : den ≠ 0) {x : Magnitude}
    (h : nearest? num den = some x) (y : Magnitude) :
    gap (x.mantissa * 2 ^ x.level * den) (units num) ≤
      gap (y.mantissa * 2 ^ y.level * den) (units num) := by
  by_cases hnum : num = 0
  · subst hnum
    cases h
    rw [units, Nat.zero_mul]
    exact (Nat.le_of_eq (by simp [gap, zero])).trans (Nat.zero_le _)
  · obtain ⟨l, -, hl⟩ := exponentOf_eq hnum hden
    rw [nearest?_eq hnum hden hl] at h
    have hx : x.mantissa * 2 ^ x.level * den =
        roundHalfEven (units num) (den * 2 ^ l) * (den * 2 ^ l) := by
      rw [value_of_atLevel? h]
      ring
    have hpos : 0 < den * 2 ^ l := Nat.mul_pos (Nat.pos_of_ne_zero hden) (Nat.two_pow_pos l)
    rw [hx]
    rcases Nat.lt_or_ge y.level l with hlt | hge
    · -- `y` is at most `2 ^ 52` units of this level, and the fraction at least that
      have hlow : 2 ^ 52 * (den * 2 ^ l) ≤ units num := hl.2.resolve_right (by omega)
      have hpow : 2 ^ y.level * 2 ≤ 2 ^ l := by
        rw [← Nat.pow_succ]
        exact Nat.pow_le_pow_right (by decide) hlt
      have hy : y.mantissa * 2 ^ y.level * den ≤ 2 ^ 52 * (den * 2 ^ l) := by
        calc y.mantissa * 2 ^ y.level * den ≤ 2 ^ 53 * 2 ^ y.level * den :=
              Nat.mul_le_mul_right _ (Nat.mul_le_mul_right _ y.mantissa_lt.le)
          _ = 2 ^ 52 * (den * (2 ^ y.level * 2)) := by ring
          _ ≤ 2 ^ 52 * (den * 2 ^ l) :=
              Nat.mul_le_mul_left _ (Nat.mul_le_mul_left _ hpow)
      apply (gap_roundHalfEven_le hpos _ (2 ^ 52)).trans
      unfold gap
      omega
    · -- `y` is a multiple of the units of this level
      have hy : y.mantissa * 2 ^ y.level * den =
          y.mantissa * 2 ^ (y.level - l) * (den * 2 ^ l) := by
        rw [← Nat.sub_add_cancel hge, Nat.pow_add, Nat.add_sub_cancel]
        ring
      rw [hy]
      exact gap_roundHalfEven_le hpos _ _

end Magnitude

end TypedSelect
