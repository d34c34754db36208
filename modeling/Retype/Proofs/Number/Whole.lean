import Mathlib.Algebra.Group.Nat.Defs
import Mathlib.Tactic.SplitIfs
import Retype.Number.Double
/-!
# Whole numbers as doubles

The double nearest to a whole number is `ofMagnitude` of its sign and of the bits
of its significand and exponent (`ofQuotient_one`). It has the sign of the number
(`isPositive_ofInt`), and it is infinite from half a step below the first power of
two beyond all doubles (`isInfinite_ofInt`).
-/

namespace Retype.Double

/-! ## The fields of a magnitude -/

/-- The bits of a magnitude. -/
theorem toNat_ofMagnitude {negative : Bool} {b : Nat} (hb : b < 2 ^ 63) :
    (ofMagnitude negative b).bits.toNat = b + if negative then 2 ^ 63 else 0 := by
  have h1 : (1 <<< 63 : Nat) = 2 ^ 63 := by decide
  cases negative with
  | true =>
    rw [ofMagnitude, if_pos rfl, UInt64.toNat_ofNat', h1, if_pos rfl, Nat.mod_eq_of_lt (by omega)]
  | false =>
    rw [ofMagnitude, if_neg Bool.false_ne_true, UInt64.toNat_ofNat', if_neg Bool.false_ne_true,
      Nat.mod_eq_of_lt (by omega), Nat.add_zero]

/-- The exponent stands in bits 52 to 62. -/
theorem exponentBits_eq (x : Double) : x.exponentBits = x.bits.toNat / 2 ^ 52 % 2048 := by
  have hmask : (0x7ff : UInt64).toNat = 2 ^ 11 - 1 := by decide
  rw [exponentBits, UInt64.toNat_and, UInt64.toNat_shiftRight, hmask,
    Nat.and_two_pow_sub_one_eq_mod, Nat.shiftRight_eq_div_pow]
  rfl

/-- The fraction stands below them. -/
theorem fractionBits_eq (x : Double) : x.fractionBits = x.bits.toNat % 2 ^ 52 := by
  have hmask : (0xfffffffffffff : UInt64).toNat = 2 ^ 52 - 1 := by decide
  rw [fractionBits, UInt64.toNat_and, hmask, Nat.and_two_pow_sub_one_eq_mod]

/-- The sign is the last bit. -/
theorem sign_eq (x : Double) : x.sign = decide (2 ^ 63 ≤ x.bits.toNat) := by
  have hlt := x.bits.toNat_lt
  have hshift : (x.bits >>> 63).toNat = x.bits.toNat / 2 ^ 63 := by
    rw [UInt64.toNat_shiftRight, Nat.shiftRight_eq_div_pow]
    rfl
  have hone : (x.bits >>> 63 = 1) ↔ 2 ^ 63 ≤ x.bits.toNat := by
    rw [← UInt64.toNat_inj, hshift]
    change _ / _ = 1 ↔ _
    omega
  rw [sign, Bool.eq_iff_iff, beq_iff_eq, decide_eq_true_iff, hone]

/-- What is not infinite is finite, or no number. -/
theorem isNaN_eq_not_isFinite {x : Double} (h : ¬ x.isInfinite = true) :
    x.isNaN = !x.isFinite := by
  rw [isInfinite, Bool.and_eq_true, beq_iff_eq, beq_iff_eq, not_and] at h
  rw [isNaN, isFinite, Bool.eq_iff_iff, Bool.and_eq_true, beq_iff_eq, bne_iff_ne, bne, Bool.not_not,
    beq_iff_eq, and_iff_left_iff_imp]
  exact h

/-- The largest magnitude is that of the infinities. -/
def maxMagnitude : Nat := 2047 <<< 52

/-- Infinity has the greatest magnitude. -/
theorem maxMagnitude_eq : maxMagnitude = 2047 * 2 ^ 52 := by decide

/-- The order of doubles is that of their signed magnitudes. -/
theorem orderKey_ofMagnitude {negative : Bool} {b : Nat} (hb : b < 2 ^ 63) :
    (ofMagnitude negative b).orderKey = if negative then -(b : Int) else b := by
  have hbits : (ofMagnitude negative b).bits.toNat = b + if negative then 2 ^ 63 else 0 :=
    toNat_ofMagnitude hb
  have hsign : (ofMagnitude negative b).sign = negative := by
    rw [sign_eq, hbits]
    cases negative with
    | false => exact decide_eq_false (Nat.not_le.2 hb)
    | true => exact decide_eq_true (Nat.le_add_left _ _)
  have hkey : (ofMagnitude negative b).exponentBits <<< 52 + (ofMagnitude negative b).fractionBits
      = b := by
    rw [exponentBits_eq, fractionBits_eq, hbits, Nat.shiftLeft_eq]
    cases negative <;> simp only [Bool.false_eq_true, if_true, if_false] <;> omega
  rw [orderKey, hkey, hsign]

/-- No magnitude up to infinity is a NaN. -/
theorem isNaN_ofMagnitude {negative : Bool} {b : Nat} (hb : b ≤ maxMagnitude) :
    (ofMagnitude negative b).isNaN = false := by
  rw [maxMagnitude_eq] at hb
  rw [isNaN, exponentBits_eq, fractionBits_eq, toNat_ofMagnitude (by omega), Bool.and_eq_false_iff,
    beq_eq_false_iff_ne, bne_eq_false_iff_eq]
  cases negative <;> simp only [Bool.false_eq_true, if_true, if_false] <;> omega

/-- A magnitude that is not zero is positive unless it has a sign. -/
theorem isPositive_ofMagnitude {negative : Bool} {b : Nat} (hb : b ≤ maxMagnitude) (hpos : 0 < b) :
    (ofMagnitude negative b).isPositive = !negative := by
  have hlt : b < 2 ^ 63 := by
    rw [maxMagnitude_eq] at hb
    omega
  have hzero : (zero false).isNaN = false ∧ (zero false).orderKey = 0 := by decide +kernel
  rw [isPositive, lt, isNaN_ofMagnitude hb, orderKey_ofMagnitude hlt, hzero.1, hzero.2]
  cases negative with
  | false => simpa using hpos
  | true => simp

/-- Only the greatest magnitude is infinite. -/
theorem isInfinite_ofMagnitude {negative : Bool} {b : Nat} (hb : b ≤ maxMagnitude) :
    (ofMagnitude negative b).isInfinite = decide (b = maxMagnitude) := by
  rw [maxMagnitude_eq] at hb ⊢
  rw [isInfinite, exponentBits_eq, fractionBits_eq, toNat_ofMagnitude (by omega), Bool.eq_iff_iff,
    Bool.and_eq_true, beq_iff_eq, beq_iff_eq, decide_eq_true_iff]
  cases negative <;> simp only [Bool.false_eq_true, if_true, if_false] <;> omega

/-! ## Rounding -/

/-- A quotient is rounded up to an even number from half a step below it. -/
theorem le_roundQuotient_iff {n d k : Nat} (hd : 0 < d) (hk : 2 ∣ k) (hpos : 0 < k) :
    k ≤ roundQuotient n d ↔ (2 * k - 1) * d ≤ 2 * n := by
  have hdiv := Nat.div_add_mod n d
  have hmod := Nat.mod_lt n hd
  rw [roundQuotient]
  generalize n / d = q at hdiv ⊢
  generalize n % d = r at hdiv hmod ⊢
  obtain ⟨j, rfl⟩ := hk
  have hmul : (2 * (2 * j) - 1) * d = 4 * (j * d) - d := by
    rw [Nat.sub_mul, Nat.one_mul, ← Nat.mul_assoc, Nat.mul_assoc]
  have hswap : d * (2 * j) = 2 * (j * d) := by rw [Nat.mul_left_comm, Nat.mul_comm d j]
  rw [hmul, ← hdiv]
  -- only where the quotient is one below the even number does the remainder decide
  rcases Nat.lt_trichotomy (q + 1) (2 * j) with hlt | heq | hgt
  · have hq : d * (q + 2) ≤ d * (2 * j) := Nat.mul_le_mul_left d hlt
    have hexpand : d * (q + 2) = d * q + d * 2 := Nat.mul_add d q 2
    split_ifs <;> omega
  · have hq : d * q + d = 2 * (j * d) := by
      rw [← Nat.mul_succ, Nat.succ_eq_add_one, heq, hswap]
    split_ifs with hround <;> omega
  · have hq : d * (2 * j) ≤ d * q := Nat.mul_le_mul_left d (by omega)
    split_ifs <;> omega

/-- Rounding adds at most one. -/
theorem roundQuotient_le (n d : Nat) : roundQuotient n d ≤ n / d + 1 := by
  rw [roundQuotient]
  split_ifs <;> omega

/-- A whole number is not rounded. -/
theorem roundQuotient_one (n : Nat) : roundQuotient n 1 = n := by
  simp [roundQuotient, Nat.mod_one]

/-- The significand of a whole number: it has fifty-three bits, or one more where it
is rounded up. -/
def wholeSignificand (n : Nat) : Nat :=
  if 52 ≤ n.log2 then roundQuotient n (2 ^ (n.log2 - 52)) else n * 2 ^ (52 - n.log2)

/-- The bits of the double nearest to a whole number, if there are enough of them. -/
def wholeBits (n : Nat) : Nat := (n.log2 + 1022) * 2 ^ 52 + wholeSignificand n

/-- A whole number becomes infinity or the double with its bits. -/
theorem ofQuotient_one {n : Nat} (hn : n ≠ 0) (negative : Bool) :
    ofQuotient negative n 1 =
      if 1023 < n.log2 ∨ 2047 * 2 ^ 52 ≤ wholeBits n then infinity negative
      else ofMagnitude negative (wholeBits n) := by
  have hlog : Nat.log2 1 = 0 := by decide
  have hle : 2 ^ n.log2 ≤ n := Nat.log2_self_le hn
  rw [ofQuotient, if_neg hn]
  extract_lets guess scaled full e m bits
  have hguess : guess = (n.log2 : Int) - 52 := by simp [guess, hlog]
  have hscaled : scaled guess =
      if 52 ≤ n.log2 then (n, 2 ^ (n.log2 - 52)) else (n * 2 ^ (52 - n.log2), 1) := by
    simp only [scaled, hguess, Nat.shiftLeft_eq, Nat.one_mul]
    split_ifs with h1 h2 h2
    · rw [show ((n.log2 : Int) - 52).toNat = n.log2 - 52 by omega]
    · omega
    · omega
    · rw [show (-((n.log2 : Int) - 52)).toNat = 52 - n.log2 by omega]
  -- the first guess of the exponent is right, because the divisor is a power of two
  have hfull : full guess = true := by
    simp only [full, hscaled, decide_eq_true_eq, Nat.shiftLeft_eq]
    split_ifs with h
    · rwa [← Nat.pow_add, Nat.sub_add_cancel h]
    · have hmul := Nat.mul_le_mul_right (2 ^ (52 - n.log2)) hle
      rw [← Nat.pow_add, Nat.add_sub_cancel' (by omega)] at hmul
      simpa using hmul
  have he : e = (n.log2 : Int) - 52 := by
    simp only [e]
    rw [if_pos hfull]
    omega
  have hm : m = wholeSignificand n := by
    simp only [m, he, ← hguess, hscaled, wholeSignificand]
    split_ifs
    · rfl
    · exact roundQuotient_one _
  have hbits : bits = wholeBits n := by
    simp only [bits, hm, he, wholeBits, Nat.shiftLeft_eq]
    rw [show ((n.log2 : Int) - 52 + 1074).toNat = n.log2 + 1022 by omega]
  rw [hbits, he, Nat.shiftLeft_eq]
  by_cases htop : 1023 < n.log2
  · rw [if_pos (by omega), if_pos (.inl htop)]
  · rw [if_neg (by omega)]
    simp only [htop, false_or]

/-- A significand has at most 53 bits, or is the next power of two. -/
theorem wholeSignificand_le (n : Nat) : wholeSignificand n ≤ 2 ^ 53 := by
  have hlt : n < 2 ^ (n.log2 + 1) := Nat.lt_log2_self
  rw [wholeSignificand]
  split_ifs with h
  · have hsplit : 2 ^ (n.log2 + 1) = 2 ^ (n.log2 - 52) * 2 ^ 53 := by
      rw [← Nat.pow_add]
      congr 1
      omega
    have hdiv : n / 2 ^ (n.log2 - 52) < 2 ^ 53 := Nat.div_lt_of_lt_mul (hsplit ▸ hlt)
    exact Nat.le_trans (roundQuotient_le _ _) hdiv
  · have hmul : n * 2 ^ (52 - n.log2) ≤ 2 ^ (n.log2 + 1) * 2 ^ (52 - n.log2) :=
      Nat.mul_le_mul_right _ (Nat.le_of_lt hlt)
    rwa [← Nat.pow_add, show n.log2 + 1 + (52 - n.log2) = 53 by omega] at hmul

/-- The whole numbers from here on are too large for a double: half a step below the
first power of two beyond all doubles. -/
def overflow : Nat := 2 ^ 54 * 2 ^ 970 - 2 ^ 970

theorem two_pow_le_mul {a b c : Nat} (h : c ≤ a + b) : 2 ^ c ≤ 2 ^ a * 2 ^ b := by
  rw [← Nat.pow_add]
  exact Nat.pow_le_pow_right Nat.two_pos h

theorem mul_le_two_pow {a b c : Nat} (h : a + b ≤ c) : 2 ^ a * 2 ^ b ≤ 2 ^ c := by
  rw [← Nat.pow_add]
  exact Nat.pow_le_pow_right Nat.two_pos h

/-- **A whole number is infinite from one bound on.** -/
theorem overflow_le_iff {n : Nat} (hn : n ≠ 0) :
    (1023 < n.log2 ∨ 2047 * 2 ^ 52 ≤ wholeBits n) ↔ overflow ≤ n := by
  have hle : 2 ^ n.log2 ≤ n := Nat.log2_self_le hn
  have hlt : n < 2 ^ (n.log2 + 1) := Nat.lt_log2_self
  unfold overflow
  -- shorter numbers stay below and longer ones are beyond; of those with 1024 bits it is
  -- the ones of which the significand is rounded up to a power of two
  rcases Nat.lt_trichotomy n.log2 1023 with hlog | hlog | hlog
  · have hsignificand := wholeSignificand_le n
    have hbits : wholeBits n < 2047 * 2 ^ 52 := by
      rw [wholeBits]
      omega
    have hmax : 2 ^ (n.log2 + 1) ≤ 2 ^ 53 * 2 ^ 970 :=
      two_pow_le_mul (a := 53) (b := 970) (by omega)
    omega
  · have hdenominator : n.log2 - 52 = 970 + 1 := by omega
    have hround := le_roundQuotient_iff (n := n) (k := 2 ^ 53) (Nat.two_pow_pos (n.log2 - 52))
      (by decide) (by decide)
    have hsignificand : wholeSignificand n = roundQuotient n (2 ^ (n.log2 - 52)) :=
      if_pos (by omega)
    have hdouble (k : Nat) : 2 ^ (k + 1) = 2 * 2 ^ k := Nat.pow_succ'
    have hstep : 2 ^ (n.log2 - 52) = 2 * 2 ^ 970 := hdenominator ▸ hdouble 970
    rw [← hsignificand, hstep] at hround
    rw [wholeBits, hlog]
    omega
  · have hmin : 2 ^ 54 * 2 ^ 970 ≤ 2 ^ n.log2 := mul_le_two_pow (a := 54) (b := 970) (by omega)
    omega

/-! ## The double of a whole number -/

/-- The magnitude of the double nearest to a whole number other than zero. -/
theorem exists_ofQuotient_one {n : Nat} (hn : n ≠ 0) (negative : Bool) :
    ∃ b, 0 < b ∧ b ≤ maxMagnitude ∧ (b = maxMagnitude ↔ overflow ≤ n) ∧
      ofQuotient negative n 1 = ofMagnitude negative b := by
  rw [ofQuotient_one hn, ← overflow_le_iff hn]
  split_ifs with h
  · exact ⟨maxMagnitude, by decide, Nat.le_refl _, iff_of_true rfl h, rfl⟩
  · have hlt : wholeBits n < maxMagnitude := by
      rw [maxMagnitude_eq]
      exact Nat.lt_of_not_le fun hle => h (.inr hle)
    have hpos : 0 < wholeBits n := Nat.add_pos_left (Nat.mul_pos (by omega) (by decide)) _
    exact ⟨wholeBits n, hpos, Nat.le_of_lt hlt, iff_of_false (Nat.ne_of_lt hlt) h, rfl⟩

/-- **The double of a whole number has its sign.** -/
theorem isPositive_ofInt (i : Int) : (ofInt i).isPositive = decide (0 < i) := by
  rcases Int.lt_trichotomy i 0 with hneg | rfl | hpos
  · obtain ⟨b, hb, hmax, -, heq⟩ := exists_ofQuotient_one (n := i.natAbs) (by omega) true
    rw [ofInt, decide_eq_true hneg, heq, isPositive_ofMagnitude hmax hb]
    simp
    omega
  · decide +kernel
  · obtain ⟨b, hb, hmax, -, heq⟩ := exists_ofQuotient_one (n := i.natAbs) (by omega) false
    rw [ofInt, decide_eq_false (by omega), heq, isPositive_ofMagnitude hmax hb]
    simp
    omega

/-- **Whole numbers are beyond all doubles from the overflow on.** -/
theorem isInfinite_ofInt (i : Int) : (ofInt i).isInfinite = decide (overflow ≤ i.natAbs) := by
  by_cases hi : i = 0
  · subst hi
    decide +kernel
  · obtain ⟨b, -, hmax, hiff, heq⟩ := exists_ofQuotient_one (n := i.natAbs) (by omega) (i < 0)
    rw [ofInt, heq, isInfinite_ofMagnitude hmax]
    exact decide_eq_decide.2 hiff

end Retype.Double
