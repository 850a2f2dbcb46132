import TableQuery.Cell.Basic
import Mathlib.Tactic.NormNum
import Mathlib.Tactic.Ring

/-! # The floats nearest to integers

An integer is brought to the 53 bits of a significand: it is multiplied by a
power of two when it has fewer, and rounded when it has more.  Its place among
the floats is read off the result, and grows with the integer.  Up to `2 ^ 53`
nothing is rounded, so that different integers have different places; beyond,
neighbours share one.
-/

namespace TableQuery.Binary64

open Float.Model Float.Model.UnpackedFloat

/-! ## Rounding -/

/-- A mantissa and its two residual bits as one number, in quarters of the mantissa's unit. -/
def quarters (em : ExtendedMantissa) : Nat :=
  4 * em.mantissa + 2 * em.roundBit.toNat + em.stickyBit.toNat

theorem quarters_shiftRightOne_le {a b : ExtendedMantissa} (le : quarters a ≤ quarters b) :
    quarters a.shiftRightOne ≤ quarters b.shiftRightOne := by
  have parity (n : Nat) : (n % 2 != 0).toNat = n % 2 := by
    obtain even | odd := Nat.mod_two_eq_zero_or_one n
    · simp [even]
    · simp [odd]
  obtain ⟨m, r, s⟩ := a
  obtain ⟨n, q, t⟩ := b
  simp only [quarters, ExtendedMantissa.shiftRightOne, parity] at le ⊢
  -- The last bit of the mantissa becomes the round bit, and the round bit joins the sticky one.
  cases r <;> cases s <;> cases q <;> cases t <;> simp at le ⊢ <;> omega

theorem quarters_shiftRight_le {a b : ExtendedMantissa} (le : quarters a ≤ quarters b) (k : Nat) :
    quarters (a >>> k) ≤ quarters (b >>> k) := by
  induction k with
  | zero => exact le
  | succ k ih => exact quarters_shiftRightOne_le ih

theorem roundedMantissa_le {a b : ExtendedMantissa} (le : quarters a ≤ quarters b) :
    a.roundedMantissa ≤ b.roundedMantissa := by
  obtain ⟨m, r, s⟩ := a
  obtain ⟨n, q, t⟩ := b
  simp only [quarters] at le
  cases r <;> cases s <;> cases q <;> cases t <;>
    simp [ExtendedMantissa.roundedMantissa, ExtendedMantissa.accuracy,
      Accuracy.roundToNearestEven] at le ⊢ <;> omega

theorem roundedMantissa_bounds (em : ExtendedMantissa) :
    em.mantissa ≤ em.roundedMantissa ∧ em.roundedMantissa ≤ em.mantissa + 1 := by
  obtain ⟨m, r, s⟩ := em
  cases r <;> cases s <;>
    simp [ExtendedMantissa.roundedMantissa, ExtendedMantissa.accuracy,
      Accuracy.roundToNearestEven]
  omega

theorem mantissa_shiftRight (em : ExtendedMantissa) (k : Nat) :
    (em >>> k).mantissa = em.mantissa / 2 ^ k := by
  induction k with
  | zero => exact (Nat.div_one _).symm
  | succ k ih =>
    change (em >>> k).mantissa / 2 = _
    rw [ih, Nat.div_div_eq_div_mul, Nat.pow_succ]

def exactly (n : Nat) : ExtendedMantissa := ExtendedMantissa.ofMantissaAndAccuracy n .exact

/-- The significand of the float nearest to a positive number: the number with its leading digit
brought to the place of 53 bits, rounded if it was above.  Rounding may reach the next power of
two. -/
def significand (n : Nat) : Nat := (exactly (n <<< (52 - n.log2)) >>> (n.log2 - 52)).roundedMantissa

theorem significand_le {m n : Nat} (le : m ≤ n) (sameLog : m.log2 = n.log2) :
    significand m ≤ significand n := by
  rw [significand, significand, sameLog]
  apply roundedMantissa_le
  apply quarters_shiftRight_le
  have stretched : m <<< (52 - n.log2) ≤ n <<< (52 - n.log2) := by
    rw [Nat.shiftLeft_eq, Nat.shiftLeft_eq]
    exact Nat.mul_le_mul_right _ le
  exact Nat.mul_le_mul_left 4 stretched

theorem significand_of_log2_le {n : Nat} (few : n.log2 ≤ 52) :
    significand n = n * 2 ^ (52 - n.log2) := by
  rw [significand, Nat.sub_eq_zero_of_le few, ← Nat.shiftLeft_eq]
  rfl

theorem significand_lt_of_log2_le {n : Nat} (few : n.log2 ≤ 52) : significand n < 2 ^ 53 := by
  rw [significand_of_log2_le few]
  calc n * 2 ^ (52 - n.log2) < 2 ^ (n.log2 + 1) * 2 ^ (52 - n.log2) :=
        Nat.mul_lt_mul_of_pos_right Nat.lt_log2_self (Nat.two_pow_pos _)
    _ = 2 ^ 53 := by
      rw [← Nat.pow_add]
      congr 1
      omega

theorem significand_bounds {n : Nat} (positive : n ≠ 0) :
    2 ^ 52 ≤ significand n ∧ significand n ≤ 2 ^ 53 := by
  have low := Nat.log2_self_le positive
  obtain few | many := Nat.le_total n.log2 52
  · have whole : 2 ^ n.log2 * 2 ^ (52 - n.log2) = 2 ^ 52 := by
      rw [← Nat.pow_add, Nat.add_sub_cancel' few]
    refine ⟨?_, (significand_lt_of_log2_le few).le⟩
    rw [significand_of_log2_le few, ← whole]
    exact Nat.mul_le_mul_right _ low
  · -- What is cut off to 53 bits stays below the next power of two, and rounding adds one at most.
    have bounds := roundedMantissa_bounds (exactly (n <<< (52 - n.log2)) >>> (n.log2 - 52))
    have quotient : (exactly (n <<< (52 - n.log2)) >>> (n.log2 - 52)).mantissa =
        n / 2 ^ (n.log2 - 52) := by
      rw [mantissa_shiftRight, Nat.sub_eq_zero_of_le many]
      rfl
    rw [quotient] at bounds
    have split : 2 ^ n.log2 = 2 ^ 52 * 2 ^ (n.log2 - 52) := by
      rw [← Nat.pow_add, Nat.add_sub_cancel' many]
    have atLeast : 2 ^ 52 ≤ n / 2 ^ (n.log2 - 52) := by
      rw [Nat.le_div_iff_mul_le (Nat.two_pow_pos _), ← split]
      exact low
    have below : n / 2 ^ (n.log2 - 52) < 2 ^ 53 := by
      rw [Nat.div_lt_iff_lt_mul (Nat.two_pow_pos _)]
      calc n < 2 ^ (n.log2 + 1) := Nat.lt_log2_self
        _ = 2 ^ 53 * 2 ^ (n.log2 - 52) := by rw [Nat.pow_succ, split]; ring
    exact ⟨atLeast.trans bounds.1, bounds.2.trans below⟩

/-- The magnitude of the float nearest to a natural number. -/
def place (n : Nat) : Nat := if n = 0 then 0 else (n.log2 + 1022) * leadingBit + significand n

theorem place_le {m n : Nat} (le : m ≤ n) : place m ≤ place n := by
  by_cases zero : m = 0
  · simp [place, zero]
  · have positive : n ≠ 0 := by omega
    have logs : m.log2 ≤ n.log2 :=
      (Nat.le_log2 positive).2 ((Nat.log2_self_le zero).trans le)
    have below := (significand_bounds zero).2
    have above := (significand_bounds positive).1
    rw [place, place, if_neg zero, if_neg positive, leadingBit]
    obtain sameLog | fewer := logs.eq_or_lt
    · rw [sameLog]
      exact Nat.add_le_add_left (significand_le le sameLog) _
    · -- Even a significand that is rounded up to the next power of two is not above that power's.
      omega

theorem place_lt {m n : Nat} (lt : m < n) (exact : n ≤ 2 ^ 53) : place m < place n := by
  have positive : n ≠ 0 := by omega
  have above := (significand_bounds positive).1
  rw [place, place, if_neg positive, leadingBit]
  split
  · omega
  · next nonzero =>
    have few : m.log2 < 53 := (Nat.log2_lt nonzero).2 (by omega)
    have logs : m.log2 ≤ n.log2 :=
      (Nat.le_log2 positive).2 ((Nat.log2_self_le nonzero).trans lt.le)
    obtain sameLog | fewer := logs.eq_or_lt
    · rw [significand_of_log2_le (n := m) (by omega), significand_of_log2_le (by omega), sameLog]
      exact Nat.add_lt_add_left (Nat.mul_lt_mul_of_pos_right lt (Nat.two_pow_pos _)) _
    · have small : significand m < 2 ^ 53 := significand_lt_of_log2_le (by omega)
      omega

/-! ## Encodings -/

theorem targetExponent_eq (m : Nat) (e : Int) :
    Format.binary64.targetExponent (totalExponent m e) = max (m.log2 + e - 52) (-1074) := by
  change max ((m.log2 : Int) + 1 + e - (53 : Nat)) (3 - 2 ^ 10 - (53 : Nat)) = _
  norm_num
  omega

theorem shiftToTargetExponent_eq {m l k : Nat} {e : Int} (log : m.log2 = l)
    (shift : max (l + e - 52) (-1074) - e = k) :
    shiftToTargetExponent .binary64 m e .exact = (exactly m >>> k, e + k) := by
  rw [shiftToTargetExponent, targetExponent_eq, log, shiftToExponent, shift]
  rfl

theorem log2_shiftLeft {n : Nat} (positive : n ≠ 0) (k : Nat) : (n <<< k).log2 = n.log2 + k := by
  rw [Nat.shiftLeft_eq, Nat.log2_eq_iff (Nat.mul_ne_zero positive (Nat.two_pow_pos k).ne')]
  have low := Nat.log2_self_le positive
  have high : n < 2 ^ (n.log2 + 1) := Nat.lt_log2_self
  constructor
  · rw [Nat.pow_add]
    exact Nat.mul_le_mul_right _ low
  · calc n * 2 ^ k
      _ < 2 ^ (n.log2 + 1) * 2 ^ k := Nat.mul_lt_mul_of_pos_right high (Nat.two_pow_pos k)
      _ = 2 ^ (n.log2 + k + 1) := by rw [← Nat.pow_add, Nat.add_right_comm]

/-- A positive number is rounded to its significand, which is shifted once more where it has become
the next power of two. -/
theorem round_eq (sign : Sign) {n m k : Nat} {e : Int} (nonzero : n ≠ 0) (positive : 0 < m)
    (shift : max ((significand n).log2 + (n.log2 - 52 : Int) - 52) (-1074) - (n.log2 - 52) = k)
    (shifted : significand n / 2 ^ k = m) (exponent : (n.log2 - 52 + k : Int) = e) :
    UnpackedFloat.round .binary64 sign n 0 = .finite sign m e positive := by
  have target : max ((n.log2 : Int) + 0 - 52) (-1074) = n.log2 - 52 := by omega
  have stretch : (0 - ((n.log2 : Int) - 52)).toNat = 52 - n.log2 := by omega
  have first : shiftToTargetExponent .binary64 (n <<< (52 - n.log2))
      (0 - ((52 - n.log2 : Nat) : Int)) .exact =
        (exactly (n <<< (52 - n.log2)) >>> (n.log2 - 52), (n.log2 : Int) - 52) := by
    rw [shiftToTargetExponent_eq (log2_shiftLeft nonzero _) (k := n.log2 - 52) (by omega)]
    congr 1
    omega
  rw [UnpackedFloat.round, targetExponent_eq, target, decreaseExponent, stretch]
  change roundWithAccuracy .binary64 sign (n <<< (52 - n.log2)) (0 - ((52 - n.log2 : Nat) : Int))
    .exact = _
  unfold roundWithAccuracy
  rw [first]
  change (let last := shiftToTargetExponent .binary64 (significand n) (n.log2 - 52) .exact
    if vanished : last.1.mantissa = 0 then UnpackedFloat.zero sign
    else .finite sign last.1.mantissa last.2 (Nat.pos_of_ne_zero vanished)) = _
  have mantissa : (exactly (significand n) >>> k).mantissa = m := by
    rw [mantissa_shiftRight, ← shifted]
    rfl
  rw [shiftToTargetExponent_eq rfl shift]
  refine (dif_neg (by rw [mantissa]; exact positive.ne')).trans ?_
  exact (UnpackedFloat.finite.injEq ..).mpr ⟨rfl, mantissa, exponent⟩

/-- The float that a positive number is rounded to has a significand of exactly 53 bits, and its
place is read off its exponent and its significand. -/
theorem exists_round (sign : Sign) {n : Nat} (nonzero : n ≠ 0) :
    ∃ m b : Nat, ∃ positive : 0 < m, UnpackedFloat.round .binary64 sign n 0 =
        .finite sign m ((b : Int) - 1074) positive ∧
      m.log2 = 52 ∧ b ≤ n.log2 + 1023 ∧ place n = b * leadingBit + m := by
  obtain ⟨above, below⟩ := significand_bounds nonzero
  rw [place, if_neg nonzero, leadingBit]
  -- Only a significand that was rounded up to the next power of two is shifted once more.
  obtain next | fits := below.eq_or_lt
  · have log : (2 ^ 53 : Nat).log2 = 53 := Nat.log2_two_pow
    have rounded := round_eq sign (m := 2 ^ 52) (k := 1) (e := (n.log2 + 1023 : Nat) - 1074) nonzero
      (by decide) (by rw [next, log]; omega) (by rw [next]; decide) (by omega)
    exact ⟨2 ^ 52, n.log2 + 1023, _, rounded, Nat.log2_two_pow, by omega, by omega⟩
  · have log : (significand n).log2 = 52 := (Nat.log2_eq_iff (by omega)).2 ⟨above, fits⟩
    have rounded := round_eq sign (k := 0) (e := (n.log2 + 1022 : Nat) - 1074) nonzero
      (by omega) (by rw [log]; omega) (Nat.div_one _) (by omega)
    exact ⟨significand n, n.log2 + 1022, _, rounded, log, by omega, rfl⟩

theorem toNat_pack (sign : Sign) {m b : Nat} (positive : 0 < m) (log : m.log2 = 52)
    (finite : b < 2045) :
    (UnpackedFloat.pack .binary64 (.finite sign m ((b : Int) - 1074) positive)).toNat =
      sign.toBitVec.toNat * signBit + b * leadingBit + m := by
  obtain ⟨above, below⟩ := (Nat.log2_eq_iff positive.ne').1 log
  have biased : ((b : Int) - 1074 + Format.binary64.exponentBias +
      Format.binary64.mantissaBitsWithoutImplicit).toNat = b + 1 := by
    change ((b : Int) - 1074 + (1023 : Nat) + (52 : Nat)).toNat = b + 1
    omega
  change (if 2 ^ 11 ≤ ((b : Int) - 1074 + Format.binary64.exponentBias +
      Format.binary64.mantissaBitsWithoutImplicit).toNat + 1 then _
    else if m.log2 + 1 = 53 then packComponents .binary64 sign (BitVec.ofNat 11 (
      (b : Int) - 1074 + Format.binary64.exponentBias +
        Format.binary64.mantissaBitsWithoutImplicit).toNat) (BitVec.ofNat 52 m)
    else _ : BitVec 64).toNat = _
  rw [biased, log, if_neg (by omega), if_pos rfl, packComponents]
  simp only [BitVec.toNat_append, BitVec.toNat_ofNat]
  rw [← Nat.shiftLeft_add_eq_or_of_lt (Nat.mod_lt _ (by decide)),
    ← Nat.shiftLeft_add_eq_or_of_lt (Nat.mod_lt _ (by decide))]
  simp only [Nat.shiftLeft_eq, signBit, leadingBit]
  omega

theorem place_lt_infinity {n : Nat} (bound : n ≤ 2 ^ 63) : place n < infinity := by
  rw [place, infinity]
  split
  · decide
  · next nonzero =>
    have below := (significand_bounds nonzero).2
    have logs : n.log2 < 64 := (Nat.log2_lt nonzero).2 (by omega)
    rw [leadingBit]
    omega

theorem toNat_pack_round (sign : Sign) {n : Nat} (nonzero : n ≠ 0) (bound : n ≤ 2 ^ 63) :
    (UnpackedFloat.pack .binary64 (UnpackedFloat.round .binary64 sign n 0)).toNat =
      sign.toBitVec.toNat * signBit + place n := by
  have logs : n.log2 < 64 := (Nat.log2_lt nonzero).2 (by omega)
  obtain ⟨m, b, positive, rounded, log, exponent, placed⟩ := exists_round sign nonzero
  rw [rounded, toNat_pack sign positive log (by omega), placed, Nat.add_assoc]

/-- The encoding of the float nearest to an integer is its sign and the place of its size. -/
theorem toBits_ofInt64 (i : Int64) :
    (ofInt64 i).toBits.toNat = (if i.toInt < 0 then signBit else 0) + place i.toInt.natAbs := by
  have low := i.le_toInt
  have high := i.toInt_lt
  change (UnpackedFloat.pack .binary64
    (UnpackedFloat.normalize .binary64 i.toInt 0 .positive)).toNat = _
  rw [UnpackedFloat.normalize]
  obtain negative | zero | positive := Int.lt_trichotomy i.toInt 0
  · have size : (-i.toInt).toNat = i.toInt.natAbs := by omega
    rw [compare_lt_iff_lt.2 negative, if_pos negative, size]
    rw [toNat_pack_round .negative (by omega) (by omega)]
    rfl
  · rw [zero]
    rfl
  · have size : i.toInt.toNat = i.toInt.natAbs := by omega
    rw [compare_gt_iff_gt.2 positive, if_neg (by omega), size]
    rw [toNat_pack_round .positive (by omega) (by omega)]
    rfl

/-! ## Ranks -/

/-- The rank of the float nearest to an integer. -/
def nearest (i : Int) : Int := if i < 0 then -(place i.natAbs : Int) else place i.natAbs

theorem rank_ofInt64 (i : Int64) : rank (ofInt64 i) = some (nearest i.toInt) := by
  have low := i.le_toInt
  have high := i.toInt_lt
  have small := place_lt_infinity (n := i.toInt.natAbs) (by omega)
  have bits := toBits_ofInt64 i
  rw [infinity] at small
  by_cases negative : i.toInt < 0
  · rw [if_pos negative] at bits
    have size : (signBit + place i.toInt.natAbs) % signBit = place i.toInt.natAbs := by
      rw [signBit]
      omega
    rw [rank, magnitude, isNegative, nearest, bits, size, if_neg (by rw [infinity]; omega),
      if_pos (by simp), if_pos negative]
  · rw [if_neg negative, Nat.zero_add] at bits
    have size : place i.toInt.natAbs % signBit = place i.toInt.natAbs := by
      rw [signBit]
      omega
    have unsigned : ¬ signBit ≤ place i.toInt.natAbs := by
      rw [signBit]
      omega
    rw [rank, magnitude, isNegative, nearest, bits, size, if_neg (by rw [infinity]; omega),
      if_neg (by simpa using unsigned), if_neg negative]

theorem nearest_le {i j : Int} (le : i ≤ j) : nearest i ≤ nearest j := by
  rw [nearest, nearest]
  split
  · split
    · have sizes := place_le (show j.natAbs ≤ i.natAbs by omega)
      omega
    · omega
  · have sizes := place_le (show i.natAbs ≤ j.natAbs by omega)
    rw [if_neg (by omega)]
    omega

theorem nearest_lt {i j : Int} (lt : i < j) (low : -2 ^ 53 ≤ i) (high : j ≤ 2 ^ 53) :
    nearest i < nearest j := by
  rw [nearest, nearest]
  split
  · have positive := place_lt (show 0 < i.natAbs by omega) (by omega)
    split
    · have sizes := place_lt (show j.natAbs < i.natAbs by omega) (by omega)
      omega
    · omega
  · have sizes := place_lt (show i.natAbs < j.natAbs by omega) (by omega)
    rw [if_neg (by omega)]
    omega

def RoundAlike (i j : Int64) : Prop := same (ofInt64 i) (ofInt64 j) = true

theorem roundAlike_iff {i j : Int64} : RoundAlike i j ↔ nearest i.toInt = nearest j.toInt := by
  simp [RoundAlike, same, rank_ofInt64]

/-- Whether an integer is one of those that floats hold exactly, up to the first one that they do
not. -/
def Within53 (i : Int64) : Prop := -2 ^ 53 ≤ i.toInt ∧ i.toInt ≤ 2 ^ 53

theorem eq_of_roundAlike {i j : Int64} (first : Within53 i) (second : Within53 j)
    (alike : RoundAlike i j) : i = j := by
  have same : nearest i.toInt = nearest j.toInt := roundAlike_iff.1 alike
  by_contra differ
  have apart : i.toInt ≠ j.toInt := fun equal => differ (Int64.toInt_inj.1 equal)
  obtain less | greater := Int.lt_or_gt_of_ne apart
  · exact absurd same (nearest_lt less first.1 second.2).ne
  · exact absurd same (nearest_lt greater second.1 first.2).ne'

end TableQuery.Binary64
