import Mathlib.Algebra.Order.Field.Rat
import Mathlib.Order.Monotone.Basic
import Mathlib.Tactic.FieldSimp
import Mathlib.Tactic.Linarith
import Mathlib.Tactic.NormNum
import Mathlib.Tactic.Positivity
import Mathlib.Tactic.Ring
import Scriptlet.Proofs.Number.Nearest

/-!
# Rounding

A finite double is a rational number. A rational number is rounded to a double that no finite double is nearer to it than; of
two that are equally near it is the one whose last bit is 0; and from half a step beyond the largest double on it is infinity.
`Double.nearest` rounds in this sense. Rounding keeps the order, and what a number is rounded to is known but for the sign of
a zero.
-/

namespace Scriptlet

/-! ## Rounded quotients -/

/-- A quotient is rounded down only if that is nearer, or equally near and even. -/
def RoundsDown (num den q : Nat) : Prop :=
  2 * num < (2 * q + 1) * den ∨ (2 * num = (2 * q + 1) * den ∧ q % 2 = 0)

/-- A quotient is rounded up only if that is nearer, or equally near and even. -/
def RoundsUp (num den q : Nat) : Prop :=
  (2 * q + 1) * den < 2 * num ∨ (2 * num = (2 * q + 1) * den ∧ (q + 1) % 2 = 0)

/-- A quotient is rounded down or up, to the nearest whole number and from the middle to the even one. -/
theorem roundDiv_cases (num den : Nat) :
    (RoundsDown num den (num / den) ∧ roundDiv num den = num / den) ∨
      (RoundsUp num den (num / den) ∧ roundDiv num den = num / den + 1) := by
  have hmod := Nat.div_add_mod num den
  have htwice : (2 * (num / den) + 1) * den = 2 * (den * (num / den)) + den := by ring
  unfold roundDiv RoundsDown RoundsUp
  dsimp only
  rw [htwice]
  generalize den * (num / den) = whole at *
  split
  · left
    omega
  split
  · right
    omega
  rcases Nat.mod_two_eq_zero_or_one (num / den) with heven | hodd
  · left
    omega
  · right
    omega

namespace Double

/-! ## The grid of the doubles -/

/-- The units of a magnitude, as if there were no largest double. -/
def unitsAt (m : Nat) : Nat :=
  if m / 2 ^ 52 = 0 then m % 2 ^ 52 else (2 ^ 52 + m % 2 ^ 52) * 2 ^ (m / 2 ^ 52 - 1)

/-- The units of a double are those of its magnitude. -/
theorem units_eq_unitsAt (x : Double) : x.units = unitsAt x.magnitude := by
  unfold units significand scale unitsAt
  split
  · next h => rw [h, Nat.zero_sub, Nat.pow_zero, Nat.mul_one]
  · rfl

/-- Every magnitude has a significand and a scale. -/
theorem exists_packed_magnitude (m : Nat) : ∃ s r, m = s * 2 ^ 52 + r ∧ Packed s r := by
  by_cases h : m / 2 ^ 52 = 0
  · exact ⟨0, m, by omega, by omega, .inr rfl⟩
  · exact ⟨m / 2 ^ 52 - 1, 2 ^ 52 + m % 2 ^ 52, by omega, by omega, .inl (by omega)⟩

/-- The units of a significand and its scale; the significand may also be the first one that is too long. -/
theorem unitsAt_eq {s r : Nat} (hle : r ≤ 2 ^ 53) (hfull : 2 ^ 52 ≤ r ∨ s = 0) : unitsAt (s * 2 ^ 52 + r) = r * 2 ^ s := by
  unfold unitsAt
  by_cases hlow : r < 2 ^ 52
  · obtain rfl : s = 0 := hfull.resolve_left (by omega)
    rw [if_pos (by omega), Nat.pow_zero, Nat.mul_one]
    omega
  by_cases hhigh : r < 2 ^ 53
  · have hdiv : (s * 2 ^ 52 + r) / 2 ^ 52 = s + 1 := by omega
    have hmod : (s * 2 ^ 52 + r) % 2 ^ 52 = r - 2 ^ 52 := by omega
    have hsum : 2 ^ 52 + (r - 2 ^ 52) = r := by omega
    rw [hdiv, hmod, if_neg (Nat.succ_ne_zero s), Nat.add_sub_cancel, hsum]
  · obtain rfl : r = 2 ^ 53 := by omega
    have hdiv : (s * 2 ^ 52 + 2 ^ 53) / 2 ^ 52 = s + 1 + 1 := by omega
    have hmod : (s * 2 ^ 52 + 2 ^ 53) % 2 ^ 52 = 0 := by omega
    rw [hdiv, hmod, if_neg (Nat.succ_ne_zero _), Nat.add_sub_cancel, Nat.add_zero, Nat.pow_succ 2 s, Nat.mul_comm (2 ^ s),
      ← Nat.mul_assoc]

/-- The larger of two magnitudes has more units. -/
theorem unitsAt_strictMono : StrictMono unitsAt := by
  refine strictMono_nat_of_lt_succ fun m => ?_
  obtain ⟨s, r, rfl, hlt, hfull⟩ := exists_packed_magnitude m
  rw [unitsAt_eq (Nat.le_of_lt hlt) hfull, Nat.add_assoc, unitsAt_eq hlt (hfull.imp_left Nat.le_succ_of_le)]
  exact Nat.mul_lt_mul_of_pos_right (Nat.lt_succ_self r) (Nat.two_pow_pos s)

/-! ## The nearest point of the grid -/

/-- No point of the grid is nearer to a number of units, and of two that are equally near this one is even. -/
structure Closest (t : ℚ) (m : Nat) : Prop where
  le : ∀ k, |t - unitsAt m| ≤ |t - unitsAt k|
  even : ∀ k, k ≠ m → |t - unitsAt k| = |t - unitsAt m| → m % 2 = 0

variable {t t' : ℚ} {m m' : Nat}

/-- The larger of two magnitudes has more units, as rational numbers too. -/
theorem unitsAt_lt_cast {m k : Nat} (h : m < k) : (unitsAt m : ℚ) < unitsAt k := by
  exact_mod_cast unitsAt_strictMono h

theorem unitsAt_le_cast {m k : Nat} (h : m ≤ k) : (unitsAt m : ℚ) ≤ unitsAt k := by
  exact_mod_cast unitsAt_strictMono.monotone h

/-- A number between two neighbours that is not above their middle. -/
theorem closest_lower (hlow : (unitsAt m : ℚ) ≤ t)
    (hmiddle : 2 * t < unitsAt m + unitsAt (m + 1) ∨ (2 * t = unitsAt m + unitsAt (m + 1) ∧ m % 2 = 0)) : Closest t m := by
  have hself : |t - unitsAt m| = t - unitsAt m := abs_of_nonneg (by linarith)
  have hhalf : 2 * t ≤ unitsAt m + unitsAt (m + 1) := hmiddle.elim le_of_lt fun h => le_of_eq h.1
  have habove : ∀ k, m < k → unitsAt (m + 1) - t ≤ |t - unitsAt k| := by
    intro k hk
    have hle := unitsAt_le_cast hk
    rw [abs_sub_comm]
    exact le_trans (by linarith) (le_abs_self _)
  constructor
  · intro k
    rw [hself]
    rcases Nat.lt_or_ge m k with hk | hk
    · have := habove k hk
      linarith
    · have hle := unitsAt_le_cast hk
      exact le_trans (by linarith) (le_abs_self _)
  · intro k hne heq
    rw [hself] at heq
    rcases Nat.lt_or_gt_of_ne hne with hk | hk
    · have hlt := unitsAt_lt_cast hk
      have := le_abs_self (t - unitsAt k)
      linarith
    · have := habove k hk
      exact hmiddle.elim (fun h => by linarith) fun h => h.2

/-- A number between two neighbours that is not below their middle. -/
theorem closest_upper (hhigh : t ≤ unitsAt (m + 1))
    (hmiddle : unitsAt m + unitsAt (m + 1) < 2 * t ∨ (2 * t = unitsAt m + unitsAt (m + 1) ∧ (m + 1) % 2 = 0)) :
    Closest t (m + 1) := by
  have hself : |t - unitsAt (m + 1)| = unitsAt (m + 1) - t := by
    rw [abs_sub_comm]
    exact abs_of_nonneg (by linarith)
  have hhalf : unitsAt m + unitsAt (m + 1) ≤ 2 * t := hmiddle.elim le_of_lt fun h => le_of_eq h.1.symm
  have hbelow : ∀ k, k ≤ m → t - unitsAt m ≤ |t - unitsAt k| := by
    intro k hk
    have hle := unitsAt_le_cast hk
    exact le_trans (by linarith) (le_abs_self _)
  constructor
  · intro k
    rw [hself]
    rcases Nat.lt_or_ge m k with hk | hk
    · have hle := unitsAt_le_cast hk
      rw [abs_sub_comm]
      exact le_trans (by linarith) (le_abs_self _)
    · have := hbelow k hk
      linarith
  · intro k hne heq
    rw [hself] at heq
    rcases Nat.lt_or_gt_of_ne hne with hk | hk
    · have := hbelow k (Nat.le_of_lt_succ hk)
      exact hmiddle.elim (fun h => by linarith) fun h => h.2
    · have hlt := unitsAt_lt_cast hk
      have := le_abs_self (unitsAt k - t)
      rw [abs_sub_comm] at heq
      linarith

/-- A number that is at least as near to a point as to a smaller one is not below their middle. -/
theorem middle_le {a b : ℚ} (hlt : a < b) (h : |t - b| ≤ |t - a|) : a + b ≤ 2 * t := by
  by_contra hnot
  have hnear : |t - a| < b - t := abs_lt.mpr ⟨by linarith, by linarith⟩
  have hfar := neg_le_abs (t - b)
  linarith

/-- A number that is at least as near to a point as to a larger one is not above their middle. -/
theorem le_middle {a b : ℚ} (hlt : a < b) (h : |t - a| ≤ |t - b|) : 2 * t ≤ a + b := by
  by_contra hnot
  have hnear : |t - b| < t - a := abs_lt.mpr ⟨by linarith, by linarith⟩
  have hfar := le_abs_self (t - a)
  linarith

/-- The point nearest to a number is not above that of a larger number. -/
theorem Closest.le_of_le (h : Closest t m) (h' : Closest t' m') (hle : t ≤ t') : m ≤ m' := by
  by_contra hnot
  have hlt : m' < m := Nat.lt_of_not_le hnot
  have hunits := unitsAt_lt_cast hlt
  -- Both numbers stand in the middle between the two points, so both points are even and there is one between them.
  have hlow := middle_le hunits (h.le m')
  have hhigh := le_middle hunits (h'.le m)
  obtain rfl : t = t' := by linarith
  have hsame : |t - unitsAt m| = |t - unitsAt m'| := le_antisymm (h.le m') (h'.le m)
  have heven := h.even m' (Nat.ne_of_lt hlt) hsame.symm
  have heven' := h'.even m (Nat.ne_of_gt hlt) hsame
  have hbetween := middle_le (unitsAt_lt_cast (show m' + 1 < m by omega)) (h.le (m' + 1))
  have := unitsAt_lt_cast (Nat.lt_succ_self m')
  linarith

/-- No two points of the grid are closest to one number. -/
theorem Closest.eq (h : Closest t m) (h' : Closest t m') : m = m' :=
  Nat.le_antisymm (h.le_of_le h' (le_refl t)) (h'.le_of_le h (le_refl t))

/-- A point of the grid is nearest to itself. -/
theorem closest_unitsAt (m : Nat) : Closest (unitsAt m) m := by
  have := unitsAt_lt_cast (Nat.lt_succ_self m)
  exact closest_lower (le_refl _) (.inl (by linarith))

/-! ## The nearest double -/

/-- Cut to its first 53 bits a number is a significand with its scale. -/
theorem packed_quotient (n : Nat) : Packed (n.log2 - 52) (n / 2 ^ (n.log2 - 52)) := by
  by_cases hzero : n = 0
  · subst hzero
    exact ⟨by decide, .inr rfl⟩
  obtain ⟨hlow, hhigh⟩ := (Nat.log2_eq_iff hzero).mp rfl
  by_cases hlog : n.log2 < 52
  · rw [Nat.sub_eq_zero_of_le (Nat.le_of_lt hlog), Nat.pow_zero, Nat.div_one]
    exact ⟨Nat.lt_of_lt_of_le hhigh (Nat.pow_le_pow_right (by decide) (by omega)), .inr rfl⟩
  · obtain ⟨s, hs⟩ : ∃ s, n.log2 = 52 + s := ⟨n.log2 - 52, by omega⟩
    rw [hs] at hlow hhigh
    rw [hs, Nat.add_sub_cancel_left]
    rw [Nat.add_right_comm, Nat.pow_add] at hhigh
    rw [Nat.pow_add] at hlow
    exact ⟨(Nat.div_lt_iff_lt_mul (Nat.two_pow_pos s)).mpr hhigh, .inl ((Nat.le_div_iff_mul_le (Nat.two_pow_pos s)).mpr hlow)⟩

/-! A quotient compared with a natural number. -/

/-- A whole number is at most a quotient if its product with the denominator is at most the numerator. -/
theorem le_div_cast_iff {a b den : Nat} (hden : 0 < den) : (a : ℚ) ≤ b / den ↔ a * den ≤ b := by
  rw [le_div_iff₀ (by exact_mod_cast hden)]
  exact_mod_cast Iff.rfl

/-- A whole number is less than a quotient if its product with the denominator is less than the numerator. -/
theorem lt_div_cast_iff {a b den : Nat} (hden : 0 < den) : (a : ℚ) < b / den ↔ a * den < b := by
  rw [lt_div_iff₀ (by exact_mod_cast hden)]
  exact_mod_cast Iff.rfl

/-- A quotient is at most a whole number if the numerator is at most the product. -/
theorem div_le_cast_iff {a b den : Nat} (hden : 0 < den) : (b : ℚ) / den ≤ a ↔ b ≤ a * den := by
  rw [div_le_iff₀ (by exact_mod_cast hden)]
  exact_mod_cast Iff.rfl

/-- A quotient is less than a whole number if the numerator is less than the product. -/
theorem div_lt_cast_iff {a b den : Nat} (hden : 0 < den) : (b : ℚ) / den < a ↔ b < a * den := by
  rw [div_lt_iff₀ (by exact_mod_cast hden)]
  exact_mod_cast Iff.rfl

/-- The magnitude of a quotient, before it is cut off at infinity, is the point of the grid nearest to the quotient. -/
theorem closest_quotient (total : Nat) {den : Nat} (hden : 0 < den) : Closest (total / den)
    (((total / den).log2 - 52) * 2 ^ 52 + roundDiv total (den * 2 ^ ((total / den).log2 - 52))) := by
  obtain ⟨hlt, hfull⟩ := packed_quotient (total / den)
  generalize (total / den).log2 - 52 = s at *
  rw [Nat.div_div_eq_div_mul] at hlt hfull
  have hdiv := Nat.div_mul_le_self total (den * 2 ^ s)
  have hnext := Nat.lt_mul_div_succ total (Nat.mul_pos hden (Nat.two_pow_pos s))
  have hcases := roundDiv_cases total (den * 2 ^ s)
  generalize total / (den * 2 ^ s) = q at *
  generalize roundDiv total (den * 2 ^ s) = r at *
  have hlow : unitsAt (s * 2 ^ 52 + q) = q * 2 ^ s := unitsAt_eq (Nat.le_of_lt hlt) hfull
  have hhigh : unitsAt (s * 2 ^ 52 + q + 1) = (q + 1) * 2 ^ s := by
    rw [Nat.add_assoc]
    exact unitsAt_eq hlt (hfull.imp_left Nat.le_succ_of_le)
  have hmiddle : (unitsAt (s * 2 ^ 52 + q) + unitsAt (s * 2 ^ 52 + q + 1)) * den = (2 * q + 1) * (den * 2 ^ s) := by
    rw [hlow, hhigh]
    ring
  have htwice : 2 * ((total : ℚ) / den) = (2 * total : Nat) / den := by
    push_cast
    ring
  have hsum : (unitsAt (s * 2 ^ 52 + q) : ℚ) + unitsAt (s * 2 ^ 52 + q + 1) =
      (unitsAt (s * 2 ^ 52 + q) + unitsAt (s * 2 ^ 52 + q + 1) : Nat) := by
    push_cast
    rfl
  have hbelow : (unitsAt (s * 2 ^ 52 + q) : ℚ) ≤ total / den := by
    rw [le_div_cast_iff hden, hlow, Nat.mul_assoc, Nat.mul_comm (2 ^ s)]
    exact hdiv
  have habove : (total / den : ℚ) ≤ unitsAt (s * 2 ^ 52 + q + 1) := by
    rw [div_le_cast_iff hden, hhigh, Nat.mul_assoc, Nat.mul_comm (2 ^ s), Nat.mul_comm]
    exact Nat.le_of_lt hnext
  have hhalf : 2 * total = (2 * q + 1) * (den * 2 ^ s) → 2 * ((total : ℚ) / den) =
      unitsAt (s * 2 ^ 52 + q) + unitsAt (s * 2 ^ 52 + q + 1) := by
    intro heq
    rw [htwice, hsum]
    exact le_antisymm ((div_le_cast_iff hden).mpr (by omega)) ((le_div_cast_iff hden).mpr (by omega))
  rcases hcases with ⟨hdown, rfl⟩ | ⟨hup, rfl⟩
  · refine closest_lower hbelow ?_
    rcases hdown with hlt | ⟨heq, heven⟩
    · left
      rwa [htwice, hsum, div_lt_cast_iff hden, hmiddle]
    · exact .inr ⟨hhalf heq, by omega⟩
  · rw [← Nat.add_assoc]
    refine closest_upper habove ?_
    rcases hup with hlt | ⟨heq, heven⟩
    · left
      rwa [htwice, hsum, lt_div_cast_iff hden, hmiddle]
    · exact .inr ⟨hhalf heq, by omega⟩

/-! ## Infinity -/

/-- Half a step beyond the largest double. -/
def overflow : ℚ := 2 ^ 1024 - 2 ^ 970

/-- The units of a significand and a scale, as a rational number. -/
theorem cast_unitsAt {s r : Nat} (hle : r ≤ 2 ^ 53) (hfull : 2 ^ 52 ≤ r ∨ s = 0) :
    (unitsAt (s * 2 ^ 52 + r) : ℚ) = r * 2 ^ s := by
  rw [unitsAt_eq hle hfull]
  push_cast
  rfl

/-- The largest double, the first point beyond it and the middle between them, counted in half steps. -/
theorem exists_halfStep : ∃ b : ℚ, 0 < b ∧ (unitsAt (infinityMagnitude - 1) : ℚ) = (2 ^ 54 - 2) * b ∧
    (unitsAt infinityMagnitude : ℚ) = 2 ^ 54 * b ∧ overflow * 2 ^ 1074 = (2 ^ 54 - 1) * b := by
  have hlargest : infinityMagnitude - 1 = 2045 * 2 ^ 52 + (2 ^ 53 - 1) := by decide
  have hinfinity : infinityMagnitude = 2046 * 2 ^ 52 + 2 ^ 52 := by decide
  have htop : (2 : ℚ) ^ 1024 = 2 ^ 54 * 2 ^ 970 := by rw [← pow_add]
  have hunit : (2 : ℚ) ^ 970 * 2 ^ 1074 = 2 ^ 2044 := by rw [← pow_add]
  have hfirst : (2 : ℚ) ^ 2045 = 2 ^ 2044 * 2 := pow_succ 2 2044
  have hsecond : (2 : ℚ) ^ 2046 = 2 ^ 2045 * 2 := pow_succ 2 2045
  refine ⟨2 ^ 2044, by positivity, ?_, ?_, ?_⟩
  · rw [hlargest, cast_unitsAt (by decide) (.inl (by decide)), hfirst]
    generalize (2 : ℚ) ^ 2044 = b
    push_cast
    ring
  · rw [hinfinity, cast_unitsAt (by decide) (.inl (Nat.le_refl _)), hsecond, hfirst]
    generalize (2 : ℚ) ^ 2044 = b
    push_cast
    ring
  · rw [overflow, htop, ← hunit]
    generalize (2 : ℚ) ^ 970 = c
    generalize (2 : ℚ) ^ 1074 = d
    ring

/-- The nearest point of the grid is beyond the largest double from half a step beyond it on. -/
theorem Closest.infinity_le_iff (h : Closest t m) : infinityMagnitude ≤ m ↔ overflow * 2 ^ 1074 ≤ t := by
  obtain ⟨b, hb, hlargest, hinfinity, hoverflow⟩ := exists_halfStep
  rw [hoverflow]
  constructor
  · intro hle
    have hlt : infinityMagnitude - 1 < m := Nat.lt_of_lt_of_le (by decide) hle
    have hmiddle := middle_le (unitsAt_lt_cast hlt) (h.le (infinityMagnitude - 1))
    have := unitsAt_le_cast hle
    linarith
  · intro hle
    have hself : Closest ((2 ^ 54 - 1) * b) (infinityMagnitude - 1 + 1) := by
      have hsucc : infinityMagnitude - 1 + 1 = infinityMagnitude := by decide
      refine closest_upper ?_ (.inr ⟨?_, by decide⟩) <;> rw [hsucc, hinfinity] <;> linarith
    exact hself.le_of_le h hle

/-- A scaled quotient is the quotient of a scaled number. -/
theorem div_mul_two_pow (num den k : Nat) : (num / den * 2 ^ k : ℚ) = (num * 2 ^ k : Nat) / den := by
  push_cast
  exact div_mul_eq_mul_div _ _ _

/-- Every number that is not negative has a nearest point of the grid. -/
theorem exists_closest {q : ℚ} (hq : 0 ≤ q) : ∃ m, Closest (q * 2 ^ 1074) m := by
  obtain ⟨num, hnum⟩ := Int.eq_ofNat_of_zero_le (Rat.num_nonneg.mpr hq)
  have heq : q = num / q.den := by
    rw [← Int.cast_natCast, ← hnum]
    exact (Rat.num_div_den q).symm
  rw [heq, div_mul_two_pow]
  exact ⟨_, closest_quotient _ q.den_pos⟩

/-- The double nearest to a quotient has the magnitude of the nearest point, or that of infinity if the point is beyond it. -/
theorem nearest_of_closest {num den : Nat} (hden : 0 < den) (h : Closest (num / den * 2 ^ 1074) m) :
    (nearest num den).magnitude = min m infinityMagnitude := by
  rw [div_mul_two_pow] at h
  rw [h.eq (closest_quotient _ hden), nearest]

/-- Rounding keeps the order. -/
theorem nearest_le_nearest {a b c d : Nat} (hb : 0 < b) (hd : 0 < d) (h : a * d ≤ c * b) :
    (nearest a b).magnitude ≤ (nearest c d).magnitude := by
  obtain ⟨m, hm⟩ := exists_closest (q := a / b) (by positivity)
  obtain ⟨k, hk⟩ := exists_closest (q := c / d) (by positivity)
  have hb' : (0 : ℚ) < b := by exact_mod_cast hb
  have hd' : (0 : ℚ) < d := by exact_mod_cast hd
  have hle : (a / b : ℚ) ≤ c / d := (div_le_div_iff₀ hb' hd').mpr (by exact_mod_cast h)
  rw [nearest_of_closest hb hm, nearest_of_closest hd hk]
  exact min_le_min_right _ (hm.le_of_le hk (mul_le_mul_of_nonneg_right hle (by positivity)))

/-! ## Rounding -/

/-- The value of a finite double. -/
def toRat (x : Double) : ℚ := (if x.negative = true then -1 else 1) * (x.units / 2 ^ 1074)

/-- A double is a number rounded to the nearest double. -/
inductive Rounds (q : ℚ) : Double → Prop where
  /-- No finite double is nearer, and of two that are equally near it is the one whose last bit is 0. -/
  | finite {x : Double} : x.isFinite = true → |q| < overflow →
      (∀ y : Double, y.isFinite = true → |q - x.toRat| ≤ |q - y.toRat|) →
      (∀ y : Double, y.isFinite = true → y.toRat ≠ x.toRat → |q - y.toRat| = |q - x.toRat| → x.magnitude % 2 = 0) →
      Rounds q x
  /-- From half a step beyond the largest double on it is infinity. -/
  | above : overflow ≤ q → Rounds q infinity
  /-- On the other side of zero it is negative infinity. -/
  | below : q ≤ -overflow → Rounds q { infinity with negative := true }

variable {q : ℚ} {x y : Double}

/-- The size of a double in units. -/
theorem abs_toRat (x : Double) : |x.toRat| * 2 ^ 1074 = unitsAt x.magnitude := by
  rw [← units_eq_unitsAt, toRat, abs_mul]
  have hsign : |(if x.negative = true then -1 else 1 : ℚ)| = 1 := by
    split <;> simp
  have hsize : |(x.units / 2 ^ 1074 : ℚ)| = x.units / 2 ^ 1074 := abs_of_nonneg (by positivity)
  rw [hsign, hsize, one_mul]
  exact div_mul_cancel₀ _ (by positivity)

/-! How far a number is from a double, told by the points of the grid. -/

/-- Distances between sizes are measured in units. -/
theorem abs_sub_unitsAt (q : ℚ) (x : Double) :
    |(|q| * 2 ^ 1074 - unitsAt x.magnitude)| = |(|q| - |x.toRat|)| * 2 ^ 1074 := by
  rw [← abs_toRat, ← sub_mul, abs_mul, abs_of_pos (a := (2 : ℚ) ^ 1074) (by positivity)]

/-- A number is no nearer to a double than their sizes are. -/
theorem abs_sub_unitsAt_le (q : ℚ) (x : Double) :
    |(|q| * 2 ^ 1074 - unitsAt x.magnitude)| ≤ |q - x.toRat| * 2 ^ 1074 := by
  rw [abs_sub_unitsAt]
  exact mul_le_mul_of_nonneg_right (abs_abs_sub_abs_le q x.toRat) (by positivity)

/-- A number is as near to a double of its sign as their sizes are. -/
theorem abs_sub_unitsAt_eq (h : 0 ≤ q * x.toRat) :
    |(|q| * 2 ^ 1074 - unitsAt x.magnitude)| = |q - x.toRat| * 2 ^ 1074 := by
  rw [abs_sub_unitsAt]
  congr 1
  rcases mul_nonneg_iff.mp h with ⟨hq, hx⟩ | ⟨hq, hx⟩
  · rw [abs_of_nonneg hq, abs_of_nonneg hx]
  · rw [abs_of_nonpos hq, abs_of_nonpos hx, neg_sub_neg, abs_sub_comm]

/-- Without a minus sign the value is not below zero. -/
theorem toRat_nonneg (h : x.negative = false) : 0 ≤ x.toRat := by
  rw [toRat, h, if_neg Bool.false_ne_true, one_mul]
  positivity

/-- With a minus sign the value is not above zero. -/
theorem toRat_nonpos (h : x.negative = true) : x.toRat ≤ 0 := by
  rw [toRat, h, if_pos rfl, neg_one_mul, neg_nonpos]
  positivity

/-- Only the zeros have the value zero. -/
theorem toRat_eq_zero_iff : x.toRat = 0 ↔ x.magnitude = 0 := by
  have hzero : unitsAt 0 = 0 := rfl
  constructor
  · intro h
    have habs := abs_toRat x
    rw [h, abs_zero, zero_mul] at habs
    have hunits : unitsAt x.magnitude = unitsAt 0 := by exact_mod_cast habs.symm
    exact unitsAt_strictMono.injective hunits
  · intro h
    rw [toRat, units_eq_unitsAt, h, hzero, Nat.cast_zero, zero_div, mul_zero]

/-- Doubles of one size have one magnitude. -/
theorem abs_toRat_eq_iff : |x.toRat| = |y.toRat| ↔ x.magnitude = y.magnitude := by
  rw [← mul_left_inj' (c := (2 : ℚ) ^ 1074) (by positivity), abs_toRat, abs_toRat, Nat.cast_inj]
  exact unitsAt_strictMono.injective.eq_iff

/-- Two doubles that differ in their sign only are equally near to zero alone. -/
theorem eq_zero_of_opposite (hsame : y.magnitude = x.magnitude) (hne : y.toRat ≠ x.toRat)
    (heq : |q - y.toRat| = |q - x.toRat|) : q = 0 := by
  have hopposite := (abs_eq_abs.mp (abs_toRat_eq_iff.mpr hsame)).resolve_left hne
  rw [hopposite] at heq hne
  rcases abs_eq_abs.mp heq with hq | hq
  · exact absurd (by linarith) hne
  · linarith

/-- A double with the magnitude of the nearest point and with the sign of a number is that number rounded. -/
theorem rounds_of_closest (h : Closest (|q| * 2 ^ 1074) m) (hm : x.magnitude = min m infinityMagnitude)
    (hsign : 0 ≤ q * x.toRat) : Rounds q x := by
  have hunit : (0 : ℚ) < 2 ^ 1074 := by positivity
  have hoverflow : infinityMagnitude ≤ m ↔ overflow ≤ |q| := by
    rw [h.infinity_le_iff, mul_le_mul_iff_left₀ hunit]
  rcases Nat.lt_or_ge m infinityMagnitude with hlt | hge
  · rw [Nat.min_eq_left (Nat.le_of_lt hlt)] at hm
    subst hm
    have hbound : |q| < overflow := not_le.mp (mt hoverflow.mpr (Nat.not_le_of_lt hlt))
    refine .finite (by simpa [isFinite] using hlt) hbound (fun y _ => ?_) (fun y _ hne heq => ?_)
    · refine le_of_mul_le_mul_right ?_ hunit
      rw [← abs_sub_unitsAt_eq hsign]
      exact (h.le y.magnitude).trans (abs_sub_unitsAt_le q y)
    · by_cases hsame : y.magnitude = x.magnitude
      · have hzero := eq_zero_of_opposite hsame hne heq
        rw [hzero, abs_zero, zero_mul] at h
        rw [h.eq (by exact_mod_cast closest_unitsAt 0)]
      · refine h.even y.magnitude hsame (le_antisymm ?_ (h.le y.magnitude))
        rw [abs_sub_unitsAt_eq hsign, ← heq]
        exact abs_sub_unitsAt_le q y
  · rw [Nat.min_eq_right hge] at hm
    have hne : x.toRat ≠ 0 := mt toRat_eq_zero_iff.mp (by rw [hm]; decide)
    cases hneg : x.negative with
    | false =>
      have hpos : 0 ≤ q := by
        refine nonneg_of_mul_nonneg_left hsign (lt_of_le_of_ne (toRat_nonneg hneg) hne.symm)
      have heq : x = infinity := eq_of_magnitude hneg hm
      rw [heq]
      exact .above (by rw [← abs_of_nonneg hpos]; exact hoverflow.mp hge)
    | true =>
      have hneg' : q ≤ 0 := nonpos_of_mul_nonneg_left hsign (lt_of_le_of_ne (toRat_nonpos hneg) hne)
      have heq : x = { infinity with negative := true } := eq_of_magnitude hneg hm
      rw [heq]
      exact .below (by rw [le_neg, ← abs_of_nonpos hneg']; exact hoverflow.mp hge)

/-- The double nearest to a quotient, with a sign, is the quotient with that sign rounded. -/
theorem rounds_nearest (num : Nat) {den : Nat} (hden : 0 < den) (negative : Bool) :
    Rounds ((if negative = true then -1 else 1) * (num / den)) { nearest num den with negative := negative } := by
  have hpos : (0 : ℚ) ≤ num / den := by positivity
  obtain ⟨m, hm⟩ := exists_closest hpos
  refine rounds_of_closest ?_ (nearest_of_closest hden hm) ?_
  · rw [abs_mul, abs_of_nonneg hpos]
    cases negative <;> simpa using hm
  · rw [toRat]
    cases negative with
    | false =>
      simp only [Bool.false_eq_true, if_false, one_mul]
      positivity
    | true =>
      simp only [if_true, neg_one_mul, neg_mul_neg]
      positivity

/-- A finite double is its own value rounded. -/
theorem rounds_toRat (hx : x.isFinite = true) : Rounds x.toRat x := by
  have hclosest := closest_unitsAt x.magnitude
  rw [← abs_toRat] at hclosest
  have hlt : x.magnitude < infinityMagnitude := by simpa [isFinite] using hx
  exact rounds_of_closest hclosest (Nat.min_eq_left (Nat.le_of_lt hlt)).symm (mul_self_nonneg _)

theorem overflow_pos : 0 < overflow := by
  obtain ⟨b, hb, -, -, hoverflow⟩ := exists_halfStep
  refine pos_of_mul_pos_left ?_ (show (0 : ℚ) ≤ 2 ^ 1074 by positivity)
  rw [hoverflow]
  positivity

/-- Every magnitude is that of a double with the sign of a number. -/
theorem exists_signed (q : ℚ) (hm : m ≤ infinityMagnitude) : ∃ z : Double, z.magnitude = m ∧ 0 ≤ q * z.toRat := by
  have hlt : m < 2 ^ 63 := Nat.lt_of_le_of_lt hm (by decide)
  rcases le_total 0 q with hq | hq
  · exact ⟨⟨false, m, hlt⟩, rfl, mul_nonneg hq (toRat_nonneg rfl)⟩
  · exact ⟨⟨true, m, hlt⟩, rfl, mul_nonneg_of_nonpos_of_nonpos hq (toRat_nonpos rfl)⟩

/-- What a number is rounded to has the magnitude of the nearest point of the grid and the sign of the number. -/
theorem Rounds.exists_closest (h : Rounds q x) :
    ∃ m, Closest (|q| * 2 ^ 1074) m ∧ x.magnitude = min m infinityMagnitude ∧ 0 ≤ q * x.toRat := by
  have hunit : (0 : ℚ) < 2 ^ 1074 := by positivity
  obtain ⟨m, hm⟩ := Double.exists_closest (abs_nonneg q)
  have hoverflow : infinityMagnitude ≤ m ↔ overflow ≤ |q| := by
    rw [hm.infinity_le_iff, mul_le_mul_iff_left₀ hunit]
  refine ⟨m, hm, ?_⟩
  cases h with
  | above hle =>
    have hbeyond : infinityMagnitude ≤ m := hoverflow.mpr (hle.trans (le_abs_self q))
    exact ⟨(Nat.min_eq_right hbeyond).symm, mul_nonneg (overflow_pos.le.trans hle) (toRat_nonneg rfl)⟩
  | below hle =>
    have hbeyond : infinityMagnitude ≤ m := hoverflow.mpr ((le_neg.mp hle).trans (neg_le_abs q))
    have hq : q ≤ 0 := hle.trans (neg_nonpos.mpr overflow_pos.le)
    exact ⟨(Nat.min_eq_right hbeyond).symm, mul_nonneg_of_nonpos_of_nonpos hq (toRat_nonpos rfl)⟩
  | finite hx hbound hnear heven =>
    have hlt : m < infinityMagnitude := Nat.lt_of_not_le (mt hoverflow.mp (not_le.mpr hbound))
    obtain ⟨z, rfl, hsign⟩ := exists_signed q (Nat.le_of_lt hlt)
    rw [Nat.min_eq_left (Nat.le_of_lt hlt)]
    have hz : z.isFinite = true := by simpa [isFinite] using hlt
    -- The number is as near to the double as to that of the nearest point.
    have hle : |q - x.toRat| * 2 ^ 1074 ≤ |(|q| * 2 ^ 1074 - unitsAt z.magnitude)| := by
      rw [abs_sub_unitsAt_eq hsign]
      exact mul_le_mul_of_nonneg_right (hnear z hz) hunit.le
    have hdist : |q - x.toRat| = |q - z.toRat| := by
      refine mul_right_cancel₀ hunit.ne' ?_
      rw [← abs_sub_unitsAt_eq hsign]
      exact le_antisymm hle ((hm.le x.magnitude).trans (abs_sub_unitsAt_le q x))
    have hmagnitude : x.magnitude = z.magnitude := by
      by_contra hne
      have hparity := heven z hz (fun heq => hne (abs_toRat_eq_iff.mp (by rw [heq]))) hdist.symm
      have hclosest : Closest (|q| * 2 ^ 1074) x.magnitude :=
        ⟨fun k => (abs_sub_unitsAt_le q x).trans (hle.trans (hm.le k)), fun _ _ _ => hparity⟩
      exact hne (hclosest.eq hm)
    refine ⟨hmagnitude, ?_⟩
    by_cases hsame : x.toRat = z.toRat
    · rwa [hsame]
    · rw [eq_zero_of_opposite hmagnitude hsame hdist, zero_mul]

/-- Doubles of the same value are the same. -/
theorem same_of_toRat_eq (hx : x.magnitude ≤ infinityMagnitude) (h : x.toRat = y.toRat) : x.same y = true := by
  have hmagnitude : x.magnitude = y.magnitude := abs_toRat_eq_iff.mp (by rw [h])
  have hsign : x.negative = y.negative ∨ y.magnitude = 0 := by
    cases hxneg : x.negative <;> cases hyneg : y.negative
    · exact .inl rfl
    · exact .inr (toRat_eq_zero_iff.mp (le_antisymm (toRat_nonpos hyneg) (h ▸ toRat_nonneg hxneg)))
    · exact .inr (toRat_eq_zero_iff.mp (le_antisymm (h ▸ toRat_nonpos hxneg) (toRat_nonneg hyneg)))
    · exact .inl rfl
  unfold same isNaN
  rw [hmagnitude] at hx ⊢
  simpa [Nat.not_lt.mpr hx] using hsign

/-- A number is rounded to one double only, but for the sign of a zero. -/
theorem Rounds.same (hx : Rounds q x) (hy : Rounds q y) : x.same y = true := by
  obtain ⟨m, hm, hxm, hxq⟩ := hx.exists_closest
  obtain ⟨k, hk, hyk, hyq⟩ := hy.exists_closest
  obtain rfl := hm.eq hk
  have hle : x.magnitude ≤ infinityMagnitude := by
    rw [hxm]
    exact Nat.min_le_right _ _
  refine same_of_toRat_eq hle ?_
  rcases abs_eq_abs.mp (abs_toRat_eq_iff.mpr (hxm.trans hyk.symm)) with heq | hopposite
  · exact heq
  -- Opposite doubles are both nearest to zero alone, and then they are zeros.
  have hzero : q = 0 ∨ x.toRat = 0 := by
    rw [← mul_eq_zero]
    refine le_antisymm ?_ hxq
    rw [hopposite, mul_neg, neg_nonpos]
    exact hyq
  have hx0 : x.toRat = 0 := by
    rcases hzero with rfl | hx0
    · rw [abs_zero, zero_mul] at hm
      rw [toRat_eq_zero_iff, hxm, hm.eq (by exact_mod_cast closest_unitsAt 0)]
      exact Nat.zero_min _
    · exact hx0
  rw [hx0] at hopposite ⊢
  exact (neg_eq_zero.mp hopposite.symm).symm

/-- The doubles that a number is rounded to are those that are the same as one of them. -/
theorem Rounds.iff_same (h : Rounds q x) : Rounds q y ↔ y.same x = true := by
  constructor
  · intro hy
    exact hy.same h
  · intro hsame
    obtain ⟨m, hm, hxm, hxq⟩ := h.exists_closest
    simp only [Double.same, Bool.and_eq_true, Bool.or_eq_true, beq_iff_eq] at hsame
    rcases hsame.2 with ⟨hsign, hmagnitude⟩ | ⟨hzero, hzero'⟩
    · rwa [eq_of_magnitude hsign hmagnitude]
    · refine rounds_of_closest hm (by rw [hzero, ← hzero', hxm]) ?_
      rw [toRat_eq_zero_iff.mpr hzero, mul_zero]

end Double

end Scriptlet
