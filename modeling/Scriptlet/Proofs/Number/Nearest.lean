import Scriptlet.Proofs.Number.Whole

/-!
# Quotients close to a double

A quotient is rounded to the same double whatever factor its two parts have in common. A quotient that differs from a double
by no more than one part in 2 * 10 ^ 16 is rounded to that double.
-/

namespace Scriptlet

/-! ## Rounded quotients -/

/-- A quotient less than a half away from a whole number is rounded to it. -/
theorem roundDiv_eq {num den r : Nat} (hlow : 2 * (r * den) < 2 * num + den) (hhigh : 2 * num < 2 * (r * den) + den) :
    roundDiv num den = r := by
  have hmod := Nat.div_add_mod num den
  rw [Nat.mul_comm] at hmod
  by_cases hle : r * den ≤ num
  · have hq : num / den = r := Nat.div_eq_of_lt_le hle (by rw [Nat.add_mul]; omega)
    rw [hq] at hmod
    rw [roundDiv, hq, if_pos (by omega)]
  · cases r with
    | zero => omega
    | succ r =>
      rw [Nat.add_mul] at hlow hhigh hle
      have hq : num / den = r := Nat.div_eq_of_lt_le (by omega) (by rw [Nat.add_mul]; omega)
      rw [hq] at hmod
      rw [roundDiv, hq, if_neg (by omega), if_pos (by omega)]

theorem roundDiv_mul_mul (num den : Nat) {k : Nat} (hk : 0 < k) : roundDiv (num * k) (den * k) = roundDiv num den := by
  have hlt : ∀ a b, a * k < b * k ↔ a < b := fun a b => Nat.mul_lt_mul_right hk
  simp only [roundDiv, Nat.mul_div_mul_right _ _ hk, Nat.mul_mod_mul_right, ← Nat.mul_assoc, hlt]

namespace Double

/-! ## Rounding to a double -/

/-- A factor in common makes no difference. -/
theorem nearest_mul_mul (num den : Nat) {k : Nat} (hk : 0 < k) : nearest (num * k) (den * k) = nearest num den := by
  have htotal : num * k * 2 ^ 1074 = num * 2 ^ 1074 * k := Nat.mul_right_comm ..
  refine eq_of_magnitude rfl ?_
  simp only [nearest]
  rw [htotal, Nat.mul_div_mul_right _ _ hk, Nat.mul_right_comm den, roundDiv_mul_mul _ _ hk]

/-- A quotient is close to a number: they differ by no more than one part in 2 * 10 ^ 16. -/
def Close (num den n : Nat) : Prop :=
  2 * 10 ^ 16 * num ≤ (2 * 10 ^ 16 + 1) * (n * den) ∧ (2 * 10 ^ 16 - 1) * (n * den) ≤ 2 * 10 ^ 16 * num

/-- A quotient close to a number of at most 53 bits and its scale is less than half a step away from it. -/
theorem Close.half {num den r s : Nat} (h : Close num den (r * 2 ^ s)) (hden : 0 < den) (hr : r ≤ 2 ^ 53) :
    2 * (r * (den * 2 ^ s)) < 2 * num + den * 2 ^ s ∧ 2 * num < 2 * (r * (den * 2 ^ s)) + den * 2 ^ s := by
  have hstep : 0 < den * 2 ^ s := Nat.mul_pos hden (Nat.two_pow_pos s)
  have hle : r * (den * 2 ^ s) ≤ 2 ^ 53 * (den * 2 ^ s) := Nat.mul_le_mul_right _ hr
  have heq : r * 2 ^ s * den = r * (den * 2 ^ s) := by rw [Nat.mul_assoc, Nat.mul_comm (2 ^ s)]
  rw [Close, heq] at h
  omega

/-- A quotient close to a finite double is rounded to it. -/
theorem nearest_of_close {x : Double} {num den : Nat} (hfinite : x.isFinite = true) (hden : 0 < den)
    (h : Close (num * 2 ^ 1074) den x.units) : nearest num den = x.unsigned := by
  obtain ⟨hm, hlt, hfull⟩ := x.packed
  rw [units] at h
  generalize x.scale = s at *
  generalize x.significand = r at *
  refine eq_of_magnitude rfl ?_
  have hround : ∀ s' r', (num * 2 ^ 1074 / den).log2 - 52 = s' → roundDiv (num * 2 ^ 1074) (den * 2 ^ s') = r' →
      s' * 2 ^ 52 + r' = x.magnitude → (nearest num den).magnitude = x.magnitude := by
    intro s' r' hs hr hsum
    simp only [nearest, hs, hr, hsum]
    exact Nat.min_eq_left (Nat.le_of_lt (by simpa [isFinite] using hfinite))
  generalize num * 2 ^ 1074 = total at h hround
  have hbits : ∀ s' : Nat, 2 ^ 52 * (den * 2 ^ s') ≤ total ∨ s' = 0 → total < 2 ^ 53 * (den * 2 ^ s') →
      (total / den).log2 - 52 = s' := by
    intro s' hge hlt
    rw [Nat.mul_comm den, ← Nat.mul_assoc] at hge hlt
    refine log2_sub_eq ((Nat.div_lt_iff_lt_mul hden).mpr hlt) (hge.imp_left fun hge => ?_)
    exact (Nat.le_div_iff_mul_le hden).mpr hge
  obtain ⟨hlow, hhigh⟩ := h.half hden (Nat.le_of_lt hlt)
  by_cases hge : 2 ^ 52 * (den * 2 ^ s) ≤ total ∨ s = 0
  · refine hround s r (hbits s hge ?_) (roundDiv_eq hlow hhigh) hm.symm
    have hr : r * (den * 2 ^ s) ≤ (2 ^ 53 - 1) * (den * 2 ^ s) := Nat.mul_le_mul_right _ (by omega)
    omega
  · -- Only a power of two has quotients close to it with a bit less, and there the steps are half as wide.
    rw [not_or] at hge
    obtain ⟨s, rfl⟩ : ∃ s', s = s' + 1 := ⟨s - 1, by omega⟩
    have hr : r = 2 ^ 52 := by
      have : r * (den * 2 ^ (s + 1)) < (2 ^ 52 + 1) * (den * 2 ^ (s + 1)) := by omega
      have := Nat.lt_of_mul_lt_mul_right this
      omega
    subst hr
    have hdouble : den * 2 ^ (s + 1) = 2 * (den * 2 ^ s) := by rw [Nat.pow_succ, ← Nat.mul_assoc, Nat.mul_comm]
    have hsame : 2 ^ 52 * 2 ^ (s + 1) = 2 ^ 53 * 2 ^ s := by rw [Nat.pow_succ 2 s, Nat.mul_comm (2 ^ s), ← Nat.mul_assoc]
    rw [hsame] at h
    obtain ⟨hlow, hhigh⟩ := h.half hden (Nat.le_refl (2 ^ 53))
    refine hround s (2 ^ 53) (hbits s (.inl (by omega)) (by omega)) (roundDiv_eq hlow hhigh) (by omega)

end Double

end Scriptlet
