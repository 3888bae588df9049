import Scriptlet.Proofs.Number.Rounding
import Scriptlet.Proofs.Number.Numeral

/-!
# The fewest digits

No decimal of fewer digits than the shortest one is rounded to the same double. Rounding keeps the order, so what is rounded to
a double lies side by side: if any decimal of a grid reads back, then a neighbour of the double on that grid does. A decimal of
few digits that is not on the grid of so many digits is smaller than the first decimal of that grid.
-/

namespace Scriptlet.Decimal

variable {tie : Tie} {x : Double} {width n c : Nat}

/-! ## Numbers between a double and what is rounded to it -/

/-- The size of a finite double is rounded to the double. -/
theorem nearest_units (hfinite : x.isFinite = true) : (Double.nearest x.units (2 ^ 1074)).magnitude = x.magnitude := by
  have hclose : Double.Close (x.units * 2 ^ 1074) (2 ^ 1074) x.units := by
    unfold Double.Close
    generalize x.units * 2 ^ 1074 = size
    omega
  rw [Double.nearest_of_close hfinite (Nat.two_pow_pos 1074) hclose, x.unsigned_magnitude]

/-- A quotient not above a double and not below another that is rounded to it is rounded to it as well. -/
theorem magnitude_eq_of_le (hfinite : x.isFinite = true) {a b num den : Nat} (hb : 0 < b) (hden : 0 < den)
    (hreads : (Double.nearest num den).magnitude = x.magnitude) (hlow : num * b ≤ a * den)
    (hhigh : a * 2 ^ 1074 ≤ x.units * b) : (Double.nearest a b).magnitude = x.magnitude := by
  have hge := Double.nearest_le_nearest hden hb hlow
  have hle := Double.nearest_le_nearest hb (Nat.two_pow_pos 1074) hhigh
  rw [nearest_units hfinite] at hle
  omega

/-- A quotient not below a double and not above another that is rounded to it is rounded to it as well. -/
theorem magnitude_eq_of_ge (hfinite : x.isFinite = true) {a b num den : Nat} (hb : 0 < b) (hden : 0 < den)
    (hreads : (Double.nearest num den).magnitude = x.magnitude) (hlow : x.units * b ≤ a * 2 ^ 1074)
    (hhigh : a * den ≤ num * b) : (Double.nearest a b).magnitude = x.magnitude := by
  have hge := Double.nearest_le_nearest (Nat.two_pow_pos 1074) hb hlow
  have hle := Double.nearest_le_nearest hb hden hhigh
  rw [nearest_units hfinite] at hge
  omega

/-! ## Decimals on a grid -/

/-- The lower neighbour of a double is not above it. -/
theorem lower_mul_step_le (x : Double) (width n : Nat) :
    lower x width n * step width n * 2 ^ 1074 ≤ x.units * 10 ^ places :=
  calc lower x width n * step width n * 2 ^ 1074 ≤ scaled x * 2 ^ 1074 := Nat.mul_le_mul_right _ (Nat.div_mul_le_self ..)
    _ ≤ x.units * 10 ^ places := Nat.div_mul_le_self ..

/-- The upper neighbour of a double is not below it. -/
theorem le_lower_succ_mul_step (x : Double) (width n : Nat) :
    x.units * 10 ^ places ≤ (lower x width n + 1) * step width n * 2 ^ 1074 := by
  have hscaled : scaled x + 1 ≤ (lower x width n + 1) * step width n := by
    rw [Nat.mul_comm]
    exact Nat.lt_mul_div_succ (scaled x) (ten_pow_pos _)
  have hnext : x.units * 10 ^ places < (scaled x + 1) * 2 ^ 1074 := by
    rw [← Nat.div_lt_iff_lt_mul (Nat.two_pow_pos 1074)]
    exact Nat.lt_succ_self (scaled x)
  exact (le_of_lt hnext).trans (Nat.mul_le_mul_right _ hscaled)

/-- If a decimal of a grid reads back, then one of the two neighbours of the double does. -/
theorem readsBack_neighbour (hfinite : x.isFinite = true) (h : readsBack x width n c = true) :
    readsBack x width n (lower x width n) = true ∨ readsBack x width n (lower x width n + 1) = true := by
  have hplaces := ten_pow_pos places
  unfold readsBack at h ⊢
  rw [decide_eq_true_eq] at h ⊢
  rw [decide_eq_true_eq]
  have hmul : ∀ {a b}, a ≤ b → a * step width n * 10 ^ places ≤ b * step width n * 10 ^ places :=
    fun hab => Nat.mul_le_mul_right _ (Nat.mul_le_mul_right _ hab)
  rcases Nat.lt_or_ge (lower x width n) c with hlt | hge
  · exact .inr (magnitude_eq_of_ge hfinite hplaces hplaces h (le_lower_succ_mul_step x width n) (hmul hlt))
  · exact .inl (magnitude_eq_of_le hfinite hplaces hplaces h (hmul hge) (lower_mul_step_le x width n))

/-- If a decimal of few digits is rounded to a double, then a decimal on the grid of so many digits is. -/
theorem exists_readsBack (hfinite : x.isFinite = true) (hx : x.units ≠ 0) (hpos : 0 < n) (hn : n ≤ digitCount (scaled x))
    {e : Int} (hc : c < 10 ^ n) (h : (toDouble ⟨c, e⟩).magnitude = x.magnitude) :
    ∃ a, readsBack x (digitCount (scaled x)) n a = true := by
  have hscaled := @ten_pow_le_of_digitCount (scaled x) (digitCount (scaled x) - 1) (scaled_pos hx) (by omega)
  generalize digitCount (scaled x) = width at *
  by_cases hgrid : (width : Int) - n ≤ e + places
  · obtain ⟨j, hj⟩ : ∃ j, (e + places).toNat = j + (width - n) := ⟨(e + places).toNat - (width - n), by omega⟩
    refine ⟨c * 10 ^ j, ?_⟩
    rw [toDouble_eq _ (k := places) (by dsimp only; omega)] at h
    simp only [hj, Nat.pow_add, ← Nat.mul_assoc] at h
    rw [readsBack, decide_eq_true_eq]
    exact h
  · -- The first decimal of the grid stands between this one and the double.
    have hfirst : 10 ^ (n - 1) * step width n = 10 ^ (width - 1) := by
      rw [step, ← Nat.pow_add]
      congr 1
      omega
    refine ⟨10 ^ (n - 1), ?_⟩
    rw [readsBack, decide_eq_true_eq, hfirst]
    refine magnitude_eq_of_le hfinite (ten_pow_pos _) (ten_pow_pos _) h ?_ ?_
    · calc c * 10 ^ e.toNat * 10 ^ places ≤ 10 ^ n * 10 ^ e.toNat * 10 ^ places :=
            Nat.mul_le_mul_right _ (Nat.mul_le_mul_right _ (Nat.le_of_lt hc))
        _ = 10 ^ (n + e.toNat + places) := by rw [Nat.pow_add, Nat.pow_add]
        _ ≤ 10 ^ (width - 1 + (-e).toNat) := Nat.pow_le_pow_right (by decide) (by omega)
        _ = 10 ^ (width - 1) * 10 ^ (-e).toNat := Nat.pow_add ..
    · exact (Nat.mul_le_mul_right _ hscaled).trans (Nat.div_mul_le_self ..)

/-! ## The shortest decimal -/

theorem coefficient_ofSteps_lt (hpos : 0 < n) (hc : c ≤ 10 ^ n) : (ofSteps width n c).coefficient < 10 ^ n := by
  unfold ofSteps
  split
  · exact Nat.one_lt_pow (Nat.ne_of_gt hpos) (by decide)
  · next hne => exact Nat.lt_of_le_of_ne hc hne

theorem le_exponent_ofSteps (width n c : Nat) : (width : Int) - n - places ≤ (ofSteps width n c).exponent := by
  unfold ofSteps
  split
  · dsimp only
    omega
  · exact le_refl _

theorem lower_lt (hn : n ≤ digitCount (scaled x)) : lower x (digitCount (scaled x)) n < 10 ^ n := by
  have hlt := lt_ten_pow_digitCount (scaled x)
  rw [lower, step, Nat.div_lt_iff_lt_mul (ten_pow_pos _), ← Nat.pow_add]
  generalize digitCount (scaled x) = width at *
  rwa [Nat.add_sub_cancel' hn]

theorem exists_steps_le {d : Decimal} (h : ofDigits? tie x width n = some d) :
    ∃ c, d = ofSteps width n c ∧ c ≤ lower x width n + 1 := by
  unfold ofDigits? at h
  dsimp only at h
  split at h
  · cases h
    refine ⟨_, rfl, ?_⟩
    split
    · exact le_refl _
    · exact Nat.le_succ _
  · split at h
    · cases h
      exact ⟨_, rfl, le_refl _⟩
    · cases h

/-- The shortest decimal has a number of digits that no decimal of the same double falls short of, and no digit of it stands
behind the last place of a grid of so many digits. -/
theorem fewest_shortest (tie : Tie) (hfinite : x.isFinite = true) (hx : x.units ≠ 0) :
    ∃ n : Nat, (shortest tie x).coefficient < 10 ^ n ∧ (digitCount (scaled x) : Int) - n - places ≤ (shortest tie x).exponent ∧
      ∀ d : Decimal, d.toDouble.magnitude = x.magnitude → ∀ k, d.coefficient < 10 ^ k → n ≤ k := by
  obtain ⟨n, hpos, hmax, hfound, hnone⟩ := exists_shortest tie hfinite hx
  have hwidth := maxDigits_le_digitCount hx
  have hn := Nat.le_trans hmax hwidth
  obtain ⟨c, hc, hle⟩ := exists_steps_le hfound
  have hlt := lower_lt hn
  refine ⟨n, ?_, ?_, fun d hd k hk => ?_⟩
  · rw [hc]
    exact coefficient_ofSteps_lt hpos (by omega)
  · rw [hc]
    exact le_exponent_ofSteps ..
  · by_contra hfewer
    have hkpos : 0 < k := by
      refine Nat.pos_of_ne_zero fun hzero => hx ?_
      subst hzero
      rw [Double.units_eq_zero_iff, ← hd]
      exact toDouble_of_coefficient (Nat.lt_one_iff.mp hk)
    obtain ⟨a, ha⟩ := exists_readsBack hfinite hx hkpos (by omega) hk hd
    have hsome : (ofDigits? tie x (digitCount (scaled x)) k).isSome = true :=
      ofDigits?_isSome (readsBack_neighbour hfinite ha)
    rw [hnone k hkpos (by omega)] at hsome
    cases hsome

end Scriptlet.Decimal
