import Scriptlet.Number.Decimal
import Scriptlet.Proofs.Number.Nearest

/-!
# Shortest decimals read back

The shortest decimal of a finite double other than zero is rounded to that double. What has to be shown is that the search
ends with a decimal: of the two neighbours with seventeen digits the nearer one is close enough to the double.
-/

namespace Scriptlet.Decimal

/-! ## Decimals as doubles -/

/-- The double nearest to a decimal. -/
def toDouble (d : Decimal) : Double := .nearest (d.coefficient * 10 ^ d.exponent.toNat) (10 ^ (-d.exponent).toNat)

theorem ten_pow_pos (k : Nat) : 0 < 10 ^ k := Nat.pow_pos (by decide)

/-- A decimal counted in units of a power of ten that is small enough. -/
theorem toDouble_eq (d : Decimal) {k : Nat} (hk : 0 ≤ d.exponent + k) :
    d.toDouble = .nearest (d.coefficient * 10 ^ (d.exponent + k).toNat) (10 ^ k) := by
  obtain ⟨a, hnum, hden⟩ : ∃ a, (d.exponent + k).toNat = d.exponent.toNat + a ∧ k = (-d.exponent).toNat + a :=
    ⟨k - (-d.exponent).toNat, by omega, by omega⟩
  rw [hnum, hden, Nat.pow_add, Nat.pow_add, ← Nat.mul_assoc, Double.nearest_mul_mul _ _ (ten_pow_pos a), toDouble]

/-- Zeros behind the digits of a decimal make no difference if its exponent makes up for them. -/
theorem toDouble_shift (c j : Nat) (e : Int) : toDouble ⟨c * 10 ^ j, e - j⟩ = toDouble ⟨c, e⟩ := by
  have hk : 0 ≤ e - j + ((j - e).toNat : Nat) := by omega
  have hexp : (e + ((j - e).toNat : Nat)).toNat = j + (e - j + ((j - e).toNat : Nat)).toNat := by omega
  rw [toDouble_eq ⟨c * 10 ^ j, e - j⟩ hk, toDouble_eq ⟨c, e⟩ (k := (j - e).toNat) (by dsimp only; omega)]
  dsimp only
  rw [hexp, Nat.pow_add, Nat.mul_assoc]

/-! ## Counting digits -/

theorem lt_ten_pow_digitCount (n : Nat) : n < 10 ^ digitCount n := by
  fun_induction digitCount n with
  | case1 n h => simpa using h
  | case2 n h ih =>
    rw [Nat.pow_succ]
    omega

theorem ten_pow_le_of_digitCount {n k : Nat} (hn : 0 < n) (h : digitCount n = k + 1) : 10 ^ k ≤ n := by
  induction k generalizing n with
  | zero => exact hn
  | succ k ih =>
    rw [digitCount] at h
    split at h
    · cases h
    · have := ih (n := n / 10) (by omega) (Nat.add_right_cancel h)
      rw [Nat.pow_succ]
      omega

/-! ## Steps -/

variable {tie : Tie} {x : Double} {width n c : Nat}

/-- The decimal of a number of steps is that number of steps. -/
theorem toDouble_ofSteps (hn : n ≤ width) :
    (ofSteps width n c).toDouble = .nearest (c * step width n) (10 ^ places) := by
  have hexp : ((width : Int) - n - places + places).toNat = width - n := by omega
  unfold ofSteps
  split
  · next hc =>
    rw [toDouble_eq _ (k := places) (by dsimp only; omega)]
    have hexp' : ((width : Int) - n - places + n + places).toNat = n + (width - n) := by omega
    simp only [hexp', Nat.pow_add, hc, Nat.one_mul, step]
  · rw [toDouble_eq _ (k := places) (by dsimp only; omega)]
    simp only [hexp, step]

/-- What is found reads back. -/
theorem exists_of_ofDigits? {d : Decimal} (h : ofDigits? tie x width n = some d) :
    ∃ c, d = ofSteps width n c ∧ readsBack x width n c = true := by
  unfold ofDigits? at h
  dsimp only at h
  split at h
  · next hlow =>
    cases h
    refine ⟨_, rfl, ?_⟩
    split
    · next hhigh => exact hhigh.1
    · exact hlow
  · split at h
    · next hhigh =>
      cases h
      exact ⟨_, rfl, hhigh⟩
    · cases h

/-- If one of the two neighbours reads back, something is found. -/
theorem ofDigits?_isSome
    (h : readsBack x width n (lower x width n) = true ∨ readsBack x width n (lower x width n + 1) = true) :
    (ofDigits? tie x width n).isSome = true := by
  unfold ofDigits?
  dsimp only
  split
  · rfl
  · next hlow =>
    rw [if_pos (h.resolve_left hlow)]
    rfl

/-! ## Seventeen digits -/

/-- Every finite double other than zero has seventeen digits or more in units of 10 ^ (-341). -/
theorem maxDigits_le_digitCount (hx : x.units ≠ 0) : maxDigits ≤ digitCount (scaled x) := by
  have hone : 10 ^ 17 ≤ scaled x := by
    rw [scaled, Nat.le_div_iff_mul_le (Nat.two_pow_pos 1074)]
    calc 10 ^ 17 * 2 ^ 1074 ≤ 1 * 10 ^ places := by decide +kernel
      _ ≤ x.units * 10 ^ places := Nat.mul_le_mul_right _ (Nat.pos_of_ne_zero hx)
  have hlt := Nat.lt_of_le_of_lt hone (lt_ten_pow_digitCount (scaled x))
  exact Nat.le_of_lt ((Nat.pow_lt_pow_iff_right (by decide)).mp hlt)

theorem scaled_pos (hx : x.units ≠ 0) : 0 < scaled x := by
  have hwidth := maxDigits_le_digitCount hx
  refine Nat.pos_of_ne_zero fun hzero => ?_
  rw [hzero, digitCount, if_pos (by decide)] at hwidth
  exact absurd hwidth (by decide)

/-- A step of the decimals of seventeen digits is small beside the double. -/
theorem step_le (hx : x.units ≠ 0) :
    10 ^ 16 * (step (digitCount (scaled x)) maxDigits * 2 ^ 1074) ≤ x.units * 10 ^ places := by
  obtain ⟨k, hk⟩ : ∃ k, digitCount (scaled x) = 16 + k + 1 :=
    ⟨digitCount (scaled x) - 17, by have := maxDigits_le_digitCount hx; unfold maxDigits at this; omega⟩
  have hle : 10 ^ (16 + k) ≤ scaled x := ten_pow_le_of_digitCount (scaled_pos hx) hk
  have hstep : step (digitCount (scaled x)) maxDigits = 10 ^ k := by
    rw [step, hk, maxDigits]
    congr 1
    omega
  rw [hstep, ← Nat.mul_assoc, ← Nat.pow_add]
  exact (Nat.le_div_iff_mul_le (Nat.two_pow_pos 1074)).mp hle

/-- Where a step is small beside the double, the nearer one of its two neighbours reads back. -/
theorem readsBack_lower (hfinite : x.isFinite = true)
    (hsmall : 10 ^ 16 * (step width n * 2 ^ 1074) ≤ x.units * 10 ^ places) :
    readsBack x width n (lower x width n) = true ∨ readsBack x width n (lower x width n + 1) = true := by
  have hback : ∀ c, Double.Close (c * step width n * 2 ^ 1074) (10 ^ places) x.units → readsBack x width n c = true := by
    intro c hc
    rw [readsBack, Double.nearest_of_close hfinite (ten_pow_pos _) hc]
    simp
  have hlower : lower x width n = x.units * 10 ^ places / (step width n * 2 ^ 1074) := by
    rw [lower, scaled, Nat.div_div_eq_div_mul, Nat.mul_comm (step width n)]
  have hpos : 0 < step width n * 2 ^ 1074 := Nat.mul_pos (ten_pow_pos _) (Nat.two_pow_pos 1074)
  have hmod := Nat.div_add_mod (x.units * 10 ^ places) (step width n * 2 ^ 1074)
  have hlt := Nat.mod_lt (x.units * 10 ^ places) hpos
  rw [← hlower, Nat.mul_comm] at hmod
  by_cases hhalf : 2 * (x.units * 10 ^ places % (step width n * 2 ^ 1074)) ≤ step width n * 2 ^ 1074
  · refine .inl (hback _ ?_)
    rw [Double.Close, Nat.mul_assoc (lower ..)]
    generalize step width n * 2 ^ 1074 = unit at *
    generalize x.units * 10 ^ places = size at *
    omega
  · refine .inr (hback _ ?_)
    rw [Double.Close, Nat.mul_assoc (lower .. + 1), Nat.add_mul, Nat.one_mul]
    generalize step width n * 2 ^ 1074 = unit at *
    generalize x.units * 10 ^ places = size at *
    omega

/-- What is found first among the numbers below a bound is found at a number, and nothing is found at smaller ones. -/
theorem exists_first_of_findSome?_range {α : Type} {f : Nat → Option α} {n : Nat} {a : α}
    (h : (List.range n).findSome? f = some a) : ∃ k, k < n ∧ f k = some a ∧ ∀ m, m < k → f m = none := by
  obtain ⟨before, k, after, hrange, hk, hnone⟩ := List.findSome?_eq_some_iff.mp h
  have hlength : before.length < n := by
    rw [← List.length_range (n := n), hrange, List.length_append, List.length_cons]
    omega
  have hget := congrArg (·[before.length]?) hrange
  simp only [List.getElem?_range hlength, List.getElem?_append_right (Nat.le_refl _), Nat.sub_self,
    List.getElem?_cons_zero, Option.some.injEq] at hget
  subst hget
  refine ⟨_, hlength, hk, fun m hm => hnone m ?_⟩
  have hmem := congrArg (·[m]?) hrange
  simp only [List.getElem?_range (Nat.lt_trans hm hlength), List.getElem?_append_left hm] at hmem
  exact List.mem_of_getElem? hmem.symm

/-- The search finds a decimal, and finds none with fewer digits. -/
theorem exists_shortest (tie : Tie) (hfinite : x.isFinite = true) (hx : x.units ≠ 0) :
    ∃ n, 0 < n ∧ n ≤ maxDigits ∧ ofDigits? tie x (digitCount (scaled x)) n = some (shortest tie x) ∧
      ∀ m, 0 < m → m < n → ofDigits? tie x (digitCount (scaled x)) m = none := by
  have hsome : ((List.range maxDigits).findSome? fun k => ofDigits? tie x (digitCount (scaled x)) (k + 1)).isSome := by
    rw [List.findSome?_isSome_iff]
    exact ⟨16, by decide, ofDigits?_isSome (readsBack_lower hfinite (step_le hx))⟩
  obtain ⟨d, hd⟩ := Option.isSome_iff_exists.mp hsome
  have hshortest : shortest tie x = d := by rw [shortest, hd, Option.getD_some]
  obtain ⟨k, hk, hfound, hnone⟩ := exists_first_of_findSome?_range hd
  refine ⟨k + 1, Nat.succ_pos k, hk, by rw [hshortest, hfound], fun m hpos hm => ?_⟩
  obtain ⟨m, rfl⟩ : ∃ m', m = m' + 1 := ⟨m - 1, by omega⟩
  exact hnone m (Nat.lt_of_succ_lt_succ hm)

/-- The shortest decimal of a finite double other than zero is rounded to that double. -/
theorem toDouble_shortest (tie : Tie) (hfinite : x.isFinite = true) (hx : x.units ≠ 0) :
    (shortest tie x).toDouble = x.unsigned := by
  obtain ⟨n, -, hn, hfound, -⟩ := exists_shortest tie hfinite hx
  obtain ⟨c, hc, hreads⟩ := exists_of_ofDigits? hfound
  rw [hc, toDouble_ofSteps (Nat.le_trans hn (maxDigits_le_digitCount hx))]
  refine Double.eq_of_magnitude rfl ?_
  simpa [readsBack] using hreads

end Scriptlet.Decimal
