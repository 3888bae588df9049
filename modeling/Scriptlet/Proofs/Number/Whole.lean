import Scriptlet.Number.Double

/-!
# Whole doubles

The doubles that digits write are the whole ones and infinity: a run of digits is read as a whole double or as infinity, and
each of these is read back from the digits of its own value.
-/

namespace Scriptlet

/-! ## Rounding -/

/-- A quotient without a rest is not rounded. -/
theorem roundDiv_mul (r : Nat) {d : Nat} (hd : 0 < d) : roundDiv (r * d) d = r := by
  simp [roundDiv, Nat.mul_div_cancel r hd, Nat.mul_mod_left, hd]

/-- Rounding adds one at most. -/
theorem roundDiv_bounds (num den : Nat) : num / den ≤ roundDiv num den ∧ roundDiv num den ≤ num / den + 1 := by
  unfold roundDiv
  dsimp only
  split
  · omega
  split
  · omega
  · omega

namespace Double

/-- Positive infinity. -/
def infinity : Double := ⟨false, infinityMagnitude, by decide⟩

/-- A double without its sign. -/
def unsigned (x : Double) : Double := { x with negative := false }

@[simp] theorem unsigned_negative (x : Double) : x.unsigned.negative = false := rfl
@[simp] theorem unsigned_magnitude (x : Double) : x.unsigned.magnitude = x.magnitude := rfl
@[simp] theorem unsigned_isNaN (x : Double) : x.unsigned.isNaN = x.isNaN := rfl

/-! ## Magnitudes as significands and scales -/

/-- A significand and its scale as they make up a magnitude: 53 bits, or fewer only where nothing is shifted. -/
structure Packed (scale significand : Nat) : Prop where
  lt : significand < 2 ^ 53
  full : 2 ^ 52 ≤ significand ∨ scale = 0

/-- The magnitude of a double is packed. -/
theorem packed (x : Double) :
    x.magnitude = x.scale * 2 ^ 52 + x.significand ∧ Packed x.scale x.significand := by
  have hlt : x.magnitude % 2 ^ 52 < 2 ^ 52 := Nat.mod_lt _ (by decide)
  have hdiv := Nat.div_add_mod x.magnitude (2 ^ 52)
  unfold scale significand
  split
  · next h =>
    rw [h] at hdiv ⊢
    exact ⟨by omega, by omega, .inr rfl⟩
  · exact ⟨by omega, by omega, .inl (by omega)⟩

/-- A magnitude is unpacked as it was packed. -/
theorem units_eq {x : Double} {s r : Nat} (hm : x.magnitude = s * 2 ^ 52 + r) (h : Packed s r) : x.units = r * 2 ^ s := by
  obtain ⟨hlt, hfull⟩ := h
  by_cases hr : 2 ^ 52 ≤ r
  · have hdiv : x.magnitude / 2 ^ 52 = s + 1 := by omega
    have hmod : x.magnitude % 2 ^ 52 = r - 2 ^ 52 := by omega
    have hsig : x.significand = r := by
      rw [significand, hdiv, hmod, if_neg (Nat.succ_ne_zero s)]
      omega
    rw [units, hsig, scale, hdiv, Nat.add_sub_cancel]
  · have hs : s = 0 := hfull.resolve_left hr
    subst hs
    have hdiv : x.magnitude / 2 ^ 52 = 0 := by omega
    have hmod : x.magnitude % 2 ^ 52 = r := by omega
    rw [units, significand, scale, hdiv, hmod, if_pos rfl]

/-- The scale of a number of 53 bits and as many more as the scale says, or of fewer bits and no scale. -/
theorem log2_sub_eq {q s : Nat} (hlt : q < 2 ^ 53 * 2 ^ s) (hge : 2 ^ 52 * 2 ^ s ≤ q ∨ s = 0) : q.log2 - 52 = s := by
  rcases hge with hge | rfl
  · have hne : q ≠ 0 := Nat.ne_of_gt (Nat.lt_of_lt_of_le (Nat.mul_pos (by decide) (Nat.two_pow_pos s)) hge)
    have hlog : q.log2 = 52 + s := by
      rw [Nat.log2_eq_iff hne, Nat.pow_add, show 52 + s + 1 = 53 + s by omega, Nat.pow_add]
      exact ⟨hge, hlt⟩
    omega
  · have hle : q.log2 ≤ 52 := by
      by_cases hzero : q = 0
      · simp [hzero]
      · exact Nat.le_of_lt_succ ((Nat.log2_lt hzero).mpr (by omega))
    omega

/-- A quotient that can be packed without rounding is. -/
theorem nearest_magnitude {n s r : Nat} (htotal : n * 2 ^ 1074 = r * 2 ^ s) (h : Packed s r) :
    (nearest n 1).magnitude = min (s * 2 ^ 52 + r) infinityMagnitude := by
  obtain ⟨hlt, hfull⟩ := h
  have hscale : (r * 2 ^ s).log2 - 52 = s :=
    log2_sub_eq (Nat.mul_lt_mul_of_pos_right hlt (Nat.two_pow_pos s)) (hfull.imp_left (Nat.mul_le_mul_right _))
  simp only [nearest]
  rw [Nat.div_one, htotal, hscale, Nat.one_mul, roundDiv_mul r (Nat.two_pow_pos s)]

/-! ## Whole doubles -/

/-- A double that is a natural number, or infinity. -/
def IsWhole (x : Double) : Prop := x.natural? ≠ none ∨ x = infinity

/-- The value of a whole double; infinity has one beyond all others. -/
def value (x : Double) : Nat := x.natural?.getD (2 ^ 1024)

/-- What is a natural number has as many units as that number. -/
theorem natural?_eq_some {x : Double} {n : Nat} (h : x.natural? = some n) :
    x.isFinite = true ∧ x.units = n * 2 ^ 1074 := by
  unfold natural? at h
  split at h
  · next hx =>
    cases h
    exact ⟨hx.1, (Nat.div_mul_cancel (Nat.dvd_of_mod_eq_zero hx.2.2)).symm⟩
  · cases h

/-- A finite double without a sign is a natural number if its units are whole ones. -/
theorem natural?_ne_none {x : Double} (hfinite : x.isFinite = true) (hsign : x.negative = false)
    (hunits : 2 ^ 1074 ∣ x.units) : x.natural? ≠ none := by
  rw [natural?, if_pos ⟨hfinite, .inl hsign, Nat.mod_eq_zero_of_dvd hunits⟩]
  nofun

/-- Doubles are known by their sign and their magnitude. -/
theorem eq_of_magnitude {x y : Double} (hsign : x.negative = y.negative) (hm : x.magnitude = y.magnitude) : x = y := by
  cases x
  cases y
  cases hsign
  cases hm
  rfl

/-- A natural number that is a double is read as that double. -/
theorem nearest_of_natural? {x : Double} {n : Nat} (h : x.natural? = some n) : nearest n 1 = x.unsigned := by
  obtain ⟨hfinite, hunits⟩ := natural?_eq_some h
  obtain ⟨hm, hpacked⟩ := x.packed
  refine eq_of_magnitude rfl ?_
  rw [nearest_magnitude hunits.symm hpacked, ← hm]
  exact Nat.min_eq_left (Nat.le_of_lt (by simpa [isFinite] using hfinite))

/-- A natural number other than zero has no sign. -/
theorem unsigned_eq_of_natural? {x : Double} {n : Nat} (h : x.natural? = some n) (hn : n ≠ 0) : x.unsigned = x := by
  obtain ⟨-, hunits⟩ := natural?_eq_some h
  unfold natural? at h
  split at h
  · next hx =>
    rcases hx.2.1 with hsign | hzero
    · exact eq_of_magnitude hsign.symm rfl
    · have hzero' : x.units = 0 := by simp [units, significand, hzero]
      rw [hunits, Nat.mul_eq_zero] at hzero'
      exact absurd (hzero'.resolve_right (Nat.ne_of_gt (Nat.two_pow_pos 1074))) hn
  · cases h

/-- Rounding keeps a multiple of a power of two one: either no bit of the significand is lost, or the scale is above it. -/
theorem exists_packed {bits total : Nat} (hbits : 52 ≤ bits) (hdvd : 2 ^ bits ∣ total) :
    ∃ s r, (total.log2 - 52) * 2 ^ 52 + roundDiv total (2 ^ (total.log2 - 52)) = s * 2 ^ 52 + r ∧ Packed s r ∧
      2 ^ bits ∣ r * 2 ^ s := by
  by_cases hne : total = 0
  · subst hne
    refine ⟨0, 0, by decide, ⟨by decide, .inr rfl⟩, ?_⟩
    rw [Nat.zero_mul]
    exact Nat.dvd_zero _
  have hlog : bits ≤ total.log2 := (Nat.le_log2 hne).mpr (Nat.le_of_dvd (Nat.pos_of_ne_zero hne) hdvd)
  obtain ⟨s, hs⟩ : ∃ s, total.log2 = 52 + s := ⟨total.log2 - 52, by omega⟩
  obtain ⟨hlow, hhigh⟩ := (Nat.log2_eq_iff hne).mp hs
  rw [hs, Nat.add_sub_cancel_left]
  have hq : 2 ^ 52 ≤ total / 2 ^ s ∧ total / 2 ^ s < 2 ^ 53 := by
    rw [Nat.le_div_iff_mul_le (Nat.two_pow_pos s), Nat.div_lt_iff_lt_mul (Nat.two_pow_pos s), ← Nat.pow_add, ← Nat.pow_add]
    exact ⟨hlow, by rwa [show 53 + s = 52 + s + 1 by omega]⟩
  by_cases hle : s ≤ bits
  · have hexact : total / 2 ^ s * 2 ^ s = total := Nat.div_mul_cancel (Nat.dvd_trans (Nat.pow_dvd_pow 2 hle) hdvd)
    refine ⟨s, total / 2 ^ s, ?_, ⟨hq.2, .inl hq.1⟩, by rwa [hexact]⟩
    conv => lhs; rw [← hexact, roundDiv_mul _ (Nat.two_pow_pos s)]
  · obtain ⟨hge, hr⟩ := roundDiv_bounds total (2 ^ s)
    by_cases hlt : roundDiv total (2 ^ s) < 2 ^ 53
    · refine ⟨s, _, rfl, ⟨hlt, .inl (by omega)⟩, Nat.dvd_mul_left_of_dvd (Nat.pow_dvd_pow 2 (by omega)) _⟩
    · refine ⟨s + 1, 2 ^ 52, by omega, ⟨by decide, .inl (Nat.le_refl _)⟩, ?_⟩
      exact Nat.dvd_mul_left_of_dvd (Nat.pow_dvd_pow 2 (by omega)) _

/-- A natural number is read as a whole double. -/
theorem isWhole_nearest (n : Nat) : IsWhole (nearest n 1) := by
  by_cases hfinite : (nearest n 1).isFinite = true
  · left
    refine natural?_ne_none hfinite rfl ?_
    obtain ⟨s, r, heq, hpacked, hdvd⟩ := exists_packed (by decide) (Nat.dvd_mul_left (2 ^ 1074) n)
    have hm : (nearest n 1).magnitude = min (s * 2 ^ 52 + r) infinityMagnitude := by
      rw [← heq]
      simp only [nearest, Nat.div_one, Nat.one_mul]
    have hlt : (nearest n 1).magnitude < infinityMagnitude := by simpa [isFinite] using hfinite
    rw [units_eq (hm.trans (Nat.min_eq_left (by omega))) hpacked]
    exact hdvd
  · right
    refine eq_of_magnitude rfl ?_
    have hle : (nearest n 1).magnitude ≤ infinityMagnitude := Nat.min_le_right _ _
    have hge : infinityMagnitude ≤ (nearest n 1).magnitude := by simpa [isFinite] using hfinite
    exact Nat.le_antisymm hle hge

/-- A natural number beyond all doubles is read as infinity. -/
theorem nearest_two_pow_1024 : nearest (2 ^ 1024) 1 = infinity := by
  refine eq_of_magnitude rfl ?_
  have htotal : ∀ a b c d : Nat, a + b = c + d → 2 ^ a * 2 ^ b = 2 ^ c * 2 ^ d := by
    intro a b c d h
    rw [← Nat.pow_add, ← Nat.pow_add, h]
  rw [nearest_magnitude (htotal 1024 1074 52 2046 rfl) ⟨by decide, .inl (Nat.le_refl _)⟩]
  rfl

/-! ## Digits -/

/-- The digits of the value of a whole double. -/
def digits (x : Double) : String := toString x.value

/-- A natural number is written with digits. -/
theorem isDigit_of_mem_toString {n : Nat} {c : Char} (h : c ∈ (toString n).toList) : Text.isDigit c = true := by
  rw [Nat.toString_eq_ofList_toDigits, String.toList_ofList] at h
  have := Nat.isDigit_of_mem_toDigits (by decide) (by decide) h
  simpa [Char.isDigit, Text.isDigit, Char.le_def] using this

theorem toString_ne_empty (n : Nat) : toString n ≠ "" := by
  intro h
  have := congrArg String.toList h
  rw [Nat.toString_eq_ofList_toDigits, String.toList_ofList] at this
  exact Nat.toDigits_ne_nil this

/-- The digits of a natural number are read as the double nearest to it. -/
theorem ofDigits?_toString (n : Nat) : ofDigits? (toString n) = some (nearest n 1) := by
  have hvalue : digitsValue (toString n).toList = n := by
    rw [Nat.toString_eq_ofList_toDigits, String.toList_ofList]
    exact Nat.ofDigitChars_ten_toDigits
  rw [ofDigits?, if_pos ⟨toString_ne_empty n, List.all_eq_true.mpr fun c hc => isDigit_of_mem_toString hc⟩, hvalue]

/-- A whole double is read back from its digits, without its sign. -/
theorem ofDigits?_digits {x : Double} (h : x.IsWhole) : ofDigits? x.digits = some x.unsigned := by
  rw [digits, ofDigits?_toString]
  rcases h with h | rfl
  · obtain ⟨n, hn⟩ := Option.ne_none_iff_exists'.mp h
    rw [value, hn, Option.getD_some, nearest_of_natural? hn]
  · have hnone : infinity.natural? = none := if_neg fun h => absurd h.1 (by decide)
    rw [value, hnone, Option.getD_none, nearest_two_pow_1024]
    rfl

/-- A run of digits is read as a whole double without a sign. -/
theorem isWhole_of_ofDigits? {text : String} {x : Double} (h : ofDigits? text = some x) : x.IsWhole := by
  unfold ofDigits? at h
  split at h
  · cases h
    exact isWhole_nearest _
  · cases h

end Double

end Scriptlet
