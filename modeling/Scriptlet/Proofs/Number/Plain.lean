import Scriptlet.Proofs.Number.Fewest
import Scriptlet.SExpr.Basic

/-!
# Numbers without a power of ten

The value of a numeral is a rational number, and the double nearest to the numeral is that number rounded. A style without
powers of ten and without a mark behind whole numbers writes a double with its sign and with no more significant digits than
any other numeral of that double has. A whole double is written in such a style as a natural number that is rounded to it, and
up to 2 ^ 53 as itself.
-/

namespace Scriptlet

/-! ## Values -/

/-- The value of a decimal. -/
def Decimal.toRat (d : Decimal) : ℚ := d.coefficient * 10 ^ d.exponent

/-- The value of a numeral. -/
def Numeral.toRat (n : Numeral) : ℚ := (if n.negative = true then -1 else 1) * n.decimal.toRat

/-- The value of a decimal as a quotient of natural numbers. -/
theorem Decimal.toRat_eq (d : Decimal) :
    d.toRat = (d.coefficient * 10 ^ d.exponent.toNat : Nat) / (10 ^ (-d.exponent).toNat : Nat) := by
  have hexp : (10 : ℚ) ^ d.exponent = 10 ^ d.exponent.toNat / 10 ^ (-d.exponent).toNat := by
    rw [← zpow_natCast, ← zpow_natCast, ← zpow_sub₀ (by norm_num)]
    congr 1
    omega
  rw [toRat, hexp]
  push_cast
  exact (mul_div_assoc ..).symm

/-- The double nearest to a numeral is its value rounded. -/
theorem Numeral.rounds_toDouble (n : Numeral) : Double.Rounds n.toRat n.toDouble := by
  rw [toRat, Decimal.toRat_eq]
  exact Double.rounds_nearest _ (Decimal.ten_pow_pos _) n.negative

/-! ## Significant digits -/

/-- The digits from the first to the last that is not zero, the last in front. -/
def significantDigits (ds : List Char) : List Char := (ds.dropWhile (· == '0')).reverse.dropWhile (· == '0')

/-- The number of significant digits. -/
def Numeral.significant (n : Numeral) : Nat := (significantDigits (n.whole ++ n.fraction.getD [])).length

theorem eq_zero_of_mem_zeros (k : Nat) : ∀ c ∈ List.replicate k '0', (c == '0') = true := by
  intro c hc
  rw [List.eq_of_mem_replicate hc]
  rfl

/-- Zeros in front of digits and behind them are not significant. -/
theorem length_significantDigits_le (a b : Nat) (ds : List Char) :
    (significantDigits (List.replicate a '0' ++ ds ++ List.replicate b '0')).length ≤ ds.length := by
  rw [significantDigits, List.append_assoc, List.dropWhile_append_of_pos (eq_zero_of_mem_zeros a), List.dropWhile_append]
  split
  · rw [List.dropWhile_replicate, if_pos (by decide)]
    exact Nat.zero_le _
  · rw [List.reverse_append, List.reverse_replicate, List.dropWhile_append_of_pos (eq_zero_of_mem_zeros b)]
    refine (List.dropWhile_suffix _).length_le.trans ?_
    rw [List.length_reverse]
    exact (List.dropWhile_suffix _).length_le

/-- Digits are zeros, the significant ones and zeros again. -/
theorem exists_significantDigits (ds : List Char) :
    ∃ a b, ds = List.replicate a '0' ++ (significantDigits ds).reverse ++ List.replicate b '0' := by
  have hzeros : ∀ cs : List Char, ∃ k, cs = List.replicate k '0' ++ cs.dropWhile (· == '0') := by
    intro cs
    refine ⟨(cs.takeWhile (· == '0')).length, ?_⟩
    have htake : cs.takeWhile (· == '0') = List.replicate (cs.takeWhile (· == '0')).length '0' := by
      refine List.eq_replicate_iff.mpr ⟨rfl, fun c hc => ?_⟩
      exact beq_iff_eq.mp (List.all_eq_true.mp List.all_takeWhile c hc)
    rw [← htake, List.takeWhile_append_dropWhile]
  obtain ⟨a, ha⟩ := hzeros ds
  obtain ⟨b, hb⟩ := hzeros (ds.dropWhile (· == '0')).reverse
  refine ⟨a, b, ?_⟩
  have hreverse := congrArg List.reverse hb
  rw [List.reverse_reverse, List.reverse_append, List.reverse_replicate] at hreverse
  rw [List.append_assoc, significantDigits, ← hreverse]
  exact ha

/-- Digits have less value than a one behind as many zeros. -/
theorem digitsValue_lt {ds : List Char} (h : ∀ c ∈ ds, Text.isDigit c = true) : Double.digitsValue ds < 10 ^ ds.length := by
  induction ds using List.reverseRecOn with
  | nil => decide
  | append_singleton ds c ih =>
    rw [List.forall_mem_append, List.forall_mem_singleton] at h
    have hfront := ih h.1
    have hlast : Double.digitsValue [c] < 10 := by
      have hdigit := h.2
      simp only [Text.isDigit, Bool.and_eq_true, decide_eq_true_eq, Char.le_def, UInt32.le_iff_toNat_le] at hdigit
      have hnine : '9'.val.toNat = 57 := rfl
      have hzero : '0'.toNat = 48 := rfl
      simp only [Double.digitsValue, List.foldl_cons, List.foldl_nil]
      have hval : c.toNat = c.val.toNat := rfl
      omega
    rw [Double.digitsValue_append, List.length_append, List.length_singleton, Nat.pow_succ]
    omega

/-- A numeral has the size of a decimal with its significant digits only. -/
theorem Numeral.exists_decimal {n : Numeral} (hdigits : ∀ c ∈ n.whole ++ n.fraction.getD [], Text.isDigit c = true) :
    ∃ d : Decimal, d.coefficient < 10 ^ n.significant ∧ d.toDouble = n.decimal.toDouble := by
  obtain ⟨a, b, hsplit⟩ := exists_significantDigits (n.whole ++ n.fraction.getD [])
  rw [decimal, significant]
  generalize n.whole ++ n.fraction.getD [] = ds at *
  have hmid : ∀ c ∈ (significantDigits ds).reverse, Text.isDigit c = true := by
    intro c hc
    refine hdigits c ?_
    rw [hsplit]
    exact List.mem_append_left _ (List.mem_append_right _ hc)
  have hvalue : Double.digitsValue ds = Double.digitsValue (significantDigits ds).reverse * 10 ^ b := by
    conv => lhs; rw [hsplit]
    rw [Double.digitsValue_append, Double.digitsValue_append, Double.digitsValue_zeros, Double.digitsValue_zeros,
      List.length_replicate, Nat.zero_mul, Nat.zero_add, Nat.add_zero]
  refine ⟨⟨Double.digitsValue (significantDigits ds).reverse, n.powerValue - (n.fraction.getD []).length + b⟩, ?_, ?_⟩
  · have hlt := digitsValue_lt hmid
    rwa [List.length_reverse] at hlt
  · rw [hvalue, ← Decimal.toDouble_shift _ b, Int.add_sub_cancel]

/-! ## Plain texts -/

/-- Zeros behind the digits of a natural number. -/
theorem toString_mul_ten_pow {c : Nat} (hc : c ≠ 0) (k : Nat) :
    (toString (c * 10 ^ k)).toList = (toString c).toList ++ List.replicate k '0' := by
  simp only [Nat.toString_eq_ofList_toDigits, String.toList_ofList]
  induction k with
  | zero => rw [Nat.pow_zero, Nat.mul_one, List.replicate_zero, List.append_nil]
  | succ k ih =>
    have hpos : 0 < c * 10 ^ k := Nat.mul_pos (Nat.pos_of_ne_zero hc) (Decimal.ten_pow_pos k)
    have hten : c * 10 ^ (k + 1) = c * 10 ^ k * 10 := by rw [Nat.pow_succ, Nat.mul_assoc]
    rw [hten, Nat.toDigits_of_base_le (by decide) (by omega), Nat.mul_div_cancel _ (by decide), Nat.mul_mod_left, ih,
      List.replicate_succ', List.append_assoc]
    rfl

/-- A text without a sign is that of a numeral without a power of ten, of the size of a decimal and with no more significant
digits than the decimal has digits. -/
structure Numeral.ShowsPlainly (n : Numeral) (text : String) (d : Decimal) : Prop where
  wellFormed : n.WellFormed
  chars_eq : text.toList = n.chars
  unsigned : n.negative = false
  power_eq : n.power = none
  toDouble_eq : n.decimal.toDouble = d.toDouble
  significant_le : n.significant ≤ (toString d.coefficient).toList.length

namespace Numeral

theorem Shows.plainly {n : Numeral} {text : String} {d : Decimal} (h : n.Shows text d) (hpower : n.power = none) {a : Nat}
    (hdigits : n.whole ++ n.fraction.getD [] = List.replicate a '0' ++ (toString d.coefficient).toList) :
    n.ShowsPlainly text d := by
  refine ⟨h.wellFormed, h.chars_eq, h.unsigned, hpower, h.toDouble_eq, ?_⟩
  have hle := length_significantDigits_le a 0 (toString d.coefficient).toList
  rwa [List.replicate_zero, List.append_nil, ← hdigits] at hle

/-- The numeral of a natural number. -/
def ofNat (n : Nat) : Numeral := ⟨false, (toString n).toList, none, none⟩

theorem wellFormed_ofNat {n : Nat} : (ofNat n).WellFormed := by
  refine ⟨isDigits_toString n, ?_, by simp [ofNat], by simp [ofNat]⟩
  by_cases hn : n = 0
  · subst hn
    exact .inl rfl
  · exact .inr (head?_toString hn)

theorem decimal_ofNat (n : Nat) : (ofNat n).decimal = ⟨n, 0⟩ := by
  refine decimal_eq ?_ rfl
  rw [ofNat, Option.getD_none, List.append_nil, Double.digitsValue_toString]

theorem toRat_ofNat (n : Nat) : (ofNat n).toRat = n := by
  rw [toRat, decimal_ofNat, Decimal.toRat]
  simp [ofNat]

theorem chars_ofNat (n : Nat) : (ofNat n).chars = (toString n).toList := by
  simp [ofNat, chars, fractionChars, powerChars]

end Numeral

namespace DecimalStyle

variable {style : DecimalStyle} {x : Double} {d : Decimal}

/-- A style without powers of ten and without a mark behind whole numbers. -/
structure IsPlain (style : DecimalStyle) : Prop where
  positional : ∀ power, style.positional power = true
  wholeMark : style.wholeMark = ""

/-- A decimal without places behind the point is written as a natural number. -/
theorem layout_natural (hplain : style.IsPlain) (hd : d.coefficient ≠ 0) (hexp : 0 ≤ d.exponent) :
    style.layout d = toString (d.coefficient * 10 ^ d.exponent.toNat) := by
  have hlength := List.length_pos_iff.mpr (isDigits_toString d.coefficient).1
  rw [← String.toList_inj, toString_mul_ten_pow hd]
  unfold layout
  dsimp only
  generalize (toString d.coefficient).toList = digits at *
  have hzeros : (digits.length + d.exponent - digits.length).toNat = d.exponent.toNat := by omega
  rw [if_pos (hplain.positional _), plain, if_neg (by omega), if_pos (by omega), hplain.wholeMark, hzeros]
  simp [zeros]

/-- A decimal is written as a numeral without a power of ten. -/
theorem showsPlainly_layout (hplain : style.IsPlain) (hd : d.coefficient ≠ 0) :
    ∃ n : Numeral, n.ShowsPlainly (style.layout d) d := by
  have hdigits := digitsOf_toString hd
  by_cases hexp : 0 ≤ d.exponent
  · refine ⟨.ofNat (d.coefficient * 10 ^ d.exponent.toNat), Numeral.wellFormed_ofNat, ?_, rfl, rfl, ?_, ?_⟩
    · rw [layout_natural hplain hd hexp, Numeral.chars_ofNat]
    · rw [Numeral.decimal_ofNat]
      have hshift := Decimal.toDouble_shift d.coefficient d.exponent.toNat d.exponent
      rwa [Int.toNat_of_nonneg hexp, Int.sub_self] at hshift
    · have hle := length_significantDigits_le 0 d.exponent.toNat (toString d.coefficient).toList
      rw [List.replicate_zero, List.nil_append, ← toString_mul_ten_pow hd] at hle
      rwa [Numeral.significant, Numeral.ofNat, Option.getD_none, List.append_nil]
  · unfold layout
    dsimp only
    rw [if_pos (hplain.positional _)]
    obtain ⟨point, hpoint⟩ : ∃ point, point = (toString d.coefficient).toList.length + d.exponent := ⟨_, rfl⟩
    rw [← hpoint]
    by_cases hle : point ≤ 0
    · refine ⟨_, (shows_plain_small hdigits hpoint hle).plainly rfl (a := (-point).toNat + 1) ?_⟩
      rw [List.replicate_succ]
      rfl
    · refine ⟨_, (shows_plain_point hdigits hpoint (by omega) (by omega)).plainly rfl (a := 0) ?_⟩
      rw [fraction_split, split, List.take_append_drop]
      rfl

/-- A double is written as a numeral without a power of ten and with the fewest significant digits that any digits of its size
have, whatever zeros and whatever power of ten there are. -/
theorem IsPlain.exists_numeral (hplain : style.IsPlain) (hfinite : x.isFinite = true) :
    ∃ n : Numeral, n.WellFormed ∧ (style.write x).toList = n.chars ∧ n.negative = x.negative ∧ n.power = none ∧
      n.toDouble = x ∧
      ∀ m : Numeral, (∀ c ∈ m.whole ++ m.fraction.getD [], Text.isDigit c = true) →
        m.decimal.toDouble.magnitude = x.magnitude → n.significant ≤ m.significant := by
  rw [write, String.toList_append]
  by_cases hzero : x.magnitude = 0
  · have hchars : ("0" ++ "").toList = (Numeral.ofNat 0).chars := rfl
    rw [if_pos hzero, hplain.wholeMark, hchars]
    refine ⟨_, (Numeral.wellFormed_ofNat (n := 0)).withSign x.negative, (Numeral.chars_withSign rfl _).symm, rfl, rfl,
      Numeral.toDouble_withSign ?_, fun m _ _ => Nat.zero_le _⟩
    rw [hzero]
    exact Decimal.toDouble_of_coefficient rfl
  · have hunits := mt Double.units_eq_zero_iff.mp hzero
    have hcoefficient := shortest_coefficient_ne_zero style.tie hfinite hzero
    obtain ⟨n, hn⟩ := showsPlainly_layout hplain hcoefficient
    rw [if_neg hzero, hn.chars_eq]
    refine ⟨_, hn.wellFormed.withSign x.negative, (Numeral.chars_withSign hn.unsigned _).symm, rfl, hn.power_eq,
      Numeral.toDouble_withSign ?_, fun m hm hreads => ?_⟩
    · rw [hn.toDouble_eq, Decimal.toDouble_shortest style.tie hfinite hunits, x.unsigned_magnitude]
    · obtain ⟨k, hk, -, hfewest⟩ := Decimal.fewest_shortest style.tie hfinite hunits
      obtain ⟨d, hd, hsame⟩ := Numeral.exists_decimal hm
      have hle := hfewest d (by rw [hsame, hreads]) m.significant hd
      have hkpos : 0 < k := by
        refine Nat.pos_of_ne_zero fun hnone => hcoefficient ?_
        subst hnone
        exact Nat.lt_one_iff.mp hk
      refine hn.significant_le.trans (le_trans ?_ hle)
      rw [Nat.toString_eq_ofList_toDigits, String.toList_ofList, Nat.length_toDigits_le_iff (by decide) hkpos]
      exact hk

end DecimalStyle

/-! ## Whole doubles -/

/-- Zeros behind a number are digits more. -/
theorem Decimal.digitCount_mul_ten_pow {n : Nat} (hn : 0 < n) (k : Nat) : digitCount (n * 10 ^ k) = digitCount n + k := by
  induction k with
  | zero => rw [Nat.pow_zero, Nat.mul_one, Nat.add_zero]
  | succ k ih =>
    have hpos : 0 < n * 10 ^ k := Nat.mul_pos hn (ten_pow_pos k)
    have hten : n * 10 ^ (k + 1) = n * 10 ^ k * 10 := by rw [Nat.pow_succ, Nat.mul_assoc]
    rw [hten, digitCount, if_neg (by omega), Nat.mul_div_cancel _ (by decide), ih, Nat.add_assoc]

theorem Double.units_ne_zero {x : Double} {k : Nat} (h : x.natural? = some k) (hk : k ≠ 0) : x.units ≠ 0 := by
  rw [(natural?_eq_some h).2]
  exact Nat.mul_ne_zero hk (Nat.ne_of_gt (Nat.two_pow_pos 1074))

/-- The shortest decimal of a whole double has no places behind the point. -/
theorem Decimal.exponent_shortest_nonneg (tie : Tie) {x : Double} {k : Nat} (h : x.natural? = some k) (hk : k ≠ 0) :
    0 ≤ (shortest tie x).exponent := by
  obtain ⟨hfinite, hunits⟩ := Double.natural?_eq_some h
  have hx := Double.units_ne_zero h hk
  have hscaled : scaled x = k * 10 ^ places := by
    rw [scaled, hunits, Nat.mul_right_comm, Nat.mul_div_cancel _ (Nat.two_pow_pos 1074)]
  obtain ⟨n, -, hexp, hfewest⟩ := fewest_shortest tie hfinite hx
  have hself : (toDouble ⟨k, 0⟩).magnitude = x.magnitude := by
    rw [← x.unsigned_magnitude, ← Double.nearest_of_natural? h]
    simp [toDouble]
  have hle := hfewest ⟨k, 0⟩ hself (digitCount k) (lt_ten_pow_digitCount k)
  rw [hscaled, digitCount_mul_ten_pow (Nat.pos_of_ne_zero hk)] at hexp
  omega

/-- A whole double without a sign is written as a natural number that is rounded to it. -/
theorem DecimalStyle.IsPlain.exists_natural {style : DecimalStyle} (hplain : style.IsPlain) {x : Double} {k : Nat}
    (h : x.natural? = some k) (hsign : x.negative = false) :
    ∃ n : Nat, style.write x = toString n ∧ Double.nearest n 1 = x := by
  obtain ⟨hfinite, hunits⟩ := Double.natural?_eq_some h
  rw [write, hsign, if_neg Bool.false_ne_true, String.empty_append]
  by_cases hzero : x.magnitude = 0
  · rw [if_pos hzero, hplain.wholeMark]
    refine ⟨0, rfl, Double.eq_of_magnitude hsign.symm ?_⟩
    rw [Double.nearest_zero, hzero]
  · have hne := mt Double.units_eq_zero_iff.mp hzero
    have hk : k ≠ 0 := by
      intro hk
      have hproduct := hne
      rw [hunits, Nat.mul_eq_zero] at hproduct
      exact hproduct (.inl hk)
    have hexp := Decimal.exponent_shortest_nonneg style.tie h hk
    have hdouble := Decimal.toDouble_shortest style.tie hfinite hne
    rw [if_neg hzero, layout_natural hplain (shortest_coefficient_ne_zero style.tie hfinite hzero) hexp]
    refine ⟨_, rfl, ?_⟩
    have hplaces : (-(Decimal.shortest style.tie x).exponent).toNat = 0 := by omega
    rw [Decimal.toDouble, hplaces, Nat.pow_zero] at hdouble
    rw [hdouble, Double.unsigned_eq_of_natural? h hk]

/-- A natural number up to 2 ^ 53 is a double. -/
theorem Double.natural?_nearest {n : Nat} (hn : n ≤ 2 ^ 53) : (nearest n 1).natural? = some n := by
  by_cases hzero : n = 0
  · subst hzero
    decide +kernel
  by_cases htop : n = 2 ^ 53
  · subst htop
    decide +kernel
  obtain ⟨hlow, hhigh⟩ := (Nat.log2_eq_iff hzero).mp rfl
  have hlog : n.log2 ≤ 52 := Nat.le_of_lt_succ ((Nat.log2_lt hzero).mpr (by omega))
  generalize n.log2 = l at *
  have hpacked : Packed (1022 + l) (n * 2 ^ (52 - l)) := by
    refine ⟨?_, .inl ?_⟩
    · calc n * 2 ^ (52 - l) < 2 ^ (l + 1) * 2 ^ (52 - l) := Nat.mul_lt_mul_of_pos_right hhigh (Nat.two_pow_pos _)
        _ = 2 ^ 53 := by rw [← Nat.pow_add, show l + 1 + (52 - l) = 53 by omega]
    · calc 2 ^ 52 = 2 ^ l * 2 ^ (52 - l) := by rw [← Nat.pow_add, show l + (52 - l) = 52 by omega]
        _ ≤ n * 2 ^ (52 - l) := Nat.mul_le_mul_right _ hlow
  have hunits : n * 2 ^ 1074 = n * 2 ^ (52 - l) * 2 ^ (1022 + l) := by
    rw [Nat.mul_assoc, ← Nat.pow_add, show 52 - l + (1022 + l) = 1074 by omega]
  have hm := nearest_magnitude hunits hpacked
  have hlt := hpacked.lt
  have hinfinity : infinityMagnitude = 2047 * 2 ^ 52 := rfl
  rw [Nat.min_eq_left (by omega)] at hm
  have hfinite : (nearest n 1).isFinite = true := by
    rw [isFinite, decide_eq_true_eq]
    omega
  rw [natural?, units_eq hm hpacked, ← hunits, if_pos ⟨hfinite, .inl rfl, Nat.mul_mod_left ..⟩,
    Nat.mul_div_cancel _ (Nat.two_pow_pos 1074)]

/-- A natural number up to 2 ^ 53 is written as itself. -/
theorem DecimalStyle.IsPlain.write_nearest {style : DecimalStyle} (hplain : style.IsPlain) {n : Nat} (hn : n ≤ 2 ^ 53) :
    style.write (.nearest n 1) = toString n := by
  by_cases htop : n = 2 ^ 53
  · -- Above 2 ^ 53 the doubles are two apart, so here the digits are not known from the double alone.
    subst htop
    have hshortest : ∀ tie, Decimal.shortest tie (.nearest (2 ^ 53) 1) = ⟨2 ^ 53, 0⟩ := by
      intro tie
      cases tie <;> decide +kernel
    have hsize : (Double.nearest (2 ^ 53) 1).magnitude ≠ 0 := by decide +kernel
    have hsign : (Double.nearest (2 ^ 53) 1).negative = false := rfl
    rw [write, if_neg hsize, hsign, hshortest, layout_natural hplain (by decide) (by decide)]
    rfl
  · obtain ⟨k, hk, hround⟩ := hplain.exists_natural (Double.natural?_nearest hn) rfl
    have hle : k ≤ 2 ^ 53 := by
      by_contra hgt
      have hup := Double.nearest_le_nearest (a := 2 ^ 53) (c := k) Nat.one_pos Nat.one_pos (by omega)
      have hdown := Double.nearest_le_nearest (a := n) (c := 2 ^ 53) Nat.one_pos Nat.one_pos (by omega)
      rw [hround] at hup
      have hsame : Double.nearest n 1 = Double.nearest (2 ^ 53) 1 :=
        Double.eq_of_magnitude rfl (Nat.le_antisymm hdown hup)
      have hvalue := Double.natural?_nearest hn
      rw [hsame, Double.natural?_nearest (le_refl _)] at hvalue
      exact htop (Option.some.inj hvalue).symm
    have hvalue := Double.natural?_nearest hle
    rw [hround, Double.natural?_nearest hn] at hvalue
    rw [hk, Option.some.inj hvalue]

end Scriptlet
