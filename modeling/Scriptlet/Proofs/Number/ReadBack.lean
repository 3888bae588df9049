import Scriptlet.Proofs.Number.Literal

/-!
# Number texts read back

The text that is written for a finite double, in JSON or as an S-expression, is a numeral that is rounded to this double. The
numeral of an S-expression keeps the sign, has no power of ten and has no more significant digits than any other decimal of the
double; for a whole double without a sign it is a run of digits, and so a literal of the double.
-/

namespace Scriptlet

namespace Double

variable {x y : Double}

theorem magnitude_eq_of_same (h : x.same y = true) : x.magnitude = y.magnitude := by
  simp only [same, Bool.and_eq_true, Bool.or_eq_true, beq_iff_eq] at h
  rcases h.2 with ⟨-, hmagnitude⟩ | ⟨hx, hy⟩
  · exact hmagnitude
  · rw [hx, hy]

/-- A finite double whose value is a natural number is that natural number. -/
theorem natural?_of_toRat {k : Nat} (hfinite : x.isFinite = true) (hsign : x.negative = false) (h : x.toRat = k) :
    x.natural? = some k := by
  rw [natural?, (toRat_eq_natCast_iff hsign).mp h, if_pos ⟨hfinite, .inl hsign, Nat.mul_mod_left ..⟩,
    Nat.mul_div_cancel _ (Nat.two_pow_pos 1074)]

theorem natural?_zero (hzero : x.magnitude = 0) : x.natural? = some 0 := by
  have hfinite : x.isFinite = true := by
    rw [isFinite, hzero]
    decide
  have hmod : ∀ j, 0 % 2 ^ j = 0 := fun j => Nat.zero_mod _
  have hdiv : ∀ j, 0 / 2 ^ j = 0 := fun j => Nat.zero_div _
  rw [natural?, units_eq_zero_iff.mpr hzero, if_pos ⟨hfinite, .inr hzero, hmod 1074⟩, hdiv 1074]

end Double

/-- A finite double is written in JSON as a numeral that is rounded to it. -/
theorem Double.exists_json_numeral {x : Double} (hx : x.isFinite = true) :
    ∃ n : Numeral, n.WellFormed ∧ x.WrittenAs (.ofList n.chars) ∧ Rounds n.toRat x := by
  by_cases hnatural : ∃ k, x.natural? = some k ∧ k < 2 ^ 64
  · obtain ⟨k, hk, hlt⟩ := hnatural
    refine ⟨.ofNat k, Numeral.wellFormed_ofNat, ?_, ?_⟩
    · rw [Numeral.chars_ofNat, String.ofList_toList]
      exact writtenAs_natural hk hlt
    · rw [Numeral.toRat_ofNat, ← toRat_of_natural? hk]
      exact rounds_toRat hx
  · have hlarge : ∀ k, x.natural? = some k → 2 ^ 64 ≤ k := fun k hk => not_lt.mp fun hlt => hnatural ⟨k, hk, hlt⟩
    obtain ⟨n, hn, hchars, -, hdouble⟩ := DecimalStyle.exists_numeral (show Json.doubleStyle.wholeMark = ".0" from rfl) hx
    refine ⟨n, hn, ?_, by rw [← hdouble]; exact n.rounds_toDouble⟩
    rw [← hchars, String.ofList_toList]
    exact writtenAs_double hx hlarge

/-- A finite double is read back from its texts. In JSON it is written as a numeral that is rounded to this double and to no
other, zero as 0 with or without a sign. As an S-expression it is written as such a numeral with its sign, without a power of
ten and with no more significant digits than any decimal has that is rounded to it, whatever zeros stand in front of the digits
of that decimal and whatever its power of ten is. If the double is a natural number and has no sign, then this text is a run of
digits, which as a source is one token and a literal of the double. -/
theorem number_reads_back (x : Double) (hx : x.isFinite = true) :
    (∃ n : Numeral, n.WellFormed ∧ x.WrittenAs (.ofList n.chars) ∧ ∀ y, Double.Rounds n.toRat y ↔ y.same x = true) ∧
    (x.magnitude = 0 → x.WrittenAs "0") ∧
    (∃ n : Numeral, n.WellFormed ∧ (Expr.number x).toSExpr.render = .ofList n.chars ∧ n.negative = x.negative ∧
      n.power = none ∧ (∀ y, Double.Rounds n.toRat y ↔ y.same x = true) ∧
      ∀ m : Numeral, (∀ c ∈ m.whole ++ m.fraction.getD [], Text.isDigit c = true) → Double.Rounds m.toRat x →
        n.significant ≤ m.significant) ∧
    (x.negative = false → ∀ k : Nat, x.toRat = k →
      Text.IsDigitRun (Expr.number x).toSExpr.render ∧ x.ReadFrom (Expr.number x).toSExpr.render) := by
  rw [SExpr.render_number hx]
  refine ⟨?_, fun hzero => ?_, ?_, fun hsign k hk => ?_⟩
  · obtain ⟨n, hn, hwritten, hrounds⟩ := Double.exists_json_numeral hx
    exact ⟨n, hn, hwritten, fun y => hrounds.iff_same⟩
  · have hwritten := Double.writtenAs_natural (Double.natural?_zero hzero) (by decide)
    exact hwritten
  · obtain ⟨n, hn, hchars, hsign, hpower, hdouble, hfewest⟩ := SExpr.isPlain_doubleStyle.exists_numeral hx
    have hrounds := n.rounds_toDouble
    rw [hdouble] at hrounds
    refine ⟨n, hn, by rw [← hchars, String.ofList_toList], hsign, hpower, fun y => hrounds.iff_same, fun m hm hmx => ?_⟩
    have hmagnitude := Double.magnitude_eq_of_same (m.rounds_toDouble.same hmx)
    exact hfewest m hm hmagnitude
  · obtain ⟨n, hwrite, hround⟩ := SExpr.isPlain_doubleStyle.exists_natural (Double.natural?_of_toRat hx hsign hk) hsign
    rw [hwrite]
    refine ⟨⟨Double.toString_ne_empty n, List.all_eq_true.mpr fun c hc => Double.isDigit_of_mem_toString hc⟩, ?_⟩
    refine Double.readFrom_of_ofDigits? ?_
    rw [Double.ofDigits?_toString, hround]

/-- The double nearest to 10 ^ 23 is another number, and 10 ^ 23 with its one digit is what it is written as. -/
theorem number_reads_back_ten_pow_23 : (Double.nearest (10 ^ 23) 1).isFinite = true ∧
    (Double.nearest (10 ^ 23) 1).toRat = 99999999999999991611392 ∧
    (∃ n : Numeral, n.WellFormed ∧ (Expr.number (.nearest (10 ^ 23) 1)).toSExpr.render = .ofList n.chars ∧
      n.power = none ∧ n.significant ≤ 1) ∧
    (Double.nearest (10 ^ 23) 1).ReadFrom (Expr.number (.nearest (10 ^ 23) 1)).toSExpr.render := by
  have hfinite : (Double.nearest (10 ^ 23) 1).isFinite = true := by decide +kernel
  have hnatural : (Double.nearest (10 ^ 23) 1).natural? = some 99999999999999991611392 := by decide +kernel
  have hvalue := Double.toRat_of_natural? hnatural
  obtain ⟨-, -, ⟨n, hn, htext, -, hpower, -, hfewest⟩, hwhole⟩ := number_reads_back (.nearest (10 ^ 23) 1) hfinite
  obtain ⟨m, hm, hmx, hdigit⟩ : ∃ m : Numeral, (∀ c ∈ m.whole ++ m.fraction.getD [], Text.isDigit c = true) ∧
      Double.Rounds m.toRat (.nearest (10 ^ 23) 1) ∧ m.significant = 1 := by
    refine ⟨⟨false, ['1'], none, some (['e'], ['2', '3'])⟩, List.forall_mem_singleton.mpr rfl, ?_, rfl⟩
    have hdouble : Numeral.toDouble ⟨false, ['1'], none, some (['e'], ['2', '3'])⟩ = .nearest (10 ^ 23) 1 := by
      decide +kernel
    rw [← hdouble]
    exact Numeral.rounds_toDouble _
  have hle := hfewest m hm hmx
  rw [hdigit] at hle
  refine ⟨hfinite, ?_, ⟨n, hn, htext, hpower, hle⟩, (hwhole rfl _ hvalue).2⟩
  rw [hvalue]
  norm_num

end Scriptlet
