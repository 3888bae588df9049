import Scriptlet.Proofs.Grammar.Agreement
import Scriptlet.Proofs.Number.Plain
import Scriptlet.Proofs.Token.Genuine
import Scriptlet.Tree.ToJson
import Scriptlet.Tree.ToSExpr

/-!
# Number literals

A run of digits is a token and a literal by itself, and its value is the number it writes rounded to a double. In JSON a whole
double below 2 ^ 64 is written in full, a larger one with a power of ten, and infinity as null.
-/

namespace Scriptlet

/-! ## Digits as source text -/

/-- A run of digits is a token as far as the digits go. -/
theorem Stream.ofCursor_digits {ds more : List Char} (hds : IsDigits ds)
    (hstop : ∀ c ∈ more.head?, Text.isDigit c = false) (p : Position) :
    ofCursor ⟨ds ++ more, p⟩ = cons ⟨.number, .ofList ds, p⟩ (ofCursor ⟨more, p.advance ds⟩) := by
  obtain ⟨hne, hall⟩ := hds
  obtain ⟨c, cs, rfl⟩ := List.exists_cons_of_ne_nil hne
  rw [List.forall_mem_cons] at hall
  have htake : more.takeWhile Text.isDigit = [] ∧ more.dropWhile Text.isDigit = more := by
    cases more with
    | nil => exact ⟨rfl, rfl⟩
    | cons d more =>
      have hd := hstop d rfl
      simp [hd]
  have hfirst : Lexeme.first? (c :: (cs ++ more)) = _ := Lexeme.first?_digit hall.1
  rw [List.takeWhile_append_of_pos hall.2, List.dropWhile_append_of_pos hall.2, htake.1, htake.2, List.append_nil] at hfirst
  exact ofCursor_token hfirst rfl

/-- A run of digits is a token by itself; it is read as a literal of a value in front of any tokens, and so it is a statement
with a semicolon behind it. -/
structure Double.ReadFrom (digits : String) (x : Double) : Prop where
  token : tokenize digits = .ok [⟨.number, digits, .start⟩]
  literal : ∀ (stop : Option LexFault) (t : Token) (rest : List Token), t.kind = .number → t.text = digits →
    Parse.plain (Parse.literal stop (t :: rest)) = Parse.leave stop (.number x) rest
  program : Program.parse (digits ++ ";") = .ok ⟨[.eval (.number x)]⟩

namespace Double

variable {x y : Double} {digits : String}

/-- What is read as a number is a run of digits, and the number is its value rounded. -/
theorem isDigits_of_ofDigits? (h : ofDigits? digits = some x) :
    IsDigits digits.toList ∧ x = nearest (digitsValue digits.toList) 1 := by
  unfold ofDigits? at h
  split at h
  · next hrun =>
    cases h
    exact ⟨⟨mt String.toList_eq_nil_iff.mp hrun.1, List.all_eq_true.mp hrun.2⟩, rfl⟩
  · cases h

/-- Digits and a semicolon are a program of one statement. -/
theorem parse_digits (h : ofDigits? digits = some x) : Program.parse (digits ++ ";") = .ok ⟨[.eval (.number x)]⟩ := by
  have hsemicolon : ∀ c ∈ ";".toList.head?, Text.isDigit c = false := by
    rintro _ ⟨⟩
    rfl
  have hstream := Stream.ofCursor_digits (isDigits_of_ofDigits? h).1 hsemicolon .start
  have hlast := Stream.ofCursor_genuine (t := ⟨.semicolon, ";", .start⟩) (by decide +kernel)
  rw [hlast, String.ofList_toList, ← String.toList_append] at hstream
  rw [Program.parse, Stream.ofSource, Cursor.ofSource, hstream, Program.ofStream_eq_ok_iff]
  have hatom : Expr.Derives .atom [⟨.number, digits, .start⟩] (.number x) := .number rfl h
  have hwhole : Expr.Derives .whole [⟨.number, digits, .start⟩] (.number x) := hatom.loosen (Nat.zero_le _)
  exact ⟨rfl, List.cons_ne_nil _ _, .cons (.eval hwhole rfl) .nil⟩

/-- What is read as a number is read from these digits. -/
theorem readFrom_of_ofDigits? (h : ofDigits? digits = some x) : x.ReadFrom digits := by
  refine ⟨tokenize_of_ofSource_eq ?_, fun stop t rest hk htext => ?_, parse_digits h⟩
  · have hnone : ∀ c ∈ ([] : List Char).head?, Text.isDigit c = false := by simp
    have hstream := Stream.ofCursor_digits (isDigits_of_ofDigits? h).1 hnone .start
    rwa [List.append_nil, Stream.ofCursor_nil, String.ofList_toList] at hstream
  · subst htext
    exact Parse.literal_number hk h

/-- A double that is read from digits is what they are read as. -/
theorem ReadFrom.ofDigits? (h : x.ReadFrom digits) : ofDigits? digits = some x := by
  have hread := h.literal none ⟨.number, digits, .start⟩ [] rfl rfl
  simp only [Parse.literal, Parse.kind?, List.head?_cons, Option.map_some] at hread
  rw [Parse.plain_expectAs, Parse.expect_complete (t := ⟨.number, digits, .start⟩) rfl, Parse.leave_none, Parse.leave_none,
    Parse.andThen_ok] at hread
  cases hdigits : Double.ofDigits? digits with
  | none =>
    simp only [hdigits, Option.map_none] at hread
    cases hread
  | some y =>
    simp only [hdigits, Option.map_some] at hread
    cases hread
    rfl

/-! ## Natural numbers -/

/-- A natural number is rounded to the nearest double. -/
theorem rounds_natural (n : Nat) : Rounds n (nearest n 1) := by
  have h := rounds_nearest n Nat.one_pos false
  rw [if_neg Bool.false_ne_true, one_mul, Nat.cast_one, div_one] at h
  exact h

/-- What is rounded to infinity. -/
theorem Rounds.eq_infinity_iff {q : ℚ} (h : Rounds q x) : x = infinity ↔ overflow ≤ q := by
  cases h with
  | finite hfinite hbound _ _ =>
    refine ⟨fun heq => ?_, fun hle => absurd (hle.trans (le_abs_self q)) (not_le.mpr hbound)⟩
    rw [heq] at hfinite
    exact absurd hfinite (by decide)
  | above hle => exact ⟨fun _ => hle, fun _ => rfl⟩
  | below hle =>
    refine ⟨fun heq => absurd (congrArg negative heq) (by decide), fun hge => ?_⟩
    have := overflow_pos
    linarith

theorem div_two_pow_eq_iff {n m j : Nat} : (n / 2 ^ j : ℚ) = m ↔ n = m * 2 ^ j := by
  rw [div_eq_iff (by positivity)]
  exact_mod_cast Iff.rfl

/-- A double without a sign is a natural number if it has as many units. -/
theorem toRat_eq_natCast_iff {k : Nat} (hsign : x.negative = false) : x.toRat = k ↔ x.units = k * 2 ^ 1074 := by
  rw [toRat, hsign, if_neg Bool.false_ne_true, one_mul]
  exact div_two_pow_eq_iff

/-- A double that is a natural number has that value. -/
theorem toRat_of_natural? {k : Nat} (h : x.natural? = some k) : x.toRat = k := by
  obtain ⟨-, hunits⟩ := natural?_eq_some h
  by_cases hk : k = 0
  · rw [hk, Nat.cast_zero, toRat_eq_zero_iff, ← units_eq_zero_iff, hunits, Nat.mul_eq_zero]
    exact .inl hk
  · have hsign := congrArg negative (unsigned_eq_of_natural? h hk)
    exact (toRat_eq_natCast_iff hsign.symm).mpr hunits

/-- The order of the doubles that digits are read as: infinity is above the finite ones. -/
def AtMost (x y : Double) : Prop := y = infinity ∨ (x.isFinite = true ∧ y.isFinite = true ∧ x.toRat ≤ y.toRat)

/-- Without signs the order of the magnitudes is the order of the doubles. -/
theorem atMost_of_magnitude (hx : x.negative = false) (hy : y.negative = false) (hle : x.magnitude ≤ y.magnitude)
    (hinfinity : y.magnitude ≤ infinityMagnitude) : x.AtMost y := by
  rcases Nat.eq_or_lt_of_le hinfinity with heq | hlt
  · exact .inl (eq_of_magnitude hy heq)
  · have hxlt : x.magnitude < infinityMagnitude := Nat.lt_of_le_of_lt hle hlt
    refine .inr ⟨by simpa [isFinite] using hxlt, by simpa [isFinite] using hlt, ?_⟩
    rw [← abs_of_nonneg (toRat_nonneg hx), ← abs_of_nonneg (toRat_nonneg hy)]
    refine le_of_mul_le_mul_right ?_ (show (0 : ℚ) < 2 ^ 1074 by positivity)
    rw [abs_toRat, abs_toRat]
    exact unitsAt_le_cast hle

/-- A larger number is not rounded to a smaller double. -/
theorem nearest_atMost {n m : Nat} (h : n ≤ m) : (nearest n 1).AtMost (nearest m 1) := by
  refine atMost_of_magnitude rfl rfl (nearest_le_nearest Nat.one_pos Nat.one_pos ?_) (Nat.min_le_right _ _)
  omega

end Double

/-! ## Numbers in JSON texts -/

/-- The text of a number literal in JSON, with some text for its value. -/
def Json.literalText (layout : Layout) (level : Nat) (value : String) : String :=
  "\x7b" ++ layout.newline (level + 1) ++ "\"type\"" ++ layout.colon ++ "\"NumericLiteral\"," ++
    layout.newline (level + 1) ++ "\"value\"" ++ layout.colon ++ value ++ layout.newline level ++ "\x7d"

/-- In all JSON texts of a literal of this double, with sorted keys or not, its value is written by this text. -/
def Double.WrittenAs (x : Double) (text : String) : Prop :=
  ∀ layout level, Json.writeAt layout level (Expr.number x).toJson = Json.literalText layout level text ∧
    Json.writeAt layout level (Expr.number x).toJson.sorted = Json.literalText layout level text

namespace Double

variable {x : Double} {s : Scalar}

/-- The keys of a literal are in order. -/
theorem sorted_literal (h : x.toJson = .scalar s) : (Expr.number x).toJson.sorted = (Expr.number x).toJson := by
  have hkeys : "type" ≤ "value" := by decide
  simp only [Expr.toJson, h, Json.node, Json.sorted, Json.sortedMembers, Json.insertMember, if_pos hkeys]

/-- A double that is written as a scalar is written so in every layout, with its keys sorted or not. -/
theorem writtenAs_of_toJson (h : x.toJson = .scalar s) : x.WrittenAs (Json.scalarText s) := by
  intro layout level
  rw [sorted_literal h, and_self, Expr.toJson, h]
  have htype : Json.quote "type" = "\"type\"" := rfl
  have hvalue : Json.quote "value" = "\"value\"" := rfl
  have hform : Json.scalarText (.text "NumericLiteral") ++ "," = "\"NumericLiteral\"," := rfl
  simp only [Json.node, Json.writeAt, Json.writeMembers, htype, hvalue, ← hform, Json.literalText, String.append_assoc]

/-- A natural number below 2^64 is written with its digits. -/
theorem writtenAs_natural {k : Nat} (h : x.natural? = some k) (hk : k < 2 ^ 64) : x.WrittenAs (toString k) := by
  refine writtenAs_of_toJson (s := .natural k) ?_
  rw [toJson, dif_pos (natural?_eq_some h).1, h]
  exact if_pos hk

/-- Any other finite double is written as a decimal. -/
theorem writtenAs_double (hfinite : x.isFinite = true) (h : ∀ k, x.natural? = some k → 2 ^ 64 ≤ k) :
    x.WrittenAs (Json.doubleStyle.write x) := by
  refine writtenAs_of_toJson (s := .double x hfinite) ?_
  rw [toJson, dif_pos hfinite]
  split
  · next k hk => exact if_neg (Nat.not_lt.mpr (h k hk))
  · rfl

/-- Infinity, and what is no number, is written as null. -/
theorem writtenAs_null (h : x.isFinite = false) : x.WrittenAs "null" := by
  refine writtenAs_of_toJson (s := .null) ?_
  rw [toJson, dif_neg (by simp [h])]

end Double

/-! ## Large whole doubles -/

/-- Scientific notation: one digit that is not zero in front of the point, and a power of ten. -/
def Numeral.IsScientific (n : Numeral) : Prop := n.whole.length = 1 ∧ n.whole ≠ ['0'] ∧ n.power ≠ none

/-- A number that is rounded to a whole double from 2 ^ 64 on has more than sixteen digits. -/
theorem Double.ten_pow_lt_of_nearest {x : Double} {k n : Nat} (h : x.natural? = some k) (hk : 2 ^ 64 ≤ k)
    (hn : (nearest n 1).magnitude = x.magnitude) : 10 ^ 16 < n := by
  by_contra hle
  have hup := nearest_le_nearest (a := 2 ^ 64) (c := k) Nat.one_pos Nat.one_pos (by omega)
  have hdown := nearest_le_nearest (a := n) (c := 10 ^ 16) Nat.one_pos Nat.one_pos (by omega)
  have hlt : (nearest (10 ^ 16) 1).magnitude < (nearest (2 ^ 64) 1).magnitude := by decide +kernel
  rw [nearest_of_natural? h, x.unsigned_magnitude] at hup
  omega

/-- A decimal is smaller than the power of ten in front of its first digit. -/
theorem Decimal.lt_length_add_exponent {d : Decimal} (hd : d.coefficient ≠ 0) (hexp : 0 ≤ d.exponent) {k : Nat}
    (h : 10 ^ k < d.coefficient * 10 ^ d.exponent.toNat) : k < (toString d.coefficient).toList.length + d.exponent := by
  have hdigits := digitsOf_toString hd
  have hbound := digitsValue_lt hdigits.isDigits.2
  rw [hdigits.value] at hbound
  have hlt : 10 ^ k < 10 ^ ((toString d.coefficient).toList.length + d.exponent.toNat) := by
    rw [Nat.pow_add]
    exact h.trans_le (Nat.mul_le_mul_right _ (Nat.le_of_lt hbound))
  have := (Nat.pow_lt_pow_iff_right (by decide)).mp hlt
  omega

/-- A decimal of more than sixteen places in front of the point is written in scientific notation. -/
theorem Json.shows_scientific {d : Decimal} (hd : d.coefficient ≠ 0)
    (hlarge : 16 < (toString d.coefficient).toList.length + d.exponent) :
    ∃ n : Numeral, n.Shows (doubleStyle.layout d) d ∧ n.IsScientific := by
  have hdigits := digitsOf_toString hd
  unfold DecimalStyle.layout
  dsimp only
  generalize (toString d.coefficient).toList = digits at *
  have hpositional : ¬doubleStyle.positional (digits.length + d.exponent - 1) = true := by
    simp only [doubleStyle, decide_eq_true_eq]
    omega
  rw [if_neg hpositional]
  refine ⟨_, DecimalStyle.shows_scientific hdigits rfl, ?_, ?_, Option.some_ne_none _⟩
  · have := List.length_pos_iff.mpr hdigits.isDigits.1
    rw [DecimalStyle.split, List.length_take]
    omega
  · intro heq
    have hhead := congrArg List.head? heq
    rw [DecimalStyle.split, List.head?_take, if_neg Nat.one_ne_zero] at hhead
    exact hdigits.noZero hhead

/-- A whole double from 2 ^ 64 on is written in scientific notation. -/
theorem Json.exists_scientific {x : Double} {k : Nat} (h : x.natural? = some k) (hk : 2 ^ 64 ≤ k)
    (hsign : x.negative = false) :
    ∃ n : Numeral, n.WellFormed ∧ n.IsScientific ∧ n.toDouble = x ∧ doubleStyle.write x = .ofList n.chars := by
  have hne : k ≠ 0 := by omega
  have hfinite := (Double.natural?_eq_some h).1
  have hzero : x.magnitude ≠ 0 := mt Double.units_eq_zero_iff.mpr (Double.units_ne_zero h hne)
  have hdouble := Decimal.toDouble_shortest doubleStyle.tie hfinite (mt Double.units_eq_zero_iff.mp hzero)
  have hexp := Decimal.exponent_shortest_nonneg doubleStyle.tie h hne
  have hplaces : (-(Decimal.shortest doubleStyle.tie x).exponent).toNat = 0 := by omega
  have hnatural := congrArg Double.magnitude hdouble
  rw [Decimal.toDouble, hplaces, Nat.pow_zero, x.unsigned_magnitude] at hnatural
  have hcoefficient := DecimalStyle.shortest_coefficient_ne_zero doubleStyle.tie hfinite hzero
  have hlarge := Decimal.lt_length_add_exponent hcoefficient hexp (Double.ten_pow_lt_of_nearest h hk hnatural)
  obtain ⟨n, hn, hscientific⟩ := Json.shows_scientific hcoefficient hlarge
  refine ⟨n, hn.wellFormed, hscientific, ?_, ?_⟩
  · refine Numeral.toDouble_eq (hn.unsigned.trans hsign.symm) ?_
    rw [hn.toDouble_eq, hdouble, x.unsigned_magnitude]
  · rw [DecimalStyle.write, hsign, if_neg Bool.false_ne_true, String.empty_append, if_neg hzero, ← hn.chars_eq,
      String.ofList_toList]

/-! ## Literals -/

theorem SExpr.isPlain_doubleStyle : doubleStyle.IsPlain := ⟨fun _ => rfl, rfl⟩

/-- In an S-expression a finite double is written in the plain style. -/
theorem SExpr.render_number {x : Double} (hfinite : x.isFinite = true) :
    (Expr.number x).toSExpr.render = doubleStyle.write x := by
  have hnumber : x.isNaN = false := by
    simp only [Double.isFinite, Double.isNaN, decide_eq_true_eq, decide_eq_false_iff_not] at hfinite ⊢
    omega
  rw [Expr.toSExpr, render, numberText, hnumber, if_neg Bool.false_ne_true, if_pos hfinite]

/-- A run of digits is a literal whose value is the number it writes, rounded to the nearest double, and infinity exactly from
half a step beyond the largest double on. A value below 2 ^ 64 is a natural number, and every JSON text has all digits of it;
from there on a JSON text has a numeral in scientific notation that is rounded to the value, and null for infinity. A number
up to 2 ^ 53 is written as itself, in JSON and as an S-expression, and the value of a larger number is not smaller. -/
theorem number_literal (digits : String) (h : Text.IsDigitRun digits) :
    ∃ r : Double, r.ReadFrom digits ∧ Double.Rounds (Double.digitsValue digits.toList) r ∧ r.negative = false ∧
      (r = .infinity ↔ Double.overflow ≤ Double.digitsValue digits.toList) ∧
      (r.isFinite = true → r.toRat < 2 ^ 64 → ∃ k : Nat, r.toRat = k ∧ r.WrittenAs (toString k)) ∧
      (r.isFinite = true → 2 ^ 64 ≤ r.toRat →
        ∃ n : Numeral, n.WellFormed ∧ n.IsScientific ∧ Double.Rounds n.toRat r ∧ r.WrittenAs (.ofList n.chars)) ∧
      (r = .infinity → r.WrittenAs "null") ∧
      (Double.digitsValue digits.toList ≤ 2 ^ 53 →
        r.WrittenAs (toString (Double.digitsValue digits.toList)) ∧
          (Expr.number r).toSExpr.render = toString (Double.digitsValue digits.toList)) ∧
      ∀ (others : String) (s : Double), s.ReadFrom others →
        Double.digitsValue digits.toList ≤ Double.digitsValue others.toList → r.AtMost s := by
  have hread : Double.ofDigits? digits = some (.nearest (Double.digitsValue digits.toList) 1) := if_pos h
  have hsome : ∀ s others, Double.ReadFrom others s → s = .nearest (Double.digitsValue others.toList) 1 :=
    fun s others hs => (Double.isDigits_of_ofDigits? hs.ofDigits?).2
  generalize Double.digitsValue digits.toList = n at *
  have hrounds := Double.rounds_natural n
  have hnatural : (Double.nearest n 1).isFinite = true →
      ∃ k, (Double.nearest n 1).natural? = some k ∧ (Double.nearest n 1).toRat = k := by
    intro hfinite
    rcases Double.isWhole_nearest n with hwhole | hinfinity
    · obtain ⟨k, hk⟩ := Option.ne_none_iff_exists'.mp hwhole
      exact ⟨k, hk, Double.toRat_of_natural? hk⟩
    · rw [hinfinity] at hfinite
      exact absurd hfinite (by decide)
  refine ⟨_, Double.readFrom_of_ofDigits? hread, hrounds, rfl, hrounds.eq_infinity_iff, fun hfinite hlt => ?_,
    fun hfinite hge => ?_, fun hinfinity => ?_, fun hn => ?_, fun others s hs hle => ?_⟩
  · obtain ⟨k, hk, hvalue⟩ := hnatural hfinite
    rw [hvalue] at hlt ⊢
    exact ⟨k, rfl, Double.writtenAs_natural hk (by exact_mod_cast hlt)⟩
  · obtain ⟨k, hk, hvalue⟩ := hnatural hfinite
    rw [hvalue] at hge
    have hlarge : 2 ^ 64 ≤ k := by exact_mod_cast hge
    obtain ⟨m, hm, hscientific, hdouble, hwrite⟩ := Json.exists_scientific hk hlarge rfl
    refine ⟨m, hm, hscientific, by rw [← hdouble]; exact m.rounds_toDouble, ?_⟩
    rw [← hwrite]
    exact Double.writtenAs_double hfinite fun j hj => by rwa [← Option.some.inj (hk.symm.trans hj)]
  · refine Double.writtenAs_null ?_
    rw [hinfinity]
    decide
  · have hk := Double.natural?_nearest hn
    refine ⟨Double.writtenAs_natural hk (by omega), ?_⟩
    rw [SExpr.render_number (Double.natural?_eq_some hk).1, SExpr.isPlain_doubleStyle.write_nearest hn]
  · rw [hsome s others hs]
    exact Double.nearest_atMost hle

/-- The last number below 2 ^ 64 is rounded up to it, so it is written in scientific notation. -/
theorem number_literal_below_two_pow_64 : Text.IsDigitRun "18446744073709551615" ∧
    ∃ r : Double, r.ReadFrom "18446744073709551615" ∧ r.toRat = 2 ^ 64 ∧
      ∃ n : Numeral, n.WellFormed ∧ n.IsScientific ∧ Double.Rounds n.toRat r ∧ r.WrittenAs (.ofList n.chars) := by
  have hrun : Text.IsDigitRun "18446744073709551615" := ⟨by decide, by decide +kernel⟩
  obtain ⟨r, hread, -, -, -, -, hlarge, -⟩ := number_literal "18446744073709551615" hrun
  have hnatural : r.natural? = some (2 ^ 64) := by
    have hdigits : Double.ofDigits? "18446744073709551615" = some (.nearest (2 ^ 64) 1) := by decide +kernel
    rw [hread.ofDigits?, Option.some.injEq] at hdigits
    rw [hdigits]
    decide +kernel
  have hvalue : r.toRat = 2 ^ 64 := by
    rw [Double.toRat_of_natural? hnatural]
    norm_num
  exact ⟨hrun, r, hread, hvalue, hlarge (Double.natural?_eq_some hnatural).1 hvalue.ge⟩

end Scriptlet
