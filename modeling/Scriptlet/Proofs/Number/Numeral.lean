import Scriptlet.Proofs.Number.Shortest

/-!
# Numerals: number texts and their parts

A number text is made of a sign, digits, a fraction and a power of ten, of which all but the digits may be missing. The parts
are known from the text, so a text stands for one number only. The text that is written for a finite double is a number text
with a fraction or a power of ten, and the double nearest to it is that double.
-/

namespace Scriptlet

/-! ## Runs of characters -/

/-- A run of characters of one class is known where none of them follows. -/
theorem append_inj_of_stop {p : Char → Bool} {as bs cs ds : List Char} (has : ∀ c ∈ as, p c = true)
    (hcs : ∀ c ∈ cs, p c = true) (hbs : ∀ c ∈ bs.head?, p c = false) (hds : ∀ c ∈ ds.head?, p c = false)
    (h : as ++ bs = cs ++ ds) : as = cs ∧ bs = ds := by
  have htake : ∀ {as bs : List Char}, (∀ c ∈ as, p c = true) → (∀ c ∈ bs.head?, p c = false) →
      (as ++ bs).takeWhile p = as := by
    intro as bs has hbs
    rw [List.takeWhile_append_of_pos has]
    cases bs with
    | nil => simp
    | cons b bs => simp [hbs b rfl]
  have heq := congrArg (List.takeWhile p) h
  rw [htake has hbs, htake hcs hds] at heq
  subst heq
  exact ⟨rfl, List.append_cancel_left h⟩

/-- What stands in front of the first place of a character is known, and what stands behind it. -/
theorem append_cons_inj_of_notMem {q : Char} {as bs cs ds : List Char} (has : q ∉ as) (hcs : q ∉ cs)
    (h : as ++ q :: bs = cs ++ q :: ds) : as = cs ∧ bs = ds := by
  have hinside : ∀ {as : List Char}, q ∉ as → ∀ c ∈ as, decide (c ≠ q) = true := by
    intro as has c hc
    exact decide_eq_true fun heq => has (heq ▸ hc)
  have hstop : ∀ bs : List Char, ∀ c ∈ (q :: bs).head?, decide (c ≠ q) = false := by
    rintro bs c ⟨⟩
    exact decide_eq_false fun hne => hne rfl
  obtain ⟨heq, hrest⟩ := append_inj_of_stop (hinside has) (hinside hcs) (hstop bs) (hstop ds) h
  exact ⟨heq, (List.cons.inj hrest).2⟩

/-! ## Digits -/

/-- A run of digits. -/
def IsDigits (ds : List Char) : Prop := ds ≠ [] ∧ ∀ c ∈ ds, Text.isDigit c = true

/-- Digits behind a run of digits make it longer. -/
theorem IsDigits.append {as bs : List Char} (has : IsDigits as) (hbs : ∀ c ∈ bs, Text.isDigit c = true) :
    IsDigits (as ++ bs) :=
  ⟨by simp [has.1], List.forall_mem_append.mpr ⟨has.2, hbs⟩⟩

/-- A natural number is written with digits. -/
theorem isDigits_toString (n : Nat) : IsDigits (toString n).toList := by
  refine ⟨fun hnil => ?_, fun c hc => Double.isDigit_of_mem_toString hc⟩
  exact Double.toString_ne_empty n (String.toList_eq_nil_iff.mp hnil)

/-- The digits of a natural number other than zero start with another digit than zero. -/
theorem head?_toString {n : Nat} (hn : n ≠ 0) : (toString n).toList.head? ≠ some '0' := by
  rw [Nat.toString_eq_ofList_toDigits, String.toList_ofList]
  induction n using Nat.strongRecOn with
  | _ n ih =>
    by_cases hlt : n < 10
    · rw [Nat.toDigits_of_lt_base hlt]
      have hdigit : ∀ n < 10, n ≠ 0 → [Nat.digitChar n].head? ≠ some '0' := by decide
      exact hdigit n hlt hn
    · have hfront := ih (n / 10) (by omega) (by omega)
      rw [Nat.toDigits_of_base_le (by decide) (by omega)]
      cases hdigits : Nat.toDigits 10 (n / 10) with
      | nil => exact absurd hdigits Nat.toDigits_ne_nil
      | cons c cs => rwa [hdigits] at hfront

namespace Double

/-- The digits of a natural number have its value. -/
theorem digitsValue_toString (n : Nat) : digitsValue (toString n).toList = n := by
  rw [Nat.toString_eq_ofList_toDigits, String.toList_ofList]
  exact Nat.ofDigitChars_ten_toDigits

/-- Digits behind others move those to the left. -/
theorem digitsValue_append (as bs : List Char) :
    digitsValue (as ++ bs) = digitsValue as * 10 ^ bs.length + digitsValue bs := by
  have h : ∀ cs init, Nat.ofDigitChars 10 cs init = 10 ^ cs.length * init + Nat.ofDigitChars 10 cs 0 :=
    fun cs init => Nat.ofDigitChars_eq_ofDigitChars_zero
  have happ : digitsValue (as ++ bs) = Nat.ofDigitChars 10 bs (digitsValue as) := List.foldl_append
  rw [happ, h, Nat.mul_comm]
  rfl

theorem digitsValue_zeros (k : Nat) : digitsValue (List.replicate k '0') = 0 := Nat.ofDigitChars_replicate_zero

end Double

/-! ## Numerals -/

/-- The parts of a number text. -/
@[ext] structure Numeral where
  /-- Whether there is a minus sign. -/
  negative : Bool
  /-- The digits in front of the point. -/
  whole : List Char
  /-- The digits behind the point, if there is one. -/
  fraction : Option (List Char)
  /-- The mark of a power of ten with its sign, and the digits of the power, if there is one. -/
  power : Option (List Char × List Char)

namespace Numeral

/-- The ways to start a power of ten. -/
def marks : List (List Char) := [['e'], ['E'], ['e', '+'], ['E', '+'], ['e', '-'], ['E', '-']]

/-- The point and the digits behind it. -/
def fractionChars (n : Numeral) : List Char := n.fraction.elim [] ('.' :: ·)

/-- The power of ten with its mark. -/
def powerChars (n : Numeral) : List Char := n.power.elim [] fun (mark, digits) => mark ++ digits

/-- The text of a numeral. -/
def chars (n : Numeral) : List Char :=
  (if n.negative then ['-'] else []) ++ (n.whole ++ (n.fractionChars ++ n.powerChars))

/-- There are digits wherever there have to be some, and no zero stands in front of other digits. -/
structure WellFormed (n : Numeral) : Prop where
  whole : IsDigits n.whole
  noZero : n.whole = ['0'] ∨ n.whole.head? ≠ some '0'
  fraction : ∀ digits ∈ n.fraction, IsDigits digits
  power : ∀ power ∈ n.power, power.1 ∈ marks ∧ IsDigits power.2

/-- The value of the power of ten. -/
def powerValue (n : Numeral) : Int :=
  n.power.elim 0 fun (mark, digits) =>
    if mark.getLast? = some '-' then -(Double.digitsValue digits : Int) else Double.digitsValue digits

/-- The size of a numeral. -/
def decimal (n : Numeral) : Decimal :=
  ⟨Double.digitsValue (n.whole ++ n.fraction.getD []), n.powerValue - (n.fraction.getD []).length⟩

/-- The double nearest to a numeral. -/
def toDouble (n : Numeral) : Double := { n.decimal.toDouble with negative := n.negative }

/-- A numeral is read as a double that has its sign and the size of its digits. -/
theorem toDouble_eq {n : Numeral} {x : Double} (hsign : n.negative = x.negative)
    (hsize : n.decimal.toDouble.magnitude = x.magnitude) : n.toDouble = x :=
  Double.eq_of_magnitude hsign hsize

/-- There is nothing but digits. -/
def IsNatural (n : Numeral) : Prop := n.negative = false ∧ n.fraction = none ∧ n.power = none

instance (n : Numeral) : Decidable n.IsNatural := inferInstanceAs (Decidable (_ ∧ _))

/-! ## The parts of a text -/

/-- A power of ten starts with its mark. -/
theorem head_powerChars {n : Numeral} (h : n.WellFormed) : ∀ c ∈ n.powerChars.head?, c = 'e' ∨ c = 'E' := by
  rw [powerChars]
  cases hp : n.power with
  | none => simp
  | some power =>
    have hmarks : ∀ mark ∈ marks, ∀ digits : List Char, ∀ c ∈ (mark ++ digits).head?, c = 'e' ∨ c = 'E' := by
      simp [marks]
    exact hmarks _ (h.power power hp).1 _

/-- Behind the whole digits stands the point or the mark of a power. -/
theorem head_fractionChars {n : Numeral} (h : n.WellFormed) :
    ∀ c ∈ (n.fractionChars ++ n.powerChars).head?, c = '.' ∨ c = 'e' ∨ c = 'E' := by
  intro c hc
  rw [fractionChars] at hc
  cases hf : n.fraction with
  | none =>
    rw [hf] at hc
    exact .inr (head_powerChars h c hc)
  | some digits =>
    rw [hf] at hc
    cases hc
    exact .inl rfl

/-- No digit stands where the power of ten starts. -/
theorem isDigit_head_powerChars {n : Numeral} (h : n.WellFormed) : ∀ c ∈ n.powerChars.head?, Text.isDigit c = false := by
  intro c hc
  rcases head_powerChars h c hc with rfl | rfl <;> rfl

/-- No digit stands behind the whole digits. -/
theorem isDigit_head_fractionChars {n : Numeral} (h : n.WellFormed) :
    ∀ c ∈ (n.fractionChars ++ n.powerChars).head?, Text.isDigit c = false := by
  intro c hc
  rcases head_fractionChars h c hc with rfl | rfl | rfl <;> rfl

variable {n m : Numeral}

/-- The power of ten is known from its text. -/
theorem power_eq_of_chars (hn : n.WellFormed) (hm : m.WellFormed) (h : n.powerChars = m.powerChars) : n.power = m.power := by
  have hmarks : ∀ mark ∈ marks, mark ≠ [] ∧ ∀ c ∈ mark, (!Text.isDigit c) = true := by
    simp [marks, Text.isDigit]
  have hhead : ∀ {digits}, IsDigits digits → ∀ c ∈ digits.head?, (!Text.isDigit c) = false := by
    intro digits hdigits c hc
    simpa using hdigits.2 c (List.mem_of_mem_head? hc)
  rw [powerChars, powerChars] at h
  cases hp : n.power with
  | none =>
    cases hq : m.power with
    | none => rfl
    | some q =>
      rw [hp, hq] at h
      exact absurd (List.append_eq_nil_iff.mp h.symm).1 (hmarks _ (hm.power q hq).1).1
  | some p =>
    obtain ⟨hmark, hdigits⟩ := hn.power p hp
    cases hq : m.power with
    | none =>
      rw [hp, hq] at h
      exact absurd (List.append_eq_nil_iff.mp h).1 (hmarks _ hmark).1
    | some q =>
      obtain ⟨hmark', hdigits'⟩ := hm.power q hq
      rw [hp, hq] at h
      obtain ⟨h₁, h₂⟩ := append_inj_of_stop (hmarks _ hmark).2 (hmarks _ hmark').2 (hhead hdigits) (hhead hdigits') h
      rw [Prod.ext h₁ h₂]

/-- The digits behind the point are known from the text behind the whole digits. -/
theorem fraction_eq_of_chars (hn : n.WellFormed) (hm : m.WellFormed)
    (h : n.fractionChars ++ n.powerChars = m.fractionChars ++ m.powerChars) :
    n.fraction = m.fraction ∧ n.powerChars = m.powerChars := by
  have hpoint : ∀ {n : Numeral} {cs}, n.WellFormed → n.powerChars ≠ '.' :: cs := by
    intro n cs hn heq
    have hhead := head_powerChars hn '.'
    rw [heq] at hhead
    simp at hhead
  rw [fractionChars, fractionChars] at h
  cases hf : n.fraction with
  | none =>
    cases hg : m.fraction with
    | none =>
      rw [hf, hg] at h
      exact ⟨rfl, h⟩
    | some ds =>
      rw [hf, hg] at h
      exact absurd h (hpoint hn)
  | some cs =>
    cases hg : m.fraction with
    | none =>
      rw [hf, hg] at h
      exact absurd h.symm (hpoint hm)
    | some ds =>
      rw [hf, hg] at h
      obtain ⟨h₁, h₂⟩ := append_inj_of_stop (hn.fraction cs hf).2 (hm.fraction ds hg).2 (isDigit_head_powerChars hn)
        (isDigit_head_powerChars hm) (List.cons.inj h).2
      rw [h₁]
      exact ⟨rfl, h₂⟩

/-- A text has only one set of parts. -/
theorem eq_of_chars (hn : n.WellFormed) (hm : m.WellFormed) (h : n.chars = m.chars) : n = m := by
  have hminus : ∀ {n : Numeral} {cs}, n.WellFormed → n.whole ++ (n.fractionChars ++ n.powerChars) ≠ '-' :: cs := by
    intro n cs hn heq
    obtain ⟨c, ds, hds⟩ := List.exists_cons_of_ne_nil hn.whole.1
    rw [hds] at heq
    obtain ⟨rfl, -⟩ := List.cons.inj heq
    have := hn.whole.2 '-' (by rw [hds]; exact List.mem_cons_self)
    cases this
  have hsign : n.negative = m.negative ∧ n.whole ++ (n.fractionChars ++ n.powerChars) =
      m.whole ++ (m.fractionChars ++ m.powerChars) := by
    rw [chars, chars] at h
    cases hneg : n.negative <;> cases hneg' : m.negative <;> rw [hneg, hneg'] at h
    · exact ⟨rfl, h⟩
    · exact absurd h (hminus hn)
    · exact absurd h.symm (hminus hm)
    · exact ⟨rfl, (List.cons.inj h).2⟩
  obtain ⟨hwhole, hrest⟩ := append_inj_of_stop hn.whole.2 hm.whole.2 (isDigit_head_fractionChars hn)
    (isDigit_head_fractionChars hm) hsign.2
  obtain ⟨hfraction, hpower⟩ := fraction_eq_of_chars hn hm hrest
  exact Numeral.ext hsign.1 hwhole hfraction (power_eq_of_chars hn hm hpower)

/-- The characters of number texts. -/
def isNumberChar (c : Char) : Bool := Text.isDigit c || c ∈ ['-', '+', '.', 'e', 'E']

/-- A numeral is written with digits, signs, the point and the letter of a power. -/
theorem isNumberChar_of_mem (hn : n.WellFormed) : ∀ c ∈ n.chars, isNumberChar c = true := by
  have hdigits : ∀ {ds}, IsDigits ds → ∀ c ∈ ds, isNumberChar c = true := by
    intro ds hds c hc
    simp [isNumberChar, hds.2 c hc]
  have hmarks : ∀ mark ∈ marks, ∀ c ∈ mark, isNumberChar c = true := by simp [marks, isNumberChar]
  have hpower : ∀ c ∈ n.powerChars, isNumberChar c = true := by
    rw [powerChars]
    cases hp : n.power with
    | none => simp
    | some power =>
      obtain ⟨hmark, hpower⟩ := hn.power power hp
      exact List.forall_mem_append.mpr ⟨hmarks _ hmark, hdigits hpower⟩
  have hfraction : ∀ c ∈ n.fractionChars, isNumberChar c = true := by
    rw [fractionChars]
    cases hf : n.fraction with
    | none => simp
    | some ds => exact List.forall_mem_cons.mpr ⟨rfl, hdigits (hn.fraction ds hf)⟩
  have hsign : ∀ c ∈ (if n.negative then ['-'] else []), isNumberChar c = true := by
    split
    · exact List.forall_mem_singleton.mpr rfl
    · simp
  rw [chars, List.forall_mem_append, List.forall_mem_append, List.forall_mem_append]
  exact ⟨hsign, hdigits hn.whole, hfraction, hpower⟩

/-- The size of a numeral is the value of its digits and the power that the point leaves. -/
theorem decimal_eq {c : Nat} {e : Int} (hvalue : Double.digitsValue (n.whole ++ n.fraction.getD []) = c)
    (hexp : n.powerValue - (n.fraction.getD []).length = e) : n.decimal = ⟨c, e⟩ := by
  rw [decimal, hvalue, hexp]

/-! ## Texts that are written -/

/-- A text without a sign is that of a numeral with more than digits, and has the size of a decimal. -/
structure Shows (n : Numeral) (text : String) (d : Decimal) : Prop where
  wellFormed : n.WellFormed
  chars_eq : text.toList = n.chars
  unsigned : n.negative = false
  not_isNatural : ¬n.IsNatural
  toDouble_eq : n.decimal.toDouble = d.toDouble

end Numeral

/-- The digits of a number other than zero. -/
structure DigitsOf (c : Nat) (digits : List Char) : Prop where
  isDigits : IsDigits digits
  noZero : digits.head? ≠ some '0'
  value : Double.digitsValue digits = c

/-- A number other than zero is written with its digits. -/
theorem digitsOf_toString {c : Nat} (hc : c ≠ 0) : DigitsOf c (toString c).toList :=
  ⟨isDigits_toString c, head?_toString hc, Double.digitsValue_toString c⟩

namespace DecimalStyle

variable {c : Nat} {e point : Int} {digits : List Char} {style : DecimalStyle}

theorem isDigit_zeros (k : Nat) : ∀ c ∈ List.replicate k '0', Text.isDigit c = true := by
  intro c hc
  rw [List.eq_of_mem_replicate hc]
  rfl

/-- A number below one: a zero, the point, zeros and the digits. -/
theorem shows_plain_small (h : DigitsOf c digits) (hpoint : point = digits.length + e) (hle : point ≤ 0) :
    Numeral.Shows ⟨false, ['0'], some (List.replicate (-point).toNat '0' ++ digits), none⟩ (style.plain digits point)
      ⟨c, e⟩ := by
  refine ⟨?_, ?_, rfl, ?_, ?_⟩
  · refine ⟨⟨by simp, by simp; rfl⟩, .inl rfl, ?_, by simp⟩
    rintro _ ⟨⟩
    exact ⟨by simp [h.isDigits.1], List.forall_mem_append.mpr ⟨isDigit_zeros _, h.isDigits.2⟩⟩
  · rw [plain, if_pos hle]
    simp [zeros, Numeral.chars, Numeral.fractionChars, Numeral.powerChars]
  · exact fun h => by cases h.2.1
  · refine congrArg Decimal.toDouble (Numeral.decimal_eq ?_ ?_)
    · simp only [Option.getD_some, Double.digitsValue_append, Double.digitsValue_zeros, h.value]
      simp [Double.digitsValue]
    · simp only [Numeral.powerValue, Option.getD_some, Option.elim_none, List.length_append, List.length_replicate]
      omega

/-- A whole number: the digits, zeros, the point and a zero. -/
theorem shows_plain_whole (hmark : style.wholeMark = ".0") (h : DigitsOf c digits) (hpoint : point = digits.length + e)
    (hle : digits.length ≤ point) : ∃ n : Numeral, n.Shows (style.plain digits point) ⟨c, e⟩ := by
  have hlength := List.length_pos_iff.mpr h.isDigits.1
  refine ⟨⟨false, digits ++ List.replicate e.toNat '0', some ['0'], none⟩, ?_, ?_, rfl, ?_, ?_⟩
  · refine ⟨h.isDigits.append (isDigit_zeros _), .inr ?_, ?_, by simp⟩
    · have hhead := h.noZero
      cases digits with
      | nil => exact absurd rfl h.isDigits.1
      | cons d ds => exact hhead
    · rintro _ ⟨⟩
      exact ⟨by simp, by simp; rfl⟩
  · have hzeros : (point - digits.length).toNat = e.toNat := by omega
    rw [plain, if_neg (by omega), if_pos hle, hmark, hzeros]
    simp [zeros, Numeral.chars, Numeral.fractionChars, Numeral.powerChars]
  · exact fun h => by cases h.2.1
  · rw [← Decimal.toDouble_shift c (e.toNat + 1) e]
    refine congrArg Decimal.toDouble (Numeral.decimal_eq ?_ ?_)
    · simp only [Option.getD_some, Double.digitsValue_append, Double.digitsValue_zeros, h.value, List.length_replicate,
        Nat.pow_succ, ← Nat.mul_assoc]
      rfl
    · simp only [Numeral.powerValue, Option.getD_some, Option.elim_none, List.length_singleton]
      omega

/-- Digits with a point behind the first `k` of them, if there are more, and perhaps a power of ten. -/
def split (digits : List Char) (k : Nat) (power : Option (List Char × List Char)) : Numeral :=
  ⟨false, digits.take k, if digits.length ≤ k then none else some (digits.drop k), power⟩

/-- The digits behind the point are those that are left, which may be none. -/
theorem fraction_split (digits : List Char) (k : Nat) (power : Option (List Char × List Char)) :
    (split digits k power).fraction.getD [] = digits.drop k := by
  rw [split]
  split
  · next hle => exact (List.drop_eq_nil_of_le hle).symm
  · rfl

/-- Digits with a point after the first `k` of them show the decimal whose power makes up for the point. -/
theorem shows_split {k : Nat} (power : Option (List Char × List Char)) {text : String} (h : DigitsOf c digits) (hk : 0 < k)
    (hpower : ∀ p ∈ power, p.1 ∈ Numeral.marks ∧ IsDigits p.2) (hmore : k < digits.length ∨ power ≠ none)
    (htext : text.toList = (split digits k power).chars)
    (hexp : (split digits k power).powerValue - (digits.length - k : Nat) = e) :
    (split digits k power).Shows text ⟨c, e⟩ := by
  refine ⟨?_, htext, rfl, ?_, ?_⟩
  · refine ⟨⟨?_, fun d hd => h.isDigits.2 d (List.mem_of_mem_take hd)⟩, .inr ?_, fun ds hds => ?_, hpower⟩
    · simp [split, Nat.ne_of_gt hk, h.isDigits.1]
    · rw [split, List.head?_take, if_neg (Nat.ne_of_gt hk)]
      exact h.noZero
    · rw [split] at hds
      split at hds
      · cases hds
      · next hlt =>
        cases hds
        exact ⟨by simpa using hlt, fun d hd => h.isDigits.2 d (List.mem_of_mem_drop hd)⟩
  · rintro ⟨-, hnone, hpower⟩
    rw [split] at hnone
    split at hnone
    · next hle => exact hmore.elim (fun hlt => by omega) (fun hne => hne hpower)
    · cases hnone
  · refine congrArg Decimal.toDouble (Numeral.decimal_eq ?_ ?_)
    · rw [fraction_split, split, List.take_append_drop, h.value]
    · rwa [fraction_split, List.length_drop]

/-- A number with a point between its digits. -/
theorem shows_plain_point (h : DigitsOf c digits) (hpoint : point = digits.length + e) (hpos : 0 < point)
    (hlt : point < digits.length) : (split digits point.toNat none).Shows (style.plain digits point) ⟨c, e⟩ := by
  refine shows_split (k := point.toNat) none h (by omega) (by simp) (.inl (by omega)) ?_ ?_
  · have hle : ¬digits.length ≤ point.toNat := by omega
    rw [plain, if_neg (by omega), if_neg (by omega), split, if_neg hle]
    simp [Numeral.chars, Numeral.fractionChars, Numeral.powerChars]
  · simp only [split, Numeral.powerValue, Option.elim_none]
    omega

/-- A number with a power of ten. -/
theorem shows_scientific {power : Int} (h : DigitsOf c digits) (hpower : power = digits.length + e - 1) :
    (split digits 1 (some (if power < 0 then ['e', '-'] else ['e', '+'], (toString power.natAbs).toList))).Shows
      (scientific digits power) ⟨c, e⟩ := by
  have hlength := List.length_pos_iff.mpr h.isDigits.1
  have hmark : (if power < 0 then ['e', '-'] else ['e', '+']) ∈ Numeral.marks := by
    split
    · decide
    · decide
  refine shows_split _ h (by decide) ?_ (.inr (by simp)) ?_ ?_
  · rintro _ ⟨⟩
    exact ⟨hmark, isDigits_toString _⟩
  · rw [scientific, split, Numeral.chars, Numeral.fractionChars, Numeral.powerChars]
    by_cases hone : digits.length ≤ 1 <;> by_cases hneg : power < 0 <;> simp [hone, hneg]
  · simp only [split, Numeral.powerValue, Option.elim_some, Double.digitsValue_toString]
    by_cases hneg : power < 0
    · rw [if_pos hneg, if_pos (by decide)]
      omega
    · rw [if_neg hneg, if_neg (by decide)]
      omega

/-- The text of a decimal is that of a numeral of the same size. -/
theorem shows_layout (hmark : style.wholeMark = ".0") {d : Decimal} (hd : d.coefficient ≠ 0) :
    ∃ n : Numeral, n.Shows (style.layout d) d := by
  have hdigits := digitsOf_toString hd
  unfold layout
  generalize (toString d.coefficient).toList = digits at hdigits
  dsimp only
  split
  · by_cases hle : digits.length + d.exponent ≤ 0
    · exact ⟨_, shows_plain_small hdigits rfl hle⟩
    by_cases hge : (digits.length : Int) ≤ digits.length + d.exponent
    · exact shows_plain_whole hmark hdigits rfl hge
    · exact ⟨_, shows_plain_point hdigits rfl (by omega) (by omega)⟩
  · exact ⟨_, shows_scientific hdigits rfl⟩

end DecimalStyle

/-- Only the zeros have no units. -/
theorem Double.units_eq_zero_iff {x : Double} : x.units = 0 ↔ x.magnitude = 0 := by
  obtain ⟨hm, hlt, hfull⟩ := x.packed
  rw [units, Nat.mul_eq_zero, or_iff_left (Nat.ne_of_gt (Nat.two_pow_pos x.scale))]
  omega

/-- Zero is rounded to zero. -/
theorem Double.nearest_zero (den : Nat) : (nearest 0 den).magnitude = 0 := by
  have hround : ∀ d, roundDiv 0 d = 0 := by
    intro d
    rw [roundDiv, Nat.zero_div, Nat.zero_mod]
    simp
  simp only [nearest, Nat.zero_mul, Nat.zero_div, hround]
  rfl

theorem Decimal.toDouble_of_coefficient {d : Decimal} (h : d.coefficient = 0) : d.toDouble.magnitude = 0 := by
  rw [toDouble, h, Nat.zero_mul, Double.nearest_zero]

/-- The shortest decimal of a double other than zero is not zero. -/
theorem DecimalStyle.shortest_coefficient_ne_zero (tie : Tie) {x : Double} (hfinite : x.isFinite = true)
    (hx : x.magnitude ≠ 0) : (Decimal.shortest tie x).coefficient ≠ 0 := by
  intro hnone
  have hmagnitude := Decimal.toDouble_of_coefficient hnone
  rw [Decimal.toDouble_shortest tie hfinite (mt Double.units_eq_zero_iff.mp hx), x.unsigned_magnitude] at hmagnitude
  exact hx hmagnitude

namespace Numeral

/-- A numeral with another sign. -/
def withSign (n : Numeral) (negative : Bool) : Numeral := { n with negative := negative }

variable {n : Numeral}

theorem WellFormed.withSign (h : n.WellFormed) (negative : Bool) : (n.withSign negative).WellFormed :=
  ⟨h.whole, h.noZero, h.fraction, h.power⟩

/-- A sign is written in front. -/
theorem chars_withSign (h : n.negative = false) (negative : Bool) :
    (n.withSign negative).chars = (if negative = true then "-" else "").toList ++ n.chars := by
  rw [chars, chars, h, withSign]
  cases negative <;> rfl

/-- A numeral of the size of a double with the sign of the double is read as the double. -/
theorem toDouble_withSign {x : Double} (hsize : n.decimal.toDouble.magnitude = x.magnitude) :
    (n.withSign x.negative).toDouble = x :=
  toDouble_eq rfl hsize

end Numeral

/-- The text of a finite double is that of a numeral with more than digits, and the double nearest to it is that double. -/
theorem DecimalStyle.exists_numeral {style : DecimalStyle} (hmark : style.wholeMark = ".0") {x : Double}
    (hfinite : x.isFinite = true) :
    ∃ n : Numeral, n.WellFormed ∧ (style.write x).toList = n.chars ∧ ¬n.IsNatural ∧ n.toDouble = x := by
  rw [write, String.toList_append]
  by_cases hzero : x.magnitude = 0
  · have hdigit : IsDigits ['0'] := ⟨List.cons_ne_nil _ _, List.forall_mem_singleton.mpr rfl⟩
    have hwellFormed : Numeral.WellFormed ⟨false, ['0'], some ['0'], none⟩ :=
      ⟨hdigit, .inl rfl, by rintro _ ⟨⟩; exact hdigit, by simp⟩
    have hchars : ("0" ++ ".0").toList = Numeral.chars ⟨false, ['0'], some ['0'], none⟩ := rfl
    rw [if_pos hzero, hmark, hchars]
    refine ⟨_, hwellFormed.withSign x.negative, (Numeral.chars_withSign rfl _).symm, ?_, Numeral.toDouble_withSign ?_⟩
    · exact fun h => by cases h.2.1
    · rw [hzero]
      exact Decimal.toDouble_of_coefficient rfl
  · obtain ⟨n, hn⟩ := shows_layout hmark (shortest_coefficient_ne_zero style.tie hfinite hzero)
    rw [if_neg hzero, hn.chars_eq]
    refine ⟨_, hn.wellFormed.withSign x.negative, (Numeral.chars_withSign hn.unsigned _).symm,
      fun h => hn.not_isNatural ⟨hn.unsigned, h.2⟩, Numeral.toDouble_withSign ?_⟩
    rw [hn.toDouble_eq, Decimal.toDouble_shortest style.tie hfinite (mt Double.units_eq_zero_iff.mp hzero),
      x.unsigned_magnitude]

end Scriptlet
