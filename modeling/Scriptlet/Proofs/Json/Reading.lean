import Scriptlet.Json.Basic
import Scriptlet.Proofs.Number.Numeral

/-!
# Reading JSON texts

A JSON text is a row of marks with blanks between them: brackets, braces, commas, colons, the three words, numbers and
strings. A text has one row of marks only, and a row of marks belongs to one value only, so a text denotes one value at most.
A value is denoted by both of its texts, the one in one line and the one with indentation.
-/

namespace Scriptlet.Json

/-! ## Strings -/

/-- The escapes of two characters: the letter, and the character it stands for. -/
def shortEscapes : List (Char × Char) :=
  [('"', '"'), ('\\', '\\'), ('/', '/'), ('b', '\x08'), ('f', '\x0c'), ('n', '\n'), ('r', '\r'), ('t', '\t')]

/-- The value of a hexadecimal digit. -/
def hexValue? (c : Char) : Option Nat :=
  if '0' ≤ c ∧ c ≤ '9' then some (c.toNat - '0'.toNat)
  else if 'a' ≤ c ∧ c ≤ 'f' then some (c.toNat - 'a'.toNat + 10)
  else if 'A' ≤ c ∧ c ≤ 'F' then some (c.toNat - 'A'.toNat + 10)
  else none

/-- The value of hexadecimal digits. -/
def hexCode? (digits : List Char) : Option Nat := digits.foldlM (fun n c => (hexValue? c).map (16 * n + ·)) 0

/-- The ways to write a character inside a string. -/
inductive SpellsChar : Char → List Char → Prop where
  | plain {c : Char} : c ≠ '"' → c ≠ '\\' → 0x20 ≤ c.toNat → SpellsChar c [c]
  | short {e c : Char} : (e, c) ∈ shortEscapes → SpellsChar c ['\\', e]
  | code {c a₁ a₂ a₃ a₄ : Char} : hexCode? [a₁, a₂, a₃, a₄] = some c.toNat → SpellsChar c ['\\', 'u', a₁, a₂, a₃, a₄]

/-- The ways to write the characters of a string behind its opening quote. -/
inductive SpellsText : List Char → List Char → Prop where
  | close : SpellsText [] ['"']
  | char {c : Char} {s piece body : List Char} : SpellsChar c piece → SpellsText s body → SpellsText (c :: s) (piece ++ body)

/-- A character inside a string is known from the way it is written. -/
theorem SpellsChar.unique {c d : Char} {as bs cs ds : List Char} (hc : SpellsChar c as) (hd : SpellsChar d bs)
    (h : as ++ cs = bs ++ ds) : c = d ∧ cs = ds := by
  have hshort : ∀ p ∈ shortEscapes, ∀ q ∈ shortEscapes, p.1 = q.1 → p.2 = q.2 := by decide
  have hcode : ∀ p ∈ shortEscapes, p.1 ≠ 'u' := by decide
  rcases hc with ⟨-, hc, -⟩ | hc | hc <;> rcases hd with ⟨-, hd, -⟩ | hd | hd
  · exact List.cons.inj h
  · exact absurd (List.cons.inj h).1 hc
  · exact absurd (List.cons.inj h).1 hc
  · exact absurd (List.cons.inj h).1.symm hd
  · obtain ⟨he, htail⟩ := List.cons.inj (List.cons.inj h).2
    exact ⟨hshort _ hc _ hd he, htail⟩
  · exact absurd (List.cons.inj (List.cons.inj h).2).1 (hcode _ hc)
  · exact absurd (List.cons.inj h).1.symm hd
  · exact absurd (List.cons.inj (List.cons.inj h).2).1.symm (hcode _ hd)
  · simp only [List.cons_append, List.nil_append, List.cons.injEq, true_and] at h
    obtain ⟨rfl, rfl, rfl, rfl, rfl⟩ := h
    exact ⟨Char.toNat_inj.mp (Option.some.inj (hc.symm.trans hd)), rfl⟩

/-- What spells a character inside a string does not close the string. -/
theorem SpellsChar.ne_quote {c : Char} {as cs ds : List Char} (h : SpellsChar c as) : as ++ cs ≠ '"' :: ds := by
  intro heq
  rcases h with ⟨hc, -, -⟩ | hc | hc
  · exact hc (List.cons.inj heq).1
  · cases (List.cons.inj heq).1
  · cases (List.cons.inj heq).1

/-- A string ends where it ends, and its characters are known. -/
theorem SpellsText.unique {s t as bs cs ds : List Char} (hs : SpellsText s as) (ht : SpellsText t bs)
    (h : as ++ cs = bs ++ ds) : s = t ∧ cs = ds := by
  induction hs generalizing t bs with
  | close =>
    cases ht with
    | close => exact ⟨rfl, (List.cons.inj h).2⟩
    | char hd _ =>
      rw [List.append_assoc] at h
      exact absurd h.symm hd.ne_quote
  | char hc _ ih =>
    rw [List.append_assoc] at h
    cases ht with
    | close => exact absurd h hc.ne_quote
    | char hd ht =>
      rw [List.append_assoc] at h
      obtain ⟨rfl, h⟩ := hc.unique hd h
      obtain ⟨rfl, h⟩ := ih ht h
      exact ⟨rfl, h⟩

/-- Every character is written in one of the ways that spell it. -/
theorem spellsChar_escapeChar (c : Char) : SpellsChar c (escapeChar c) := by
  unfold escapeChar
  split
  · exact .short (by decide)
  · exact .short (by decide)
  · exact .short (by decide)
  · exact .short (by decide)
  · exact .short (by decide)
  · exact .short (by decide)
  · exact .short (by decide)
  · next hquote hbackslash _ _ _ _ _ =>
    split
    · next hlt =>
      have hcode : ∀ n < 0x20, hexCode? ['0', '0', Nat.digitChar (n / 16), Nat.digitChar (n % 16)] = some n := by decide
      exact .code (hcode c.toNat hlt)
    · next hge => exact .plain hquote hbackslash (Nat.le_of_not_lt hge)

/-- A text with its characters escaped and a quote behind them is spelled as a string. -/
theorem spellsText_escape (s : List Char) : SpellsText s (s.flatMap escapeChar ++ ['"']) := by
  induction s with
  | nil => exact .close
  | cons c s ih =>
    rw [List.flatMap_cons, List.append_assoc]
    exact .char (spellsChar_escapeChar c) ih

/-! ## Marks -/

/-- The marks with a fixed text. -/
inductive Word where
  | leftBracket | rightBracket | leftBrace | rightBrace | comma | colon | null | true | false
  deriving DecidableEq

namespace Word

/-- Every mark with a fixed text, once. -/
def all : List Word := [leftBracket, rightBracket, leftBrace, rightBrace, comma, colon, null, true, false]

/-- The text of a mark. -/
def chars : Word → List Char
  | leftBracket => ['[']
  | rightBracket => [']']
  | leftBrace => ['\x7b']
  | rightBrace => ['\x7d']
  | comma => [',']
  | colon => [':']
  | null => ['n', 'u', 'l', 'l']
  | true => ['t', 'r', 'u', 'e']
  | false => ['f', 'a', 'l', 's', 'e']

theorem mem_all (w : Word) : w ∈ all := by cases w <;> decide

/-- No text of a mark starts another. -/
theorem eq_of_starts {v w : Word} (h : v.chars <+: w.chars) : v = w := by
  have hall : ∀ v ∈ all, ∀ w ∈ all, v.chars <+: w.chars → v = w := by decide
  exact hall v v.mem_all w w.mem_all h

/-- A text starts with one mark at most that has a fixed text. -/
theorem unique {v w : Word} {cs ds : List Char} (h : v.chars ++ cs = w.chars ++ ds) : v = w ∧ cs = ds := by
  have hvw : v = w := by
    rcases List.append_eq_append_iff.mp h with ⟨mid, hw, -⟩ | ⟨mid, hv, -⟩
    · exact eq_of_starts ⟨mid, hw.symm⟩
    · exact (eq_of_starts ⟨mid, hv.symm⟩).symm
  subst hvw
  exact ⟨rfl, List.append_cancel_left h⟩

end Word

/-- The blanks between marks. -/
def isGap (c : Char) : Bool := c ∈ [' ', '\t', '\n', '\r']

/-- No character of a number is a blank or a quote. -/
theorem isGap_of_isNumberChar {c : Char} (h : Numeral.isNumberChar c = true) : isGap c = false ∧ c ≠ '"' := by
  have hother : ∀ d, Numeral.isNumberChar d = false → c ≠ d := fun d => Text.ne_of_class h
  refine ⟨?_, hother '"' rfl⟩
  simp [isGap, hother ' ' rfl, hother '\t' rfl, hother '\n' rfl, hother '\r' rfl]

/-- The marks that a text is made of. -/
inductive Mark where
  | word (word : Word)
  | natural (value : Nat)
  | double (value : Double)
  | text (value : String)
  deriving DecidableEq

namespace Mark

/-- The mark of a number text: a natural number if it is nothing but digits, and else the nearest double. -/
def ofNumeral (n : Numeral) : Mark :=
  if n.IsNatural then .natural (Double.digitsValue n.whole) else .double n.toDouble

/-- The mark of a value without parts. -/
def ofScalar : Scalar → Mark
  | .null => word .null
  | .bool true => word .true
  | .bool false => word .false
  | .natural value => natural value
  | .double value _ => double value
  | .text value => text value

/-- Values without parts that have the same mark are the same. -/
theorem ofScalar_injective {s t : Scalar} (h : ofScalar s = ofScalar t) : s = t := by
  rcases s with _ | (_ | _) | _ | _ | _ <;> rcases t with _ | (_ | _) | _ | _ | _ <;> cases h <;> rfl

/-- Whether a mark is a number. -/
def isNumber : Mark → Bool
  | natural _ | double _ => true
  | _ => false

/-- Whether a mark is a string. -/
def isText : Mark → Bool
  | text _ => true
  | _ => false

theorem isNumber_ofNumeral (n : Numeral) : (ofNumeral n).isNumber = true ∧ (ofNumeral n).isText = false := by
  rw [ofNumeral]
  split <;> exact ⟨rfl, rfl⟩

/-- The ways to write a mark. -/
inductive Spells : Mark → List Char → Prop where
  | word (w : Word) : Spells (.word w) w.chars
  | number {n : Numeral} : n.WellFormed → Spells (ofNumeral n) n.chars
  | text {s body : List Char} : SpellsText s body → Spells (.text (.ofList s)) ('"' :: body)

variable {m m' : Mark} {as bs cs ds : List Char}

/-- What sort of mark it is shows in its first character. -/
theorem Spells.exists_cons (h : Spells m as) :
    ∃ c cs, as = c :: cs ∧ Numeral.isNumberChar c = m.isNumber ∧ decide (c = '"') = m.isText ∧ isGap c = false := by
  cases h with
  | word w => cases w <;> exact ⟨_, _, rfl, by decide⟩
  | @number n hn =>
    have hne : n.chars ≠ [] := by
      rw [Numeral.chars]
      simp [hn.whole.1]
    obtain ⟨c, cs, hcs⟩ := List.exists_cons_of_ne_nil hne
    have hc := Numeral.isNumberChar_of_mem hn c (by rw [hcs]; exact List.mem_cons_self)
    obtain ⟨hgap, hquote⟩ := isGap_of_isNumberChar hc
    obtain ⟨hnumber, htext⟩ := isNumber_ofNumeral n
    exact ⟨c, cs, hcs, by rw [hc, hnumber], by rw [htext, decide_eq_false hquote], hgap⟩
  | text _ => exact ⟨_, _, rfl, rfl, rfl, rfl⟩

/-- A number ends where no character of a number follows. -/
def Ends (m : Mark) (cs : List Char) : Prop := m.isNumber = true → ∀ c ∈ cs.head?, Numeral.isNumberChar c = false

/-- The mark at the front of a text and what follows it are known. -/
theorem Spells.unique (hm : Spells m as) (hm' : Spells m' bs) (hcs : m.Ends cs) (hds : m'.Ends ds)
    (h : as ++ cs = bs ++ ds) : m = m' ∧ cs = ds := by
  have hsort : m.isNumber = m'.isNumber ∧ m.isText = m'.isText := by
    obtain ⟨c, as', rfl, hnumber, htext, -⟩ := hm.exists_cons
    obtain ⟨d, bs', rfl, hnumber', htext', -⟩ := hm'.exists_cons
    obtain ⟨rfl, -⟩ := List.cons.inj h
    exact ⟨hnumber.symm.trans hnumber', htext.symm.trans htext'⟩
  obtain ⟨hnumber, htext⟩ := hsort
  cases hm with
  | word w =>
    cases hm' with
    | word w' =>
      obtain ⟨rfl, htail⟩ := Word.unique h
      exact ⟨rfl, htail⟩
    | number _ => cases hnumber.trans (isNumber_ofNumeral _).1
    | text _ => cases htext
  | number hn =>
    cases hm' with
    | word w' => cases hnumber.symm.trans (isNumber_ofNumeral _).1
    | number hn' =>
      obtain ⟨hchars, htail⟩ := append_inj_of_stop (Numeral.isNumberChar_of_mem hn) (Numeral.isNumberChar_of_mem hn')
        (hcs (isNumber_ofNumeral _).1) (hds (isNumber_ofNumeral _).1) h
      rw [Numeral.eq_of_chars hn hn' hchars]
      exact ⟨rfl, htail⟩
    | text _ => cases hnumber.symm.trans (isNumber_ofNumeral _).1
  | text hs =>
    cases hm' with
    | word w' => cases htext
    | number _ => cases hnumber.trans (isNumber_ofNumeral _).1
    | text ht =>
      obtain ⟨rfl, htail⟩ := hs.unique ht (List.cons.inj h).2
      exact ⟨rfl, htail⟩

/-- The digits of a natural number spell its mark. -/
theorem spells_natural (n : Nat) : Spells (natural n) (toString n).toList := by
  have hnumeral : Numeral.WellFormed ⟨false, (toString n).toList, none, none⟩ := by
    refine ⟨isDigits_toString n, ?_, by simp, by simp⟩
    by_cases hn : n = 0
    · exact .inl (by rw [hn]; rfl)
    · exact .inr (head?_toString hn)
  have hmark : ofNumeral ⟨false, (toString n).toList, none, none⟩ = natural n := by
    rw [ofNumeral, if_pos ⟨rfl, rfl, rfl⟩, Double.digitsValue_toString]
  have hchars : Numeral.chars ⟨false, (toString n).toList, none, none⟩ = (toString n).toList := List.append_nil _
  have hspells := Spells.number hnumeral
  rwa [hmark, hchars] at hspells

/-- A finite double is spelled by what is written for it. -/
theorem spells_double {x : Double} (hx : x.isFinite = true) : Spells (double x) (doubleStyle.write x).toList := by
  obtain ⟨n, hn, hchars, hnatural, hdouble⟩ := DecimalStyle.exists_numeral (show doubleStyle.wholeMark = ".0" from rfl) hx
  rw [hchars, ← hdouble, ← show ofNumeral n = double n.toDouble from if_neg hnatural]
  exact .number hn

/-- A text is spelled by its quotation. -/
theorem spells_text (s : String) : Spells (text s) (quote s).toList := by
  have hquote : (quote s).toList = '"' :: (s.toList.flatMap escapeChar ++ ['"']) := by simp [quote]
  rw [hquote]
  conv => lhs; rw [← String.ofList_toList (s := s)]
  exact .text (spellsText_escape s.toList)

/-- A value without parts is spelled by what is written for it. -/
theorem spells_ofScalar (s : Scalar) : Spells (ofScalar s) (scalarText s).toList := by
  cases s with
  | null => exact .word .null
  | bool value =>
    cases value
    · exact .word .false
    · exact .word .true
  | natural value => exact spells_natural value
  | double value finite => exact spells_double finite
  | text value => exact spells_text value

end Mark

/-! ## Rows of marks -/

/-- A text is a row of marks with blanks in front of, between and behind them. -/
inductive Scans : List Char → List Mark → Prop where
  | nil : Scans [] []
  | blank {c : Char} {cs : List Char} {ms : List Mark} : isGap c = true → Scans cs ms → Scans (c :: cs) ms
  | mark {m : Mark} {as cs : List Char} {ms : List Mark} : m.Spells as → m.Ends cs → Scans cs ms → Scans (as ++ cs) (m :: ms)

/-- A text has only one row of marks. -/
theorem Scans.unique {cs : List Char} {ms ms' : List Mark} (h : Scans cs ms) (h' : Scans cs ms') : ms = ms' := by
  induction h generalizing ms' with
  | nil =>
    generalize hnil : [] = cs at h'
    cases h' with
    | nil => rfl
    | blank _ _ => cases hnil
    | mark hm _ _ =>
      obtain ⟨c, as, rfl, -⟩ := hm.exists_cons
      cases hnil
  | @blank c cs ms hc _ ih =>
    generalize htext : c :: cs = ds at h'
    cases h' with
    | nil => cases htext
    | blank _ h' =>
      cases htext
      exact ih h'
    | mark hm _ _ =>
      obtain ⟨d, as, rfl, -, -, hd⟩ := hm.exists_cons
      cases htext
      rw [hc] at hd
      cases hd
  | @mark m as cs ms hm hend _ ih =>
    generalize htext : as ++ cs = ds at h'
    cases h' with
    | nil =>
      obtain ⟨d, as, rfl, -⟩ := hm.exists_cons
      cases htext
    | blank hc _ =>
      obtain ⟨d, as, rfl, -, -, hd⟩ := hm.exists_cons
      cases htext
      rw [hc] at hd
      cases hd
    | mark hm' hend' h' =>
      obtain ⟨rfl, rfl⟩ := hm.unique hm' hend hend' htext
      rw [ih h']

/-! ## Values -/

mutual

/-- The row of marks of a value. -/
def marks : Json → List Mark
  | scalar value => [.ofScalar value]
  | array items => .word .leftBracket :: arrayMarks items
  | object members => .word .leftBrace :: objectMarks members

/-- The marks of an array behind its bracket. -/
def arrayMarks : List Json → List Mark
  | [] => [.word .rightBracket]
  | item :: items => item.marks ++ itemMarks items

/-- The marks of an array behind an item. -/
def itemMarks : List Json → List Mark
  | [] => [.word .rightBracket]
  | item :: items => .word .comma :: (item.marks ++ itemMarks items)

/-- The marks of an object behind its brace. -/
def objectMarks : List (String × Json) → List Mark
  | [] => [.word .rightBrace]
  | (key, value) :: members => .text key :: .word .colon :: (value.marks ++ memberMarks members)

/-- The marks of an object behind a member. -/
def memberMarks : List (String × Json) → List Mark
  | [] => [.word .rightBrace]
  | (key, value) :: members => .word .comma :: .text key :: .word .colon :: (value.marks ++ memberMarks members)

end

/-- No value without parts has the mark of a bracket or brace. -/
theorem Mark.ofScalar_ne (s : Scalar) : ofScalar s ≠ word .leftBracket ∧ ofScalar s ≠ word .leftBrace ∧
    ofScalar s ≠ word .rightBracket := by
  rcases s with _ | (_ | _) | _ | _ | _ <;> simp [ofScalar]

/-- No value starts with a closing bracket. -/
theorem marks_append_ne (v : Json) {ms ms' : List Mark} : v.marks ++ ms ≠ .word .rightBracket :: ms' := by
  intro h
  cases v with
  | scalar s =>
    rw [marks] at h
    exact (Mark.ofScalar_ne s).2.2 (List.cons.inj h).1
  | array items =>
    rw [marks] at h
    cases h
  | object members =>
    rw [marks] at h
    cases h

mutual

/-- A row of marks starts with those of one value only. -/
theorem marks_unique (v w : Json) {ms ms' : List Mark} (h : v.marks ++ ms = w.marks ++ ms') : v = w ∧ ms = ms' := by
  cases v with
  | scalar s =>
    cases w with
    | scalar t =>
      rw [marks, marks] at h
      obtain ⟨hst, htail⟩ := List.cons.inj h
      exact ⟨by rw [Mark.ofScalar_injective hst], htail⟩
    | array ws => rw [marks, marks] at h; exact absurd (List.cons.inj h).1 (Mark.ofScalar_ne s).1
    | object ws => rw [marks, marks] at h; exact absurd (List.cons.inj h).1 (Mark.ofScalar_ne s).2.1
  | array vs =>
    cases w with
    | scalar t => rw [marks, marks] at h; exact absurd (List.cons.inj h).1.symm (Mark.ofScalar_ne t).1
    | array ws =>
      rw [marks, marks] at h
      obtain ⟨rfl, htail⟩ := arrayMarks_unique vs ws (List.cons.inj h).2
      exact ⟨rfl, htail⟩
    | object ws => rw [marks, marks] at h; cases h
  | object vs =>
    cases w with
    | scalar t => rw [marks, marks] at h; exact absurd (List.cons.inj h).1.symm (Mark.ofScalar_ne t).2.1
    | array ws => rw [marks, marks] at h; cases h
    | object ws =>
      rw [marks, marks] at h
      obtain ⟨rfl, htail⟩ := objectMarks_unique vs ws (List.cons.inj h).2
      exact ⟨rfl, htail⟩
termination_by structural v

/-- A row starts with the marks of the items of one array only, up to its bracket. -/
theorem arrayMarks_unique (vs ws : List Json) {ms ms' : List Mark} (h : arrayMarks vs ++ ms = arrayMarks ws ++ ms') :
    vs = ws ∧ ms = ms' := by
  cases vs with
  | nil =>
    cases ws with
    | nil => exact ⟨rfl, by simpa [arrayMarks] using h⟩
    | cons w ws =>
      rw [arrayMarks, arrayMarks, List.append_assoc] at h
      exact absurd h.symm (marks_append_ne w)
  | cons v vs =>
    cases ws with
    | nil =>
      rw [arrayMarks, arrayMarks, List.append_assoc] at h
      exact absurd h (marks_append_ne v)
    | cons w ws =>
      rw [arrayMarks, arrayMarks, List.append_assoc, List.append_assoc] at h
      obtain ⟨rfl, hitems⟩ := marks_unique v w h
      obtain ⟨rfl, htail⟩ := itemMarks_unique vs ws hitems
      exact ⟨rfl, htail⟩
termination_by structural vs

/-- The same behind an item. -/
theorem itemMarks_unique (vs ws : List Json) {ms ms' : List Mark} (h : itemMarks vs ++ ms = itemMarks ws ++ ms') :
    vs = ws ∧ ms = ms' := by
  cases vs with
  | nil =>
    cases ws with
    | nil => exact ⟨rfl, by simpa [itemMarks] using h⟩
    | cons w ws => simp [itemMarks] at h
  | cons v vs =>
    cases ws with
    | nil => simp [itemMarks] at h
    | cons w ws =>
      rw [itemMarks, itemMarks, List.cons_append, List.cons_append, List.append_assoc, List.append_assoc] at h
      obtain ⟨rfl, hitems⟩ := marks_unique v w (List.cons.inj h).2
      obtain ⟨rfl, htail⟩ := itemMarks_unique vs ws hitems
      exact ⟨rfl, htail⟩
termination_by structural vs

/-- A row starts with the marks of the members of one object only, up to its brace. -/
theorem objectMarks_unique (vs ws : List (String × Json)) {ms ms' : List Mark}
    (h : objectMarks vs ++ ms = objectMarks ws ++ ms') : vs = ws ∧ ms = ms' := by
  cases vs with
  | nil =>
    cases ws with
    | nil => exact ⟨rfl, by simpa [objectMarks] using h⟩
    | cons w ws => simp [objectMarks] at h
  | cons v vs =>
    cases ws with
    | nil => simp [objectMarks] at h
    | cons w ws =>
      obtain ⟨key, v⟩ := v
      obtain ⟨key', w⟩ := w
      simp only [objectMarks, List.cons_append, List.append_assoc, List.cons.injEq, Mark.text.injEq, true_and] at h
      obtain ⟨rfl, h⟩ := h
      obtain ⟨rfl, hmembers⟩ := marks_unique v w h
      obtain ⟨rfl, htail⟩ := memberMarks_unique vs ws hmembers
      exact ⟨rfl, htail⟩
termination_by structural vs

/-- The same behind a member. -/
theorem memberMarks_unique (vs ws : List (String × Json)) {ms ms' : List Mark}
    (h : memberMarks vs ++ ms = memberMarks ws ++ ms') : vs = ws ∧ ms = ms' := by
  cases vs with
  | nil =>
    cases ws with
    | nil => exact ⟨rfl, by simpa [memberMarks] using h⟩
    | cons w ws => simp [memberMarks] at h
  | cons v vs =>
    cases ws with
    | nil => simp [memberMarks] at h
    | cons w ws =>
      obtain ⟨key, v⟩ := v
      obtain ⟨key', w⟩ := w
      simp only [memberMarks, List.cons_append, List.append_assoc, List.cons.injEq, Mark.text.injEq, true_and] at h
      obtain ⟨rfl, h⟩ := h
      obtain ⟨rfl, hmembers⟩ := marks_unique v w h
      obtain ⟨rfl, htail⟩ := memberMarks_unique vs ws hmembers
      exact ⟨rfl, htail⟩
termination_by structural vs

end

/-- A text denotes a value: its marks are those of the value. -/
def Denotes (text : String) (value : Json) : Prop := Scans text.toList value.marks

/-- A text denotes only one value. -/
theorem Denotes.unique {text : String} {v w : Json} (hv : Denotes text v) (hw : Denotes text w) : v = w := by
  have hmarks : v.marks ++ [] = w.marks ++ [] := by rw [Scans.unique hv hw]
  exact (marks_unique v w hmarks).1

/-! ## Texts that are written -/

/-- A text with which no number goes on. -/
def Stops (cs : List Char) : Prop := ∀ c ∈ cs.head?, Numeral.isNumberChar c = false

/-- A character that belongs to no number ends one. -/
theorem stops_cons {c : Char} (h : Numeral.isNumberChar c = false) (cs : List Char) : Stops (c :: cs) := by
  rintro _ ⟨⟩
  exact h

section

variable {cs : List Char} {ms : List Mark} {layout : Layout} {level : Nat}

theorem Scans.word (w : Word) (h : Scans cs ms) : Scans (w.chars ++ cs) (.word w :: ms) :=
  .mark (.word w) (fun hnumber => by cases hnumber) h

theorem Scans.text (s : String) (h : Scans cs ms) : Scans ((quote s).toList ++ cs) (.text s :: ms) :=
  .mark (Mark.spells_text s) (fun hnumber => by cases hnumber) h

/-- Blanks are passed over. -/
theorem Scans.blanks {bs : List Char} (hbs : ∀ b ∈ bs, isGap b = true) (h : Scans cs ms) : Scans (bs ++ cs) ms := by
  induction bs with
  | nil => exact h
  | cons b bs ih =>
    rw [List.forall_mem_cons] at hbs
    exact .blank hbs.1 (ih hbs.2)

/-- The line feed and the indentation in front of an item are blanks. -/
theorem isGap_newline (layout : Layout) (level : Nat) : ∀ b ∈ (layout.newline level).toList, isGap b = true := by
  cases layout with
  | line => exact List.forall_mem_nil _
  | lines =>
    simp only [Layout.newline, String.toList_append, String.toList_ofList, List.forall_mem_append]
    refine ⟨by simp [isGap], fun c hc => ?_⟩
    rw [List.eq_of_mem_replicate hc]
    rfl

theorem Scans.newline (h : Scans cs ms) : Scans ((layout.newline level).toList ++ cs) ms :=
  h.blanks (isGap_newline layout level)

/-- The colon behind a key is read as such in every layout. -/
theorem Scans.colon (h : Scans cs ms) : Scans (layout.colon.toList ++ cs) (.word .colon :: ms) := by
  cases layout with
  | line => exact h.word .colon
  | lines => exact (Scans.blank rfl h).word .colon

/-- Neither the line feed of a layout nor what stands there without one belongs to a number. -/
theorem stops_newline (h : Stops cs) : Stops ((layout.newline level).toList ++ cs) := by
  cases layout with
  | line => exact h
  | lines =>
    have htext : (Layout.lines.newline level).toList ++ cs = '\n' :: (List.replicate (2 * level) ' ' ++ cs) := by
      simp [Layout.newline]
    rw [htext]
    exact stops_cons rfl _

end

section

variable (layout : Layout) (level : Nat) (cs : List Char)

/-- The text of an array with items, part by part. -/
theorem chars_array (item : Json) (items : List Json) :
    (writeAt layout level (array (item :: items))).toList ++ cs = Word.leftBracket.chars ++
      ((writeItems layout (level + 1) (item :: items)).toList ++
        ((layout.newline level).toList ++ (Word.rightBracket.chars ++ cs))) := by
  simp [writeAt, Word.chars]

/-- The text of an object with members, part by part. -/
theorem chars_object (member : String × Json) (members : List (String × Json)) :
    (writeAt layout level (object (member :: members))).toList ++ cs = Word.leftBrace.chars ++
      ((writeMembers layout (level + 1) (member :: members)).toList ++
        ((layout.newline level).toList ++ (Word.rightBrace.chars ++ cs))) := by
  simp [writeAt, Word.chars]

theorem chars_item (v : Json) :
    (writeItems layout level [v]).toList ++ cs =
      (layout.newline level).toList ++ ((writeAt layout level v).toList ++ cs) := by
  simp [writeItems]

theorem chars_items (v w : Json) (ws : List Json) :
    (writeItems layout level (v :: w :: ws)).toList ++ cs = (layout.newline level).toList ++
      ((writeAt layout level v).toList ++ (Word.comma.chars ++ ((writeItems layout level (w :: ws)).toList ++ cs))) := by
  simp [writeItems, Word.chars]

theorem chars_member (key : String) (v : Json) :
    (writeMembers layout level [(key, v)]).toList ++ cs = (layout.newline level).toList ++
      ((quote key).toList ++ (layout.colon.toList ++ ((writeAt layout level v).toList ++ cs))) := by
  simp [writeMembers]

theorem chars_members (key : String) (v : Json) (w : String × Json) (ws : List (String × Json)) :
    (writeMembers layout level ((key, v) :: w :: ws)).toList ++ cs = (layout.newline level).toList ++
      ((quote key).toList ++ (layout.colon.toList ++ ((writeAt layout level v).toList ++
        (Word.comma.chars ++ ((writeMembers layout level (w :: ws)).toList ++ cs))))) := by
  simp [writeMembers, Word.chars]

end

mutual

/-- A value is read back as its marks, in every layout and with any text behind it that ends a number. -/
theorem scans_writeAt (layout : Layout) (level : Nat) (v : Json) {cs : List Char} {ms : List Mark} (hcs : Stops cs)
    (h : Scans cs ms) : Scans ((writeAt layout level v).toList ++ cs) (v.marks ++ ms) := by
  cases v with
  | scalar s =>
    rw [writeAt, marks]
    exact .mark (Mark.spells_ofScalar s) (fun _ => hcs) h
  | array items =>
    cases items with
    | nil =>
      rw [writeAt, marks, arrayMarks]
      exact (h.word .rightBracket).word .leftBracket
    | cons item items =>
      rw [chars_array, marks]
      have hstops : Stops ((layout.newline level).toList ++ (Word.rightBracket.chars ++ cs)) :=
        stops_newline (stops_cons rfl _)
      exact (scans_writeItems layout (level + 1) (item :: items) hstops (h.word .rightBracket).newline).word .leftBracket
  | object members =>
    cases members with
    | nil =>
      rw [writeAt, marks, objectMarks]
      exact (h.word .rightBrace).word .leftBrace
    | cons member members =>
      rw [chars_object, marks]
      have hstops : Stops ((layout.newline level).toList ++ (Word.rightBrace.chars ++ cs)) :=
        stops_newline (stops_cons rfl _)
      exact (scans_writeMembers layout (level + 1) (member :: members) hstops (h.word .rightBrace).newline).word .leftBrace
termination_by structural v

/-- The items of an array are read back as their marks. -/
theorem scans_writeItems (layout : Layout) (level : Nat) (vs : List Json) {cs : List Char} {ms : List Mark} (hcs : Stops cs)
    (h : Scans cs (.word .rightBracket :: ms)) :
    Scans ((writeItems layout level vs).toList ++ cs) (arrayMarks vs ++ ms) := by
  cases vs with
  | nil => exact h
  | cons v vs =>
    cases vs with
    | nil =>
      rw [chars_item, arrayMarks, itemMarks, List.append_assoc]
      exact (scans_writeAt layout level v hcs h).newline
    | cons w ws =>
      rw [chars_items, arrayMarks, itemMarks, List.append_assoc]
      have hmore := scans_writeItems layout level (w :: ws) hcs h
      exact (scans_writeAt layout level v (stops_cons rfl _) (hmore.word .comma)).newline
termination_by structural vs

/-- The members of an object are read back as their marks. -/
theorem scans_writeMembers (layout : Layout) (level : Nat) (vs : List (String × Json)) {cs : List Char} {ms : List Mark}
    (hcs : Stops cs) (h : Scans cs (.word .rightBrace :: ms)) :
    Scans ((writeMembers layout level vs).toList ++ cs) (objectMarks vs ++ ms) := by
  cases vs with
  | nil => exact h
  | cons v vs =>
    obtain ⟨key, v⟩ := v
    cases vs with
    | nil =>
      rw [chars_member, objectMarks, memberMarks, List.cons_append, List.cons_append, List.append_assoc]
      exact ((scans_writeAt layout level v hcs h).colon.text key).newline
    | cons w ws =>
      obtain ⟨key', w⟩ := w
      rw [chars_members, objectMarks, memberMarks, List.cons_append, List.cons_append, List.append_assoc]
      have hmore := scans_writeMembers layout level ((key', w) :: ws) hcs h
      exact ((scans_writeAt layout level v (stops_cons rfl _) (hmore.word .comma)).colon.text key).newline
termination_by structural vs

end

/-- In either layout the text of a value denotes it. -/
theorem denotes_writeAt (layout : Layout) (level : Nat) (v : Json) : Denotes (writeAt layout level v) v := by
  have hscans := scans_writeAt layout level v (fun c hc => by cases hc) .nil
  rwa [List.append_nil, List.append_nil] at hscans

end Scriptlet.Json
