import Scriptlet.Proofs.Json.Reading

/-!
# Blanks in JSON texts

Blanks count inside of a string only. One pass over a text finds the others, for which it has to know only whether it stands
outside of strings, inside of one, or behind a backslash. The two texts of a value differ in blanks outside of strings only.
-/

namespace Scriptlet.Json

/-- Where a character of a text stands: outside of strings, inside of a string, or behind a backslash in a string. -/
inductive Place where
  | outside | inside | escaped
  deriving DecidableEq

/-- The characters of a text without the blanks outside of strings. -/
def squeeze : Place → List Char → List Char
  | _, [] => []
  | .outside, c :: cs =>
    if isGap c then squeeze .outside cs else c :: squeeze (if c = '"' then .inside else .outside) cs
  | .inside, c :: cs => c :: squeeze (if c = '\\' then .escaped else if c = '"' then .outside else .inside) cs
  | .escaped, c :: cs => c :: squeeze .inside cs

/-- A text without the blanks outside of strings. -/
def withoutBlanks (text : String) : String := .ofList (squeeze .outside text.toList)

/-! ## Marks and gaps -/

/-- Blanks between marks are dropped. -/
theorem squeeze_gaps {bs : List Char} (hbs : ∀ b ∈ bs, isGap b = true) (cs : List Char) :
    squeeze .outside (bs ++ cs) = squeeze .outside cs := by
  induction bs with
  | nil => rfl
  | cons b bs ih =>
    rw [List.forall_mem_cons] at hbs
    rw [List.cons_append, squeeze, if_pos hbs.1, ih hbs.2]

/-- Characters outside of strings that are neither blanks nor quotes stay. -/
theorem squeeze_plain {as : List Char} (has : ∀ a ∈ as, isGap a = false ∧ a ≠ '"') (cs : List Char) :
    squeeze .outside (as ++ cs) = as ++ squeeze .outside cs := by
  induction as with
  | nil => rfl
  | cons a as ih =>
    rw [List.forall_mem_cons] at has
    obtain ⟨⟨hgap, hquote⟩, has⟩ := has
    rw [List.cons_append, squeeze, hgap, if_neg Bool.false_ne_true, if_neg hquote, ih has, List.cons_append]

/-- Characters inside of a string that are neither quotes nor backslashes stay. -/
theorem squeeze_inside {as : List Char} (has : ∀ a ∈ as, a ≠ '\\' ∧ a ≠ '"') (cs : List Char) :
    squeeze .inside (as ++ cs) = as ++ squeeze .inside cs := by
  induction as with
  | nil => rfl
  | cons a as ih =>
    rw [List.forall_mem_cons] at has
    obtain ⟨⟨hbackslash, hquote⟩, has⟩ := has
    rw [List.cons_append, squeeze, if_neg hbackslash, if_neg hquote, ih has, List.cons_append]

/-- A character behind a backslash stays, though it be a quote. -/
theorem squeeze_backslash (c : Char) (cs : List Char) :
    squeeze .inside ('\\' :: c :: cs) = '\\' :: c :: squeeze .inside cs := by
  simp [squeeze]

/-- Only hexadecimal digits have a code. -/
theorem hexValue?_ne_none {digits : List Char} {n m : Nat}
    (h : digits.foldlM (fun n c => (hexValue? c).map (16 * n + ·)) n = some m) : ∀ c ∈ digits, hexValue? c ≠ none := by
  induction digits generalizing n with
  | nil => exact List.forall_mem_nil _
  | cons c cs ih =>
    rw [List.foldlM_cons] at h
    cases hc : hexValue? c with
    | none =>
      rw [hc] at h
      cases h
    | some k =>
      rw [hc] at h
      exact List.forall_mem_cons.mpr ⟨by simp [hc], ih h⟩

/-- What spells a character inside a string stays. -/
theorem SpellsChar.squeeze {c : Char} {as : List Char} (h : SpellsChar c as) (cs : List Char) :
    squeeze .inside (as ++ cs) = as ++ squeeze .inside cs := by
  cases h with
  | plain hquote hbackslash _ => exact squeeze_inside (List.forall_mem_singleton.mpr ⟨hbackslash, hquote⟩) cs
  | short _ => exact squeeze_backslash _ cs
  | @code _ a₁ a₂ a₃ a₄ hcode =>
    have hplain : ∀ a ∈ [a₁, a₂, a₃, a₄], a ≠ '\\' ∧ a ≠ '"' := by
      intro a ha
      have hvalue := hexValue?_ne_none hcode a ha
      refine ⟨?_, ?_⟩
      · rintro rfl
        exact hvalue rfl
      · rintro rfl
        exact hvalue rfl
    exact (squeeze_backslash 'u' _).trans (congrArg ('\\' :: 'u' :: ·) (squeeze_inside hplain cs))

/-- A string stays as it is, and behind it one is outside again. -/
theorem SpellsText.squeeze {s as : List Char} (h : SpellsText s as) (cs : List Char) :
    squeeze .inside (as ++ cs) = as ++ squeeze .outside cs := by
  induction h with
  | close => simp [Json.squeeze]
  | char hc _ ih => rw [List.append_assoc, hc.squeeze, ih, List.append_assoc]

/-- A mark stays as it is. -/
theorem Mark.Spells.squeeze {m : Mark} {as : List Char} (h : m.Spells as) (cs : List Char) :
    squeeze .outside (as ++ cs) = as ++ squeeze .outside cs := by
  cases h with
  | word w => exact squeeze_plain (by cases w <;> simp [Word.chars, isGap]) cs
  | number hn => exact squeeze_plain (fun c hc => isGap_of_isNumberChar (Numeral.isNumberChar_of_mem hn c hc)) cs
  | text hs => exact congrArg ('"' :: ·) (hs.squeeze cs)

theorem squeeze_word (w : Word) (cs : List Char) : squeeze .outside (w.chars ++ cs) = w.chars ++ squeeze .outside cs :=
  (Mark.Spells.word w).squeeze cs

/-- What a layout puts in front of an item goes, as in the layout without lines. -/
theorem squeeze_newline (layout : Layout) (level level' : Nat) (cs : List Char) :
    squeeze .outside ((layout.newline level).toList ++ cs) = (Layout.line.newline level').toList ++ squeeze .outside cs :=
  squeeze_gaps (isGap_newline layout level) cs

/-- The colon of a layout loses the blank behind it. -/
theorem squeeze_colon (layout : Layout) (cs : List Char) :
    squeeze .outside (layout.colon.toList ++ cs) = Layout.line.colon.toList ++ squeeze .outside cs := by
  cases layout with
  | line => rfl
  | lines => rfl

/-! ## Texts that are written -/

mutual

/-- Without its blanks the text of a value is the one in one line. -/
theorem squeeze_writeAt (layout : Layout) (level level' : Nat) (v : Json) (cs : List Char) :
    squeeze .outside ((writeAt layout level v).toList ++ cs) = (writeAt .line level' v).toList ++ squeeze .outside cs := by
  cases v with
  | scalar s => exact (Mark.spells_ofScalar s).squeeze cs
  | array items =>
    cases items with
    | nil =>
      rw [writeAt, writeAt]
      exact (squeeze_word .leftBracket _).trans (congrArg _ (squeeze_word .rightBracket cs))
    | cons item items =>
      rw [chars_array, chars_array, squeeze_word, squeeze_writeItems layout (level + 1) (level' + 1) (item :: items),
        squeeze_newline layout level level', squeeze_word]
  | object members =>
    cases members with
    | nil =>
      rw [writeAt, writeAt]
      exact (squeeze_word .leftBrace _).trans (congrArg _ (squeeze_word .rightBrace cs))
    | cons member members =>
      rw [chars_object, chars_object, squeeze_word, squeeze_writeMembers layout (level + 1) (level' + 1) (member :: members),
        squeeze_newline layout level level', squeeze_word]
termination_by structural v

/-- The items of an array lose the blanks between them. -/
theorem squeeze_writeItems (layout : Layout) (level level' : Nat) (vs : List Json) (cs : List Char) :
    squeeze .outside ((writeItems layout level vs).toList ++ cs) =
      (writeItems .line level' vs).toList ++ squeeze .outside cs := by
  cases vs with
  | nil => rfl
  | cons v vs =>
    cases vs with
    | nil => rw [chars_item, chars_item, squeeze_newline layout level level', squeeze_writeAt layout level level' v]
    | cons w ws =>
      rw [chars_items, chars_items, squeeze_newline layout level level', squeeze_writeAt layout level level' v, squeeze_word,
        squeeze_writeItems layout level level' (w :: ws)]
termination_by structural vs

/-- The members of an object lose the blanks between them. -/
theorem squeeze_writeMembers (layout : Layout) (level level' : Nat) (vs : List (String × Json)) (cs : List Char) :
    squeeze .outside ((writeMembers layout level vs).toList ++ cs) =
      (writeMembers .line level' vs).toList ++ squeeze .outside cs := by
  cases vs with
  | nil => rfl
  | cons v vs =>
    obtain ⟨key, v⟩ := v
    cases vs with
    | nil =>
      rw [chars_member, chars_member, squeeze_newline layout level level', (Mark.spells_text key).squeeze, squeeze_colon,
        squeeze_writeAt layout level level' v]
    | cons w ws =>
      rw [chars_members, chars_members, squeeze_newline layout level level', (Mark.spells_text key).squeeze, squeeze_colon,
        squeeze_writeAt layout level level' v, squeeze_word, squeeze_writeMembers layout level level' (w :: ws)]
termination_by structural vs

end

/-- The text with a line for each member is the one in one line, but for blanks outside of strings. -/
theorem withoutBlanks_pretty (v : Json) : withoutBlanks v.pretty = v.compact := by
  have h := squeeze_writeAt .lines 0 0 v []
  rw [List.append_nil, squeeze, List.append_nil] at h
  rw [withoutBlanks, pretty, h, compact, String.ofList_toList]

example : withoutBlanks "[ 1,\n  \"a \\\" b\" ]\n" = "[1,\"a \\\" b\"]" := by decide +kernel

end Scriptlet.Json
