import Scriptlet.Proofs.Token.Longest

/-!
# Where a scan gets stuck

A scan takes lexemes from the front of the source until nothing is left or no lexeme starts at the next character. That is
so at a lone ampersand or bar, at a quote that is never closed and at characters that no lexeme starts with, and nowhere
else. A comment that is never closed does not stop a scan: its opener is read as two operators.
-/

namespace Scriptlet

/-! ## Texts without a lexeme at the front -/

/-- The texts at whose front no lexeme starts. -/
inductive Text.Stuck : List Char → Prop where
  /-- An ampersand without a second one. -/
  | ampersand {cs : List Char} : cs.head? ≠ some '&' → Stuck ('&' :: cs)
  /-- A bar without a second one. -/
  | bar {cs : List Char} : cs.head? ≠ some '|' → Stuck ('|' :: cs)
  /-- A double quote without a second one anywhere behind it. -/
  | doubleQuote {cs : List Char} : '"' ∉ cs → Stuck ('"' :: cs)
  /-- A single quote without a second one anywhere behind it. -/
  | singleQuote {cs : List Char} : '\'' ∉ cs → Stuck ('\'' :: cs)
  /-- A character that is no blank, no word character and no mark. -/
  | stranger {c : Char} {cs : List Char} : isBlank c = false → isWord c = false → c ∉ marks → Stuck (c :: cs)

/-- A text is cut behind a character exactly when the character stands in it. -/
theorem cutAfter_singleton_eq_none_iff {q : Char} {cs : List Char} : cutAfter [q] cs = none ↔ q ∉ cs := by
  constructor
  · intro hcut hmem
    obtain ⟨before, after, rfl, hbefore⟩ := List.eq_append_cons_of_mem hmem
    rw [cutAfter_singleton hbefore] at hcut
    cases hcut
  · intro hq
    rw [Option.eq_none_iff_forall_ne_some]
    rintro ⟨l, r⟩ hcut
    obtain ⟨body, rfl, -⟩ := cutAfter_singleton_eq_some hcut
    apply hq
    rw [← cutAfter_append hcut]
    simp

/-- A text without a mark is not cut. -/
theorem cutAfter_eq_none {mark cs : List Char} (h : ¬mark <:+: cs) : cutAfter mark cs = none := by
  rw [Option.eq_none_iff_forall_ne_some]
  rintro ⟨l, r⟩ hcut
  apply h
  rw [← cutAfter_append hcut]
  exact (cutAfter_suffix hcut).isInfix.trans (List.prefix_append _ _).isInfix

namespace Lexeme

variable {c : Char} {cs : List Char}

/-- An operator of two equal characters is there or not. -/
theorem first?_doubled (hc : c = '&' ∨ c = '|') : first? (c :: cs) = none ↔ cs.head? ≠ some c := by
  obtain ⟨kind, hrules⟩ : ∃ kind, (rules.filter fun rule => rule.pattern.opens c) = [⟨.pair [c] c, kind⟩] := by
    rcases hc with rfl | rfl
    · exact ⟨some .logicalAnd, by decide +kernel⟩
    · exact ⟨some .logicalOr, by decide +kernel⟩
  rw [first?_cons, hrules, List.findSome?_singleton, Rule.lexeme?, Option.map_eq_none_iff]
  cases cs with
  | nil => simp [Pattern.split?]
  | cons d cs => simp [Pattern.split?]

/-- A quote opens a quoted text exactly when it is closed. -/
theorem first?_unclosed (hc : c = '"' ∨ c = '\'') : first? (c :: cs) = none ↔ c ∉ cs := by
  rw [first?_quote hc, Option.map_eq_none_iff, cutAfter_singleton_eq_none_iff]

/-- A character that is an operator or a bracket by itself never stops a scan. -/
theorem first?_ne_none_of_spelling {rule : Rule} (hrule : rule ∈ rules) (hc : [c] ∈ rule.pattern.spellings) :
    first? (c :: cs) ≠ none := by
  intro hnone
  obtain ⟨l, r, hsplit, -⟩ := Pattern.split?_of_mem_spellings hc cs
  have := first?_eq_none_iff.mp hnone rule hrule
  rw [List.singleton_append, this] at hsplit
  cases hsplit

/-- No lexeme starts at a character exactly in the cases listed. -/
theorem first?_eq_none_iff_stuck : first? (c :: cs) = none ↔ Text.Stuck (c :: cs) := by
  constructor
  · intro h
    cases hblank : Text.isBlank c with
    | true =>
      rw [first?_blank hblank] at h
      cases h
    | false =>
    cases hword : Text.isWord c with
    | true =>
      cases hdigit : Text.isDigit c with
      | true =>
        rw [first?_digit hdigit] at h
        cases h
      | false =>
        rw [first?_word hword hdigit] at h
        cases h
    | false =>
    by_cases hmark : c ∈ Text.marks
    · -- Only four of the marks are not spelled by themselves in some rule.
      have hmarks : Text.marks.all (fun d => rules.any (fun rule => rule.pattern.spellings.contains [d]) ||
          ['&', '|', '"', '\''].contains d) = true := by
        decide +kernel
      have hcase := List.all_eq_true.mp hmarks c hmark
      rw [Bool.or_eq_true, List.any_eq_true, List.contains_iff_mem] at hcase
      rcases hcase with ⟨rule, hrule, hspelled⟩ | hcase
      · exact absurd h (first?_ne_none_of_spelling hrule (List.contains_iff_mem.mp hspelled))
      · simp only [List.mem_cons, List.not_mem_nil, or_false] at hcase
        rcases hcase with rfl | rfl | rfl | rfl
        · exact .ampersand ((first?_doubled (.inl rfl)).mp h)
        · exact .bar ((first?_doubled (.inr rfl)).mp h)
        · exact .doubleQuote ((first?_unclosed (.inl rfl)).mp h)
        · exact .singleQuote ((first?_unclosed (.inr rfl)).mp h)
    · exact .stranger hblank hword hmark
  · intro h
    rcases h with hnext | hnext | hnone | hnone | ⟨hblank, hword, hmarks⟩
    · exact (first?_doubled (.inl rfl)).mpr hnext
    · exact (first?_doubled (.inr rfl)).mpr hnext
    · exact (first?_unclosed (.inl rfl)).mpr hnone
    · exact (first?_unclosed (.inr rfl)).mpr hnone
    · rw [first?_cons, rules_filter_other hblank hword hmarks]
      rfl

end Lexeme

/-! ## The scan of a text -/

/-- A scan of a text has passed `before` and `rest` is left: lexemes were taken from the front, each by the first rule that
applies. -/
inductive Scanned (text : List Char) : List Char → List Char → Prop where
  | start : Scanned text [] text
  | lexeme {before rest : List Char} {x : Lexeme} :
      Scanned text before rest → Lexeme.first? rest = some x → Scanned text (before ++ x.chars) x.rest

namespace Scanned

variable {text before rest : List Char}

/-- The tokens of a text are those of the part that is passed and those of the part that is left. -/
theorem ofCursor_eq (h : Scanned text before rest) : ∃ ts : List Token,
    Stream.ofCursor ⟨text, .start⟩ = Stream.prepend ts (Stream.ofCursor ⟨rest, .behind before⟩) := by
  induction h with
  | start => exact ⟨[], rfl⟩
  | @lexeme before rest x _ hx ih =>
    obtain ⟨ts, hts⟩ := ih
    rw [Position.behind_append]
    cases hk : x.tokenKind? with
    | none => exact ⟨ts, by rw [hts, Stream.ofCursor_skip hx hk]⟩
    | some kind =>
      refine ⟨ts ++ [⟨kind, .ofList x.chars, .behind before⟩], ?_⟩
      rw [hts, Stream.ofCursor_token hx hk]
      simp [Stream.prepend]

/-- A scan goes on to the end or to a text without a lexeme at its front. -/
theorem exists_last (h : Scanned text before rest) : ∃ before' rest', Scanned text before' rest' ∧
    (rest' = [] ∨ Text.Stuck rest') := by
  induction rest using scan_induction generalizing before with
  | nil => exact ⟨before, [], h, .inl rfl⟩
  | stuck c cs hstuck => exact ⟨before, c :: cs, h, .inr (Lexeme.first?_eq_none_iff_stuck.mp hstuck)⟩
  | token cs x kind hx _ ih => exact ih (h.lexeme hx)
  | skip cs x hx _ ih => exact ih (h.lexeme hx)

end Scanned

/-- A text that is stuck starts with the character that is reported, and the place of that character is the one reported. -/
theorem Stream.ofCursor_of_stuck {cs : List Char} (h : Text.Stuck cs) (p : Position) :
    ∃ c more, cs = c :: more ∧ ofCursor ⟨cs, p⟩ = ⟨[], some ⟨c, p⟩⟩ := by
  cases cs with
  | nil => cases h
  | cons c more => exact ⟨c, more, rfl, ofCursor_stuck (Lexeme.first?_eq_none_iff_stuck.mpr h)⟩

/-- A scan fails exactly at the stuck text that it reaches, with the first character of that text and its place. -/
theorem Stream.fault_eq_some_iff {text : List Char} {e : LexFault} : (ofCursor ⟨text, .start⟩).fault = some e ↔
    ∃ before more, Scanned text before (e.character :: more) ∧ Text.Stuck (e.character :: more) ∧
      e.position = .behind before := by
  constructor
  · intro h
    have hstart : Scanned text [] text := .start
    obtain ⟨before, rest, hscanned, hlast⟩ := hstart.exists_last
    obtain ⟨ts, hts⟩ := hscanned.ofCursor_eq
    rw [hts, prepend] at h
    rcases hlast with rfl | hstuck
    · rw [ofCursor_nil] at h
      cases h
    · obtain ⟨c, more, rfl, hcursor⟩ := ofCursor_of_stuck hstuck (.behind before)
      rw [hcursor] at h
      cases h
      exact ⟨before, more, hscanned, hstuck, rfl⟩
  · rintro ⟨before, more, hscanned, hstuck, hposition⟩
    obtain ⟨ts, hts⟩ := hscanned.ofCursor_eq
    rw [hts, ofCursor_stuck (Lexeme.first?_eq_none_iff_stuck.mpr hstuck), ← hposition]
    rfl

/-- A source does not tokenize exactly when its stream has a fault. -/
theorem tokenize_eq_error_iff {source : String} {e : LexFault} :
    tokenize source = .error e ↔ (Stream.ofSource source).fault = some e := by
  constructor
  · exact Stream.fault_of_tokenize
  · intro h
    unfold tokenize
    dsimp only
    rw [h]

/-- The characters that can stop a scan are none of an unclosed comment. -/
theorem Text.Stuck.ne_slash_star {c : Char} {cs : List Char} (h : Stuck (c :: cs)) : c ≠ '/' ∧ c ≠ '*' := by
  rcases h with - | - | - | - | ⟨-, -, hmarks⟩
  · decide
  · decide
  · decide
  · decide
  · constructor
    · rintro rfl
      exact hmarks (by decide)
    · rintro rfl
      exact hmarks (by decide)

/-- The tokens that a comment opener gives that is never closed: a slash, and a star with an equals sign if one follows. -/
def Token.opener (p : Position) (cs : List Char) : List Token :=
  [⟨.multiplicative, "/", p⟩,
   if cs.head? = some '=' then ⟨.compoundAssign, "*=", p.step '/'⟩ else ⟨.multiplicative, "*", p.step '/'⟩]

theorem Stream.ofCursor_opener {cs : List Char} (h : ¬['*', '/'] <:+: cs) (p : Position) : ∃ stream,
    ofCursor ⟨'/' :: '*' :: cs, p⟩ = prepend (Token.opener p cs) stream := by
  have hslash := Lexeme.first?_opener cs
  rw [cutAfter_eq_none h] at hslash
  have hstar := Lexeme.first?_star cs
  rw [ofCursor_token hslash rfl]
  unfold Token.opener
  split at hstar
  · next hhead =>
    rw [ofCursor_token hstar rfl, if_pos hhead]
    exact ⟨_, rfl⟩
  · next hhead =>
    rw [ofCursor_token hstar rfl, if_neg hhead]
    exact ⟨_, rfl⟩

/-! ## When tokenizing fails -/

/-- A source does not tokenize exactly when the scan comes to a text that is stuck; then the first character of that text is
reported, at its place. A comment that is never closed is read as operators and is never reported. -/
theorem tokenize_error_iff (source : String) :
    ((∃ e, tokenize source = .error e) ↔ ∃ before rest, Scanned source.toList before rest ∧ Text.Stuck rest) ∧
    (∀ e, tokenize source = .error e ↔ ∃ before more, Scanned source.toList before (e.character :: more) ∧
      Text.Stuck (e.character :: more) ∧ e.position = .behind before) ∧
    (∀ e, tokenize source = .error e → e.character ≠ '/' ∧ e.character ≠ '*') ∧
    ∀ before cs, Scanned source.toList before ('/' :: '*' :: cs) → ¬['*', '/'] <:+: cs →
      ∃ ts us, (Stream.ofSource source).tokens = ts ++ Token.opener (.behind before) cs ++ us := by
  have hiff : ∀ e, tokenize source = .error e ↔ ∃ before more, Scanned source.toList before (e.character :: more) ∧
      Text.Stuck (e.character :: more) ∧ e.position = .behind before :=
    fun e => tokenize_eq_error_iff.trans Stream.fault_eq_some_iff
  refine ⟨⟨?_, ?_⟩, hiff, fun e he => ?_, fun before cs hscanned hunclosed => ?_⟩
  · rintro ⟨e, he⟩
    obtain ⟨before, more, hscanned, hstuck, -⟩ := (hiff e).mp he
    exact ⟨before, _, hscanned, hstuck⟩
  · rintro ⟨before, rest, hscanned, hstuck⟩
    obtain ⟨c, more, rfl, -⟩ := Stream.ofCursor_of_stuck hstuck .start
    exact ⟨⟨c, .behind before⟩, (hiff _).mpr ⟨before, more, hscanned, hstuck, rfl⟩⟩
  · obtain ⟨before, more, -, hstuck, -⟩ := (hiff e).mp he
    exact hstuck.ne_slash_star
  · obtain ⟨ts, hts⟩ := hscanned.ofCursor_eq
    obtain ⟨stream, hstream⟩ := Stream.ofCursor_opener hunclosed (.behind before)
    rw [hstream] at hts
    refine ⟨ts, stream.tokens, ?_⟩
    rw [Stream.ofSource, Cursor.ofSource, hts, List.append_assoc]
    rfl

/-- A bar by itself behind a comment that is never closed. -/
theorem tokenize_error_iff_lone_bar : (∃ e, tokenize "a/*=|b" = .error e) ∧ tokenize "a/*=|b" = .error ⟨'|', ⟨1, 4⟩⟩ ∧
    ∃ ts us, (Stream.ofSource "a/*=|b").tokens =
      ts ++ [⟨.multiplicative, "/", ⟨1, 1⟩⟩, ⟨.compoundAssign, "*=", ⟨1, 2⟩⟩] ++ us := by
  have hname : Scanned "a/*=|b".toList ['a'] ['/', '*', '=', '|', 'b'] :=
    Scanned.start.lexeme (x := ⟨['a'], ['/', '*', '=', '|', 'b'], some .name⟩) (by decide +kernel)
  have hslash : Scanned "a/*=|b".toList ['a', '/'] ['*', '=', '|', 'b'] :=
    hname.lexeme (x := ⟨['/'], ['*', '=', '|', 'b'], some .multiplicative⟩) (by decide +kernel)
  have hstar : Scanned "a/*=|b".toList ['a', '/', '*', '='] ['|', 'b'] :=
    hslash.lexeme (x := ⟨['*', '='], ['|', 'b'], some .compoundAssign⟩) (by decide +kernel)
  have hstuck : Text.Stuck ['|', 'b'] := .bar (by decide)
  obtain ⟨hiff, herror, -, hopener⟩ := tokenize_error_iff "a/*=|b"
  exact ⟨hiff.mpr ⟨_, _, hstar, hstuck⟩, (herror ⟨'|', ⟨1, 4⟩⟩).mpr ⟨_, _, hstar, hstuck, rfl⟩,
    hopener _ _ hname (by decide)⟩

end Scriptlet
