import Scriptlet.Proofs.Token.Genuine
import Scriptlet.Proofs.Token.Tiling

/-!
# The longest lexeme

The rules are tried from the top, but their order only settles which lexeme is the longest: where several rules apply, the
first of them takes more than each of the others. Digits are the one exception. A number ends where its digits do, although
the rule for words would go on. So a word is never cut short, and an operator never stands in front of a character that would
make it a longer one.
-/

namespace Scriptlet

/-! ## The rules for a character -/

/-- The characters that lexemes start with, other than blanks and word characters. -/
def Text.marks : List Char :=
  [';', '{', '}', '(', ')', ',', '=', '!', '*', '/', '+', '-', '<', '>', '&', '|', '"', '\'']

/-- The rule for a blank. -/
theorem rules_filter_blank {c : Char} (hc : Text.isBlank c = true) :
    (rules.filter fun rule => rule.pattern.opens c) = [⟨.run .blank, none⟩] := by
  have hne : ∀ d : Char, Text.isBlank d = false → c ≠ d := fun d => Text.ne_of_class hc
  have hmarks : Text.marks.all (fun d => !Text.isBlank d) = true := by decide
  simp only [Text.marks, List.all_cons, Bool.and_eq_true, Bool.not_eq_true'] at hmarks
  simp [rules, Pattern.opens, CharClass.holds, hc, Text.isWord_of_isBlank hc, Text.isDigit_of_isBlank hc, hne, hmarks]

/-- No rule is for any other character. -/
theorem rules_filter_other {c : Char} (hblank : Text.isBlank c = false) (hword : Text.isWord c = false)
    (hmarks : c ∉ Text.marks) : (rules.filter fun rule => rule.pattern.opens c) = [] := by
  have hdigit : Text.isDigit c = false := by
    cases hd : Text.isDigit c with
    | false => rfl
    | true => rw [Text.isWord_of_isDigit c hd] at hword; cases hword
  simp only [Text.marks, List.mem_cons, not_or] at hmarks
  simp [rules, Pattern.opens, CharClass.holds, hblank, hword, hdigit, hmarks]

/-! ## Which pattern takes more -/

namespace Pattern

variable {p q : Pattern} {cs l r l' r' : List Char}

/-- One pattern takes more than another wherever both apply, as their shapes show. -/
def outranks : Pattern → Pattern → Bool
  | pair _ _, single _ => true
  | lineComment, single _ => true
  | blockComment, single _ => true
  | lineComment, blockComment => true
  | lineComment, pair _ last => last ≠ '/'
  | blockComment, pair _ last => last ≠ '*'
  | _, _ => false

theorem split?_single_eq_some {set : List Char} (h : split? (single set) cs = some (l, r)) : l.length = 1 := by
  cases cs with
  | nil => cases h
  | cons c cs =>
    simp only [split?] at h
    split at h
    · cases h
      rfl
    · cases h

theorem split?_pair_eq_some {set : List Char} {last : Char} (h : split? (pair set last) cs = some (l, r)) :
    ∃ c, cs = c :: last :: r ∧ l = [c, last] := by
  rcases cs with _ | ⟨c, _ | ⟨d, cs⟩⟩
  · cases h
  · cases h
  · simp only [split?] at h
    split at h
    · next hc =>
      cases h
      exact ⟨c, by rw [hc.2], by rw [hc.2]⟩
    · cases h

theorem length_lt_of_outranks (h : p.outranks q = true) (hp : p.split? cs = some (l, r)) (hq : q.split? cs = some (l', r')) :
    l'.length < l.length := by
  unfold outranks at h
  split at h
  · obtain ⟨c, -, rfl⟩ := split?_pair_eq_some hp
    rw [split?_single_eq_some hq]
    exact Nat.lt_succ_self 1
  · obtain ⟨ds, -, rfl, -⟩ := split?_lineComment_eq_some hp
    rw [split?_single_eq_some hq]
    exact Nat.succ_lt_succ (Nat.succ_pos _)
  · obtain ⟨ds, body, -, -, rfl⟩ := split?_blockComment_eq_some hp
    rw [split?_single_eq_some hq]
    exact Nat.succ_lt_succ (Nat.succ_pos _)
  -- In the other cases the second character is in the way of one of the two patterns.
  · obtain ⟨ds, rfl, -⟩ := split?_lineComment_eq_some hp
    obtain ⟨es, body, heq, -⟩ := split?_blockComment_eq_some hq
    cases heq
  · obtain ⟨ds, rfl, -⟩ := split?_lineComment_eq_some hp
    obtain ⟨c, heq, -⟩ := split?_pair_eq_some hq
    cases heq
    simp at h
  · obtain ⟨ds, body, rfl, -⟩ := split?_blockComment_eq_some hp
    obtain ⟨c, heq, -⟩ := split?_pair_eq_some hq
    cases heq
    simp at h
  · cases h

/-- A listed lexeme at the front of a text is taken, or a longer one. -/
theorem split?_of_mem_spellings (h : l ∈ p.spellings) (more : List Char) :
    ∃ l' r, p.split? (l ++ more) = some (l', r) ∧ l.length ≤ l'.length := by
  unfold spellings at h
  split at h
  · obtain ⟨c, hc, rfl⟩ := List.mem_map.mp h
    exact ⟨[c], more, if_pos hc, Nat.le_refl _⟩
  · obtain ⟨c, hc, rfl⟩ := List.mem_map.mp h
    exact ⟨_, more, if_pos ⟨hc, rfl⟩, Nat.le_refl _⟩
  · next set last =>
    obtain ⟨c, hc, hl⟩ := List.mem_flatMap.mp h
    simp only [List.mem_cons, List.not_mem_nil, or_false] at hl
    rcases hl with rfl | rfl
    · by_cases hlast : more.head? = some last
      · exact ⟨[c, last], more.tail, by simp [split?, hc, hlast], Nat.le_succ 1⟩
      · exact ⟨[c], more, by simp [split?, hc, hlast], Nat.le_refl _⟩
    · exact ⟨[c, last], more, by simp [split?, hc], Nat.le_refl _⟩
  · cases h

end Pattern

/-- Of the rules for a character that is no digit, each takes more than those below it. -/
theorem rules_outrank {c : Char} (hc : Text.isDigit c = false) :
    (rules.filter fun rule => rule.pattern.opens c).Pairwise fun r s => r.pattern.outranks s.pattern = true := by
  cases hblank : Text.isBlank c with
  | true =>
    rw [rules_filter_blank hblank]
    exact List.pairwise_singleton _ _
  | false =>
    cases hword : Text.isWord c with
    | true =>
      rw [rules_filter_word hword, if_neg (by simp [hc])]
      exact List.pairwise_singleton _ _
    | false =>
      by_cases hmark : c ∈ Text.marks
      · have hall : Text.marks.all (fun d => decide ((rules.filter fun rule => rule.pattern.opens d).Pairwise fun r s =>
            r.pattern.outranks s.pattern = true)) = true := by decide +kernel
        exact of_decide_eq_true (List.all_eq_true.mp hall c hmark)
      · rw [rules_filter_other hblank hword hmark]
        exact .nil

/-! ## The lexeme at the front -/

namespace Lexeme

variable {c : Char} {cs : List Char} {x : Lexeme}

/-- A rule that applies is one for the character at the front. -/
theorem opens_of_lexeme? {rule : Rule} {y : Lexeme} (h : rule.lexeme? (c :: cs) = some y) : rule.pattern.opens c = true := by
  cases hc : rule.pattern.opens c with
  | true => rfl
  | false =>
    rw [Rule.lexeme?, Pattern.split?_of_opens hc] at h
    cases h

/-- In front of a character that is no digit, the first rule that applies takes more than every other one. -/
theorem first?_longest (hc : Text.isDigit c = false) (h : first? (c :: cs) = some x) :
    ∃ above rule below, rules = above ++ rule :: below ∧ rule.lexeme? (c :: cs) = some x ∧
      ∀ other ∈ above ++ below, ∀ y, other.lexeme? (c :: cs) = some y → y.chars.length < x.chars.length := by
  obtain ⟨above, rule, below, hrules, hnone, hsplit, hkind⟩ := first?_eq_some_iff.mp h
  have hrule : rule.lexeme? (c :: cs) = some x := by rw [Rule.lexeme?, hsplit, ← hkind]; rfl
  refine ⟨above, rule, below, hrules, hrule, fun other hother y hy => ?_⟩
  obtain ⟨⟨l, r⟩, hsplit', rfl⟩ := Option.map_eq_some_iff.mp hy
  rcases List.mem_append.mp hother with hother | hother
  · rw [hnone other hother] at hsplit'
    cases hsplit'
  · have hpairs := rules_outrank hc
    rw [hrules, List.filter_append, List.filter_cons, if_pos (opens_of_lexeme? hrule), List.pairwise_append,
      List.pairwise_cons] at hpairs
    have hmem : other ∈ below.filter fun rule => rule.pattern.opens c := List.mem_filter.mpr ⟨hother, opens_of_lexeme? hy⟩
    exact Pattern.length_lt_of_outranks (hpairs.2.1.1 other hmem) hsplit hsplit'

/-- There no rule takes more than what is taken. -/
theorem length_le_of_lexeme? (hc : Text.isDigit c = false) (h : first? (c :: cs) = some x) {rule : Rule}
    (hrule : rule ∈ rules) {y : Lexeme} (hy : rule.lexeme? (c :: cs) = some y) : y.chars.length ≤ x.chars.length := by
  obtain ⟨above, picked, below, hrules, hpicked, hlonger⟩ := first?_longest hc h
  rw [hrules, List.mem_append, List.mem_cons] at hrule
  rcases hrule with hrule | rfl | hrule
  · exact Nat.le_of_lt (hlonger rule (List.mem_append_left _ hrule) y hy)
  · rw [hpicked] at hy
    cases hy
    exact Nat.le_refl _
  · exact Nat.le_of_lt (hlonger rule (List.mem_append_right _ hrule) y hy)

end Lexeme

/-! ## Tokens and what follows them -/

/-- A token was cut from the front of the text that starts at its place. -/
theorem Stream.exists_cut {before cs : List Char} : ∀ t ∈ (ofCursor ⟨cs, .behind before⟩).tokens, ∃ gap x kind,
    cs = gap ++ (x.chars ++ x.rest) ∧ Lexeme.first? (x.chars ++ x.rest) = some x ∧ x.tokenKind? = some kind ∧
      t = ⟨kind, .ofList x.chars, .behind (before ++ gap)⟩ := by
  induction cs using scan_induction generalizing before with
  | nil => rw [ofCursor_nil]; exact List.forall_mem_nil _
  | stuck c cs h => rw [ofCursor_stuck h]; exact List.forall_mem_nil _
  | token cs x kind hx hk ih =>
    obtain ⟨happ, -⟩ := Lexeme.first?_append hx
    rw [ofCursor_token hx hk, cons_tokens, List.forall_mem_cons, ← Position.behind_append]
    refine ⟨⟨[], x, kind, happ.symm, happ.symm ▸ hx, hk, by rw [List.append_nil]⟩, fun t ht => ?_⟩
    obtain ⟨gap, y, kind', hcs, hy, hk', rfl⟩ := ih t ht
    exact ⟨x.chars ++ gap, y, kind', by rw [← happ, hcs, List.append_assoc], hy, hk', by rw [List.append_assoc]⟩
  | skip cs x hx hk ih =>
    obtain ⟨happ, -⟩ := Lexeme.first?_append hx
    rw [ofCursor_skip hx hk, ← Position.behind_append]
    intro t ht
    obtain ⟨gap, y, kind', hcs, hy, hk', rfl⟩ := ih t ht
    exact ⟨x.chars ++ gap, y, kind', by rw [← happ, hcs, List.append_assoc], hy, hk', by rw [List.append_assoc]⟩

/-- The kinds of words: names and keywords. -/
def TokenKind.isWord : TokenKind → Bool
  | name | keyword _ => true
  | _ => false

/-- A word is read as a keyword exactly when it is spelled so. -/
theorem TokenKind.ofWord_eq_keyword_iff {text : String} {word : Keyword} :
    ofWord text = keyword word ↔ text = word.text := by
  rw [eq_comm (a := text), ← Keyword.ofText?_eq_some_iff]
  unfold ofWord
  split
  · next h => simp [h]
  · next h => simp [h]

namespace Token

variable {t : Token}

/-- A genuine token of the kind of a word is one. -/
theorem Genuine.isWordRun (h : t.Genuine) (hk : t.kind.isWord = true) :
    t.kind = .ofWord t.text ∧ Text.IsWordRun t.text := by
  have hsigns : ∀ sign ∈ signs, sign.1.isWord = false := by decide
  rcases h.cases with hsign | ⟨hk', -⟩ | hword | ⟨hk', -⟩
  · rw [hsigns _ hsign] at hk
    cases hk
  · rw [hk'] at hk
    cases hk
  · exact hword
  · rw [hk'] at hk
    cases hk

end Token

namespace Lexeme

variable {x : Lexeme} {t : Token}

/-- A word goes on as far as there are word characters. -/
theorem head_of_isWordRun {s : String} (h : first? (x.chars ++ x.rest) = some x) (hs : x.chars = s.toList)
    (hword : Text.IsWordRun s) : ∀ d ∈ x.rest.head?, Text.isWord d = false := by
  obtain ⟨c, cs, hcs, hdigit, hall⟩ := hword
  rw [hs, hcs, List.cons_append, first?_word (hall c List.mem_cons_self) hdigit] at h
  have hrest : (cs ++ x.rest).dropWhile Text.isWord = x.rest := congrArg rest (Option.some.inj h)
  intro d hd
  have hstop := List.head?_dropWhile_not Text.isWord (cs ++ x.rest)
  rw [hrest, hd] at hstop
  simpa using hstop

/-- A sign is no longer sign with the next character. -/
theorem push_not_mem_signs {kind : TokenKind} (h : first? (x.chars ++ x.rest) = some x)
    (hsign : (kind, .ofList x.chars) ∈ signs) :
    ∀ d ∈ x.rest.head?, ∀ kind', (kind', (String.ofList x.chars).push d) ∉ signs := by
  intro d hd kind' hmem
  obtain ⟨more, hmore⟩ := List.head?_eq_some_iff.mp hd
  -- The longer sign is a lexeme of its rule at the same place.
  obtain ⟨rule, hrule, hspelled⟩ := List.mem_flatMap.mp hmem
  obtain ⟨kind'', -, hspelled⟩ := List.mem_flatMap.mp hspelled
  obtain ⟨l, hl, heq⟩ := List.mem_map.mp hspelled
  have hchars : l = x.chars ++ [d] := by
    have := congrArg String.toList (Prod.mk.inj heq).2
    simpa using this
  obtain ⟨l', r, hsplit, hle⟩ := Pattern.split?_of_mem_spellings hl more
  have htext : l ++ more = x.chars ++ x.rest := by rw [hchars, hmore, List.append_assoc]; rfl
  rw [htext] at hsplit
  obtain ⟨c, cs, hc⟩ := List.exists_cons_of_ne_nil (first?_append h).2
  have hdigit : Text.isDigit c = false := by
    have hall : ∀ sign ∈ signs, sign.2.toList.head?.all (fun c => !Text.isDigit c) = true := by decide
    have := hall _ hsign
    rw [String.toList_ofList, hc] at this
    simpa using this
  rw [hc, List.cons_append] at h hsplit
  have hlonger := length_le_of_lexeme? hdigit h hrule (congrArg (Option.map _) hsplit)
  rw [hchars, List.length_append, List.length_singleton] at hle
  have : l'.length ≤ x.chars.length := hlonger
  omega

end Lexeme

/-! ## Longest matches -/

/-- Where some rule applies and no digit stands, the first rule that applies takes more than every other rule that applies
there; where a digit stands, a number takes the digits and nothing else. So a word of a source is made of word characters
and has none behind it, it is a keyword exactly when it is spelled as one, and no operator of a source makes a longer one
with the character behind it. -/
theorem longest_match :
    (∀ c cs, Text.isDigit c = false → (∃ rule ∈ rules, (rule.lexeme? (c :: cs)).isSome = true) →
      ∃ x above rule below, Lexeme.first? (c :: cs) = some x ∧ rules = above ++ rule :: below ∧
        rule.lexeme? (c :: cs) = some x ∧
        ∀ other ∈ above ++ below, ∀ y, other.lexeme? (c :: cs) = some y → y.chars.length < x.chars.length) ∧
    (∀ c cs, Text.isDigit c = true → Lexeme.first? (c :: cs) =
      some ⟨(c :: cs).takeWhile Text.isDigit, (c :: cs).dropWhile Text.isDigit, some .number⟩) ∧
    ∀ source : String, ∀ t ∈ (Stream.ofSource source).tokens, ∃ before after,
      source.toList = before ++ t.text.toList ++ after ∧ t.position = .behind before ∧
      (t.kind.isWord = true → (∀ c ∈ t.text.toList, Text.isWord c = true) ∧ (∀ d ∈ after.head?, Text.isWord d = false) ∧
        ∀ word : Keyword, t.kind = .keyword word ↔ t.text = word.text) ∧
      (t.kind.isSign = true → ∀ d ∈ after.head?, ∀ kind, (kind, t.text.push d) ∉ signs) := by
  refine ⟨fun c cs hc happlies => ?_, fun c cs hc => ?_, fun source t ht => ?_⟩
  · cases hx : Lexeme.first? (c :: cs) with
    | none =>
      obtain ⟨rule, hrule, hsome⟩ := happlies
      rw [Rule.lexeme?, Lexeme.first?_eq_none_iff.mp hx rule hrule] at hsome
      cases hsome
    | some x =>
      obtain ⟨above, rule, below, hrules, hrule, hlonger⟩ := Lexeme.first?_longest hc hx
      exact ⟨x, above, rule, below, rfl, hrules, hrule, hlonger⟩
  · rw [Lexeme.first?_digit hc, List.takeWhile_cons_of_pos hc, List.dropWhile_cons_of_pos hc]
  · have hgenuine : t.Genuine := Stream.genuine_of_mem t ht
    have hcut : t ∈ (Stream.ofCursor ⟨source.toList, .behind []⟩).tokens := ht
    obtain ⟨gap, x, kind, htext, hx, -, rfl⟩ := Stream.exists_cut t hcut
    refine ⟨gap, x.rest, ?_, rfl, fun hword => ?_, fun hsign => ?_⟩
    · rw [String.toList_ofList, List.append_assoc]
      exact htext
    · obtain ⟨hkind, hrun⟩ := hgenuine.isWordRun hword
      refine ⟨?_, Lexeme.head_of_isWordRun hx String.toList_ofList.symm hrun, fun word => ?_⟩
      · obtain ⟨c, cs, hcs, -, hall⟩ := hrun
        rwa [hcs]
      · rw [hkind]
        exact TokenKind.ofWord_eq_keyword_iff
    · exact Lexeme.push_not_mem_signs hx (hgenuine.mem_signs_of_isSign hsign)

/-- A slash in front of an equals sign, digits in front of a word, a keyword and a word that starts like one. -/
theorem longest_match_word_behind_digits :
    (∃ x above rule below, Lexeme.first? ['/', '=', '='] = some x ∧ rules = above ++ rule :: below ∧
      ∀ other ∈ above ++ below, ∀ y, other.lexeme? ['/', '=', '='] = some y → y.chars.length < x.chars.length) ∧
    Lexeme.first? ['1', '2', 'l', 'e', 't'] = some ⟨['1', '2'], ['l', 'e', 't'], some .number⟩ ∧
    (∃ before after, "12let lets<==".toList = before ++ "let".toList ++ after ∧ ⟨1, 2⟩ = Position.behind before ∧
      ∀ d ∈ after.head?, Text.isWord d = false) ∧
    ∃ before after, "12let lets<==".toList = before ++ "<=".toList ++ after ∧ ⟨1, 10⟩ = Position.behind before ∧
      ∀ d ∈ after.head?, ∀ kind, (kind, "<=".push d) ∉ signs := by
  have happlies : ∃ rule ∈ rules, (rule.lexeme? ['/', '=', '=']).isSome = true := by decide +kernel
  have htokens : (Stream.ofSource "12let lets<==").tokens = [⟨.number, "12", ⟨1, 0⟩⟩, ⟨.keyword .letWord, "let", ⟨1, 2⟩⟩,
      ⟨.name, "lets", ⟨1, 6⟩⟩, ⟨.relational, "<=", ⟨1, 10⟩⟩, ⟨.assign, "=", ⟨1, 12⟩⟩] := by
    decide +kernel
  obtain ⟨x, above, rule, below, hx, hrules, -, hlonger⟩ := longest_match.1 '/' ['=', '='] rfl happlies
  obtain ⟨before, after, htext, hposition, hword, -⟩ :=
    longest_match.2.2 "12let lets<==" ⟨.keyword .letWord, "let", ⟨1, 2⟩⟩ (by simp [htokens])
  obtain ⟨before', after', htext', hposition', -, hsign⟩ :=
    longest_match.2.2 "12let lets<==" ⟨.relational, "<=", ⟨1, 10⟩⟩ (by simp [htokens])
  exact ⟨⟨x, above, rule, below, hx, hrules, hlonger⟩, longest_match.2.1 '1' ['2', 'l', 'e', 't'] rfl,
    ⟨before, after, htext, hposition, (hword rfl).2.1⟩, before', after', htext', hposition', hsign rfl⟩

end Scriptlet
