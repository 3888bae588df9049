import Mathlib.Data.List.TakeWhile
import Scriptlet.Proofs.Token.Seam

/-!
# Genuine tokens

A token is genuine when its characters, read by themselves, are that token. Every token of a stream is genuine, the genuine
tokens are known one by one, and genuine tokens written one after the other with single spaces between them are read back.
-/

namespace Scriptlet

/-! ## A lexeme by itself -/

/-- A cut behind a mark is the same with less behind it. -/
theorem cutAfter_shortened {mark cs l m r : List Char} (hmark : mark ≠ []) (h : cutAfter mark cs = some (l, m ++ r)) :
    cutAfter mark (l ++ m) = some (l, m) := by
  induction cs generalizing l with
  | nil => cases h
  | cons c cs ih =>
    rw [cutAfter] at h
    split at h
    · obtain ⟨rfl, -⟩ := Prod.mk.inj (Option.some.inj h)
      cases mark with
      | nil => exact absurd rfl hmark
      | cons d mark => simp [cutAfter]
    · next hm =>
      obtain ⟨⟨l', r'⟩, hcut, heq⟩ := Option.map_eq_some_iff.mp h
      obtain ⟨rfl, rfl⟩ := Prod.mk.inj heq
      have hm' : ¬mark.isPrefixOf (c :: (l' ++ m)) = true := by
        intro hpre
        apply hm
        rw [List.isPrefixOf_iff_prefix] at hpre ⊢
        rw [← cutAfter_append hcut, ← List.append_assoc, ← List.cons_append]
        exact hpre.trans (List.prefix_append _ _)
      rw [List.cons_append, cutAfter, if_neg hm', ih hcut]
      rfl

/-- The first place of a single character is behind everything in front of it. -/
theorem cutAfter_singleton {q : Char} {body : List Char} (h : q ∉ body) (tail : List Char) :
    cutAfter [q] (body ++ q :: tail) = some (body ++ [q], tail) := by
  induction body with
  | nil => simp [cutAfter]
  | cons c body ih =>
    rw [List.mem_cons, not_or] at h
    rw [List.cons_append, cutAfter, if_neg (by simp [h.1]), ih h.2]
    rfl

/-- Behind a cut at a single character that character stands nowhere further in front. -/
theorem cutAfter_singleton_eq_some {q : Char} {cs l r : List Char} (h : cutAfter [q] cs = some (l, r)) :
    ∃ body, l = body ++ [q] ∧ q ∉ body := by
  obtain ⟨body, hbody, hl⟩ := cutAfter_eq_some (List.cons_ne_nil q []) h
  refine ⟨body, hl, fun hmem => hbody ?_⟩
  obtain ⟨before, after, rfl⟩ := List.append_of_mem hmem
  exact ⟨before, after, by simp⟩

namespace Pattern

variable {p : Pattern} {cs l r : List Char}

/-- The lexemes of a pattern of one or two characters, one by one; none are listed for the patterns of any length. -/
def spellings : Pattern → List (List Char)
  | single set => set.map fun c => [c]
  | pair set last => set.map fun c => [c, last]
  | singleOrPair set last => set.flatMap fun c => [[c], [c, last]]
  | _ => []

/-- The lexemes of a pattern are all listed. -/
def isListed : Pattern → Bool
  | single _ | pair _ _ | singleOrPair _ _ => true
  | _ => false

/-- A lexeme of one or two characters is one of those listed. -/
theorem mem_spellings (hp : p.isListed = true) (h : p.split? cs = some (l, r)) : l ∈ p.spellings := by
  unfold split? at h
  split at h
  · cases hp
  · split at h <;> cases h
    next hc => exact List.mem_map_of_mem hc
  · split at h <;> cases h
    next hc =>
      rw [hc.2]
      exact List.mem_map_of_mem hc.1
  · split at h
    · next hc =>
      refine List.mem_flatMap_of_mem hc ?_
      split at h <;> cases h <;> simp
    · cases h
  · cases hp
  · cases hp
  · cases hp
  · cases h

/-- What is taken is the same with less of what is left. -/
theorem takeWhile_shortened {f : Char → Bool} {cs m r : List Char} (h : cs.dropWhile f = m ++ r) :
    (cs.takeWhile f ++ m).takeWhile f = cs.takeWhile f ∧ (cs.takeWhile f ++ m).dropWhile f = m := by
  induction cs with
  | nil =>
    obtain ⟨rfl, -⟩ := List.append_eq_nil_iff.mp h.symm
    exact ⟨rfl, rfl⟩
  | cons c cs ih =>
    cases hc : f c with
    | true =>
      rw [List.dropWhile_cons_of_pos hc] at h
      simp [hc, ih h]
    | false =>
      rw [List.dropWhile_cons_of_neg (by simp [hc])] at h
      cases m with
      | nil => simp [hc]
      | cons d m =>
        obtain ⟨rfl, -⟩ := List.cons.inj h
        simp [hc]

/-- The lexeme of a pattern is the same with less behind it. -/
theorem split?_shortened {m : List Char} (h : p.split? cs = some (l, m ++ r)) : p.split? (l ++ m) = some (l, m) := by
  cases p with
  | run cls =>
    cases cs with
    | nil => cases h
    | cons c cs =>
      simp only [split?] at h
      split at h
      · next hc =>
        obtain ⟨rfl, hdrop⟩ := Prod.mk.inj (Option.some.inj h)
        obtain ⟨htake', hdrop'⟩ := takeWhile_shortened hdrop
        rw [List.cons_append, split?, if_pos hc, htake', hdrop']
      · cases h
  | single set =>
    cases cs with
    | nil => cases h
    | cons c cs =>
      simp only [split?] at h
      split at h
      · next hc =>
        obtain ⟨rfl, -⟩ := Prod.mk.inj (Option.some.inj h)
        exact if_pos hc
      · cases h
  | pair set last =>
    rcases cs with _ | ⟨c, _ | ⟨d, cs⟩⟩
    · cases h
    · cases h
    · simp only [split?] at h
      split at h
      · next hc =>
        obtain ⟨rfl, -⟩ := Prod.mk.inj (Option.some.inj h)
        exact if_pos hc
      · cases h
  | singleOrPair set last =>
    cases cs with
    | nil => cases h
    | cons c cs =>
      simp only [split?] at h
      split at h
      · next hc =>
        split at h
        · obtain ⟨rfl, -⟩ := Prod.mk.inj (Option.some.inj h)
          simp [split?, hc]
        · next hlast =>
          obtain ⟨rfl, rfl⟩ := Prod.mk.inj (Option.some.inj h)
          have hlast' : m.head? ≠ some last := by
            cases m with
            | nil => simp
            | cons d m => simpa using hlast
          simp [split?, hc, hlast']
      · cases h
  | lineComment =>
    obtain ⟨ds, -, rfl, hdrop⟩ := split?_lineComment_eq_some h
    obtain ⟨htake', hdrop'⟩ := takeWhile_shortened hdrop.symm
    rw [List.cons_append, List.cons_append, split?, htake', hdrop']
  | blockComment =>
    obtain ⟨ds, body, -, hcut, rfl⟩ := split?_blockComment_eq_some h
    rw [List.cons_append, List.cons_append, split?, cutAfter_shortened (by decide) hcut]
    rfl
  | quoted q =>
    obtain ⟨ds, body, -, hcut, rfl⟩ := split?_quoted_eq_some h
    rw [List.cons_append, split?, if_pos rfl, cutAfter_shortened (by simp) hcut]
    rfl

/-- A pattern that applies to a text applies whatever follows the text. -/
theorem split?_append_isSome (h : (p.split? cs).isSome) (tail : List Char) : (p.split? (cs ++ tail)).isSome := by
  cases p with
  | blockComment =>
    obtain ⟨⟨l, r⟩, h⟩ := Option.isSome_iff_exists.mp h
    obtain ⟨ds, body, rfl, hcut, -⟩ := split?_blockComment_eq_some h
    simp [split?, cutAfter_append_right hcut]
  | quoted q =>
    obtain ⟨⟨l, r⟩, h⟩ := Option.isSome_iff_exists.mp h
    obtain ⟨ds, body, rfl, hcut, -⟩ := split?_quoted_eq_some h
    simp [split?, cutAfter_append_right hcut]
  | lineComment =>
    obtain ⟨⟨l, r⟩, h⟩ := Option.isSome_iff_exists.mp h
    obtain ⟨ds, rfl, -, -⟩ := split?_lineComment_eq_some h
    rfl
  | run cls =>
    cases cs with
    | nil => cases h
    | cons c cs => simpa [split?] using h
  | single set =>
    cases cs with
    | nil => cases h
    | cons c cs => simpa [split?] using h
  | pair set last =>
    rcases cs with _ | ⟨c, _ | ⟨d, cs⟩⟩
    · cases h
    · cases h
    · simpa [split?] using h
  | singleOrPair set last =>
    cases cs with
    | nil => cases h
    | cons c cs =>
      simp only [split?, List.cons_append] at h ⊢
      split at h
      · next hc =>
        rw [if_pos hc]
        split <;> rfl
      · cases h

end Pattern

/-- The lexeme at the front of a text is the same with less behind it. -/
theorem Lexeme.first?_shortened {cs l m r : List Char} {kind : Option TokenKind} (h : first? cs = some ⟨l, m ++ r, kind⟩) :
    first? (l ++ m) = some ⟨l, m, kind⟩ := by
  obtain ⟨above, rule, below, hrules, hnone, hsplit, hkind⟩ := first?_eq_some_iff.mp h
  refine first?_eq_some_iff.mpr ⟨above, rule, below, hrules, fun r' hr => ?_, Pattern.split?_shortened hsplit, hkind⟩
  rw [← Option.not_isSome_iff_eq_none]
  intro hsome
  have := Pattern.split?_append_isSome hsome r
  rw [List.append_assoc, (Pattern.split?_append hsplit).1, hnone r' hr] at this
  cases this

/-- The lexeme at the front of a text is one by itself. -/
theorem Lexeme.first?_self {cs : List Char} {x : Lexeme} (h : first? cs = some x) :
    first? x.chars = some ⟨x.chars, [], x.kind⟩ := by
  have h' : first? cs = some ⟨x.chars, [] ++ x.rest, x.kind⟩ := h
  simpa using first?_shortened h'

/-! ## Tokens -/

/-- A token that can stand in a source: its characters by themselves are read as one token of its kind. -/
def Token.Genuine (t : Token) : Prop :=
  ∃ x ∈ Lexeme.first? t.text.toList, x.rest = [] ∧ x.tokenKind? = some t.kind

instance (t : Token) : Decidable t.Genuine := inferInstanceAs (Decidable (∃ x ∈ Lexeme.first? t.text.toList, _))

/-- Every token of a stream is genuine. -/
theorem Stream.genuine_of_mem {cs : List Char} {p : Position} : ∀ t ∈ (ofCursor ⟨cs, p⟩).tokens, t.Genuine := by
  induction cs using scan_induction generalizing p with
  | nil => rw [ofCursor_nil]; nofun
  | stuck c cs h => rw [ofCursor_stuck h]; nofun
  | token cs x kind h hk ih =>
    rw [ofCursor_token h hk, cons_tokens, List.forall_mem_cons]
    refine ⟨⟨⟨x.chars, [], x.kind⟩, ?_, rfl, hk⟩, ih⟩
    rw [String.toList_ofList]
    exact Lexeme.first?_self h
  | skip cs x h hk ih =>
    rw [ofCursor_skip h hk]
    exact ih

/-- Every token of a source is genuine. -/
theorem Stream.genuine_of_ofSource {source : String} {ts : List Token} {fault : Option LexFault}
    (h : ofSource source = ⟨ts, fault⟩) : ∀ t ∈ ts, t.Genuine := by
  rw [← show (ofSource source).tokens = ts by rw [h]]
  exact genuine_of_mem

/-- A run of word characters that does not start with a digit. -/
def Text.IsWordRun (s : String) : Prop :=
  ∃ c cs, s.toList = c :: cs ∧ isDigit c = false ∧ ∀ d ∈ c :: cs, isWord d = true

/-- A word that is not reserved. -/
def Text.IsName (s : String) : Prop := IsWordRun s ∧ Keyword.ofText? s = none

/-- A run of digits. -/
def Text.IsDigitRun (s : String) : Prop := s ≠ "" ∧ s.toList.all isDigit = true

/-- A text between two equal quotes, without that quote in it. -/
def Text.IsQuoted (s : String) : Prop :=
  ∃ q body, (q = '"' ∨ q = '\'') ∧ q ∉ body ∧ s.toList = q :: (body ++ [q])

/-- The tokens of one or two characters, one by one. -/
def signs : List (TokenKind × String) :=
  rules.flatMap fun rule => rule.kind.toList.flatMap fun kind => rule.pattern.spellings.map fun l => (kind, .ofList l)

/-! ## The genuine tokens one by one -/

/-- The rules for a word character: digits stand before words. -/
theorem rules_filter_word {c : Char} (hc : Text.isWord c = true) : (rules.filter fun rule => rule.pattern.opens c) =
    if Text.isDigit c = true then [⟨.run .digit, some .number⟩, ⟨.run .word, some .name⟩]
    else [⟨.run .word, some .name⟩] := by
  have hblank : Text.isBlank c = false := by
    cases hb : Text.isBlank c with
    | false => rfl
    | true => rw [Text.isWord_of_isBlank hb] at hc; cases hc
  have hne : ∀ d : Char, Text.isWord d = false → c ≠ d := fun d => Text.ne_of_class hc
  have hsigns : [';', '{', '}', '(', ')', ',', '=', '!', '*', '/', '+', '-', '<', '>', '&', '|', '"', '\''].all
      (fun d => !Text.isWord d) = true := by
    decide
  simp only [List.all_cons, Bool.and_eq_true, Bool.not_eq_true'] at hsigns
  simp [rules, List.filter_cons, Pattern.opens, CharClass.holds, hc, hblank, hne, hsigns]

/-- A digit opens a number, which ends where no digit follows. -/
theorem Lexeme.first?_digit {c : Char} {cs : List Char} (hc : Text.isDigit c = true) :
    first? (c :: cs) = some ⟨c :: cs.takeWhile Text.isDigit, cs.dropWhile Text.isDigit, some .number⟩ := by
  rw [first?_cons, rules_filter_word (Text.isWord_of_isDigit c hc), if_pos hc]
  simp [Rule.lexeme?, Pattern.split?, CharClass.holds, hc]

/-- Any other word character opens a word. -/
theorem Lexeme.first?_word {c : Char} {cs : List Char} (hc : Text.isWord c = true) (hd : Text.isDigit c = false) :
    first? (c :: cs) = some ⟨c :: cs.takeWhile Text.isWord, cs.dropWhile Text.isWord, some .name⟩ := by
  rw [first?_cons, rules_filter_word hc, if_neg (by simp [hd])]
  simp [Rule.lexeme?, Pattern.split?, CharClass.holds, hc]

/-- The rules of tokens: those of one or two characters, and one for each of the other shapes. -/
theorem rules_cases : ∀ rule ∈ rules, ∀ kind, rule.kind = some kind → (rule.pattern.isListed = true ∧ kind ≠ .name) ∨
    rule = ⟨.run .digit, some .number⟩ ∨ rule = ⟨.run .word, some .name⟩ ∨
    ∃ q, (q = '"' ∨ q = '\'') ∧ rule = ⟨.quoted q, some .text⟩ := by
  intro rule hrule kind hkind
  have hlisted : ∀ rule ∈ rules, rule.pattern.isListed = true → rule.kind ≠ some .name := by decide
  have hother : ∀ rule ∈ rules, rule.pattern.isListed = false → rule.kind ≠ none →
      rule = ⟨.run .digit, some .number⟩ ∨ rule = ⟨.run .word, some .name⟩ ∨ rule = ⟨.quoted '"', some .text⟩ ∨
      rule = ⟨.quoted '\'', some .text⟩ := by
    decide
  cases h : rule.pattern.isListed with
  | true =>
    refine .inl ⟨rfl, ?_⟩
    rintro rfl
    exact hlisted rule hrule h hkind
  | false =>
    right
    rcases hother rule hrule h (by simp [hkind]) with h | h | h | h
    · exact .inl h
    · exact .inr (.inl h)
    · exact .inr (.inr ⟨_, .inl rfl, h⟩)
    · exact .inr (.inr ⟨_, .inr rfl, h⟩)

namespace Token

variable {t : Token}

/-- A genuine token is a sign, a run of digits, a word or a quoted text. -/
theorem Genuine.cases (h : t.Genuine) : (t.kind, t.text) ∈ signs ∨ (t.kind = .number ∧ Text.IsDigitRun t.text) ∨
    (t.kind = .ofWord t.text ∧ Text.IsWordRun t.text) ∨ (t.kind = .text ∧ Text.IsQuoted t.text) := by
  obtain ⟨x, hx, hrest, hk⟩ := h
  have hchars : x.chars = t.text.toList := by
    have := (Lexeme.first?_append hx).1
    rwa [hrest, List.append_nil] at this
  have htext : String.ofList x.chars = t.text := by rw [hchars, String.ofList_toList]
  obtain ⟨above, rule, below, hrules, -, hsplit, hkind⟩ := Lexeme.first?_eq_some_iff.mp hx
  have hrule : rule ∈ rules := by simp [hrules]
  obtain ⟨kind, hxkind, hk⟩ := Option.map_eq_some_iff.mp hk
  rw [htext] at hk
  rcases rules_cases rule hrule kind (hkind ▸ hxkind) with ⟨hlisted, hne⟩ | rfl | rfl | ⟨q, hq, rfl⟩
  · left
    rw [if_neg hne] at hk
    refine List.mem_flatMap.mpr ⟨rule, hrule, List.mem_flatMap.mpr ⟨kind, by simp [← hkind, hxkind], ?_⟩⟩
    rw [← hk, ← htext]
    exact List.mem_map_of_mem (Pattern.mem_spellings hlisted hsplit)
  · obtain rfl : kind = .number := by simpa [hxkind] using hkind
    obtain ⟨-, -, hall⟩ := Pattern.split?_run_eq_some hsplit
    refine .inr (.inl ⟨hk.symm, fun hnil => ?_, ?_⟩)
    · rw [hnil] at hchars
      exact (Lexeme.first?_append hx).2 hchars
    · rw [← hchars, List.all_eq_true]
      exact hall
  · obtain rfl : kind = .name := by simpa [hxkind] using hkind
    obtain ⟨-, -, hall⟩ := Pattern.split?_run_eq_some hsplit
    refine .inr (.inr (.inl ⟨hk.symm, ?_⟩))
    cases hcs : t.text.toList with
    | nil => exact absurd (hchars.trans hcs) (Lexeme.first?_append hx).2
    | cons c cs =>
      rw [hchars, hcs] at hall
      refine ⟨c, cs, hcs, ?_, hall⟩
      cases hd : Text.isDigit c with
      | false => rfl
      | true =>
        -- A digit at the front would have made it a number.
        rw [hcs, Lexeme.first?_digit hd] at hx
        cases hx
        cases hxkind
  · obtain rfl : kind = .text := by simpa [hxkind] using hkind
    obtain ⟨ds, body, -, hcut, hl⟩ := Pattern.split?_quoted_eq_some hsplit
    obtain ⟨body, rfl, hbody⟩ := cutAfter_singleton_eq_some hcut
    exact .inr (.inr (.inr ⟨hk.symm, q, body, hq, hbody, by rw [← hchars, hl]⟩))

/-- A genuine token that starts with neither a word character nor a quote is a sign. -/
theorem Genuine.mem_signs (h : t.Genuine) {c : Char} (hc : t.text.toList.head? = some c) (hword : Text.isWord c = false)
    (hquote : c ≠ '"' ∧ c ≠ '\'') : (t.kind, t.text) ∈ signs := by
  obtain ⟨cs, hcs⟩ := List.head?_eq_some_iff.mp hc
  rcases h.cases with hsign | ⟨-, -, hall⟩ | ⟨-, d, ds, hds, -, hall⟩ | ⟨-, q, body, hq, -, htext⟩
  · exact hsign
  · rw [hcs, List.all_cons, Bool.and_eq_true] at hall
    rw [Text.isWord_of_isDigit c hall.1] at hword
    cases hword
  · rw [hcs] at hds
    cases hds
    rw [hall c (by simp)] at hword
    cases hword
  · rw [hcs] at htext
    cases htext
    exact (hq.elim hquote.1 hquote.2).elim

/-- Where a token stands does not matter. -/
theorem Genuine.congr {u : Token} (h : u.Genuine) (hk : u.kind = t.kind) (htext : u.text = t.text) : t.Genuine := by
  unfold Genuine at h ⊢
  rwa [hk, htext] at h

/-- Every sign can stand in a source. -/
theorem genuine_sign (h : (t.kind, t.text) ∈ signs) : t.Genuine := by
  have hall : ∀ sign ∈ signs, Genuine ⟨sign.1, sign.2, .start⟩ := by decide +kernel
  exact (hall _ h).congr rfl rfl

/-- Every run of digits can stand in a source. -/
theorem genuine_number (hk : t.kind = .number) (h : Text.IsDigitRun t.text) : t.Genuine := by
  obtain ⟨hne, hall⟩ := h
  cases hcs : t.text.toList with
  | nil => exact absurd (String.toList_inj.mp hcs) hne
  | cons c cs =>
    rw [hcs, List.all_cons, Bool.and_eq_true, List.all_eq_true] at hall
    refine ⟨⟨c :: cs, [], some .number⟩, ?_, rfl, by rw [hk]; rfl⟩
    rw [hcs, Lexeme.first?_digit hall.1, List.takeWhile_eq_self_iff.mpr hall.2, List.dropWhile_eq_nil_iff.mpr hall.2]
    rfl

/-- Every word can stand in a source, with the kind of the word. -/
theorem genuine_word (hk : t.kind = .ofWord t.text) (h : Text.IsWordRun t.text) : t.Genuine := by
  obtain ⟨c, cs, hcs, hdigit, hall⟩ := h
  rw [List.forall_mem_cons] at hall
  refine ⟨⟨c :: cs, [], some .name⟩, ?_, rfl, ?_⟩
  · rw [hcs, Lexeme.first?_word hall.1 hdigit, List.takeWhile_eq_self_iff.mpr hall.2, List.dropWhile_eq_nil_iff.mpr hall.2]
    rfl
  · simp only [Lexeme.tokenKind?, Option.map_some, if_true, ← hcs, String.ofList_toList, hk]

/-- Every quoted text can stand in a source. -/
theorem genuine_text (hk : t.kind = .text) (h : Text.IsQuoted t.text) : t.Genuine := by
  obtain ⟨q, body, hq, hbody, htext⟩ := h
  refine ⟨⟨q :: (body ++ [q]), [], some .text⟩, ?_, rfl, by rw [hk]; rfl⟩
  rw [htext, Lexeme.first?_quote hq, cutAfter_singleton hbody]
  rfl

/-- In front of a blank a genuine token is read back. -/
theorem Genuine.first?_append_blank (h : t.Genuine) {b : Char} (hb : Text.isBlank b = true) (more : List Char) :
    ∃ x, Lexeme.first? (t.text.toList ++ b :: more) = some x ∧ x.chars = t.text.toList ∧ x.rest = b :: more ∧
      x.tokenKind? = some t.kind := by
  obtain ⟨x, hx, hrest, hk⟩ := h
  have hkind : x.kind ≠ none := by
    intro hnone
    simp [Lexeme.tokenKind?, hnone] at hk
  have hopen : ¬['/', '*'] <+: t.text.toList := by
    rintro ⟨ds, hds⟩
    rw [← hds] at hx
    rw [Lexeme.eq_slash_of_first?_opener hx hkind] at hrest
    cases hrest
  refine ⟨_, Lexeme.first?_append_blank hx hkind hopen hb, ?_, by rw [hrest]; rfl, hk⟩
  have := (Lexeme.first?_append hx).1
  rwa [hrest, List.append_nil] at this

end Token

/-! ## The texts of a kind -/

/-- The kinds of the tokens of one or two characters. -/
def TokenKind.isSign : TokenKind → Bool
  | number | text | name | keyword _ => false
  | _ => true

/-- Words are no signs. -/
theorem TokenKind.isSign_ofWord (word : String) : (ofWord word).isSign = false := by
  unfold ofWord
  split <;> rfl

/-- A word is a name unless it is reserved. -/
theorem TokenKind.ofWord_eq_name_iff {word : String} : ofWord word = name ↔ Keyword.ofText? word = none := by
  unfold ofWord
  split
  · next h => simp [h]
  · next h => simp [h]

/-- No word is a number or a text. -/
theorem TokenKind.ofWord_ne (word : String) : ofWord word ≠ number ∧ ofWord word ≠ text := by
  unfold ofWord
  split <;> exact ⟨nofun, nofun⟩

theorem kind_ne_of_mem_signs : ∀ sign ∈ signs, sign.1 ≠ .number ∧ sign.1 ≠ .name ∧ sign.1 ≠ .text := by decide

namespace Token

variable {t : Token}

/-- A genuine token of the kind of a sign is one. -/
theorem Genuine.mem_signs_of_isSign (h : t.Genuine) (hk : t.kind.isSign = true) : (t.kind, t.text) ∈ signs := by
  rcases h.cases with hsign | ⟨hk', -⟩ | ⟨hk', -⟩ | ⟨hk', -⟩
  · exact hsign
  · rw [hk'] at hk
    cases hk
  · rw [hk', TokenKind.isSign_ofWord] at hk
    cases hk
  · rw [hk'] at hk
    cases hk

/-- A genuine number is a run of digits. -/
theorem Genuine.isDigitRun (h : t.Genuine) (hk : t.kind = .number) : Text.IsDigitRun t.text := by
  rcases h.cases with hsign | ⟨-, hrun⟩ | ⟨hk', -⟩ | ⟨hk', -⟩
  · exact absurd hk (kind_ne_of_mem_signs _ hsign).1
  · exact hrun
  · exact absurd (hk'.symm.trans hk) (TokenKind.ofWord_ne _).1
  · rw [hk] at hk'
    cases hk'

/-- A genuine name is a word that is not reserved. -/
theorem Genuine.isName (h : t.Genuine) (hk : t.kind = .name) : Text.IsName t.text := by
  rcases h.cases with hsign | ⟨hk', -⟩ | ⟨hk', hrun⟩ | ⟨hk', -⟩
  · exact absurd hk (kind_ne_of_mem_signs _ hsign).2.1
  · rw [hk] at hk'
    cases hk'
  · exact ⟨hrun, TokenKind.ofWord_eq_name_iff.mp (hk'.symm.trans hk)⟩
  · rw [hk] at hk'
    cases hk'

/-- A genuine text stands between quotes. -/
theorem Genuine.isQuoted (h : t.Genuine) (hk : t.kind = .text) : Text.IsQuoted t.text := by
  rcases h.cases with hsign | ⟨hk', -⟩ | ⟨hk', -⟩ | ⟨-, hquoted⟩
  · exact absurd hk (kind_ne_of_mem_signs _ hsign).2.2
  · rw [hk] at hk'
    cases hk'
  · exact absurd (hk'.symm.trans hk) (TokenKind.ofWord_ne _).2
  · exact hquoted

/-- A word that is not reserved is a genuine name. -/
theorem genuine_name (hk : t.kind = .name) (h : Text.IsName t.text) : t.Genuine :=
  genuine_word (hk.trans (TokenKind.ofWord_eq_name_iff.mpr h.2).symm) h.1

end Token

/-! ## A token of every kind -/

/-- A token of a kind. -/
def TokenKind.sample (kind : TokenKind) : Token :=
  match kind with
  | number => ⟨number, "0", .start⟩
  | text => ⟨text, "\"\"", .start⟩
  | name => ⟨name, "x", .start⟩
  | equality => ⟨equality, "==", .start⟩
  | assign => ⟨assign, "=", .start⟩
  | compoundAssign => ⟨compoundAssign, "+=", .start⟩
  | additive => ⟨additive, "+", .start⟩
  | multiplicative => ⟨multiplicative, "*", .start⟩
  | relational => ⟨relational, "<", .start⟩
  | logicalAnd => ⟨logicalAnd, "&&", .start⟩
  | logicalOr => ⟨logicalOr, "||", .start⟩
  | logicalNot => ⟨logicalNot, "!", .start⟩
  | kind => ⟨kind, kind.label, .start⟩

@[simp] theorem TokenKind.sample_kind (kind : TokenKind) : kind.sample.kind = kind := by
  cases kind <;> rfl

/-- Of every kind there is a token that can stand in a source. -/
theorem TokenKind.sample_genuine (kind : TokenKind) : kind.sample.Genuine := by
  cases kind with
  | keyword word => cases word <;> decide +kernel
  | _ => decide +kernel

/-! ## Tokens with spaces between them -/

namespace Token

/-- The characters of tokens with single spaces between them. -/
def spaced (ts : List Token) : String := " ".intercalate (ts.map text)

end Token

/-- In front of a space a genuine token is read back, and reading goes on behind the space. -/
theorem Stream.ofCursor_genuine_space {t : Token} (ht : t.Genuine) (cs : List Char) (p : Position) :
    ofCursor ⟨t.text.toList ++ ' ' :: cs, p⟩ =
      cons ⟨t.kind, t.text, p⟩ (ofCursor ⟨cs, (p.advance t.text.toList).step ' '⟩) := by
  obtain ⟨x, hx, hchars, hrest, hk⟩ := ht.first?_append_blank (b := ' ') rfl cs
  rw [ofCursor_token hx hk, hchars, hrest, String.ofList_toList, ofCursor_blank rfl]

/-- A genuine token by itself is read back. -/
theorem Stream.ofCursor_genuine {t : Token} (ht : t.Genuine) (p : Position) :
    ofCursor ⟨t.text.toList, p⟩ = ⟨[⟨t.kind, t.text, p⟩], none⟩ := by
  obtain ⟨x, hx, hrest, hk⟩ := ht
  have hchars := (Lexeme.first?_append hx).1
  rw [hrest, List.append_nil] at hchars
  rw [ofCursor_token hx hk, hrest, ofCursor_nil, hchars, String.ofList_toList]
  rfl

/-- Genuine tokens with single spaces between them are read back, each at some position. -/
theorem Stream.ofCursor_spaced {ts : List Token} (h : ∀ t ∈ ts, t.Genuine) (p q : Position) :
    (ofCursor ⟨(Token.spaced ts).toList, p⟩).moved (fun _ => q) = ⟨ts.map (Token.moved fun _ => q), none⟩ := by
  induction ts generalizing p with
  | nil =>
    rw [show (Token.spaced []).toList = [] from rfl, ofCursor_nil]
    rfl
  | cons t ts ih =>
    rw [List.forall_mem_cons] at h
    cases ts with
    | nil =>
      rw [show Token.spaced [t] = t.text from String.intercalate_singleton, ofCursor_genuine h.1]
      rfl
    | cons u ts =>
      have htext : (Token.spaced (t :: u :: ts)).toList = t.text.toList ++ ' ' :: (Token.spaced (u :: ts)).toList := by
        simp [Token.spaced]
      rw [htext, ofCursor_genuine_space h.1, moved_cons, ih h.2]
      rfl

end Scriptlet
