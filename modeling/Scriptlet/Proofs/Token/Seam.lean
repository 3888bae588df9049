import Mathlib.Data.List.Chain
import Scriptlet.Proofs.Token.Scan

/-!
# Seams: what is put behind a text

A blank or a comment put behind a text, with anything behind it, leaves the lexeme at the front of the text as it was,
provided that lexeme is a token. There are two exceptions: a comment opener without its closing mark is read as two
operators, and what is put behind it may close it; and a slash by itself becomes a part of a comment put behind it. What only
separates is passed whatever follows, but for a line comment, which goes on up to a line feed.
-/

namespace Scriptlet

/-! ## Blanks are in no other class -/

/-- The code points of the blanks, one by one. -/
def Text.blankCodes : List Nat :=
  [9, 10, 11, 12, 13, 32, 133, 160, 5760, 8192, 8193, 8194, 8195, 8196, 8197, 8198, 8199, 8200, 8201, 8202, 8232, 8233, 8239,
   8287, 12288]

/-- The blanks, listed one by one. -/
theorem Text.mem_blankCodes {b : Char} (h : isBlank b = true) : b.toNat ∈ blankCodes := by
  have hcodes : blankCodes = blankRanges.flatMap fun range => List.range' range.1 (range.2 + 1 - range.1) := by
    decide
  obtain ⟨⟨lo, hi⟩, hmem, hrange⟩ := List.any_eq_true.mp h
  rw [Bool.and_eq_true, decide_eq_true_eq, decide_eq_true_eq] at hrange
  rw [hcodes, List.mem_flatMap]
  exact ⟨(lo, hi), hmem, List.mem_range'_1.mpr (by omega)⟩

/-- What is true of each blank by its code point is true of every blank. -/
theorem Text.forall_isBlank {P : Char → Prop} (h : ∀ n ∈ blankCodes, P (Char.ofNat n)) {b : Char} (hb : isBlank b = true) :
    P b := by
  have := h b.toNat (mem_blankCodes hb)
  rwa [Char.ofNat_toNat] at this

/-- No blank is a word character. -/
theorem Text.isWord_of_isBlank {b : Char} (hb : isBlank b = true) : isWord b = false :=
  forall_isBlank (P := fun b => isWord b = false) (by decide +kernel) hb

theorem Text.isDigit_of_isBlank {b : Char} (hb : isBlank b = true) : isDigit b = false :=
  forall_isBlank (P := fun b => isDigit b = false) (by decide +kernel) hb

/-! ## Patterns in front of a blank -/

/-- Taking characters ends at the latest at one that is not wanted. -/
theorem takeWhile_append_stop {p : Char → Bool} {b : Char} {cs more : List Char} (hb : p b = false) :
    (cs ++ b :: more).takeWhile p = cs.takeWhile p := by
  induction cs with
  | nil => simp [hb]
  | cons d cs ih => simp only [List.cons_append, List.takeWhile_cons, ih]

/-- Dropping characters ends at the latest at one that is not wanted. -/
theorem dropWhile_append_stop {p : Char → Bool} {b : Char} {cs more : List Char} (hb : p b = false) :
    (cs ++ b :: more).dropWhile p = cs.dropWhile p ++ b :: more := by
  induction cs with
  | nil => simp [hb]
  | cons d cs ih =>
    simp only [List.cons_append, List.dropWhile_cons, ih]
    split <;> rfl

/-- A cut behind a mark has the mark in front of it. -/
theorem cutAfter_suffix {mark cs l r : List Char} (h : cutAfter mark cs = some (l, r)) : mark <:+ l := by
  induction cs generalizing l r with
  | nil => cases h
  | cons c cs ih =>
    rw [cutAfter] at h
    split at h
    · cases h
      exact List.suffix_refl _
    · obtain ⟨⟨l', r'⟩, hcut, heq⟩ := Option.map_eq_some_iff.mp h
      cases heq
      exact (ih hcut).trans (List.suffix_cons _ _)

/-- A cut behind a mark is the same whatever follows. -/
theorem cutAfter_append_right {mark cs l r : List Char} (h : cutAfter mark cs = some (l, r)) (tail : List Char) :
    cutAfter mark (cs ++ tail) = some (l, r ++ tail) := by
  induction cs generalizing l r with
  | nil => cases h
  | cons c cs ih =>
    rw [cutAfter] at h
    rw [List.cons_append, cutAfter]
    split at h
    · next hm =>
      cases h
      obtain ⟨t, ht⟩ := List.isPrefixOf_iff_prefix.mp hm
      have hm' : mark.isPrefixOf (c :: (cs ++ tail)) = true := by
        rw [List.isPrefixOf_iff_prefix, ← List.cons_append, ← ht, List.append_assoc]
        exact List.prefix_append _ _
      rw [if_pos hm', ← List.cons_append, ← ht, List.append_assoc, List.drop_left, List.drop_left]
    · next hm =>
      obtain ⟨⟨l', r'⟩, hcut, heq⟩ := Option.map_eq_some_iff.mp h
      cases heq
      -- The mark stands further on, so the text is long enough to show that it does not stand here.
      have hm' : ¬mark.isPrefixOf (c :: (cs ++ tail)) = true := by
        intro hpre
        apply hm
        rw [List.isPrefixOf_iff_prefix] at hpre ⊢
        have hle : mark.length ≤ (c :: cs).length := by
          have h₁ := (cutAfter_suffix hcut).length_le
          have h₂ := congrArg List.length (cutAfter_append hcut)
          simp only [List.length_append, List.length_cons] at h₂ ⊢
          omega
        exact List.prefix_of_prefix_length_le hpre (List.prefix_append (c :: cs) tail) hle
      rw [if_neg hm', ih hcut]
      rfl

namespace Pattern

/-- The characters that a lexeme of a pattern can start with. -/
def opens : Pattern → Char → Bool
  | run cls, c => cls.holds c
  | single set, c => c ∈ set
  | pair set _, c => c ∈ set
  | singleOrPair set _, c => c ∈ set
  | lineComment, c => c = '/'
  | blockComment, c => c = '/'
  | quoted quote, c => c = quote

/-- A pattern does not apply in front of a character that none of its lexemes starts with. -/
theorem split?_of_opens {p : Pattern} {c : Char} (h : p.opens c = false) (cs : List Char) : p.split? (c :: cs) = none := by
  unfold split?
  split <;> simp_all [opens]

/-! What is known of a text when a pattern of any length applies. -/

/-- A run is cut where its class ends. -/
theorem split?_run_eq_some {cls : CharClass} {cs l r : List Char} (h : split? (run cls) cs = some (l, r)) :
    l = cs.takeWhile cls.holds ∧ r = cs.dropWhile cls.holds ∧ ∀ c ∈ l, cls.holds c = true := by
  cases cs with
  | nil => cases h
  | cons c cs =>
    simp only [split?] at h
    split at h
    · next hc =>
      cases h
      rw [List.takeWhile_cons_of_pos hc, List.dropWhile_cons_of_pos hc]
      refine ⟨rfl, rfl, ?_⟩
      rw [List.forall_mem_cons]
      exact ⟨hc, List.all_eq_true.mp List.all_takeWhile⟩
    · cases h

/-- A line comment is cut in front of the line feed. -/
theorem split?_lineComment_eq_some {cs l r : List Char} (h : split? lineComment cs = some (l, r)) :
    ∃ ds, cs = '/' :: '/' :: ds ∧ l = '/' :: '/' :: ds.takeWhile (· ≠ '\n') ∧ r = ds.dropWhile (· ≠ '\n') := by
  unfold split? at h
  split at h <;> simp_all

/-- A block comment is cut behind the mark that closes it. -/
theorem split?_blockComment_eq_some {cs l r : List Char} (h : split? blockComment cs = some (l, r)) :
    ∃ ds body, cs = '/' :: '*' :: ds ∧ cutAfter ['*', '/'] ds = some (body, r) ∧ l = '/' :: '*' :: body := by
  unfold split? at h
  split at h <;> simp_all
  obtain ⟨body, h, rfl⟩ := h
  exact ⟨body, h, rfl⟩

/-- A quoted text is cut behind the second quote. -/
theorem split?_quoted_eq_some {q : Char} {cs l r : List Char} (h : split? (quoted q) cs = some (l, r)) :
    ∃ ds body, cs = q :: ds ∧ cutAfter [q] ds = some (body, r) ∧ l = q :: body := by
  cases cs with
  | nil => cases h
  | cons c cs =>
    simp only [split?] at h
    split at h
    · next hc =>
      obtain ⟨⟨body, r'⟩, hcut, heq⟩ := Option.map_eq_some_iff.mp h
      cases heq
      exact ⟨cs, body, by rw [hc], hcut, by rw [hc]⟩
    · cases h

/-! What is put behind a text. -/

/-- What is put behind a text goes behind the rest that a pattern leaves, and changes nothing else. -/
def Steady (p : Pattern) (cs tail : List Char) : Prop :=
  p.split? (cs ++ tail) = (p.split? cs).map fun (l, r) => (l, r ++ tail)

variable {c b : Char} {cs more : List Char}

/-- A run ends at a blank, unless it is one of blanks. -/
theorem steady_run {cls : CharClass} (h : cls.holds b = false ∨ cls.holds c = false) :
    Steady (run cls) (c :: cs) (b :: more) := by
  simp only [Steady, List.cons_append, split?]
  by_cases hc : cls.holds c = true
  · have hb : cls.holds b = false := h.resolve_right (by simp [hc])
    rw [if_pos hc, if_pos hc, takeWhile_append_stop hb, dropWhile_append_stop hb]
    rfl
  · rw [if_neg hc, if_neg hc]
    rfl

/-- A single character takes nothing from behind. -/
theorem steady_single (set : List Char) : Steady (single set) (c :: cs) (b :: more) := by
  simp only [Steady, List.cons_append, split?]
  split <;> rfl

/-- A pair takes nothing from behind, unless what stands there could complete it. -/
theorem steady_pair (set : List Char) {last : Char} (h : b ≠ last) : Steady (pair set last) (c :: cs) (b :: more) := by
  cases cs with
  | nil => simp [Steady, split?, h]
  | cons d cs =>
    simp only [Steady, List.cons_append, split?]
    split <;> rfl

/-- The same where the second character of a pair may be missing. -/
theorem steady_singleOrPair (set : List Char) {last : Char} (h : b ≠ last) :
    Steady (singleOrPair set last) (c :: cs) (b :: more) := by
  simp only [Steady, List.cons_append, split?]
  cases cs with
  | nil => by_cases hc : c ∈ set <;> simp [hc, h]
  | cons d cs => by_cases hc : c ∈ set <;> by_cases hd : d = last <;> simp [hc, hd]

/-- A line comment is not opened by what is put behind, unless that completes its mark. -/
theorem steady_lineComment (hb : b = '/' → c :: cs ≠ ['/']) (h : ¬['/', '/'] <+: c :: cs) :
    Steady lineComment (c :: cs) (b :: more) := by
  have hnone : ∀ ds, ¬['/', '/'] <+: ds → split? lineComment ds = none := by
    intro ds hds
    unfold split?
    split <;> simp_all
  have h' : ¬['/', '/'] <+: c :: cs ++ b :: more := by
    cases cs with
    | nil =>
      intro hpre
      simp only [List.cons_append, List.nil_append, List.cons_prefix_cons, List.nil_prefix, and_true] at hpre
      exact hb hpre.2.symm (by rw [hpre.1])
    | cons d cs => simpa using h
  rw [Steady, hnone _ h, hnone _ h']
  rfl

/-- A block comment is not opened by what is put behind. -/
theorem steady_blockComment (hb : b ≠ '*') (h : ¬['/', '*'] <+: c :: cs) : Steady blockComment (c :: cs) (b :: more) := by
  have hnone : ∀ ds, ¬['/', '*'] <+: ds → split? blockComment ds = none := by
    intro ds hds
    unfold split?
    split <;> simp_all
  have h' : ¬['/', '*'] <+: c :: cs ++ b :: more := by
    cases cs with
    | nil => simp [hb.symm]
    | cons d cs => simpa using h
  rw [Steady, hnone _ h, hnone _ h']
  rfl

/-- A quoted text with its closing quote is the same whatever follows. -/
theorem steady_quoted {q : Char} (h : c = q → cutAfter [q] cs ≠ none) (tail : List Char) :
    Steady (quoted q) (c :: cs) tail := by
  simp only [Steady, List.cons_append, split?]
  by_cases hc : c = q
  · obtain ⟨⟨l, r⟩, hcut⟩ := Option.ne_none_iff_exists'.mp (h hc)
    rw [if_pos hc, if_pos hc, cutAfter_append_right hcut tail, hcut]
    rfl
  · rw [if_neg hc, if_neg hc]
    rfl

end Pattern

/-! ## The lexeme at the front -/

namespace Lexeme

variable {c b q : Char} {cs more : List Char} {x : Lexeme}

/-- The rule of the lexeme at the front: it applies, and no rule above it does. -/
theorem first?_eq_some_iff : first? cs = some x ↔ ∃ above rule below, rules = above ++ rule :: below ∧
    (∀ r ∈ above, r.pattern.split? cs = none) ∧ rule.pattern.split? cs = some (x.chars, x.rest) ∧ x.kind = rule.kind := by
  simp only [first?, List.findSome?_eq_some_iff, Rule.lexeme?, Option.map_eq_some_iff, Option.map_eq_none_iff]
  constructor
  · rintro ⟨above, rule, below, hrules, ⟨⟨l, r⟩, hsplit, rfl⟩, hnone⟩
    exact ⟨above, rule, below, hrules, hnone, hsplit, rfl⟩
  · rintro ⟨above, rule, below, hrules, hnone, hsplit, hkind⟩
    refine ⟨above, rule, below, hrules, ⟨(x.chars, x.rest), hsplit, ?_⟩, hnone⟩
    rw [← hkind]

/-- Only the rules count whose lexemes can start with the character at the front. -/
theorem first?_cons (c : Char) (cs : List Char) :
    first? (c :: cs) = (rules.filter fun rule => rule.pattern.opens c).findSome? fun rule => rule.lexeme? (c :: cs) := by
  rw [first?]
  generalize rules = table
  induction table with
  | nil => rfl
  | cons rule table ih =>
    cases h : rule.pattern.opens c with
    | false =>
      have hnone : rule.lexeme? (c :: cs) = none := by
        rw [Rule.lexeme?, Pattern.split?_of_opens h, Option.map_none]
      rw [List.filter_cons_of_neg (by simp [h]), List.findSome?_cons, hnone, ih]
    | true => rw [List.filter_cons_of_pos (by simp [h]), List.findSome?_cons, List.findSome?_cons, ih]

/-- Blanks at the front are taken together. -/
theorem first?_blank (h : Text.isBlank c = true) :
    first? (c :: cs) = some ⟨c :: cs.takeWhile Text.isBlank, cs.dropWhile Text.isBlank, none⟩ :=
  first?_eq_some_iff.mpr ⟨[], _, _, rfl, nofun, if_pos h, rfl⟩

/-- A line comment at the front goes on to the end of its line. -/
theorem first?_lineComment (cs : List Char) : first? ('/' :: '/' :: cs) =
    some ⟨'/' :: '/' :: cs.takeWhile (· ≠ '\n'), cs.dropWhile (· ≠ '\n'), none⟩ := by
  refine first?_eq_some_iff.mpr ⟨[⟨.run .blank, none⟩], _, _, rfl, ?_, rfl, rfl⟩
  rw [List.forall_mem_singleton]
  exact Pattern.split?_of_opens (by decide) _

/-- A quote at the front opens a quoted text or nothing. -/
theorem first?_quote (hq : q = '"' ∨ q = '\'') (cs : List Char) :
    first? (q :: cs) = (cutAfter [q] cs).map fun (l, r) => ⟨q :: l, r, some .text⟩ := by
  have hrules : (rules.filter fun rule => rule.pattern.opens q) = [⟨.quoted q, some .text⟩] := by
    rcases hq with rfl | rfl <;> decide +kernel
  rw [first?_cons, hrules, List.findSome?_singleton, Rule.lexeme?, Pattern.split?, if_pos rfl, Option.map_map]
  rfl

/-- A comment opener at the front is a block comment if it has its closing mark, and else a slash. -/
theorem first?_opener (cs : List Char) : first? ('/' :: '*' :: cs) =
    match cutAfter ['*', '/'] cs with
    | some (l, r) => some ⟨'/' :: '*' :: l, r, none⟩
    | none => some ⟨['/'], '*' :: cs, some .multiplicative⟩ := by
  have hrules : (rules.filter fun rule => rule.pattern.opens '/') =
      [⟨.lineComment, none⟩, ⟨.blockComment, none⟩, ⟨.pair ['*', '/', '+', '-'] '=', some .compoundAssign⟩,
       ⟨.single ['*', '/'], some .multiplicative⟩] := by
    decide +kernel
  rw [first?_cons, hrules]
  cases hcut : cutAfter ['*', '/'] cs with
  | none => simp [Rule.lexeme?, Pattern.split?, hcut]
  | some cut => simp [Rule.lexeme?, Pattern.split?, hcut]

/-- Where a block comment is opened but not closed, the slash by itself is taken. -/
theorem eq_slash_of_first?_opener (h : first? ('/' :: '*' :: cs) = some x) (hk : x.kind ≠ none) :
    x = ⟨['/'], '*' :: cs, some .multiplicative⟩ := by
  rw [first?_opener] at h
  split at h
  · cases h
    exact absurd rfl hk
  · cases h
    rfl

/-- A star at the front is an operator, alone or with an equals sign. -/
theorem first?_star (cs : List Char) : first? ('*' :: cs) = some
    (if cs.head? = some '=' then ⟨['*', '='], cs.tail, some .compoundAssign⟩ else ⟨['*'], cs, some .multiplicative⟩) := by
  have hrules : (rules.filter fun rule => rule.pattern.opens '*') =
      [⟨.pair ['*', '/', '+', '-'] '=', some .compoundAssign⟩, ⟨.single ['*', '/'], some .multiplicative⟩] := by
    decide +kernel
  rw [first?_cons, hrules]
  cases cs with
  | nil => rfl
  | cons d cs => by_cases hd : d = '=' <;> simp [Rule.lexeme?, Pattern.split?, hd]

/-- The lexeme of a token is the same in front of a blank or a comment, unless it comes from a comment opener without its
closing mark, or is a slash that would open the comment. -/
theorem first?_append_divider (h : first? cs = some x) (hk : x.kind ≠ none) (hopen : ¬['/', '*'] <+: cs)
    (hb : Text.isBlank b = true ∨ b = '/') (hslash : b = '/' → cs ≠ ['/']) :
    first? (cs ++ b :: more) = some { x with rest := x.rest ++ b :: more } := by
  cases cs with
  | nil => cases h
  | cons c cs =>
  have hc : Text.isBlank c = false := by
    cases hc : Text.isBlank c with
    | false => rfl
    | true =>
      rw [first?_blank hc] at h
      cases h
      exact absurd rfl hk
  have hline : ¬['/', '/'] <+: c :: cs := by
    rintro ⟨ds, hds⟩
    rw [← hds] at h
    cases (first?_lineComment ds).symm.trans h
    exact hk rfl
  have hquote : ∀ q, q = '"' ∨ q = '\'' → c = q → cutAfter [q] cs ≠ none := by
    rintro q hq rfl hcut
    rw [first?_quote hq, hcut] at h
    cases h
  have hsteady : ∀ rule ∈ rules, Pattern.Steady rule.pattern (c :: cs) (b :: more) := by
    simp only [rules, List.forall_mem_cons, List.not_mem_nil, false_imp_iff, implies_true, and_true]
    have hne : ∀ d, Text.isBlank d = false → d ≠ '/' → b ≠ d := by
      intro d hd hd'
      rcases hb with hb | rfl
      · exact Text.ne_of_class hb hd
      · exact hd'.symm
    have hdigit : Text.isDigit b = false := hb.elim Text.isDigit_of_isBlank (by rintro rfl; rfl)
    have hword : Text.isWord b = false := hb.elim Text.isWord_of_isBlank (by rintro rfl; rfl)
    have hsingle : ∀ set, Pattern.Steady (.single set) (c :: cs) (b :: more) := Pattern.steady_single
    have hpair : ∀ set d, Text.isBlank d = false → d ≠ '/' → Pattern.Steady (.pair set d) (c :: cs) (b :: more) :=
      fun set d hd hd' => Pattern.steady_pair set (hne d hd hd')
    refine ⟨Pattern.steady_run (.inr hc), Pattern.steady_lineComment hslash hline,
      Pattern.steady_blockComment (hne _ rfl (by decide)) hopen, hsingle _, hsingle _, hsingle _, hsingle _, hsingle _,
      hsingle _, Pattern.steady_run (.inl hdigit), Pattern.steady_run (.inl hword), hpair _ _ rfl (by decide), hsingle _,
      hpair _ _ rfl (by decide), hsingle _, hsingle _, Pattern.steady_singleOrPair _ (hne _ rfl (by decide)),
      hpair _ _ rfl (by decide), hpair _ _ rfl (by decide), hsingle _, Pattern.steady_quoted (hquote _ (.inl rfl)) _,
      Pattern.steady_quoted (hquote _ (.inr rfl)) _⟩
  obtain ⟨above, rule, below, hrules, hnone, hsplit, hkind⟩ := first?_eq_some_iff.mp h
  refine first?_eq_some_iff.mpr ⟨above, rule, below, hrules, fun r hr => ?_, ?_, hkind⟩
  · rw [hsteady r (by simp [hrules, hr]), hnone r hr]
    rfl
  · rw [hsteady rule (by simp [hrules]), hsplit]
    rfl

/-- The lexeme of a token is the same in front of a blank, unless it comes from a comment opener without its closing mark. -/
theorem first?_append_blank (h : first? cs = some x) (hk : x.kind ≠ none) (hopen : ¬['/', '*'] <+: cs)
    (hb : Text.isBlank b = true) : first? (cs ++ b :: more) = some { x with rest := x.rest ++ b :: more } :=
  first?_append_divider h hk hopen (.inl hb) fun hslash => absurd hslash (Text.ne_of_class hb rfl)

/-- A lexeme with the kind of a token comes from a rule for tokens. -/
theorem kind_ne_none {kind : TokenKind} (hk : x.tokenKind? = some kind) : x.kind ≠ none := by
  intro hnone
  simp [tokenKind?, hnone] at hk

end Lexeme

/-! ## Separators -/

/-- A run of blanks. -/
def Text.IsBlankRun (cs : List Char) : Prop := cs ≠ [] ∧ ∀ c ∈ cs, isBlank c = true

/-- Two slashes and more, without a line feed. -/
def Text.IsLineComment (cs : List Char) : Prop := ∃ body, '\n' ∉ body ∧ cs = '/' :: '/' :: body

/-- A text between its opening and its closing mark, without a closing mark in it. -/
def Text.IsBlockComment (cs : List Char) : Prop := ∃ body, ¬['*', '/'] <:+: body ∧ cs = '/' :: '*' :: (body ++ ['*', '/'])

/-- A text that only separates. -/
def Text.IsSeparator (cs : List Char) : Prop := IsBlankRun cs ∨ IsLineComment cs ∨ IsBlockComment cs

/-- Behind the first place of a mark there is none further in front. -/
theorem cutAfter_eq_some {mark cs l r : List Char} (hmark : mark ≠ []) (h : cutAfter mark cs = some (l, r)) :
    ∃ body, ¬mark <:+: body ∧ l = body ++ mark := by
  induction cs generalizing l r with
  | nil => cases h
  | cons c cs ih =>
    rw [cutAfter] at h
    split at h
    · cases h
      exact ⟨[], by simpa using hmark, rfl⟩
    · next hm =>
      obtain ⟨⟨l', r'⟩, hcut, heq⟩ := Option.map_eq_some_iff.mp h
      cases heq
      obtain ⟨body, hbody, rfl⟩ := ih hcut
      refine ⟨c :: body, fun hinfix => ?_, rfl⟩
      rcases List.infix_cons_iff.mp hinfix with hpre | hinfix
      · apply hm
        rw [List.isPrefixOf_iff_prefix, ← cutAfter_append hcut, List.append_assoc, ← List.cons_append]
        exact hpre.trans (List.prefix_append _ _)
      · exact hbody hinfix

/-- The first closing mark of a comment is the one behind a text without such a mark. -/
theorem cutAfter_closing {body : List Char} (h : ¬['*', '/'] <:+: body) (tail : List Char) :
    cutAfter ['*', '/'] (body ++ '*' :: '/' :: tail) = some (body ++ ['*', '/'], tail) := by
  induction body with
  | nil => simp [cutAfter]
  | cons c body ih =>
    rw [List.infix_cons_iff, not_or] at h
    have hm : ¬['*', '/'].isPrefixOf (c :: (body ++ '*' :: '/' :: tail)) = true := by
      rw [List.isPrefixOf_iff_prefix]
      cases body with
      | nil => simp
      | cons d body => simpa using h.1
    rw [List.cons_append, cutAfter, if_neg hm, ih h.2]
    rfl

/-- A lexeme that is no token only separates. -/
theorem Lexeme.isSeparator_of_skip {cs : List Char} {x : Lexeme} (hx : first? cs = some x) (hk : x.tokenKind? = none) :
    Text.IsSeparator x.chars := by
  obtain ⟨above, rule, below, hrules, -, hsplit, hkind⟩ := first?_eq_some_iff.mp hx
  have hnone : rule.kind = none := by rw [← hkind]; simpa [tokenKind?] using hk
  have hpattern : ∀ rule ∈ rules, rule.kind = none →
      rule.pattern = .run .blank ∨ rule.pattern = .lineComment ∨ rule.pattern = .blockComment := by
    decide
  rcases hpattern rule (by simp [hrules]) hnone with hp | hp | hp <;> rw [hp] at hsplit
  · obtain ⟨-, -, hblank⟩ := Pattern.split?_run_eq_some hsplit
    exact .inl ⟨(first?_append hx).2, hblank⟩
  · obtain ⟨ds, -, hl, -⟩ := Pattern.split?_lineComment_eq_some hsplit
    refine .inr (.inl ⟨_, fun hmem => ?_, hl⟩)
    simpa using List.all_eq_true.mp List.all_takeWhile _ hmem
  · obtain ⟨ds, l, -, hcut, hl⟩ := Pattern.split?_blockComment_eq_some hsplit
    obtain ⟨body, hbody, rfl⟩ := cutAfter_eq_some (by decide) hcut
    exact .inr (.inr ⟨body, hbody, hl⟩)

/-- Behind a line comment the line ends. -/
theorem Lexeme.head_of_isLineComment {cs : List Char} {x : Lexeme} (hx : first? cs = some x)
    (h : Text.IsLineComment x.chars) : ∀ c ∈ x.rest.head?, c = '\n' := by
  obtain ⟨body, -, hchars⟩ := h
  have htext := (first?_append hx).1
  rw [hchars, List.cons_append, List.cons_append] at htext
  rw [← htext, first?_lineComment] at hx
  have hrest : (body ++ x.rest).dropWhile (· ≠ '\n') = x.rest := congrArg Lexeme.rest (Option.some.inj hx)
  intro c hc
  have hstop := List.head?_dropWhile_not (· ≠ '\n') (body ++ x.rest)
  rw [hrest, hc] at hstop
  simpa using hstop

/-! ## Streams -/

namespace Stream

variable {b : Char} {bs cs more : List Char} {p : Position} {ts : List Token}

/-- A blank at the front is passed. -/
theorem ofCursor_blank (hb : Text.isBlank b = true) : ofCursor ⟨b :: cs, p⟩ = ofCursor ⟨cs, p.step b⟩ := by
  rw [ofCursor_skip (Lexeme.first?_blank hb) rfl]
  cases cs with
  | nil => rfl
  | cons c cs =>
    cases hc : Text.isBlank c with
    | false => simp only [List.takeWhile_cons, List.dropWhile_cons, hc, Bool.false_eq_true, if_false]; rfl
    | true =>
      rw [ofCursor_skip (Lexeme.first?_blank hc) rfl]
      simp only [List.takeWhile_cons, List.dropWhile_cons, hc, if_true, Position.advance_cons]

/-- Blanks at the front are passed. -/
theorem ofCursor_blanks (hb : ∀ b ∈ bs, Text.isBlank b = true) : ofCursor ⟨bs ++ cs, p⟩ = ofCursor ⟨cs, p.advance bs⟩ := by
  induction bs generalizing p with
  | nil => rfl
  | cons b bs ih =>
    rw [List.cons_append, ofCursor_blank (hb b (by simp)), ih fun d hd => hb d (by simp [hd])]
    rfl

/-- Tokens in front of a stream. -/
def prepend (ts : List Token) (stream : Stream) : Stream := ⟨ts ++ stream.tokens, stream.fault⟩

/-- A slash directly in front of a token that starts with a star: a comment opener that was read as operators. -/
def Opener (t u : Token) : Prop := t.text = "/" ∧ u.text.toList.head? = some '*' ∧ u.position = t.position.step '/'

/-- A text that starts with an opener read as operators has such operators in front. -/
theorem not_opener_of_token {x : Lexeme} {kind : TokenKind} (hx : Lexeme.first? cs = some x) (hk : x.tokenKind? = some kind)
    (hopen : (ofCursor ⟨cs, p⟩).tokens.IsChain fun t u => ¬Opener t u) : ¬['/', '*'] <+: cs := by
  rintro ⟨ds, rfl⟩
  obtain rfl : x = ⟨['/'], '*' :: ds, some .multiplicative⟩ := Lexeme.eq_slash_of_first?_opener hx (Lexeme.kind_ne_none hk)
  have hstar := Lexeme.first?_star ds
  rw [ofCursor_token hx hk] at hopen
  split at hstar
  · rw [ofCursor_token hstar rfl] at hopen
    exact hopen.rel ⟨rfl, by simp, rfl⟩
  · rw [ofCursor_token hstar rfl] at hopen
    exact hopen.rel ⟨rfl, by simp, rfl⟩

/-- What only separates is passed whatever follows, but a line comment only in front of a line feed or at the end. -/
theorem ofCursor_separator (h : Text.IsSeparator bs) (hline : Text.IsLineComment bs → ∀ c ∈ cs.head?, c = '\n') :
    ofCursor ⟨bs ++ cs, p⟩ = ofCursor ⟨cs, p.advance bs⟩ := by
  rcases h with ⟨-, hblank⟩ | hbs | ⟨body, hbody, rfl⟩
  · exact ofCursor_blanks hblank
  · have hstop := hline hbs
    obtain ⟨body, hbody, rfl⟩ := hbs
    have hall : ∀ c ∈ body, decide (c ≠ '\n') = true := fun c hc => decide_eq_true fun heq => hbody (heq ▸ hc)
    rw [List.cons_append, List.cons_append, ofCursor_skip (Lexeme.first?_lineComment _) rfl,
      List.takeWhile_append_of_pos hall, List.dropWhile_append_of_pos hall]
    cases cs with
    | nil => rw [List.takeWhile_nil, List.dropWhile_nil, List.append_nil]
    | cons c cs =>
      obtain rfl := hstop c rfl
      rw [List.takeWhile_cons_of_neg (by simp), List.dropWhile_cons_of_neg (by simp), List.append_nil]
  · have hx := Lexeme.first?_opener (body ++ '*' :: '/' :: cs)
    rw [cutAfter_closing hbody] at hx
    have htext : '/' :: '*' :: (body ++ ['*', '/']) ++ cs = '/' :: '*' :: (body ++ '*' :: '/' :: cs) := by simp
    rw [htext, ofCursor_skip hx rfl]

/-- What only separates is passed in front of a line feed too. -/
theorem ofCursor_skip_newline {x : Lexeme} (hx : Lexeme.first? cs = some x) (hk : x.tokenKind? = none) (more : List Char) :
    ofCursor ⟨cs ++ '\n' :: more, p⟩ = ofCursor ⟨x.rest ++ '\n' :: more, p.advance x.chars⟩ := by
  have hline : Text.IsLineComment x.chars → ∀ c ∈ (x.rest ++ '\n' :: more).head?, c = '\n' := by
    intro hline
    have hhead := Lexeme.head_of_isLineComment hx hline
    cases hrest : x.rest with
    | nil => simp
    | cons d ds => simpa [hrest] using hhead
  have htext : cs ++ '\n' :: more = x.chars ++ (x.rest ++ '\n' :: more) := by
    rw [← (Lexeme.first?_append hx).1, List.append_assoc]
  rw [htext, ofCursor_separator (Lexeme.isSeparator_of_skip hx hk) hline]

/-- A line feed behind a text without such openers is a seam: the tokens in front of it are as they were, and the scan goes
on behind them as if it started there. -/
theorem ofCursor_newline (h : ofCursor ⟨cs, p⟩ = ⟨ts, none⟩) (hopen : ts.IsChain fun t u => ¬Opener t u) :
    ofCursor ⟨cs ++ '\n' :: more, p⟩ = prepend ts (ofCursor ⟨more, (p.advance cs).step '\n'⟩) := by
  induction cs using scan_induction generalizing p ts with
  | nil =>
    rw [ofCursor_nil] at h
    cases h
    exact ofCursor_blank rfl
  | stuck c cs hstuck =>
    rw [ofCursor_stuck hstuck] at h
    cases h
  | token cs x kind hx hk ih =>
    have hstar : ¬['/', '*'] <+: cs := not_opener_of_token hx hk (by rwa [h])
    rw [ofCursor_token hx hk] at h
    obtain ⟨us, rfl, hus⟩ := cons_eq h
    have happ : p.advance cs = (p.advance x.chars).advance x.rest := by
      rw [← Position.advance_append, (Lexeme.first?_append hx).1]
    rw [ofCursor_token (Lexeme.first?_append_blank hx (Lexeme.kind_ne_none hk) hstar rfl) hk, ih hus hopen.tail, happ]
    rfl
  | skip cs x hx hk ih =>
    rw [ofCursor_skip hx hk] at h
    have happ : p.advance cs = (p.advance x.chars).advance x.rest := by
      rw [← Position.advance_append, (Lexeme.first?_append hx).1]
    rw [ofCursor_skip_newline hx hk, ih h hopen, happ]

end Stream

end Scriptlet
