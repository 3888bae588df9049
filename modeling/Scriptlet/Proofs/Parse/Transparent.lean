import Scriptlet.Proofs.Parse.Concat
import Scriptlet.Proofs.Token.Tiling

/-!
# Blanks and comments do not matter

Blanks or a comment may be put into the source of a program in front of any token or behind one, and the program stays the
same. The one exception is a comment directly behind a slash, which would take the slash for its own. All that stands between
the tokens of a source may be replaced by single spaces, also where nothing stands between them.
-/

namespace Scriptlet

/-- A comment with what ends it: the line feed of its line, or its closing mark. -/
def Text.IsComment (cs : List Char) : Prop := (∃ line, IsLineComment line ∧ cs = line ++ ['\n']) ∨ IsBlockComment cs

theorem Text.IsBlockComment.not_isLineComment {cs : List Char} (h : IsBlockComment cs) : ¬IsLineComment cs := by
  obtain ⟨body, -, rfl⟩ := h
  rintro ⟨body', -, heq⟩
  cases heq

theorem Text.IsComment.exists_cons {cs : List Char} (h : IsComment cs) : ∃ more, cs = '/' :: more := by
  rcases h with ⟨_, ⟨body, -, rfl⟩, rfl⟩ | ⟨body, -, rfl⟩
  · exact ⟨_, rfl⟩
  · exact ⟨_, rfl⟩

/-- A comment is passed whatever follows. -/
theorem Stream.ofCursor_comment {bs cs : List Char} {p : Position} (h : Text.IsComment bs) :
    ofCursor ⟨bs ++ cs, p⟩ = ofCursor ⟨cs, p.advance bs⟩ := by
  rcases h with ⟨line, hline, rfl⟩ | hblock
  · rw [List.append_assoc, ofCursor_separator (.inr (.inl hline)) (by simp), List.singleton_append, ofCursor_blank rfl,
      Position.advance_append]
    rfl
  · exact ofCursor_separator (.inr (.inr hblock)) fun hline => absurd hline hblock.not_isLineComment

/-! ## Where tokens stand -/

namespace Token

variable {p : Position} {before front : List Char} {t : Token}

/-- A token starts where a text ends. -/
def Follows (p : Position) (before : List Char) (t : Token) : Prop := t.position = p.advance before

/-- A token is the end of a text. -/
def Closes (p : Position) (before : List Char) (t : Token) : Prop :=
  ∃ front, before = front ++ t.text.toList ∧ t.position = p.advance front

/-- A token starts or ends where a text ends. -/
def Touches (p : Position) (before : List Char) (t : Token) : Prop := t.Follows p before ∨ t.Closes p before

/-- A token that touches the end of a text does not stand behind it. -/
theorem Touches.not_before (h : t.Touches p before) : ¬(p.advance before).Before t.position := by
  intro hbefore
  rcases h with h | ⟨front, rfl, h⟩
  · rw [h] at hbefore
    exact Position.Before.irrefl _ hbefore
  · rw [h, Position.advance_append] at hbefore
    exact Position.Before.irrefl _ (hbefore.advance t.text.toList)

end Token

namespace Stream

variable {p : Position} {before after front cs : List Char} {t : Token} {x : Lexeme}

/-- A token of a text is that of the lexeme at its front or stands behind it. -/
theorem mem_tokens (hx : Lexeme.first? cs = some x) (ht : t ∈ (ofCursor ⟨cs, p⟩).tokens) :
    (t.position = p ∧ t.text.toList = x.chars) ∨ t ∈ (ofCursor ⟨x.rest, p.advance x.chars⟩).tokens := by
  cases hk : x.tokenKind? with
  | some kind =>
    rw [ofCursor_token hx hk, cons_tokens, List.mem_cons] at ht
    rcases ht with rfl | ht
    · exact .inl ⟨rfl, String.toList_ofList⟩
    · exact .inr ht
  | none =>
    rw [ofCursor_skip hx hk] at ht
    exact .inr ht

/-- A text that reaches up to a token reaches up to where the scan that found the token starts. -/
theorem append_of_position {rest chars : List Char} (ht : t ∈ (ofCursor ⟨rest, p.advance chars⟩).tokens)
    (hposition : ¬(p.advance front).Before t.position) {more more' : List Char} (h : chars ++ more = front ++ more') :
    ∃ mid, front = chars ++ mid ∧ more = mid ++ more' := by
  rcases List.append_eq_append_iff.mp h with hmid | ⟨mid, rfl, hmore⟩
  · exact hmid
  · cases mid with
    | nil => exact ⟨[], by simp, by simpa using hmore.symm⟩
    | cons c mid =>
      -- The place behind `front` would be in front of the place where the scan starts, and so in front of the token.
      have hbefore : (p.advance front).Before (p.advance (front ++ c :: mid)) := by
        rw [Position.advance_append]
        exact Position.before_advance (List.cons_ne_nil c mid) _
      exact absurd ((before_of_before hbefore rest).1 t ht) hposition

/-- A token behind a lexeme touches the end of a text as it touches the end of the part behind the lexeme. -/
theorem touches_behind {rest chars : List Char} (ht : t ∈ (ofCursor ⟨rest, p.advance chars⟩).tokens)
    (h : t.Touches p (chars ++ before)) : t.Touches (p.advance chars) before := by
  rcases h with h | ⟨front, htext, h⟩
  · exact .inl (h.trans (Position.advance_append ..))
  · have hposition : ¬(p.advance front).Before t.position := by
      rw [h]
      exact Position.Before.irrefl _
    obtain ⟨mid, rfl, rfl⟩ := append_of_position ht hposition htext
    exact .inr ⟨mid, rfl, h.trans (Position.advance_append ..)⟩

/-- A lexeme at the front of a text that ends at a token lies in that text, and either is all of it or has the token behind
it. -/
theorem exists_append_of_touches (hx : Lexeme.first? (before ++ after) = some x) (hne : before ≠ [])
    (ht : t ∈ (ofCursor ⟨before ++ after, p⟩).tokens) (h : t.Touches p before) :
    ∃ mid, before = x.chars ++ mid ∧ x.rest = mid ++ after ∧
      (mid = [] ∨ t ∈ (ofCursor ⟨x.rest, p.advance x.chars⟩).tokens ∧ t.Touches (p.advance x.chars) mid) := by
  have htext := (Lexeme.first?_append hx).1
  rcases mem_tokens hx ht with ⟨rfl, hchars⟩ | ht'
  · have hfront : ∀ {front}, t.position = t.position.advance front → front = [] := by
      intro front heq
      by_contra hfront
      have hbefore := Position.before_advance hfront t.position
      rw [← heq] at hbefore
      exact Position.Before.irrefl _ hbefore
    rcases h with h | ⟨front, rfl, h⟩
    · exact absurd (hfront h) hne
    · obtain rfl := hfront h
      rw [List.nil_append, hchars] at htext ⊢
      exact ⟨[], (List.append_nil _).symm, List.append_cancel_left htext, .inl rfl⟩
  · obtain ⟨mid, rfl, hrest⟩ := append_of_position ht' h.not_before htext
    exact ⟨mid, rfl, hrest, .inr ⟨ht', touches_behind ht' h⟩⟩

/-- A text ends inside another where a text that starts with `b` may be put in: at a token or at the very front, but not
behind a slash that would join a comment, and no comment opener was read as operators. -/
structure Seam (b : Char) (p : Position) (before after : List Char) : Prop where
  noOpener : (ofCursor ⟨before ++ after, p⟩).tokens.IsChain fun t u => ¬Opener t u
  touches : before = [] ∨ ∃ t ∈ (ofCursor ⟨before ++ after, p⟩).tokens, t.Touches p before
  noSlash : b = '/' → ∀ t ∈ (ofCursor ⟨before ++ after, p⟩).tokens, t.Closes p before → t.text ≠ "/"

variable {b : Char}

/-- A seam behind the lexeme at the front is a seam of the text behind that lexeme. -/
theorem Seam.behind (h : Seam b p before after) (hx : Lexeme.first? (before ++ after) = some x) (hne : before ≠ []) :
    ∃ mid, before = x.chars ++ mid ∧ x.rest = mid ++ after ∧ Seam b (p.advance x.chars) mid after := by
  obtain ⟨t, ht, htouches⟩ := h.touches.resolve_left hne
  obtain ⟨mid, rfl, hrest, hmid⟩ := exists_append_of_touches hx hne ht htouches
  have hsub : ∀ u ∈ (ofCursor ⟨x.rest, p.advance x.chars⟩).tokens, u ∈ (ofCursor ⟨x.chars ++ mid ++ after, p⟩).tokens := by
    intro u hu
    cases hk : x.tokenKind? with
    | some kind => rw [ofCursor_token hx hk]; exact List.mem_cons_of_mem _ hu
    | none => rwa [ofCursor_skip hx hk]
  refine ⟨mid, rfl, hrest, ?_, ?_, ?_⟩
  · have hchain := h.noOpener
    rw [← hrest]
    cases hk : x.tokenKind? with
    | some kind =>
      rw [ofCursor_token hx hk] at hchain
      exact hchain.tail
    | none => rwa [ofCursor_skip hx hk] at hchain
  · rw [← hrest]
    exact hmid.imp_right fun hmid => ⟨t, hmid⟩
  · intro hb u hu hcloses
    refine h.noSlash hb u (hsub u (hrest ▸ hu)) ?_
    obtain ⟨front, rfl, hfront⟩ := hcloses
    exact ⟨x.chars ++ front, (List.append_assoc ..).symm, hfront.trans (Position.advance_append ..).symm⟩

/-! ## Insertion -/

/-- A line comment ends in front of no token. -/
theorem ne_nil_of_isLineComment {mid : List Char} (hx : Lexeme.first? cs = some x) (hrest : x.rest = mid ++ after)
    (hline : Text.IsLineComment x.chars) (ht : t ∈ (ofCursor ⟨x.rest, p⟩).tokens) (h : t.Touches p mid) : mid ≠ [] := by
  rintro rfl
  have hhead := Lexeme.head_of_isLineComment hx hline
  rw [hrest, List.nil_append] at hhead ht
  cases after with
  | nil =>
    rw [ofCursor_nil] at ht
    cases ht
  | cons c after =>
    obtain rfl := hhead c rfl
    rw [ofCursor_blank rfl] at ht
    exact h.not_before ((before_of_before (Position.before_step p _) after).1 t ht)

/-- A token in front of a seam is the same with blanks or a comment put in. -/
theorem Seam.first?_token {kind : TokenKind} {more mid : List Char} (h : Seam b p (x.chars ++ mid) after)
    (hb : Text.isBlank b = true ∨ b = '/') (hx : Lexeme.first? (x.chars ++ mid ++ after) = some x)
    (hrest : x.rest = mid ++ after) (hk : x.tokenKind? = some kind) :
    Lexeme.first? (x.chars ++ mid ++ b :: more) = some { x with rest := mid ++ b :: more } := by
  have hx' : Lexeme.first? (x.chars ++ mid ++ after) = some ⟨x.chars, mid ++ after, x.kind⟩ := by rw [hx, ← hrest]
  refine Lexeme.first?_append_divider (Lexeme.first?_shortened hx') (Lexeme.kind_ne_none hk) ?_ hb ?_
  · exact fun hpre => not_opener_of_token hx hk h.noOpener (hpre.trans (List.prefix_append _ _))
  · intro hslash heq
    have hchars : x.chars = ['/'] := by
      rcases List.append_eq_singleton_iff.mp heq with ⟨hnil, -⟩ | ⟨hchars, -⟩
      · exact absurd hnil (Lexeme.first?_append hx).2
      · exact hchars
    refine h.noSlash hslash ⟨kind, .ofList x.chars, p⟩ ?_ ⟨[], ?_, rfl⟩ ?_
    · rw [ofCursor_token hx hk]
      exact List.mem_cons_self
    · rw [heq, hchars, String.toList_ofList]
      rfl
    · rw [hchars]

/-- Blanks or a comment at a seam change only positions. The part in front of them is passed lexeme by lexeme. -/
theorem Seam.ofCursor_insert {bs : List Char} (h : Seam b p before after) (hb : Text.isBlank b = true ∨ b = '/')
    (hpass : ∀ q, ofCursor ⟨b :: (bs ++ after), q⟩ = ofCursor ⟨after, q.advance (b :: bs)⟩) (r : Position) :
    (ofCursor ⟨before ++ b :: (bs ++ after), p⟩).moved (fun _ => r) = (ofCursor ⟨before ++ after, p⟩).moved fun _ => r := by
  have hfront : ∀ q, (ofCursor ⟨b :: (bs ++ after), q⟩).moved (fun _ => r) = (ofCursor ⟨after, q⟩).moved fun _ => r := by
    intro q
    rw [hpass]
    exact ofCursor_moved_congr ..
  induction hcs : before ++ after using scan_induction generalizing before p with
  | nil =>
    obtain ⟨rfl, rfl⟩ := List.append_eq_nil_iff.mp hcs
    exact hfront p
  | stuck c cs hstuck =>
    rcases h.touches with rfl | ⟨t, ht, -⟩
    · exact hcs ▸ hfront p
    · rw [hcs, ofCursor_stuck hstuck] at ht
      cases ht
  | token cs x kind hx hk ih =>
    subst hcs
    by_cases hne : before = []
    · subst hne
      exact hfront p
    obtain ⟨mid, rfl, hrest, hmid⟩ := h.behind hx hne
    rw [ofCursor_token (h.first?_token hb hx hrest hk) hk, ofCursor_token hx hk, moved_cons, moved_cons, ih hmid hrest.symm]
  | skip cs x hx hk ih =>
    subst hcs
    by_cases hne : before = []
    · subst hne
      exact hfront p
    obtain ⟨t, ht, htouches⟩ := h.touches.resolve_left hne
    obtain ⟨mid, rfl, hrest, hmid⟩ := h.behind hx hne
    rw [ofCursor_skip hx hk] at ht
    have hline : Text.IsLineComment x.chars → ∀ c ∈ (mid ++ b :: (bs ++ after)).head?, c = '\n' := by
      intro hline
      have hhead := Lexeme.head_of_isLineComment hx hline
      have hmid' := ne_nil_of_isLineComment hx hrest hline ht (touches_behind ht htouches)
      obtain ⟨c, mid, rfl⟩ := List.exists_cons_of_ne_nil hmid'
      rwa [hrest] at hhead
    rw [List.append_assoc, ofCursor_separator (Lexeme.isSeparator_of_skip hx hk) hline, ofCursor_skip hx hk,
      ih hmid hrest.symm]

end Stream

/-- A program stays the same when blanks or a comment are put into its source where some token starts or ends, unless the
comment would stand directly behind a slash. -/
theorem Program.parse_insert (before inserted after : String) (ts : List Token) (p : Program)
    (hparse : parse (before ++ after) = .ok p) (htokens : tokenize (before ++ after) = .ok ts)
    (hseam : ∃ t ∈ ts, t.Follows .start before.toList ∨ t.Closes .start before.toList)
    (hinserted : Text.IsBlankRun inserted.toList ∨
      Text.IsComment inserted.toList ∧ ∀ t ∈ ts, t.Closes .start before.toList → t.text ≠ "/") :
    parse (before ++ inserted ++ after) = .ok p := by
  obtain ⟨us, hus, hderives⟩ := derives_of_parse hparse
  have hstream := Stream.ofSource_eq_of_tokenize htokens
  obtain rfl : us = ts := congrArg Stream.tokens (hus.symm.trans hstream)
  have hopen := hderives.no_opener (Stream.genuine_of_ofSource hus)
  rw [Stream.ofSource, Cursor.ofSource, String.toList_append] at hstream
  have hplace : ∀ b, (b = '/' → ∀ t ∈ us, t.Closes .start before.toList → t.text ≠ "/") →
      Stream.Seam b .start before.toList after.toList := by
    intro b hb
    constructor <;> rw [hstream]
    · exact hopen
    · exact .inr hseam
    · exact hb
  have hinsert : (Stream.ofSource (before ++ inserted ++ after)).moved (fun _ => .start) =
      (Stream.ofSource (before ++ after)).moved fun _ => .start := by
    rw [Stream.ofSource, Stream.ofSource, Cursor.ofSource, Cursor.ofSource, String.toList_append, String.toList_append,
      String.toList_append, List.append_assoc]
    rcases hinserted with ⟨hne, hblank⟩ | ⟨hcomment, hslash⟩
    · obtain ⟨b, bs, hbs⟩ := List.exists_cons_of_ne_nil hne
      rw [hbs] at hblank ⊢
      have hb : Text.isBlank b = true := hblank b List.mem_cons_self
      exact (hplace b fun h => absurd h (Text.ne_of_class hb rfl)).ofCursor_insert (.inl hb)
        (fun q => Stream.ofCursor_blanks hblank) _
    · obtain ⟨bs, hbs⟩ := hcomment.exists_cons
      rw [hbs] at hcomment ⊢
      exact (hplace '/' fun _ => hslash).ofCursor_insert (.inr rfl) (fun q => Stream.ofCursor_comment hcomment) _
  exact ofStream_eq_ok_of_moved hinsert.symm hparse

/-- A comment that holds other comment marks, put in front of a slash that is an operator. -/
theorem Program.parse_insert_before_slash :
    parse ("a " ++ "/* / // /* */" ++ "/ b;") = .ok ⟨[.eval (.binary .divide (.name "a") (.name "b"))]⟩ := by
  have hparse : parse ("a " ++ "/ b;") = .ok ⟨[.eval (.binary .divide (.name "a") (.name "b"))]⟩ := by with_unfolding_all rfl
  have htokens : tokenize ("a " ++ "/ b;") =
      .ok [⟨.name, "a", ⟨1, 0⟩⟩, ⟨.multiplicative, "/", ⟨1, 2⟩⟩, ⟨.name, "b", ⟨1, 4⟩⟩, ⟨.semicolon, ";", ⟨1, 5⟩⟩] :=
    tokenize_of_ofSource_eq (by decide +kernel)
  refine parse_insert _ _ _ _ _ hparse htokens ⟨⟨.multiplicative, "/", ⟨1, 2⟩⟩, by simp, .inl rfl⟩ (.inr ⟨.inr ?_, ?_⟩)
  · exact ⟨" / // /* ".toList, by decide +kernel, rfl⟩
  · rintro t - ⟨front, hfront, -⟩ hslash
    have hlast := congrArg List.getLast? hfront
    simp [hslash] at hlast

/-! ## Tokens joined with spaces -/

/-- The tokens of a source with single spaces between them are scanned as the same tokens at other places. -/
theorem Stream.ofSource_spaced {source : String} {ts : List Token} (h : ofSource source = ⟨ts, none⟩) (r : Position) :
    (ofSource (Token.spaced ts)).moved (fun _ => r) = (ofSource source).moved fun _ => r := by
  rw [h]
  exact ofCursor_spaced (genuine_of_ofSource h) .start r

/-- The texts of the tokens of a source, joined with single spaces, are scanned as tokens of the same kinds with the same
texts in the same order, and they are read as a program exactly when the source is, and as the same one. -/
theorem tokenize_spaced (source : String) (ts : List Token) (h : tokenize source = .ok ts) :
    (∃ us, tokenize (Token.spaced ts) = .ok us ∧
      us.map (fun t => (t.kind, t.text)) = ts.map fun t => (t.kind, t.text)) ∧
    ∀ p : Program, Program.parse source = .ok p ↔ Program.parse (Token.spaced ts) = .ok p := by
  have hstream := Stream.ofSource_eq_of_tokenize h
  have hspaced := Stream.ofSource_spaced hstream .start
  refine ⟨?_, fun p => ⟨Program.ofStream_eq_ok_of_moved hspaced.symm, Program.ofStream_eq_ok_of_moved hspaced⟩⟩
  have htokens := congrArg Stream.tokens hspaced
  have hfault := congrArg Stream.fault hspaced
  rw [hstream] at htokens hfault
  have hnone : (Stream.ofSource (Token.spaced ts)).fault = none := Option.map_eq_none_iff.mp hfault
  refine ⟨(Stream.ofSource (Token.spaced ts)).tokens, tokenize_of_ofSource_eq (by rw [← hnone]), ?_⟩
  -- Kinds and texts are all that is left of a token whose place is replaced.
  have hpairs := congrArg (List.map fun t : Token => (t.kind, t.text)) htokens
  simp only [Stream.moved, List.map_map] at hpairs
  exact hpairs

/-- Digits directly in front of a word, a comment opener without its closing mark, and two operators in a row. -/
theorem tokenize_spaced_touching :
    (∃ us, tokenize "1 abc / * < ==" = .ok us ∧ us.map (fun t => (t.kind, t.text)) =
      [(.number, "1"), (.name, "abc"), (.multiplicative, "/"), (.multiplicative, "*"), (.relational, "<"), (.equality, "==")]) ∧
    Program.parse "x = ! y ;" = .ok ⟨[.eval (.assign .set "x" (.unary .not (.name "y")))]⟩ := by
  have h : tokenize "1abc/*<  ==" = .ok [⟨.number, "1", ⟨1, 0⟩⟩, ⟨.name, "abc", ⟨1, 1⟩⟩, ⟨.multiplicative, "/", ⟨1, 4⟩⟩,
      ⟨.multiplicative, "*", ⟨1, 5⟩⟩, ⟨.relational, "<", ⟨1, 6⟩⟩, ⟨.equality, "==", ⟨1, 9⟩⟩] := by
    decide +kernel
  have h' : tokenize "x=!y;" = .ok [⟨.name, "x", ⟨1, 0⟩⟩, ⟨.assign, "=", ⟨1, 1⟩⟩, ⟨.logicalNot, "!", ⟨1, 2⟩⟩,
      ⟨.name, "y", ⟨1, 3⟩⟩, ⟨.semicolon, ";", ⟨1, 4⟩⟩] := by
    decide +kernel
  have hparse : Program.parse "x=!y;" = .ok ⟨[.eval (.assign .set "x" (.unary .not (.name "y")))]⟩ := by
    with_unfolding_all rfl
  exact ⟨(tokenize_spaced _ _ h).1, ((tokenize_spaced _ _ h').2 _).mp hparse⟩

end Scriptlet
