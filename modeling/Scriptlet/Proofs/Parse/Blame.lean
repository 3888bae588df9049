import Scriptlet.Proofs.Parse.Moved
import Scriptlet.Proofs.Parse.Targets

/-!
# What a fault blames

A fault other than one at the end of the source blames some characters of the source: the one at which no token starts, a
token that stands where another has to stand, or the first token of what is assigned to. The place of the fault is where these
characters start, and the first of them is no blank.
-/

namespace Scriptlet

/-! ## Where tokens and faults stand in a source -/

/-- A token of a tiled text stands behind what is in front of it. -/
theorem Tiling.exists_before {before : List Char} {tiles : List Tile} (h : Tiling before tiles) :
    ∀ tile ∈ tiles, ∃ front back, tiles.flatMap Tile.chars = front ++ tile.token.text.toList ++ back ∧
      tile.token.position = .behind (before ++ front) := by
  induction h with
  | nil => exact List.forall_mem_nil _
  | @cons before tile tiles _ hposition _ ih =>
    refine List.forall_mem_cons.mpr ⟨⟨tile.gap, tiles.flatMap Tile.chars, ?_, hposition⟩, fun other hother => ?_⟩
    · rw [List.flatMap_cons, Tile.chars]
    · obtain ⟨front, back, htext, hother⟩ := ih other hother
      refine ⟨tile.chars ++ front, back, ?_, by rw [hother, List.append_assoc]⟩
      rw [List.flatMap_cons, htext]
      simp

/-- A text with a blank at its front has a lexeme there, and it is no token. -/
theorem Lexeme.isBlank_eq_false {c : Char} {cs : List Char} (h : first? (c :: cs) = none ∨
    ∃ x, first? (c :: cs) = some x ∧ x.tokenKind? ≠ none) : Text.isBlank c = false := by
  cases hc : Text.isBlank c with
  | false => rfl
  | true =>
    rw [first?_blank hc] at h
    obtain hnone | ⟨x, hx, hk⟩ := h
    · cases hnone
    · cases hx
      exact absurd rfl hk

/-- A genuine token does not start with a blank. -/
theorem Token.Genuine.exists_front {t : Token} (h : t.Genuine) :
    ∃ c cs, t.text.toList = c :: cs ∧ Text.isBlank c = false := by
  obtain ⟨x, hx, -, hk⟩ := h
  cases htext : t.text.toList with
  | nil =>
    rw [htext] at hx
    cases hx
  | cons c cs =>
    rw [htext] at hx
    exact ⟨c, cs, rfl, Lexeme.isBlank_eq_false (.inr ⟨x, hx, by rw [hk]; nofun⟩)⟩

namespace Stream

variable {source lexeme : String} {fault : ParseFault}

/-- A token of a source stands behind what is in front of it. -/
theorem exists_before {t : Token} (h : t ∈ (ofSource source).tokens) :
    ∃ before after, source.toList = before ++ t.text.toList ++ after ∧ t.position = .behind before := by
  obtain ⟨tiles, last, rest, htokens, htiling, -, htext, -⟩ := exists_tiling .nil [] source.toList
  have htokens' : tiles.map Tile.token = (ofSource source).tokens := htokens
  rw [← htokens'] at h
  obtain ⟨tile, htile, rfl⟩ := List.mem_map.mp h
  obtain ⟨front, back, hfront, hposition⟩ := htiling.exists_before tile htile
  rw [List.nil_append, hfront] at htext
  exact ⟨front, back ++ last ++ rest, by rw [htext]; simp, hposition⟩

/-- A scan stops behind what is in front of its fault, at a character that is no blank. -/
theorem exists_before_fault {e : LexFault} (h : (ofSource source).fault = some e) :
    ∃ before after, source.toList = before ++ e.character :: after ∧ e.position = .behind before ∧
      Text.isBlank e.character = false := by
  obtain ⟨tiles, last, rest, -, -, -, htext, hstops⟩ := exists_tiling .nil [] source.toList
  have hfault : (ofCursor ⟨source.toList, .behind ([] ++ [])⟩).fault = some e := h
  rw [hfault] at hstops
  obtain ⟨⟨more, rfl⟩, hrules, hposition⟩ := hstops
  exact ⟨_, more, htext, hposition, Lexeme.isBlank_eq_false (.inl (Lexeme.first?_eq_none_iff.mpr hrules))⟩

/-! ## Blame -/

/-- What a fault blames: the character that stops the scan, the token that is not of the expected kind, or the first token of
what stands on the left of an assignment and is no name. -/
inductive Blames (stream : Stream) : ParseFault → String → Prop where
  | character {e : LexFault} : stream.fault = some e → Blames stream (.lex e) e.character.toString
  | token {t : Token} {expected : TokenKind} : t ∈ stream.tokens → t.kind ≠ expected →
      Blames stream (.unexpected t.text expected t.position) t.text
  | target {first o : Token} {more rest : List Token} {e : Expr} : stream.Assigns (first :: more) e o rest →
      (∀ x, e ≠ .name x) → Blames stream (.badTarget first.position) first.text

/-- What a fault blames starts at the place of the fault, with a character that is no blank. -/
theorem Blames.exists_before (h : (ofSource source).Blames fault lexeme) : ∃ before after c cs,
    source.toList = before ++ lexeme.toList ++ after ∧ fault.position? = some (.behind before) ∧ lexeme.toList = c :: cs ∧
      Text.isBlank c = false := by
  have htoken : ∀ t ∈ (ofSource source).tokens, ∃ before after c cs, source.toList = before ++ t.text.toList ++ after ∧
      some t.position = some (.behind before) ∧ t.text.toList = c :: cs ∧ Text.isBlank c = false := by
    intro t ht
    obtain ⟨before, after, htext, hposition⟩ := Stream.exists_before ht
    obtain ⟨c, cs, hc, hblank⟩ := (genuine_of_mem t ht).exists_front
    exact ⟨before, after, c, cs, htext, congrArg some hposition, hc, hblank⟩
  cases h with
  | @character e hfault =>
    obtain ⟨before, after, htext, hposition, hblank⟩ := exists_before_fault hfault
    have hlexeme : e.character.toString.toList = [e.character] := String.toList_singleton _
    refine ⟨before, after, e.character, [], ?_, congrArg some hposition, hlexeme, hblank⟩
    rw [hlexeme, htext, List.append_assoc, List.singleton_append]
  | token ht _ => exact htoken _ ht
  | target hassigns _ => exact htoken _ (hassigns.expected.suffix.subset (by simp))

/-- A fault blames something unless it is one at the end. -/
theorem exists_blames (h : Program.parse source = .error fault) :
    (∃ expected, fault = .endOfInput expected) ∨ ∃ lexeme, (ofSource source).Blames fault lexeme := by
  cases fault with
  | lex e => exact .inr ⟨_, .character (Program.comesFrom_of_ofStream h)⟩
  | endOfInput expected => exact .inl ⟨expected, rfl⟩
  | unexpected found expected position =>
    obtain ⟨pre, t, more, hts, rfl, rfl, hk, -⟩ := Program.ofStream_unexpected genuine_of_mem h
    exact .inr ⟨_, .token (hts ▸ by simp) hk⟩
  | badTarget position =>
    obtain ⟨first, more, e, o, rest, hassigns, -, he, -, rfl⟩ := exists_assigns_of_badTarget h
    exact .inr ⟨_, .target hassigns he⟩

end Stream

end Scriptlet
