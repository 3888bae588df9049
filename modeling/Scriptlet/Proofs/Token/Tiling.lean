import Scriptlet.Proofs.Token.Seam

/-!
# Tiles: a source covered by its tokens

A source is its tokens in order with gaps between them, and gaps hold only blanks and comments. Each token stands where its
position says, so positions grow from token to token. A scan that stops covers the source up to the character that stops it.
-/

namespace Scriptlet

/-! ## Gaps -/

/-- Separators one after the other, or nothing. -/
inductive Gap : List Char → Prop where
  | nil : Gap []
  | snoc {gap cs : List Char} : Gap gap → Text.IsSeparator cs → Gap (gap ++ cs)

/-! ## Positions -/

namespace Position

/-- The place behind a text, counted afresh: a line for each line feed and one more, and a column for each character behind
the last line feed. -/
def behind (cs : List Char) : Position := ⟨1 + cs.count '\n', (cs.reverse.takeWhile (· ≠ '\n')).length⟩

/-- One character more leads one step further. -/
theorem behind_snoc (cs : List Char) (c : Char) : behind (cs ++ [c]) = (behind cs).step c := by
  by_cases hc : c = '\n'
  · subst hc
    simp [behind, step]
    omega
  · simp [behind, step, hc, List.count_append, List.count_cons_of_ne hc]

/-- Counting afresh agrees with counting on. -/
theorem behind_append (before cs : List Char) : behind (before ++ cs) = (behind before).advance cs := by
  induction cs generalizing before with
  | nil => rw [List.append_nil, advance_nil]
  | cons c cs ih => rw [advance_cons, ← behind_snoc, ← ih, List.append_assoc, List.singleton_append]

variable {p q r : Position}

theorem Before.trans (h : p.Before q) (h' : q.Before r) : p.Before r := by
  unfold Before at *
  omega

/-- No place is before itself. -/
theorem Before.irrefl (p : Position) : ¬p.Before p := by
  unfold Before
  omega

/-- Every character leads further on. -/
theorem before_step (p : Position) (c : Char) : p.Before (p.step c) := by
  unfold Before step
  split
  · exact .inl (Nat.lt_succ_self _)
  · exact .inr ⟨rfl, Nat.lt_succ_self _⟩

theorem Before.advance (h : p.Before q) (cs : List Char) : p.Before (q.advance cs) := by
  induction cs generalizing q with
  | nil => exact h
  | cons c cs ih => exact ih (h.trans (before_step q c))

/-- Characters lead further on if there are any. -/
theorem before_advance {cs : List Char} (h : cs ≠ []) (p : Position) : p.Before (p.advance cs) := by
  cases cs with
  | nil => exact absurd rfl h
  | cons c cs => exact (before_step p c).advance cs

end Position

/-! ## The order of tokens -/

namespace Stream

/-- Whatever is found stands behind all that is in front of the cursor. -/
theorem before_of_before {p q : Position} (h : q.Before p) (cs : List Char) :
    (∀ t ∈ (ofCursor ⟨cs, p⟩).tokens, q.Before t.position) ∧ ∀ e ∈ (ofCursor ⟨cs, p⟩).fault, q.Before e.position := by
  induction cs using scan_induction generalizing p with
  | nil => rw [ofCursor_nil]; exact ⟨List.forall_mem_nil _, nofun⟩
  | stuck c cs hstuck =>
    rw [ofCursor_stuck hstuck]
    refine ⟨List.forall_mem_nil _, ?_⟩
    rintro e ⟨⟩
    exact h
  | token cs x kind hx hk ih =>
    rw [ofCursor_token hx hk, cons_tokens, cons_fault, List.forall_mem_cons]
    obtain ⟨htokens, hfault⟩ := ih (h.advance x.chars)
    exact ⟨⟨h, htokens⟩, hfault⟩
  | skip cs x hx hk ih =>
    rw [ofCursor_skip hx hk]
    exact ih (h.advance x.chars)

/-- Positions grow from token to token and up to the fault. -/
theorem ordered (cs : List Char) (p : Position) :
    (ofCursor ⟨cs, p⟩).tokens.Pairwise (fun t u => t.position.Before u.position) ∧
      ∀ e ∈ (ofCursor ⟨cs, p⟩).fault, ∀ t ∈ (ofCursor ⟨cs, p⟩).tokens, t.position.Before e.position := by
  induction cs using scan_induction generalizing p with
  | nil => rw [ofCursor_nil]; exact ⟨.nil, nofun⟩
  | stuck c cs hstuck =>
    rw [ofCursor_stuck hstuck]
    exact ⟨.nil, fun _ _ => List.forall_mem_nil _⟩
  | token cs x kind hx hk ih =>
    rw [ofCursor_token hx hk, cons_tokens, cons_fault, List.pairwise_cons]
    obtain ⟨hpairs, hlast⟩ := ih (p.advance x.chars)
    obtain ⟨htokens, hfault⟩ := before_of_before (Position.before_advance (Lexeme.first?_append hx).2 p) x.rest
    refine ⟨⟨htokens, hpairs⟩, fun e he => ?_⟩
    rw [List.forall_mem_cons]
    exact ⟨hfault e he, hlast e he⟩
  | skip cs x hx hk ih =>
    rw [ofCursor_skip hx hk]
    exact ih _

end Stream

/-! ## Tiles -/

/-- A token and the gap in front of it. -/
structure Tile where
  gap : List Char
  token : Token

/-- The characters of a tile. -/
def Tile.chars (tile : Tile) : List Char := tile.gap ++ tile.token.text.toList

/-- Tiles one behind the other, the first of them behind `before`: gaps only separate, and tokens stand where they say. -/
inductive Tiling : List Char → List Tile → Prop where
  | nil {before : List Char} : Tiling before []
  | cons {before : List Char} {tile : Tile} {tiles : List Tile} : Gap tile.gap →
      tile.token.position = .behind (before ++ tile.gap) → Tiling (before ++ tile.chars) tiles → Tiling before (tile :: tiles)

/-- What is known of the text that a scan leaves: nothing is left at the end, and no rule applies at a fault. -/
def Stops (before rest : List Char) : Option LexFault → Prop
  | none => rest = []
  | some e => (∃ more, rest = e.character :: more) ∧ (∀ rule ∈ rules, rule.pattern.split? rest = none) ∧
    e.position = .behind before

/-- No lexeme is found where no rule has one. -/
theorem Lexeme.first?_eq_none_iff {cs : List Char} :
    first? cs = none ↔ ∀ rule ∈ rules, rule.pattern.split? cs = none := by
  simp [first?, Rule.lexeme?]

/-- The tokens of a text tile it up to where the scan stops. The scan is taken up behind a gap, which goes to the next tile. -/
theorem Stream.exists_tiling {gap : List Char} (hgap : Gap gap) (before cs : List Char) :
    ∃ tiles last rest, tiles.map Tile.token = (ofCursor ⟨cs, .behind (before ++ gap)⟩).tokens ∧ Tiling before tiles ∧
      Gap last ∧ gap ++ cs = tiles.flatMap Tile.chars ++ last ++ rest ∧
      Stops (before ++ (tiles.flatMap Tile.chars ++ last)) rest (ofCursor ⟨cs, .behind (before ++ gap)⟩).fault := by
  induction cs using scan_induction generalizing gap before with
  | nil =>
    rw [ofCursor_nil]
    exact ⟨[], gap, [], rfl, .nil, hgap, rfl, rfl⟩
  | stuck c cs hstuck =>
    rw [ofCursor_stuck hstuck]
    exact ⟨[], gap, c :: cs, rfl, .nil, hgap, rfl, ⟨cs, rfl⟩, Lexeme.first?_eq_none_iff.mp hstuck, rfl⟩
  | token cs x kind hx hk ih =>
    rw [ofCursor_token hx hk, cons_tokens, cons_fault, ← Position.behind_append, ← List.append_nil (_ ++ x.chars)]
    obtain ⟨tiles, last, rest, htokens, htiling, hlast, htext, hstops⟩ := ih .nil (before ++ gap ++ x.chars)
    have hchars : Tile.chars ⟨gap, ⟨kind, .ofList x.chars, .behind (before ++ gap)⟩⟩ = gap ++ x.chars := by
      rw [Tile.chars, String.toList_ofList]
    refine ⟨⟨gap, ⟨kind, .ofList x.chars, .behind (before ++ gap)⟩⟩ :: tiles, last, rest, ?_, .cons hgap rfl ?_, hlast, ?_, ?_⟩
    · rw [List.map_cons, htokens]
    · rwa [hchars, ← List.append_assoc]
    · rw [← (Lexeme.first?_append hx).1, List.flatMap_cons, hchars]
      simpa using htext
    · rw [List.flatMap_cons, hchars]
      simpa using hstops
  | skip cs x hx hk ih =>
    rw [ofCursor_skip hx hk, ← Position.behind_append, List.append_assoc]
    obtain ⟨tiles, last, rest, htokens, htiling, hlast, htext, hstops⟩ :=
      ih (hgap.snoc (Lexeme.isSeparator_of_skip hx hk)) before
    refine ⟨tiles, last, rest, htokens, htiling, hlast, ?_, hstops⟩
    rw [← htext, List.append_assoc, (Lexeme.first?_append hx).1]

/-- The tokens of a source in order, with gaps in front of them and behind the last, are the source; each token stands where
it says, and each stands behind the one before it. A scan that stops has tiled the source in the same way up to a character
at which no rule applies, and names that character and its place. -/
theorem tokenize_tiles (source : String) :
    (∀ ts, tokenize source = .ok ts → ∃ tiles last, tiles.map Tile.token = ts ∧ Tiling [] tiles ∧ Gap last ∧
      source.toList = tiles.flatMap Tile.chars ++ last ∧ ts.Pairwise fun t u => t.position.Before u.position) ∧
    ∀ e, tokenize source = .error e → ∃ tiles last more, tiles.map Tile.token = (Stream.ofSource source).tokens ∧
      Tiling [] tiles ∧ Gap last ∧ source.toList = tiles.flatMap Tile.chars ++ last ++ e.character :: more ∧
      (∀ rule ∈ rules, rule.pattern.split? (e.character :: more) = none) ∧
      e.position = .behind (tiles.flatMap Tile.chars ++ last) ∧
      (tiles.map Tile.token).Pairwise (fun t u => t.position.Before u.position) ∧
      ∀ tile ∈ tiles, tile.token.position.Before e.position := by
  obtain ⟨tiles, last, rest, htokens, htiling, hlast, htext, hstops⟩ := Stream.exists_tiling .nil [] source.toList
  rw [show Position.behind ([] ++ []) = .start from rfl] at htokens hstops
  obtain ⟨hordered, hbefore⟩ := Stream.ordered source.toList .start
  refine ⟨fun ts h => ?_, fun e h => ?_⟩
  · have hstream : Stream.ofCursor ⟨source.toList, .start⟩ = ⟨ts, none⟩ := Stream.ofSource_eq_of_tokenize h
    rw [hstream] at htokens hstops hordered
    obtain rfl : rest = [] := hstops
    exact ⟨tiles, last, htokens, htiling, hlast, by simpa using htext, hordered⟩
  · have hfault : (Stream.ofCursor ⟨source.toList, .start⟩).fault = some e := Stream.fault_of_tokenize h
    rw [hfault] at hstops hbefore
    obtain ⟨⟨more, rfl⟩, hrules, hposition⟩ := hstops
    refine ⟨tiles, last, more, htokens, htiling, hlast, htext, hrules, hposition, htokens ▸ hordered, fun tile htile => ?_⟩
    exact hbefore e rfl tile.token (htokens ▸ List.mem_map_of_mem htile)

/-- A comment and a string over two lines each, and a lone ampersand behind a comment that ends with a carriage return. -/
theorem tokenize_tiles_multiline :
    (∃ tiles last, tiles.map Tile.token = [⟨.name, "é", ⟨1, 0⟩⟩, ⟨.text, "'x\ny'", ⟨2, 3⟩⟩, ⟨.semicolon, ";", ⟨3, 2⟩⟩] ∧
      Tiling [] tiles ∧ Gap last ∧ "é /*\n*/ 'x\ny'; // z".toList = tiles.flatMap Tile.chars ++ last) ∧
    ∃ tiles last more, tiles.map Tile.token = [⟨.name, "a", ⟨1, 0⟩⟩] ∧ Tiling [] tiles ∧ Gap last ∧
      "a // b\r\n &c".toList = tiles.flatMap Tile.chars ++ last ++ '&' :: more ∧
      .behind (tiles.flatMap Tile.chars ++ last) = (⟨2, 1⟩ : Position) := by
  have hok : tokenize "é /*\n*/ 'x\ny'; // z" =
      .ok [⟨.name, "é", ⟨1, 0⟩⟩, ⟨.text, "'x\ny'", ⟨2, 3⟩⟩, ⟨.semicolon, ";", ⟨3, 2⟩⟩] :=
    tokenize_of_ofSource_eq (by decide +kernel)
  have herror : tokenize "a // b\r\n &c" = .error ⟨'&', ⟨2, 1⟩⟩ := by decide +kernel
  obtain ⟨tiles, last, htokens, htiling, hlast, htext, -⟩ := (tokenize_tiles _).1 _ hok
  obtain ⟨tiles', last', more, htokens', htiling', hlast', htext', -, hposition, -⟩ := (tokenize_tiles _).2 _ herror
  have hone : (Stream.ofSource "a // b\r\n &c").tokens = [⟨.name, "a", ⟨1, 0⟩⟩] := by decide +kernel
  exact ⟨⟨tiles, last, htokens, htiling, hlast, htext⟩, tiles', last', more, htokens'.trans hone, htiling', hlast', htext',
    hposition.symm⟩

end Scriptlet
