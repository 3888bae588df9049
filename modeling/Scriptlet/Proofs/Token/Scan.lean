import Scriptlet.Token.Stream

/-!
# Scanning lexeme by lexeme

The stream of a text, told by the lexeme at its front: at the end there is no token, a text without a lexeme at its front is
a fault, and otherwise the rest is scanned behind the lexeme. No other module unfolds cursors. Two things follow at once:
what holds of the end and of faults and is kept by every lexeme holds of every text, and a scan that starts some lines
further down finds the same tokens that many lines further down.
-/

namespace Scriptlet

/-! ## The next token -/

namespace Cursor

variable {c : Char} {cs : List Char} {p : Position} {x : Lexeme} {kind : TokenKind}

/-- At the end of a text there is no token. -/
theorem next_nil (p : Position) : next ⟨[], p⟩ = (.ok none, ⟨[], p⟩) := by
  rw [next]

/-- Where no rule applies the character in front is the fault, and nothing is passed. -/
theorem next_stuck (h : Lexeme.first? (c :: cs) = none) : next ⟨c :: cs, p⟩ = (.error ⟨c, p⟩, ⟨c :: cs, p⟩) := by
  rw [next]
  dsimp only
  split
  · rfl
  · next hx => rw [h] at hx; cases hx

/-- A lexeme that is a token is given, and passed. -/
theorem next_token (h : Lexeme.first? cs = some x) (hk : x.tokenKind? = some kind) :
    next ⟨cs, p⟩ = (.ok (some ⟨kind, .ofList x.chars, p⟩), pass ⟨cs, p⟩ x) := by
  cases cs with
  | nil => cases h
  | cons c cs =>
    rw [next]
    dsimp only
    split
    · next hx => rw [h] at hx; cases hx
    · next hx =>
      rw [h] at hx
      cases hx
      rw [hk]

/-- A lexeme that is no token is passed, and the scan goes on. -/
theorem next_skip (h : Lexeme.first? cs = some x) (hk : x.tokenKind? = none) :
    next ⟨cs, p⟩ = next (pass ⟨cs, p⟩ x) := by
  cases cs with
  | nil => cases h
  | cons c cs =>
    rw [next]
    dsimp only
    split
    · next hx => rw [h] at hx; cases hx
    · next hx =>
      rw [h] at hx
      cases hx
      rw [hk]

end Cursor

/-! ## Streams -/

namespace Stream

variable {c : Char} {cs : List Char} {p : Position} {x : Lexeme} {kind : TokenKind}

/-- A stream with one more token at its front. -/
def cons (t : Token) (stream : Stream) : Stream := ⟨t :: stream.tokens, stream.fault⟩

@[simp] theorem cons_tokens (t : Token) (stream : Stream) : (cons t stream).tokens = t :: stream.tokens := rfl

@[simp] theorem cons_fault (t : Token) (stream : Stream) : (cons t stream).fault = stream.fault := rfl

/-- A stream with a token at its front is known by the token and the stream behind it. -/
theorem cons_eq {t : Token} {stream : Stream} {ts : List Token} {fault : Option LexFault} (h : cons t stream = ⟨ts, fault⟩) :
    ∃ us, ts = t :: us ∧ stream = ⟨us, fault⟩ := by
  cases h
  exact ⟨stream.tokens, rfl, rfl⟩

/-- The stream of a cursor, by what the cursor gives next. -/
theorem ofCursor_eq (c : Cursor) : ofCursor c =
    match c.next with
    | (.error e, _) => ⟨[], some e⟩
    | (.ok none, _) => ⟨[], none⟩
    | (.ok (some t), c') => cons t (ofCursor c') := by
  rw [ofCursor]
  split
  · next h => rw [h]
  · next h => rw [h]
  · next h => simp only [h, cons]

/-- A stream at the end of a text is empty. -/
theorem ofCursor_nil (p : Position) : ofCursor ⟨[], p⟩ = ⟨[], none⟩ := by
  rw [ofCursor_eq, Cursor.next_nil]

/-- A stream is cut short where no rule applies. -/
theorem ofCursor_stuck (h : Lexeme.first? (c :: cs) = none) : ofCursor ⟨c :: cs, p⟩ = ⟨[], some ⟨c, p⟩⟩ := by
  rw [ofCursor_eq, Cursor.next_stuck h]

/-- A token stands in front of the stream behind it. -/
theorem ofCursor_token (h : Lexeme.first? cs = some x) (hk : x.tokenKind? = some kind) :
    ofCursor ⟨cs, p⟩ = cons ⟨kind, .ofList x.chars, p⟩ (ofCursor ⟨x.rest, p.advance x.chars⟩) := by
  rw [ofCursor_eq, Cursor.next_token h hk]
  rfl

/-- What is no token leaves no trace in the stream. -/
theorem ofCursor_skip (h : Lexeme.first? cs = some x) (hk : x.tokenKind? = none) :
    ofCursor ⟨cs, p⟩ = ofCursor ⟨x.rest, p.advance x.chars⟩ := by
  rw [ofCursor_eq, Cursor.next_skip h hk, ofCursor_eq ⟨x.rest, _⟩]
  rfl

end Stream

/-- Induction over the lexemes of a text. -/
theorem scan_induction {motive : List Char → Prop} (nil : motive [])
    (stuck : ∀ c cs, Lexeme.first? (c :: cs) = none → motive (c :: cs))
    (token : ∀ cs x kind, Lexeme.first? cs = some x → x.tokenKind? = some kind → motive x.rest → motive cs)
    (skip : ∀ cs x, Lexeme.first? cs = some x → x.tokenKind? = none → motive x.rest → motive cs) (cs : List Char) :
    motive cs := by
  induction hn : cs.length using Nat.strongRecOn generalizing cs with
  | _ n ih =>
    cases cs with
    | nil => exact nil
    | cons c cs =>
      cases hx : Lexeme.first? (c :: cs) with
      | none => exact stuck c cs hx
      | some x =>
        have hrest : motive x.rest := ih _ (hn ▸ Lexeme.first?_shorter hx) _ rfl
        cases hk : x.tokenKind? with
        | none => exact skip _ x hx hk hrest
        | some kind => exact token _ x kind hx hk hrest

/-! ## Tokenizing -/

/-- A source tokenizes when its stream reaches the end. -/
theorem tokenize_of_ofSource_eq {source : String} {ts : List Token} (h : Stream.ofSource source = ⟨ts, none⟩) :
    tokenize source = .ok ts := by
  unfold tokenize
  rw [h]

/-- The tokens of a source that tokenizes are the whole of its stream. -/
theorem Stream.ofSource_eq_of_tokenize {source : String} {ts : List Token} (h : tokenize source = .ok ts) :
    Stream.ofSource source = ⟨ts, none⟩ := by
  unfold tokenize at h
  dsimp only at h
  split at h
  · cases h
  · next hfault =>
    cases h
    rw [← hfault]

/-- A source that does not tokenize has the fault in its stream. -/
theorem Stream.fault_of_tokenize {source : String} {e : LexFault} (h : tokenize source = .error e) :
    (ofSource source).fault = some e := by
  unfold tokenize at h
  dsimp only at h
  split at h
  · next hfault =>
    cases h
    exact hfault
  · cases h

/-! ## Other positions -/

/-- A token with its position replaced. -/
def Token.moved (f : Position → Position) (t : Token) : Token := { t with position := f t.position }

/-- A fault of the scan with its position replaced. -/
def LexFault.moved (f : Position → Position) (e : LexFault) : LexFault := { e with position := f e.position }

/-- A stream with all its positions replaced. -/
def Stream.moved (f : Position → Position) (stream : Stream) : Stream :=
  ⟨stream.tokens.map (Token.moved f), stream.fault.map (LexFault.moved f)⟩

theorem Stream.moved_cons (f : Position → Position) (t : Token) (stream : Stream) :
    (cons t stream).moved f = cons (t.moved f) (stream.moved f) := rfl

/-- Where a scan starts makes no difference but for positions. -/
theorem Stream.ofCursor_moved_congr (cs : List Char) (p q r : Position) :
    (ofCursor ⟨cs, p⟩).moved (fun _ => r) = (ofCursor ⟨cs, q⟩).moved fun _ => r := by
  induction cs using scan_induction generalizing p q with
  | nil => rw [ofCursor_nil, ofCursor_nil]
  | stuck c cs h => rw [ofCursor_stuck h, ofCursor_stuck h]; rfl
  | token cs x kind h hk ih =>
    rw [ofCursor_token h hk, ofCursor_token h hk, moved_cons, moved_cons, ih (p.advance x.chars) (q.advance x.chars)]
    rfl
  | skip cs x h hk ih =>
    rw [ofCursor_skip h hk, ofCursor_skip h hk]
    exact ih _ _

/-- A position that many lines further down. -/
def Position.down (n : Nat) (p : Position) : Position := ⟨p.line + n, p.column⟩

/-- Lines below start at the same columns. -/
theorem Position.advance_down (n : Nat) (p : Position) (cs : List Char) : (p.down n).advance cs = (p.advance cs).down n := by
  induction cs generalizing p with
  | nil => rfl
  | cons c cs ih =>
    have hstep : (p.down n).step c = (p.step c).down n := by
      by_cases hc : c = '\n'
      · simp only [step, hc, if_true, down]
        congr 1
        omega
      · simp only [step, hc, if_false, down]
    rw [advance_cons, advance_cons, hstep, ih]

/-- A scan that starts further down finds the same tokens further down. -/
theorem Stream.ofCursor_down (n : Nat) (cs : List Char) (p : Position) :
    ofCursor ⟨cs, p.down n⟩ = (ofCursor ⟨cs, p⟩).moved (Position.down n) := by
  induction cs using scan_induction generalizing p with
  | nil => rw [ofCursor_nil, ofCursor_nil]; rfl
  | stuck c cs h => rw [ofCursor_stuck h, ofCursor_stuck h]; rfl
  | token cs x kind h hk ih => rw [ofCursor_token h hk, ofCursor_token h hk, Position.advance_down, ih]; rfl
  | skip cs x h hk ih => rw [ofCursor_skip h hk, ofCursor_skip h hk, Position.advance_down, ih]

end Scriptlet
