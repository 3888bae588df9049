import Scriptlet.Proofs.Token.Tiling
import Scriptlet.Token.Session

/-!
# Sessions replay streams

A session that is asked for one token after the other gives the tokens of the source that was loaded last, then again and
again the fault of that source, or nothing if it has none. Once the tokens are used up the cursor comes to rest: the first
answer that is no token may still pass blanks and comments, later ones change nothing.
-/

namespace Scriptlet

/-! ## Definitions -/

namespace SessionStep

/-- The source that a step loads. -/
def source? : SessionStep → Option String
  | load source => some source
  | next => none

/-- The source that is read after a list of steps: the one loaded last, and an empty one before the first. -/
def source (steps : List SessionStep) : String := (steps.reverse.findSome? source?).getD ""

/-- How often a token was asked for since that source was loaded. -/
def pulls (steps : List SessionStep) : Nat := (steps.reverse.takeWhile (· = next)).length

variable (steps : List SessionStep)

@[simp] theorem source_snoc_load (text : String) : source (steps ++ [load text]) = text := by
  simp [source, source?, List.findSome?_cons]

@[simp] theorem source_snoc_next : source (steps ++ [next]) = source steps := by
  simp [source, source?, List.findSome?_cons]

@[simp] theorem pulls_snoc_load (text : String) : pulls (steps ++ [load text]) = 0 := by
  simp [pulls]

@[simp] theorem pulls_snoc_next : pulls (steps ++ [next]) = pulls steps + 1 := by
  simp [pulls]

end SessionStep

/-- What a stream gives when it is asked for the token of a number: the token if there is one, and behind the last token the
fault, or nothing if there is none. -/
def Stream.answer (stream : Stream) (n : Nat) : Except LexFault (Option Token) :=
  match stream.tokens[n]?, stream.fault with
  | some t, _ => .ok (some t)
  | none, some e => .error e
  | none, none => .ok none

/-- A source with tokens gives them one by one, and then nothing. -/
theorem Stream.answer_of_tokenize {text : String} {ts : List Token} (h : tokenize text = .ok ts) (n : Nat) :
    (ofSource text).answer n = .ok ts[n]? := by
  rw [ofSource_eq_of_tokenize h, answer]
  cases ts[n]? <;> rfl

/-- A source with a fault gives its tokens one by one, and then the fault. -/
theorem Stream.answer_of_fault {stream : Stream} {e : LexFault} (h : stream.fault = some e) (n : Nat) :
    stream.answer n = stream.tokens[n]?.elim (.error e) fun t => .ok (some t) := by
  rw [answer, h]
  cases stream.tokens[n]? <;> rfl

namespace Cursor

/-- The cursor after a list of steps. -/
def after (c : Cursor) (steps : List SessionStep) : Cursor := steps.foldl (fun c step => (c.answer step).2) c

/-- The cursor after some tokens were asked for. -/
def pulled (c : Cursor) : Nat → Cursor
  | 0 => c
  | n + 1 => c.next.2.pulled n

/-- A cursor stands in a text behind the characters that were passed, at the place to which they lead. -/
structure StandsIn (c : Cursor) (text passed : List Char) : Prop where
  append : passed ++ c.rest = text
  position : c.position = .behind passed

variable {c c' : Cursor}

/-! ## One step -/

/-- A cursor that gave no token is at rest: it gives the same again. It is at its end exactly if it gave nothing. -/
theorem next_rest {result : Except LexFault (Option Token)} (h : c.next = (result, c'))
    (hresult : ∀ t, result ≠ .ok (some t)) : c'.next = (result, c') ∧ (c'.atEnd = true ↔ result = .ok none) := by
  obtain ⟨cs, p⟩ := c
  induction cs using scan_induction generalizing p with
  | nil =>
    rw [next_nil] at h
    cases h
    exact ⟨next_nil p, by simp [atEnd]⟩
  | stuck d cs hstuck =>
    rw [next_stuck hstuck] at h
    cases h
    exact ⟨next_stuck hstuck, by simp [atEnd]⟩
  | token cs x kind hx hk ih =>
    rw [next_token hx hk] at h
    cases h
    exact absurd rfl (hresult _)
  | skip cs x hx hk ih =>
    rw [next_skip hx hk] at h
    exact ih _ h

/-- What is passed stands behind what was passed before. -/
theorem StandsIn.pass {text passed cs : List Char} {p : Position} {x : Lexeme} (h : StandsIn ⟨cs, p⟩ text passed)
    (hx : Lexeme.first? cs = some x) : (pass ⟨cs, p⟩ x).StandsIn text (passed ++ x.chars) := by
  refine ⟨?_, ?_⟩
  · rw [Cursor.pass, List.append_assoc, (Lexeme.first?_append hx).1]
    exact h.append
  · have hp : p = .behind passed := h.position
    rw [Cursor.pass, hp, Position.behind_append]

/-- Asking for a token leads further on in the text. -/
theorem StandsIn.next {text passed : List Char} (h : c.StandsIn text passed) :
    ∃ more, c.next.2.StandsIn text (passed ++ more) := by
  obtain ⟨cs, p⟩ := c
  induction cs using scan_induction generalizing p passed with
  | nil =>
    rw [next_nil]
    exact ⟨[], by rwa [List.append_nil]⟩
  | stuck d cs hstuck =>
    rw [next_stuck hstuck]
    exact ⟨[], by rwa [List.append_nil]⟩
  | token cs x kind hx hk ih =>
    rw [next_token hx hk]
    exact ⟨x.chars, h.pass hx⟩
  | skip cs x hx hk ih =>
    rw [next_skip hx hk]
    obtain ⟨more, hmore⟩ := ih _ (h.pass hx)
    exact ⟨x.chars ++ more, by rwa [← List.append_assoc]⟩

/-! ## Asking again and again -/

/-- Asking once more. -/
theorem pulled_succ (c : Cursor) (n : Nat) : c.pulled (n + 1) = (c.pulled n).next.2 := by
  induction n generalizing c with
  | zero => rfl
  | succ n ih => exact ih c.next.2

/-- A cursor at rest stays where it is. -/
theorem pulled_of_rest (h : c.next.2 = c) (n : Nat) : c.pulled n = c := by
  induction n with
  | zero => rfl
  | succ n ih => rw [pulled, h, ih]

/-- What is given for the token of a number is told by the stream. -/
theorem pulled_next (c : Cursor) (n : Nat) : (c.pulled n).next.1 = (Stream.ofCursor c).answer n := by
  induction n generalizing c with
  | zero =>
    rw [pulled, Stream.ofCursor_eq]
    split
    · next h => rw [h]; rfl
    · next h => rw [h]; rfl
    · next h => rw [h]; rfl
  | succ n ih =>
    rw [pulled, ih, Stream.ofCursor_eq c]
    split
    · next e c' h =>
      obtain ⟨hrest, -⟩ := next_rest h (fun _ heq => by cases heq)
      rw [h, Stream.ofCursor_eq, hrest]
      rfl
    · next c' h =>
      obtain ⟨hrest, -⟩ := next_rest h (fun _ heq => by cases heq)
      rw [h, Stream.ofCursor_eq, hrest]
      rfl
    · next t c' h =>
      rw [h]
      rfl

/-- After one more request than there are tokens the cursor is at rest. -/
theorem pulled_rest (c : Cursor) {n : Nat} (h : (Stream.ofCursor c).tokens.length < n) :
    (c.pulled n).next.2 = c.pulled n := by
  induction n generalizing c with
  | zero => cases h
  | succ n ih =>
    rw [Stream.ofCursor_eq] at h
    rw [pulled]
    split at h
    · next e c' hnext =>
      obtain ⟨hrest, -⟩ := next_rest hnext (fun _ heq => by cases heq)
      rw [hnext, pulled_of_rest (by rw [hrest]), hrest]
    · next c' hnext =>
      obtain ⟨hrest, -⟩ := next_rest hnext (fun _ heq => by cases heq)
      rw [hnext, pulled_of_rest (by rw [hrest]), hrest]
    · next t c' hnext =>
      rw [hnext]
      exact ih c' (Nat.lt_of_succ_lt_succ h)

/-! ## Sessions -/

/-- The answer to a step of a session is that of the cursor after the steps in front of it. -/
theorem session_getElem? (c : Cursor) (before later : List SessionStep) (step : SessionStep) :
    (c.session (before ++ step :: later))[before.length]? = some ((c.after before).answer step) := by
  induction before generalizing c with
  | nil => rfl
  | cons first before ih => exact ih (c.answer first).2

@[simp] theorem after_snoc (c : Cursor) (steps : List SessionStep) (step : SessionStep) :
    c.after (steps ++ [step]) = ((c.after steps).answer step).2 := by
  simp [after]

/-- The cursor of a session is that of the source loaded last, after the requests since then. -/
theorem after_eq_pulled (steps : List SessionStep) :
    idle.after steps = (ofSource (SessionStep.source steps)).pulled (SessionStep.pulls steps) := by
  induction steps using List.reverseRecOn with
  | nil => rfl
  | append_singleton steps step ih =>
    cases step with
    | load text => simp [answer, pulled]
    | next =>
      rw [after_snoc, SessionStep.source_snoc_next, SessionStep.pulls_snoc_next, pulled_succ, ← ih]
      rfl

/-- The cursor of a session stands in the source that was loaded last. -/
theorem after_standsIn (steps : List SessionStep) :
    ∃ passed, (idle.after steps).StandsIn (SessionStep.source steps).toList passed := by
  induction steps using List.reverseRecOn with
  | nil => exact ⟨[], rfl, rfl⟩
  | append_singleton steps step ih =>
    rw [after_snoc]
    cases step with
    | load text =>
      rw [SessionStep.source_snoc_load]
      exact ⟨[], rfl, rfl⟩
    | next =>
      obtain ⟨passed, hpassed⟩ := ih
      obtain ⟨more, hmore⟩ := hpassed.next
      rw [SessionStep.source_snoc_next]
      exact ⟨passed ++ more, hmore⟩

/-- How the answer to one step of a session, and the cursor after it, are told by the source that is read. -/
structure Replays (before : List SessionStep) (step : SessionStep) (answer : SessionAnswer) (c : Cursor) : Prop where
  /-- Loading a source gives nothing, and the source is read from its front. -/
  load : ∀ text, step = .load text → answer = .loaded ∧ c = ofSource text
  /-- A source that tokenizes gives its tokens one by one, and nothing from then on. -/
  tokens : step = .next → ∀ ts, tokenize (SessionStep.source before) = .ok ts →
    answer = .pulled (.ok ts[SessionStep.pulls before]?)
  /-- A source that does not tokenize gives the tokens in front of its fault, and the fault from then on. -/
  fault : step = .next → ∀ e, tokenize (SessionStep.source before) = .error e →
    answer = .pulled (((Stream.ofSource (SessionStep.source before)).tokens[SessionStep.pulls before]?).elim (.error e)
      fun t => .ok (some t))
  /-- Once an answer was no token, the cursor moves no more. -/
  rest : step = .next → (Stream.ofSource (SessionStep.source before)).tokens.length < SessionStep.pulls before →
    c = idle.after before
  /-- The cursor is at the end or has more to read, and not both. -/
  hasMore_eq : c.hasMore = !c.atEnd
  /-- With nothing given the cursor is at the end. -/
  atEnd : answer = .pulled (.ok none) → c.atEnd = true
  /-- With a fault the cursor is not at the end. -/
  not_atEnd : ∀ e, answer = .pulled (.error e) → c.atEnd = false
  /-- The cursor stands in the source, at its end if all of it was passed and with more to read if less was. -/
  standsIn : ∃ passed, c.StandsIn (SessionStep.source (before ++ [step])).toList passed ∧
    (c.atEnd = true ↔ passed.length = (SessionStep.source (before ++ [step])).toList.length) ∧
    (c.hasMore = true ↔ passed.length < (SessionStep.source (before ++ [step])).toList.length)

/-- There is more exactly where it is not the end. -/
theorem hasMore_eq_not_atEnd (c : Cursor) : c.hasMore = !c.atEnd := by
  obtain ⟨cs, p⟩ := c
  cases cs with
  | nil => rfl
  | cons d cs => simp [hasMore, Cursor.atEnd]

/-- The end is where all characters were passed. -/
theorem StandsIn.atEnd_iff {text passed : List Char} (h : c.StandsIn text passed) :
    (c.atEnd = true ↔ passed.length = text.length) ∧ (c.hasMore = true ↔ passed.length < text.length) := by
  have hlength : text.length = passed.length + c.rest.length := by rw [← h.append, List.length_append]
  rw [Cursor.atEnd, List.isEmpty_iff_length_eq_zero, hasMore, decide_eq_true_eq]
  omega

/-- Loading a source puts it in place of the one before, at its start. -/
theorem replays_load (before : List SessionStep) (text : String) : Replays before (.load text) .loaded (ofSource text) := by
  have hstands : StandsIn (ofSource text) (SessionStep.source (before ++ [.load text])).toList [] := by
    rw [SessionStep.source_snoc_load]
    exact ⟨rfl, rfl⟩
  constructor
  case load =>
    rintro _ ⟨⟩
    exact ⟨rfl, rfl⟩
  case hasMore_eq => exact hasMore_eq_not_atEnd _
  case standsIn => exact ⟨[], hstands, hstands.atEnd_iff⟩
  all_goals nofun

/-- Asking for a token gives what the source read by itself gives for its number. -/
theorem replays_next (before : List SessionStep) {result : Except LexFault (Option Token)}
    (h : (idle.after before).next = (result, c)) : Replays before .next (.pulled result) c := by
  -- The request is the one of its number to the source that was loaded last.
  have hpulled := h
  rw [after_eq_pulled] at hpulled
  have hresult : result = (Stream.ofSource (SessionStep.source before)).answer (SessionStep.pulls before) := by
    have hanswer := pulled_next (ofSource (SessionStep.source before)) (SessionStep.pulls before)
    rwa [hpulled] at hanswer
  constructor
  case load => nofun
  case tokens =>
    intro _ ts hts
    rw [hresult, Stream.answer_of_tokenize hts]
  case fault =>
    intro _ e he
    rw [hresult, Stream.answer_of_fault (Stream.fault_of_tokenize he)]
  case rest =>
    intro _ hlt
    have hrest := pulled_rest _ hlt
    rwa [hpulled, ← after_eq_pulled] at hrest
  case hasMore_eq => exact hasMore_eq_not_atEnd c
  case atEnd =>
    intro hnone
    cases hnone
    exact (next_rest h nofun).2.mpr rfl
  case not_atEnd =>
    intro e he
    cases he
    exact Bool.eq_false_iff.mpr fun hend => nomatch (next_rest h nofun).2.mp hend
  case standsIn =>
    obtain ⟨passed, hstands⟩ := after_standsIn (before ++ [.next])
    rw [after_snoc, answer, h] at hstands
    exact ⟨passed, hstands, hstands.atEnd_iff⟩

/-- Each step of a session replays the source that was loaded last. -/
theorem session_replays (before later : List SessionStep) (step : SessionStep) :
    ∃ answer c, (idle.session (before ++ step :: later))[before.length]? = some (answer, c) ∧
      Replays before step answer c := by
  rw [session_getElem?]
  cases step with
  | load text => exact ⟨_, _, rfl, replays_load before text⟩
  | next => exact ⟨_, _, rfl, replays_next before rfl⟩

/-- Behind the only token a comment is passed once, and the fault is given again by a cursor that stays in front of it. -/
theorem session_replays_after_fault : ∃ c,
    (idle.session [.load "a // b\n@", .next, .next, .next])[3]? = some (.pulled (.error ⟨'@', ⟨2, 0⟩⟩), c) ∧
      c = idle.after [.load "a // b\n@", .next, .next] ∧ c.atEnd = false ∧ c.hasMore = true := by
  have herror : tokenize "a // b\n@" = .error ⟨'@', ⟨2, 0⟩⟩ := by decide +kernel
  have htokens : (Stream.ofSource "a // b\n@").tokens = [⟨.name, "a", ⟨1, 0⟩⟩] := by decide +kernel
  obtain ⟨answer, c, hget, h⟩ := session_replays [.load "a // b\n@", .next, .next] [] .next
  have hsource : SessionStep.source [.load "a // b\n@", .next, .next] = "a // b\n@" := rfl
  have hpulls : SessionStep.pulls [.load "a // b\n@", .next, .next] = 2 := rfl
  have hfault := h.fault rfl
  have hrest := h.rest rfl
  rw [hsource, htokens, hpulls] at hfault hrest
  have hanswer : answer = .pulled (.error ⟨'@', ⟨2, 0⟩⟩) := hfault _ herror
  have hmore := h.hasMore_eq
  rw [h.not_atEnd _ hanswer] at hmore
  exact ⟨c, by rw [← hanswer]; exact hget, hrest (by decide), h.not_atEnd _ hanswer, hmore⟩

end Cursor

end Scriptlet
