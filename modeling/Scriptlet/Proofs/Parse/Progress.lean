import Scriptlet.Proofs.Parse.Ahead
import Scriptlet.Proofs.Parse.Calls

/-!
# Progress

A reader that looks one token ahead needs no proof to run: give it a number of rounds for each scan and a number of calls
that may be open at once, and it gives up where these are spent. It never gives up when both numbers are a little more than
twelve times the length of the source, and then it reads what the source means. Two facts carry this, both proved for plans:
what a production takes is gone from the tokens in front of the reader, and a call is made on fewer tokens than its caller's
or, before a token is taken, by a production of greater height.
-/

namespace Scriptlet

/-! ## Rounds of the scan -/

namespace Cursor

variable {c : Cursor} {m : Nat}

/-- The next token and the cursor after it, or nothing where the rounds of the scan are too few to get there. -/
def nextWithin : Nat → Cursor → Option (Except LexFault (Option Token) × Cursor)
  | 0, _ => none
  | m + 1, c =>
    match c.rest with
    | [] => some (.ok none, c)
    | front :: _ =>
      match Lexeme.first? c.rest with
      | none => some (.error ⟨front, c.position⟩, c)
      | some lexeme =>
        match lexeme.tokenKind? with
        | some kind => some (.ok (some ⟨kind, .ofList lexeme.chars, c.position⟩), c.pass lexeme)
        | none => nextWithin m (c.pass lexeme)

/-- A round of the scan answers, or it passes a lexeme that is no token. -/
theorem round (c : Cursor) : (∀ m, c.nextWithin (m + 1) = some c.next) ∨
    ∃ x, Lexeme.first? c.rest = some x ∧ c.next = (c.pass x).next ∧ ∀ m, c.nextWithin (m + 1) = (c.pass x).nextWithin m := by
  obtain ⟨_ | ⟨front, cs⟩, p⟩ := c
  · exact .inl fun m => by rw [nextWithin, next_nil]
  rcases hx : Lexeme.first? (front :: cs) with _ | x
  · exact .inl fun m => by simp only [nextWithin, next_stuck hx, hx]
  rcases hk : x.tokenKind? with _ | kind
  · exact .inr ⟨x, rfl, next_skip hx hk, fun m => by simp only [nextWithin, hx, hk]⟩
  · exact .inl fun m => by simp only [nextWithin, next_token hx hk, hx, hk]

/-- A round that passes a lexeme leaves fewer characters. -/
theorem pass_shorter {x : Lexeme} (h : Lexeme.first? c.rest = some x) : (c.pass x).rest.length < c.rest.length :=
  Lexeme.first?_shorter h

/-- An answer within some rounds is the answer. -/
theorem eq_next_of_nextWithin {r : Except LexFault (Option Token) × Cursor} (h : c.nextWithin m = some r) : r = c.next := by
  induction m generalizing c with
  | zero => cases h
  | succ m ih =>
    rcases c.round with hanswer | ⟨x, -, hnext, hround⟩
    · rw [hanswer] at h
      exact (Option.some.inj h).symm
    · rw [hround] at h
      rw [hnext]
      exact ih h

/-- More rounds than characters are enough. -/
theorem nextWithin_eq_some (h : c.rest.length < m) : c.nextWithin m = some c.next := by
  induction m generalizing c with
  | zero => cases h
  | succ m ih =>
    rcases c.round with hanswer | ⟨x, hx, hnext, hround⟩
    · exact hanswer m
    · rw [hround, hnext]
      exact ih (Nat.lt_of_lt_of_le (pass_shorter hx) (Nat.le_of_lt_succ h))

/-- What lies behind the last token is passed with the answer that there is none. -/
theorem rest_of_next_none {c c' : Cursor} (h : c.next = (.ok none, c')) : c'.rest = [] := by
  fun_induction next c with
  | case1 c hnil =>
    cases h
    exact hnil
  | case2 => cases h
  | case3 => cases h
  | case4 _ _ _ _ _ _ _ _ ih => exact ih h

end Cursor

/-- There are no more tokens than characters. -/
theorem Stream.length_tokens_le (cs : List Char) (p : Position) : (ofCursor ⟨cs, p⟩).tokens.length ≤ cs.length := by
  induction cs using scan_induction generalizing p with
  | nil => rw [ofCursor_nil]; exact Nat.le_refl _
  | stuck c cs h => rw [ofCursor_stuck h]; exact Nat.zero_le _
  | token cs x kind h hk ih =>
    rw [ofCursor_token h hk, cons_tokens, List.length_cons]
    exact Nat.succ_le_of_lt (Nat.lt_of_le_of_lt (ih _) (Lexeme.first?_shorter h))
  | skip cs x h hk ih =>
    rw [ofCursor_skip h hk]
    exact Nat.le_trans (ih _) (Nat.le_of_lt (Lexeme.first?_shorter h))

/-! ## What a reader has in front of it -/

namespace Ahead

variable {source : String} {a a' : Ahead} {c : Cursor} {kind : TokenKind} {t : Token} {m : Nat}

/-- The tokens that a reader has not taken: the one it looks at and those that are still to be scanned. -/
def unconsumed (a : Ahead) : List Token := a.token.toList ++ (Stream.ofCursor a.cursor).tokens

/-- The readers that a source leads to: the one of the first look, and with a reader the one that has taken a token more. -/
inductive Reached (source : String) : Ahead → Prop where
  | first {a : Ahead} : look (.ofSource source) = .ok a → Reached source a
  | take {a a' : Ahead} {kind : TokenKind} {t : Token} : Reached source a → a.take kind = .ok (t, a') → Reached source a'

/-- A token that is taken gives way to a look behind it. -/
theorem look_of_take (h : a.take kind = .ok (t, a')) : look a.cursor = .ok a' := by
  unfold take at h
  split at h
  · cases h
  split at h
  · split at h
    · next hlook =>
      cases h
      exact hlook
    · cases h
  · cases h

/-- A look leaves no more characters, and none where it finds no token. -/
theorem rest_of_look (h : look c = .ok a) :
    a.cursor.rest.length ≤ c.rest.length ∧ (a.token = none → a.cursor.rest = []) := by
  unfold look at h
  split at h
  · next token c' hnext =>
    cases h
    cases token with
    | none =>
      have hrest : c'.rest = [] := Cursor.rest_of_next_none hnext
      exact ⟨by simp [hrest], fun _ => hrest⟩
    | some t => exact ⟨Nat.le_of_lt (Cursor.next_shorter hnext), by simp⟩
  · cases h

/-- A reader that sees nothing has passed all characters. -/
theorem Reached.rest_eq_nil (h : Reached source a) : a.token = none → a.cursor.rest = [] := by
  cases h with
  | first hlook => exact (rest_of_look hlook).2
  | take _ htake => exact (rest_of_look (look_of_take htake)).2

/-- A reader has no more characters in front of it than the source has. -/
theorem Reached.length_rest_le (h : Reached source a) : a.cursor.rest.length ≤ source.length := by
  induction h with
  | first hlook => exact (rest_of_look hlook).1
  | take _ htake ih => exact Nat.le_trans (rest_of_look (look_of_take htake)).1 ih

/-- What a reader shows is what it has not taken. -/
theorem Shows.unconsumed_eq {stream : Stream} (h : a.Shows stream) (hnil : a.token = none → a.cursor.rest = []) :
    a.unconsumed = stream.tokens := by
  obtain ⟨token, cs, p⟩ := a
  cases token with
  | none =>
    obtain rfl : cs = [] := hnil rfl
    obtain rfl : stream = ⟨[], none⟩ := h
    rw [unconsumed, Stream.ofCursor_nil]
    rfl
  | some t =>
    obtain rfl : stream = .cons t (.ofCursor ⟨cs, p⟩) := h
    rfl

/-- A look takes nothing away. -/
theorem unconsumed_of_look (h : look c = .ok a) : a.unconsumed = (Stream.ofCursor c).tokens :=
  (shows_of_look h).unconsumed_eq (rest_of_look h).2

/-- What a reader shows of a stream is what it has not taken. -/
theorem Reached.unconsumed_eq {stream : Stream} (h : Reached source a) (hshows : a.Shows stream) :
    a.unconsumed = stream.tokens :=
  hshows.unconsumed_eq h.rest_eq_nil

/-- A reader that a source leads to shows what it has not taken, with what stops the scan of the source at the end. -/
theorem Reached.shows (h : Reached source a) : a.Shows ⟨a.unconsumed, (Stream.ofSource source).fault⟩ := by
  induction h with
  | first hlook =>
    rw [unconsumed_of_look hlook]
    exact shows_of_look hlook
  | @take a a' kind t hreached htake ih =>
    have hstep := ih.take kind
    rw [htake] at hstep
    obtain ⟨rest, -, hshows⟩ := hstep
    rw [(hreached.take htake).unconsumed_eq hshows]
    exact hshows

/-- Taking a token takes it from the front of what was not taken. -/
theorem Reached.expect_eq_ok (h : Reached source a) (htake : a.take kind = .ok (t, a')) :
    Parse.plain (Parse.expect (Stream.ofSource source).fault kind a.unconsumed) = .ok (t, a'.unconsumed) := by
  have hstep := h.shows.take kind
  rw [htake] at hstep
  obtain ⟨rest, hexpect, hshows⟩ := hstep
  rw [(h.take htake).unconsumed_eq hshows]
  exact hexpect

/-- Where a reader cannot take a token, the parser cannot take it from the tokens that are left. -/
theorem Reached.expect_eq_error {e : ParseFault} (h : Reached source a) (htake : a.take kind = .error e) :
    Parse.plain (Parse.expect (Stream.ofSource source).fault kind a.unconsumed) = .error e := by
  have hstep := h.shows.take kind
  rw [htake] at hstep
  exact hstep

/-- A token that is taken is gone. -/
theorem Reached.take_shorter (h : Reached source a) (htake : a.take kind = .ok (t, a')) :
    a'.unconsumed.length < a.unconsumed.length :=
  Parse.plain_shorter (h.expect_eq_ok htake)

/-- A reader with nothing in front of it is at the end of the source, where nothing stops the scan. -/
theorem Reached.fault_eq_none (h : Reached source a) (hnil : a.unconsumed = []) : (Stream.ofSource source).fault = none := by
  have hshows := h.shows
  obtain ⟨token, c⟩ := a
  cases token with
  | none => exact congrArg Stream.fault hshows
  | some t => cases hnil

/-- What a reader has not taken is no longer than the source. -/
theorem Reached.length_unconsumed_le (h : Reached source a) : a.unconsumed.length ≤ source.length := by
  induction h with
  | first hlook =>
    rw [unconsumed_of_look hlook]
    exact Stream.length_tokens_le source.toList .start
  | take hreached htake ih => exact Nat.le_trans (Nat.le_of_lt (hreached.take_shorter htake)) ih

/-- The token that is looked at is the first one that was not taken. -/
theorem Reached.head?_unconsumed (h : Reached source a) : a.unconsumed.head? = a.token := by
  have hnil := h.rest_eq_nil
  obtain ⟨token, cs, p⟩ := a
  cases token with
  | none =>
    obtain rfl : cs = [] := hnil rfl
    rw [unconsumed, Stream.ofCursor_nil]
    rfl
  | some t => rfl

/-- Looks at the next token of a cursor, or gives nothing where the rounds of the scan are too few. -/
def lookWithin (m : Nat) (c : Cursor) : Option (Except LexFault Ahead) :=
  match c.nextWithin m with
  | none => none
  | some (.ok token, c') => some (.ok ⟨token, c'⟩)
  | some (.error e, _) => some (.error e)

/-- Takes the token that is looked at if it is of a kind and looks at the next one, or gives nothing where the rounds of the
scan are too few. -/
def takeWithin (m : Nat) (kind : TokenKind) (a : Ahead) : Option (Except ParseFault (Token × Ahead)) :=
  match a.token with
  | none => some (.error (.endOfInput kind))
  | some t =>
    if t.kind = kind then
      match lookWithin m a.cursor with
      | none => none
      | some (.ok a') => some (.ok (t, a'))
      | some (.error e) => some (.error (.lex e))
    else some (.error (.unexpected t.text kind t.position))

/-- A look within some rounds is the look. -/
theorem look_of_lookWithin {r : Except LexFault Ahead} (h : lookWithin m c = some r) : look c = r := by
  unfold lookWithin at h
  split at h
  · cases h
  · next hnext =>
    cases h
    rw [look, ← Cursor.eq_next_of_nextWithin hnext]
  · next hnext =>
    cases h
    rw [look, ← Cursor.eq_next_of_nextWithin hnext]

/-- With more rounds than characters a look is a look. -/
theorem lookWithin_eq_some (h : c.rest.length < m) : lookWithin m c = some (look c) := by
  rw [lookWithin, look, Cursor.nextWithin_eq_some h]
  obtain ⟨answer, c'⟩ := c.next
  cases answer <;> rfl

/-- A token that is taken within some rounds is taken. -/
theorem take_of_takeWithin {r : Except ParseFault (Token × Ahead)} (h : takeWithin m kind a = some r) : a.take kind = r := by
  unfold takeWithin at h
  split at h
  · next hnone =>
    cases h
    rw [take, hnone]
  · next t hsome =>
    rw [take, hsome]
    dsimp only
    split at h
    · next hk =>
      rw [if_pos hk]
      split at h
      · cases h
      · next hlook =>
        cases h
        rw [look_of_lookWithin hlook]
      · next hlook =>
        cases h
        rw [look_of_lookWithin hlook]
    · next hk =>
      cases h
      rw [if_neg hk]

/-- With more rounds than characters a token is taken as it would be without a limit. -/
theorem takeWithin_eq_some (h : a.cursor.rest.length < m) (kind : TokenKind) : takeWithin m kind a = some (a.take kind) := by
  unfold takeWithin take
  rw [lookWithin_eq_some h]
  cases a.token with
  | none => rfl
  | some t =>
    dsimp only
    split
    · cases look a.cursor <;> rfl
    · rfl

end Ahead

namespace Parse

/-! ## Readers that may give up -/

/-- What a reader gives: nothing if it gives up, and else a value and the reader after it, or a fault. -/
abbrev Attempt (α : Type) : Type := Option (Except ParseFault (α × Ahead))

namespace Attempt

variable {α β : Type}

/-- Goes on behind a value. -/
def andThen (x : Attempt α) (f : α → Ahead → Attempt β) : Attempt β :=
  match x with
  | none => none
  | some (.error e) => some (.error e)
  | some (.ok (v, a)) => f v a

/-- What is given, with the tokens that the reader has not taken in place of the reader. -/
def reading (x : Attempt α) : Option (Reading α) := x.map fun r => r.map fun (v, a) => (v, a.unconsumed)

/-- A sequence of attempts succeeds when both of them do. -/
theorem andThen_eq_ok {x : Attempt α} {f : α → Ahead → Attempt β} {r : β × Ahead} :
    x.andThen f = some (.ok r) ↔ ∃ v a, x = some (.ok (v, a)) ∧ f v a = some (.ok r) := by
  constructor
  · intro h
    unfold andThen at h
    split at h
    · cases h
    · cases h
    · next v a => exact ⟨v, a, rfl, h⟩
  · rintro ⟨v, a, rfl, h⟩
    exact h

/-- A sequence of attempts reads as the sequence of what its parts read as. -/
theorem reading_andThen {x : Attempt α} {y : Reading α} {f : α → Ahead → Attempt β} {g : α → List Token → Reading β}
    (hx : x.reading = some y) (hf : ∀ v a, x = some (.ok (v, a)) → (f v a).reading = some (g v a.unconsumed)) :
    (x.andThen f).reading = some (Parse.andThen y g) := by
  obtain ⟨r, rfl, rfl⟩ := Option.map_eq_some_iff.mp hx
  rcases r with e | ⟨v, a⟩
  · rfl
  · exact hf v a rfl

end Attempt

/-- A plan that a reader carries out: the rounds for each scan are given, and what the calls give. -/
def Plan.attempt {α : Type} (m : Nat) (calls : (p : Production) → Ahead → Attempt p.Value) : Plan α → Ahead → Attempt α
  | .done v, a => some (.ok (v, a))
  | .fail e, _ => some (.error e)
  | .look k, a => (k (a.token.map (·.kind))).attempt m calls a
  | .mark k, a => (k ((a.token.map (·.position)).getD .start)).attempt m calls a
  | .take kind k, a => Attempt.andThen (a.takeWithin m kind) fun t a' => (k t).attempt m calls a'
  | .call p k, a => (calls p a).andThen fun v a' => (k v).attempt m calls a'

/-- A production that a reader reads, with so many rounds for each scan and so many calls open at once. -/
def Production.attempt (m : Nat) : Nat → (p : Production) → Ahead → Attempt p.Value
  | 0, _, _ => none
  | n + 1, p, a => p.plan.attempt m (attempt m n) a

/-! ## Tokens are taken -/

/-- A plan takes a token before it gives a value. -/
def Plan.TakesToken {α : Type} : Plan α → Prop
  | .done _ => False
  | .fail _ | .take _ _ => True
  | .look k => ∀ next, (k next).TakesToken
  | .mark k => ∀ p, (k p).TakesToken
  | .call p k => p.takesToken = true ∨ ∀ v, (k v).TakesToken

namespace Plan

variable {α β : Type}

theorem takesToken_takeAs (kind : TokenKind) (read : String → Option β) (k : β → Plan α) :
    (takeAs kind read k).TakesToken := trivial

/-- A literal takes a token. -/
theorem takesToken_literal (next : Option TokenKind) : (literal next).TakesToken := by
  unfold literal
  split <;> exact takesToken_takeAs _ _ _

theorem takesToken_ite {P : Prop} [Decidable P] {a b : Plan α} (ha : a.TakesToken) (hb : b.TakesToken) :
    (if P then a else b).TakesToken := by
  split
  · exact ha
  · exact hb

end Plan

open Plan in
/-- The plan of a production that takes a token takes one. -/
theorem Production.takesToken_plan {p : Production} (h : p.takesToken = true) : p.plan.TakesToken := by
  cases p with
  | read rank =>
    cases rank with
    | whole => exact fun _ => .inl rfl
    | level level => exact .inl rfl
    | signed =>
      intro next
      dsimp only
      split
      · exact takesToken_takeAs _ _ _
      · exact .inl rfl
    | atom => exact fun _ => takesToken_ite trivial (takesToken_ite (takesToken_literal _) (takesToken_takeAs _ _ _))
  | chain level left => cases h
  | expressionBefore closing => cases h
  | parameters => cases h
  | loopInit => cases h
  | declarators => exact .inl rfl
  | simple => exact fun _ => takesToken_ite trivial (takesToken_ite (.inl rfl) (takesToken_ite trivial (.inl rfl)))
  | statement =>
    exact fun _ => takesToken_ite (.inl rfl) (takesToken_ite trivial (takesToken_ite trivial (takesToken_ite trivial
      (takesToken_ite (.inl rfl) (takesToken_ite (.inl rfl) (.inl rfl))))))
  | statements closing => exact .inl rfl
  | _ => trivial

/-- From a reader to one that a source leads to, with tokens taken, and one at least where `P` holds. -/
structure Advances (source : String) (P : Prop) (a a' : Ahead) : Prop where
  reached : a'.Reached source
  le : a'.unconsumed.length ≤ a.unconsumed.length
  lt : P → a'.unconsumed.length < a.unconsumed.length

variable {α : Type} {source : String} {a a' : Ahead} {m n : Nat}

/-- A plan takes tokens if that is so of what it calls. -/
theorem Plan.attempt_advances {calls : (p : Production) → Ahead → Attempt p.Value} {plan : Plan α} {v : α}
    (hcalls : ∀ p a v a', a.Reached source → calls p a = some (.ok (v, a')) → Advances source (p.takesToken = true) a a')
    (ha : a.Reached source) (h : plan.attempt m calls a = some (.ok (v, a'))) : Advances source plan.TakesToken a a' := by
  induction plan generalizing a with
  | done w =>
    cases h
    exact ⟨ha, Nat.le_refl _, False.elim⟩
  | fail e => cases h
  | look k ih =>
    have hrest := ih _ ha h
    exact ⟨hrest.reached, hrest.le, fun htakes => hrest.lt (htakes _)⟩
  | mark k ih =>
    have hrest := ih _ ha h
    exact ⟨hrest.reached, hrest.le, fun htakes => hrest.lt (htakes _)⟩
  | take kind k ih =>
    obtain ⟨t, b, htaken, h⟩ := Attempt.andThen_eq_ok.mp h
    have htake := Ahead.take_of_takeWithin htaken
    have hrest := ih t (ha.take htake) h
    have hlt := Nat.lt_of_le_of_lt hrest.le (ha.take_shorter htake)
    exact ⟨hrest.reached, Nat.le_of_lt hlt, fun _ => hlt⟩
  | call p k ih =>
    obtain ⟨w, b, hcall, h⟩ := Attempt.andThen_eq_ok.mp h
    have hfirst := hcalls p a w b ha hcall
    have hrest := ih w hfirst.reached h
    refine ⟨hrest.reached, Nat.le_trans hrest.le hfirst.le, fun htakes => ?_⟩
    -- Either the call takes a token or what comes behind it does.
    rcases htakes with hp | hk
    · exact Nat.lt_of_le_of_lt hrest.le (hfirst.lt hp)
    · exact Nat.lt_of_lt_of_le (hrest.lt (hk w)) hfirst.le

/-- A production takes tokens, whatever the reader is given to do so. -/
theorem Production.attempt_advances {p : Production} {v : p.Value} (ha : a.Reached source)
    (h : p.attempt m n a = some (.ok (v, a'))) : Advances source (p.takesToken = true) a a' := by
  induction n generalizing p a a' with
  | zero => cases h
  | succ n ih =>
    have hplan := Plan.attempt_advances (fun _ _ _ _ => ih) ha h
    exact ⟨hplan.reached, hplan.le, fun hp => hplan.lt (takesToken_plan hp)⟩

/-! ## Readers that do not give up -/

/-- A plan is carried out by a reader as it is on the tokens in front of it, if that is so of what it calls. -/
theorem Plan.attempt_reading {calls : (p : Production) → Ahead → Attempt p.Value} {plan : Plan α} (hm : source.length < m)
    (hreached : ∀ p a v a', a.Reached source → calls p a = some (.ok (v, a')) → a'.Reached source)
    (hcalls : ∀ q us, plan.Calls (Stream.ofSource source).fault a.unconsumed q us → ∀ b : Ahead, b.Reached source →
      b.unconsumed = us → (calls q b).reading = some (q.reading (Stream.ofSource source).fault us))
    (ha : a.Reached source) :
    (plan.attempt m calls a).reading = some (plan.run (Stream.ofSource source).fault a.unconsumed) := by
  induction plan generalizing a with
  | done v => rfl
  | fail e => rfl
  | look k ih =>
    rw [attempt, run, kind?, ha.head?_unconsumed]
    refine ih _ (fun q us hq => hcalls q us (.look ?_)) ha
    rwa [kind?, ha.head?_unconsumed]
  | mark k ih =>
    rw [attempt, run, position, ha.head?_unconsumed]
    refine ih _ (fun q us hq => hcalls q us (.mark ?_)) ha
    rwa [position, ha.head?_unconsumed]
  | take kind k ih =>
    have htaken := Ahead.takeWithin_eq_some (Nat.lt_of_le_of_lt ha.length_rest_le hm) kind
    rw [attempt, run, htaken]
    cases htake : a.take kind with
    | error e =>
      rw [ha.expect_eq_error htake]
      rfl
    | ok taken =>
      obtain ⟨t, b⟩ := taken
      have hexpect := ha.expect_eq_ok htake
      rw [hexpect]
      exact ih t (fun q us hq => hcalls q us (.take hexpect hq)) (ha.take htake)
  | call p k ih =>
    have hcall := hcalls p _ .here a ha rfl
    refine Attempt.reading_andThen hcall fun v b hb => ?_
    have hread : p.reading (Stream.ofSource source).fault a.unconsumed = .ok (v, b.unconsumed) := by
      rw [hb] at hcall
      exact (Option.some.inj hcall).symm
    exact ih v (fun q us hq => hcalls q us (.behind hread hq)) (hreached p a v b ha hb)

/-- With more rounds than the source has characters, and twelve calls for each token in front of the reader and some more for
the production, a reader reads what the production gives on these tokens. -/
theorem Production.attempt_reading {p : Production} (ha : a.Reached source) (hm : source.length < m)
    (hn : 12 * a.unconsumed.length + p.height < n) :
    (p.attempt m n a).reading = some (p.reading (Stream.ofSource source).fault a.unconsumed) := by
  induction n generalizing p a with
  | zero => cases hn
  | succ n ih =>
    rw [reading_eq, attempt]
    refine Plan.attempt_reading hm (fun _ _ _ _ ha h => (attempt_advances ha h).reached) ?_ ha
    rintro q _ hq b hb rfl
    -- A token less makes up for any height, since heights are below twelve.
    have hheight := q.height_lt
    refine ih hb ?_
    rcases hq.descends p.startsBelow with hlt | ⟨heq, hlt⟩
    · omega
    · rw [heq]
      omega

/-- Twelve calls for each character of the source, and twelve more, are enough for each production. -/
theorem Production.attempt_reading_of_length {p : Production} (ha : a.Reached source) (hm : source.length < m)
    (hn : 12 * source.length + 12 ≤ n) :
    (p.attempt m n a).reading = some (p.reading (Stream.ofSource source).fault a.unconsumed) := by
  have hlength := ha.length_unconsumed_le
  have hheight := p.height_lt
  exact attempt_reading ha hm (by omega)

end Parse

namespace Program

open Parse

/-- The program that a reader reads from a source, with at most `n` rounds for each scan and `n` calls open at once. -/
def parseWithin (n : Nat) (source : String) : Option (Except ParseFault Program) :=
  match Ahead.lookWithin n (.ofSource source) with
  | none => none
  | some (.error e) => some (.error (.lex e))
  | some (.ok a) => ((Production.statements none).attempt n n a).map fun r => r.map fun (body, _) => ⟨body⟩

/-- A reader reads the program of a source. -/
theorem parseWithin_eq_some {source : String} {n : Nat} (hn : 12 * source.length + 12 ≤ n) :
    parseWithin n source = some (parse source) := by
  have hrest : (Cursor.ofSource source).rest.length < n := by
    have : (Cursor.ofSource source).rest.length = source.length := rfl
    omega
  rw [parseWithin, Ahead.lookWithin_eq_some hrest, parse]
  cases hlook : Ahead.look (.ofSource source) with
  | error e =>
    rw [Stream.ofSource, Ahead.ofCursor_of_look hlook]
    rfl
  | ok a =>
    have ha : a.Reached source := .first hlook
    have hread : ((Production.statements none).attempt n n a).reading =
        some ((Production.statements none).reading (Stream.ofSource source).fault a.unconsumed) :=
      Production.attempt_reading_of_length ha (by omega) hn
    have hstream : Stream.ofSource source = ⟨a.unconsumed, (Stream.ofSource source).fault⟩ := by
      rw [Ahead.unconsumed_of_look hlook]
      rfl
    obtain ⟨r, hr, hreading⟩ := Option.map_eq_some_iff.mp hread
    rw [hstream, ofStream_eq _ _ ha.fault_eq_none, show plain _ = _ from hreading.symm]
    dsimp only
    rw [hr]
    rcases r with e | ⟨body, a'⟩ <;> rfl

/-- Each round of the scan leaves fewer characters, so that more rounds than characters are enough for the next token. A
reader that a source leads to takes tokens and gives none back: every production but the ones that may be empty takes one at
least, and so does a literal and whatever else starts by taking a token. A call is made on fewer tokens than its caller's, or
on as many by a production of greater height. So a number of open calls that is linear in the length of the source is enough
for every production, from every such reader, and for the whole program. -/
theorem parse_progresses (source : String) :
    (∀ (c : Cursor) (x : Lexeme), Lexeme.first? c.rest = some x → (c.pass x).rest.length < c.rest.length) ∧
    (∀ (c : Cursor) (m : Nat), c.rest.length < m → c.nextWithin m = some c.next) ∧
    (∀ a : Ahead, a.Reached source → ∀ m n : Nat,
      (∀ (p : Production) (v : p.Value) (a' : Ahead), p.attempt m n a = some (.ok (v, a')) →
        a'.Reached source ∧ a'.unconsumed.length ≤ a.unconsumed.length ∧
          (p.takesToken = true → a'.unconsumed.length < a.unconsumed.length)) ∧
      (∀ (next : Option TokenKind) (e : Expr) (a' : Ahead),
        (Plan.literal next).attempt m (Production.attempt m n) a = some (.ok (e, a')) →
          a'.unconsumed.length < a.unconsumed.length) ∧
      (∀ (α : Type) (kind : TokenKind) (k : Token → Plan α) (v : α) (a' : Ahead),
        (Plan.take kind k).attempt m (Production.attempt m n) a = some (.ok (v, a')) →
          a'.unconsumed.length < a.unconsumed.length) ∧
      (source.length < m → 12 * source.length + 12 ≤ n → ∀ p : Production,
        (p.attempt m n a).reading = some (p.reading (Stream.ofSource source).fault a.unconsumed))) ∧
    (∀ (stop : Option LexFault) (p : Production) (v : p.Value) (ts rest : List Token), p.takesToken = true →
      p.reading stop ts = .ok (v, rest) → rest.length < ts.length) ∧
    (∀ (stop : Option LexFault) (p q : Production) (ts us : List Token), p.plan.Calls stop ts q us →
      Prod.Lex (· < ·) (· < ·) (us.length, q.height) (ts.length, p.height)) ∧
    ∀ n, 12 * source.length + 12 ≤ n → parseWithin n source = some (parse source) := by
  refine ⟨fun c x => Cursor.pass_shorter, fun c m => Cursor.nextWithin_eq_some, fun a ha m n => ⟨?_, ?_, ?_, ?_⟩,
    fun stop p v ts rest => Production.length_lt, ?_, fun n => parseWithin_eq_some⟩
  · intro p v a' h
    have hadvances := Production.attempt_advances ha h
    exact ⟨hadvances.reached, hadvances.le, hadvances.lt⟩
  · intro next e a' h
    exact (Plan.attempt_advances (fun _ _ _ _ => Production.attempt_advances) ha h).lt (Plan.takesToken_literal next)
  · intro α kind k v a' h
    exact (Plan.attempt_advances (fun _ _ _ _ => Production.attempt_advances) ha h).lt trivial
  · exact fun hm hn p => Production.attempt_reading_of_length ha hm hn
  · intro stop p q ts us h
    rcases h.descends p.startsBelow with hlt | ⟨rfl, hlt⟩
    · exact .left _ _ hlt
    · exact .right _ hlt

/-- A reader of two statements, in front of the first one: it takes the statement, the literal in it, or a token of the
literal's kind. The scan of what follows passes a blank. -/
theorem parse_progresses_two_statements : ∃ a b d : Ahead,
    (Production.statement.attempt 9 20 a = some (.ok (.eval (.bool true), d)) ∧ d.Reached "true; x;" ∧
      d.unconsumed.length < a.unconsumed.length) ∧
    ((Plan.literal (some (.keyword .trueWord))).attempt 9 (Production.attempt 9 20) a = some (.ok (.bool true, b)) ∧
      b.unconsumed.length < a.unconsumed.length) ∧
    ((Plan.take (.keyword .trueWord) .done).attempt 9 (Production.attempt 9 20) a =
        some (.ok (⟨.keyword .trueWord, "true", ⟨1, 0⟩⟩, b)) ∧ b.unconsumed.length < a.unconsumed.length) ∧
    ((Production.statements none).attempt 9 108 a).reading =
      some ((Production.statements none).reading (Stream.ofSource "true; x;").fault a.unconsumed) ∧
    (Cursor.pass ⟨[' ', 'x', ';'], ⟨1, 5⟩⟩ ⟨[' '], ['x', ';'], none⟩).rest.length < 3 ∧
    Cursor.nextWithin 4 ⟨[' ', 'x', ';'], ⟨1, 5⟩⟩ = some (Cursor.next ⟨[' ', 'x', ';'], ⟨1, 5⟩⟩) ∧
    ([] : List Token).length < [(⟨.name, "x", ⟨1, 6⟩⟩ : Token), ⟨.semicolon, ";", ⟨1, 7⟩⟩].length ∧
    Prod.Lex (· < ·) (· < ·) (2, Production.statement.height) (2, (Production.statements none).height) ∧
    parseWithin 108 "true; x;" = some (parse "true; x;") := by
  obtain ⟨hround, hscan, hreader, hreading, hcalls, hprogram⟩ := parse_progresses "true; x;"
  let a : Ahead := ⟨some ⟨.keyword .trueWord, "true", ⟨1, 0⟩⟩, ⟨[';', ' ', 'x', ';'], ⟨1, 4⟩⟩⟩
  let b : Ahead := ⟨some ⟨.semicolon, ";", ⟨1, 4⟩⟩, ⟨[' ', 'x', ';'], ⟨1, 5⟩⟩⟩
  let d : Ahead := ⟨some ⟨.name, "x", ⟨1, 6⟩⟩, ⟨[';'], ⟨1, 7⟩⟩⟩
  let ts : List Token := [⟨.name, "x", ⟨1, 6⟩⟩, ⟨.semicolon, ";", ⟨1, 7⟩⟩]
  have ha : a.Reached "true; x;" := .first (by with_unfolding_all rfl)
  have hstatement : Production.statement.attempt 9 20 a = some (.ok (.eval (.bool true), d)) := by with_unfolding_all rfl
  have hliteral : (Plan.literal (some (.keyword .trueWord))).attempt 9 (Production.attempt 9 20) a =
      some (.ok (.bool true, b)) := by with_unfolding_all rfl
  have htake : (Plan.take (.keyword .trueWord) .done).attempt 9 (Production.attempt 9 20) a =
      some (.ok (⟨.keyword .trueWord, "true", ⟨1, 0⟩⟩, b)) := by with_unfolding_all rfl
  have hread : Production.statement.reading none ts = .ok (.eval (.name "x"), []) := by with_unfolding_all rfl
  obtain ⟨hproduction, hlit, htoken, -⟩ := hreader a ha 9 20
  obtain ⟨hreached, -, hlt⟩ := hproduction _ _ _ hstatement
  exact ⟨a, b, d, ⟨hstatement, hreached, hlt rfl⟩, ⟨hliteral, hlit _ _ _ hliteral⟩, ⟨htake, htoken _ _ _ _ _ htake⟩,
    (hreader a ha 9 108).2.2.2 (by decide) (by decide) _, hround ⟨_, _⟩ _ (by decide), hscan _ _ (by decide),
    hreading none _ _ ts [] rfl hread, hcalls none (.statements none) .statement ts ts .here, hprogram 108 (by decide)⟩

end Program

end Scriptlet
