import Scriptlet.Proofs.Parse.Earliest
import Scriptlet.Proofs.Parse.Moved
import Scriptlet.Proofs.Token.Tiling

/-!
# One token ahead

A source can be read with a cursor and one token that is looked at: a token is taken when it is of the right kind, and then
the next one is asked for. This goes in step with taking tokens from the front of the whole stream. So reading depends on
nothing but the stream: what stops the scan comes up unless a token in front of it is at fault, and where nothing stops the
scan only the kinds and the texts of the tokens count.
-/

namespace Scriptlet

/-! ## Readers that look ahead -/

/-- A reader of a source: the token it looks at, if there is one, and the cursor behind that token. -/
structure Ahead where
  token : Option Token
  cursor : Cursor

namespace Ahead

/-- Looks at the next token of a cursor. -/
def look (c : Cursor) : Except LexFault Ahead :=
  match c.next with
  | (.ok token, c') => .ok ⟨token, c'⟩
  | (.error e, _) => .error e

/-- Takes the token that is looked at if it is of a kind, and looks at the next one. -/
def take (kind : TokenKind) (a : Ahead) : Except ParseFault (Token × Ahead) :=
  match a.token with
  | none => .error (.endOfInput kind)
  | some t =>
    if t.kind = kind then
      match look a.cursor with
      | .ok a' => .ok (t, a')
      | .error e => .error (.lex e)
    else .error (.unexpected t.text kind t.position)

/-- What a reader has in front of it: the token it looks at and what the cursor gives behind it, or nothing at the end. -/
def Shows (a : Ahead) (stream : Stream) : Prop :=
  match a.token with
  | none => stream = ⟨[], none⟩
  | some t => stream = .cons t (.ofCursor a.cursor)

/-- A look at the first token takes nothing away. -/
theorem shows_of_look {c : Cursor} {a : Ahead} (h : look c = .ok a) : a.Shows (.ofCursor c) := by
  unfold look at h
  split at h
  · next token c' hnext =>
    cases h
    unfold Shows
    rw [Stream.ofCursor_eq, hnext]
    cases token <;> rfl
  · cases h

theorem ofCursor_of_look {c : Cursor} {e : LexFault} (h : look c = .error e) : Stream.ofCursor c = ⟨[], some e⟩ := by
  unfold look at h
  split at h
  · cases h
  · next hnext =>
    cases h
    rw [Stream.ofCursor_eq, hnext]

/-- A stream that is shown goes on or was not cut short. -/
theorem Shows.leave {a : Ahead} {stream : Stream} (h : a.Shows stream) (t : Token) :
    Parse.leave stream.fault t stream.tokens = .ok (t, stream.tokens) := by
  obtain ⟨token, c⟩ := a
  cases token with
  | none =>
    obtain rfl : stream = ⟨[], none⟩ := h
    rfl
  | some u =>
    obtain rfl : stream = .cons u (.ofCursor c) := h
    exact Parse.leave_cons _ _ _

/-- Taking a token from a reader is taking it from the front of the stream that the reader shows. -/
theorem Shows.take {a : Ahead} {stream : Stream} (h : a.Shows stream) (kind : TokenKind) :
    match a.take kind with
    | .ok (t, a') => ∃ rest, Parse.plain (Parse.expect stream.fault kind stream.tokens) = .ok (t, rest) ∧
      a'.Shows ⟨rest, stream.fault⟩
    | .error e => Parse.plain (Parse.expect stream.fault kind stream.tokens) = .error e := by
  obtain ⟨token, c⟩ := a
  cases token with
  | none =>
    obtain rfl : stream = ⟨[], none⟩ := h
    rfl
  | some t =>
    obtain rfl : stream = .cons t (.ofCursor c) := h
    rw [Stream.cons_tokens, Stream.cons_fault, Parse.plain_expect_cons, Ahead.take]
    dsimp only
    by_cases hk : t.kind = kind
    · rw [if_pos hk, if_pos hk]
      cases hlook : look c with
      | ok a' =>
        have hshows := shows_of_look hlook
        exact ⟨_, hshows.leave t, hshows⟩
      | error e =>
        rw [ofCursor_of_look hlook]
        rfl
    · rw [if_neg hk, if_neg hk]

end Ahead

/-! ## Tokens by their numbers -/

namespace Token

/-- Tokens with their numbers in place of their positions. -/
def numbered (ts : List Token) : List Token := ts.mapIdx fun i t => { t with position := ⟨i, 0⟩ }

/-- The position of the token of a number. -/
def positionIn (ts : List Token) (number : Position) : Position := Parse.position (ts.drop number.line)

theorem map_numbered (ts : List Token) : (numbered ts).map (moved (positionIn ts)) = ts := by
  refine List.ext_getElem? fun i => ?_
  rw [List.getElem?_map, numbered, List.getElem?_mapIdx]
  cases ht : ts[i]? with
  | none => rfl
  | some t => simp [moved, positionIn, Parse.position, List.head?_drop, ht]

/-- Tokens are numbered alike when their kinds and their texts are the same. -/
theorem numbered_congr {ts us : List Token} (h : ts.map (fun t => (t.kind, t.text)) = us.map fun t => (t.kind, t.text)) :
    numbered ts = numbered us := by
  refine List.ext_getElem? fun i => ?_
  have hi := congrArg (·[i]?) h
  simp only [List.getElem?_map] at hi
  rw [numbered, numbered, List.getElem?_mapIdx, List.getElem?_mapIdx]
  cases ht : ts[i]? <;> cases hu : us[i]? <;> simp_all

theorem exists_of_mem_numbered {ts : List Token} {t : Token} (h : t ∈ numbered ts) :
    ∃ i u, ts[i]? = some u ∧ positionIn ts t.position = u.position ∧ t.position = ⟨i, 0⟩ := by
  obtain ⟨i, hi⟩ := List.mem_iff_getElem?.mp h
  rw [numbered, List.getElem?_mapIdx] at hi
  obtain ⟨u, hu, rfl⟩ := Option.map_eq_some_iff.mp hi
  exact ⟨i, u, hu, by simp [positionIn, Parse.position, List.head?_drop, hu], rfl⟩

end Token

/-- Two faults at the same token of two lists: they agree but for their positions, and these are the token's in each list. -/
inductive ParseFault.SameAt (ts us : List Token) : ParseFault → ParseFault → Prop where
  | endOfInput {expected : TokenKind} : SameAt ts us (.endOfInput expected) (.endOfInput expected)
  | unexpected {found : String} {expected : TokenKind} {i : Nat} {t u : Token} : ts[i]? = some t → us[i]? = some u →
      SameAt ts us (.unexpected found expected t.position) (.unexpected found expected u.position)
  | badTarget {i : Nat} {t u : Token} : ts[i]? = some t → us[i]? = some u →
      SameAt ts us (.badTarget t.position) (.badTarget u.position)

/-- A fault of the numbered tokens is one at the same token of all lists with these numbers. -/
theorem ParseFault.ComesFrom.sameAt {ts us : List Token} (hnumbered : Token.numbered ts = Token.numbered us) {e : ParseFault}
    (h : e.ComesFrom ⟨Token.numbered ts, none⟩) :
    SameAt ts us (e.mapped (Token.positionIn ts) id) (e.mapped (Token.positionIn us) id) := by
  have htoken : ∀ position, (∃ t ∈ Token.numbered ts, t.position = position) → ∃ (i : Nat) (t u : Token),
      ts[i]? = some t ∧ us[i]? = some u ∧
      Token.positionIn ts position = t.position ∧ Token.positionIn us position = u.position := by
    rintro _ ⟨t, ht, rfl⟩
    obtain ⟨i, v, hv, hpv, hi⟩ := Token.exists_of_mem_numbered ht
    obtain ⟨j, w, hw, hpw, hj⟩ := Token.exists_of_mem_numbered (hnumbered ▸ ht)
    obtain rfl : i = j := congrArg Position.line (hi.symm.trans hj)
    exact ⟨i, v, w, hv, hw, hpv, hpw⟩
  cases e with
  | lex fault => cases h
  | endOfInput expected => exact .endOfInput
  | unexpected found expected position =>
    obtain ⟨i, t, u, ht, hu, hpt, hpu⟩ := htoken position h
    rw [mapped, mapped, hpt, hpu]
    exact .unexpected ht hu
  | badTarget position =>
    obtain ⟨i, t, u, ht, hu, hpt, hpu⟩ := htoken position h
    rw [mapped, mapped, hpt, hpu]
    exact .badTarget ht hu

/-! ## Programs -/

namespace Program

/-- A list of tokens is read through its numbers. -/
theorem ofStream_eq_numbered (ts : List Token) :
    ofStream ⟨ts, none⟩ = (ofStream ⟨Token.numbered ts, none⟩).mapError (ParseFault.mapped (Token.positionIn ts) id) := by
  rw [← ofStream_mapped, Token.map_numbered]
  rfl

/-- Tokens with the same kinds and texts are read as the same program, or fail at the same token. -/
theorem ofStream_congr {ts us : List Token}
    (h : ts.map (fun t => (t.kind, t.text)) = us.map fun t => (t.kind, t.text)) :
    (∃ p, ofStream ⟨ts, none⟩ = .ok p ∧ ofStream ⟨us, none⟩ = .ok p) ∨
      ∃ e e', ofStream ⟨ts, none⟩ = .error e ∧ ofStream ⟨us, none⟩ = .error e' ∧ ParseFault.SameAt ts us e e' := by
  have hnumbered := Token.numbered_congr h
  rw [ofStream_eq_numbered ts, ofStream_eq_numbered us, ← hnumbered]
  cases hread : ofStream ⟨Token.numbered ts, none⟩ with
  | ok p => exact .inl ⟨p, rfl, rfl⟩
  | error e => exact .inr ⟨_, _, rfl, rfl, (comesFrom_of_ofStream hread).sameAt hnumbered⟩

/-- A scan that stops stops the reading too: with its own fault, or with one at a token in front of it. -/
theorem parse_of_fault {source : String} {e : LexFault} (h : (Stream.ofSource source).fault = some e) :
    ∃ fault, parse source = .error fault ∧ (fault = .lex e ∨
      (∃ found expected position, fault = .unexpected found expected position ∧ position.Before e.position) ∨
      ∃ position, fault = .badTarget position ∧ position.Before e.position) := by
  have hbefore : ∀ t ∈ (Stream.ofSource source).tokens, t.position.Before e.position := (Stream.ordered _ _).2 e h
  cases hread : parse source with
  | ok p =>
    have := ((ofStream_eq_ok_iff _ p).mp hread).1
    rw [h] at this
    cases this
  | error fault =>
    refine ⟨fault, rfl, ?_⟩
    have hfrom := comesFrom_of_ofStream hread
    cases fault with
    | lex e' =>
      rw [ParseFault.ComesFrom, h] at hfrom
      cases hfrom
      exact .inl rfl
    | endOfInput expected =>
      have hnone : (Stream.ofSource source).fault = none := (ofStream_endOfInput Stream.genuine_of_mem hread).1
      rw [h] at hnone
      cases hnone
    | unexpected found expected position =>
      obtain ⟨t, ht, rfl⟩ := hfrom
      exact .inr (.inl ⟨found, expected, _, rfl, hbefore t ht⟩)
    | badTarget position =>
      obtain ⟨t, ht, rfl⟩ := hfrom
      exact .inr (.inr ⟨_, rfl, hbefore t ht⟩)

/-- Reading one token ahead agrees with scanning the whole source first. Where the scan stops, reading fails with the fault
of the scan or at a token in front of it. Where it does not, reading never fails with a fault of the scan, and depends only on
the kinds and the texts of the tokens. And a reader that looks one token ahead shows the stream of the source from its first
look on, whatever it takes. -/
theorem parse_agrees_with_tokenize (source : String) :
    (∀ e, tokenize source = .error e → ∃ fault, parse source = .error fault ∧ (fault = .lex e ∨
      (∃ found expected position, fault = .unexpected found expected position ∧ position.Before e.position) ∨
      ∃ position, fault = .badTarget position ∧ position.Before e.position)) ∧
    (∀ ts, tokenize source = .ok ts → (∀ e, parse source ≠ .error (.lex e)) ∧
      ∀ source' us, tokenize source' = .ok us → ts.map (fun t => (t.kind, t.text)) = us.map (fun t => (t.kind, t.text)) →
        (∃ p, parse source = .ok p ∧ parse source' = .ok p) ∨
        ∃ e e', parse source = .error e ∧ parse source' = .error e' ∧ ParseFault.SameAt ts us e e') ∧
    (match Ahead.look (.ofSource source) with
      | .ok a => a.Shows (.ofSource source)
      | .error e => parse source = .error (.lex e)) ∧
    ∀ (a : Ahead) (stream : Stream) (kind : TokenKind), a.Shows stream →
      match a.take kind with
      | .ok (t, a') => ∃ rest, Parse.plain (Parse.expect stream.fault kind stream.tokens) = .ok (t, rest) ∧
        a'.Shows ⟨rest, stream.fault⟩
      | .error e => Parse.plain (Parse.expect stream.fault kind stream.tokens) = .error e := by
  refine ⟨fun e h => parse_of_fault (Stream.fault_of_tokenize h), fun ts h => ⟨fun e he => ?_, ?_⟩, ?_,
    fun a stream kind ha => ha.take kind⟩
  · have hfault := comesFrom_of_ofStream he
    rw [ParseFault.ComesFrom, Stream.ofSource_eq_of_tokenize h] at hfault
    cases hfault
  · intro source' us h' hsame
    rw [parse, parse, Stream.ofSource_eq_of_tokenize h, Stream.ofSource_eq_of_tokenize h']
    exact ofStream_congr hsame
  · split
    · next a hlook => exact Ahead.shows_of_look hlook
    · next e hlook =>
      rw [parse, Stream.ofSource, Ahead.ofCursor_of_look hlook]
      rfl

/-- A wrong target in front of a character that stops the scan, a missing semicolon in two sources with the same tokens, and
a character that stops the scan when the token in front of it is taken. -/
theorem parse_agrees_with_tokenize_wrong_target :
    (∃ fault, parse "1 = 2\n@" = .error fault ∧ (fault = .lex ⟨'@', ⟨2, 0⟩⟩ ∨
      (∃ found expected position, fault = .unexpected found expected position ∧ position.Before ⟨2, 0⟩) ∨
      ∃ position, fault = .badTarget position ∧ position.Before ⟨2, 0⟩)) ∧
    ((∃ p, parse "a b" = .ok p ∧ parse "a // c\n  b" = .ok p) ∨
      ∃ e e', parse "a b" = .error e ∧ parse "a // c\n  b" = .error e' ∧
        ParseFault.SameAt [⟨.name, "a", ⟨1, 0⟩⟩, ⟨.name, "b", ⟨1, 2⟩⟩] [⟨.name, "a", ⟨1, 0⟩⟩, ⟨.name, "b", ⟨2, 2⟩⟩] e e') ∧
    Parse.plain (Parse.expect (some ⟨'@', ⟨1, 2⟩⟩) .name [⟨.name, "a", ⟨1, 0⟩⟩]) = .error (.lex ⟨'@', ⟨1, 2⟩⟩) := by
  have hfault : tokenize "1 = 2\n@" = .error ⟨'@', ⟨2, 0⟩⟩ := by decide +kernel
  have hts : tokenize "a b" = .ok [⟨.name, "a", ⟨1, 0⟩⟩, ⟨.name, "b", ⟨1, 2⟩⟩] := by decide +kernel
  have hus : tokenize "a // c\n  b" = .ok [⟨.name, "a", ⟨1, 0⟩⟩, ⟨.name, "b", ⟨2, 2⟩⟩] := by decide +kernel
  have hshows : Ahead.Shows ⟨some ⟨.name, "a", ⟨1, 0⟩⟩, ⟨[' ', '@'], ⟨1, 1⟩⟩⟩
      ⟨[⟨.name, "a", ⟨1, 0⟩⟩], some ⟨'@', ⟨1, 2⟩⟩⟩ :=
    show (⟨_, _⟩ : Stream) = .cons _ (.ofCursor _) by decide +kernel
  have htake : Ahead.take .name ⟨some ⟨.name, "a", ⟨1, 0⟩⟩, ⟨[' ', '@'], ⟨1, 1⟩⟩⟩ = .error (.lex ⟨'@', ⟨1, 2⟩⟩) := by
    with_unfolding_all rfl
  have hstep := (parse_agrees_with_tokenize "a @").2.2.2 _ _ .name hshows
  rw [htake] at hstep
  exact ⟨(parse_agrees_with_tokenize _).1 _ hfault, ((parse_agrees_with_tokenize _).2.1 _ hts).2 _ _ hus rfl, hstep⟩

end Program

end Scriptlet
