import Scriptlet.Parse.Fault

/-!
# Steps: taking tokens from the front

A production reads tokens from the front of a list and leaves the others. Each one that succeeds takes at least one token,
and `Parsed` keeps that as a fact; it is why productions that call each other come to an end.

The list may be cut short by a character at which no token starts. That fault is raised as soon as the last token before it
is taken, because taking a token includes a look at the next one.
-/

namespace Scriptlet

/-- What a production gives: a value, and the tokens after it, of which there are fewer than `n`. -/
structure Parsed (α : Type) (n : Nat) where
  value : α
  rest : List Token
  shorter : rest.length < n

/-- What a production gives for a list of tokens, or why it fails. -/
abbrev Outcome (α : Type) (ts : List Token) : Type := Except ParseFault (Parsed α ts.length)

namespace Parse

/-- A production that takes nothing leaves fewer tokens than there are and one. -/
theorem length_lt_succ (ts : List Token) : ts.length < ts.length + 1 := Nat.lt_succ_self _

/-- The kind of the token at the front. -/
def kind? (ts : List Token) : Option TokenKind := ts.head?.map (·.kind)

/-- Where the token at the front stands. -/
def position (ts : List Token) : Position := (ts.head?.map (·.position)).getD .start

/-- Takes a token of a kind from the front. -/
def expect (stop : Option LexFault) (kind : TokenKind) : (ts : List Token) → Outcome Token ts
  | [] => .error (.endOfInput kind)
  | t :: ts =>
    if t.kind = kind then
      match ts, stop with
      | [], some fault => .error (.lex fault)
      | ts, _ => .ok ⟨t, ts, Nat.lt_succ_self _⟩
    else .error (.unexpected t.text kind t.position)

/-- Takes a token of a kind from the front and reads its text. -/
def expectAs {α : Type} (stop : Option LexFault) (kind : TokenKind) (read : String → Option α) (ts : List Token) :
    Outcome α ts := do
  let t ← expect stop kind ts
  match read t.value.text with
  | some value => return ⟨value, t.rest, t.shorter⟩
  | none => .error (.unexpected t.value.text kind t.value.position)

/-- Takes a name from the front. -/
def name (stop : Option LexFault) (ts : List Token) : Outcome String ts := expectAs stop .name some ts

end Parse

end Scriptlet
