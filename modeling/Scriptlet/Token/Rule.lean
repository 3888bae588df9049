import Scriptlet.Token.Basic
import Scriptlet.Token.Pattern

/-!
# Rules: which lexemes are tokens

The table is read from the top, and the first rule whose pattern applies decides. Blanks and comments are read like lexemes
and give no token. A text that starts with a comment opener without its closing mark is left to the operators.
-/

namespace Scriptlet

/-- A line of the table: a shape, and the kind of its tokens, or none where it only separates. -/
structure Rule where
  pattern : Pattern
  kind : Option TokenKind
  deriving DecidableEq, Repr

/-- The table of rules. Digits stand before words, so that a number ends where its digits do; operators of two characters
stand before those of one. -/
def rules : List Rule :=
  [⟨.run .blank, none⟩,
   ⟨.lineComment, none⟩,
   ⟨.blockComment, none⟩,
   ⟨.single [';'], some .semicolon⟩,
   ⟨.single ['{'], some .leftBrace⟩,
   ⟨.single ['}'], some .rightBrace⟩,
   ⟨.single ['('], some .leftParen⟩,
   ⟨.single [')'], some .rightParen⟩,
   ⟨.single [','], some .comma⟩,
   ⟨.run .digit, some .number⟩,
   ⟨.run .word, some .name⟩,
   ⟨.pair ['=', '!'] '=', some .equality⟩,
   ⟨.single ['='], some .assign⟩,
   ⟨.pair ['*', '/', '+', '-'] '=', some .compoundAssign⟩,
   ⟨.single ['+', '-'], some .additive⟩,
   ⟨.single ['*', '/'], some .multiplicative⟩,
   ⟨.singleOrPair ['<', '>'] '=', some .relational⟩,
   ⟨.pair ['&'] '&', some .logicalAnd⟩,
   ⟨.pair ['|'] '|', some .logicalOr⟩,
   ⟨.single ['!'], some .logicalNot⟩,
   ⟨.quoted '"', some .text⟩,
   ⟨.quoted '\'', some .text⟩]

/-- A lexeme found at the front of a text: its characters, what follows it, and the kind its rule gives. -/
structure Lexeme where
  chars : List Char
  rest : List Char
  kind : Option TokenKind
  deriving DecidableEq, Repr

/-- The lexeme of a rule at the front of a text. -/
def Rule.lexeme? (rule : Rule) (cs : List Char) : Option Lexeme :=
  (rule.pattern.split? cs).map fun (l, r) => ⟨l, r, rule.kind⟩

/-- The lexeme at the front of a text, by the first rule that applies. -/
def Lexeme.first? (cs : List Char) : Option Lexeme := rules.findSome? fun rule => rule.lexeme? cs

/-- The kind of the token of a lexeme: a word is looked up among the keywords. -/
def Lexeme.tokenKind? (lexeme : Lexeme) : Option TokenKind :=
  lexeme.kind.map fun kind => if kind = .name then .ofWord (.ofList lexeme.chars) else kind

/-- The lexeme at the front of a text is not empty, and with what follows it makes up the text. -/
theorem Lexeme.first?_append {cs : List Char} {x : Lexeme} (h : Lexeme.first? cs = some x) :
    x.chars ++ x.rest = cs ∧ x.chars ≠ [] := by
  obtain ⟨rule, -, hrule⟩ := List.exists_of_findSome?_eq_some h
  obtain ⟨⟨l, r⟩, hsplit, rfl⟩ := Option.map_eq_some_iff.mp hrule
  exact Pattern.split?_append hsplit

/-- What follows the lexeme at the front of a text is shorter than the text. -/
theorem Lexeme.first?_shorter {cs : List Char} {x : Lexeme} (h : Lexeme.first? cs = some x) :
    x.rest.length < cs.length := by
  obtain ⟨happ, hne⟩ := Lexeme.first?_append h
  have := List.length_pos_iff.mpr hne
  rw [← happ, List.length_append]
  omega

end Scriptlet
