import Scriptlet.Parse.Expr
import Scriptlet.Token.Stream

/-!
# Statements and programs

The first token of a statement tells its form; what has no form of its own is an expression with a semicolon after it. An
`else` belongs to the nearest `if` that can take it. A program has one statement or more, a block may be empty.
-/

namespace Scriptlet

namespace Parse

/-- Takes an expression from the front, or nothing where the token that has to follow it stands already. -/
def expressionBefore (stop : Option LexFault) (closing : TokenKind) (ts : List Token) :
    Except ParseFault (Parsed (Option Expr) (ts.length + 1)) :=
  if kind? ts = some closing then return ⟨none, ts, length_lt_succ ts⟩
  else do
    let expr ← expression stop ts
    return ⟨some expr.value, expr.rest, Nat.lt_succ_of_lt expr.shorter⟩

/-- Takes an expression in parentheses from the front. -/
def condition (stop : Option LexFault) (ts : List Token) : Outcome Expr ts := do
  let opening ← expect stop .leftParen ts
  let test ← expression stop opening.rest
  let closing ← expect stop .rightParen test.rest
  return ⟨test.value, closing.rest, Nat.lt_trans closing.shorter (Nat.lt_trans test.shorter opening.shorter)⟩

/-- Takes a declared name from the front, and its first value if a plain assignment sign follows. -/
def declarator (stop : Option LexFault) (ts : List Token) : Outcome Declarator ts := do
  let id ← name stop ts
  if kind? id.rest = some .assign then
    let sign ← expect stop .assign id.rest
    let init ← expression stop sign.rest
    return ⟨⟨id.value, some init.value⟩, init.rest, Nat.lt_trans init.shorter (Nat.lt_trans sign.shorter id.shorter)⟩
  else return ⟨⟨id.value, none⟩, id.rest, id.shorter⟩

/-- Takes declared names from the front, with commas between them. -/
def declarators (stop : Option LexFault) (ts : List Token) : Outcome (List Declarator) ts := do
  let first ← declarator stop ts
  if kind? first.rest = some .comma then
    let comma ← expect stop .comma first.rest
    have := Nat.lt_trans comma.shorter first.shorter
    let others ← declarators stop comma.rest
    return ⟨first.value :: others.value, others.rest, Nat.lt_trans others.shorter this⟩
  else return ⟨[first.value], first.rest, first.shorter⟩
termination_by ts.length

/-- Takes a declaration without its semicolon from the front. -/
def declaration (stop : Option LexFault) (ts : List Token) : Outcome (List Declarator) ts := do
  let word ← expect stop (.keyword .letWord) ts
  let list ← declarators stop word.rest
  return ⟨list.value, list.rest, Nat.lt_trans list.shorter word.shorter⟩

/-- Takes names from the front, with commas between them. -/
def names (stop : Option LexFault) (ts : List Token) : Outcome (List String) ts := do
  let first ← name stop ts
  if kind? first.rest = some .comma then
    let comma ← expect stop .comma first.rest
    have := Nat.lt_trans comma.shorter first.shorter
    let others ← names stop comma.rest
    return ⟨first.value :: others.value, others.rest, Nat.lt_trans others.shorter this⟩
  else return ⟨[first.value], first.rest, first.shorter⟩
termination_by ts.length

/-- Takes the names between the parentheses of a function, or nothing where the closing one stands already. -/
def parameters (stop : Option LexFault) (ts : List Token) : Except ParseFault (Parsed (List String) (ts.length + 1)) :=
  if kind? ts = some .rightParen then return ⟨[], ts, length_lt_succ ts⟩
  else do
    let list ← names stop ts
    return ⟨list.value, list.rest, Nat.lt_succ_of_lt list.shorter⟩

/-- Takes the opening of a counting loop from the front, or nothing where its semicolon stands already. -/
def loopInit (stop : Option LexFault) (ts : List Token) : Except ParseFault (Parsed (Option ForInit) (ts.length + 1)) :=
  if kind? ts = some .semicolon then return ⟨none, ts, length_lt_succ ts⟩
  else if kind? ts = some (.keyword .letWord) then do
    let list ← declaration stop ts
    return ⟨some (.declare list.value), list.rest, Nat.lt_succ_of_lt list.shorter⟩
  else do
    let expr ← expression stop ts
    return ⟨some (.eval expr.value), expr.rest, Nat.lt_succ_of_lt expr.shorter⟩

/-- The head of a counting loop: what it does first, its test and what it does after each round. -/
structure LoopHead where
  init : Option ForInit
  test : Option Expr
  update : Option Expr

/-- Takes the head of a counting loop from the front, from its first word to its closing parenthesis. -/
def loopHead (stop : Option LexFault) (ts : List Token) : Outcome LoopHead ts := do
  let word ← expect stop (.keyword .forWord) ts
  let opening ← expect stop .leftParen word.rest
  let init ← loopInit stop opening.rest
  let first ← expect stop .semicolon init.rest
  let test ← expressionBefore stop .semicolon first.rest
  let second ← expect stop .semicolon test.rest
  let update ← expressionBefore stop .rightParen second.rest
  let closing ← expect stop .rightParen update.rest
  return ⟨⟨init.value, test.value, update.value⟩, closing.rest, by
    have := word.shorter; have := opening.shorter; have := init.shorter; have := first.shorter; have := test.shorter
    have := second.shorter; have := update.shorter; have := closing.shorter; omega⟩

/-- Takes the head of a function from the front: its name and its parameters. -/
def functionHead (stop : Option LexFault) (ts : List Token) : Outcome (String × List String) ts := do
  let word ← expect stop (.keyword .defWord) ts
  let id ← name stop word.rest
  let opening ← expect stop .leftParen id.rest
  let params ← parameters stop opening.rest
  let closing ← expect stop .rightParen params.rest
  return ⟨(id.value, params.value), closing.rest, by
    have := word.shorter; have := id.shorter; have := opening.shorter; have := params.shorter; have := closing.shorter
    omega⟩

/-- Takes a statement that holds no other statement from the front. -/
def simple (stop : Option LexFault) (ts : List Token) : Outcome Stmt ts :=
  match kind? ts with
  | some .semicolon => expectAs stop .semicolon (fun _ => some .empty) ts
  | some (.keyword .letWord) => do
    let list ← declaration stop ts
    let semicolon ← expect stop .semicolon list.rest
    return ⟨.declare list.value, semicolon.rest, Nat.lt_trans semicolon.shorter list.shorter⟩
  | some (.keyword .returnWord) => do
    let word ← expect stop (.keyword .returnWord) ts
    let value ← expressionBefore stop .semicolon word.rest
    let semicolon ← expect stop .semicolon value.rest
    return ⟨.result value.value, semicolon.rest, by
      have := word.shorter; have := value.shorter; have := semicolon.shorter; omega⟩
  | _ => do
    let expr ← expression stop ts
    let semicolon ← expect stop .semicolon expr.rest
    return ⟨.eval expr.value, semicolon.rest, Nat.lt_trans semicolon.shorter expr.shorter⟩

mutual

/-- Takes a statement from the front. -/
def statement (stop : Option LexFault) (ts : List Token) : Outcome Stmt ts :=
  match kind? ts with
  | some .leftBrace => do
    let body ← block stop ts
    return ⟨.block body.value, body.rest, body.shorter⟩
  | some (.keyword .ifWord) => do
    let word ← expect stop (.keyword .ifWord) ts
    let test ← condition stop word.rest
    have := Nat.lt_trans test.shorter word.shorter
    let consequent ← statement stop test.rest
    have := Nat.lt_trans consequent.shorter this
    if kind? consequent.rest = some (.keyword .elseWord) then
      let other ← expect stop (.keyword .elseWord) consequent.rest
      have := Nat.lt_trans other.shorter this
      let alternate ← statement stop other.rest
      return ⟨.ifElse test.value consequent.value alternate.value, alternate.rest, Nat.lt_trans alternate.shorter this⟩
    else return ⟨.ifThen test.value consequent.value, consequent.rest, this⟩
  | some (.keyword .whileWord) => do
    let word ← expect stop (.keyword .whileWord) ts
    let test ← condition stop word.rest
    have := Nat.lt_trans test.shorter word.shorter
    let body ← statement stop test.rest
    return ⟨.whileLoop test.value body.value, body.rest, Nat.lt_trans body.shorter this⟩
  | some (.keyword .doWord) => do
    let word ← expect stop (.keyword .doWord) ts
    have := word.shorter
    let body ← statement stop word.rest
    let again ← expect stop (.keyword .whileWord) body.rest
    let test ← condition stop again.rest
    let semicolon ← expect stop .semicolon test.rest
    return ⟨.doWhile body.value test.value, semicolon.rest, by
      have := body.shorter; have := again.shorter; have := test.shorter; have := semicolon.shorter; omega⟩
  | some (.keyword .forWord) => do
    let head ← loopHead stop ts
    have := head.shorter
    let body ← statement stop head.rest
    return ⟨.forLoop head.value.init head.value.test head.value.update body.value, body.rest,
      Nat.lt_trans body.shorter this⟩
  | some (.keyword .defWord) => do
    let head ← functionHead stop ts
    have := head.shorter
    let body ← block stop head.rest
    return ⟨.function head.value.1 head.value.2 body.value, body.rest, Nat.lt_trans body.shorter this⟩
  | _ => simple stop ts
termination_by 3 * ts.length + 1

/-- Takes a block from the front: statements in braces, or none. -/
def block (stop : Option LexFault) (ts : List Token) : Outcome (List Stmt) ts := do
  let opening ← expect stop .leftBrace ts
  have := opening.shorter
  if kind? opening.rest = some .rightBrace then
    let closing ← expect stop .rightBrace opening.rest
    return ⟨[], closing.rest, Nat.lt_trans closing.shorter this⟩
  else
    let body ← statements stop (some .rightBrace) opening.rest
    let closing ← expect stop .rightBrace body.rest
    return ⟨body.value, closing.rest, Nat.lt_trans closing.shorter (Nat.lt_trans body.shorter this)⟩
termination_by 3 * ts.length

/-- Takes statements from the front, one or more, up to the end or to a token of the closing kind. -/
def statements (stop : Option LexFault) (closing : Option TokenKind) (ts : List Token) : Outcome (List Stmt) ts := do
  let first ← statement stop ts
  if kind? first.rest = none ∨ kind? first.rest = closing then return ⟨[first.value], first.rest, first.shorter⟩
  else
    have := first.shorter
    let others ← statements stop closing first.rest
    return ⟨first.value :: others.value, others.rest, Nat.lt_trans others.shorter this⟩
termination_by 3 * ts.length + 2

end

end Parse

namespace Program

/-- The program that a stream of tokens makes up. A scan that stops before its first token is a fault by itself. -/
def ofStream (stream : Stream) : Except ParseFault Program :=
  match stream.tokens, stream.fault with
  | [], some fault => .error (.lex fault)
  | tokens, fault => do
    let body ← Parse.statements fault none tokens
    return ⟨body.value⟩

/-- The program that a source makes up. -/
def parse (source : String) : Except ParseFault Program := ofStream (.ofSource source)

end Program

end Scriptlet
