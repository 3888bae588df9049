import Scriptlet.Proofs.Grammar.Basic

/-!
# Readings: productions without the fact that they end

A production returns its value and the tokens it leaves, together with a proof that it left fewer than it found. Statements
about productions are made about their readings, the same without that proof. Here each production's reading is written as a
sequence of the readings it is made of; no other module unfolds a production.
-/

namespace Scriptlet

/-- What a production gives or why it fails, without the fact that it took a token. -/
abbrev Reading (α : Type) : Type := Except ParseFault (α × List Token)

namespace Parse

/-- The reading of an outcome. -/
def plain {α : Type} {n : Nat} (o : Except ParseFault (Parsed α n)) : Reading α :=
  match o with
  | .ok p => .ok (p.value, p.rest)
  | .error f => .error f

/-- One reading after the other. -/
def andThen {α β : Type} (x : Reading α) (f : α → List Token → Reading β) : Reading β :=
  match x with
  | .ok (a, rest) => f a rest
  | .error e => .error e

/-- The reading of a value after which `rest` is left. Where nothing is left, the fault that cut the tokens short comes up.
-/
def leave {α : Type} (stop : Option LexFault) (value : α) (rest : List Token) : Reading α :=
  match rest, stop with
  | [], some fault => .error (.lex fault)
  | rest, _ => .ok (value, rest)

variable {α β : Type} {n : Nat} {stop : Option LexFault} {ts : List Token}

/-- A value that was read goes on to the next production. -/
@[simp] theorem andThen_ok (a : α) (rest : List Token) (f : α → List Token → Reading β) :
    andThen (.ok (a, rest)) f = f a rest := rfl

/-- A fault ends the sequence. -/
@[simp] theorem andThen_error (e : ParseFault) (f : α → List Token → Reading β) : andThen (.error e) f = .error e := rfl

@[simp] theorem kind?_nil : kind? [] = none := rfl

@[simp] theorem kind?_cons (t : Token) (rest : List Token) : kind? (t :: rest) = some t.kind := rfl

/-- The kind at the front of two lists in a row. -/
theorem kind?_append (us vs : List Token) : kind? (us ++ vs) = (kind? us).or (kind? vs) := by
  cases us <;> rfl

/-- With a whole stream a value is given whatever is left. -/
@[simp] theorem leave_none (value : α) (rest : List Token) : leave none value rest = .ok (value, rest) := by
  cases rest <;> rfl

/-- With a token left a value is given, whatever cut the stream short later. -/
@[simp] theorem leave_cons (value : α) (t : Token) (rest : List Token) :
    leave stop value (t :: rest) = .ok (value, t :: rest) := by
  cases stop <;> rfl

@[simp] theorem leave_append_cons (value : α) (ts : List Token) (t : Token) (rest : List Token) :
    leave stop value (ts ++ t :: rest) = .ok (value, ts ++ t :: rest) := by
  cases ts <;> simp

/-- Where a stream was cut short, a production that used up its tokens gives the fault that cut it. -/
theorem leave_nil (fault : LexFault) (value : α) : leave (some fault) value [] = .error (.lex fault) := rfl

/-- Reading goes on behind a value only where a token is left or the tokens were not cut short. -/
theorem leave_eq_ok {value a : α} {rest r : List Token} (h : leave stop value rest = .ok (a, r)) :
    a = value ∧ r = rest ∧ (rest = [] → stop = none) := by
  cases rest with
  | nil =>
    cases stop with
    | none => cases h; exact ⟨rfl, rfl, fun _ => rfl⟩
    | some fault => cases h
  | cons t rest =>
    rw [leave_cons] at h
    cases h
    exact ⟨rfl, rfl, nofun⟩

/-- Two values are left in the same way. -/
theorem andThen_leave (value : α) (rest : List Token) (f : α → List Token → Reading β) (b : β)
    (h : f value rest = .ok (b, rest)) : andThen (leave stop value rest) f = leave stop b rest := by
  cases rest with
  | nil =>
    cases stop with
    | none => exact h
    | some fault => rfl
  | cons t rest => rw [leave_cons, leave_cons]; exact h

/-- A sequence gives a value when both of its parts do. -/
theorem andThen_eq_ok {x : Reading α} {f : α → List Token → Reading β} {p : β × List Token} :
    andThen x f = .ok p ↔ ∃ a rest, x = .ok (a, rest) ∧ f a rest = .ok p := by
  cases x with
  | error e => simp
  | ok q =>
    obtain ⟨a, rest⟩ := q
    constructor
    · intro h
      exact ⟨a, rest, rfl, h⟩
    · rintro ⟨a', rest', heq, h⟩
      cases heq
      exact h

/-- A sequence fails when one of its parts does. -/
theorem andThen_eq_error {x : Reading α} {f : α → List Token → Reading β} {e : ParseFault} :
    andThen x f = .error e ↔ x = .error e ∨ ∃ a rest, x = .ok (a, rest) ∧ f a rest = .error e := by
  cases x with
  | error e' => simp
  | ok p =>
    obtain ⟨a, rest⟩ := p
    constructor
    · intro h
      exact .inr ⟨a, rest, rfl, h⟩
    · rintro (h | ⟨a', rest', heq, h⟩)
      · cases h
      · cases heq
        exact h

/-- What is given as it was read changes nothing. -/
theorem andThen_ok_self (x : Reading α) : (andThen x fun a rest => .ok (a, rest)) = x := by
  cases x <;> rfl

/-- What is left behind a reading is shorter than the bound of its outcome. -/
theorem plain_shorter {o : Except ParseFault (Parsed α n)} {a : α} {rest : List Token} (h : plain o = .ok (a, rest)) :
    rest.length < n := by
  cases o with
  | error e => cases h
  | ok p => cases h; exact p.shorter

/-- Two productions in sequence, without the lengths that they carry. -/
theorem plain_bind {x : Except ParseFault (Parsed α n)} {m : Nat} {f : Parsed α n → Except ParseFault (Parsed β m)}
    {g : α → List Token → Reading β} (h : ∀ p : Parsed α n, plain (f p) = g p.value p.rest) :
    plain (x >>= f) = andThen (plain x) g := by
  cases x with
  | error e => rfl
  | ok p => exact h p

/-! ## Single tokens -/

@[simp] theorem plain_expect_nil (kind : TokenKind) :
    plain (expect stop kind []) = .error (.endOfInput kind) := rfl

/-- A token of the right kind is taken, and any other one is a fault. -/
theorem plain_expect_cons (kind : TokenKind) (t : Token) (rest : List Token) :
    plain (expect stop kind (t :: rest)) =
      if t.kind = kind then leave stop t rest else .error (.unexpected t.text kind t.position) := by
  unfold expect
  dsimp only
  by_cases h : t.kind = kind
  · rw [if_pos h, if_pos h]
    cases rest <;> cases stop <;> rfl
  · rw [if_neg h, if_neg h]
    rfl

/-- A token whose text has to mean something is taken first and read then. -/
theorem plain_expectAs (kind : TokenKind) (read : String → Option α) (ts : List Token) :
    plain (expectAs stop kind read ts) = andThen (plain (expect stop kind ts)) fun t rest =>
      match read t.text with
      | some value => .ok (value, rest)
      | none => .error (.unexpected t.text kind t.position) := by
  refine plain_bind ?_
  intro p
  cases read p.value.text <;> rfl

/-! ## Expressions -/

/-- The production that takes an expression of a rank. -/
def read (stop : Option LexFault) : Rank → List Token → Reading Expr
  | .whole, ts => plain (expression stop ts)
  | .level level, ts => plain (binary stop level ts)
  | .signed, ts => plain (unary stop ts)
  | .atom, ts => plain (primary stop ts)

/-- The operand of a level is read by the production of its rank. -/
theorem plain_operand (level : Level) (ts : List Token) :
    plain (operand stop level ts) = read stop level.operandRank ts := by
  rw [Level.operandRank_eq]
  cases level <;> (rw [operand]; rfl)

/-- An expression is one of the weakest level, and an assignment if an assignment operator follows. -/
theorem read_whole (ts : List Token) : read stop .whole ts =
    andThen (read stop (.level .or) ts) fun left rest =>
      match assignment? rest with
      | none => .ok (left, rest)
      | some kind => andThen (plain (expectAs stop kind AssignOp.ofText? rest)) fun op rest =>
        match target (position ts) left with
        | .error e => .error e
        | .ok name => andThen (read stop .whole rest) fun value rest => .ok (.assign op name value, rest) := by
  simp only [read]
  rw [expression]
  refine plain_bind ?_
  intro left
  cases assignment? left.rest with
  | none => rfl
  | some kind =>
    refine plain_bind ?_
    intro op
    cases target (position ts) left.value with
    | error e => rfl
    | ok name => exact plain_bind fun value => rfl

/-- An expression of a level is an operand and what its operators carry on. -/
theorem read_level (level : Level) (ts : List Token) : read stop (.level level) ts =
    andThen (read stop level.operandRank ts) fun first rest => plain (chain stop level first rest) := by
  rw [← plain_operand]
  simp only [read]
  rw [binary]
  refine plain_bind ?_
  intro first
  cases chain stop level first.value first.rest <;> rfl

/-- An operator of the level carries on what was read; any other token ends it. -/
theorem plain_chain (level : Level) (left : Expr) (ts : List Token) : plain (chain stop level left ts) =
    if kind? ts = some level.kind then
      andThen (plain (expectAs stop level.kind level.node? ts)) fun node rest =>
        andThen (read stop level.operandRank rest) fun right rest => plain (chain stop level (node left right) rest)
    else .ok (left, ts) := by
  simp only [← plain_operand]
  rw [chain]
  split
  · refine plain_bind fun node => plain_bind fun right => ?_
    cases chain stop level (node.value left right.value) right.rest <;> rfl
  · rfl

/-- A sign is taken if there is one, and what it stands in front of may have signs again. -/
theorem read_signed (ts : List Token) : read stop .signed ts =
    match sign? ts with
    | some kind => andThen (plain (expectAs stop kind UnaryOp.ofText? ts)) fun op rest =>
      andThen (read stop .signed rest) fun argument rest => .ok (.unary op argument, rest)
    | none => read stop .atom ts := by
  simp only [read]
  rw [unary]
  cases sign? ts with
  | none => rfl
  | some kind => exact plain_bind fun op => plain_bind fun argument => rfl

/-- The first token tells whether parentheses, a literal or a name is read. -/
theorem read_atom (ts : List Token) : read stop .atom ts =
    if kind? ts = some .leftParen then
      andThen (plain (expect stop .leftParen ts)) fun _ rest =>
        andThen (read stop .whole rest) fun inner rest =>
          andThen (plain (expect stop .rightParen rest)) fun _ rest => .ok (inner, rest)
    else if (kind? ts).any TokenKind.isLiteral then plain (literal stop ts)
    else plain (expectAs stop .name (fun text => some (Expr.name text)) ts) := by
  simp only [read]
  rw [primary]
  split
  · next h =>
    rw [if_pos h]
    exact plain_bind fun opening => plain_bind fun inner => plain_bind fun closing => rfl
  · next h =>
    rw [if_neg h]
    split <;> rfl

/-- An expression takes a token at least. -/
theorem read_shorter {rank : Rank} {e : Expr} {rest : List Token} (h : read stop rank ts = .ok (e, rest)) :
    rest.length < ts.length := by
  cases rank <;> exact plain_shorter h

/-- Induction over the productions of expressions: a fact holds of a production on a list of tokens when it follows from the
productions that it calls on the same list, and from all productions on shorter lists. -/
theorem read_induction {motive : Rank → List Token → Prop} {chained : Level → Expr → List Token → Prop}
    (whole : ∀ ts, motive (.level .or) ts → (∀ us, us.length < ts.length → motive .whole us) → motive .whole ts)
    (level : ∀ l ts, motive l.operandRank ts → (∀ left us, us.length < ts.length → chained l left us) →
      motive (.level l) ts)
    (chain : ∀ l left ts, (∀ us, us.length < ts.length → motive l.operandRank us) →
      (∀ left us, us.length < ts.length → chained l left us) → chained l left ts)
    (signed : ∀ ts, motive .atom ts → (∀ us, us.length < ts.length → motive .signed us) → motive .signed ts)
    (atom : ∀ ts, (∀ us, us.length < ts.length → motive .whole us) → motive .atom ts) :
    (∀ rank ts, motive rank ts) ∧ ∀ l left ts, chained l left ts := by
  have all : ∀ n, ∀ ts : List Token, ts.length = n →
      (∀ rank, motive rank ts) ∧ ∀ l left, chained l left ts := by
    intro n
    induction n using Nat.strongRecOn with
    | _ n ih =>
      intro ts hn
      have shorter : ∀ us : List Token, us.length < ts.length →
          (∀ rank, motive rank us) ∧ ∀ l left, chained l left us :=
        fun us h => ih us.length (hn ▸ h) us rfl
      have hchain : ∀ l left, chained l left ts := fun l left =>
        chain l left ts (fun us h => (shorter us h).1 _) (fun left us h => (shorter us h).2 l left)
      have hatom : motive .atom ts := atom ts fun us h => (shorter us h).1 _
      have hsigned : motive .signed ts := signed ts hatom fun us h => (shorter us h).1 _
      -- The levels follow each other from the strongest, whose operands are signed, to the weakest.
      have up : ∀ l : Level, motive l.operandRank ts → motive (.level l) ts := fun l h =>
        level l ts h fun left us hu => (shorter us hu).2 l left
      have h₀ := up .multiplicative hsigned
      have h₁ := up .additive h₀
      have h₂ := up .relational h₁
      have h₃ := up .equality h₂
      have h₄ := up .and h₃
      have h₅ := up .or h₄
      have hwhole : motive .whole ts := whole ts h₅ fun us h => (shorter us h).1 _
      refine ⟨fun rank => ?_, hchain⟩
      cases rank with
      | whole => exact hwhole
      | level l => cases l <;> assumption
      | signed => exact hsigned
      | atom => exact hatom
  exact ⟨fun rank ts => (all _ ts rfl).1 rank, fun l left ts => (all _ ts rfl).2 l left⟩

/-! ## Parts of statements -/

/-- A clause is an expression unless the token that closes it stands there already. -/
theorem plain_expressionBefore (closing : TokenKind) (ts : List Token) : plain (expressionBefore stop closing ts) =
    if kind? ts = some closing then .ok (none, ts)
    else andThen (read stop .whole ts) fun e rest => .ok (some e, rest) := by
  rw [expressionBefore]
  split
  · rfl
  · exact plain_bind fun e => rfl

/-- A condition is an expression between parentheses. -/
theorem plain_condition (ts : List Token) : plain (condition stop ts) =
    andThen (plain (expect stop .leftParen ts)) fun _ rest =>
      andThen (read stop .whole rest) fun test rest =>
        andThen (plain (expect stop .rightParen rest)) fun _ rest => .ok (test, rest) :=
  plain_bind fun _ => plain_bind fun _ => plain_bind fun _ => rfl

/-- A declared name has a first value if an assignment sign follows. -/
theorem plain_declarator (ts : List Token) : plain (declarator stop ts) =
    andThen (plain (name stop ts)) fun id rest =>
      if kind? rest = some .assign then
        andThen (plain (expect stop .assign rest)) fun _ rest =>
          andThen (read stop .whole rest) fun init rest => .ok (⟨id, some init⟩, rest)
      else .ok (⟨id, none⟩, rest) := by
  rw [declarator]
  refine plain_bind ?_
  intro id
  split
  · exact plain_bind fun sign => plain_bind fun init => rfl
  · rfl

/-- How a list is read: an item, and where a comma follows the comma and the rest of the list. -/
def ReadsList (stop : Option LexFault) (item : List Token → Reading α) (list : List Token → Reading (List α)) : Prop :=
  ∀ ts, list ts = andThen (item ts) fun first rest =>
    if kind? rest = some .comma then
      andThen (plain (expect stop .comma rest)) fun _ rest =>
        andThen (list rest) fun others rest => .ok (first :: others, rest)
    else .ok ([first], rest)

/-- Declared names are a list with commas. -/
theorem plain_declarators :
    ReadsList stop (fun ts => plain (declarator stop ts)) (fun ts => plain (declarators stop ts)) := by
  intro ts
  dsimp only
  rw [declarators]
  refine plain_bind ?_
  intro first
  split
  · exact plain_bind fun comma => plain_bind fun others => rfl
  · rfl

/-- A declaration is its keyword and the declared names. -/
theorem plain_declaration (ts : List Token) : plain (declaration stop ts) =
    andThen (plain (expect stop (.keyword .letWord) ts)) fun _ rest => plain (declarators stop rest) := by
  rw [declaration]
  refine plain_bind ?_
  intro word
  cases declarators stop word.rest <;> rfl

/-- Parameters are a list of names with commas. -/
theorem plain_names : ReadsList stop (fun ts => plain (name stop ts)) (fun ts => plain (names stop ts)) := by
  intro ts
  dsimp only
  rw [names]
  refine plain_bind ?_
  intro first
  split
  · exact plain_bind fun comma => plain_bind fun others => rfl
  · rfl

/-- There are no parameters where the closing parenthesis stands. -/
theorem plain_parameters (ts : List Token) : plain (parameters stop ts) =
    if kind? ts = some .rightParen then .ok ([], ts) else plain (names stop ts) := by
  rw [parameters]
  split
  · rfl
  · cases names stop ts <;> rfl

/-- The first clause of a counting loop is absent, a declaration or an expression. -/
theorem plain_loopInit (ts : List Token) : plain (loopInit stop ts) =
    if kind? ts = some .semicolon then .ok (none, ts)
    else if kind? ts = some (.keyword .letWord) then
      andThen (plain (declaration stop ts)) fun list rest => .ok (some (.declare list), rest)
    else andThen (read stop .whole ts) fun e rest => .ok (some (.eval e), rest) := by
  rw [loopInit]
  split
  · rfl
  · split
    · exact plain_bind fun list => rfl
    · exact plain_bind fun e => rfl

/-- The head of a counting loop, clause by clause. -/
theorem plain_loopHead (ts : List Token) : plain (loopHead stop ts) =
    andThen (plain (expect stop (.keyword .forWord) ts)) fun _ rest =>
      andThen (plain (expect stop .leftParen rest)) fun _ rest =>
        andThen (plain (loopInit stop rest)) fun init rest =>
          andThen (plain (expect stop .semicolon rest)) fun _ rest =>
            andThen (plain (expressionBefore stop .semicolon rest)) fun test rest =>
              andThen (plain (expect stop .semicolon rest)) fun _ rest =>
                andThen (plain (expressionBefore stop .rightParen rest)) fun update rest =>
                  andThen (plain (expect stop .rightParen rest)) fun _ rest => .ok (⟨init, test, update⟩, rest) :=
  plain_bind fun _ => plain_bind fun _ => plain_bind fun _ => plain_bind fun _ => plain_bind fun _ => plain_bind fun _ =>
    plain_bind fun _ => plain_bind fun _ => rfl

/-- The head of a function, token by token. -/
theorem plain_functionHead (ts : List Token) : plain (functionHead stop ts) =
    andThen (plain (expect stop (.keyword .defWord) ts)) fun _ rest =>
      andThen (plain (name stop rest)) fun id rest =>
        andThen (plain (expect stop .leftParen rest)) fun _ rest =>
          andThen (plain (parameters stop rest)) fun params rest =>
            andThen (plain (expect stop .rightParen rest)) fun _ rest => .ok ((id, params), rest) :=
  plain_bind fun _ => plain_bind fun _ => plain_bind fun _ => plain_bind fun _ => plain_bind fun _ => rfl

/-! ## Statements -/

/-- A statement without statements in it is chosen by its first token. -/
theorem plain_simple (ts : List Token) : plain (simple stop ts) =
    if kind? ts = some .semicolon then andThen (plain (expect stop .semicolon ts)) fun _ rest => .ok (.empty, rest)
    else if kind? ts = some (.keyword .letWord) then
      andThen (plain (declaration stop ts)) fun list rest =>
        andThen (plain (expect stop .semicolon rest)) fun _ rest => .ok (.declare list, rest)
    else if kind? ts = some (.keyword .returnWord) then
      andThen (plain (expect stop (.keyword .returnWord) ts)) fun _ rest =>
        andThen (plain (expressionBefore stop .semicolon rest)) fun value rest =>
          andThen (plain (expect stop .semicolon rest)) fun _ rest => .ok (.result value, rest)
    else andThen (read stop .whole ts) fun e rest =>
      andThen (plain (expect stop .semicolon rest)) fun _ rest => .ok (.eval e, rest) := by
  rw [simple]
  split
  · next h =>
    rw [if_pos h]
    exact plain_expectAs _ _ _
  · next h =>
    rw [if_neg (by simp [h]), if_pos h]
    exact plain_bind fun list => plain_bind fun semicolon => rfl
  · next h =>
    rw [if_neg (by simp [h]), if_neg (by simp [h]), if_pos h]
    exact plain_bind fun word => plain_bind fun value => plain_bind fun semicolon => rfl
  · next h₁ h₂ h₃ =>
    rw [if_neg h₁, if_neg h₂, if_neg h₃]
    exact plain_bind fun e => plain_bind fun semicolon => rfl

/-- The kinds of tokens that open a statement with other statements in it. -/
def compoundOpeners : List TokenKind :=
  [.leftBrace, .keyword .ifWord, .keyword .whileWord, .keyword .doWord, .keyword .forWord, .keyword .defWord]

/-- A brace opens a block. -/
theorem plain_statement_block (h : kind? ts = some .leftBrace) : plain (statement stop ts) =
    andThen (plain (block stop ts)) fun body rest => .ok (.block body, rest) := by
  rw [statement, h]
  exact plain_bind fun body => rfl

/-- After the first body of an `if` the next token tells whether there is a second one. -/
theorem plain_statement_if (h : kind? ts = some (.keyword .ifWord)) : plain (statement stop ts) =
    andThen (plain (expect stop (.keyword .ifWord) ts)) fun _ rest =>
      andThen (plain (condition stop rest)) fun test rest =>
        andThen (plain (statement stop rest)) fun body rest =>
          if kind? rest = some (.keyword .elseWord) then
            andThen (plain (expect stop (.keyword .elseWord) rest)) fun _ rest =>
              andThen (plain (statement stop rest)) fun other rest => .ok (.ifElse test body other, rest)
          else .ok (.ifThen test body, rest) := by
  rw [statement, h]
  refine plain_bind fun word => plain_bind fun test => plain_bind fun body => ?_
  dsimp only
  split
  · exact plain_bind fun word => plain_bind fun other => rfl
  · rfl

/-- A loop that tests first is its keyword, a condition and a body. -/
theorem plain_statement_while (h : kind? ts = some (.keyword .whileWord)) : plain (statement stop ts) =
    andThen (plain (expect stop (.keyword .whileWord) ts)) fun _ rest =>
      andThen (plain (condition stop rest)) fun test rest =>
        andThen (plain (statement stop rest)) fun body rest => .ok (.whileLoop test body, rest) := by
  rw [statement, h]
  exact plain_bind fun word => plain_bind fun test => plain_bind fun body => rfl

/-- A loop that tests last is its keyword, a body, and the condition with its own keyword. -/
theorem plain_statement_do (h : kind? ts = some (.keyword .doWord)) : plain (statement stop ts) =
    andThen (plain (expect stop (.keyword .doWord) ts)) fun _ rest =>
      andThen (plain (statement stop rest)) fun body rest =>
        andThen (plain (expect stop (.keyword .whileWord) rest)) fun _ rest =>
          andThen (plain (condition stop rest)) fun test rest =>
            andThen (plain (expect stop .semicolon rest)) fun _ rest => .ok (.doWhile body test, rest) := by
  rw [statement, h]
  exact plain_bind fun word => plain_bind fun body => plain_bind fun again => plain_bind fun test =>
    plain_bind fun semicolon => rfl

/-- A counting loop is its head and a body. -/
theorem plain_statement_for (h : kind? ts = some (.keyword .forWord)) : plain (statement stop ts) =
    andThen (plain (loopHead stop ts)) fun head rest =>
      andThen (plain (statement stop rest)) fun body rest =>
        .ok (.forLoop head.init head.test head.update body, rest) := by
  rw [statement, h]
  exact plain_bind fun head => plain_bind fun body => rfl

/-- A function is its head and a block. -/
theorem plain_statement_def (h : kind? ts = some (.keyword .defWord)) : plain (statement stop ts) =
    andThen (plain (functionHead stop ts)) fun head rest =>
      andThen (plain (block stop rest)) fun body rest => .ok (.function head.1 head.2 body, rest) := by
  rw [statement, h]
  exact plain_bind fun head => plain_bind fun body => rfl

/-- Any other first token opens a statement without statements in it. -/
theorem plain_statement_simple (h : ∀ kind ∈ compoundOpeners, kind? ts ≠ some kind) :
    plain (statement stop ts) = plain (simple stop ts) := by
  simp only [compoundOpeners, List.forall_mem_cons] at h
  obtain ⟨h₁, h₂, h₃, h₄, h₅, h₆, -⟩ := h
  rw [statement]
  split
  · exact absurd ‹_› h₁
  · exact absurd ‹_› h₂
  · exact absurd ‹_› h₃
  · exact absurd ‹_› h₄
  · exact absurd ‹_› h₅
  · exact absurd ‹_› h₆
  · rfl

/-- A block is closed at once, or holds one statement or more. -/
theorem plain_block (ts : List Token) : plain (block stop ts) =
    andThen (plain (expect stop .leftBrace ts)) fun _ rest =>
      if kind? rest = some .rightBrace then andThen (plain (expect stop .rightBrace rest)) fun _ rest => .ok ([], rest)
      else andThen (plain (statements stop (some .rightBrace) rest)) fun body rest =>
        andThen (plain (expect stop .rightBrace rest)) fun _ rest => .ok (body, rest) := by
  rw [block]
  refine plain_bind ?_
  intro opening
  split
  · exact plain_bind fun closing => rfl
  · exact plain_bind fun body => plain_bind fun closing => rfl

/-- Statements are read until their stream ends or a token that closes them stands there. -/
theorem plain_statements (closing : Option TokenKind) (ts : List Token) : plain (statements stop closing ts) =
    andThen (plain (statement stop ts)) fun first rest =>
      if kind? rest = none ∨ kind? rest = closing then .ok ([first], rest)
      else andThen (plain (statements stop closing rest)) fun others rest => .ok (first :: others, rest) := by
  rw [statements]
  refine plain_bind ?_
  intro first
  split
  · rfl
  · exact plain_bind fun others => rfl

/-- Induction over the productions of statements, as `read_induction` over those of expressions. -/
theorem statement_induction {one bracketed : List Token → Prop} {many : Option TokenKind → List Token → Prop}
    (statement : ∀ ts, bracketed ts → (∀ us, us.length < ts.length → one us ∧ bracketed us) → one ts)
    (block : ∀ ts, (∀ us, us.length < ts.length → many (some .rightBrace) us) → bracketed ts)
    (statements : ∀ closing ts, one ts → (∀ us, us.length < ts.length → many closing us) → many closing ts) :
    (∀ ts, one ts) ∧ (∀ ts, bracketed ts) ∧ ∀ closing ts, many closing ts := by
  have all : ∀ n, ∀ ts : List Token, ts.length = n → one ts ∧ bracketed ts ∧ ∀ closing, many closing ts := by
    intro n
    induction n using Nat.strongRecOn with
    | _ n ih =>
      intro ts hn
      have shorter : ∀ us : List Token, us.length < ts.length → one us ∧ bracketed us ∧ ∀ closing, many closing us :=
        fun us h => ih us.length (hn ▸ h) us rfl
      have hblock : bracketed ts := block ts fun us h => (shorter us h).2.2 _
      have hone : one ts := statement ts hblock fun us h => ⟨(shorter us h).1, (shorter us h).2.1⟩
      exact ⟨hone, hblock, fun closing => statements closing ts hone fun us h => (shorter us h).2.2 closing⟩
  exact ⟨fun ts => (all _ ts rfl).1, fun ts => (all _ ts rfl).2.1, fun closing ts => (all _ ts rfl).2.2 closing⟩

end Parse

/-- The program of a stream is what the statements up to its end make up. -/
theorem Program.ofStream_eq (tokens : List Token) (fault : Option LexFault) (h : tokens = [] → fault = none) :
    ofStream ⟨tokens, fault⟩ =
      match Parse.plain (Parse.statements fault none tokens) with
      | .ok (body, _) => .ok ⟨body⟩
      | .error e => .error e := by
  unfold ofStream
  dsimp only
  split
  · next fault => exact absurd (h rfl) nofun
  · cases Parse.statements fault none tokens <;> rfl

end Scriptlet
