import Scriptlet.Parse.Stmt

/-!
# The grammar: which tokens make up which tree

The productions of the language as relations between tokens and trees, with no reading order and no lookahead in them. Each
relation says of a whole list of tokens that it is a phrase of some sort and which tree the phrase stands for.

The levels of operators are one table, `Level.rows`: their order is the order of its rows. The productions that read keep the
same levels as functions of their own; that those agree with the table is shown at the end of the part on operators.

Two places need more than plain productions. What is assigned to is any expression on the left of the operator whose tree is
a name, so that a name may stand in parentheses. And an `if` without `else` must not be followed by an `else`: the relations
on statements carry the kind of the token after the phrase, `next`, for that one condition.
-/

namespace Scriptlet

/-! ## Operators on two sides -/

/-- The operators on two sides, of both families. -/
inductive Infix where
  | logical (op : LogicalOp)
  | binary (op : BinaryOp)
  deriving DecidableEq, Repr

namespace Infix

/-- How an operator is spelled. -/
def text : Infix → String
  | logical op => op.text
  | binary op => op.text

/-- The node that an operator makes of its two sides. -/
def node : Infix → Expr → Expr → Expr
  | logical op => .logical op
  | binary op => .binary op

/-- Whether an operator is of the family that may leave its right side out. -/
def isLogical : Infix → Bool
  | logical _ => true
  | binary _ => false

end Infix

/-- A row of the table of levels: a level, the kind that its operators have as tokens, and the operators. -/
structure Level.Row where
  level : Level
  kind : TokenKind
  operators : List Infix
  deriving DecidableEq, Repr

/-- The six levels of operators on two sides. The operators of a row bind stronger than those of the rows above it. -/
def Level.rows : List Level.Row :=
  [⟨.or, .logicalOr, [.logical .or]⟩,
    ⟨.and, .logicalAnd, [.logical .and]⟩,
    ⟨.equality, .equality, [.binary .equal, .binary .notEqual]⟩,
    ⟨.relational, .relational, [.binary .less, .binary .lessEqual, .binary .greater, .binary .greaterEqual]⟩,
    ⟨.additive, .additive, [.binary .add, .binary .subtract]⟩,
    ⟨.multiplicative, .multiplicative, [.binary .multiply, .binary .divide]⟩]

/-- The place of a level in the table, counted from the weakest. -/
def Level.number (level : Level) : Nat := rows.findIdx fun row => row.level = level

/-- A token is an operator of a level: its kind says which level, its text which operator. In a source the text of such a
token is always one that the level lists; of tokens that no source has, only the family of the operator is asked. -/
def Level.Joins (level : Level) (t : Token) (op : Infix) : Prop :=
  ∃ row ∈ rows, row.level = level ∧ t.kind = row.kind ∧ t.text = op.text ∧
    ∃ listed ∈ row.operators, listed.isLogical = op.isLogical

/-! ## Expressions -/

/-- The ranks of expressions, from the loosest to the tightest: a whole expression, the six levels of operators on two sides,
operands with signs in front of them, and what needs no parentheses anywhere. -/
inductive Rank where
  | whole
  | level (level : Level)
  | signed
  | atom
  deriving DecidableEq, Repr

/-- The rank of the operands of a level: the next level of the table, and behind the last one operands with signs. -/
def Level.operandRank (level : Level) : Rank :=
  rows[level.number + 1]?.elim .signed fun row => .level row.level

/-- Expressions. An operator of a level takes an expression of its own level on the left and an operand on the right, so a
level groups to the left; an assignment takes a whole expression on the right, so assignments group to the right. -/
inductive Expr.Derives : Rank → List Token → Expr → Prop where
  | loosest {ts : List Token} {e : Expr} : Derives (.level .or) ts e → Derives .whole ts e
  | assign {ts us : List Token} {t : Token} {op : AssignOp} {name : String} {e : Expr} :
      Derives (.level .or) ts (.name name) → t.kind.isAssignment = true → AssignOp.ofText? t.text = some op →
      Derives .whole us e → Derives .whole (ts ++ t :: us) (.assign op name e)
  | operand {level : Level} {ts : List Token} {e : Expr} : Derives level.operandRank ts e → Derives (.level level) ts e
  | operator {level : Level} {ts us : List Token} {t : Token} {op : Infix} {a b : Expr} :
      Derives (.level level) ts a → level.Joins t op → Derives level.operandRank us b →
      Derives (.level level) (ts ++ t :: us) (op.node a b)
  | sign {ts : List Token} {t : Token} {op : UnaryOp} {e : Expr} :
      t.kind = .additive ∨ t.kind = .logicalNot → UnaryOp.ofText? t.text = some op → Derives .signed ts e →
      Derives .signed (t :: ts) (.unary op e)
  | unsigned {ts : List Token} {e : Expr} : Derives .atom ts e → Derives .signed ts e
  | name {t : Token} : t.kind = .name → Derives .atom [t] (.name t.text)
  | number {t : Token} {x : Double} : t.kind = .number → Double.ofDigits? t.text = some x → Derives .atom [t] (.number x)
  | text {t : Token} : t.kind = .text → Derives .atom [t] (.text (Parse.unquote t.text))
  | trueWord {t : Token} : t.kind = .keyword .trueWord → Derives .atom [t] (.bool true)
  | falseWord {t : Token} : t.kind = .keyword .falseWord → Derives .atom [t] (.bool false)
  | nullWord {t : Token} : t.kind = .keyword .nullWord → Derives .atom [t] .null
  | parens {ts : List Token} {o c : Token} {e : Expr} :
      o.kind = .leftParen → Derives .whole ts e → c.kind = .rightParen → Derives .atom (o :: (ts ++ [c])) e

/-! ## The levels of the parser

What the parser knows of a level, its kind, the level of its operands, its height and the nodes that it makes, is what the
table says.
-/

namespace Level

variable {level : Level} {t : Token} {op : Infix}

/-- Every level has a row. -/
theorem exists_row (level : Level) : ∃ row ∈ rows, row.level = level := by cases level <;> decide

/-- The kind of a row is that of its level. -/
theorem kind_eq_of_mem_rows : ∀ row ∈ rows, row.kind = row.level.kind := by decide

/-- The operands of a level are what the parser reads as such: an expression of the level that binds next stronger, or an
operand with its signs. -/
theorem operandRank_eq (level : Level) : level.operandRank = level.tighter?.elim .signed .level := by
  cases level <;> rfl

/-- As many levels bind stronger as there are rows below. -/
theorem number_add_height (level : Level) : level.number + level.height = 5 := by cases level <;> rfl

/-- An operator of a level has the kind that the parser looks for. -/
theorem Joins.kind_eq (h : level.Joins t op) : t.kind = level.kind := by
  obtain ⟨row, hrow, rfl, hk, -⟩ := h
  exact hk.trans (kind_eq_of_mem_rows row hrow)

/-- The two weakest levels list logical operators and nothing else, the other levels none of them. -/
theorem exists_listed_iff : ∀ row ∈ rows, ∀ family : Bool, (∃ listed ∈ row.operators, listed.isLogical = family) ↔
    family = decide (row.level = .or ∨ row.level = .and) := by
  decide

/-- The parser looks for logical operators on the two weakest levels and for binary ones on the others. -/
theorem node?_eq (level : Level) (text : String) : level.node? text =
    if level = .or ∨ level = .and then (LogicalOp.ofText? text).map .logical else (BinaryOp.ofText? text).map .binary := by
  cases level <;> rfl

/-- The parser makes of the text of an operator the node of that operator. -/
theorem Joins.node?_eq (h : level.Joins t op) : level.node? t.text = some op.node := by
  obtain ⟨row, hrow, rfl, -, htext, hlisted⟩ := h
  rw [exists_listed_iff row hrow] at hlisted
  rw [Level.node?_eq, htext]
  cases op with
  | logical op =>
    rw [if_pos (of_decide_eq_true hlisted.symm), Infix.text, op.ofText?_text]
    rfl
  | binary op =>
    rw [if_neg (of_decide_eq_false hlisted.symm), Infix.text, op.ofText?_text]
    rfl

/-- A token that the parser takes for an operator of a level is one. -/
theorem exists_joins {node : Expr → Expr → Expr} (hk : t.kind = level.kind) (hnode : level.node? t.text = some node) :
    ∃ op, level.Joins t op ∧ op.node = node := by
  obtain ⟨row, hrow, rfl⟩ := level.exists_row
  rw [← kind_eq_of_mem_rows row hrow] at hk
  rw [node?_eq] at hnode
  split at hnode
  · next hlevel =>
    obtain ⟨op, hop, rfl⟩ := Option.map_eq_some_iff.mp hnode
    have htext : op.text = t.text := by simpa using List.find?_some hop
    have hlisted := (exists_listed_iff row hrow true).mpr (decide_eq_true hlevel).symm
    exact ⟨.logical op, ⟨row, hrow, rfl, hk, htext.symm, hlisted⟩, rfl⟩
  · next hlevel =>
    obtain ⟨op, hop, rfl⟩ := Option.map_eq_some_iff.mp hnode
    have htext : op.text = t.text := by simpa using List.find?_some hop
    have hlisted := (exists_listed_iff row hrow false).mpr (decide_eq_false hlevel).symm
    exact ⟨.binary op, ⟨row, hrow, rfl, hk, htext.symm, hlisted⟩, rfl⟩

end Level

/-! ## Ranks in order -/

/-- The ranks counted from the loosest. -/
def Rank.tightness : Rank → Nat
  | whole => 0
  | level l => l.number + 1
  | signed => 7
  | atom => 8

/-- The rank of a number. -/
def Rank.ofTightness : Nat → Rank
  | 0 => whole
  | 1 => level .or
  | 2 => level .and
  | 3 => level .equality
  | 4 => level .relational
  | 5 => level .additive
  | 6 => level .multiplicative
  | 7 => signed
  | _ => atom

theorem Rank.ofTightness_tightness (rank : Rank) : ofTightness rank.tightness = rank := by
  cases rank with
  | level l => cases l <;> rfl
  | _ => rfl

/-- An expression of a rank is one of every looser rank. -/
theorem Expr.Derives.loosen {rank rank' : Rank} {ts : List Token} {e : Expr} (h : e.Derives rank ts)
    (hle : rank'.tightness ≤ rank.tightness) : e.Derives rank' ts := by
  have hstep : ∀ n, e.Derives (.ofTightness (n + 1)) ts → e.Derives (.ofTightness n) ts := by
    intro n hn
    match n with
    | 0 => exact .loosest hn
    | 1 | 2 | 3 | 4 | 5 | 6 => exact .operand hn
    | 7 => exact .unsigned hn
    | n + 8 => exact hn
  have hdown : ∀ n d, e.Derives (.ofTightness (n + d)) ts → e.Derives (.ofTightness n) ts := by
    intro n d hd
    induction d with
    | zero => exact hd
    | succ d ih => exact ih (hstep _ hd)
  rw [← rank.ofTightness_tightness, ← Nat.add_sub_cancel' hle] at h
  rw [← rank'.ofTightness_tightness]
  exact hdown _ _ h

/-! ## Parts of statements -/

/-- A phrase of some sort, or nothing. -/
inductive Maybe {α : Type} (Phrase : List Token → α → Prop) : List Token → Option α → Prop where
  | absent : Maybe Phrase [] none
  | present {ts : List Token} {a : α} : Phrase ts a → Maybe Phrase ts (some a)

/-- One phrase of some sort or more, with commas between them. -/
inductive CommaList {α : Type} (Phrase : List Token → α → Prop) : List Token → List α → Prop where
  | last {ts : List Token} {a : α} : Phrase ts a → CommaList Phrase ts [a]
  | cons {ts us : List Token} {t : Token} {a : α} {as : List α} :
      Phrase ts a → t.kind = .comma → CommaList Phrase us as → CommaList Phrase (ts ++ t :: us) (a :: as)

/-- An expression in parentheses, as it follows `if` and `while`. -/
inductive Condition : List Token → Expr → Prop where
  | parens {ts : List Token} {o c : Token} {e : Expr} :
      o.kind = .leftParen → e.Derives .whole ts → c.kind = .rightParen → Condition (o :: (ts ++ [c])) e

/-- A name by itself: a parameter. -/
inductive Parameter : List Token → String → Prop where
  | name {t : Token} : t.kind = .name → Parameter [t] t.text

/-- A declared name, alone or with a plain assignment sign and its first value. -/
inductive Declarator.Derives : List Token → Declarator → Prop where
  | bare {t : Token} : t.kind = .name → Derives [t] ⟨t.text, none⟩
  | init {ts : List Token} {t s : Token} {e : Expr} :
      t.kind = .name → s.kind = .assign → e.Derives .whole ts → Derives (t :: s :: ts) ⟨t.text, some e⟩

/-- A declaration without its semicolon. -/
inductive Declaration : List Token → List Declarator → Prop where
  | list {ts : List Token} {t : Token} {ds : List Declarator} :
      t.kind = .keyword .letWord → CommaList Declarator.Derives ts ds → Declaration (t :: ts) ds

/-- What may stand in front of the first semicolon of a counting loop. -/
inductive ForInit.Derives : List Token → ForInit → Prop where
  | declare {ts : List Token} {ds : List Declarator} : Declaration ts ds → Derives ts (.declare ds)
  | eval {ts : List Token} {e : Expr} : e.Derives .whole ts → Derives ts (.eval e)

/-- The head of a counting loop: three clauses, each of which may be absent. -/
inductive Parse.LoopHead.Derives : List Token → Parse.LoopHead → Prop where
  | head {is ts us : List Token} {f o s₁ s₂ c : Token} {init : Option ForInit} {test update : Option Expr} :
      f.kind = .keyword .forWord → o.kind = .leftParen →
      Maybe ForInit.Derives is init → s₁.kind = .semicolon →
      Maybe (Expr.Derives .whole) ts test → s₂.kind = .semicolon →
      Maybe (Expr.Derives .whole) us update → c.kind = .rightParen →
      Derives (f :: o :: (is ++ s₁ :: (ts ++ s₂ :: (us ++ [c])))) ⟨init, test, update⟩

/-- The names between the parentheses of a function, or none. -/
inductive Parameters : List Token → List String → Prop where
  | none : Parameters [] []
  | some {ts : List Token} {ps : List String} : CommaList Parameter ts ps → Parameters ts ps

/-- The head of a function: its name and its parameters. -/
inductive FunctionHead : List Token → String → List String → Prop where
  | head {ts : List Token} {d f o c : Token} {ps : List String} :
      d.kind = .keyword .defWord → f.kind = .name → o.kind = .leftParen → Parameters ts ps → c.kind = .rightParen →
      FunctionHead (d :: f :: o :: (ts ++ [c])) f.text ps

/-! ## Statements -/

mutual

/-- Statements, in front of a token of kind `next` or, where that is none, of the end. -/
inductive Stmt.Derives : Option TokenKind → List Token → Stmt → Prop where
  | empty {next : Option TokenKind} {t : Token} : t.kind = .semicolon → Stmt.Derives next [t] .empty
  | block {next : Option TokenKind} {ts : List Token} {o c : Token} {body : List Stmt} :
      o.kind = .leftBrace → Stmt.DerivesAll (some .rightBrace) ts body → c.kind = .rightBrace →
      Stmt.Derives next (o :: (ts ++ [c])) (.block body)
  | eval {next : Option TokenKind} {ts : List Token} {s : Token} {e : Expr} :
      e.Derives .whole ts → s.kind = .semicolon → Stmt.Derives next (ts ++ [s]) (.eval e)
  | declare {next : Option TokenKind} {ts : List Token} {s : Token} {ds : List Declarator} :
      Declaration ts ds → s.kind = .semicolon → Stmt.Derives next (ts ++ [s]) (.declare ds)
  | ifThen {next : Option TokenKind} {cs ts : List Token} {t : Token} {test : Expr} {body : Stmt} :
      t.kind = .keyword .ifWord → Condition cs test → Stmt.Derives next ts body →
      next ≠ some (.keyword .elseWord) → Stmt.Derives next (t :: (cs ++ ts)) (.ifThen test body)
  | ifElse {next : Option TokenKind} {cs ts us : List Token} {t e : Token} {test : Expr} {body other : Stmt} :
      t.kind = .keyword .ifWord → Condition cs test → Stmt.Derives (some (.keyword .elseWord)) ts body →
      e.kind = .keyword .elseWord → Stmt.Derives next us other →
      Stmt.Derives next (t :: (cs ++ (ts ++ e :: us))) (.ifElse test body other)
  | whileLoop {next : Option TokenKind} {cs ts : List Token} {t : Token} {test : Expr} {body : Stmt} :
      t.kind = .keyword .whileWord → Condition cs test → Stmt.Derives next ts body →
      Stmt.Derives next (t :: (cs ++ ts)) (.whileLoop test body)
  | doWhile {next : Option TokenKind} {cs ts : List Token} {t w s : Token} {test : Expr} {body : Stmt} :
      t.kind = .keyword .doWord → Stmt.Derives (some (.keyword .whileWord)) ts body → w.kind = .keyword .whileWord →
      Condition cs test → s.kind = .semicolon → Stmt.Derives next (t :: (ts ++ w :: (cs ++ [s]))) (.doWhile body test)
  | forLoop {next : Option TokenKind} {hs ts : List Token} {head : Parse.LoopHead} {body : Stmt} :
      head.Derives hs → Stmt.Derives next ts body →
      Stmt.Derives next (hs ++ ts) (.forLoop head.init head.test head.update body)
  | function {next : Option TokenKind} {hs ts : List Token} {o c : Token} {name : String} {ps : List String}
      {body : List Stmt} :
      FunctionHead hs name ps → o.kind = .leftBrace → Stmt.DerivesAll (some .rightBrace) ts body →
      c.kind = .rightBrace → Stmt.Derives next (hs ++ o :: (ts ++ [c])) (.function name ps body)
  | result {next : Option TokenKind} {ts : List Token} {t s : Token} {value : Option Expr} :
      t.kind = .keyword .returnWord → Maybe (Expr.Derives .whole) ts value → s.kind = .semicolon →
      Stmt.Derives next (t :: (ts ++ [s])) (.result value)

/-- Statements one after the other, none or more; behind each of them stands the next one, and behind the last `next`. -/
inductive Stmt.DerivesAll : Option TokenKind → List Token → List Stmt → Prop where
  | nil {next : Option TokenKind} : Stmt.DerivesAll next [] []
  | cons {next : Option TokenKind} {ts us : List Token} {s : Stmt} {ss : List Stmt} :
      Stmt.Derives ((Parse.kind? us).or next) ts s → Stmt.DerivesAll next us ss → Stmt.DerivesAll next (ts ++ us) (s :: ss)

end

/-- A program is one statement or more, with nothing behind the last of them. -/
def Program.Derives (ts : List Token) (p : Program) : Prop := p.body ≠ [] ∧ Stmt.DerivesAll none ts p.body

end Scriptlet
