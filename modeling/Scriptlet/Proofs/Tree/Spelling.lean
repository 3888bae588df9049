import Scriptlet.Proofs.Grammar.Follow
import Scriptlet.Proofs.Parse.Moved
import Scriptlet.Proofs.Tree.Unsigned

/-!
# Spelling: trees written as sources

A tree is written as the tokens of its parts with single spaces between them. Parentheses stand around every expression that
binds weaker than its place asks for, and any number of pairs more may stand around any expression. However many there are, a
well-formed program is read back from what is written, so the programs that can be read are the well-formed ones.
-/

namespace Scriptlet

open TokenKind Keyword

/-! ## Tokens of expressions -/

/-- Tokens in a number of pairs of parentheses. -/
def Token.parenthesized (ts : List Token) : Nat → List Token
  | 0 => ts
  | n + 1 => leftParen.sample :: (parenthesized ts n ++ [rightParen.sample])

/-- A text in quotes: in double ones if there are none of them in it. -/
def Text.quoted (s : String) : String := if '"' ∈ s.toList then "'" ++ s ++ "'" else "\"" ++ s ++ "\""

/-- How many pairs of parentheses more than it needs each expression of a tree gets, by the path that leads to it. -/
def Extra : Type := List Nat → Nat

/-- The pairs around a tree itself. -/
def Extra.here (x : Extra) : Nat := x []

/-- The pairs in one of the parts of a tree. -/
def Extra.below (x : Extra) (part : Nat) : Extra := fun path => x (part :: path)

/-- The level that an operator belongs to. -/
def BinaryOp.level : BinaryOp → Level
  | add | subtract => .additive
  | multiply | divide => .multiplicative
  | less | lessEqual | greater | greaterEqual => .relational
  | equal | notEqual => .equality

/-- The level that a logical operator belongs to. -/
def LogicalOp.level : LogicalOp → Level
  | and => .and
  | or => .or

/-- The level that an operator on two sides belongs to. -/
def Infix.level : Infix → Level
  | logical op => op.level
  | binary op => op.level

/-- The kind of an assignment operator. -/
def AssignOp.kind : AssignOp → TokenKind
  | set => .assign
  | _ => .compoundAssign

/-- The kind of an operator in front of a value. -/
def UnaryOp.kind : UnaryOp → TokenKind
  | plus | minus => .additive
  | not => .logicalNot

/-- The rank that an expression has without parentheses. -/
def Expr.rank : Expr → Rank
  | name _ | number _ | text _ | bool _ | null => .atom
  | unary _ _ => .signed
  | binary op _ _ => .level op.level
  | logical op _ _ => .level op.level
  | assign _ _ _ => .whole

/-- The tokens of an expression in a place for expressions of a rank. -/
def Expr.tokens (rank : Rank) (x : Extra) (e : Expr) : List Token :=
  Token.parenthesized
    (match e with
      | name s => [⟨.name, s, .start⟩]
      | number v => [⟨.number, v.digits, .start⟩]
      | text s => [⟨.text, Text.quoted s, .start⟩]
      | bool true => [(keyword trueWord).sample]
      | bool false => [(keyword falseWord).sample]
      | null => [(keyword nullWord).sample]
      | unary op a => ⟨op.kind, op.text, .start⟩ :: a.tokens .signed (x.below 0)
      | binary op a b =>
        a.tokens (.level op.level) (x.below 0) ++ ⟨op.level.kind, op.text, .start⟩ ::
          b.tokens op.level.operandRank (x.below 1)
      | logical op a b =>
        a.tokens (.level op.level) (x.below 0) ++ ⟨op.level.kind, op.text, .start⟩ ::
          b.tokens op.level.operandRank (x.below 1)
      | assign op s a =>
        Token.parenthesized [⟨.name, s, .start⟩] (x.below 0).here ++ ⟨op.kind, op.text, .start⟩ ::
          a.tokens .whole (x.below 1))
    (x.here + if e.rank.tightness < rank.tightness then 1 else 0)

/-! ## Tokens of statements -/

/-- The tokens of the parts of a list with commas between them. -/
def commaSeparated {α : Type} (write : Extra → α → List Token) (x : Extra) : List α → List Token
  | [] => []
  | [a] => write (x.below 0) a
  | a :: as => write (x.below 0) a ++ comma.sample :: commaSeparated write (x.below 1) as

/-- The tokens of an expression in the parentheses that belong to its statement. -/
def Condition.tokens (x : Extra) (test : Expr) : List Token :=
  leftParen.sample :: (test.tokens .whole x ++ [rightParen.sample])

/-- The tokens of a declared name and its first value. -/
def Declarator.tokens (x : Extra) (d : Declarator) : List Token :=
  ⟨.name, d.name, .start⟩ :: d.init.elim [] fun e => assign.sample :: e.tokens .whole x

/-- The tokens of a declaration without its semicolon. -/
def Declaration.tokens (x : Extra) (ds : List Declarator) : List Token :=
  (keyword letWord).sample :: commaSeparated Declarator.tokens x ds

/-- The tokens of the opening of a counting loop. -/
def ForInit.tokens (x : Extra) : ForInit → List Token
  | declare ds => Declaration.tokens x ds
  | eval e => e.tokens .whole x

/-- The tokens of the head of a counting loop. -/
def Parse.LoopHead.tokens (x : Extra) (head : Parse.LoopHead) : List Token :=
  (keyword forWord).sample :: leftParen.sample ::
    (head.init.elim [] (ForInit.tokens (x.below 0)) ++ semicolon.sample ::
      (head.test.elim [] (Expr.tokens .whole (x.below 1)) ++ semicolon.sample ::
        (head.update.elim [] (Expr.tokens .whole (x.below 2)) ++ [rightParen.sample])))

/-- The tokens of the head of a function. -/
def FunctionHead.tokens (x : Extra) (name : String) (params : List String) : List Token :=
  (keyword defWord).sample :: ⟨.name, name, .start⟩ :: leftParen.sample ::
    (commaSeparated (fun _ s => [⟨.name, s, .start⟩]) x params ++ [rightParen.sample])

mutual

/-- The tokens of a statement. -/
def Stmt.tokens (x : Extra) : Stmt → List Token
  | .empty => [semicolon.sample]
  | .block body => leftBrace.sample :: (Stmt.tokensAll x body ++ [rightBrace.sample])
  | .eval e => e.tokens .whole x ++ [semicolon.sample]
  | .declare ds => Declaration.tokens x ds ++ [semicolon.sample]
  | .ifThen test body => (keyword ifWord).sample :: (Condition.tokens (x.below 0) test ++ body.tokens (x.below 1))
  | .ifElse test body other =>
    (keyword ifWord).sample :: (Condition.tokens (x.below 0) test ++
      (body.tokens (x.below 1) ++ (keyword elseWord).sample :: other.tokens (x.below 2)))
  | .whileLoop test body => (keyword whileWord).sample :: (Condition.tokens (x.below 0) test ++ body.tokens (x.below 1))
  | .doWhile body test =>
    (keyword doWord).sample :: (body.tokens (x.below 0) ++ (keyword whileWord).sample ::
      (Condition.tokens (x.below 1) test ++ [semicolon.sample]))
  | .forLoop init test update body =>
    Parse.LoopHead.tokens (x.below 0) ⟨init, test, update⟩ ++ body.tokens (x.below 1)
  | .function f params body =>
    FunctionHead.tokens (x.below 0) f params ++ leftBrace.sample :: (Stmt.tokensAll (x.below 1) body ++ [rightBrace.sample])
  | .result value => (keyword returnWord).sample :: (value.elim [] (Expr.tokens .whole x) ++ [semicolon.sample])

/-- The tokens of statements one after the other. -/
def Stmt.tokensAll (x : Extra) : List Stmt → List Token
  | [] => []
  | s :: ss => s.tokens (x.below 0) ++ Stmt.tokensAll (x.below 1) ss

end

/-- A program as a source: its tokens with single spaces between them. -/
def Program.text (x : Extra) (p : Program) : String := Token.spaced (Stmt.tokensAll x p.body)

/-! ## Expressions are derived -/

/-- Nothing binds stronger than what needs no parentheses. -/
theorem Rank.tightness_le (rank : Rank) : rank.tightness ≤ Rank.atom.tightness := by
  cases rank with
  | level l => cases l <;> decide
  | _ => decide

/-- In parentheses an expression may stand anywhere, without them where its own rank will do. -/
theorem Expr.Derives.parenthesized {r rank : Rank} {ts : List Token} {e : Expr} (h : e.Derives r ts) {n : Nat}
    (hn : n = 0 → rank.tightness ≤ r.tightness) : e.Derives rank (Token.parenthesized ts n) := by
  have hwhole : ∀ n, e.Derives .whole (Token.parenthesized ts n) := by
    intro n
    induction n with
    | zero => exact h.loosen (Nat.zero_le _)
    | succ n ih => exact (Derives.parens rfl ih rfl).loosen (Nat.zero_le _)
  cases n with
  | zero => exact h.loosen (hn rfl)
  | succ n => exact (Derives.parens rfl (hwhole n) rfl).loosen rank.tightness_le

/-- With the parentheses that its place asks for an expression may stand there, however many more there are. -/
theorem Expr.Derives.placed {r rank : Rank} {ts : List Token} {e : Expr} {n : Nat} (h : e.Derives r ts) :
    e.Derives rank (Token.parenthesized ts (n + if r.tightness < rank.tightness then 1 else 0)) := by
  refine h.parenthesized ?_
  intro hzero
  split at hzero
  · omega
  · omega

/-- Operators are listed in the row of the level that they belong to and in no other. -/
theorem Infix.mem_operators_iff (op : Infix) : ∀ row ∈ Level.rows, op ∈ row.operators ↔ row.level = op.level := by
  cases op with
  | logical op => cases op <;> decide
  | binary op => cases op <;> decide

/-- A token of the kind of an operator's level that is spelled like the operator is the operator. -/
theorem Infix.joins {t : Token} (op : Infix) (hk : t.kind = op.level.kind) (htext : t.text = op.text) :
    op.level.Joins t op := by
  obtain ⟨row, hrow, hlevel⟩ := op.level.exists_row
  have hlisted := (op.mem_operators_iff row hrow).mpr hlevel
  rw [← hlevel, ← Level.kind_eq_of_mem_rows row hrow] at hk
  exact ⟨row, hrow, hlevel, hk, htext, op, hlisted, rfl⟩

/-- The kind of an assignment operator is one that the parser looks for. -/
theorem AssignOp.isAssignment_kind (op : AssignOp) : op.kind.isAssignment = true := by
  cases op <;> rfl

theorem UnaryOp.kind_cases (op : UnaryOp) : op.kind = .additive ∨ op.kind = .logicalNot := by
  cases op <;> simp [kind]

/-- A text that lacks one of the quotes stands between quotes that it lacks. -/
theorem Text.quoted_eq {s : String} (h : '"' ∉ s.toList ∨ '\'' ∉ s.toList) :
    ∃ q, (q = '"' ∨ q = '\'') ∧ q ∉ s.toList ∧ (quoted s).toList = q :: (s.toList ++ [q]) := by
  unfold quoted
  split
  · next hmem => exact ⟨_, .inr rfl, h.resolve_left (fun hn => hn hmem), by simp⟩
  · next hmem => exact ⟨_, .inl rfl, hmem, by simp⟩

/-- A well-formed expression is derived by its tokens, without the signs of its numbers, in a place of any rank. -/
theorem Expr.derives_tokens {e : Expr} (h : e.WellFormed) (rank : Rank) (x : Extra) :
    e.unsigned.Derives rank (e.tokens rank x) := by
  induction e generalizing rank x with
  | name s =>
    refine Derives.placed ?_
    exact .name rfl
  | number v =>
    refine Derives.placed ?_
    exact .number rfl (Double.ofDigits?_digits h)
  | text s =>
    obtain ⟨q, -, -, htext⟩ := Text.quoted_eq h
    have hunquote : Parse.unquote (Text.quoted s) = s := by rw [Parse.unquote_eq htext, String.ofList_toList]
    have hs : Derives .atom [⟨.text, Text.quoted s, .start⟩] (.text (Parse.unquote (Text.quoted s))) := .text rfl
    rw [hunquote] at hs
    exact hs.placed
  | bool b =>
    rcases b with _ | _
    · refine Derives.placed ?_
      exact .falseWord rfl
    · refine Derives.placed ?_
      exact .trueWord rfl
  | null =>
    refine Derives.placed ?_
    exact .nullWord rfl
  | unary op a ih =>
    refine Derives.placed ?_
    exact .sign op.kind_cases op.ofText?_text (ih h _ _)
  | binary op a b iha ihb =>
    refine Derives.placed ?_
    exact .operator (iha h.1 _ _) ((Infix.binary op).joins rfl rfl) (ihb h.2 _ _)
  | logical op a b iha ihb =>
    refine Derives.placed ?_
    exact .operator (iha h.1 _ _) ((Infix.logical op).joins rfl rfl) (ihb h.2 _ _)
  | assign op s a ih =>
    have hname : Derives .atom [⟨.name, s, .start⟩] (.name s) := .name rfl
    refine Derives.placed ?_
    refine .assign (hname.parenthesized ?_) op.isAssignment_kind op.ofText?_text (ih h.2 _ _)
    exact fun _ => Rank.tightness_le _

/-! ## Statements are derived -/

/-- The tokens of a part are a phrase of its sort, or there are none of them. -/
theorem maybe_elim {α : Type} {Phrase : List Token → α → Prop} {write : α → List Token} {f : α → α} {o : Option α}
    (h : ∀ a ∈ o, Phrase (write a) (f a)) : Maybe Phrase (o.elim [] write) (o.map f) := by
  cases o with
  | none => exact .absent
  | some a => exact .present (h a rfl)

/-- Tokens of parts with commas between them are a list of phrases. -/
theorem commaList_commaSeparated {α : Type} {Phrase : List Token → α → Prop} {write : Extra → α → List Token} {f : α → α}
    {as : List α} (hne : as ≠ []) (h : ∀ a ∈ as, ∀ x, Phrase (write x a) (f a)) (x : Extra) :
    CommaList Phrase (commaSeparated write x as) (as.map f) := by
  induction as generalizing x with
  | nil => exact absurd rfl hne
  | cons a as ih =>
    rw [List.forall_mem_cons] at h
    cases as with
    | nil => exact .last (h.1 _)
    | cons b as => exact .cons (h.1 _) rfl (ih (List.cons_ne_nil _ _) h.2 _)

theorem Condition.derives_tokens {test : Expr} (h : test.WellFormed) (x : Extra) :
    Condition (tokens x test) test.unsigned :=
  .parens rfl (Expr.derives_tokens h _ _) rfl

/-- A declared name is derived by its tokens. -/
theorem Declarator.derives_tokens {d : Declarator} (h : d.WellFormed) (x : Extra) : d.unsigned.Derives (d.tokens x) := by
  obtain ⟨s, init⟩ := d
  cases init with
  | none => exact .bare rfl
  | some e => exact .init rfl rfl (Expr.derives_tokens (h.2 e rfl) _ _)

theorem Declaration.derives_tokens {ds : List Declarator} (h : WellFormed ds) (x : Extra) :
    Declaration (tokens x ds) (ds.map Declarator.unsigned) :=
  .list rfl (commaList_commaSeparated h.1 (fun d hd => Declarator.derives_tokens (h.2 d hd)) _)

/-- The opening of a counting loop is derived by its tokens. -/
theorem ForInit.derives_tokens {i : ForInit} (h : i.WellFormed) (x : Extra) : i.unsigned.Derives (i.tokens x) := by
  cases i with
  | declare ds => exact .declare (Declaration.derives_tokens h _)
  | eval e => exact .eval (Expr.derives_tokens h _ _)

/-- The head of a function is derived by its tokens. -/
theorem FunctionHead.derives_tokens (x : Extra) (f : String) (params : List String) :
    FunctionHead (tokens x f params) f params := by
  refine .head rfl rfl rfl ?_ rfl
  by_cases hne : params = []
  · subst hne
    exact .none
  · have hparams := commaList_commaSeparated hne (fun s _ _ => Parameter.name (t := ⟨.name, s, .start⟩) rfl) x
    rw [List.map_id'] at hparams
    exact .some hparams

mutual

/-- A well-formed statement is derived from its tokens, in front of an `else` unless it ends with an `if` that is still open.
-/
theorem Stmt.derives_tokens : ∀ (s : Stmt), s.WellFormed → ∀ (x : Extra) (next : Option TokenKind),
    (next = some (keyword elseWord) → s.endsOpen = false) → s.unsigned.Derives next (s.tokens x) := by
  intro s h x next hnext
  cases s with
  | empty => exact .empty rfl
  | block body => exact .block rfl (Stmt.derivesAll_tokens body h _ (by decide)) rfl
  | eval e => exact .eval (Expr.derives_tokens h _ _) rfl
  | declare ds => exact .declare (Declaration.derives_tokens h _) rfl
  | ifThen test body =>
    have helse : next ≠ some (keyword elseWord) := fun heq => Bool.noConfusion (hnext heq)
    exact .ifThen rfl (Condition.derives_tokens h.1 _) (Stmt.derives_tokens body h.2 _ _ fun heq => absurd heq helse) helse
  | ifElse test body other =>
    obtain ⟨htest, hbody, hother, hopen⟩ := h
    exact .ifElse rfl (Condition.derives_tokens htest _) (Stmt.derives_tokens body hbody _ _ fun _ => hopen) rfl
      (Stmt.derives_tokens other hother _ _ hnext)
  | whileLoop test body =>
    exact .whileLoop rfl (Condition.derives_tokens h.1 _) (Stmt.derives_tokens body h.2 _ _ hnext)
  | doWhile body test =>
    have hbody := Stmt.derives_tokens body h.1 (x.below 0) (some (keyword whileWord)) fun heq => absurd heq (by decide)
    exact .doWhile rfl hbody rfl (Condition.derives_tokens h.2 _) rfl
  | forLoop init test update body =>
    obtain ⟨hinit, htest, hupdate, hbody⟩ := h
    have hhead : (⟨init.map ForInit.unsigned, test.map Expr.unsigned, update.map Expr.unsigned⟩ : Parse.LoopHead).Derives
        (Parse.LoopHead.tokens (x.below 0) ⟨init, test, update⟩) :=
      .head rfl rfl (maybe_elim fun i hi => ForInit.derives_tokens (hinit i hi) _) rfl
        (maybe_elim fun e he => Expr.derives_tokens (htest e he) _ _) rfl
        (maybe_elim fun e he => Expr.derives_tokens (hupdate e he) _ _) rfl
    exact .forLoop hhead (Stmt.derives_tokens body hbody _ _ hnext)
  | function f params body =>
    exact .function (FunctionHead.derives_tokens _ _ _) rfl (Stmt.derivesAll_tokens body h.2.2 _ (by decide)) rfl
  | result value => exact .result rfl (maybe_elim fun e he => Expr.derives_tokens (h e he) _ _) rfl

/-- Well-formed statements are derived from their tokens, in front of anything but an `else`. -/
theorem Stmt.derivesAll_tokens : ∀ (ss : List Stmt), Stmt.WellFormedAll ss → ∀ (x : Extra) {next : Option TokenKind},
    next ≠ some (keyword elseWord) → Stmt.DerivesAll next (Stmt.tokensAll x ss) (Stmt.unsignedAll ss) := by
  intro ss h x next hnext
  cases ss with
  | nil => exact .nil
  | cons s ss =>
    have hss := Stmt.derivesAll_tokens ss h.2 (x.below 1) hnext
    refine .cons (Stmt.derives_tokens s h.1 _ _ fun heq => ?_) hss
    rcases Option.or_eq_some_iff.mp heq with heq | ⟨-, heq⟩
    · exact absurd heq hss.kind?_ne_else
    · exact absurd heq hnext

end

/-! ## The tokens are genuine -/

/-- Parentheses can stand in a source. -/
theorem Token.genuine_parenthesized {ts : List Token} (h : ∀ t ∈ ts, t.Genuine) (n : Nat) :
    ∀ t ∈ parenthesized ts n, t.Genuine := by
  induction n with
  | zero => exact h
  | succ n ih =>
    simp only [parenthesized, List.forall_mem_cons, List.forall_mem_append]
    exact ⟨sample_genuine _, ih, sample_genuine _, List.forall_mem_nil _⟩

/-- The token of a binary operator can stand in a source. -/
theorem BinaryOp.genuine (op : BinaryOp) : Token.Genuine ⟨op.level.kind, op.text, .start⟩ :=
  Token.genuine_sign (by cases op <;> decide)

/-- The token of a logical operator can stand in a source. -/
theorem LogicalOp.genuine (op : LogicalOp) : Token.Genuine ⟨op.level.kind, op.text, .start⟩ :=
  Token.genuine_sign (by cases op <;> decide)

/-- The token of an assignment operator can stand in a source. -/
theorem AssignOp.genuine (op : AssignOp) : Token.Genuine ⟨op.kind, op.text, .start⟩ :=
  Token.genuine_sign (by cases op <;> decide)

/-- The token of a sign can stand in a source. -/
theorem UnaryOp.genuine (op : UnaryOp) : Token.Genuine ⟨op.kind, op.text, .start⟩ :=
  Token.genuine_sign (by cases op <;> decide)

/-- A name that is not reserved can stand in a source. -/
theorem Text.IsName.genuine {s : String} (h : IsName s) : Token.Genuine ⟨.name, s, .start⟩ := Token.genuine_name rfl h

/-- The tokens of a well-formed expression can stand in a source. -/
theorem Expr.genuine_tokens {e : Expr} (h : e.WellFormed) (rank : Rank) (x : Extra) :
    ∀ t ∈ e.tokens rank x, t.Genuine := by
  induction e generalizing rank x with
  | name s =>
    refine Token.genuine_parenthesized ?_ _
    exact List.forall_mem_singleton.mpr (Text.IsName.genuine h)
  | number v =>
    refine Token.genuine_parenthesized ?_ _
    have hrun : Text.IsDigitRun v.digits :=
      ⟨Double.toString_ne_empty _, List.all_eq_true.mpr fun c hc => Double.isDigit_of_mem_toString hc⟩
    exact List.forall_mem_singleton.mpr (Token.genuine_number rfl hrun)
  | text s =>
    refine Token.genuine_parenthesized ?_ _
    obtain ⟨q, hq, hmem, htext⟩ := Text.quoted_eq h
    have hquoted : Text.IsQuoted (Text.quoted s) := ⟨q, s.toList, hq, hmem, htext⟩
    exact List.forall_mem_singleton.mpr (Token.genuine_text rfl hquoted)
  | bool b =>
    rcases b with _ | _
    · refine Token.genuine_parenthesized ?_ _
      exact List.forall_mem_singleton.mpr (sample_genuine _)
    · refine Token.genuine_parenthesized ?_ _
      exact List.forall_mem_singleton.mpr (sample_genuine _)
  | null =>
    refine Token.genuine_parenthesized ?_ _
    exact List.forall_mem_singleton.mpr (sample_genuine _)
  | unary op a ih =>
    refine Token.genuine_parenthesized ?_ _
    exact List.forall_mem_cons.mpr ⟨op.genuine, ih h _ _⟩
  | binary op a b iha ihb =>
    refine Token.genuine_parenthesized ?_ _
    exact List.forall_mem_append.mpr ⟨iha h.1 _ _, List.forall_mem_cons.mpr ⟨op.genuine, ihb h.2 _ _⟩⟩
  | logical op a b iha ihb =>
    refine Token.genuine_parenthesized ?_ _
    exact List.forall_mem_append.mpr ⟨iha h.1 _ _, List.forall_mem_cons.mpr ⟨op.genuine, ihb h.2 _ _⟩⟩
  | assign op s a ih =>
    refine Token.genuine_parenthesized ?_ _
    have hname : ∀ t ∈ [(⟨.name, s, .start⟩ : Token)], t.Genuine :=
      List.forall_mem_singleton.mpr h.1.genuine
    refine List.forall_mem_append.mpr ⟨Token.genuine_parenthesized hname _, ?_⟩
    exact List.forall_mem_cons.mpr ⟨op.genuine, ih h.2 _ _⟩

/-- So can the tokens of a part, or none of them. -/
theorem genuine_elim {α : Type} {write : α → List Token} {o : Option α} (h : ∀ a ∈ o, ∀ t ∈ write a, t.Genuine) :
    ∀ t ∈ o.elim [] write, t.Genuine := by
  cases o with
  | none => nofun
  | some a => exact h a rfl

/-- So can tokens of parts with commas between them. -/
theorem genuine_commaSeparated {α : Type} {write : Extra → α → List Token} {as : List α}
    (h : ∀ a ∈ as, ∀ x, ∀ t ∈ write x a, t.Genuine) (x : Extra) : ∀ t ∈ commaSeparated write x as, t.Genuine := by
  induction as generalizing x with
  | nil => exact List.forall_mem_nil _
  | cons a as ih =>
    rw [List.forall_mem_cons] at h
    cases as with
    | nil => exact h.1 _
    | cons b as =>
      exact List.forall_mem_append.mpr ⟨h.1 _, List.forall_mem_cons.mpr ⟨sample_genuine _, ih h.2 _⟩⟩

theorem Condition.genuine_tokens {test : Expr} (h : test.WellFormed) (x : Extra) : ∀ t ∈ tokens x test, t.Genuine := by
  simp only [tokens, List.forall_mem_cons, List.forall_mem_append]
  exact ⟨sample_genuine _, Expr.genuine_tokens h _ _, sample_genuine _, List.forall_mem_nil _⟩

/-- The tokens of a declared name can stand in a source. -/
theorem Declarator.genuine_tokens {d : Declarator} (h : d.WellFormed) (x : Extra) : ∀ t ∈ d.tokens x, t.Genuine := by
  refine List.forall_mem_cons.mpr ⟨h.1.genuine, genuine_elim fun e he => ?_⟩
  exact List.forall_mem_cons.mpr ⟨sample_genuine _, Expr.genuine_tokens (h.2 e he) _ _⟩

theorem Declaration.genuine_tokens {ds : List Declarator} (h : WellFormed ds) (x : Extra) :
    ∀ t ∈ tokens x ds, t.Genuine := by
  refine List.forall_mem_cons.mpr ⟨sample_genuine _, ?_⟩
  exact genuine_commaSeparated (fun d hd => Declarator.genuine_tokens (h.2 d hd)) _

/-- The tokens of the opening of a counting loop can stand in a source. -/
theorem ForInit.genuine_tokens {i : ForInit} (h : i.WellFormed) (x : Extra) : ∀ t ∈ i.tokens x, t.Genuine := by
  cases i with
  | declare ds => exact Declaration.genuine_tokens h _
  | eval e => exact Expr.genuine_tokens h _ _

/-- The tokens of the head of a function can stand in a source if its names are not reserved. -/
theorem FunctionHead.genuine_tokens {f : String} {params : List String} (hf : Text.IsName f)
    (hparams : ∀ s ∈ params, Text.IsName s) (x : Extra) : ∀ t ∈ tokens x f params, t.Genuine := by
  simp only [tokens, List.forall_mem_cons, List.forall_mem_append]
  have hnames := genuine_commaSeparated (fun s hs _ => List.forall_mem_singleton.mpr (hparams s hs).genuine) x
  exact ⟨sample_genuine _, hf.genuine, sample_genuine _, hnames, sample_genuine _, List.forall_mem_nil _⟩

mutual

/-- The tokens of a well-formed statement can stand in a source. -/
theorem Stmt.genuine_tokens : ∀ (s : Stmt), s.WellFormed → ∀ x : Extra, ∀ t ∈ s.tokens x, t.Genuine := by
  intro s h x
  cases s with
  | empty => exact List.forall_mem_singleton.mpr (sample_genuine _)
  | block body =>
    simp only [Stmt.tokens, List.forall_mem_cons, List.forall_mem_append]
    exact ⟨sample_genuine _, Stmt.genuine_tokensAll body h _, sample_genuine _, List.forall_mem_nil _⟩
  | eval e =>
    simp only [Stmt.tokens, List.forall_mem_append]
    exact ⟨Expr.genuine_tokens h _ _, List.forall_mem_singleton.mpr (sample_genuine _)⟩
  | declare ds =>
    simp only [Stmt.tokens, List.forall_mem_append]
    exact ⟨Declaration.genuine_tokens h _, List.forall_mem_singleton.mpr (sample_genuine _)⟩
  | ifThen test body =>
    simp only [Stmt.tokens, List.forall_mem_cons, List.forall_mem_append]
    exact ⟨sample_genuine _, Condition.genuine_tokens h.1 _, Stmt.genuine_tokens body h.2 _⟩
  | ifElse test body other =>
    simp only [Stmt.tokens, List.forall_mem_cons, List.forall_mem_append]
    exact ⟨sample_genuine _, Condition.genuine_tokens h.1 _, Stmt.genuine_tokens body h.2.1 _, sample_genuine _,
      Stmt.genuine_tokens other h.2.2.1 _⟩
  | whileLoop test body =>
    simp only [Stmt.tokens, List.forall_mem_cons, List.forall_mem_append]
    exact ⟨sample_genuine _, Condition.genuine_tokens h.1 _, Stmt.genuine_tokens body h.2 _⟩
  | doWhile body test =>
    simp only [Stmt.tokens, List.forall_mem_cons, List.forall_mem_append]
    exact ⟨sample_genuine _, Stmt.genuine_tokens body h.1 _, sample_genuine _, Condition.genuine_tokens h.2 _,
      sample_genuine _, List.forall_mem_nil _⟩
  | forLoop init test update body =>
    simp only [Stmt.tokens, Parse.LoopHead.tokens, List.forall_mem_cons, List.forall_mem_append]
    obtain ⟨hinit, htest, hupdate, hbody⟩ := h
    exact ⟨⟨sample_genuine _, sample_genuine _, genuine_elim fun i hi => ForInit.genuine_tokens (hinit i hi) _,
      sample_genuine _, genuine_elim fun e he => Expr.genuine_tokens (htest e he) _ _, sample_genuine _,
      genuine_elim fun e he => Expr.genuine_tokens (hupdate e he) _ _, sample_genuine _, List.forall_mem_nil _⟩,
      Stmt.genuine_tokens body hbody _⟩
  | function f params body =>
    simp only [Stmt.tokens, List.forall_mem_cons, List.forall_mem_append]
    exact ⟨FunctionHead.genuine_tokens h.1 h.2.1 _, sample_genuine _, Stmt.genuine_tokensAll body h.2.2 _,
      sample_genuine _, List.forall_mem_nil _⟩
  | result value =>
    simp only [Stmt.tokens, List.forall_mem_cons, List.forall_mem_append]
    exact ⟨sample_genuine _, genuine_elim fun e he => Expr.genuine_tokens (h e he) _ _, sample_genuine _,
      List.forall_mem_nil _⟩

/-- So can those of statements one after the other. -/
theorem Stmt.genuine_tokensAll : ∀ (ss : List Stmt), Stmt.WellFormedAll ss → ∀ x : Extra,
    ∀ t ∈ Stmt.tokensAll x ss, t.Genuine := by
  intro ss h x
  cases ss with
  | nil => exact List.forall_mem_nil _
  | cons s ss => exact List.forall_mem_append.mpr ⟨Stmt.genuine_tokens s h.1 _, Stmt.genuine_tokensAll ss h.2 _⟩

end

/-! ## Programs are read back -/

namespace Program

/-- A well-formed program is read back from its text, whatever parentheses there are in it. -/
theorem parse_text {p : Program} (h : p.WellFormed) (x : Extra) : parse (p.text x) = .ok p.unsigned := by
  have hderives : p.unsigned.Derives (Stmt.tokensAll x p.body) :=
    ⟨Stmt.unsignedAll_ne_nil h.1, Stmt.derivesAll_tokens p.body h.2 x (by decide)⟩
  have hread := (ofStream_eq_ok_iff ⟨Stmt.tokensAll x p.body, none⟩ p.unsigned).mpr ⟨rfl, hderives⟩
  -- The text has these tokens, only at other positions.
  have hstream : (Stream.ofSource (p.text x)).moved (fun _ => .start) =
      Stream.moved (fun _ => .start) ⟨Stmt.tokensAll x p.body, none⟩ :=
    Stream.ofCursor_spaced (Stmt.genuine_tokensAll p.body h.2 x) _ _
  exact ofStream_eq_ok_of_moved hstream.symm hread

/-- The programs that can be read are the well-formed ones. Every program that is read is well formed, with no signs on its
numbers; and every well-formed program is read back from its text, with any number of pairs of parentheses around its
expressions, as the program without the signs of its numbers, which is the same program. -/
theorem image_of_parse :
    (∀ (source : String) (p : Program), parse source = .ok p → p.WellFormed ∧ p.unsigned = p) ∧
    ∀ (p : Program) (x : Extra), p.WellFormed → parse (p.text x) = .ok p.unsigned ∧ (p.unsigned == p) = true := by
  constructor
  · intro source p h
    exact ⟨wellFormed_of_parse h, unsigned_eq_of_parse h⟩
  · intro p x h
    exact ⟨parse_text h x, unsigned_same h⟩

/-- A loop between an `if` and its `else`, a target in parentheses, and the other zero. -/
theorem image_of_parse_negative_zero :
    WellFormed ⟨[.ifElse (.name "a") (.whileLoop (.name "b") .empty)
      (.eval (.assign .add "c" (.number ⟨true, 0, by decide⟩)))]⟩ ∧
    parse "if ( ( a ) ) while ( b ) ; else ( ( c ) += ( 0 ) ) ;" = .ok ⟨[.ifElse (.name "a") (.whileLoop (.name "b") .empty)
      (.eval (.assign .add "c" (.number ⟨false, 0, by decide⟩)))]⟩ ∧
    WellFormed ⟨[.ifElse (.name "a") (.whileLoop (.name "b") .empty)
      (.eval (.assign .add "c" (.number ⟨false, 0, by decide⟩)))]⟩ := by
  have ha : Text.IsName "a" := ⟨⟨'a', [], rfl, rfl, List.forall_mem_singleton.mpr rfl⟩, by decide⟩
  have hb : Text.IsName "b" := ⟨⟨'b', [], rfl, rfl, List.forall_mem_singleton.mpr rfl⟩, by decide⟩
  have hc : Text.IsName "c" := ⟨⟨'c', [], rfl, rfl, List.forall_mem_singleton.mpr rfl⟩, by decide⟩
  have hzero : Double.IsWhole ⟨true, 0, by decide⟩ := .inl (by decide +kernel)
  have hwf : WellFormed ⟨[.ifElse (.name "a") (.whileLoop (.name "b") .empty)
      (.eval (.assign .add "c" (.number ⟨true, 0, by decide⟩)))]⟩ :=
    ⟨List.cons_ne_nil _ _, ⟨ha, ⟨hb, trivial⟩, ⟨hc, hzero⟩, rfl⟩, trivial⟩
  have hparse := (image_of_parse.2 _ (fun path => if path = [0, 1, 0] then 0 else 1) hwf).1
  have htext : text (fun path => if path = [0, 1, 0] then 0 else 1) ⟨[.ifElse (.name "a")
      (.whileLoop (.name "b") .empty) (.eval (.assign .add "c" (.number ⟨true, 0, by decide⟩)))]⟩ =
      "if ( ( a ) ) while ( b ) ; else ( ( c ) += ( 0 ) ) ;" := by
    decide +kernel
  rw [htext] at hparse
  exact ⟨hwf, hparse, (image_of_parse.1 _ _ hparse).1⟩

end Program

end Scriptlet
