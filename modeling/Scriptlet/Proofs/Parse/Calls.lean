import Mathlib.Logic.Relation
import Scriptlet.Proofs.Grammar.Sound

/-!
# Which production calls which

A production looks at the next token, takes tokens of known kinds and calls other productions. Its plan says in which order,
as data; that every production carries out its plan is proved once for each of them. What holds of calls in general follows
from the plans alone: a call is made on tokens that stand at the end of the caller's, calls do not go on forever, and the
fault of a call is the fault of its caller.
-/

namespace Scriptlet

namespace Parse

/-- The productions, with what they are given besides the tokens. -/
inductive Production where
  | read (rank : Rank)
  | chain (level : Level) (left : Expr)
  | expressionBefore (closing : TokenKind)
  | condition
  | declarator
  | declarators
  | declaration
  | names
  | parameters
  | loopInit
  | loopHead
  | functionHead
  | simple
  | statement
  | block
  | statements (closing : Option TokenKind)

namespace Production

/-- What a production gives. -/
abbrev Value : Production → Type
  | read _ | chain _ _ | condition => Expr
  | expressionBefore _ => Option Expr
  | declarator => Declarator
  | declarators | declaration => List Declarator
  | names | parameters => List String
  | loopInit => Option ForInit
  | loopHead => LoopHead
  | functionHead => String × List String
  | simple | statement => Stmt
  | block | statements _ => List Stmt

/-- The reading of a production. -/
def reading (stop : Option LexFault) (ts : List Token) : (p : Production) → Reading p.Value
  | read rank => Parse.read stop rank ts
  | chain level left => plain (Parse.chain stop level left ts)
  | expressionBefore closing => plain (Parse.expressionBefore stop closing ts)
  | condition => plain (Parse.condition stop ts)
  | declarator => plain (Parse.declarator stop ts)
  | declarators => plain (Parse.declarators stop ts)
  | declaration => plain (Parse.declaration stop ts)
  | names => plain (Parse.names stop ts)
  | parameters => plain (Parse.parameters stop ts)
  | loopInit => plain (Parse.loopInit stop ts)
  | loopHead => plain (Parse.loopHead stop ts)
  | functionHead => plain (Parse.functionHead stop ts)
  | simple => plain (Parse.simple stop ts)
  | statement => plain (Parse.statement stop ts)
  | block => plain (Parse.block stop ts)
  | statements closing => plain (Parse.statements stop closing ts)

end Production

/-- What a production does, one step after the other. -/
inductive Plan (α : Type) where
  /-- It gives a value. -/
  | done (a : α)
  /-- It fails by itself. -/
  | fail (e : ParseFault)
  /-- It looks at the kind of the next token. -/
  | look (k : Option TokenKind → Plan α)
  /-- It notes where the next token stands. -/
  | mark (k : Position → Plan α)
  /-- It takes a token of a kind. -/
  | take (kind : TokenKind) (k : Token → Plan α)
  /-- It calls a production. -/
  | call (p : Production) (k : p.Value → Plan α)

namespace Plan

variable {α β : Type} {stop : Option LexFault} {ts : List Token}

/-- Takes a token of a kind whose text has to mean something. -/
def takeAs (kind : TokenKind) (read : String → Option β) (k : β → Plan α) : Plan α :=
  take kind fun t =>
    match read t.text with
    | some b => k b
    | none => fail (.unexpected t.text kind t.position)

/-- The reading of a plan that is carried out. -/
def run (stop : Option LexFault) : Plan α → List Token → Reading α
  | done a, ts => .ok (a, ts)
  | fail e, _ => .error e
  | look k, ts => (k (kind? ts)).run stop ts
  | mark k, ts => (k (position ts)).run stop ts
  | take kind k, ts => andThen (plain (expect stop kind ts)) fun t rest => (k t).run stop rest
  | call p k, ts => andThen (p.reading stop ts) fun a rest => (k a).run stop rest

/-- A token whose text means something is taken as the parser takes it. -/
theorem run_takeAs (kind : TokenKind) (read : String → Option β) (k : β → Plan α) (ts : List Token) :
    (takeAs kind read k).run stop ts =
      andThen (plain (expectAs stop kind read ts)) fun b rest => (k b).run stop rest := by
  rw [takeAs, run, plain_expectAs]
  cases plain (expect stop kind ts) with
  | error e => rfl
  | ok taken =>
    obtain ⟨t, rest⟩ := taken
    rw [andThen_ok, andThen_ok]
    cases read t.text <;> rfl

/-- A choice between plans is carried out as the plan that is chosen. -/
theorem run_ite {P : Prop} [Decidable P] (a b : Plan α) (ts : List Token) :
    (if P then a else b).run stop ts = if P then a.run stop ts else b.run stop ts := by
  split <;> rfl

/-- A literal whose first token is of a kind. -/
def literal : Option TokenKind → Plan Expr
  | some .text => takeAs .text (fun text => some (.text (unquote text))) done
  | some (.keyword .trueWord) => takeAs (.keyword .trueWord) (fun _ => some (.bool true)) done
  | some (.keyword .falseWord) => takeAs (.keyword .falseWord) (fun _ => some (.bool false)) done
  | some (.keyword .nullWord) => takeAs (.keyword .nullWord) (fun _ => some .null) done
  | _ => takeAs .number (fun text => (Double.ofDigits? text).map .number) done

theorem run_takeAs_done (kind : TokenKind) (read : String → Option α) (ts : List Token) :
    (takeAs kind read done).run stop ts = plain (expectAs stop kind read ts) := by
  rw [run_takeAs]
  exact andThen_ok_self _

/-- A literal is taken as the parser takes it. -/
theorem run_literal (ts : List Token) : (literal (kind? ts)).run stop ts = plain (Parse.literal stop ts) := by
  unfold Parse.literal
  split
  · next h => rw [h, literal]; exact run_takeAs_done _ _ _
  · next h => rw [h, literal]; exact run_takeAs_done _ _ _
  · next h => rw [h, literal]; exact run_takeAs_done _ _ _
  · next h => rw [h, literal]; exact run_takeAs_done _ _ _
  · next h₁ h₂ h₃ h₄ =>
    rw [literal]
    · exact run_takeAs_done _ _ _
    all_goals assumption

end Plan

namespace Production

open Plan

/-- The plan of a production. -/
def plan : (p : Production) → Plan p.Value
  | read .whole => mark fun start => call (read (.level .or)) fun left => look fun kind =>
    match kind.filter TokenKind.isAssignment with
    | none => done left
    | some kind => takeAs kind AssignOp.ofText? fun op =>
      match target start left with
      | .error e => fail e
      | .ok name => call (read .whole) fun value => done (.assign op name value)
  | read (.level level) => call (read level.operandRank) fun first => call (chain level first) done
  | read .signed => look fun kind =>
    match kind.filter fun kind => kind = .additive ∨ kind = .logicalNot with
    | some kind => takeAs kind UnaryOp.ofText? fun op => call (read .signed) fun argument => done (.unary op argument)
    | none => call (read .atom) done
  | read .atom => look fun kind =>
    if kind = some .leftParen then
      take .leftParen fun _ => call (read .whole) fun inner => take .rightParen fun _ => done inner
    else if kind.any TokenKind.isLiteral then Plan.literal kind
    else takeAs .name (fun text => some (.name text)) done
  | chain level left => look fun kind =>
    if kind = some level.kind then
      takeAs level.kind level.node? fun node => call (read level.operandRank) fun right =>
        call (chain level (node left right)) done
    else done left
  | expressionBefore closing => look fun kind =>
    if kind = some closing then done none else call (read .whole) fun e => done (some e)
  | condition => take .leftParen fun _ => call (read .whole) fun test => take .rightParen fun _ => done test
  | declarator => takeAs .name some fun id => look fun kind =>
    if kind = some .assign then take .assign fun _ => call (read .whole) fun init => done ⟨id, some init⟩
    else done ⟨id, none⟩
  | declarators => call declarator fun first => look fun kind =>
    if kind = some .comma then take .comma fun _ => call declarators fun others => done (first :: others)
    else done [first]
  | declaration => take (.keyword .letWord) fun _ => call declarators done
  | names => takeAs .name some fun first => look fun kind =>
    if kind = some .comma then take .comma fun _ => call names fun others => done (first :: others) else done [first]
  | parameters => look fun kind => if kind = some .rightParen then done [] else call names done
  | loopInit => look fun kind =>
    if kind = some .semicolon then done none
    else if kind = some (.keyword .letWord) then call declaration fun list => done (some (.declare list))
    else call (read .whole) fun e => done (some (.eval e))
  | loopHead => take (.keyword .forWord) fun _ => take .leftParen fun _ => call loopInit fun init =>
    take .semicolon fun _ => call (expressionBefore .semicolon) fun test =>
      take .semicolon fun _ => call (expressionBefore .rightParen) fun update =>
        take .rightParen fun _ => done ⟨init, test, update⟩
  | functionHead => take (.keyword .defWord) fun _ => takeAs .name some fun id => take .leftParen fun _ =>
    call parameters fun params => take .rightParen fun _ => done (id, params)
  | simple => look fun kind =>
    if kind = some .semicolon then take .semicolon fun _ => done .empty
    else if kind = some (.keyword .letWord) then
      call declaration fun list => take .semicolon fun _ => done (.declare list)
    else if kind = some (.keyword .returnWord) then
      take (.keyword .returnWord) fun _ => call (expressionBefore .semicolon) fun value =>
        take .semicolon fun _ => done (.result value)
    else call (read .whole) fun e => take .semicolon fun _ => done (.eval e)
  | statement => look fun kind =>
    if kind = some .leftBrace then call block fun body => done (.block body)
    else if kind = some (.keyword .ifWord) then
      take (.keyword .ifWord) fun _ => call condition fun test => call statement fun body => look fun kind =>
        if kind = some (.keyword .elseWord) then
          take (.keyword .elseWord) fun _ => call statement fun other => done (.ifElse test body other)
        else done (.ifThen test body)
    else if kind = some (.keyword .whileWord) then
      take (.keyword .whileWord) fun _ => call condition fun test => call statement fun body =>
        done (.whileLoop test body)
    else if kind = some (.keyword .doWord) then
      take (.keyword .doWord) fun _ => call statement fun body => take (.keyword .whileWord) fun _ =>
        call condition fun test => take .semicolon fun _ => done (.doWhile body test)
    else if kind = some (.keyword .forWord) then
      call loopHead fun head => call statement fun body => done (.forLoop head.init head.test head.update body)
    else if kind = some (.keyword .defWord) then
      call functionHead fun head => call block fun body => done (.function head.1 head.2 body)
    else call simple done
  | block => take .leftBrace fun _ => look fun kind =>
    if kind = some .rightBrace then take .rightBrace fun _ => done []
    else call (statements (some .rightBrace)) fun body => take .rightBrace fun _ => done body
  | statements closing => call statement fun first => look fun kind =>
    if kind = none ∨ kind = closing then done [first]
    else call (statements closing) fun others => done (first :: others)

variable {stop : Option LexFault} {ts : List Token}

/-! ## Plans are carried out -/

/-- Expressions are read by their plans. -/
theorem reading_read (rank : Rank) : (read rank).reading stop ts = (read rank).plan.run stop ts := by
  cases rank with
  | whole =>
    refine (read_whole ts).trans ?_
    simp only [plan, Plan.run, reading]
    congr
    funext left rest
    unfold assignment?
    cases Option.filter TokenKind.isAssignment (kind? rest) with
    | none => rfl
    | some kind =>
      dsimp only
      rw [Plan.run_takeAs]
      congr
      funext op rest
      cases target (position ts) left <;> rfl
  | level level =>
    refine (read_level level ts).trans ?_
    simp only [plan, Plan.run, andThen_ok_self, reading]
  | signed =>
    refine (read_signed ts).trans ?_
    simp only [plan, Plan.run]
    unfold sign?
    cases Option.filter (fun kind => decide (kind = .additive ∨ kind = .logicalNot)) (kind? ts) with
    | none => exact (andThen_ok_self _).symm
    | some kind =>
      dsimp only
      rw [Plan.run_takeAs]
      rfl
  | atom =>
    refine (read_atom ts).trans ?_
    simp only [plan, Plan.run, Plan.run_ite, Plan.run_takeAs_done, Plan.run_literal, reading]

/-- Statements are read by their plans, whatever their first token. -/
theorem reading_statement : statement.reading stop ts = statement.plan.run stop ts := by
  simp only [plan, Plan.run, Plan.run_ite, andThen_ok_self, reading]
  split
  · next h => exact plain_statement_block h
  split
  · next h => exact plain_statement_if h
  split
  · next h => exact plain_statement_while h
  split
  · next h => exact plain_statement_do h
  split
  · next h => exact plain_statement_for h
  split
  · next h => exact plain_statement_def h
  · exact plain_statement_simple (by simp [compoundOpeners, *])

/-- Every production carries out its plan. -/
theorem reading_eq (p : Production) : p.reading stop ts = p.plan.run stop ts := by
  cases p with
  | read rank => exact reading_read rank
  | chain level left =>
    refine (plain_chain level left ts).trans ?_
    simp only [plan, Plan.run, Plan.run_ite, Plan.run_takeAs, andThen_ok_self, reading]
  | expressionBefore closing =>
    refine (plain_expressionBefore closing ts).trans ?_
    simp only [plan, Plan.run, Plan.run_ite, reading]
  | condition => exact plain_condition ts
  | declarator =>
    refine (plain_declarator ts).trans ?_
    simp only [plan, Plan.run, Plan.run_ite, Plan.run_takeAs, reading]
    rfl
  | declarators =>
    refine (plain_declarators ts).trans ?_
    simp only [plan, Plan.run, Plan.run_ite, reading]
  | declaration =>
    refine (plain_declaration ts).trans ?_
    simp only [plan, Plan.run, andThen_ok_self, reading]
  | names =>
    refine (plain_names ts).trans ?_
    simp only [plan, Plan.run, Plan.run_ite, Plan.run_takeAs, reading]
    rfl
  | parameters =>
    refine (plain_parameters ts).trans ?_
    simp only [plan, Plan.run, Plan.run_ite, andThen_ok_self, reading]
  | loopInit =>
    refine (plain_loopInit ts).trans ?_
    simp only [plan, Plan.run, Plan.run_ite, reading]
  | loopHead => exact plain_loopHead ts
  | functionHead =>
    refine (plain_functionHead ts).trans ?_
    simp only [plan, Plan.run, Plan.run_takeAs, reading]
    rfl
  | simple =>
    refine (plain_simple ts).trans ?_
    simp only [plan, Plan.run, Plan.run_ite, reading]
  | statement => exact reading_statement
  | block =>
    refine (plain_block ts).trans ?_
    simp only [plan, Plan.run, Plan.run_ite, reading]
  | statements closing =>
    refine (plain_statements closing ts).trans ?_
    simp only [plan, Plan.run, Plan.run_ite, reading]

end Production

/-! ## Calls -/

/-- Carrying out a plan on tokens leads to the call of a production on tokens. -/
inductive Plan.Calls {α : Type} (stop : Option LexFault) : Plan α → List Token → Production → List Token → Prop where
  | look {k : Option TokenKind → Plan α} {ts us : List Token} {q : Production} :
      Calls stop (k (kind? ts)) ts q us → Calls stop (.look k) ts q us
  | mark {k : Position → Plan α} {ts us : List Token} {q : Production} :
      Calls stop (k (position ts)) ts q us → Calls stop (.mark k) ts q us
  | take {kind : TokenKind} {k : Token → Plan α} {t : Token} {ts rest us : List Token} {q : Production} :
      plain (expect stop kind ts) = .ok (t, rest) → Calls stop (k t) rest q us → Calls stop (.take kind k) ts q us
  | here {p : Production} {k : p.Value → Plan α} {ts : List Token} : Calls stop (.call p k) ts p ts
  | behind {p : Production} {k : p.Value → Plan α} {a : p.Value} {ts rest us : List Token} {q : Production} :
      p.reading stop ts = .ok (a, rest) → Calls stop (k a) rest q us → Calls stop (.call p k) ts q us

namespace Plan

variable {α β : Type} {stop : Option LexFault} {plan : Plan α} {ts us : List Token} {q : Production}

/-- Behind a token whose text means something the same calls are made. -/
theorem Calls.takeAs {kind : TokenKind} {read : String → Option β} {k : β → Plan α} {b : β} {rest : List Token}
    (htaken : plain (expectAs stop kind read ts) = .ok (b, rest)) (h : (k b).Calls stop rest q us) :
    (takeAs kind read k).Calls stop ts q us := by
  rw [plain_expectAs, andThen_eq_ok] at htaken
  obtain ⟨t, rest', ht, hread⟩ := htaken
  refine .take ht ?_
  cases htext : read t.text with
  | none =>
    rw [htext] at hread
    cases hread
  | some b' =>
    rw [htext] at hread
    cases hread
    exact h

/-- The fault of a call comes up. -/
theorem Calls.run_eq_error {e : ParseFault} (h : plan.Calls stop ts q us) (he : q.reading stop us = .error e) :
    plan.run stop ts = .error e := by
  induction h with
  | look _ ih => exact ih he
  | mark _ ih => exact ih he
  | take htaken _ ih =>
    rw [run, htaken]
    exact ih he
  | here =>
    rw [run, he]
    rfl
  | behind hread _ ih =>
    rw [run, hread]
    exact ih he

end Plan

/-! ## Calls come to an end -/

namespace Production

variable {stop : Option LexFault} {ts rest : List Token}

/-- The productions that take a token at least. -/
def takesToken : Production → Bool
  | chain _ _ | expressionBefore _ | parameters | loopInit => false
  | _ => true

/-- How many calls may follow each other before a token is taken. -/
def height : Production → Nat
  | read rank => 8 - rank.tightness
  | declarators | parameters => 1
  | expressionBefore _ | loopInit | simple => 9
  | statement => 10
  | statements _ => 11
  | _ => 0

/-- No production is higher than the measure allows for. -/
theorem height_lt (p : Production) : p.height < 12 := by
  cases p with
  | read rank => exact Nat.lt_of_le_of_lt (Nat.sub_le _ _) (by decide)
  | _ => simp [height]

/-- A production leaves no more tokens than it is given. -/
theorem length_le {p : Production} {a : p.Value} (h : p.reading stop ts = .ok (a, rest)) : rest.length ≤ ts.length := by
  cases p with
  | read rank => exact Nat.le_of_lt (read_shorter h)
  | chain level left => exact Nat.le_of_lt_succ (plain_shorter h)
  | expressionBefore closing => exact Nat.le_of_lt_succ (plain_shorter h)
  | parameters => exact Nat.le_of_lt_succ (plain_shorter h)
  | loopInit => exact Nat.le_of_lt_succ (plain_shorter h)
  | _ => exact Nat.le_of_lt (plain_shorter h)

/-- A production that takes a token leaves fewer. -/
theorem length_lt {p : Production} {a : p.Value} (hp : p.takesToken = true) (h : p.reading stop ts = .ok (a, rest)) :
    rest.length < ts.length := by
  cases p with
  | read rank => exact read_shorter h
  | chain level left => cases hp
  | expressionBefore closing => cases hp
  | parameters => cases hp
  | loopInit => cases hp
  | _ => exact plain_shorter h

end Production

namespace Plan

variable {α β : Type} {stop : Option LexFault} {plan : Plan α} {ts us : List Token} {q : Production} {n : Nat}

/-- What a plan calls before it takes a token is of less height than `n` and takes one itself. -/
def StartsBelow (n : Nat) : Plan α → Prop
  | done _ | fail _ | take _ _ => True
  | look k => ∀ kind, (k kind).StartsBelow n
  | mark k => ∀ p, (k p).StartsBelow n
  | call p _ => p.height < n ∧ p.takesToken = true

theorem startsBelow_takeAs (kind : TokenKind) (read : String → Option β) (k : β → Plan α) :
    (takeAs kind read k).StartsBelow n := trivial

/-- A literal calls nothing before it takes its token. -/
theorem startsBelow_literal (kind : Option TokenKind) : (literal kind).StartsBelow n := by
  unfold literal
  split <;> exact startsBelow_takeAs _ _ _

theorem startsBelow_ite {P : Prop} [Decidable P] {a b : Plan α} (ha : a.StartsBelow n) (hb : b.StartsBelow n) :
    (if P then a else b).StartsBelow n := by
  split
  · exact ha
  · exact hb

end Plan

namespace Production

open Plan

/-- What a production calls before it takes a token is of less height and takes one. -/
theorem startsBelow (p : Production) : p.plan.StartsBelow p.height := by
  cases p with
  | read rank =>
    cases rank with
    | whole => exact fun _ => ⟨by decide, rfl⟩
    | level level => cases level <;> exact ⟨by decide, rfl⟩
    | signed =>
      intro kind
      dsimp only
      split
      · exact startsBelow_takeAs _ _ _
      · exact ⟨by decide, rfl⟩
    | atom =>
      exact fun _ => startsBelow_ite trivial (startsBelow_ite (startsBelow_literal _) (startsBelow_takeAs _ _ _))
  | chain level left => exact fun _ => startsBelow_ite (startsBelow_takeAs _ _ _) trivial
  | expressionBefore closing => exact fun _ => startsBelow_ite trivial ⟨by simp [height, Rank.tightness], rfl⟩
  | parameters => exact fun _ => startsBelow_ite trivial ⟨by decide, rfl⟩
  | declarators => exact ⟨by decide, rfl⟩
  | loopInit =>
    exact fun _ => startsBelow_ite trivial (startsBelow_ite ⟨by decide, rfl⟩ ⟨by decide, rfl⟩)
  | simple =>
    refine fun _ => startsBelow_ite trivial (startsBelow_ite ?_ (startsBelow_ite trivial ?_)) <;> exact ⟨by decide, rfl⟩
  | statement =>
    refine fun _ => startsBelow_ite ?_ (startsBelow_ite trivial (startsBelow_ite trivial (startsBelow_ite trivial
      (startsBelow_ite ?_ (startsBelow_ite ?_ ?_))))) <;> exact ⟨by decide, rfl⟩
  | statements closing => exact ⟨by simp [height], rfl⟩
  | _ => trivial

end Production

namespace Plan

variable {α β : Type} {stop : Option LexFault} {plan : Plan α} {ts us : List Token} {q : Production} {n : Nat}

/-- No call is made on more tokens. -/
theorem Calls.length_le (h : plan.Calls stop ts q us) : us.length ≤ ts.length := by
  induction h with
  | look _ ih => exact ih
  | mark _ ih => exact ih
  | take htaken _ ih => exact Nat.le_trans ih (Nat.le_of_lt (plain_shorter htaken))
  | here => exact Nat.le_refl _
  | behind hread _ ih => exact Nat.le_trans ih (Production.length_le hread)

/-- A call is made on fewer tokens, or before a token is taken. -/
theorem Calls.descends (h : plan.Calls stop ts q us) (hplan : plan.StartsBelow n) :
    us.length < ts.length ∨ us = ts ∧ q.height < n := by
  induction h with
  | look _ ih => exact ih (hplan _)
  | mark _ ih => exact ih (hplan _)
  | take htaken hcalls _ => exact .inl (Nat.lt_of_le_of_lt hcalls.length_le (plain_shorter htaken))
  | here => exact .inr ⟨rfl, hplan.1⟩
  | behind hread hcalls _ => exact .inl (Nat.lt_of_le_of_lt hcalls.length_le (Production.length_lt hplan.2 hread))

end Plan

namespace Production

variable {stop : Option LexFault} {ts us rest : List Token}

/-- Induction over calls: a fact holds of a production on a list of tokens when it follows from the calls it makes. -/
theorem induction (stop : Option LexFault) {motive : Production → List Token → Prop}
    (step : ∀ p ts, (∀ q us, p.plan.Calls stop ts q us → motive q us) → motive p ts) (p : Production) (ts : List Token) :
    motive p ts := by
  induction hn : 12 * ts.length + p.height using Nat.strongRecOn generalizing p ts with
  | _ n ih =>
    refine step p ts fun q us hcalls => ih _ ?_ q us rfl
    have hheight := q.height_lt
    rcases hcalls.descends p.startsBelow with hlt | ⟨rfl, hlt⟩ <;> omega

end Production

/-! ## Calls on what is left -/

/-- What a plan leaves stands at the end of its tokens, if that is so of what it calls. -/
theorem Plan.run_suffix {α : Type} {stop : Option LexFault} {plan : Plan α} {ts rest : List Token} {a : α}
    (hcalls : ∀ q us, plan.Calls stop ts q us → ∀ b rest, q.reading stop us = .ok (b, rest) → rest <:+ us)
    (h : plan.run stop ts = .ok (a, rest)) : rest <:+ ts := by
  induction plan generalizing ts with
  | done b =>
    cases h
    exact List.suffix_rfl
  | fail e => cases h
  | look k ih => exact ih _ (fun q us hq => hcalls q us (.look hq)) h
  | mark k ih => exact ih _ (fun q us hq => hcalls q us (.mark hq)) h
  | take kind k ih =>
    rw [run, andThen_eq_ok] at h
    obtain ⟨t, rest', ht, h⟩ := h
    have hrest := ih t (fun q us hq => hcalls q us (.take ht hq)) h
    obtain ⟨rfl, -, -⟩ := expect_sound ht
    exact hrest.trans (List.suffix_cons _ _)
  | call p k ih =>
    rw [run, andThen_eq_ok] at h
    obtain ⟨b, rest', hb, h⟩ := h
    exact (ih b (fun q us hq => hcalls q us (.behind hb hq)) h).trans (hcalls p ts .here b rest' hb)

/-- What a production leaves stands at the end of its tokens. -/
theorem Production.suffix_of_reading {stop : Option LexFault} (p : Production) (ts : List Token) :
    ∀ (a : p.Value) (rest : List Token), p.reading stop ts = .ok (a, rest) → rest <:+ ts := by
  induction p, ts using Production.induction stop with
  | step p ts ih =>
    intro a rest h
    rw [p.reading_eq] at h
    exact Plan.run_suffix ih h

/-- Calls are made on what is left. -/
theorem Plan.Calls.suffix {α : Type} {stop : Option LexFault} {plan : Plan α} {ts us : List Token} {q : Production}
    (h : plan.Calls stop ts q us) : us <:+ ts := by
  induction h with
  | look _ ih => exact ih
  | mark _ ih => exact ih
  | take htaken _ ih =>
    obtain ⟨rfl, -, -⟩ := expect_sound htaken
    exact ih.trans (List.suffix_cons _ _)
  | here => exact List.suffix_rfl
  | behind hread _ ih => exact ih.trans (Production.suffix_of_reading _ _ _ _ hread)

/-! ## Chains of calls -/

/-- One production on tokens calls another one on tokens. -/
def Production.Calls (stop : Option LexFault) (x y : Production × List Token) : Prop := x.1.plan.Calls stop x.2 y.1 y.2

/-- One production on tokens leads to another one by calls. -/
abbrev Production.Reaches (stop : Option LexFault) : Production × List Token → Production × List Token → Prop :=
  Relation.ReflTransGen (Production.Calls stop)

namespace Production

variable {stop : Option LexFault} {x y : Production × List Token}

/-- The fault of what is reached comes up. -/
theorem Reaches.reading_eq_error {e : ParseFault} (h : Reaches stop x y) (he : y.1.reading stop y.2 = .error e) :
    x.1.reading stop x.2 = .error e := by
  induction h with
  | refl => exact he
  | tail _ hcalls ih =>
    refine ih ?_
    rw [reading_eq]
    exact hcalls.run_eq_error he

/-- What is reached stands at the end of the tokens. -/
theorem Reaches.suffix (h : Reaches stop x y) : y.2 <:+ x.2 := by
  induction h with
  | refl => exact List.suffix_rfl
  | tail _ hcalls ih => exact hcalls.suffix.trans ih

end Production

end Parse

end Scriptlet
