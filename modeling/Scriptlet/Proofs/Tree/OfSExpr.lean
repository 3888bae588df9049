import Scriptlet.Proofs.Tree.Leaves
import Scriptlet.Proofs.Tree.OfJson

/-!
# Trees out of S-expressions

Reads a normal tree back from an S-expression. Atoms and first items tell the sorts of nodes apart, so an S-expression shows
exactly the normal form of a well-formed tree: two programs that were read have the same S-expression exactly if their normal
forms are the same.
-/

namespace Scriptlet

/-! ## Reading expressions back -/

/-- The text that is an atom. -/
def SExpr.atom? : SExpr → Option String
  | atom s => some s
  | _ => none

/-- The assignment operator of a first item. -/
def AssignOp.ofHead? (s : String) : Option AssignOp := all.find? fun op => op.head = s

/-- The literal or name that is an atom. -/
def Expr.ofAtom : String → Expr
  | "true" => bool true
  | "false" => bool false
  | "null" => null
  | s => name s

/-- What an operator makes of two expressions. -/
def Expr.operation? (op : String) : Option (Expr → Expr → Expr) :=
  ((BinaryOp.ofText? op).map binary).or ((LogicalOp.ofText? op).map logical)

/-- The expression that is an S-expression. -/
def Expr.ofSExpr? : SExpr → Option Expr
  | .atom s => some (ofAtom s)
  | .number x => some (number x)
  | .text s => some (text s)
  | .list [.atom op, a] => do
    let op ← UnaryOp.ofText? op
    let a ← ofSExpr? a
    some (unary op a)
  | .list [.atom op, a, b] =>
    match AssignOp.ofHead? op with
    | some op => do
      let target ← a.atom?
      let value ← ofSExpr? b
      some (assign op target value)
    | none => do
      let operation ← operation? op
      let a ← ofSExpr? a
      let b ← ofSExpr? b
      some (operation a b)
  | _ => none

/-- An assignment operator is found by its first item. -/
theorem AssignOp.ofHead?_head (op : AssignOp) : ofHead? op.head = some op := by cases op <;> decide

/-- No binary operator is taken for an assignment. -/
theorem AssignOp.ofHead?_binary (op : BinaryOp) : ofHead? op.text = none := by cases op <;> decide

/-- No logical operator is taken for an assignment. -/
theorem AssignOp.ofHead?_logical (op : LogicalOp) : ofHead? op.text = none := by cases op <;> decide

/-- A binary operator makes a binary expression. -/
theorem Expr.operation?_binary (op : BinaryOp) : operation? op.text = some (binary op) := by
  rw [operation?, BinaryOp.ofText?_text, Option.map_some, Option.some_or]

/-- A logical operator makes a logical expression: it is no binary operator. -/
theorem Expr.operation?_logical (op : LogicalOp) : operation? op.text = some (logical op) := by
  have hbinary : BinaryOp.ofText? op.text = none := by cases op <;> decide
  rw [operation?, hbinary, LogicalOp.ofText?_text, Option.map_none, Option.none_or, Option.map_some]

/-- A name is not one of the words that stand for values. -/
theorem Expr.ofAtom_of_isName {s : String} (h : Text.IsName s) : ofAtom s = name s := by
  have hword : ∀ word, Keyword.ofText? word ≠ none → s ≠ word := by
    rintro word hword rfl
    exact hword h.2
  have htrue := hword "true" (by decide)
  have hfalse := hword "false" (by decide)
  have hnull := hword "null" (by decide)
  unfold ofAtom
  split
  · exact absurd rfl htrue
  · exact absurd rfl hfalse
  · exact absurd rfl hnull
  · rfl

/-- A well-formed expression is read back from its S-expression. -/
theorem Expr.ofSExpr?_toSExpr {e : Expr} (h : e.WellFormed) : ofSExpr? e.toSExpr = some e := by
  induction e with
  | name s => rw [toSExpr, ofSExpr?, ofAtom_of_isName h]
  | number x => rfl
  | text s => rfl
  | bool b => cases b <;> rfl
  | null => rfl
  | unary op a ih => simp [toSExpr, SExpr.form, ofSExpr?, UnaryOp.ofText?_text, ih h]
  | binary op a b iha ihb =>
    simp [toSExpr, SExpr.form, ofSExpr?, AssignOp.ofHead?_binary, operation?_binary, iha h.1, ihb h.2]
  | logical op a b iha ihb =>
    simp [toSExpr, SExpr.form, ofSExpr?, AssignOp.ofHead?_logical, operation?_logical, iha h.1, ihb h.2]
  | assign op s a ih => simp [toSExpr, SExpr.form, ofSExpr?, AssignOp.ofHead?_head, SExpr.atom?, ih h.2]

/-- So is one that may be absent, as `null` where it is. -/
theorem Expr.ofSExpr?_optionToSExpr {o : Option Expr} (h : ∀ e ∈ o, e.WellFormed) :
    ofSExpr? (optionToSExpr o) = some (o.getD .null) := by
  cases o with
  | none => rfl
  | some e => exact ofSExpr?_toSExpr (h e rfl)

/-- Whether a first item is that of an expression. -/
def Expr.isHead (head : String) : Bool :=
  (UnaryOp.ofText? head).isSome || (AssignOp.ofHead? head).isSome || (operation? head).isSome

/-- A list with another first item is no expression. -/
theorem Expr.ofSExpr?_form {head : String} (h : isHead head = false) (items : List SExpr) :
    ofSExpr? (.form head items) = none := by
  simp only [isHead, Bool.or_eq_false_iff, Option.isSome_eq_false_iff, Option.isNone_iff_eq_none] at h
  obtain ⟨⟨hunary, hassign⟩, hoperation⟩ := h
  rcases items with _ | ⟨a, _ | ⟨b, _ | ⟨c, items⟩⟩⟩
  · rfl
  · simp [SExpr.form, ofSExpr?, hunary]
  · simp [SExpr.form, ofSExpr?, hassign, hoperation]
  · rfl

/-! ## Reading statements back -/

/-- The declared name that is an S-expression. -/
def Declarator.ofSExpr? : SExpr → Option Declarator
  | .list [.atom "var", .atom name, value] => (Expr.ofSExpr? value).map fun e => ⟨name, some e⟩
  | _ => none

/-- The declaration that is an S-expression. -/
def Declarator.listOfSExpr? : SExpr → Option (List Declarator)
  | .list (.atom "begin" :: items) => items.mapM ofSExpr?
  | s => (ofSExpr? s).map fun d => [d]

/-- The opening of a counting loop that is an S-expression. -/
def ForInit.ofSExpr? (s : SExpr) : Option ForInit :=
  ((Expr.ofSExpr? s).map eval).or ((Declarator.listOfSExpr? s).map declare)

mutual

/-- The statement that is an S-expression. -/
def Stmt.ofSExpr? (s : SExpr) : Option Stmt :=
  match Expr.ofSExpr? s with
  | some e => some (.eval e)
  | none =>
    match s with
    | .list (.atom "begin" :: items) => (Stmt.listOfSExpr? items).map .block
    | .list (.atom "var" :: _) => (Declarator.ofSExpr? s).map fun d => .declare [d]
    | .list [.atom "if", test, body] => do
      let test ← Expr.ofSExpr? test
      let body ← Stmt.ofSExpr? body
      some (.ifThen test body)
    | .list [.atom "if", test, body, other] => do
      let test ← Expr.ofSExpr? test
      let body ← Stmt.ofSExpr? body
      let other ← Stmt.ofSExpr? other
      some (.ifElse test body other)
    | .list [.atom "while", test, body] => do
      let test ← Expr.ofSExpr? test
      let body ← Stmt.ofSExpr? body
      some (.whileLoop test body)
    | .list [.atom "do-while", body, test] => do
      let body ← Stmt.ofSExpr? body
      let test ← Expr.ofSExpr? test
      some (.doWhile body test)
    | .list [.atom "for", init, test, update, body] => do
      let init ← ForInit.ofSExpr? init
      let test ← Expr.ofSExpr? test
      let update ← Expr.ofSExpr? update
      let body ← Stmt.ofSExpr? body
      some (.forLoop (some init) (some test) (some update) body)
    | .list [.atom "def", .atom name, .list params, body] => do
      let params ← params.mapM SExpr.atom?
      -- The body of a function is written as a block.
      let body ← Stmt.ofSExpr? body
      Stmt.functionOf? name params body
    | .list [.atom "return"] => some (.result none)
    | .list [.atom "return", value] => (Expr.ofSExpr? value).map fun e => .result (some e)
    | _ => none

/-- The statements that are S-expressions. -/
def Stmt.listOfSExpr? : List SExpr → Option (List Stmt)
  | [] => some []
  | item :: items => do
    let s ← Stmt.ofSExpr? item
    let ss ← Stmt.listOfSExpr? items
    some (s :: ss)

end

/-- A well-formed declarator is read back as its normal form. -/
theorem Declarator.ofSExpr?_toSExpr {d : Declarator} (h : d.WellFormed) : ofSExpr? d.toSExpr = some d.norm := by
  simp [toSExpr, SExpr.form, ofSExpr?, Expr.ofSExpr?_optionToSExpr h.2, norm]

theorem Declarator.listOfSExpr?_toSExpr {d : Declarator} (h : d.WellFormed) : listOfSExpr? d.toSExpr = some [d.norm] := by
  have hlist : listOfSExpr? d.toSExpr = (ofSExpr? d.toSExpr).map fun d => [d] := rfl
  rw [hlist, ofSExpr?_toSExpr h, Option.map_some]

/-- A declaration is read back as the normal forms of its declarators. -/
theorem Declarator.listOfSExpr?_listToSExpr {ds : List Declarator} (h : Declaration.WellFormed ds) :
    listOfSExpr? (listToSExpr ds) = some (ds.map norm) := by
  rcases ds with _ | ⟨d, _ | ⟨d', ds⟩⟩
  · exact absurd rfl h.1
  · exact listOfSExpr?_toSExpr (h.2 d List.mem_cons_self)
  · exact mapM_map_eq_some fun d hd => ofSExpr?_toSExpr (h.2 d hd)

/-- No declaration is an expression. -/
theorem Expr.ofSExpr?_listToSExpr (ds : List Declarator) : ofSExpr? (Declarator.listToSExpr ds) = none := by
  unfold Declarator.listToSExpr
  split
  · exact ofSExpr?_form (by decide) _
  · exact ofSExpr?_form (by decide) _

/-- The opening of a counting loop is read back as its normal form, as `null` where it is absent. -/
theorem ForInit.ofSExpr?_optionToSExpr {o : Option ForInit} (h : ∀ i ∈ o, i.WellFormed) :
    ofSExpr? (optionToSExpr o) = some ((o.map norm).getD (.eval .null)) := by
  rcases o with _ | ds | e
  · rfl
  · have hds := Declarator.listOfSExpr?_listToSExpr (h _ rfl)
    simp [optionToSExpr, ofSExpr?, Expr.ofSExpr?_listToSExpr, hds, norm]
  · simp [optionToSExpr, ofSExpr?, Expr.ofSExpr?_toSExpr (h _ rfl), norm]

/-- A declarator where a statement stands is read as a declaration of one name. -/
theorem Stmt.ofSExpr?_declarator {d : Declarator} (h : d.WellFormed) :
    Stmt.ofSExpr? d.toSExpr = some (.declare [d.norm]) := by
  have hform : Stmt.ofSExpr? d.toSExpr = (Declarator.ofSExpr? d.toSExpr).map fun d => .declare [d] := by
    have hnone : Expr.ofSExpr? d.toSExpr = none := Expr.ofSExpr?_form (by decide) _
    rw [Stmt.ofSExpr?.eq_def, hnone]
    rfl
  rw [hform, Declarator.ofSExpr?_toSExpr h, Option.map_some]

/-- Declarators where statements stand are read as declarations of one name each. -/
theorem Stmt.listOfSExpr?_declarators {ds : List Declarator} (h : ∀ d ∈ ds, d.WellFormed) :
    Stmt.listOfSExpr? (ds.map Declarator.toSExpr) = some (ds.map fun d => .declare [d.norm]) := by
  induction ds with
  | nil => rfl
  | cons d ds ih =>
    rw [List.forall_mem_cons] at h
    simp [Stmt.listOfSExpr?, Stmt.ofSExpr?_declarator h.1, ih h.2]

/-- The items behind `begin` are the statements of a block. -/
theorem Stmt.ofSExpr?_begin (items : List SExpr) :
    Stmt.ofSExpr? (.form "begin" items) = (Stmt.listOfSExpr? items).map .block := by
  rw [Stmt.ofSExpr?.eq_def, Expr.ofSExpr?_form (by decide)]
  rfl

mutual

/-- A well-formed statement is read back from its S-expression in normal form. -/
theorem Stmt.ofSExpr?_toSExpr (s : Stmt) (h : s.WellFormed) : Stmt.ofSExpr? s.toSExpr = some s.norm := by
  cases s with
  | empty => rfl
  | block body => rw [Stmt.toSExpr, Stmt.ofSExpr?_begin, Stmt.listOfSExpr?_listToSExpr body h, Stmt.norm, Option.map_some]
  | eval e => rw [Stmt.toSExpr, Stmt.ofSExpr?.eq_def, Expr.ofSExpr?_toSExpr h, Stmt.norm]
  | declare ds =>
    rw [Stmt.toSExpr, Stmt.norm]
    rcases ds with _ | ⟨d, _ | ⟨d', ds⟩⟩
    · exact absurd rfl h.1
    · exact Stmt.ofSExpr?_declarator (h.2 d List.mem_cons_self)
    · rw [Declarator.listToSExpr_of_two_le (by simp), Stmt.ofSExpr?_begin, Stmt.listOfSExpr?_declarators h.2]
      simp
  | ifThen test body =>
    rw [Stmt.toSExpr, Stmt.ofSExpr?.eq_def, Expr.ofSExpr?_form (by decide)]
    simp [SExpr.form, Expr.ofSExpr?_toSExpr h.1, Stmt.ofSExpr?_toSExpr body h.2, Stmt.norm]
  | ifElse test body other =>
    rw [Stmt.toSExpr, Stmt.ofSExpr?.eq_def, Expr.ofSExpr?_form (by decide)]
    simp [SExpr.form, Expr.ofSExpr?_toSExpr h.1, Stmt.ofSExpr?_toSExpr body h.2.1, Stmt.ofSExpr?_toSExpr other h.2.2.1,
      Stmt.norm]
  | whileLoop test body =>
    rw [Stmt.toSExpr, Stmt.ofSExpr?.eq_def, Expr.ofSExpr?_form (by decide)]
    simp [SExpr.form, Expr.ofSExpr?_toSExpr h.1, Stmt.ofSExpr?_toSExpr body h.2, Stmt.norm]
  | doWhile body test =>
    rw [Stmt.toSExpr, Stmt.ofSExpr?.eq_def, Expr.ofSExpr?_form (by decide)]
    simp [SExpr.form, Expr.ofSExpr?_toSExpr h.2, Stmt.ofSExpr?_toSExpr body h.1, Stmt.norm]
  | forLoop init test update body =>
    rw [Stmt.toSExpr, Stmt.ofSExpr?.eq_def, Expr.ofSExpr?_form (by decide)]
    simp [SExpr.form, ForInit.ofSExpr?_optionToSExpr h.1, Expr.ofSExpr?_optionToSExpr h.2.1,
      Expr.ofSExpr?_optionToSExpr h.2.2.1, Stmt.ofSExpr?_toSExpr body h.2.2.2, Stmt.norm]
  | function name params body =>
    have hparams : (params.map SExpr.atom).mapM SExpr.atom? = some (params.map id) := mapM_map_eq_some fun _ _ => rfl
    have hbody : Stmt.ofSExpr? (.list (.atom "begin" :: Stmt.listToSExpr body)) = some (.block (Stmt.normAll body)) := by
      have hbegin := Stmt.ofSExpr?_begin (Stmt.listToSExpr body)
      rwa [Stmt.listOfSExpr?_listToSExpr body h.2.2, Option.map_some] at hbegin
    rw [Stmt.toSExpr, Stmt.ofSExpr?.eq_def, Expr.ofSExpr?_form (by decide)]
    simp [SExpr.form, hparams, hbody, Stmt.functionOf?, Stmt.norm]
  | result value =>
    cases value with
    | none => rfl
    | some e =>
      rw [Stmt.toSExpr, Stmt.ofSExpr?.eq_def, Expr.ofSExpr?_form (by decide)]
      simp [SExpr.form, Expr.ofSExpr?_toSExpr (h e rfl), Stmt.norm]

/-- Well-formed statements one after the other are read back as their normal forms. -/
theorem Stmt.listOfSExpr?_listToSExpr (ss : List Stmt) (h : Stmt.WellFormedAll ss) :
    Stmt.listOfSExpr? (Stmt.listToSExpr ss) = some (Stmt.normAll ss) := by
  cases ss with
  | nil => rfl
  | cons s ss =>
    by_cases hempty : s = .empty
    · rw [hempty, Stmt.listToSExpr, Stmt.normAll, Stmt.listOfSExpr?_listToSExpr ss h.2]
    · rw [Stmt.listToSExpr_cons hempty, Stmt.normAll_cons hempty]
      simp [Stmt.listOfSExpr?, Stmt.ofSExpr?_toSExpr s h.1, Stmt.listOfSExpr?_listToSExpr ss h.2]

end

/-- The S-expression of a well-formed program shows its normal form, and nothing else. -/
theorem Program.toSExpr_eq_iff {p q : Program} (hp : p.WellFormed) (hq : q.WellFormed) :
    p.toSExpr = q.toSExpr ↔ p.norm = q.norm := by
  constructor
  · intro h
    have hread : ∀ {p : Program}, p.WellFormed → Stmt.ofSExpr? p.toSExpr = some (.block p.norm.body) :=
      fun hp => Stmt.ofSExpr?_toSExpr (.block _) hp.2
    have hbody := hread hp
    rw [h, hread hq, Option.some.injEq, Stmt.block.injEq] at hbody
    exact congrArg Program.mk hbody.symm
  · intro h
    rw [← p.toSExpr_norm, h, q.toSExpr_norm]

/-! ## Numbers in S-expressions -/

mutual

/-- The numbers of an S-expression are numbers without a sign. -/
def SExpr.Plain : SExpr → Prop
  | .atom _ => True
  | .number x => x.isNaN = false ∧ x.negative = false
  | .text _ => True
  | .list items => SExpr.PlainAll items

/-- The numbers of every item are numbers without a sign. -/
def SExpr.PlainAll : List SExpr → Prop
  | [] => True
  | item :: items => item.Plain ∧ SExpr.PlainAll items

end

/-- Without signs the same doubles are equal ones. -/
theorem Double.same_iff_eq {x y : Double} (hx : x.isNaN = false ∧ x.negative = false)
    (hy : y.isNaN = false ∧ y.negative = false) : x.same y = true ↔ x = y := by
  constructor
  · intro h
    have hmagnitude : x.unsigned.magnitude = y.unsigned.magnitude := congrArg magnitude (unsigned_eq_of_same h)
    exact eq_of_magnitude (hx.2.trans hy.2.symm) hmagnitude
  · rintro rfl
    simp [same, hx.1]

mutual

/-- S-expressions without signs are the same only if they are equal. -/
theorem SExpr.same_iff_eq (s t : SExpr) (hs : s.Plain) (ht : t.Plain) : s.same t = true ↔ s = t := by
  cases s with
  | atom a => cases t <;> simp [SExpr.same]
  | number x =>
    cases t with
    | number y => rw [SExpr.same, Double.same_iff_eq hs ht, SExpr.number.injEq]
    | _ => simp [SExpr.same]
  | text a => cases t <;> simp [SExpr.same]
  | list ss =>
    cases t with
    | list ts => rw [SExpr.same, SExpr.sameItems_iff_eq ss ts hs ht, SExpr.list.injEq]
    | _ => simp [SExpr.same]

/-- Lists of plain S-expressions are the same only if they are equal. -/
theorem SExpr.sameItems_iff_eq (ss ts : List SExpr) (hss : SExpr.PlainAll ss) (hts : SExpr.PlainAll ts) :
    SExpr.sameItems ss ts = true ↔ ss = ts := by
  cases ss with
  | nil => cases ts <;> simp [SExpr.sameItems]
  | cons s ss =>
    cases ts with
    | nil => simp [SExpr.sameItems]
    | cons t ts =>
      rw [SExpr.sameItems, Bool.and_eq_true, SExpr.same_iff_eq s t hss.1 hts.1, SExpr.sameItems_iff_eq ss ts hss.2 hts.2,
        List.cons.injEq]

end

mutual

/-- An S-expression is plain if all of its atoms are. -/
theorem SExpr.plain_of_every (s : SExpr) (h : s.Every SExpr.Plain) : s.Plain := by
  cases s with
  | list items => exact SExpr.plainAll_of_every items h
  | _ => exact h

/-- A list is plain if all atoms in it are. -/
theorem SExpr.plainAll_of_every (ss : List SExpr) (h : SExpr.EveryItem SExpr.Plain ss) : SExpr.PlainAll ss := by
  cases ss with
  | nil => trivial
  | cons s ss => exact ⟨s.plain_of_every h.1, SExpr.plainAll_of_every ss h.2⟩

end

/-- The numbers of a program that was read have no sign in its S-expression. -/
theorem Program.plain_toSExpr_of_parse {source : String} {p : Program} (h : parse source = .ok p) : p.toSExpr.Plain := by
  refine SExpr.plain_of_every _ (every_toSExpr_of_parse (fun _ _ => trivial) h fun l _ => ?_)
  cases l with
  | number x =>
    intro hwhole
    have hsame := Double.unsigned_same hwhole
    simp only [Double.same, Bool.and_eq_true, Bool.not_eq_true'] at hsame
    exact ⟨hsame.1.1, rfl⟩
  | _ => trivial

/-! ## What an S-expression shows -/

/-- Programs that were read have the same S-expression exactly if they have the same normal form, whether numbers are
compared as numbers or as they are represented. -/
theorem Program.sexpr_eq_iff_norm_eq {source source' : String} {p q : Program} (hp : parse source = .ok p)
    (hq : parse source' = .ok q) :
    ((p.toSExpr == q.toSExpr) = true ↔ (p.norm == q.norm) = true) ∧ (p.toSExpr = q.toSExpr ↔ p.norm = q.norm) := by
  have hequal := toSExpr_eq_iff (wellFormed_of_parse hp) (wellFormed_of_parse hq)
  have hsame : (p.toSExpr == q.toSExpr) = true ↔ p.toSExpr = q.toSExpr :=
    SExpr.same_iff_eq _ _ (plain_toSExpr_of_parse hp) (plain_toSExpr_of_parse hq)
  exact ⟨by rw [hsame, hequal, norm_same_iff_eq hp hq], hequal⟩

/-- Several declarators, empty statements and absent parts do not show in an S-expression. -/
theorem Program.sexpr_eq_iff_norm_eq_absent_parts : ∃ p q : Program, parse "let a, b; for (;;);" = .ok p ∧
    parse "{ let a = null;; let b; } for (null;;) {}" = .ok q ∧ p ≠ q ∧ p.toSExpr = q.toSExpr ∧
    (p.toSExpr == q.toSExpr) = true := by
  have hp : parse "let a, b; for (;;);" =
      .ok ⟨[.declare [⟨"a", none⟩, ⟨"b", none⟩], .forLoop none none none .empty]⟩ := by with_unfolding_all rfl
  have hq : parse "{ let a = null;; let b; } for (null;;) {}" =
      .ok ⟨[.block [.declare [⟨"a", some .null⟩], .empty, .declare [⟨"b", none⟩]],
        .forLoop (some (.eval .null)) none none (.block [])]⟩ := by with_unfolding_all rfl
  obtain ⟨hsame, hequal⟩ := sexpr_eq_iff_norm_eq hp hq
  exact ⟨_, _, hp, hq, by simp, hequal.mpr rfl, hsame.mpr rfl⟩

end Scriptlet
