import Scriptlet.Proofs.Tree.Normal

/-!
# The leaves of an S-expression

The S-expression of a program is made of lists, of symbols (names, operators and the words that tell the forms apart) and of
the numbers and texts of the program. What holds of all symbols and of these literals holds of every leaf.
-/

namespace Scriptlet

/-! ## Symbols -/

/-- The characters that separate the parts of an S-expression. -/
def Text.isMark (c : Char) : Bool := c = ' ' || c = '(' || c = ')' || c = '"'

/-- A text of characters that separate nothing, of which the first is no digit. -/
def Text.isSymbol (s : String) : Bool := s.toList.head?.any (!isDigit ·) && s.toList.all (!isMark ·)

/-- No word character is a mark. -/
theorem Text.isMark_of_isWord {c : Char} (h : isWord c = true) : isMark c = false := by
  have hne : ∀ d : Char, isWord d = false → c ≠ d := fun d => ne_of_class h
  simp [isMark, hne ' ' (by decide), hne '(' (by decide), hne ')' (by decide), hne '"' (by decide)]

/-- A name is a symbol. -/
theorem Text.IsName.isSymbol {s : String} (h : IsName s) : isSymbol s = true := by
  obtain ⟨⟨c, cs, hcs, hdigit, hword⟩, -⟩ := h
  have hall : s.toList.all (!isMark ·) = true := by
    rw [hcs, List.all_eq_true]
    intro d hd
    rw [isMark_of_isWord (hword d hd)]
    rfl
  rw [Text.isSymbol, hall, hcs, List.head?_cons, Option.any_some, hdigit]
  rfl

/-! ## Literals -/

/-- The numbers and texts that stand in an expression. -/
def Expr.literals : Expr → List Expr
  | number x => [number x]
  | text s => [text s]
  | unary _ a => a.literals
  | binary _ a b | logical _ a b => a.literals ++ b.literals
  | assign _ _ a => a.literals
  | name _ | bool _ | null => []

/-- The literals of an expression that may be absent. -/
def Expr.optionLiterals (o : Option Expr) : List Expr := o.elim [] literals

/-- The literals of a loop opening. -/
def ForInit.literals : ForInit → List Expr
  | declare ds => ds.flatMap fun d => Expr.optionLiterals d.init
  | eval e => e.literals

mutual

/-- The literals of a statement. -/
def Stmt.literals : Stmt → List Expr
  | .empty => []
  | .block body => Stmt.literalsAll body
  | .eval e => e.literals
  | .declare ds => ds.flatMap fun d => Expr.optionLiterals d.init
  | .ifThen test body => test.literals ++ body.literals
  | .ifElse test body other => test.literals ++ (body.literals ++ other.literals)
  | .whileLoop test body => test.literals ++ body.literals
  | .doWhile body test => body.literals ++ test.literals
  | .forLoop init test update body =>
    init.elim [] ForInit.literals ++ (Expr.optionLiterals test ++ (Expr.optionLiterals update ++ body.literals))
  | .function _ _ body => Stmt.literalsAll body
  | .result value => Expr.optionLiterals value

/-- The literals of the statements of a list. -/
def Stmt.literalsAll : List Stmt → List Expr
  | [] => []
  | s :: ss => s.literals ++ Stmt.literalsAll ss

end

/-- The literals of a program. -/
def Program.literals (p : Program) : List Expr := Stmt.literalsAll p.body

/-! ## Leaves -/

mutual

/-- A predicate holds of everything in an S-expression that is no list. -/
def SExpr.Every (P : SExpr → Prop) : SExpr → Prop
  | .atom s => P (.atom s)
  | .number x => P (.number x)
  | .text s => P (.text s)
  | .list items => SExpr.EveryItem P items

/-- A predicate holds of everything in a list of S-expressions that is no list. -/
def SExpr.EveryItem (P : SExpr → Prop) : List SExpr → Prop
  | [] => True
  | item :: items => item.Every P ∧ SExpr.EveryItem P items

end

theorem SExpr.everyItem_map {α : Type} {P : SExpr → Prop} {f : α → SExpr} {as : List α} (h : ∀ a ∈ as, (f a).Every P) :
    SExpr.EveryItem P (as.map f) := by
  induction as with
  | nil => trivial
  | cons a as ih =>
    rw [List.forall_mem_cons] at h
    exact ⟨h.1, ih h.2⟩

/-- A predicate holds of all symbols. -/
def SExpr.OfSymbols (P : SExpr → Prop) : Prop := ∀ s, Text.isSymbol s = true → P (.atom s)

/-- A predicate holds of a literal without its sign, at least if it is one that can be read. -/
def Expr.LiteralHas (P : SExpr → Prop) : Expr → Prop
  | number x => x.IsWhole → P (.number x.unsigned)
  | text s => P (.text s)
  | _ => True

variable {P : SExpr → Prop}

/-- What holds of all symbols and of its literals holds of every atom of an expression. -/
theorem Expr.every_toSExpr (hP : SExpr.OfSymbols P) {e : Expr} (h : e.WellFormed) (hl : ∀ l ∈ e.literals, l.LiteralHas P) :
    e.unsigned.toSExpr.Every P := by
  induction e with
  | name s => exact hP s h.isSymbol
  | number x => exact hl _ List.mem_cons_self h
  | text s => exact hl _ List.mem_cons_self
  | bool b => cases b <;> exact hP _ (by decide)
  | null => exact hP _ (by decide)
  | unary op a ih => exact ⟨hP _ (by cases op <;> decide), ih h hl, trivial⟩
  | binary op a b iha ihb =>
    rw [literals, List.forall_mem_append] at hl
    exact ⟨hP _ (by cases op <;> decide), iha h.1 hl.1, ihb h.2 hl.2, trivial⟩
  | logical op a b iha ihb =>
    rw [literals, List.forall_mem_append] at hl
    exact ⟨hP _ (by cases op <;> decide), iha h.1 hl.1, ihb h.2 hl.2, trivial⟩
  | assign op s a ih => exact ⟨hP _ (by cases op <;> decide), hP s h.1.isSymbol, ih h.2 hl, trivial⟩

theorem Expr.every_optionToSExpr (hP : SExpr.OfSymbols P) {o : Option Expr} (h : ∀ e ∈ o, e.WellFormed)
    (hl : ∀ l ∈ optionLiterals o, l.LiteralHas P) : (optionToSExpr (o.map unsigned)).Every P := by
  cases o with
  | none => exact hP _ (by decide)
  | some e => exact every_toSExpr hP (h e rfl) hl

/-- The same of a declaration. -/
theorem Declarator.every_listToSExpr (hP : SExpr.OfSymbols P) {ds : List Declarator} (h : Declaration.WellFormed ds)
    (hl : ∀ l ∈ ds.flatMap fun d => Expr.optionLiterals d.init, l.LiteralHas P) :
    (listToSExpr (ds.map unsigned)).Every P := by
  have hone : ∀ d ∈ ds, d.unsigned.toSExpr.Every P := fun d hd =>
    ⟨hP _ (by decide), hP _ (h.2 d hd).1.isSymbol,
      Expr.every_optionToSExpr hP (h.2 d hd).2 fun l hmem => hl l (List.mem_flatMap.mpr ⟨d, hd, hmem⟩), trivial⟩
  have hall : SExpr.EveryItem P ((ds.map unsigned).map toSExpr) := by
    rw [List.map_map]
    exact SExpr.everyItem_map hone
  rcases ds with _ | ⟨d, _ | ⟨d', ds⟩⟩
  · exact absurd rfl h.1
  · exact hone d List.mem_cons_self
  · exact ⟨hP _ (by decide), hall⟩

theorem ForInit.every_optionToSExpr (hP : SExpr.OfSymbols P) {o : Option ForInit} (h : ∀ i ∈ o, i.WellFormed)
    (hl : ∀ l ∈ o.elim [] literals, l.LiteralHas P) : (optionToSExpr (o.map unsigned)).Every P := by
  rcases o with _ | ds | e
  · exact hP _ (by decide)
  · exact Declarator.every_listToSExpr hP (h _ rfl) hl
  · exact Expr.every_toSExpr hP (h _ rfl) hl

mutual

/-- The same of a statement. -/
theorem Stmt.every_toSExpr (hP : SExpr.OfSymbols P) (s : Stmt) (h : s.WellFormed)
    (hl : ∀ l ∈ s.literals, l.LiteralHas P) : s.unsigned.toSExpr.Every P := by
  cases s with
  | empty => exact ⟨hP _ (by decide), trivial⟩
  | block body => exact ⟨hP _ (by decide), Stmt.everyItem_listToSExpr hP body h hl⟩
  | eval e => exact Expr.every_toSExpr hP h hl
  | declare ds => exact Declarator.every_listToSExpr hP h hl
  | ifThen test body =>
    rw [Stmt.literals, List.forall_mem_append] at hl
    exact ⟨hP _ (by decide), Expr.every_toSExpr hP h.1 hl.1, Stmt.every_toSExpr hP body h.2 hl.2, trivial⟩
  | ifElse test body other =>
    rw [Stmt.literals, List.forall_mem_append, List.forall_mem_append] at hl
    exact ⟨hP _ (by decide), Expr.every_toSExpr hP h.1 hl.1, Stmt.every_toSExpr hP body h.2.1 hl.2.1,
      Stmt.every_toSExpr hP other h.2.2.1 hl.2.2, trivial⟩
  | whileLoop test body =>
    rw [Stmt.literals, List.forall_mem_append] at hl
    exact ⟨hP _ (by decide), Expr.every_toSExpr hP h.1 hl.1, Stmt.every_toSExpr hP body h.2 hl.2, trivial⟩
  | doWhile body test =>
    rw [Stmt.literals, List.forall_mem_append] at hl
    exact ⟨hP _ (by decide), Stmt.every_toSExpr hP body h.1 hl.1, Expr.every_toSExpr hP h.2 hl.2, trivial⟩
  | forLoop init test update body =>
    rw [Stmt.literals, List.forall_mem_append, List.forall_mem_append, List.forall_mem_append] at hl
    exact ⟨hP _ (by decide), ForInit.every_optionToSExpr hP h.1 hl.1,
      Expr.every_optionToSExpr hP h.2.1 hl.2.1, Expr.every_optionToSExpr hP h.2.2.1 hl.2.2.1,
      Stmt.every_toSExpr hP body h.2.2.2 hl.2.2.2, trivial⟩
  | function name params body =>
    have hparams : SExpr.EveryItem P (params.map .atom) :=
      SExpr.everyItem_map fun s hs => hP s (h.2.1 s hs).isSymbol
    exact ⟨hP _ (by decide), hP name h.1.isSymbol, hparams,
      ⟨hP _ (by decide), Stmt.everyItem_listToSExpr hP body h.2.2 hl⟩, trivial⟩
  | result value =>
    cases value with
    | none => exact ⟨hP _ (by decide), trivial⟩
    | some e => exact ⟨hP _ (by decide), Expr.every_toSExpr hP (h e rfl) hl, trivial⟩

/-- The same of statements one after the other. -/
theorem Stmt.everyItem_listToSExpr (hP : SExpr.OfSymbols P) (ss : List Stmt) (h : Stmt.WellFormedAll ss)
    (hl : ∀ l ∈ Stmt.literalsAll ss, l.LiteralHas P) : SExpr.EveryItem P (Stmt.listToSExpr (Stmt.unsignedAll ss)) := by
  cases ss with
  | nil => trivial
  | cons s ss =>
    rw [Stmt.literalsAll, List.forall_mem_append] at hl
    by_cases hempty : s = .empty
    · rw [hempty, Stmt.unsignedAll, Stmt.unsigned, Stmt.listToSExpr]
      exact Stmt.everyItem_listToSExpr hP ss h.2 hl.2
    · rw [Stmt.unsignedAll, Stmt.listToSExpr_cons (Stmt.unsigned_ne_empty hempty)]
      exact ⟨Stmt.every_toSExpr hP s h.1 hl.1, Stmt.everyItem_listToSExpr hP ss h.2 hl.2⟩

end

/-- What holds of symbols and of the literals of a program that was read holds of every leaf of its S-expression. -/
theorem Program.every_toSExpr_of_parse (hP : SExpr.OfSymbols P) {source : String} {p : Program} (h : parse source = .ok p)
    (hl : ∀ l ∈ p.literals, l.LiteralHas P) : p.toSExpr.Every P := by
  rw [← unsigned_eq_of_parse h]
  exact ⟨hP _ (by decide), Stmt.everyItem_listToSExpr hP p.body (wellFormed_of_parse h).2 hl⟩

end Scriptlet
