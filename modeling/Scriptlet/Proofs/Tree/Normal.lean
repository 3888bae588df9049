import Scriptlet.Proofs.Tree.Unsigned
import Scriptlet.Tree.ToSExpr

/-!
# Normal trees

An S-expression does not show everything a tree holds: it leaves empty statements out, shows a declaration of several names
as a block of declarations, and writes `null` for what is absent. The normal form of a tree says the same in one way only,
and has the same S-expression. The normal form of a well-formed tree is well formed.
-/

namespace Scriptlet

/-! ## Definitions -/

/-- A declarator with a first value, `null` where it has none. -/
def Declarator.norm (d : Declarator) : Declarator := ⟨d.name, some (d.init.getD .null)⟩

/-- A loop opening whose declarators have first values. -/
def ForInit.norm : ForInit → ForInit
  | declare ds => declare (ds.map Declarator.norm)
  | eval e => eval e

mutual

/-- The normal form of a statement where exactly one stands: an empty one is an empty block, several declarators are a block
of declarations, and nothing is absent from a declarator or from the head of a counting loop. -/
def Stmt.norm : Stmt → Stmt
  | .empty => .block []
  | .block body => .block (Stmt.normAll body)
  | .eval e => .eval e
  | .declare ds =>
    if 2 ≤ ds.length then .block (ds.map fun d => .declare [d.norm]) else .declare (ds.map Declarator.norm)
  | .ifThen test body => .ifThen test body.norm
  | .ifElse test body other => .ifElse test body.norm other.norm
  | .whileLoop test body => .whileLoop test body.norm
  | .doWhile body test => .doWhile body.norm test
  | .forLoop init test update body =>
    .forLoop (some ((init.map ForInit.norm).getD (.eval .null))) (some (test.getD .null)) (some (update.getD .null))
      body.norm
  | .function name params body => .function name params (Stmt.normAll body)
  | .result value => .result value

/-- The normal forms of the statements of a list, without the empty ones. -/
def Stmt.normAll : List Stmt → List Stmt
  | [] => []
  | .empty :: ss => Stmt.normAll ss
  | s :: ss => s.norm :: Stmt.normAll ss

end

/-- The normal form of a program. -/
def Program.norm (p : Program) : Program := ⟨Stmt.normAll p.body⟩

/-- A statement that is not empty stays in its list. -/
theorem Stmt.normAll_cons {s : Stmt} (h : s ≠ .empty) (ss : List Stmt) :
    Stmt.normAll (s :: ss) = s.norm :: Stmt.normAll ss := by
  rw [Stmt.normAll]
  exact h

/-- A statement that is not empty is listed in the S-expression of its list. -/
theorem Stmt.listToSExpr_cons {s : Stmt} (h : s ≠ .empty) (ss : List Stmt) :
    Stmt.listToSExpr (s :: ss) = s.toSExpr :: Stmt.listToSExpr ss := by
  rw [Stmt.listToSExpr]
  exact h

/-- No normal form is an empty statement. -/
theorem Stmt.norm_ne_empty (s : Stmt) : s.norm ≠ .empty := by
  cases s with
  | declare ds =>
    rw [Stmt.norm]
    split
    · simp
    · simp
  | _ => simp [Stmt.norm]

/-! ## The S-expression of a normal form -/

/-- What is absent has the S-expression of `null`. -/
theorem Expr.optionToSExpr_getD (o : Option Expr) : optionToSExpr (some (o.getD .null)) = optionToSExpr o := by
  cases o with
  | none => rfl
  | some e => rfl

/-- A declarator and its normal form have the same S-expression. -/
theorem Declarator.toSExpr_norm (d : Declarator) : d.norm.toSExpr = d.toSExpr := by
  rw [toSExpr, toSExpr, norm, Expr.optionToSExpr_getD]

theorem Declarator.listToSExpr_norm (ds : List Declarator) : listToSExpr (ds.map norm) = listToSExpr ds := by
  have hmap : (ds.map norm).map toSExpr = ds.map toSExpr := by
    rw [List.map_map]
    exact List.map_congr_left fun d _ => d.toSExpr_norm
  rcases ds with _ | ⟨d, _ | ⟨d', ds⟩⟩
  · rfl
  · exact d.toSExpr_norm
  · exact congrArg (SExpr.form "begin") hmap

/-- So have the opening of a counting loop and its normal form, where an absent one is `null`. -/
theorem ForInit.optionToSExpr_norm (o : Option ForInit) :
    optionToSExpr (some ((o.map norm).getD (.eval .null))) = optionToSExpr o := by
  rcases o with _ | ds | e
  · rfl
  · exact Declarator.listToSExpr_norm ds
  · rfl

/-- Declarations of one name each are listed as one declaration of them all. -/
theorem Stmt.listToSExpr_declare (ds : List Declarator) :
    Stmt.listToSExpr (ds.map fun d => .declare [d.norm]) = ds.map Declarator.toSExpr := by
  induction ds with
  | nil => rfl
  | cons d ds ih =>
    rw [List.map_cons, Stmt.listToSExpr_cons (by simp), ih, List.map_cons]
    exact congrArg (· :: ds.map Declarator.toSExpr) d.toSExpr_norm

/-- Two declarators or more are a form of their own. -/
theorem Declarator.listToSExpr_of_two_le {ds : List Declarator} (h : 2 ≤ ds.length) :
    listToSExpr ds = .form "begin" (ds.map toSExpr) := by
  rcases ds with _ | ⟨d, _ | ⟨d', ds⟩⟩
  · cases h
  · exact absurd h (by simp)
  · rfl

mutual

/-- A statement and its normal form have the same S-expression. -/
theorem Stmt.toSExpr_norm (s : Stmt) : s.norm.toSExpr = s.toSExpr := by
  cases s with
  | empty => rfl
  | block body => rw [Stmt.norm, Stmt.toSExpr, Stmt.toSExpr, Stmt.listToSExpr_norm body]
  | eval e => rfl
  | declare ds =>
    rw [Stmt.norm]
    split
    · next hlength =>
      rw [Stmt.toSExpr, Stmt.toSExpr, Stmt.listToSExpr_declare, Declarator.listToSExpr_of_two_le hlength]
    · exact Declarator.listToSExpr_norm ds
  | ifThen test body => rw [Stmt.norm, Stmt.toSExpr, Stmt.toSExpr, body.toSExpr_norm]
  | ifElse test body other => rw [Stmt.norm, Stmt.toSExpr, Stmt.toSExpr, body.toSExpr_norm, other.toSExpr_norm]
  | whileLoop test body => rw [Stmt.norm, Stmt.toSExpr, Stmt.toSExpr, body.toSExpr_norm]
  | doWhile body test => rw [Stmt.norm, Stmt.toSExpr, Stmt.toSExpr, body.toSExpr_norm]
  | forLoop init test update body =>
    rw [Stmt.norm, Stmt.toSExpr, Stmt.toSExpr, ForInit.optionToSExpr_norm, Expr.optionToSExpr_getD, Expr.optionToSExpr_getD,
      body.toSExpr_norm]
  | function name params body => rw [Stmt.norm, Stmt.toSExpr, Stmt.toSExpr, Stmt.listToSExpr_norm body]
  | result value => rfl

/-- Statements one after the other and their normal forms have the same S-expressions. -/
theorem Stmt.listToSExpr_norm (ss : List Stmt) : Stmt.listToSExpr (Stmt.normAll ss) = Stmt.listToSExpr ss := by
  cases ss with
  | nil => rfl
  | cons s ss =>
    by_cases hempty : s = .empty
    · rw [hempty, Stmt.normAll, Stmt.listToSExpr, Stmt.listToSExpr_norm ss]
    · rw [Stmt.normAll_cons hempty, Stmt.listToSExpr_cons s.norm_ne_empty, Stmt.listToSExpr_cons hempty, s.toSExpr_norm,
        Stmt.listToSExpr_norm ss]

end

/-- A program and its normal form have the same S-expression. -/
theorem Program.toSExpr_norm (p : Program) : p.norm.toSExpr = p.toSExpr := by
  rw [toSExpr, toSExpr, norm, Stmt.listToSExpr_norm]

/-! ## Well-formed normal forms -/

/-- With `null` where it is absent an expression is well formed. -/
theorem Expr.wellFormed_getD {o : Option Expr} (h : ∀ e ∈ o, e.WellFormed) : (o.getD .null).WellFormed := by
  cases o with
  | none => trivial
  | some e => exact h e rfl

/-- The normal form of a well-formed declarator is well formed. -/
theorem Declarator.WellFormed.norm {d : Declarator} (h : d.WellFormed) : d.norm.WellFormed := by
  refine ⟨h.1, ?_⟩
  rintro _ ⟨⟩
  exact Expr.wellFormed_getD h.2

/-- The normal form of a well-formed declaration is well formed. -/
theorem Declaration.WellFormed.norm {ds : List Declarator} (h : WellFormed ds) : WellFormed (ds.map Declarator.norm) := by
  refine ⟨by simpa using h.1, ?_⟩
  rw [List.forall_mem_map]
  intro d hd
  exact (h.2 d hd).norm

/-- The normal form of the opening of a counting loop is well formed. -/
theorem ForInit.WellFormed.norm {o : Option ForInit} (h : ∀ i ∈ o, i.WellFormed) :
    ((o.map ForInit.norm).getD (.eval .null)).WellFormed := by
  rcases o with _ | ds | e
  · trivial
  · exact Declaration.WellFormed.norm (h _ rfl)
  · exact h _ rfl

/-- Declarations of one name each are well formed. -/
theorem Stmt.wellFormedAll_declare {ds : List Declarator} (h : ∀ d ∈ ds, d.WellFormed) :
    Stmt.WellFormedAll (ds.map fun d => .declare [d.norm]) := by
  induction ds with
  | nil => trivial
  | cons d ds ih =>
    rw [List.forall_mem_cons] at h
    exact ⟨⟨List.cons_ne_nil _ _, List.forall_mem_singleton.mpr h.1.norm⟩, ih h.2⟩

/-- A statement could take an `else` exactly if its normal form could. -/
theorem Stmt.endsOpen_norm (s : Stmt) : s.norm.endsOpen = s.endsOpen := by
  cases s with
  | declare ds =>
    rw [Stmt.norm]
    split
    · rfl
    · rfl
  | ifElse test body other => exact other.endsOpen_norm
  | whileLoop test body => exact body.endsOpen_norm
  | forLoop init test update body => exact body.endsOpen_norm
  | _ => rfl

mutual

/-- The normal form of a well-formed statement is well formed. -/
theorem Stmt.wellFormed_norm (s : Stmt) (h : s.WellFormed) : s.norm.WellFormed := by
  cases s with
  | empty => trivial
  | block body => exact Stmt.wellFormedAll_normAll body h
  | eval e => exact h
  | declare ds =>
    rw [Stmt.norm]
    split
    · exact Stmt.wellFormedAll_declare h.2
    · exact Declaration.WellFormed.norm h
  | ifThen test body => exact ⟨h.1, body.wellFormed_norm h.2⟩
  | ifElse test body other =>
    exact ⟨h.1, body.wellFormed_norm h.2.1, other.wellFormed_norm h.2.2.1, body.endsOpen_norm.trans h.2.2.2⟩
  | whileLoop test body => exact ⟨h.1, body.wellFormed_norm h.2⟩
  | doWhile body test => exact ⟨body.wellFormed_norm h.1, h.2⟩
  | forLoop init test update body =>
    refine ⟨?_, ?_, ?_, body.wellFormed_norm h.2.2.2⟩
    · rintro _ ⟨⟩
      exact ForInit.WellFormed.norm h.1
    · rintro _ ⟨⟩
      exact Expr.wellFormed_getD h.2.1
    · rintro _ ⟨⟩
      exact Expr.wellFormed_getD h.2.2.1
  | function name params body => exact ⟨h.1, h.2.1, Stmt.wellFormedAll_normAll body h.2.2⟩
  | result value => exact h

/-- The normal forms of well-formed statements are well formed. -/
theorem Stmt.wellFormedAll_normAll (ss : List Stmt) (h : Stmt.WellFormedAll ss) : Stmt.WellFormedAll (Stmt.normAll ss) := by
  cases ss with
  | nil => trivial
  | cons s ss =>
    by_cases hempty : s = .empty
    · rw [hempty, Stmt.normAll]
      exact Stmt.wellFormedAll_normAll ss h.2
    · rw [Stmt.normAll_cons hempty]
      exact ⟨s.wellFormed_norm h.1, Stmt.wellFormedAll_normAll ss h.2⟩

end

/-! ## Signs of numbers in normal forms -/

/-- Numbers lose their signs before or after `null` stands for what is absent. -/
theorem Expr.unsigned_getD (o : Option Expr) : (o.getD .null).unsigned = (o.map Expr.unsigned).getD .null := by
  cases o with
  | none => rfl
  | some e => rfl

/-- Numbers lose their signs before or after a declarator is brought to its normal form. -/
theorem Declarator.unsigned_norm (d : Declarator) : d.norm.unsigned = d.unsigned.norm := by
  rw [norm, norm, unsigned, unsigned, Option.map_some, Expr.unsigned_getD]

theorem Declarator.map_unsigned_norm (ds : List Declarator) :
    (ds.map norm).map unsigned = (ds.map unsigned).map norm := by
  rw [List.map_map, List.map_map]
  exact List.map_congr_left fun d _ => d.unsigned_norm

/-- The same of the opening of a counting loop. -/
theorem ForInit.unsigned_norm (o : Option ForInit) :
    ((o.map ForInit.norm).getD (.eval .null)).unsigned = ((o.map ForInit.unsigned).map ForInit.norm).getD (.eval .null) := by
  rcases o with _ | ds | e
  · rfl
  · exact congrArg declare (Declarator.map_unsigned_norm ds)
  · rfl

theorem Stmt.unsignedAll_declare (ds : List Declarator) :
    Stmt.unsignedAll (ds.map fun d => .declare [d.norm]) = (ds.map Declarator.unsigned).map fun d => .declare [d.norm] := by
  induction ds with
  | nil => rfl
  | cons d ds ih =>
    rw [List.map_cons, Stmt.unsignedAll, ih, Stmt.unsigned, List.map_singleton, d.unsigned_norm, List.map_cons,
      List.map_cons]

/-- A statement does not become empty when its numbers lose their signs. -/
theorem Stmt.unsigned_ne_empty {s : Stmt} (h : s ≠ .empty) : s.unsigned ≠ .empty := by
  cases s with
  | empty => exact absurd rfl h
  | _ => simp [Stmt.unsigned]

mutual

/-- Numbers lose their signs before or after a statement is brought to its normal form. -/
theorem Stmt.unsigned_norm (s : Stmt) : s.norm.unsigned = s.unsigned.norm := by
  cases s with
  | empty => rfl
  | block body => rw [Stmt.norm, Stmt.unsigned, Stmt.unsigned, Stmt.norm, Stmt.unsignedAll_normAll body]
  | eval e => rfl
  | declare ds =>
    rw [Stmt.norm, Stmt.unsigned, Stmt.norm, List.length_map]
    split
    · rw [Stmt.unsigned, Stmt.unsignedAll_declare]
    · rw [Stmt.unsigned, Declarator.map_unsigned_norm]
  | ifThen test body => rw [Stmt.norm, Stmt.unsigned, Stmt.unsigned, Stmt.norm, body.unsigned_norm]
  | ifElse test body other =>
    rw [Stmt.norm, Stmt.unsigned, Stmt.unsigned, Stmt.norm, body.unsigned_norm, other.unsigned_norm]
  | whileLoop test body => rw [Stmt.norm, Stmt.unsigned, Stmt.unsigned, Stmt.norm, body.unsigned_norm]
  | doWhile body test => rw [Stmt.norm, Stmt.unsigned, Stmt.unsigned, Stmt.norm, body.unsigned_norm]
  | forLoop init test update body =>
    rw [Stmt.norm, Stmt.unsigned, Stmt.unsigned, Stmt.norm, body.unsigned_norm, Option.map_some, Option.map_some,
      Option.map_some, ForInit.unsigned_norm, Expr.unsigned_getD, Expr.unsigned_getD]
  | function name params body => rw [Stmt.norm, Stmt.unsigned, Stmt.unsigned, Stmt.norm, Stmt.unsignedAll_normAll body]
  | result value => rfl

/-- Numbers lose their signs before or after statements are brought to their normal forms. -/
theorem Stmt.unsignedAll_normAll (ss : List Stmt) :
    Stmt.unsignedAll (Stmt.normAll ss) = Stmt.normAll (Stmt.unsignedAll ss) := by
  cases ss with
  | nil => rfl
  | cons s ss =>
    by_cases hempty : s = .empty
    · rw [hempty, Stmt.normAll, Stmt.unsignedAll, Stmt.unsigned, Stmt.normAll, Stmt.unsignedAll_normAll ss]
    · rw [Stmt.normAll_cons hempty, Stmt.unsignedAll, Stmt.unsignedAll, Stmt.normAll_cons (Stmt.unsigned_ne_empty hempty),
        s.unsigned_norm, Stmt.unsignedAll_normAll ss]

end

/-- The normal form of a program that is read has no signs in its numbers. -/
theorem Program.unsigned_norm_of_parse {source : String} {p : Program} (h : parse source = .ok p) :
    p.norm.unsigned = p.norm := by
  rw [norm, unsigned, Stmt.unsignedAll_normAll]
  exact congrArg norm (unsigned_eq_of_parse h)

/-- The normal forms of programs that are read are the same only if they are equal. -/
theorem Program.norm_same_iff_eq {source source' : String} {p q : Program} (hp : parse source = .ok p)
    (hq : parse source' = .ok q) : (p.norm == q.norm) = true ↔ p.norm = q.norm := by
  constructor
  · intro h
    rw [← unsigned_norm_of_parse hp, ← unsigned_norm_of_parse hq, unsigned_eq_of_same h]
  · intro h
    have hsame : (p.norm.unsigned == p.norm) = true :=
      Stmt.unsignedAll_same _ (Stmt.wellFormedAll_normAll p.body (wellFormed_of_parse hp).2)
    rw [unsigned_norm_of_parse hp] at hsame
    rwa [← h]

end Scriptlet
