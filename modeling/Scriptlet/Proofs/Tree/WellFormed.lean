import Scriptlet.Proofs.Grammar.Agreement
import Scriptlet.Proofs.Number.Whole
import Scriptlet.Proofs.Token.Genuine

/-!
# Well-formed trees

A tree can hold what no source can say: a name that is reserved, a number with a fraction, a text with both quotes in it, a
declaration of nothing, an `else` that belongs to a nearer `if`. The well-formed trees are those without any of these, and
every program that is read is well formed.
-/

namespace Scriptlet

/-! ## Definitions -/

/-- An expression in which every name is a word that is not reserved, every number is whole and every text lacks one of the
two quotes. -/
def Expr.WellFormed : Expr → Prop
  | name s => Text.IsName s
  | number x => x.IsWhole
  | text s => '"' ∉ s.toList ∨ '\'' ∉ s.toList
  | bool _ | null => True
  | unary _ a => a.WellFormed
  | binary _ a b | logical _ a b => a.WellFormed ∧ b.WellFormed
  | assign _ s a => Text.IsName s ∧ a.WellFormed

/-- A declared name that is one, with a first value that is well formed. -/
def Declarator.WellFormed (d : Declarator) : Prop := Text.IsName d.name ∧ ∀ e ∈ d.init, e.WellFormed

/-- A declaration of at least one name. -/
def Declaration.WellFormed (ds : List Declarator) : Prop := ds ≠ [] ∧ ∀ d ∈ ds, d.WellFormed

/-- A well-formed opening of a counting loop. -/
def ForInit.WellFormed : ForInit → Prop
  | declare ds => Declaration.WellFormed ds
  | eval e => e.WellFormed

/-- A statement at whose end stands an `if` without `else`, so that an `else` behind the statement would belong to that `if`.
-/
def Stmt.endsOpen : Stmt → Bool
  | ifThen _ _ => true
  | ifElse _ _ other => other.endsOpen
  | whileLoop _ body => body.endsOpen
  | forLoop _ _ _ body => body.endsOpen
  | _ => false

mutual

/-- A statement in which every part is well formed, every declaration has a name, and no `if` that is still open stands in
front of an `else` that belongs to another one. -/
def Stmt.WellFormed : Stmt → Prop
  | .empty => True
  | .block body => Stmt.WellFormedAll body
  | .eval e => e.WellFormed
  | .declare ds => Declaration.WellFormed ds
  | .ifThen test body => test.WellFormed ∧ body.WellFormed
  | .ifElse test body other => test.WellFormed ∧ body.WellFormed ∧ other.WellFormed ∧ body.endsOpen = false
  | .whileLoop test body => test.WellFormed ∧ body.WellFormed
  | .doWhile body test => body.WellFormed ∧ test.WellFormed
  | .forLoop init test update body =>
    (∀ i ∈ init, i.WellFormed) ∧ (∀ e ∈ test, e.WellFormed) ∧ (∀ e ∈ update, e.WellFormed) ∧ body.WellFormed
  | .function name params body => Text.IsName name ∧ (∀ s ∈ params, Text.IsName s) ∧ Stmt.WellFormedAll body
  | .result value => ∀ e ∈ value, e.WellFormed

/-- Every statement of a list is well formed. -/
def Stmt.WellFormedAll : List Stmt → Prop
  | [] => True
  | s :: ss => s.WellFormed ∧ Stmt.WellFormedAll ss

end

/-- A program of at least one statement, all of them well formed. -/
def Program.WellFormed (p : Program) : Prop := p.body ≠ [] ∧ Stmt.WellFormedAll p.body

/-! ## Expressions that are read -/

/-- A text without its quotes is what stands between them. -/
theorem Parse.unquote_eq {text : String} {q : Char} {body : List Char} (h : text.toList = q :: (body ++ [q])) :
    unquote text = .ofList body := by
  simp [unquote, h]

/-- An expression that is read from genuine tokens is well formed. -/
theorem Expr.Derives.wellFormed {rank : Rank} {ts : List Token} {e : Expr} (h : e.Derives rank ts)
    (hts : ∀ t ∈ ts, t.Genuine) : e.WellFormed := by
  induction h with
  | loosest _ ih => exact ih hts
  | assign _ _ _ _ ihLeft ihRight =>
    rw [List.forall_mem_append, List.forall_mem_cons] at hts
    exact ⟨ihLeft hts.1, ihRight hts.2.2⟩
  | operand _ ih => exact ih hts
  | @operator _ _ _ _ op _ _ _ _ _ ihLeft ihRight =>
    rw [List.forall_mem_append, List.forall_mem_cons] at hts
    cases op with
    | logical op => exact ⟨ihLeft hts.1, ihRight hts.2.2⟩
    | binary op => exact ⟨ihLeft hts.1, ihRight hts.2.2⟩
  | sign _ _ _ ih => exact ih (List.forall_mem_cons.mp hts).2
  | unsigned _ ih => exact ih hts
  | name hk => exact (hts _ (by simp)).isName hk
  | number _ hx => exact Double.isWhole_of_ofDigits? hx
  | @text t hk =>
    obtain ⟨q, body, hq, hbody, htext⟩ := (hts t (by simp)).isQuoted hk
    rw [Parse.unquote_eq htext]
    unfold WellFormed
    rw [String.toList_ofList]
    rcases hq with rfl | rfl
    · exact .inl hbody
    · exact .inr hbody
  | trueWord _ => trivial
  | falseWord _ => trivial
  | nullWord _ => trivial
  | parens _ _ _ ih =>
    rw [List.forall_mem_cons, List.forall_mem_append] at hts
    exact ih hts.2.1

/-! ## Parts of statements that are read -/

/-- What holds of a phrase holds of one that may be absent. -/
theorem Maybe.forall_mem {α : Type} {Phrase : List Token → α → Prop} {P : α → Prop} {ts : List Token} {o : Option α}
    (h : Maybe Phrase ts o) (hts : ∀ t ∈ ts, t.Genuine) (hP : ∀ us a, Phrase us a → (∀ t ∈ us, t.Genuine) → P a) :
    ∀ a ∈ o, P a := by
  rcases h with _ | h
  · nofun
  · rintro _ ⟨⟩
    exact hP _ _ h hts

/-- What holds of each phrase holds of all phrases of a list, and there is one at least. -/
theorem CommaList.forall_mem {α : Type} {Phrase : List Token → α → Prop} {P : α → Prop} {ts : List Token} {as : List α}
    (h : CommaList Phrase ts as) (hts : ∀ t ∈ ts, t.Genuine) (hP : ∀ us a, Phrase us a → (∀ t ∈ us, t.Genuine) → P a) :
    as ≠ [] ∧ ∀ a ∈ as, P a := by
  induction h with
  | last ha => exact ⟨List.cons_ne_nil _ _, List.forall_mem_singleton.mpr (hP _ _ ha hts)⟩
  | cons ha _ _ ih =>
    rw [List.forall_mem_append, List.forall_mem_cons] at hts
    exact ⟨List.cons_ne_nil _ _, List.forall_mem_cons.mpr ⟨hP _ _ ha hts.1, (ih hts.2.2).2⟩⟩

theorem Condition.wellFormed {ts : List Token} {e : Expr} (h : Condition ts e) (hts : ∀ t ∈ ts, t.Genuine) :
    e.WellFormed := by
  obtain ⟨-, he, -⟩ := h
  rw [List.forall_mem_cons, List.forall_mem_append] at hts
  exact he.wellFormed hts.2.1

theorem Parameter.isName {ts : List Token} {s : String} (h : Parameter ts s) (hts : ∀ t ∈ ts, t.Genuine) :
    Text.IsName s := by
  obtain ⟨hk⟩ := h
  exact (hts _ (by simp)).isName hk

/-- A declared name that is read is not reserved, and its first value is well formed. -/
theorem Declarator.Derives.wellFormed {ts : List Token} {d : Declarator} (h : d.Derives ts) (hts : ∀ t ∈ ts, t.Genuine) :
    d.WellFormed := by
  rcases h with hk | ⟨hk, -, he⟩
  · exact ⟨(hts _ (by simp)).isName hk, nofun⟩
  · rw [List.forall_mem_cons, List.forall_mem_cons] at hts
    refine ⟨hts.1.isName hk, ?_⟩
    rintro _ ⟨⟩
    exact he.wellFormed hts.2.2

theorem Declaration.wellFormed {ts : List Token} {ds : List Declarator} (h : Declaration ts ds) (hts : ∀ t ∈ ts, t.Genuine) :
    WellFormed ds := by
  obtain ⟨-, hds⟩ := h
  exact hds.forall_mem (List.forall_mem_cons.mp hts).2 fun _ _ => Declarator.Derives.wellFormed

theorem ForInit.Derives.wellFormed {ts : List Token} {i : ForInit} (h : i.Derives ts) (hts : ∀ t ∈ ts, t.Genuine) :
    i.WellFormed := by
  rcases h with hds | he
  · exact hds.wellFormed hts
  · exact he.wellFormed hts

/-- The clauses of a counting loop that are read are well formed. -/
theorem Parse.LoopHead.Derives.wellFormed {ts : List Token} {head : Parse.LoopHead} (h : head.Derives ts)
    (hts : ∀ t ∈ ts, t.Genuine) : (∀ i ∈ head.init, i.WellFormed) ∧ (∀ e ∈ head.test, e.WellFormed) ∧
      ∀ e ∈ head.update, e.WellFormed := by
  obtain ⟨-, -, hinit, -, htest, -, hupdate, -⟩ := h
  simp only [List.forall_mem_cons, List.forall_mem_append] at hts
  obtain ⟨-, -, hi, -, ht, -, hu, -⟩ := hts
  exact ⟨hinit.forall_mem hi fun _ _ => ForInit.Derives.wellFormed, htest.forall_mem ht fun _ _ => Expr.Derives.wellFormed,
    hupdate.forall_mem hu fun _ _ => Expr.Derives.wellFormed⟩

/-- The names of a function that is read are not reserved. -/
theorem FunctionHead.wellFormed {ts : List Token} {name : String} {ps : List String} (h : FunctionHead ts name ps)
    (hts : ∀ t ∈ ts, t.Genuine) : Text.IsName name ∧ ∀ s ∈ ps, Text.IsName s := by
  obtain ⟨-, hf, -, hps, -⟩ := h
  simp only [List.forall_mem_cons, List.forall_mem_append] at hts
  obtain ⟨-, hname, -, hparams, -⟩ := hts
  refine ⟨hname.isName hf, ?_⟩
  rcases hps with _ | hps
  · nofun
  · exact (hps.forall_mem hparams fun _ _ => Parameter.isName).2

/-! ## Statements that are read -/

/-- In front of an `else` no statement ends with an `if` that is still open. -/
theorem Stmt.endsOpen_of_derives_else : ∀ (s : Stmt) {ts : List Token}, s.Derives (some (.keyword .elseWord)) ts →
    s.endsOpen = false
  | .empty, _, _ | .block _, _, _ | .eval _, _, _ | .declare _, _, _ | .doWhile _ _, _, _ | .function _ _ _, _, _
  | .result _, _, _ => rfl
  | .ifThen _ _, _, .ifThen _ _ _ hnext => absurd rfl hnext
  | .ifElse _ _ other, _, .ifElse _ _ _ _ hother => endsOpen_of_derives_else other hother
  | .whileLoop _ body, _, .whileLoop _ _ hbody => endsOpen_of_derives_else body hbody
  | .forLoop _ _ _ body, _, .forLoop _ hbody => endsOpen_of_derives_else body hbody

mutual

/-- A statement that is read is well formed: what stands in front of an `else` could not take it. -/
theorem Stmt.Derives.wellFormed {next : Option TokenKind} {ts : List Token} {s : Stmt} (h : s.Derives next ts) :
    (∀ t ∈ ts, t.Genuine) → s.WellFormed := by
  intro hts
  cases h with
  | empty _ => trivial
  | block _ hbody _ =>
    rw [List.forall_mem_cons, List.forall_mem_append] at hts
    exact hbody.wellFormed hts.2.1
  | eval he _ => exact he.wellFormed (List.forall_mem_append.mp hts).1
  | declare hds _ => exact hds.wellFormed (List.forall_mem_append.mp hts).1
  | ifThen _ hcs hbody _ =>
    rw [List.forall_mem_cons, List.forall_mem_append] at hts
    exact ⟨hcs.wellFormed hts.2.1, hbody.wellFormed hts.2.2⟩
  | ifElse _ hcs hbody _ hother =>
    simp only [List.forall_mem_cons, List.forall_mem_append] at hts
    obtain ⟨-, htest, hthen, -, helse⟩ := hts
    exact ⟨hcs.wellFormed htest, hbody.wellFormed hthen, hother.wellFormed helse, Stmt.endsOpen_of_derives_else _ hbody⟩
  | whileLoop _ hcs hbody =>
    rw [List.forall_mem_cons, List.forall_mem_append] at hts
    exact ⟨hcs.wellFormed hts.2.1, hbody.wellFormed hts.2.2⟩
  | doWhile _ hbody _ hcs _ =>
    simp only [List.forall_mem_cons, List.forall_mem_append] at hts
    obtain ⟨-, hdo, -, htest, -⟩ := hts
    exact ⟨hbody.wellFormed hdo, hcs.wellFormed htest⟩
  | forLoop hhead hbody =>
    rw [List.forall_mem_append] at hts
    obtain ⟨hinit, htest, hupdate⟩ := hhead.wellFormed hts.1
    exact ⟨hinit, htest, hupdate, hbody.wellFormed hts.2⟩
  | function hhead _ hbody _ =>
    simp only [List.forall_mem_cons, List.forall_mem_append] at hts
    obtain ⟨hname, hparams⟩ := hhead.wellFormed hts.1
    exact ⟨hname, hparams, hbody.wellFormed hts.2.2.1⟩
  | result _ hvalue _ =>
    rw [List.forall_mem_cons, List.forall_mem_append] at hts
    exact hvalue.forall_mem hts.2.1 fun _ _ => Expr.Derives.wellFormed

/-- So are statements one after the other. -/
theorem Stmt.DerivesAll.wellFormed {next : Option TokenKind} {ts : List Token} {ss : List Stmt}
    (h : Stmt.DerivesAll next ts ss) : (∀ t ∈ ts, t.Genuine) → Stmt.WellFormedAll ss := by
  intro hts
  cases h with
  | nil => trivial
  | cons hs hss =>
    rw [List.forall_mem_append] at hts
    exact ⟨hs.wellFormed hts.1, hss.wellFormed hts.2⟩

end

/-- Every program that is read is well formed. -/
theorem Program.wellFormed_of_parse {source : String} {p : Program} (h : parse source = .ok p) : p.WellFormed := by
  obtain ⟨ts, hts, hne, hbody⟩ := derives_of_parse h
  exact ⟨hne, hbody.wellFormed (Stream.genuine_of_ofSource hts)⟩

end Scriptlet
