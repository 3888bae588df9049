import Scriptlet.Proofs.Tree.WellFormed

/-!
# Signs of numbers

A number in a tree may be negative zero, which the language does not tell from zero and which no digits write. Without the
signs of its numbers a well-formed tree is still the same tree to the language, and trees that are the same are then equal. A
tree that was read has no signs.
-/

namespace Scriptlet

/-! ## Definitions -/

/-- An expression without the signs of its numbers. -/
def Expr.unsigned : Expr → Expr
  | number x => number x.unsigned
  | unary op a => unary op a.unsigned
  | binary op a b => binary op a.unsigned b.unsigned
  | logical op a b => logical op a.unsigned b.unsigned
  | assign op s a => assign op s a.unsigned
  | e => e

/-- A declarator without the signs of its numbers. -/
def Declarator.unsigned (d : Declarator) : Declarator := { d with init := d.init.map Expr.unsigned }

/-- A loop opening without the signs of its numbers. -/
def ForInit.unsigned : ForInit → ForInit
  | declare ds => declare (ds.map Declarator.unsigned)
  | eval e => eval e.unsigned

mutual

/-- A statement without the signs of its numbers. -/
def Stmt.unsigned : Stmt → Stmt
  | .empty => .empty
  | .block body => .block (Stmt.unsignedAll body)
  | .eval e => .eval e.unsigned
  | .declare ds => .declare (ds.map Declarator.unsigned)
  | .ifThen test body => .ifThen test.unsigned body.unsigned
  | .ifElse test body other => .ifElse test.unsigned body.unsigned other.unsigned
  | .whileLoop test body => .whileLoop test.unsigned body.unsigned
  | .doWhile body test => .doWhile body.unsigned test.unsigned
  | .forLoop init test update body =>
    .forLoop (init.map ForInit.unsigned) (test.map Expr.unsigned) (update.map Expr.unsigned) body.unsigned
  | .function name params body => .function name params (Stmt.unsignedAll body)
  | .result value => .result (value.map Expr.unsigned)

/-- Statements without the signs of their numbers. -/
def Stmt.unsignedAll : List Stmt → List Stmt
  | [] => []
  | s :: ss => s.unsigned :: Stmt.unsignedAll ss

end

/-- A program without the signs of its numbers. -/
def Program.unsigned (p : Program) : Program := ⟨Stmt.unsignedAll p.body⟩

/-- There are as many statements without signs as with them. -/
theorem Stmt.unsignedAll_ne_nil {ss : List Stmt} (h : ss ≠ []) : Stmt.unsignedAll ss ≠ [] := by
  cases ss with
  | nil => exact absurd rfl h
  | cons s ss =>
    rw [Stmt.unsignedAll]
    exact List.cons_ne_nil _ _

/-! ## The same tree to the language -/

/-- A whole number is the same without its sign: it is zero or has none. -/
theorem Double.unsigned_same {x : Double} (h : x.IsWhole) : x.unsigned.same x = true := by
  rcases h with h | rfl
  · obtain ⟨n, hn⟩ := Option.ne_none_iff_exists'.mp h
    unfold natural? at hn
    split at hn
    · next hx =>
      obtain ⟨hfinite, hsign, -⟩ := hx
      have hnan : x.isNaN = false := by
        simp only [isFinite, isNaN, decide_eq_true_eq, decide_eq_false_iff_not] at hfinite ⊢
        omega
      rcases hsign with hsign | hzero
      · simp [same, hnan, hsign]
      · simp [same, hnan, hzero]
    · cases hn
  · decide

/-- A well-formed expression is the same without the signs of its numbers. -/
theorem Expr.unsigned_same {e : Expr} (h : e.WellFormed) : e.unsigned.same e = true := by
  induction e with
  | name s => simp [unsigned, same]
  | number x => exact Double.unsigned_same h
  | text s => simp [unsigned, same]
  | bool b => simp [unsigned, same]
  | null => rfl
  | unary op a ih => simp [unsigned, same, ih h]
  | binary op a b iha ihb => simp [unsigned, same, iha h.1, ihb h.2]
  | logical op a b iha ihb => simp [unsigned, same, iha h.1, ihb h.2]
  | assign op s a ih => simp [unsigned, same, ih h.2]

/-- A value that may be absent is the same when what it holds is. -/
theorem sameOption_map {α : Type} {same : α → α → Bool} {f : α → α} {o : Option α} (h : ∀ a ∈ o, same (f a) a = true) :
    sameOption same (o.map f) o = true := by
  cases o with
  | none => rfl
  | some a => exact h a rfl

/-- A list is the same when its elements are. -/
theorem sameList_map {α : Type} {same : α → α → Bool} {f : α → α} {as : List α} (h : ∀ a ∈ as, same (f a) a = true) :
    sameList same (as.map f) as = true := by
  induction as with
  | nil => rfl
  | cons a as ih =>
    rw [List.forall_mem_cons] at h
    simp [sameList, h.1, ih h.2]

theorem Declarator.unsigned_same {d : Declarator} (h : d.WellFormed) : d.unsigned.same d = true := by
  simp [same, unsigned, sameOption_map fun e he => Expr.unsigned_same (h.2 e he)]

theorem Declaration.unsigned_same {ds : List Declarator} (h : WellFormed ds) :
    sameList Declarator.same (ds.map Declarator.unsigned) ds = true :=
  sameList_map fun d hd => Declarator.unsigned_same (h.2 d hd)

theorem ForInit.unsigned_same {i : ForInit} (h : i.WellFormed) : i.unsigned.same i = true := by
  cases i with
  | declare ds => exact Declaration.unsigned_same h
  | eval e => exact Expr.unsigned_same h

mutual

/-- A well-formed statement is the same without the signs of its numbers. -/
theorem Stmt.unsigned_same : ∀ s : Stmt, s.WellFormed → s.unsigned.same s = true := by
  intro s h
  cases s with
  | empty => rfl
  | block body => simpa [Stmt.unsigned, Stmt.same] using Stmt.unsignedAll_same body h
  | eval e => simpa [Stmt.unsigned, Stmt.same] using Expr.unsigned_same h
  | declare ds => simpa [Stmt.unsigned, Stmt.same] using Declaration.unsigned_same h
  | ifThen test body => simp [Stmt.unsigned, Stmt.same, Expr.unsigned_same h.1, Stmt.unsigned_same body h.2]
  | ifElse test body other =>
    simp [Stmt.unsigned, Stmt.same, Expr.unsigned_same h.1, Stmt.unsigned_same body h.2.1, Stmt.unsigned_same other h.2.2.1]
  | whileLoop test body => simp [Stmt.unsigned, Stmt.same, Expr.unsigned_same h.1, Stmt.unsigned_same body h.2]
  | doWhile body test => simp [Stmt.unsigned, Stmt.same, Expr.unsigned_same h.2, Stmt.unsigned_same body h.1]
  | forLoop init test update body =>
    have hinit := sameOption_map fun i hi => ForInit.unsigned_same (h.1 i hi)
    have htest := sameOption_map fun e he => Expr.unsigned_same (h.2.1 e he)
    have hupdate := sameOption_map fun e he => Expr.unsigned_same (h.2.2.1 e he)
    simp [Stmt.unsigned, Stmt.same, hinit, htest, hupdate, Stmt.unsigned_same body h.2.2.2]
  | function name params body => simpa [Stmt.unsigned, Stmt.same] using Stmt.unsignedAll_same body h.2.2
  | result value =>
    simpa [Stmt.unsigned, Stmt.same] using sameOption_map fun e he => Expr.unsigned_same (h e he)

/-- So are well-formed statements one after the other. -/
theorem Stmt.unsignedAll_same : ∀ ss : List Stmt, Stmt.WellFormedAll ss → Stmt.sameAll (Stmt.unsignedAll ss) ss = true := by
  intro ss h
  cases ss with
  | nil => rfl
  | cons s ss => simp [Stmt.unsignedAll, Stmt.sameAll, Stmt.unsigned_same s h.1, Stmt.unsignedAll_same ss h.2]

end

/-- A well-formed program is the same without the signs of its numbers. -/
theorem Program.unsigned_same {p : Program} (h : p.WellFormed) : (p.unsigned == p) = true :=
  Stmt.unsignedAll_same p.body h.2

/-! ## Trees that are the same -/

/-- Doubles that are the same differ only in the sign of a zero. -/
theorem Double.unsigned_eq_of_same {x y : Double} (h : x.same y = true) : x.unsigned = y.unsigned := by
  refine eq_of_magnitude rfl ?_
  simp only [same, Bool.and_eq_true, Bool.or_eq_true, beq_iff_eq] at h
  rcases h.2 with ⟨-, hm⟩ | ⟨hx, hy⟩
  · exact hm
  · exact hx.trans hy.symm

/-- Expressions that are the same differ only in the signs of their numbers. -/
theorem Expr.unsigned_eq_of_same (a b : Expr) (h : a.same b = true) : a.unsigned = b.unsigned := by
  fun_induction same a b with
  | case1 a b => rw [beq_iff_eq.mp h]
  | case2 x y => rw [Expr.unsigned, Expr.unsigned, Double.unsigned_eq_of_same h]
  | case3 a b => rw [beq_iff_eq.mp h]
  | case4 a b => rw [beq_iff_eq.mp h]
  | case5 => rfl
  | case6 p a q b ih =>
    simp only [Bool.and_eq_true, beq_iff_eq] at h
    rw [Expr.unsigned, Expr.unsigned, h.1, ih h.2]
  | case7 p a b q c d iha ihb =>
    simp only [Bool.and_eq_true, beq_iff_eq] at h
    rw [Expr.unsigned, Expr.unsigned, h.1.1, iha h.1.2, ihb h.2]
  | case8 p a b q c d iha ihb =>
    simp only [Bool.and_eq_true, beq_iff_eq] at h
    rw [Expr.unsigned, Expr.unsigned, h.1.1, iha h.1.2, ihb h.2]
  | case9 p a v q b w ih =>
    simp only [Bool.and_eq_true, beq_iff_eq] at h
    rw [Expr.unsigned, Expr.unsigned, h.1.1, h.1.2, ih h.2]
  | case10 => cases h

/-- What does not tell elements apart that are the same does not tell values apart that may be absent. -/
theorem map_eq_of_sameOption {α : Type} {same : α → α → Bool} {f : α → α} (hf : ∀ a b, same a b = true → f a = f b)
    {o o' : Option α} (h : sameOption same o o' = true) : o.map f = o'.map f := by
  fun_cases sameOption same o o' with
  | case1 => rfl
  | case2 a b => rw [Option.map_some, Option.map_some, hf a b h]
  | case3 => simp_all [sameOption]

/-- Nor does it tell lists apart. -/
theorem map_eq_of_sameList {α : Type} {same : α → α → Bool} {f : α → α} (hf : ∀ a b, same a b = true → f a = f b)
    {as bs : List α} (h : sameList same as bs = true) : as.map f = bs.map f := by
  fun_induction sameList same as bs with
  | case1 => rfl
  | case2 a as b bs ih =>
    rw [Bool.and_eq_true] at h
    rw [List.map_cons, List.map_cons, hf a b h.1, ih h.2]
  | case3 => cases h

theorem Declarator.unsigned_eq_of_same (d d' : Declarator) (h : d.same d' = true) : d.unsigned = d'.unsigned := by
  simp only [same, Bool.and_eq_true, beq_iff_eq] at h
  rw [unsigned, unsigned, h.1, map_eq_of_sameOption Expr.unsigned_eq_of_same h.2]

theorem ForInit.unsigned_eq_of_same (i j : ForInit) (h : i.same j = true) : i.unsigned = j.unsigned := by
  unfold same at h
  split at h
  · rw [unsigned, unsigned, map_eq_of_sameList Declarator.unsigned_eq_of_same h]
  · rw [unsigned, unsigned, Expr.unsigned_eq_of_same _ _ h]
  · cases h

mutual

/-- Statements that are the same differ only in the signs of their numbers. -/
theorem Stmt.unsigned_eq_of_same (a b : Stmt) (h : a.same b = true) : a.unsigned = b.unsigned := by
  unfold Stmt.same at h
  split at h
  · rfl
  · next as bs => rw [Stmt.unsigned, Stmt.unsigned, Stmt.unsignedAll_eq_of_same as bs h]
  · next a b => rw [Stmt.unsigned, Stmt.unsigned, Expr.unsigned_eq_of_same a b h]
  · next as bs => rw [Stmt.unsigned, Stmt.unsigned, map_eq_of_sameList Declarator.unsigned_eq_of_same h]
  · next s a t b =>
    rw [Bool.and_eq_true] at h
    rw [Stmt.unsigned, Stmt.unsigned, Expr.unsigned_eq_of_same s t h.1, Stmt.unsigned_eq_of_same a b h.2]
  · next s a b t c d =>
    rw [Bool.and_eq_true, Bool.and_eq_true] at h
    rw [Stmt.unsigned, Stmt.unsigned, Expr.unsigned_eq_of_same s t h.1.1, Stmt.unsigned_eq_of_same a c h.1.2,
      Stmt.unsigned_eq_of_same b d h.2]
  · next s a t b =>
    rw [Bool.and_eq_true] at h
    rw [Stmt.unsigned, Stmt.unsigned, Expr.unsigned_eq_of_same s t h.1, Stmt.unsigned_eq_of_same a b h.2]
  · next a s b t =>
    rw [Bool.and_eq_true] at h
    rw [Stmt.unsigned, Stmt.unsigned, Expr.unsigned_eq_of_same s t h.2, Stmt.unsigned_eq_of_same a b h.1]
  · next i s u a j t v b =>
    rw [Bool.and_eq_true, Bool.and_eq_true, Bool.and_eq_true] at h
    rw [Stmt.unsigned, Stmt.unsigned, map_eq_of_sameOption ForInit.unsigned_eq_of_same h.1.1.1,
      map_eq_of_sameOption Expr.unsigned_eq_of_same h.1.1.2, map_eq_of_sameOption Expr.unsigned_eq_of_same h.1.2,
      Stmt.unsigned_eq_of_same a b h.2]
  · next f ps as g qs bs =>
    rw [Bool.and_eq_true, Bool.and_eq_true, beq_iff_eq, beq_iff_eq] at h
    rw [Stmt.unsigned, Stmt.unsigned, h.1.1, h.1.2, Stmt.unsignedAll_eq_of_same as bs h.2]
  · rw [Stmt.unsigned, Stmt.unsigned, map_eq_of_sameOption Expr.unsigned_eq_of_same h]
  · cases h

/-- So do statements one after the other. -/
theorem Stmt.unsignedAll_eq_of_same (as bs : List Stmt) (h : Stmt.sameAll as bs = true) :
    Stmt.unsignedAll as = Stmt.unsignedAll bs := by
  unfold Stmt.sameAll at h
  split at h
  · rfl
  · next a as b bs =>
    rw [Bool.and_eq_true] at h
    rw [Stmt.unsignedAll, Stmt.unsignedAll, Stmt.unsigned_eq_of_same a b h.1, Stmt.unsignedAll_eq_of_same as bs h.2]
  · cases h

end

/-- Programs that are the same differ only in the signs of their numbers. -/
theorem Program.unsigned_eq_of_same {p q : Program} (h : (p == q) = true) : p.unsigned = q.unsigned := by
  rw [unsigned, unsigned, Stmt.unsignedAll_eq_of_same p.body q.body h]

/-! ## Trees that are read -/

/-- A number that is read has no sign. -/
theorem Double.unsigned_eq_of_ofDigits? {text : String} {x : Double} (h : ofDigits? text = some x) : x.unsigned = x := by
  unfold ofDigits? at h
  split at h
  · cases h
    rfl
  · cases h

/-- An expression that is read has no signs in its numbers. -/
theorem Expr.Derives.unsigned_eq {rank : Rank} {ts : List Token} {e : Expr} (h : e.Derives rank ts) : e.unsigned = e := by
  induction h with
  | loosest _ ih => exact ih
  | assign _ _ _ _ _ ih => rw [Expr.unsigned, ih]
  | operand _ ih => exact ih
  | @operator _ _ _ _ op _ _ _ _ _ ihLeft ihRight =>
    cases op with
    | logical op => rw [Infix.node, Expr.unsigned, ihLeft, ihRight]
    | binary op => rw [Infix.node, Expr.unsigned, ihLeft, ihRight]
  | sign _ _ _ ih => rw [Expr.unsigned, ih]
  | unsigned _ ih => exact ih
  | name _ => rfl
  | number _ hx => rw [Expr.unsigned, Double.unsigned_eq_of_ofDigits? hx]
  | text _ => rfl
  | trueWord _ => rfl
  | falseWord _ => rfl
  | nullWord _ => rfl
  | parens _ _ _ ih => exact ih

/-- What keeps every phrase of a sort keeps such a phrase where it may be absent. -/
theorem Maybe.map_eq {α : Type} {Phrase : List Token → α → Prop} {f : α → α} {ts : List Token} {o : Option α}
    (h : Maybe Phrase ts o) (hf : ∀ us a, Phrase us a → f a = a) : o.map f = o := by
  rcases h with _ | h
  · rfl
  · exact congrArg some (hf _ _ h)

/-- What keeps every phrase of a sort keeps a list of them. -/
theorem CommaList.map_eq {α : Type} {Phrase : List Token → α → Prop} {f : α → α} {ts : List Token} {as : List α}
    (h : CommaList Phrase ts as) (hf : ∀ us a, Phrase us a → f a = a) : as.map f = as := by
  induction h with
  | last ha => rw [List.map_singleton, hf _ _ ha]
  | cons ha _ _ ih => rw [List.map_cons, hf _ _ ha, ih]

theorem Condition.unsigned_eq {ts : List Token} {e : Expr} (h : Condition ts e) : e.unsigned = e := by
  obtain ⟨-, he, -⟩ := h
  exact he.unsigned_eq

/-- A declared name that is read has no signs in its first value. -/
theorem Declarator.Derives.unsigned_eq {ts : List Token} {d : Declarator} (h : d.Derives ts) : d.unsigned = d := by
  rcases h with _ | ⟨-, -, he⟩
  · rfl
  · rw [Declarator.unsigned, Option.map_some, he.unsigned_eq]

theorem Declaration.unsigned_eq {ts : List Token} {ds : List Declarator} (h : Declaration ts ds) :
    ds.map Declarator.unsigned = ds := by
  obtain ⟨-, hds⟩ := h
  exact hds.map_eq fun _ _ => Declarator.Derives.unsigned_eq

theorem ForInit.Derives.unsigned_eq {ts : List Token} {i : ForInit} (h : i.Derives ts) : i.unsigned = i := by
  rcases h with hds | he
  · rw [ForInit.unsigned, hds.unsigned_eq]
  · rw [ForInit.unsigned, he.unsigned_eq]

mutual

/-- A statement that is read has no signs in its numbers. -/
theorem Stmt.Derives.unsigned_eq {next : Option TokenKind} {ts : List Token} {s : Stmt} (h : s.Derives next ts) :
    s.unsigned = s := by
  cases h with
  | empty _ => rfl
  | block _ hbody _ => rw [Stmt.unsigned, hbody.unsigned_eq]
  | eval he _ => rw [Stmt.unsigned, he.unsigned_eq]
  | declare hds _ => rw [Stmt.unsigned, hds.unsigned_eq]
  | ifThen _ hcs hbody _ => rw [Stmt.unsigned, hcs.unsigned_eq, hbody.unsigned_eq]
  | ifElse _ hcs hbody _ hother => rw [Stmt.unsigned, hcs.unsigned_eq, hbody.unsigned_eq, hother.unsigned_eq]
  | whileLoop _ hcs hbody => rw [Stmt.unsigned, hcs.unsigned_eq, hbody.unsigned_eq]
  | doWhile _ hbody _ hcs _ => rw [Stmt.unsigned, hbody.unsigned_eq, hcs.unsigned_eq]
  | forLoop hhead hbody =>
    obtain ⟨-, -, hinit, -, htest, -, hupdate, -⟩ := hhead
    rw [Stmt.unsigned, hinit.map_eq fun _ _ => ForInit.Derives.unsigned_eq,
      htest.map_eq fun _ _ => Expr.Derives.unsigned_eq, hupdate.map_eq fun _ _ => Expr.Derives.unsigned_eq,
      hbody.unsigned_eq]
  | function _ _ hbody _ => rw [Stmt.unsigned, hbody.unsigned_eq]
  | result _ hvalue _ => rw [Stmt.unsigned, hvalue.map_eq fun _ _ => Expr.Derives.unsigned_eq]

/-- Nor have statements one after the other. -/
theorem Stmt.DerivesAll.unsigned_eq {next : Option TokenKind} {ts : List Token} {ss : List Stmt}
    (h : Stmt.DerivesAll next ts ss) : Stmt.unsignedAll ss = ss := by
  cases h with
  | nil => rfl
  | cons hs hss => rw [Stmt.unsignedAll, hs.unsigned_eq, hss.unsigned_eq]

end

/-- The numbers of a program that is read have no signs. -/
theorem Program.unsigned_eq_of_parse {source : String} {p : Program} (h : parse source = .ok p) : p.unsigned = p := by
  obtain ⟨ts, -, -, hbody⟩ := derives_of_parse h
  rw [unsigned, hbody.unsigned_eq]

/-- Programs that are read are the same only if they are equal. -/
theorem Program.same_iff_eq {source source' : String} {p q : Program} (hp : parse source = .ok p)
    (hq : parse source' = .ok q) : (p == q) = true ↔ p = q := by
  constructor
  · intro h
    rw [← unsigned_eq_of_parse hp, ← unsigned_eq_of_parse hq, unsigned_eq_of_same h]
  · rintro rfl
    have h := unsigned_same (wellFormed_of_parse hp)
    rwa [unsigned_eq_of_parse hp] at h

end Scriptlet
