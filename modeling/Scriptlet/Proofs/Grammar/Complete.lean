import Scriptlet.Proofs.Grammar.Sound

/-!
# Every phrase is taken

A production that finds a phrase of its sort at the front takes exactly that phrase and gives its tree, whatever follows, as
long as what follows cannot carry the phrase on. The induction is on the derivation. Each level of operators reads from the
left and groups to the left, so what is shown of a level is that behind any of its expressions reading goes on with the next
operator.
-/

namespace Scriptlet

/-! ## The first token of an expression -/

/-- The kinds of tokens that an expression can start with. -/
def TokenKind.opensExpression (kind : TokenKind) : Bool :=
  kind.isLiteral || kind = .leftParen || kind = .name || kind = .additive || kind = .logicalNot

/-- An expression starts with a token that opens one. -/
theorem Expr.Derives.opens {rank : Rank} {ts : List Token} {e : Expr} (h : e.Derives rank ts) :
    ∃ t us, ts = t :: us ∧ t.kind.opensExpression = true := by
  induction h with
  | loosest _ ih => exact ih
  | assign _ _ _ _ ih _ =>
    obtain ⟨t, us, rfl, ht⟩ := ih
    exact ⟨t, _, rfl, ht⟩
  | operand _ ih => exact ih
  | operator _ _ _ ih _ =>
    obtain ⟨t, us, rfl, ht⟩ := ih
    exact ⟨t, _, rfl, ht⟩
  | sign hk _ _ _ => exact ⟨_, _, rfl, by rcases hk with hk | hk <;> rw [hk] <;> rfl⟩
  | unsigned _ ih => exact ih
  | name hk => exact ⟨_, _, rfl, by rw [hk]; rfl⟩
  | number hk _ => exact ⟨_, _, rfl, by rw [hk]; rfl⟩
  | text hk => exact ⟨_, _, rfl, by rw [hk]; rfl⟩
  | trueWord hk => exact ⟨_, _, rfl, by rw [hk]; rfl⟩
  | falseWord hk => exact ⟨_, _, rfl, by rw [hk]; rfl⟩
  | nullWord hk => exact ⟨_, _, rfl, by rw [hk]; rfl⟩
  | parens hk _ _ _ => exact ⟨_, _, rfl, by rw [hk]; rfl⟩

/-- No expression stands in front of a token that opens none. -/
theorem Expr.Derives.kind?_ne {rank : Rank} {ts rest : List Token} {e : Expr} {kind : TokenKind} (h : e.Derives rank ts)
    (hk : kind.opensExpression = false) : Parse.kind? (ts ++ rest) ≠ some kind := by
  obtain ⟨t, us, rfl, ht⟩ := h.opens
  intro heq
  cases heq
  rw [hk] at ht
  cases ht

/-- An expression has a token at least. -/
theorem Expr.Derives.ne_nil {rank : Rank} {ts : List Token} {e : Expr} (h : e.Derives rank ts) : ts ≠ [] := by
  obtain ⟨t, us, rfl, -⟩ := h.opens
  exact List.cons_ne_nil _ _

/-- The operators of a level end its operands. -/
theorem Level.operandRank_endsAt (l : Level) : l.operandRank.EndsAt (some l.kind) := by
  rw [Level.operandRank_eq]
  cases l <;> simp only [Level.tighter?, Option.elim, Rank.EndsAt]
  all_goals
    intro m hm heq
    cases m <;> cases heq
    revert hm
    decide

/-- An assignment operator ends what stands on the left of it. -/
theorem Rank.endsAt_of_isAssignment {kind : TokenKind} (h : kind.isAssignment = true) :
    (Rank.level .or).EndsAt (some kind) := by
  intro m _ heq
  cases heq
  cases m <;> cases h

namespace Parse

variable {α : Type} {stop : Option LexFault} {ts us rest : List Token}

/-! ## Single tokens -/

/-- A token of the kind that is asked for is taken. -/
theorem expect_complete {kind : TokenKind} {t : Token} (hk : t.kind = kind) :
    plain (expect stop kind (t :: rest)) = leave stop t rest := by
  rw [plain_expect_cons, if_pos hk]

/-- A token of the kind that is asked for is taken, and gives what its text is read as. -/
theorem expectAs_complete {kind : TokenKind} {read : String → Option α} {t : Token} {a : α} (hk : t.kind = kind)
    (hread : read t.text = some a) : plain (expectAs stop kind read (t :: rest)) = leave stop a rest := by
  rw [plain_expectAs, expect_complete hk]
  exact andThen_leave _ _ _ _ (by rw [hread])

/-- A name is taken and gives its text. -/
theorem name_complete {t : Token} (hk : t.kind = .name) : plain (name stop (t :: rest)) = leave stop t.text rest :=
  expectAs_complete hk rfl

/-- Where the tokens were not cut short, or are not used up, a value is given. -/
theorem leave_of_sure (a : α) (h : Sure stop rest) : leave stop a rest = .ok (a, rest) := by
  cases rest with
  | nil =>
    rw [h rfl]
    exact leave_none _ _
  | cons t rest => exact leave_cons _ _ _

theorem leave_of_ne_nil (a : α) (h : rest ≠ []) : leave stop a rest = .ok (a, rest) :=
  leave_of_sure a fun hnil => absurd hnil h

/-! ## Expressions -/

/-- The production of a rank takes an expression from the front of whatever cannot carry it on. -/
def TakesWhole (rank : Rank) (ts : List Token) (e : Expr) : Prop :=
  ∀ stop rest, rank.EndsAt (kind? rest) → read stop rank (ts ++ rest) = leave stop e rest

/-- The production of a rank takes an expression from the front; a level goes on with the operators of the level. -/
def Takes : Rank → List Token → Expr → Prop
  | .level l, ts, e => ∀ stop rest, l.operandRank.EndsAt (kind? rest) →
    read stop (.level l) (ts ++ rest) = andThen (leave stop e rest) fun e rest => plain (chain stop l e rest)
  | rank, ts, e => TakesWhole rank ts e

/-- What takes an expression and goes on behind it takes the expression. -/
theorem Takes.whole {rank : Rank} {e : Expr} (h : Takes rank ts e) : TakesWhole rank ts e := by
  cases rank with
  | level l =>
    intro stop rest hends
    obtain ⟨hends', hne⟩ := (Rank.endsAt_level_iff _ _).mp hends
    rw [h stop rest hends']
    refine andThen_leave _ _ _ _ ?_
    rw [plain_chain, if_neg hne]
  | whole => exact h
  | signed => exact h
  | atom => exact h

/-- An expression of the weakest level is a whole expression when no assignment operator follows. -/
theorem takes_loosest {e : Expr} (h : Takes (.level .or) ts e) : Takes .whole ts e := by
  intro stop rest hends
  obtain ⟨hends', hne⟩ := (Rank.endsAt_whole_iff _).mp hends
  rw [read_whole, h.whole stop rest hends']
  refine andThen_leave _ _ _ _ ?_
  have hnone : assignment? rest = none := by
    simpa [assignment?, Option.filter_eq_none_iff] using hne
  rw [hnone]

/-- Behind a name an assignment operator is taken, and then the whole expression on its right. -/
theorem takes_assign {t : Token} {op : AssignOp} {x : String} {e : Expr} (hleft : Takes (.level .or) ts (.name x))
    (hk : t.kind.isAssignment = true) (hop : AssignOp.ofText? t.text = some op) (hus : us ≠ []) (h : Takes .whole us e) :
    Takes .whole (ts ++ t :: us) (.assign op x e) := by
  intro stop rest hends
  have hop' : (Rank.level .or).EndsAt (kind? (t :: (us ++ rest))) := Rank.endsAt_of_isAssignment hk
  rw [read_whole, List.append_assoc, List.cons_append, hleft.whole stop _ hop', leave_cons, andThen_ok]
  have hsome : assignment? (t :: (us ++ rest)) = some t.kind := by
    simp [assignment?, kind?, hk]
  rw [hsome]
  dsimp only
  rw [expectAs_complete rfl hop, leave_of_ne_nil _ (by simp [hus]), andThen_ok]
  dsimp only [target]
  rw [h stop rest hends]
  exact andThen_leave _ _ _ _ rfl

/-- An operand is an expression of its level: reading goes on behind it with the operators of the level. -/
theorem takes_operand {l : Level} {e : Expr} (h : Takes l.operandRank ts e) : Takes (.level l) ts e := by
  intro stop rest hends
  rw [read_level, h.whole stop rest hends]

/-- Behind an expression of a level an operator and its right side are taken, and reading goes on behind them. -/
theorem takes_operator {l : Level} {t : Token} {op : Infix} {a b : Expr} (hleft : Takes (.level l) ts a)
    (hop : l.Joins t op) (hus : us ≠ []) (h : Takes l.operandRank us b) : Takes (.level l) (ts ++ t :: us) (op.node a b) := by
  intro stop rest hends
  have hk := hop.kind_eq
  have hends' : l.operandRank.EndsAt (kind? (t :: (us ++ rest))) := by
    have : kind? (t :: (us ++ rest)) = some l.kind := by rw [← hk]; rfl
    rw [this]
    exact l.operandRank_endsAt
  rw [List.append_assoc, List.cons_append, hleft stop _ hends', leave_cons, andThen_ok, plain_chain,
    if_pos (by rw [← hk]; rfl), expectAs_complete hk hop.node?_eq, leave_of_ne_nil _ (by simp [hus]), andThen_ok,
    h.whole stop rest hends]
  cases rest with
  | nil => cases stop <;> rfl
  | cons t rest => simp only [leave_cons, andThen_ok]

/-- A sign is taken and then what it stands in front of. -/
theorem takes_sign {t : Token} {op : UnaryOp} {e : Expr} (hk : t.kind = .additive ∨ t.kind = .logicalNot)
    (hop : UnaryOp.ofText? t.text = some op) (hts : ts ≠ []) (h : Takes .signed ts e) :
    Takes .signed (t :: ts) (.unary op e) := by
  intro stop rest hends
  have hsome : sign? (t :: (ts ++ rest)) = some t.kind := by
    rcases hk with hk | hk <;> simp [sign?, kind?, hk]
  rw [read_signed, List.cons_append, hsome]
  dsimp only
  rw [expectAs_complete rfl hop, leave_of_ne_nil _ (by simp [hts]), andThen_ok, h stop rest hends]
  exact andThen_leave _ _ _ _ rfl

/-- A token that is no sign is left to what follows the signs. -/
theorem sign?_eq_none {t : Token} (h₁ : t.kind ≠ .additive) (h₂ : t.kind ≠ .logicalNot) : sign? (t :: rest) = none := by
  simp [sign?, kind?, h₁, h₂]

/-- What needs no sign is taken where a sign might stand. -/
theorem takes_unsigned {e : Expr} (hatom : e.Derives .atom ts) (h : Takes .atom ts e) : Takes .signed ts e := by
  intro stop rest hends
  have hnone : sign? (ts ++ rest) = none := by
    cases hatom with
    | name hk => exact sign?_eq_none (by rw [hk]; nofun) (by rw [hk]; nofun)
    | number hk _ => exact sign?_eq_none (by rw [hk]; nofun) (by rw [hk]; nofun)
    | text hk => exact sign?_eq_none (by rw [hk]; nofun) (by rw [hk]; nofun)
    | trueWord hk => exact sign?_eq_none (by rw [hk]; nofun) (by rw [hk]; nofun)
    | falseWord hk => exact sign?_eq_none (by rw [hk]; nofun) (by rw [hk]; nofun)
    | nullWord hk => exact sign?_eq_none (by rw [hk]; nofun) (by rw [hk]; nofun)
    | parens hk _ _ => exact sign?_eq_none (by rw [hk]; nofun) (by rw [hk]; nofun)
  rw [read_signed, hnone]
  exact h stop rest hends

/-- A run of digits is taken as the number that it spells. -/
theorem literal_number {t : Token} {x : Double} (hk : t.kind = .number) (hx : Double.ofDigits? t.text = some x) :
    plain (literal stop (t :: rest)) = leave stop (.number x) rest := by
  simp only [literal, kind?, List.head?_cons, Option.map_some, hk]
  exact expectAs_complete hk (by rw [hx]; rfl)

/-- A literal is read by the rule of its kind. -/
theorem takes_literal {t : Token} {e : Expr} (hliteral : t.kind.isLiteral = true)
    (h : ∀ stop rest, plain (literal stop (t :: rest)) = leave stop e rest) : Takes .atom [t] e := by
  intro stop rest _
  have hne : kind? (t :: rest) ≠ some .leftParen := by
    intro heq
    cases hk : t.kind <;> simp_all [kind?, TokenKind.isLiteral]
  rw [read_atom, List.singleton_append, if_neg hne, if_pos (by simp [kind?, hliteral])]
  exact h stop rest

theorem takes_name {t : Token} (hk : t.kind = .name) : Takes .atom [t] (.name t.text) := by
  intro stop rest _
  rw [read_atom, List.singleton_append, if_neg (by simp [kind?, hk]), if_neg (by simp [kind?, hk, TokenKind.isLiteral])]
  exact expectAs_complete hk rfl

/-- Between parentheses a whole expression is taken: nothing that starts with the closing one carries it on. -/
theorem takes_parens {o c : Token} {e : Expr} (hok : o.kind = .leftParen) (hck : c.kind = .rightParen)
    (h : Takes .whole ts e) : Takes .atom (o :: (ts ++ [c])) e := by
  intro stop rest _
  have hends : Rank.whole.EndsAt (kind? (c :: rest)) := by
    have : kind? (c :: rest) = some .rightParen := by rw [← hck]; rfl
    rw [this]
    exact ⟨fun l => by cases l <;> nofun, fun kind hkind => by cases hkind; rfl⟩
  rw [read_atom, List.cons_append, List.append_assoc, List.singleton_append, if_pos (by rw [← hok]; rfl),
    expect_complete hok, leave_append_cons, andThen_ok, h stop _ hends, leave_cons, andThen_ok, expect_complete hck]
  exact andThen_leave _ _ _ _ rfl

end Parse

open Parse in
/-- Every production of expressions takes every expression of its rank. -/
theorem Expr.Derives.takes {rank : Rank} {ts : List Token} {e : Expr} (h : e.Derives rank ts) : Takes rank ts e := by
  induction h with
  | loosest _ ih => exact takes_loosest ih
  | assign _ hk hop hus ihLeft ih => exact takes_assign ihLeft hk hop hus.ne_nil ih
  | operand _ ih => exact takes_operand ih
  | operator _ hop hus ihLeft ih => exact takes_operator ihLeft hop hus.ne_nil ih
  | sign hk hop hts ih => exact takes_sign hk hop hts.ne_nil ih
  | unsigned hatom ih => exact takes_unsigned hatom ih
  | name hk => exact takes_name hk
  | number hk hx => exact takes_literal (by rw [hk]; rfl) fun stop rest => literal_number hk hx
  | text hk =>
    refine takes_literal (by rw [hk]; rfl) ?_
    intro stop rest
    simp only [literal, kind?, List.head?_cons, Option.map_some, hk]
    exact expectAs_complete hk rfl
  | trueWord hk =>
    refine takes_literal (by rw [hk]; rfl) ?_
    intro stop rest
    simp only [literal, kind?, List.head?_cons, Option.map_some, hk]
    exact expectAs_complete hk rfl
  | falseWord hk =>
    refine takes_literal (by rw [hk]; rfl) ?_
    intro stop rest
    simp only [literal, kind?, List.head?_cons, Option.map_some, hk]
    exact expectAs_complete hk rfl
  | nullWord hk =>
    refine takes_literal (by rw [hk]; rfl) ?_
    intro stop rest
    simp only [literal, kind?, List.head?_cons, Option.map_some, hk]
    exact expectAs_complete hk rfl
  | parens hok _ hck ih => exact takes_parens hok hck ih

namespace Parse

/-- An expression is read in full in front of anything that cannot carry it on, and gives its tree. -/
theorem read_complete {rank : Rank} {e : Expr} (h : e.Derives rank ts) (hends : rank.EndsAt (kind? rest)) :
    read stop rank (ts ++ rest) = leave stop e rest :=
  h.takes.whole stop rest hends

/-- The signs behind which no expression goes on. -/
theorem whole_endsAt {kind : TokenKind} (h : kind = .semicolon ∨ kind = .rightParen ∨ kind = .comma) :
    Rank.whole.EndsAt (some kind) := by
  refine ⟨fun l heq => ?_, fun k hk => ?_⟩
  · cases heq
    cases l <;> simp [Level.kind] at h
  · cases hk
    rcases h with rfl | rfl | rfl <;> rfl

/-! ## Parts of statements -/

/-- In front of the token that closes a clause the expression of the clause is taken, or its absence seen. -/
theorem expressionBefore_complete {closing : TokenKind} {c : Token} {a : Option Expr}
    (hclosing : closing = .semicolon ∨ closing = .rightParen) (h : Maybe (Expr.Derives .whole) ts a)
    (hck : c.kind = closing) :
    plain (expressionBefore stop closing (ts ++ c :: rest)) = .ok (a, c :: rest) := by
  rw [plain_expressionBefore]
  cases h with
  | absent => rw [if_pos (by rw [← hck]; rfl)]; rfl
  | present he =>
    have hopens : closing.opensExpression = false := by rcases hclosing with rfl | rfl <;> rfl
    have hends : Rank.whole.EndsAt (kind? (c :: rest)) := by
      rw [kind?_cons, hck]
      exact whole_endsAt (by rcases hclosing with h | h <;> simp [h])
    rw [if_neg (he.kind?_ne hopens), read_complete he hends, leave_cons, andThen_ok]

/-- A condition is taken in full, with its parentheses. -/
theorem condition_complete {e : Expr} (h : Condition ts e) : plain (condition stop (ts ++ rest)) = leave stop e rest := by
  cases h with
  | @parens us o c _ hok he hck =>
    have hends : Rank.whole.EndsAt (kind? (c :: rest)) := whole_endsAt (by simp [hck])
    rw [plain_condition, List.cons_append, List.append_assoc, List.singleton_append, expect_complete hok,
      leave_append_cons, andThen_ok, read_complete he hends, leave_cons, andThen_ok, expect_complete hck]
    exact andThen_leave _ _ _ _ rfl

/-- A declared name is taken in full with its first value. -/
theorem declarator_complete {d : Declarator} (h : d.Derives ts) (hends : Rank.whole.EndsAt (kind? rest)) :
    plain (declarator stop (ts ++ rest)) = leave stop d rest := by
  rw [plain_declarator]
  cases h with
  | bare hk =>
    rw [List.singleton_append, name_complete hk]
    refine andThen_leave _ _ _ _ ?_
    have hne : kind? rest ≠ some .assign := by
      intro heq
      have := hends.2 .assign heq
      cases this
    rw [if_neg hne]
  | init hk hsk he =>
    rw [List.cons_append, name_complete hk, List.cons_append, leave_cons, andThen_ok, if_pos (by rw [← hsk]; rfl),
      expect_complete hsk, leave_of_ne_nil _ (by simp [he.ne_nil]), andThen_ok, read_complete he hends]
    exact andThen_leave _ _ _ _ rfl

/-- A list is taken to its last element when the commas between the elements cannot carry an element on. -/
theorem list_complete {Phrase : List Token → α → Prop} (Ends : Option TokenKind → Prop) {item : List Token → Reading α}
    {list : List Token → Reading (List α)} (hlist : ReadsList stop item list) (hcomma : Ends (some .comma))
    (hne : ∀ {ts a}, Phrase ts a → ts ≠ [])
    (hitem : ∀ {ts a rest}, Phrase ts a → Ends (kind? rest) → item (ts ++ rest) = leave stop a rest) {as : List α}
    (h : CommaList Phrase ts as) (hends : Ends (kind? rest)) (hrest : kind? rest ≠ some .comma) :
    list (ts ++ rest) = leave stop as rest := by
  induction h with
  | last ha =>
    rw [hlist, hitem ha hends]
    refine andThen_leave _ _ _ _ ?_
    rw [if_neg hrest]
  | @cons ts us t a as ha ht hus ih =>
    have hkind : kind? (t :: (us ++ rest)) = some .comma := by rw [← ht]; rfl
    have hus' : us ≠ [] := by
      cases hus with
      | last ha => exact hne ha
      | cons ha _ _ => simp
    rw [hlist, List.append_assoc, List.cons_append, hitem ha (by rw [hkind]; exact hcomma), leave_cons, andThen_ok,
      if_pos hkind, expect_complete ht, leave_of_ne_nil _ (by simp [hus']), andThen_ok, ih]
    exact andThen_leave _ _ _ _ rfl

/-- In front of a semicolon a declaration is taken in full. -/
theorem declaration_complete {s : Token} {ds : List Declarator} (h : Declaration ts ds) (hsk : s.kind = .semicolon) :
    plain (declaration stop (ts ++ s :: rest)) = .ok (ds, s :: rest) := by
  cases h with
  | list hk hds =>
    have hends : Rank.whole.EndsAt (kind? (s :: rest)) := whole_endsAt (by simp [hsk])
    have hne : ∀ {ts : List Token} {d : Declarator}, d.Derives ts → ts ≠ [] := by
      intro ts d h
      cases h <;> simp
    rw [plain_declaration, List.cons_append, expect_complete hk, leave_append_cons, andThen_ok]
    have hlist : plain (declarators stop (_ ++ s :: rest)) = leave stop ds (s :: rest) :=
      list_complete Rank.whole.EndsAt plain_declarators (whole_endsAt (by simp)) hne declarator_complete hds hends
        (by simp [hsk])
    rw [hlist, leave_cons]

/-- In front of the closing parenthesis the parameters are taken in full. -/
theorem parameters_complete {c : Token} {ps : List String} (h : Parameters ts ps) (hck : c.kind = .rightParen) :
    plain (parameters stop (ts ++ c :: rest)) = .ok (ps, c :: rest) := by
  rw [plain_parameters]
  cases h with
  | none => rw [if_pos (by rw [← hck]; rfl)]; rfl
  | some hps =>
    have hne : kind? (ts ++ c :: rest) ≠ some .rightParen := by
      cases hps with
      | last hp => cases hp with | name hk => simp [kind?, hk]
      | cons hp _ _ => cases hp with | name hk => simp [kind?, hk]
    have hne' : ∀ {ts x}, Parameter ts x → ts ≠ [] := by
      intro ts x h
      cases h
      simp
    have hitem : ∀ {ts x rest}, Parameter ts x → True → plain (name stop (ts ++ rest)) = leave stop x rest := by
      intro ts x rest h _
      cases h with
      | name hk => exact name_complete hk
    rw [if_neg hne]
    have hlist : plain (names stop (ts ++ c :: rest)) = leave stop ps (c :: rest) :=
      list_complete (fun _ => True) plain_names trivial hne' hitem hps trivial (by simp [hck])
    rw [hlist, leave_cons]

/-- In front of a semicolon the opening of a counting loop is taken in full. -/
theorem loopInit_complete {s : Token} {init : Option ForInit} (h : Maybe ForInit.Derives ts init)
    (hsk : s.kind = .semicolon) : plain (loopInit stop (ts ++ s :: rest)) = .ok (init, s :: rest) := by
  rw [plain_loopInit]
  cases h with
  | absent => rw [if_pos (by simp [hsk])]; rfl
  | present h =>
    cases h with
    | declare hds =>
      have hkind : kind? (ts ++ s :: rest) = some (.keyword .letWord) := by
        cases hds with
        | list hk _ => simp [hk]
      rw [if_neg (by simp [hkind]), if_pos hkind, declaration_complete hds hsk, andThen_ok]
    | eval he =>
      have hends : Rank.whole.EndsAt (kind? (s :: rest)) := whole_endsAt (by simp [hsk])
      rw [if_neg (he.kind?_ne rfl), if_neg (he.kind?_ne rfl), read_complete he hends, leave_cons, andThen_ok]

/-- The head of a counting loop is taken in full. -/
theorem loopHead_complete {head : LoopHead} (h : head.Derives ts) :
    plain (loopHead stop (ts ++ rest)) = leave stop head rest := by
  cases h with
  | @head is ts us f o s₁ s₂ c init test update hf ho hinit hs₁ htest hs₂ hupdate hc =>
    have hts : f :: o :: (is ++ s₁ :: (ts ++ s₂ :: (us ++ [c]))) ++ rest =
        f :: o :: (is ++ s₁ :: (ts ++ s₂ :: (us ++ c :: rest))) := by simp
    rw [hts, plain_loopHead, expect_complete hf, leave_cons, andThen_ok, expect_complete ho, leave_append_cons, andThen_ok,
      loopInit_complete hinit hs₁, andThen_ok, expect_complete hs₁, leave_append_cons, andThen_ok,
      expressionBefore_complete (.inl rfl) htest hs₂, andThen_ok, expect_complete hs₂, leave_append_cons, andThen_ok,
      expressionBefore_complete (.inr rfl) hupdate hc, andThen_ok, expect_complete hc]
    exact andThen_leave _ _ _ _ rfl

/-- The head of a function is taken in full. -/
theorem functionHead_complete {x : String} {ps : List String} (h : FunctionHead ts x ps) :
    plain (functionHead stop (ts ++ rest)) = leave stop (x, ps) rest := by
  cases h with
  | @head ts d f o c _ hd hf ho hps hc =>
    have hts : d :: f :: o :: (ts ++ [c]) ++ rest = d :: f :: o :: (ts ++ c :: rest) := by simp
    rw [hts, plain_functionHead, expect_complete hd, leave_cons, andThen_ok, name_complete hf, leave_cons, andThen_ok,
      expect_complete ho, leave_append_cons, andThen_ok, parameters_complete hps hc, andThen_ok, expect_complete hc]
    exact andThen_leave _ _ _ _ rfl

end Parse

/-! ## The first token of a statement -/

/-- The kinds of tokens that a statement can start with. -/
def TokenKind.opensStatement (kind : TokenKind) : Bool :=
  kind ∈ Parse.compoundOpeners || kind = .semicolon || kind = .keyword .letWord || kind = .keyword .returnWord ||
    kind.opensExpression

/-- A statement starts with a token that opens one. -/
theorem Stmt.Derives.opens {next : Option TokenKind} {ts : List Token} {s : Stmt} (h : s.Derives next ts) :
    ∃ t us, ts = t :: us ∧ t.kind.opensStatement = true := by
  cases h with
  | empty hk => exact ⟨_, _, rfl, by rw [hk]; rfl⟩
  | block hk _ _ => exact ⟨_, _, rfl, by rw [hk]; rfl⟩
  | eval he _ =>
    obtain ⟨t, us, rfl, ht⟩ := he.opens
    exact ⟨t, _, rfl, by simp [TokenKind.opensStatement, ht]⟩
  | declare hds _ =>
    cases hds with
    | list hk _ => exact ⟨_, _, rfl, by rw [hk]; rfl⟩
  | ifThen hk _ _ _ => exact ⟨_, _, rfl, by rw [hk]; rfl⟩
  | ifElse hk _ _ _ _ => exact ⟨_, _, rfl, by rw [hk]; rfl⟩
  | whileLoop hk _ _ => exact ⟨_, _, rfl, by rw [hk]; rfl⟩
  | doWhile hk _ _ _ _ => exact ⟨_, _, rfl, by rw [hk]; rfl⟩
  | forLoop hhead _ =>
    cases hhead with
    | head hk _ _ _ _ _ _ _ => exact ⟨_, _, rfl, by rw [hk]; rfl⟩
  | function hhead _ _ _ =>
    cases hhead with
    | head hk _ _ _ _ => exact ⟨_, _, rfl, by rw [hk]; rfl⟩
  | result hk _ _ => exact ⟨_, _, rfl, by rw [hk]; rfl⟩

/-- A statement has a token at least. -/
theorem Stmt.Derives.ne_nil {next : Option TokenKind} {ts : List Token} {s : Stmt} (h : s.Derives next ts) : ts ≠ [] := by
  obtain ⟨t, us, rfl, -⟩ := h.opens
  exact List.cons_ne_nil _ _

namespace Parse

variable {stop : Option LexFault} {ts us cs rest : List Token} {next : Option TokenKind}

/-! ## Statements -/

/-- A statement is taken from the front of whatever it was derived in front of. -/
def TakesStatement (next : Option TokenKind) (ts : List Token) (s : Stmt) : Prop :=
  ∀ stop rest, kind? rest = next → plain (statement stop (ts ++ rest)) = leave stop s rest

/-- Statements are taken from the front one after the other, and reading goes on with what follows them unless it closes. -/
def TakesStatements (next : Option TokenKind) (ts : List Token) (ss : List Stmt) : Prop :=
  ss ≠ [] → ∀ stop closing rest, closing = none ∨ closing = some .rightBrace → kind? rest = next →
    plain (statements stop closing (ts ++ rest)) = andThen (leave stop ss rest) fun ss rest =>
      if kind? rest = none ∨ kind? rest = closing then .ok (ss, rest)
      else andThen (plain (statements stop closing rest)) fun others rest => .ok (ss ++ others, rest)

/-- Statements that are taken in front of a closing brace are taken as a block. -/
theorem block_complete {o c : Token} {body : List Stmt} (hok : o.kind = .leftBrace) (hck : c.kind = .rightBrace)
    (hts : body = [] → ts = []) (hopens : body ≠ [] → kind? (ts ++ c :: rest) ≠ some .rightBrace)
    (h : TakesStatements (some .rightBrace) ts body) :
    plain (block stop (o :: (ts ++ c :: rest))) = leave stop body rest := by
  rw [plain_block, expect_complete hok, leave_append_cons, andThen_ok]
  by_cases hbody : body = []
  · rw [hts hbody, List.nil_append, if_pos (by simp [hck]), expect_complete hck]
    exact andThen_leave _ _ _ _ (by rw [hbody])
  · rw [if_neg (hopens hbody), h hbody stop _ _ (.inr rfl) (by simp [hck]), leave_cons, andThen_ok,
      if_pos (by simp [hck]), andThen_ok, expect_complete hck]
    exact andThen_leave _ _ _ _ rfl

/-- An `if` without `else` is taken where no `else` follows. -/
theorem takesStatement_ifThen {t : Token} {test : Expr} {body : Stmt} (hk : t.kind = .keyword .ifWord)
    (hcs : Condition cs test) (hts : ts ≠ []) (hnext : next ≠ some (.keyword .elseWord)) (h : TakesStatement next ts body) :
    TakesStatement next (t :: (cs ++ ts)) (.ifThen test body) := by
  intro stop rest hrest
  rw [List.cons_append, List.append_assoc, plain_statement_if (by simp [hk]), expect_complete hk,
    leave_of_ne_nil _ (by simp [hts]), andThen_ok, condition_complete hcs, leave_of_ne_nil _ (by simp [hts]), andThen_ok,
    h stop rest hrest]
  refine andThen_leave _ _ _ _ ?_
  rw [if_neg (by rw [hrest]; exact hnext)]

/-- An `if` with `else` is taken when its first body is taken in front of the `else`. -/
theorem takesStatement_ifElse {t e : Token} {test : Expr} {body other : Stmt} (hk : t.kind = .keyword .ifWord)
    (hcs : Condition cs test) (hek : e.kind = .keyword .elseWord) (hus : us ≠ [])
    (hbody : TakesStatement (some (.keyword .elseWord)) ts body) (h : TakesStatement next us other) :
    TakesStatement next (t :: (cs ++ (ts ++ e :: us))) (.ifElse test body other) := by
  intro stop rest hrest
  have hts : t :: (cs ++ (ts ++ e :: us)) ++ rest = t :: (cs ++ (ts ++ e :: (us ++ rest))) := by simp
  rw [hts, plain_statement_if (by simp [hk]), expect_complete hk, leave_of_ne_nil _ (by simp), andThen_ok,
    condition_complete hcs, leave_append_cons, andThen_ok, hbody stop _ (by simp [hek]), leave_cons, andThen_ok,
    if_pos (by simp [hek]), expect_complete hek, leave_of_ne_nil _ (by simp [hus]), andThen_ok, h stop rest hrest]
  exact andThen_leave _ _ _ _ rfl

theorem takesStatement_whileLoop {t : Token} {test : Expr} {body : Stmt} (hk : t.kind = .keyword .whileWord)
    (hcs : Condition cs test) (hts : ts ≠ []) (h : TakesStatement next ts body) :
    TakesStatement next (t :: (cs ++ ts)) (.whileLoop test body) := by
  intro stop rest hrest
  rw [List.cons_append, List.append_assoc, plain_statement_while (by simp [hk]), expect_complete hk,
    leave_of_ne_nil _ (by simp [hts]), andThen_ok, condition_complete hcs, leave_of_ne_nil _ (by simp [hts]), andThen_ok,
    h stop rest hrest]
  exact andThen_leave _ _ _ _ rfl

/-- A loop that tests behind its body is taken when the body is taken in front of the `while`. -/
theorem takesStatement_doWhile {t w s : Token} {test : Expr} {body : Stmt} (hk : t.kind = .keyword .doWord)
    (hwk : w.kind = .keyword .whileWord) (hcs : Condition cs test) (hsk : s.kind = .semicolon)
    (h : TakesStatement (some (.keyword .whileWord)) ts body) :
    TakesStatement next (t :: (ts ++ w :: (cs ++ [s]))) (.doWhile body test) := by
  intro stop rest _
  have hts : t :: (ts ++ w :: (cs ++ [s])) ++ rest = t :: (ts ++ w :: (cs ++ s :: rest)) := by simp
  rw [hts, plain_statement_do (by simp [hk]), expect_complete hk, leave_append_cons, andThen_ok,
    h stop _ (by simp [hwk]), leave_cons, andThen_ok, expect_complete hwk, leave_append_cons, andThen_ok,
    condition_complete hcs, leave_cons, andThen_ok, expect_complete hsk]
  exact andThen_leave _ _ _ _ rfl

/-- A counting loop is taken when its body is. -/
theorem takesStatement_forLoop {head : LoopHead} {body : Stmt} (hcs : head.Derives cs) (hts : ts ≠ [])
    (h : TakesStatement next ts body) :
    TakesStatement next (cs ++ ts) (.forLoop head.init head.test head.update body) := by
  intro stop rest hrest
  have hkind : kind? (cs ++ (ts ++ rest)) = some (.keyword .forWord) := by
    cases hcs with
    | head hk _ _ _ _ _ _ _ => simp [hk]
  rw [List.append_assoc, plain_statement_for hkind, loopHead_complete hcs, leave_of_ne_nil _ (by simp [hts]), andThen_ok,
    h stop rest hrest]
  exact andThen_leave _ _ _ _ rfl

/-- A function is taken when its block is. -/
theorem takesStatement_function {o c : Token} {x : String} {ps : List String} {body : List Stmt}
    (hcs : FunctionHead cs x ps)
    (h : ∀ stop rest, plain (block stop (o :: (ts ++ c :: rest))) = leave stop body rest) :
    TakesStatement next (cs ++ o :: (ts ++ [c])) (.function x ps body) := by
  intro stop rest _
  have hts : cs ++ o :: (ts ++ [c]) ++ rest = cs ++ o :: (ts ++ c :: rest) := by simp
  have hkind : kind? (cs ++ o :: (ts ++ c :: rest)) = some (.keyword .defWord) := by
    cases hcs with
    | head hk _ _ _ _ => simp [hk]
  rw [hts, plain_statement_def hkind, functionHead_complete hcs, leave_cons, andThen_ok, h stop rest]
  exact andThen_leave _ _ _ _ rfl

/-- A statement that holds no other one is left to its own production. -/
theorem takesStatement_simple {t : Token} {s : Stmt} (hk : t.kind ∉ compoundOpeners)
    (h : ∀ stop rest, plain (simple stop (t :: us ++ rest)) = leave stop s rest) : TakesStatement next (t :: us) s := by
  intro stop rest _
  rw [plain_statement_simple]
  · exact h stop rest
  · intro kind hkind heq
    cases heq
    exact hk hkind

theorem takesStatement_empty {t : Token} (hk : t.kind = .semicolon) : TakesStatement next [t] .empty := by
  refine takesStatement_simple (by rw [hk]; decide) ?_
  intro stop rest
  rw [plain_simple, List.singleton_append, if_pos (by simp [hk]), expect_complete hk]
  exact andThen_leave _ _ _ _ rfl

theorem takesStatement_declare {s : Token} {ds : List Declarator} (h : Declaration ts ds) (hsk : s.kind = .semicolon) :
    TakesStatement next (ts ++ [s]) (.declare ds) := by
  cases hds : h with
  | @list us t _ hk _ =>
    refine takesStatement_simple (by rw [hk]; decide) ?_
    intro stop rest
    have hts : t :: (us ++ [s]) ++ rest = (t :: us) ++ s :: rest := by simp
    rw [List.append_eq, hts, plain_simple, if_neg (by simp [hk]), if_pos (by simp [hk]), declaration_complete h hsk,
      andThen_ok, expect_complete hsk]
    exact andThen_leave _ _ _ _ rfl

theorem takesStatement_result {t s : Token} {value : Option Expr} (hk : t.kind = .keyword .returnWord)
    (h : Maybe (Expr.Derives .whole) ts value) (hsk : s.kind = .semicolon) :
    TakesStatement next (t :: (ts ++ [s])) (.result value) := by
  refine takesStatement_simple (by rw [hk]; decide) ?_
  intro stop rest
  have hts : t :: (ts ++ [s]) ++ rest = t :: (ts ++ s :: rest) := by simp
  rw [hts, plain_simple, if_neg (by simp [hk]), if_neg (by simp [hk]), if_pos (by simp [hk]), expect_complete hk,
    leave_append_cons, andThen_ok, expressionBefore_complete (.inl rfl) h hsk, andThen_ok, expect_complete hsk]
  exact andThen_leave _ _ _ _ rfl

/-- An expression in front of a semicolon is taken as a statement. -/
theorem takesStatement_eval {s : Token} {e : Expr} (h : e.Derives .whole ts) (hsk : s.kind = .semicolon) :
    TakesStatement next (ts ++ [s]) (.eval e) := by
  obtain ⟨t, us, rfl, ht⟩ := h.opens
  refine takesStatement_simple (fun hmem => ?_) fun stop rest => ?_
  · revert ht
    have : ∀ kind ∈ compoundOpeners, kind.opensExpression = false := by decide
    rw [this _ hmem]
    nofun
  · have hts : t :: (us ++ [s]) ++ rest = (t :: us) ++ s :: rest := by simp
    have hends : Rank.whole.EndsAt (kind? (s :: rest)) := whole_endsAt (by simp [hsk])
    rw [List.append_eq, hts, plain_simple, if_neg (h.kind?_ne rfl), if_neg (h.kind?_ne rfl), if_neg (h.kind?_ne rfl),
      read_complete h hends, leave_cons, andThen_ok, expect_complete hsk]
    exact andThen_leave _ _ _ _ rfl

/-- A statement and the statements behind it are taken one after the other. -/
theorem takesStatements_cons {s : Stmt} {ss : List Stmt} (hnil : ss = [] → us = [])
    (hopens : ss ≠ [] → ∃ t vs, us = t :: vs ∧ t.kind.opensStatement = true)
    (hs : TakesStatement ((kind? us).or next) ts s) (hss : TakesStatements next us ss) :
    TakesStatements next (ts ++ us) (s :: ss) := by
  intro _ stop closing rest hclosing hrest
  have hkind : kind? (us ++ rest) = (kind? us).or next := by rw [kind?_append, hrest]
  rw [List.append_assoc, plain_statements, hs stop _ hkind]
  by_cases h : ss = []
  · rw [hnil h, h, List.nil_append]
    cases rest with
    | nil => cases stop <;> rfl
    | cons t rest => simp only [leave_cons, andThen_ok, List.singleton_append]
  · obtain ⟨t, vs, rfl, ht⟩ := hopens h
    -- A statement follows, so what stands behind the first one does not close.
    have hne : ¬(kind? (t :: vs ++ rest) = none ∨ kind? (t :: vs ++ rest) = closing) := by
      rintro (heq | heq)
      · cases heq
      · rcases hclosing with rfl | rfl
        · cases heq
        · rw [show t.kind = .rightBrace from Option.some.inj heq] at ht
          cases ht
    rw [List.cons_append, leave_cons, andThen_ok, ← List.cons_append, if_neg hne, hss h stop closing rest hclosing hrest]
    cases rest with
    | nil => cases stop <;> simp [leave_nil]
    | cons u rest =>
      simp only [leave_cons, andThen_ok]
      split
      · rfl
      · cases plain (statements stop closing (u :: rest)) <;> rfl

end Parse

/-- No statement is made up of no tokens. -/
theorem Stmt.DerivesAll.eq_nil {next : Option TokenKind} {ts : List Token} (h : Stmt.DerivesAll next ts []) : ts = [] := by
  cases h
  rfl

/-- A list of statements starts with a token that opens a statement. -/
theorem Stmt.DerivesAll.opens {next : Option TokenKind} {ts : List Token} {ss : List Stmt}
    (h : Stmt.DerivesAll next ts ss) (hne : ss ≠ []) : ∃ t us, ts = t :: us ∧ t.kind.opensStatement = true := by
  cases h with
  | nil => exact absurd rfl hne
  | cons hs _ =>
    obtain ⟨t, us, rfl, ht⟩ := hs.opens
    exact ⟨t, _, rfl, ht⟩

open Parse in
/-- A block is taken when the statements that it is derived from are. -/
theorem Parse.block_complete_of_derivesAll {stop : Option LexFault} {ts rest : List Token} {o c : Token}
    {body : List Stmt} (hok : o.kind = .leftBrace) (hck : c.kind = .rightBrace)
    (hbody : Stmt.DerivesAll (some .rightBrace) ts body) (h : TakesStatements (some .rightBrace) ts body) :
    plain (block stop (o :: (ts ++ c :: rest))) = leave stop body rest := by
  refine block_complete hok hck (fun hnil => ?_) (fun hne heq => ?_) h
  · subst hnil
    exact hbody.eq_nil
  · obtain ⟨t, us, rfl, ht⟩ := hbody.opens hne
    rw [show t.kind = .rightBrace from Option.some.inj heq] at ht
    cases ht

open Parse in
mutual

/-- Every statement is taken from the front. -/
theorem Stmt.Derives.takes {next : Option TokenKind} {ts : List Token} {s : Stmt} (h : s.Derives next ts) :
    TakesStatement next ts s := by
  cases h with
  | empty hk => exact takesStatement_empty hk
  | block hok hbody hck =>
    intro stop rest _
    rw [List.cons_append, List.append_assoc, List.singleton_append, plain_statement_block (by simp [hok]),
      block_complete_of_derivesAll hok hck hbody hbody.takes]
    exact andThen_leave _ _ _ _ rfl
  | eval he hsk => exact takesStatement_eval he hsk
  | declare hds hsk => exact takesStatement_declare hds hsk
  | ifThen hk hcs hbody hne => exact takesStatement_ifThen hk hcs hbody.ne_nil hne hbody.takes
  | ifElse hk hcs hbody hek hother => exact takesStatement_ifElse hk hcs hek hother.ne_nil hbody.takes hother.takes
  | whileLoop hk hcs hbody => exact takesStatement_whileLoop hk hcs hbody.ne_nil hbody.takes
  | doWhile hk hbody hwk hcs hsk => exact takesStatement_doWhile hk hwk hcs hsk hbody.takes
  | forLoop hhead hbody => exact takesStatement_forLoop hhead hbody.ne_nil hbody.takes
  | function hhead hok hbody hck =>
    exact takesStatement_function hhead fun stop rest => block_complete_of_derivesAll hok hck hbody hbody.takes
  | result hk hvalue hsk => exact takesStatement_result hk hvalue hsk

/-- Every list of statements is taken from the front. -/
theorem Stmt.DerivesAll.takes {next : Option TokenKind} {ts : List Token} {ss : List Stmt}
    (h : Stmt.DerivesAll next ts ss) : TakesStatements next ts ss := by
  cases h with
  | nil => exact fun hne => absurd rfl hne
  | cons hs hss =>
    refine takesStatements_cons (fun hnil => ?_) hss.opens hs.takes hss.takes
    subst hnil
    exact hss.eq_nil

end

end Scriptlet
