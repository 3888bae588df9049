import Scriptlet.Proofs.Tree.Spelling

/-!
# Flat sequences of operands and operators

Operands with operators on two sides between them, and names with assignment operators in front of it all. What such a
sequence means is said here without levels and chains: the weakest operator divides it, the rightmost one where several are
equally weak, and both parts are divided in the same way. The productions, which know nothing of the whole sequence, read
exactly that.
-/

namespace Scriptlet

open Parse

/-- How strong an operator binds: the place of the row that lists it, counted from the weakest. -/
def Infix.strength (op : Infix) : Nat := Level.rows.findIdx fun row => op ∈ row.operators

/-- The strength of an operator is the place of its level in the table. -/
theorem Infix.strength_eq (op : Infix) : op.strength = op.level.number := by
  cases op with
  | logical op => cases op <;> rfl
  | binary op => cases op <;> rfl

/-- An operand: tokens that are taken in full where an operand with its signs is read, and the tree that they give. -/
structure Operand where
  tokens : List Token
  tree : Expr
  taken : plain (unary none tokens) = .ok (tree, [])

/-- An operator on two sides and the operand on the right of it. The token of the operator has the kind of the row that
lists the operator. -/
structure Link where
  op : Infix
  sign : Token
  operand : Operand
  kind : ∃ row ∈ Level.rows, op ∈ row.operators ∧ sign.kind = row.kind
  text : sign.text = op.text

/-- A name and an assignment operator behind it. -/
structure Assignee where
  name : Token
  op : AssignOp
  sign : Token
  isName : name.kind = .name
  kind : sign.kind = op.kind
  text : sign.text = op.text

/-- The tokens of an operand are an expression that needs no operator. -/
theorem Operand.derives (o : Operand) : o.tree.Derives .signed o.tokens := by
  have hread : Parse.read none .signed o.tokens = .ok (o.tree, []) := o.taken
  obtain ⟨us, htokens, hderives, -⟩ := read_sound hread
  rw [List.append_nil] at htokens
  rwa [htokens]

/-- A name is an operand. -/
def Operand.ofName (t : Token) (h : t.kind = .name) : Operand where
  tokens := [t]
  tree := .name t.text
  taken := by
    have hread : Parse.read none .signed ([t] ++ []) = leave none (.name t.text) [] :=
      read_complete (.unsigned (.name h)) trivial
    rwa [leave_none] at hread

namespace Link

/-- How strong the operator binds. -/
def strength (link : Link) : Nat := link.op.strength

/-- A link is as strong as the level of its operator. -/
theorem strength_eq (link : Link) : link.strength = link.op.level.number := link.op.strength_eq

/-- The token of a link is the operator of the link. -/
theorem joins (link : Link) : link.op.level.Joins link.sign link.op := by
  obtain ⟨row, hrow, hlisted, hk⟩ := link.kind
  rw [Level.kind_eq_of_mem_rows row hrow, (link.op.mem_operators_iff row hrow).mp hlisted] at hk
  exact link.op.joins hk link.text

/-- An operator with a name behind it. -/
def ofName (op : Infix) (p : Position) (x : String) (q : Position) : Link where
  op := op
  sign := ⟨op.level.kind, op.text, p⟩
  operand := .ofName ⟨.name, x, q⟩ rfl
  kind := by
    obtain ⟨row, hrow, hlevel⟩ := op.level.exists_row
    refine ⟨row, hrow, (op.mem_operators_iff row hrow).mpr hlevel, ?_⟩
    rw [Level.kind_eq_of_mem_rows row hrow, hlevel]
  text := rfl

/-- The tokens of a sequence. -/
def tokens (first : Operand) (links : List Link) : List Token :=
  first.tokens ++ links.flatMap fun link => link.sign :: link.operand.tokens

/-- The rightmost of the weakest operators, with what stands before it and behind it. -/
def weakest? : List Link → Option (List Link × Link × List Link)
  | [] => none
  | link :: links =>
    match weakest? links with
    | none => some ([], link, [])
    | some (before, weakest, behind) =>
      if link.strength < weakest.strength then some ([], link, links) else some (link :: before, weakest, behind)

/-- A sequence is divided at an operator when none before it is weaker, and none behind it is as weak. -/
structure Divides (links before : List Link) (link : Link) (behind : List Link) : Prop where
  whole : links = before ++ link :: behind
  noneWeaker : ∀ l ∈ before, link.strength ≤ l.strength
  allStronger : ∀ l ∈ behind, link.strength < l.strength

variable {links before behind : List Link} {link : Link}

theorem tokens_append (first : Operand) (before : List Link) (link : Link) (behind : List Link) :
    tokens first (before ++ link :: behind) = tokens first before ++ link.sign :: tokens link.operand behind := by
  simp [tokens]

theorem weakest?_eq_none_iff : weakest? links = none ↔ links = [] := by
  cases links with
  | nil => exact iff_of_true rfl rfl
  | cons link links =>
    refine iff_of_false ?_ (List.cons_ne_nil _ _)
    rw [weakest?]
    split
    · exact Option.some_ne_none _
    · split <;> exact Option.some_ne_none _

/-- What is found divides the sequence. -/
theorem divides_of_weakest? (h : weakest? links = some (before, link, behind)) : Divides links before link behind := by
  induction links generalizing before link behind with
  | nil => cases h
  | cons l links ih =>
    rw [weakest?] at h
    split at h
    · next hnone =>
      cases h
      rw [weakest?_eq_none_iff] at hnone
      subst hnone
      exact ⟨rfl, List.forall_mem_nil _, List.forall_mem_nil _⟩
    · next hfound =>
      obtain ⟨rfl, hbefore, hbehind⟩ := ih hfound
      split at h
      · next hlt =>
        cases h
        refine ⟨rfl, List.forall_mem_nil _, fun m hm => ?_⟩
        rcases List.mem_append.mp hm with hm | hm
        · exact Nat.lt_of_lt_of_le hlt (hbefore m hm)
        rcases List.mem_cons.mp hm with rfl | hm
        · exact hlt
        · exact Nat.lt_trans hlt (hbehind m hm)
      · next hle =>
        cases h
        exact ⟨rfl, List.forall_mem_cons.mpr ⟨Nat.le_of_not_lt hle, hbefore⟩, hbehind⟩

/-- A sequence is divided in one way at most. -/
theorem Divides.unique {before' behind' : List Link} {link' : Link} (h : Divides links before link behind)
    (h' : Divides links before' link' behind') : before = before' ∧ link = link' ∧ behind = behind' := by
  have hwhole := h.whole.symm.trans h'.whole
  -- Where one of the two operators stood in the other's part behind it, the two would each be weaker than the other.
  rcases List.append_eq_append_iff.mp hwhole with ⟨mid, hmid, hrest⟩ | ⟨mid, hmid, hrest⟩
  · cases mid with
    | nil =>
      rw [List.append_nil] at hmid
      cases hrest
      exact ⟨hmid.symm, rfl, rfl⟩
    | cons m mid =>
      cases hrest
      have hle := h'.noneWeaker link (by simp [hmid])
      have hlt := h.allStronger link' (by simp)
      omega
  · cases mid with
    | nil =>
      rw [List.append_nil] at hmid
      cases hrest
      exact ⟨hmid, rfl, rfl⟩
    | cons m mid =>
      cases hrest
      have hle := h.noneWeaker link' (by simp [hmid])
      have hlt := h'.allStronger link (by simp)
      omega

/-- A sequence is divided at the operator that is found and nowhere else. -/
theorem weakest?_eq_some_iff : weakest? links = some (before, link, behind) ↔ Divides links before link behind := by
  refine ⟨divides_of_weakest?, fun h => ?_⟩
  cases hfound : weakest? links with
  | none =>
    rw [weakest?_eq_none_iff.mp hfound] at h
    exact absurd h.whole.symm (by simp)
  | some found =>
    obtain ⟨before', link', behind'⟩ := found
    obtain ⟨rfl, rfl, rfl⟩ := (divides_of_weakest? hfound).unique h
    rfl

/-- The tree of a sequence. -/
def tree (first : Operand) (links : List Link) : Expr :=
  match h : weakest? links with
  | none => first.tree
  | some (before, link, behind) =>
    have := (divides_of_weakest? h).whole
    link.op.node (tree first before) (tree link.operand behind)
termination_by links.length
decreasing_by
  · simp [this]
  · simp [this]
    omega

/-- An operand by itself keeps its tree. -/
@[simp] theorem tree_nil (first : Operand) : tree first [] = first.tree := by
  rw [tree]
  split
  · rfl
  · next h => cases h

/-- The operator that divides a sequence is the root of its tree. -/
theorem tree_of_divides (first : Operand) (h : Divides links before link behind) :
    tree first links = link.op.node (tree first before) (tree link.operand behind) := by
  rw [← weakest?_eq_some_iff] at h
  rw [tree]
  split
  · next hnone =>
    rw [h] at hnone
    cases hnone
  · next hsome =>
    rw [h] at hsome
    cases hsome
    rfl

end Link

/-! ## Flat sequences in the grammar -/

namespace Level

variable (l m : Level)

/-- Operators of a level may stand where those of a weaker one do. -/
theorem tightness_le_iff : (Rank.level l).tightness ≤ (Rank.level m).tightness ↔ l.number ≤ m.number :=
  Nat.add_le_add_iff_right

/-- Operators of a level may stand in the operands of a weaker one. -/
theorem tightness_operandRank_le_iff : l.operandRank.tightness ≤ (Rank.level m).tightness ↔ l.number < m.number := by
  have hsucc : l.operandRank.tightness = (l.number + 1) + 1 := by cases l <;> rfl
  rw [hsucc]
  exact Nat.add_le_add_iff_right

/-- The operands of a level may be operands with signs. -/
theorem tightness_operandRank_le_signed : l.operandRank.tightness ≤ Rank.signed.tightness := by
  cases l <;> decide

/-- An operand with signs may stand for an expression of any level. -/
theorem tightness_le_signed : (Rank.level l).tightness ≤ Rank.signed.tightness := by
  cases l <;> decide

end Level

/-- The tokens of a sequence derive its tree, at any rank that binds no stronger than an operator in it. -/
theorem Link.derives (first : Operand) (links : List Link) (rank : Rank) (hsigned : rank.tightness ≤ Rank.signed.tightness)
    (hlinks : ∀ l ∈ links, rank.tightness ≤ (Rank.level l.op.level).tightness) :
    (tree first links).Derives rank (tokens first links) := by
  induction hn : links.length using Nat.strongRecOn generalizing first links rank with
  | _ n ih =>
    cases hfound : weakest? links with
    | none =>
      rw [weakest?_eq_none_iff] at hfound
      subst hfound
      rw [tree_nil, tokens, List.flatMap_nil, List.append_nil]
      exact first.derives.loosen hsigned
    | some found =>
      obtain ⟨before, link, behind⟩ := found
      have hdivides := divides_of_weakest? hfound
      rw [hdivides.whole, List.length_append, List.length_cons] at hn
      -- Before the operator stand operators of its level or stronger ones, behind it only stronger ones.
      have hleft : (tree first before).Derives (.level link.op.level) (tokens first before) := by
        refine ih before.length (by omega) first before _ (Level.tightness_le_signed _) (fun l hl => ?_) rfl
        have hle := hdivides.noneWeaker l hl
        rw [strength_eq, strength_eq] at hle
        exact (Level.tightness_le_iff _ _).mpr hle
      have hright : (tree link.operand behind).Derives link.op.level.operandRank (tokens link.operand behind) := by
        refine ih behind.length (by omega) link.operand behind _ (Level.tightness_operandRank_le_signed _)
          (fun l hl => ?_) rfl
        have hlt := hdivides.allStronger l hl
        rw [strength_eq, strength_eq] at hlt
        exact (Level.tightness_operandRank_le_iff _ _).mpr hlt
      rw [tree_of_divides first hdivides, hdivides.whole, tokens_append]
      exact (Expr.Derives.operator hleft link.joins hright).loosen (hlinks link (by simp [hdivides.whole]))

namespace Assignee

/-- The tokens of names with assignment operators behind them. -/
def tokens (assignees : List Assignee) : List Token := assignees.flatMap fun a => [a.name, a.sign]

/-- Assignments of a value to names one after the other: each assigns what the next one gives. -/
def tree (assignees : List Assignee) (value : Expr) : Expr :=
  assignees.foldr (fun a value => .assign a.op a.name.text value) value

/-- Names with assignment operators in front of an expression derive assignments of that expression. -/
theorem derives (assignees : List Assignee) {ts : List Token} {e : Expr} (h : e.Derives .whole ts) :
    (tree assignees e).Derives .whole (tokens assignees ++ ts) := by
  induction assignees with
  | nil => exact h
  | cons a assignees ih =>
    have hname : (Expr.name a.name.text).Derives (.level .or) [a.name] :=
      (Expr.Derives.name a.isName).loosen (by decide)
    have hassign : a.sign.kind.isAssignment = true := by
      rw [a.kind]
      exact a.op.isAssignment_kind
    have hop : AssignOp.ofText? a.sign.text = some a.op := by
      rw [a.text]
      exact a.op.ofText?_text
    exact .assign hname hassign hop ih

end Assignee

/-- Precedence and grouping on flat sequences: wherever an expression is read, names with assignment operators and behind
them operands with operators between them give assignments nested to the right around the tree of the operators, unless an
operator carries the expression on. And such a sequence with a semicolon behind it is a program of that one expression. -/
theorem expression_of_flat (assignees : List Assignee) (first : Operand) (links : List Link) :
    (∀ stop rest, Rank.whole.EndsAt (kind? rest) →
      plain (expression stop (Assignee.tokens assignees ++ Link.tokens first links ++ rest)) =
        leave stop (Assignee.tree assignees (Link.tree first links)) rest) ∧
    ∀ source semicolon, semicolon.kind = .semicolon →
      tokenize source = .ok (Assignee.tokens assignees ++ Link.tokens first links ++ [semicolon]) →
      Program.parse source = .ok ⟨[.eval (Assignee.tree assignees (Link.tree first links))]⟩ := by
  have hlinks : (Link.tree first links).Derives .whole (Link.tokens first links) :=
    Link.derives first links .whole (Nat.zero_le _) fun _ _ => Nat.zero_le _
  have hderives := Assignee.derives assignees hlinks
  refine ⟨fun stop rest hends => read_complete hderives hends, fun source semicolon hkind htokens => ?_⟩
  rw [(Program.parse_eq_ok_iff_derives source _ htokens).1]
  refine ⟨List.cons_ne_nil _ _, ?_⟩
  have hall : Stmt.DerivesAll none (Assignee.tokens assignees ++ Link.tokens first links ++ [semicolon] ++ [])
      [.eval (Assignee.tree assignees (Link.tree first links))] := .cons (.eval hderives hkind) .nil
  rwa [List.append_nil] at hall

/-- The disjunction is the root, behind it stands a comparison of a comparison, and differences group to the left. -/
theorem expression_of_flat_mixed : Program.parse "x = a || b < c == d - e - f * g;" =
    .ok ⟨[.eval (.assign .set "x" (.logical .or (.name "a") (.binary .equal (.binary .less (.name "b") (.name "c"))
      (.binary .subtract (.binary .subtract (.name "d") (.name "e")) (.binary .multiply (.name "f") (.name "g"))))))]⟩ := by
  have htokens : tokenize "x = a || b < c == d - e - f * g;" =
      .ok (Assignee.tokens [⟨⟨.name, "x", ⟨1, 0⟩⟩, .set, ⟨.assign, "=", ⟨1, 2⟩⟩, rfl, rfl, rfl⟩] ++
        Link.tokens (.ofName ⟨.name, "a", ⟨1, 4⟩⟩ rfl)
          [.ofName (.logical .or) ⟨1, 6⟩ "b" ⟨1, 9⟩, .ofName (.binary .less) ⟨1, 11⟩ "c" ⟨1, 13⟩,
            .ofName (.binary .equal) ⟨1, 15⟩ "d" ⟨1, 18⟩, .ofName (.binary .subtract) ⟨1, 20⟩ "e" ⟨1, 22⟩,
            .ofName (.binary .subtract) ⟨1, 24⟩ "f" ⟨1, 26⟩, .ofName (.binary .multiply) ⟨1, 28⟩ "g" ⟨1, 30⟩] ++
        [⟨.semicolon, ";", ⟨1, 31⟩⟩]) := tokenize_of_ofSource_eq (by decide +kernel)
  rw [(expression_of_flat _ _ _).2 _ _ rfl htokens]
  with_unfolding_all rfl

end Scriptlet
