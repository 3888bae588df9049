import Mathlib.Data.List.Chain
import Scriptlet.Proofs.Grammar.Complete

/-!
# What stands behind what

Two facts about the neighbours of tokens. A statement is one in front of whatever is not an `else`. And in no phrase does an
operator of the strongest level stand directly in front of another one or of a combined assignment sign: between two
operators there is always an operand, and signs are never of that level.
-/

namespace Scriptlet

/-! ## What stands behind a statement -/

mutual

/-- A statement is one in front of anything but an `else`. -/
theorem Stmt.Derives.inFrontOf {next : Option TokenKind} {ts : List Token} {s : Stmt} (h : s.Derives next ts) :
    ∀ {next' : Option TokenKind}, next' ≠ some (.keyword .elseWord) → s.Derives next' ts := by
  cases h with
  | empty hk => exact fun _ => .empty hk
  | block hok hbody hck => exact fun _ => .block hok (hbody.inFrontOf (by decide)) hck
  | eval he hsk => exact fun _ => .eval he hsk
  | declare hds hsk => exact fun _ => .declare hds hsk
  | ifThen hk hcs hbody _ => exact fun hnext => .ifThen hk hcs (hbody.inFrontOf hnext) hnext
  | ifElse hk hcs hbody hek hother => exact fun hnext => .ifElse hk hcs hbody hek (hother.inFrontOf hnext)
  | whileLoop hk hcs hbody => exact fun hnext => .whileLoop hk hcs (hbody.inFrontOf hnext)
  | doWhile hk hbody hwk hcs hsk => exact fun _ => .doWhile hk (hbody.inFrontOf (by decide)) hwk hcs hsk
  | forLoop hhead hbody => exact fun hnext => .forLoop hhead (hbody.inFrontOf hnext)
  | function hhead hok hbody hck => exact fun _ => .function hhead hok hbody hck
  | result hk hvalue hsk => exact fun _ => .result hk hvalue hsk

/-- Statements are such in front of anything but an `else`. -/
theorem Stmt.DerivesAll.inFrontOf {next : Option TokenKind} {ts : List Token} {ss : List Stmt}
    (h : Stmt.DerivesAll next ts ss) :
    ∀ {next' : Option TokenKind}, next' ≠ some (.keyword .elseWord) → Stmt.DerivesAll next' ts ss := by
  cases h with
  | nil => exact fun _ => .nil
  | @cons _ ts us s ss hs hss =>
    intro next' hnext
    refine .cons ?_ (hss.inFrontOf hnext)
    cases us with
    | nil => exact hs.inFrontOf hnext
    | cons t us => exact hs

end

/-- Statements do not start with an `else`. -/
theorem Stmt.DerivesAll.kind?_ne_else {next : Option TokenKind} {ts : List Token} {ss : List Stmt}
    (h : Stmt.DerivesAll next ts ss) : Parse.kind? ts ≠ some (.keyword .elseWord) := by
  cases ss with
  | nil =>
    cases h
    nofun
  | cons s ss =>
    obtain ⟨t, us, rfl, ht⟩ := h.opens (List.cons_ne_nil _ _)
    intro heq
    rw [show t.kind = .keyword .elseWord from Option.some.inj heq] at ht
    cases ht

/-! ## Neighbours -/

/-- The first of two neighbours is a strongest operator, and the second one too or a combined assignment sign. -/
def Token.Clash (t u : Token) : Prop := t.kind = .multiplicative ∧ (u.kind = .multiplicative ∨ u.kind = .compoundAssign)

/-- No neighbours clash, and neither the first token nor the last can clash with tokens outside. -/
structure Clean (ts : List Token) : Prop where
  inside : ts.IsChain fun t u => ¬t.Clash u
  last : ∀ t ∈ ts.getLast?, t.kind ≠ .multiplicative
  first : ∀ t ∈ ts.head?, t.kind ≠ .multiplicative ∧ t.kind ≠ .compoundAssign

namespace Clean

variable {ts us : List Token} {t : Token}

theorem nil : Clean [] := ⟨.nil, nofun, nofun⟩

/-- Clean phrases one behind the other are clean: nothing at their ends can clash. -/
theorem append (h : Clean ts) (h' : Clean us) : Clean (ts ++ us) where
  inside := List.isChain_append.mpr ⟨h.inside, h'.inside, fun t ht u _ hclash => h.last t ht hclash.1⟩
  last := by
    intro t ht
    cases us with
    | nil => exact h.last t (by simpa using ht)
    | cons u us => exact h'.last t (by simpa using ht)
  first := by
    intro t ht
    cases ts with
    | nil => exact h'.first t ht
    | cons u ts => exact h.first t ht

/-- A token by itself is clean if it is no operator that clashes. -/
theorem single (h : t.kind ≠ .multiplicative ∧ t.kind ≠ .compoundAssign) : Clean [t] where
  inside := .singleton t
  last := by
    rintro _ ⟨⟩
    exact h.1
  first := by
    rintro _ ⟨⟩
    exact h

/-- A token that does not clash in front. -/
theorem cons (ht : t.kind ≠ .multiplicative ∧ t.kind ≠ .compoundAssign) (h : Clean ts) : Clean (t :: ts) :=
  (single ht).append h

/-- Any token between two phrases. -/
theorem between (h : Clean ts) (hts : ts ≠ []) (h' : Clean us) (hus : us ≠ []) (t : Token) : Clean (ts ++ t :: us) where
  inside := by
    refine List.isChain_append.mpr ⟨h.inside, List.isChain_cons.mpr ⟨fun u hu hclash => ?_, h'.inside⟩, ?_⟩
    · exact hclash.2.elim (h'.first u hu).1 (h'.first u hu).2
    · intro u hu v _ hclash
      exact h.last u hu hclash.1
  last := by
    intro u hu
    cases us with
    | nil => exact absurd rfl hus
    | cons v us => exact h'.last u (by simpa using hu)
  first := by
    intro u hu
    cases ts with
    | nil => exact absurd rfl hts
    | cons v ts => exact h.first u hu

end Clean

/-- An expression is clean: an operator that clashes stands between operands. -/
theorem Expr.Derives.clean {rank : Rank} {ts : List Token} {e : Expr} (h : e.Derives rank ts) : Clean ts := by
  induction h with
  | loosest _ ih => exact ih
  | assign hleft _ _ hright ihLeft ihRight => exact ihLeft.between hleft.ne_nil ihRight hright.ne_nil _
  | operand _ ih => exact ih
  | operator hleft _ hright ihLeft ihRight => exact ihLeft.between hleft.ne_nil ihRight hright.ne_nil _
  | sign hk _ _ ih => exact .cons (by rcases hk with hk | hk <;> simp [hk]) ih
  | unsigned _ ih => exact ih
  | name hk => exact .single (by simp [hk])
  | number hk _ => exact .single (by simp [hk])
  | text hk => exact .single (by simp [hk])
  | trueWord hk => exact .single (by simp [hk])
  | falseWord hk => exact .single (by simp [hk])
  | nullWord hk => exact .single (by simp [hk])
  | parens hok _ hck ih => exact .cons (by simp [hok]) (ih.append (.single (by simp [hck])))

/-! The same of the parts of statements, and of statements. -/

/-- A phrase that may be absent is clean if it is where it is there. -/
theorem Maybe.clean {α : Type} {Phrase : List Token → α → Prop} {ts : List Token} {a : Option α}
    (h : Maybe Phrase ts a) (hphrase : ∀ {ts a}, Phrase ts a → Clean ts) : Clean ts := by
  cases h with
  | absent => exact .nil
  | present h => exact hphrase h

/-- A list of clean phrases is clean. -/
theorem CommaList.clean {α : Type} {Phrase : List Token → α → Prop} {ts : List Token} {as : List α}
    (h : CommaList Phrase ts as) (hphrase : ∀ {ts a}, Phrase ts a → Clean ts) : Clean ts := by
  induction h with
  | last h => exact hphrase h
  | cons h ht _ ih => exact (hphrase h).append (.cons (by simp [ht]) ih)

theorem Condition.clean {ts : List Token} {e : Expr} (h : Condition ts e) : Clean ts := by
  cases h with
  | parens hok he hck => exact .cons (by simp [hok]) (he.clean.append (.single (by simp [hck])))

theorem Declarator.Derives.clean {ts : List Token} {d : Declarator} (h : d.Derives ts) : Clean ts := by
  cases h with
  | bare hk => exact .single (by simp [hk])
  | init hk hsk he => exact .cons (by simp [hk]) (.cons (by simp [hsk]) he.clean)

theorem Declaration.clean {ts : List Token} {ds : List Declarator} (h : Declaration ts ds) : Clean ts := by
  cases h with
  | list hk hds => exact .cons (by simp [hk]) (hds.clean Declarator.Derives.clean)

theorem ForInit.Derives.clean {ts : List Token} {i : ForInit} (h : i.Derives ts) : Clean ts := by
  cases h with
  | declare hds => exact hds.clean
  | eval he => exact he.clean

/-- The head of a counting loop is clean. -/
theorem Parse.LoopHead.Derives.clean {ts : List Token} {head : LoopHead} (h : head.Derives ts) : Clean ts := by
  cases h with
  | head hf ho hi hs₁ ht hs₂ hu hc =>
    refine .cons (by simp [hf]) (.cons (by simp [ho]) ((hi.clean ForInit.Derives.clean).append (.cons (by simp [hs₁]) ?_)))
    refine (ht.clean Expr.Derives.clean).append (.cons (by simp [hs₂]) ?_)
    exact (hu.clean Expr.Derives.clean).append (.single (by simp [hc]))

/-- The head of a function is clean. -/
theorem FunctionHead.clean {ts : List Token} {name : String} {ps : List String} (h : FunctionHead ts name ps) :
    Clean ts := by
  cases h with
  | @head ts d f o c _ hd hf ho hps hc =>
    have hparams : Clean ts := by
      cases hps with
      | none => exact .nil
      | some hps => exact hps.clean fun {ts a} h => by cases h with | name hk => exact .single (by simp [hk])
    refine .cons (by simp [hd]) (.cons (by simp [hf]) (.cons (by simp [ho]) ?_))
    exact hparams.append (.single (by simp [hc]))

mutual

/-- A statement is clean. -/
theorem Stmt.Derives.clean {next : Option TokenKind} {ts : List Token} {s : Stmt} (h : s.Derives next ts) : Clean ts := by
  cases h with
  | empty hk => exact .single (by simp [hk])
  | block hok hbody hck => exact .cons (by simp [hok]) (hbody.clean.append (.single (by simp [hck])))
  | eval he hsk => exact he.clean.append (.single (by simp [hsk]))
  | declare hds hsk => exact hds.clean.append (.single (by simp [hsk]))
  | ifThen hk hcs hbody _ => exact .cons (by simp [hk]) (hcs.clean.append hbody.clean)
  | ifElse hk hcs hbody hek hother =>
    exact .cons (by simp [hk]) (hcs.clean.append (hbody.clean.append (.cons (by simp [hek]) hother.clean)))
  | whileLoop hk hcs hbody => exact .cons (by simp [hk]) (hcs.clean.append hbody.clean)
  | doWhile hk hbody hwk hcs hsk =>
    refine .cons (by simp [hk]) (hbody.clean.append (.cons (by simp [hwk]) ?_))
    exact hcs.clean.append (.single (by simp [hsk]))
  | forLoop hhead hbody => exact hhead.clean.append hbody.clean
  | function hhead hok hbody hck =>
    exact hhead.clean.append (.cons (by simp [hok]) (hbody.clean.append (.single (by simp [hck]))))
  | result hk hvalue hsk =>
    exact .cons (by simp [hk]) ((hvalue.clean Expr.Derives.clean).append (.single (by simp [hsk])))

/-- Statements one after the other are clean. -/
theorem Stmt.DerivesAll.clean {next : Option TokenKind} {ts : List Token} {ss : List Stmt} (h : Stmt.DerivesAll next ts ss) :
    Clean ts := by
  cases h with
  | nil => exact .nil
  | cons hs hss => exact hs.clean.append hss.clean

end

end Scriptlet
