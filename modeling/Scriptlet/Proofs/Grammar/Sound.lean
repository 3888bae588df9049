import Scriptlet.Proofs.Grammar.Reading

/-!
# What a production takes is a phrase

Each production that succeeds takes tokens from the front that are a phrase of its sort, and the value it gives is the tree
of that phrase. An expression moreover ends where no operator could carry it on.
-/

namespace Scriptlet

/-- An expression of a rank ends in front of a token of a kind, or at the end where that is none: no operator stands there
that binds as strongly as the rank or stronger. -/
def Rank.EndsAt : Rank → Option TokenKind → Prop
  | whole, next => (∀ level : Level, next ≠ some level.kind) ∧ ∀ kind ∈ next, kind.isAssignment = false
  | level l, next => ∀ m : Level, m.height ≤ l.height → next ≠ some m.kind
  | signed, _ => True
  | atom, _ => True

/-- An expression of a level ends where its operands do and no operator of the level itself stands. -/
theorem Rank.endsAt_level_iff (l : Level) (next : Option TokenKind) :
    (Rank.level l).EndsAt next ↔ l.operandRank.EndsAt next ∧ next ≠ some l.kind := by
  have hall : ∀ P : Level → Prop, (∀ m, P m) ↔
      P .or ∧ P .and ∧ P .equality ∧ P .relational ∧ P .additive ∧ P .multiplicative := by
    intro P
    constructor
    · intro h
      exact ⟨h _, h _, h _, h _, h _, h _⟩
    · rintro ⟨h₁, h₂, h₃, h₄, h₅, h₆⟩ m
      cases m <;> assumption
  rw [Level.operandRank_eq]
  cases l <;> simp only [EndsAt, Level.tighter?, Option.elim, hall, Level.height] <;> grind

/-- A whole expression ends where one of the weakest level does and no assignment operator stands. -/
theorem Rank.endsAt_whole_iff (next : Option TokenKind) :
    Rank.whole.EndsAt next ↔ (Rank.level .or).EndsAt next ∧ ∀ kind ∈ next, kind.isAssignment = false := by
  simp only [EndsAt, and_congr_left_iff]
  intro _
  constructor
  · intro h m _
    exact h m
  · intro h m
    exact h m m.height_le

namespace Parse

/-- The tokens were not cut short, or there are some left to read before the cut shows. -/
def Sure (stop : Option LexFault) (ts : List Token) : Prop := ts = [] → stop = none

/-- A phrase with tree `a` was taken from the front of `ts` and `rest` was left. -/
def Took {α : Type} (Phrase : List Token → α → Prop) (stop : Option LexFault) (ts : List Token) (a : α)
    (rest : List Token) : Prop :=
  ∃ taken, ts = taken ++ rest ∧ Phrase taken a ∧ (Sure stop ts → Sure stop rest)

/-- The tokens that carry on an expression of a level from a left side to a tree. -/
def CarriesOn (level : Level) (left : Expr) (ts : List Token) (e : Expr) : Prop :=
  ∀ ls, left.Derives (.level level) ls → e.Derives (.level level) (ls ++ ts)

variable {α : Type} {stop : Option LexFault} {ts rest : List Token}

/-- What is left behind a token and others is shorter than the whole. -/
theorem length_lt_cons_append (t : Token) (us rest : List Token) : rest.length < (t :: (us ++ rest)).length := by
  simp only [List.length_cons, List.length_append]
  omega

/-! ## Single tokens -/

/-- What is taken is the first token, of the kind that is asked for. -/
theorem expect_sound {kind : TokenKind} {t : Token} (h : plain (expect stop kind ts) = .ok (t, rest)) :
    ts = t :: rest ∧ t.kind = kind ∧ Sure stop rest := by
  cases ts with
  | nil => cases h
  | cons t' ts =>
    rw [plain_expect_cons] at h
    split at h
    · next hk =>
      obtain ⟨rfl, rfl, hsure⟩ := leave_eq_ok h
      exact ⟨rfl, hk, hsure⟩
    · cases h

/-- What is taken is the first token, of the kind that is asked for, and the value is what its text is read as. -/
theorem expectAs_sound {kind : TokenKind} {read : String → Option α} {a : α}
    (h : plain (expectAs stop kind read ts) = .ok (a, rest)) :
    ∃ t, ts = t :: rest ∧ t.kind = kind ∧ read t.text = some a ∧ Sure stop rest := by
  rw [plain_expectAs, andThen_eq_ok] at h
  obtain ⟨t, rest', ht, h⟩ := h
  obtain ⟨rfl, hk, hsure⟩ := expect_sound ht
  split at h
  · next hread =>
    cases h
    exact ⟨t, rfl, hk, hread, hsure⟩
  · cases h

/-- A single token is a phrase by itself. -/
theorem took_token {Phrase : List Token → α → Prop} {t : Token} {a : α} (hp : Phrase [t] a) (hsure : Sure stop rest) :
    Took Phrase stop (t :: rest) a rest :=
  ⟨[t], rfl, hp, fun _ => hsure⟩

/-- A literal that is taken is an expression of one token. -/
theorem literal_sound {e : Expr} (h : plain (literal stop ts) = .ok (e, rest)) :
    Took (Expr.Derives .atom) stop ts e rest := by
  unfold literal at h
  split at h <;> obtain ⟨t, rfl, hk, hread, hsure⟩ := expectAs_sound h
  · cases hread
    exact took_token (.text hk) hsure
  · cases hread
    exact took_token (.trueWord hk) hsure
  · cases hread
    exact took_token (.falseWord hk) hsure
  · cases hread
    exact took_token (.nullWord hk) hsure
  · obtain ⟨x, hx, rfl⟩ := Option.map_eq_some_iff.mp hread
    exact took_token (.number hk hx) hsure

/-! ## Expressions, one production at a time -/

/-- The production of a rank takes an expression of the rank and stops where one ends. -/
def Reads (rank : Rank) (ts : List Token) : Prop :=
  ∀ stop e rest, read stop rank ts = .ok (e, rest) → Took (Expr.Derives rank) stop ts e rest ∧ rank.EndsAt (kind? rest)

/-- The operators of a level carry on the expression on their left, as far as an expression of the level goes. -/
def ReadsOn (level : Level) (left : Expr) (ts : List Token) : Prop :=
  ∀ stop e rest, plain (chain stop level left ts) = .ok (e, rest) → level.operandRank.EndsAt (kind? ts) →
    Took (CarriesOn level left) stop ts e rest ∧ (Rank.level level).EndsAt (kind? rest)

/-- Only the tree of a name gives the name to assign to. -/
theorem target_eq_ok {position : Position} {e : Expr} {name : String} (h : target position e = .ok name) :
    e = .name name := by
  cases e <;> cases h
  rfl

/-- An assignment operator that is seen is the kind of the first token. -/
theorem assignment?_eq_some {kind : TokenKind} (h : assignment? ts = some kind) :
    kind? ts = some kind ∧ kind.isAssignment = true := by
  simpa [assignment?, Option.filter_eq_some_iff] using h

/-- Where none is seen the first token is no assignment operator. -/
theorem assignment?_eq_none (h : assignment? ts = none) : ∀ kind ∈ kind? ts, kind.isAssignment = false := by
  simpa [assignment?, Option.filter_eq_none_iff] using h

/-- A sign that is seen is the kind of the first token. -/
theorem sign?_eq_some {kind : TokenKind} (h : sign? ts = some kind) :
    kind? ts = some kind ∧ (kind = .additive ∨ kind = .logicalNot) := by
  simpa [sign?, Option.filter_eq_some_iff] using h

/-- Whole expressions are read as the grammar has them if the weakest level is, and shorter lists are. -/
theorem reads_whole (ihLeft : Reads (.level .or) ts) (ihValue : ∀ us, us.length < ts.length → Reads .whole us) :
    Reads .whole ts := by
  intro stop e rest h
  rw [read_whole, andThen_eq_ok] at h
  obtain ⟨left, rest₁, hleft, h⟩ := h
  obtain ⟨⟨ls, rfl, hls, hsure⟩, hends⟩ := ihLeft stop left rest₁ hleft
  split at h
  · next hnone =>
    cases h
    exact ⟨⟨ls, rfl, .loosest hls, hsure⟩, (Rank.endsAt_whole_iff _).mpr ⟨hends, assignment?_eq_none hnone⟩⟩
  · next kind hkind =>
    rw [andThen_eq_ok] at h
    obtain ⟨op, rest₂, hop, h⟩ := h
    obtain ⟨t, rfl, hk, hread, hsure'⟩ := expectAs_sound hop
    split at h
    · cases h
    · next name hname =>
      rw [andThen_eq_ok] at h
      obtain ⟨value, rest₃, hvalue, h⟩ := h
      cases h
      have hlt : rest₂.length < (ls ++ t :: rest₂).length := by
        simp only [List.length_append, List.length_cons]
        omega
      obtain ⟨⟨us, rfl, hus, hsure''⟩, hends'⟩ := ihValue rest₂ hlt stop value rest hvalue
      rw [target_eq_ok hname] at hls
      refine ⟨⟨ls ++ t :: us, by simp, ?_, fun _ => hsure'' hsure'⟩, hends'⟩
      exact .assign hls (hk ▸ (assignment?_eq_some hkind).2) hread hus

/-- A level is read as the grammar has it if its operands are, and its operators are on shorter lists. -/
theorem reads_level {l : Level} (ihFirst : Reads l.operandRank ts)
    (ihChain : ∀ left us, us.length < ts.length → ReadsOn l left us) : Reads (.level l) ts := by
  intro stop e rest h
  rw [read_level, andThen_eq_ok] at h
  obtain ⟨first, rest₁, hfirst, h⟩ := h
  obtain ⟨⟨ls, rfl, hls, hsure⟩, hends⟩ := ihFirst stop first rest₁ hfirst
  obtain ⟨⟨us, rfl, hus, hsure'⟩, hends'⟩ := ihChain first rest₁ (read_shorter hfirst) stop e rest h hends
  exact ⟨⟨ls ++ us, by simp, hus ls (.operand hls), fun hs => hsure' (hsure hs)⟩, hends'⟩

/-- The operators of a level are read as the grammar has them if operands and operators are on shorter lists. -/
theorem reads_on {l : Level} {left : Expr} (ihRight : ∀ us, us.length < ts.length → Reads l.operandRank us)
    (ihChain : ∀ left us, us.length < ts.length → ReadsOn l left us) : ReadsOn l left ts := by
  intro stop e rest h hends
  rw [plain_chain] at h
  split at h
  · next hkind =>
    rw [andThen_eq_ok] at h
    obtain ⟨node, rest₁, hnode, h⟩ := h
    obtain ⟨t, rfl, hk, hread, hsure⟩ := expectAs_sound hnode
    rw [andThen_eq_ok] at h
    obtain ⟨right, rest₂, hright, h⟩ := h
    obtain ⟨⟨us, rfl, hus, hsure'⟩, hends'⟩ := ihRight rest₁ (by simp) stop right rest₂ hright
    obtain ⟨⟨vs, rfl, hvs, hsure''⟩, hends''⟩ :=
      ihChain (node left right) rest₂ (length_lt_cons_append _ _ _) stop e rest h hends'
    refine ⟨⟨t :: (us ++ vs), by simp, ?_, fun _ => hsure'' (hsure' hsure)⟩, hends''⟩
    obtain ⟨op, hop, rfl⟩ := Level.exists_joins hk hread
    intro ls hls
    have := hvs (ls ++ t :: us) (.operator hls hop hus)
    simpa using this
  · next hkind =>
    cases h
    refine ⟨⟨[], rfl, ?_, id⟩, (Rank.endsAt_level_iff _ _).mpr ⟨hends, hkind⟩⟩
    intro ls hls
    simpa using hls

/-- Operands with signs are read as the grammar has them if those without are, and shorter lists are. -/
theorem reads_signed (ihAtom : Reads .atom ts) (ihArgument : ∀ us, us.length < ts.length → Reads .signed us) :
    Reads .signed ts := by
  intro stop e rest h
  refine ⟨?_, trivial⟩
  rw [read_signed] at h
  split at h
  · next kind hkind =>
    rw [andThen_eq_ok] at h
    obtain ⟨op, rest₁, hop, h⟩ := h
    obtain ⟨t, rfl, hk, hread, hsure⟩ := expectAs_sound hop
    rw [andThen_eq_ok] at h
    obtain ⟨argument, rest₂, hargument, h⟩ := h
    cases h
    obtain ⟨⟨us, rfl, hus, hsure'⟩, -⟩ := ihArgument rest₁ (by simp) stop argument rest hargument
    exact ⟨t :: us, rfl, .sign (hk ▸ (sign?_eq_some hkind).2) hread hus, fun _ => hsure' hsure⟩
  · obtain ⟨⟨us, rfl, hus, hsure⟩, -⟩ := ihAtom stop e rest h
    exact ⟨us, rfl, .unsigned hus, hsure⟩

/-- What needs no parentheses is read as the grammar has it if whole expressions are on shorter lists. -/
theorem reads_atom (ihInner : ∀ us, us.length < ts.length → Reads .whole us) : Reads .atom ts := by
  intro stop e rest h
  refine ⟨?_, trivial⟩
  rw [read_atom] at h
  split at h
  · rw [andThen_eq_ok] at h
    obtain ⟨o, rest₁, ho, h⟩ := h
    obtain ⟨rfl, hok, hsure⟩ := expect_sound ho
    rw [andThen_eq_ok] at h
    obtain ⟨inner, rest₂, hinner, h⟩ := h
    obtain ⟨⟨us, rfl, hus, -⟩, -⟩ := ihInner rest₁ (by simp) stop inner rest₂ hinner
    rw [andThen_eq_ok] at h
    obtain ⟨c, rest₃, hc, h⟩ := h
    obtain ⟨rfl, hck, hsure'⟩ := expect_sound hc
    cases h
    exact ⟨o :: (us ++ [c]), by simp, .parens hok hus hck, fun _ => hsure'⟩
  · split at h
    · exact literal_sound h
    · obtain ⟨t, rfl, hk, hread, hsure⟩ := expectAs_sound h
      cases hread
      exact took_token (.name hk) hsure

/-- Every production of expressions takes an expression of its rank, and stops where one ends. -/
theorem reads (rank : Rank) (ts : List Token) : Reads rank ts :=
  (read_induction (fun _ => reads_whole) (fun _ _ => reads_level) (fun _ _ _ => reads_on) (fun _ => reads_signed)
    (fun _ => reads_atom)).1 rank ts

/-- An expression that is read is derived by the tokens taken for it. -/
theorem read_sound {rank : Rank} {e : Expr} (h : read stop rank ts = .ok (e, rest)) :
    Took (Expr.Derives rank) stop ts e rest :=
  (reads rank ts stop e rest h).1

/-! ## Parts of statements -/

/-- A clause that is read, or seen to be absent, is derived by the tokens taken for it. -/
theorem expressionBefore_sound {closing : TokenKind} {a : Option Expr}
    (h : plain (expressionBefore stop closing ts) = .ok (a, rest)) :
    Took (Maybe (Expr.Derives .whole)) stop ts a rest := by
  rw [plain_expressionBefore] at h
  split at h
  · cases h
    exact ⟨[], rfl, .absent, id⟩
  · rw [andThen_eq_ok] at h
    obtain ⟨e, rest', he, h⟩ := h
    cases h
    obtain ⟨us, rfl, hus, hsure⟩ := read_sound he
    exact ⟨us, rfl, .present hus, hsure⟩

theorem condition_sound {e : Expr} (h : plain (condition stop ts) = .ok (e, rest)) : Took Condition stop ts e rest := by
  rw [plain_condition, andThen_eq_ok] at h
  obtain ⟨o, rest₁, ho, h⟩ := h
  obtain ⟨rfl, hok, -⟩ := expect_sound ho
  rw [andThen_eq_ok] at h
  obtain ⟨test, rest₂, htest, h⟩ := h
  obtain ⟨us, rfl, hus, -⟩ := read_sound htest
  rw [andThen_eq_ok] at h
  obtain ⟨c, rest₃, hc, h⟩ := h
  obtain ⟨rfl, hck, hsure⟩ := expect_sound hc
  cases h
  exact ⟨o :: (us ++ [c]), by simp, .parens hok hus hck, fun _ => hsure⟩

theorem name_sound {x : String} (h : plain (name stop ts) = .ok (x, rest)) :
    ∃ t, ts = t :: rest ∧ t.kind = .name ∧ x = t.text ∧ Sure stop rest := by
  obtain ⟨t, hts, hk, hread, hsure⟩ := expectAs_sound h
  cases hread
  exact ⟨t, hts, hk, rfl, hsure⟩

/-- A declared name that is read is derived by the tokens taken for it. -/
theorem declarator_sound {d : Declarator} (h : plain (declarator stop ts) = .ok (d, rest)) :
    Took Declarator.Derives stop ts d rest := by
  rw [plain_declarator, andThen_eq_ok] at h
  obtain ⟨id, rest₁, hid, h⟩ := h
  obtain ⟨t, rfl, hk, rfl, hsure⟩ := name_sound hid
  split at h
  · rw [andThen_eq_ok] at h
    obtain ⟨s, rest₂, hs, h⟩ := h
    obtain ⟨rfl, hsk, hsure'⟩ := expect_sound hs
    rw [andThen_eq_ok] at h
    obtain ⟨init, rest₃, hinit, h⟩ := h
    cases h
    obtain ⟨us, rfl, hus, hsure''⟩ := read_sound hinit
    exact ⟨t :: s :: us, rfl, .init hk hsk hus, fun _ => hsure'' hsure'⟩
  · cases h
    exact took_token (.bare hk) hsure

/-- A list that is read is derived by the tokens taken for it if each of its elements is. -/
theorem list_sound {Phrase : List Token → α → Prop} {item : List Token → Reading α}
    {list : List Token → Reading (List α)} (hlist : ReadsList stop item list)
    (hitem : ∀ {ts a rest}, item ts = .ok (a, rest) → Took Phrase stop ts a rest) {as : List α}
    (h : list ts = .ok (as, rest)) : Took (CommaList Phrase) stop ts as rest := by
  induction hn : ts.length using Nat.strongRecOn generalizing ts as rest with
  | _ n ih =>
    rw [hlist, andThen_eq_ok] at h
    obtain ⟨first, rest₁, hfirst, h⟩ := h
    obtain ⟨us, rfl, hus, hsure⟩ := hitem hfirst
    split at h
    · rw [andThen_eq_ok] at h
      obtain ⟨c, rest₂, hc, h⟩ := h
      obtain ⟨rfl, hck, hsure'⟩ := expect_sound hc
      rw [andThen_eq_ok] at h
      obtain ⟨others, rest₃, hothers, h⟩ := h
      cases h
      obtain ⟨vs, rfl, hvs, hsure''⟩ := ih rest₂.length (by rw [← hn]; simp; omega) hothers rfl
      exact ⟨us ++ c :: vs, by simp, .cons hus hck hvs, fun _ => hsure'' hsure'⟩
    · cases h
      exact ⟨us, rfl, .last hus, hsure⟩

theorem declaration_sound {ds : List Declarator} (h : plain (declaration stop ts) = .ok (ds, rest)) :
    Took Declaration stop ts ds rest := by
  rw [plain_declaration, andThen_eq_ok] at h
  obtain ⟨t, rest₁, ht, h⟩ := h
  obtain ⟨rfl, hk, hsure⟩ := expect_sound ht
  obtain ⟨us, rfl, hus, hsure'⟩ := list_sound plain_declarators declarator_sound h
  exact ⟨t :: us, rfl, .list hk hus, fun _ => hsure' hsure⟩

/-- Parameters that are read are derived by the tokens taken for them. -/
theorem parameters_sound {ps : List String} (h : plain (parameters stop ts) = .ok (ps, rest)) :
    Took Parameters stop ts ps rest := by
  rw [plain_parameters] at h
  split at h
  · cases h
    exact ⟨[], rfl, .none, id⟩
  · have hname : ∀ {ts x rest}, plain (name stop ts) = .ok (x, rest) → Took Parameter stop ts x rest := by
      intro ts x rest h
      obtain ⟨t, rfl, hk, rfl, hsure⟩ := name_sound h
      exact took_token (.name hk) hsure
    obtain ⟨us, rfl, hus, hsure⟩ := list_sound plain_names hname h
    exact ⟨us, rfl, .some hus, hsure⟩

/-- The opening of a counting loop that is read is derived by the tokens taken for it. -/
theorem loopInit_sound {init : Option ForInit} (h : plain (loopInit stop ts) = .ok (init, rest)) :
    Took (Maybe ForInit.Derives) stop ts init rest := by
  rw [plain_loopInit] at h
  split at h
  · cases h
    exact ⟨[], rfl, .absent, id⟩
  · split at h
    · rw [andThen_eq_ok] at h
      obtain ⟨list, rest', hlist, h⟩ := h
      cases h
      obtain ⟨us, rfl, hus, hsure⟩ := declaration_sound hlist
      exact ⟨us, rfl, .present (.declare hus), hsure⟩
    · rw [andThen_eq_ok] at h
      obtain ⟨e, rest', he, h⟩ := h
      cases h
      obtain ⟨us, rfl, hus, hsure⟩ := read_sound he
      exact ⟨us, rfl, .present (.eval hus), hsure⟩

/-- The head of a counting loop that is read is derived by the tokens taken for it. -/
theorem loopHead_sound {head : LoopHead} (h : plain (loopHead stop ts) = .ok (head, rest)) :
    Took LoopHead.Derives stop ts head rest := by
  rw [plain_loopHead, andThen_eq_ok] at h
  obtain ⟨f, rest₁, hf, h⟩ := h
  obtain ⟨rfl, hfk, -⟩ := expect_sound hf
  rw [andThen_eq_ok] at h
  obtain ⟨o, rest₂, ho, h⟩ := h
  obtain ⟨rfl, hok, -⟩ := expect_sound ho
  rw [andThen_eq_ok] at h
  obtain ⟨init, rest₃, hinit, h⟩ := h
  obtain ⟨is, rfl, his, -⟩ := loopInit_sound hinit
  rw [andThen_eq_ok] at h
  obtain ⟨s₁, rest₄, hs₁, h⟩ := h
  obtain ⟨rfl, hsk₁, -⟩ := expect_sound hs₁
  rw [andThen_eq_ok] at h
  obtain ⟨test, rest₅, htest, h⟩ := h
  obtain ⟨us, rfl, hus, -⟩ := expressionBefore_sound htest
  rw [andThen_eq_ok] at h
  obtain ⟨s₂, rest₆, hs₂, h⟩ := h
  obtain ⟨rfl, hsk₂, -⟩ := expect_sound hs₂
  rw [andThen_eq_ok] at h
  obtain ⟨update, rest₇, hupdate, h⟩ := h
  obtain ⟨vs, rfl, hvs, -⟩ := expressionBefore_sound hupdate
  rw [andThen_eq_ok] at h
  obtain ⟨c, rest₈, hc, h⟩ := h
  obtain ⟨rfl, hck, hsure⟩ := expect_sound hc
  cases h
  exact ⟨f :: o :: (is ++ s₁ :: (us ++ s₂ :: (vs ++ [c]))), by simp, .head hfk hok his hsk₁ hus hsk₂ hvs hck,
    fun _ => hsure⟩

/-- The head of a function that is read is derived by the tokens taken for it. -/
theorem functionHead_sound {head : String × List String} (h : plain (functionHead stop ts) = .ok (head, rest)) :
    Took (fun ts head => FunctionHead ts head.1 head.2) stop ts head rest := by
  rw [plain_functionHead, andThen_eq_ok] at h
  obtain ⟨d, rest₁, hd, h⟩ := h
  obtain ⟨rfl, hdk, -⟩ := expect_sound hd
  rw [andThen_eq_ok] at h
  obtain ⟨id, rest₂, hid, h⟩ := h
  obtain ⟨f, rfl, hfk, rfl, -⟩ := name_sound hid
  rw [andThen_eq_ok] at h
  obtain ⟨o, rest₃, ho, h⟩ := h
  obtain ⟨rfl, hok, -⟩ := expect_sound ho
  rw [andThen_eq_ok] at h
  obtain ⟨params, rest₄, hparams, h⟩ := h
  obtain ⟨us, rfl, hus, -⟩ := parameters_sound hparams
  rw [andThen_eq_ok] at h
  obtain ⟨c, rest₅, hc, h⟩ := h
  obtain ⟨rfl, hck, hsure⟩ := expect_sound hc
  cases h
  exact ⟨d :: f :: o :: (us ++ [c]), by simp, .head hdk hfk hok hus hck, fun _ => hsure⟩

/-! ## Statements, one production at a time -/

/-- A statement is taken, as one in front of what is left. -/
def ReadsStatement (ts : List Token) : Prop :=
  ∀ stop s rest, plain (statement stop ts) = .ok (s, rest) → Took (Stmt.Derives (kind? rest)) stop ts s rest

/-- Statements in braces are taken. -/
def ReadsBlock (ts : List Token) : Prop :=
  ∀ stop body rest, plain (block stop ts) = .ok (body, rest) → ∃ o us c, ts = o :: (us ++ c :: rest) ∧
    o.kind = .leftBrace ∧ Stmt.DerivesAll (some .rightBrace) us body ∧ c.kind = .rightBrace ∧ Sure stop rest

/-- Statements are taken, one at least, up to the end or a closing token. -/
def ReadsStatements (closing : Option TokenKind) (ts : List Token) : Prop :=
  ∀ stop ss rest, plain (statements stop closing ts) = .ok (ss, rest) →
    Took (Stmt.DerivesAll (kind? rest)) stop ts ss rest ∧ ss ≠ [] ∧ (kind? rest = none ∨ kind? rest = closing)

/-- A statement without statements in it is derived by the tokens taken for it, whatever follows. -/
theorem simple_sound {s : Stmt} (next : Option TokenKind) (h : plain (simple stop ts) = .ok (s, rest)) :
    Took (Stmt.Derives next) stop ts s rest := by
  rw [plain_simple] at h
  split at h
  · rw [andThen_eq_ok] at h
    obtain ⟨t, rest₁, ht, h⟩ := h
    cases h
    obtain ⟨rfl, hk, hsure⟩ := expect_sound ht
    exact took_token (.empty hk) hsure
  split at h
  · rw [andThen_eq_ok] at h
    obtain ⟨list, rest₁, hlist, h⟩ := h
    obtain ⟨us, rfl, hus, -⟩ := declaration_sound hlist
    rw [andThen_eq_ok] at h
    obtain ⟨s, rest₂, hs, h⟩ := h
    cases h
    obtain ⟨rfl, hsk, hsure⟩ := expect_sound hs
    exact ⟨us ++ [s], by simp, .declare hus hsk, fun _ => hsure⟩
  split at h
  · rw [andThen_eq_ok] at h
    obtain ⟨t, rest₁, ht, h⟩ := h
    obtain ⟨rfl, hk, -⟩ := expect_sound ht
    rw [andThen_eq_ok] at h
    obtain ⟨value, rest₂, hvalue, h⟩ := h
    obtain ⟨us, rfl, hus, -⟩ := expressionBefore_sound hvalue
    rw [andThen_eq_ok] at h
    obtain ⟨s, rest₃, hs, h⟩ := h
    cases h
    obtain ⟨rfl, hsk, hsure⟩ := expect_sound hs
    exact ⟨t :: (us ++ [s]), by simp, .result hk hus hsk, fun _ => hsure⟩
  · rw [andThen_eq_ok] at h
    obtain ⟨e, rest₁, he, h⟩ := h
    obtain ⟨us, rfl, hus, -⟩ := read_sound he
    rw [andThen_eq_ok] at h
    obtain ⟨s, rest₂, hs, h⟩ := h
    cases h
    obtain ⟨rfl, hsk, hsure⟩ := expect_sound hs
    exact ⟨us ++ [s], by simp, .eval hus hsk, fun _ => hsure⟩

/-- An `if` is read as the grammar has it if its bodies are: where no `else` is taken, none follows. -/
theorem readsStatement_if (hkind : kind? ts = some (.keyword .ifWord))
    (ih : ∀ us, us.length < ts.length → ReadsStatement us) : ReadsStatement ts := by
  intro stop s rest h
  rw [plain_statement_if hkind, andThen_eq_ok] at h
  obtain ⟨t, rest₁, ht, h⟩ := h
  obtain ⟨rfl, hk, hsure₁⟩ := expect_sound ht
  rw [andThen_eq_ok] at h
  obtain ⟨test, rest₂, htest, h⟩ := h
  obtain ⟨cs, rfl, hcs, hsure₂⟩ := condition_sound htest
  rw [andThen_eq_ok] at h
  obtain ⟨body, rest₃, hbody, h⟩ := h
  obtain ⟨us, rfl, hus, hsure₃⟩ := ih rest₂ (length_lt_cons_append _ _ _) stop body rest₃ hbody
  split at h
  · rw [andThen_eq_ok] at h
    obtain ⟨e, rest₄, he, h⟩ := h
    obtain ⟨rfl, hek, hsure₄⟩ := expect_sound he
    rw [andThen_eq_ok] at h
    obtain ⟨other, rest₅, hother, h⟩ := h
    cases h
    have hlt : rest₄.length < (t :: (cs ++ (us ++ e :: rest₄))).length := by
      simp only [List.length_append, List.length_cons]
      omega
    obtain ⟨vs, rfl, hvs, hsure₅⟩ := ih rest₄ hlt stop other rest hother
    have hus' : Stmt.Derives (some (.keyword .elseWord)) us body := by
      rw [← hek]
      exact hus
    exact ⟨t :: (cs ++ (us ++ e :: vs)), by simp, .ifElse hk hcs hus' hek hvs, fun _ => hsure₅ hsure₄⟩
  · next hne =>
    cases h
    exact ⟨t :: (cs ++ us), by simp, .ifThen hk hcs hus hne, fun _ => hsure₃ (hsure₂ hsure₁)⟩

theorem readsStatement_while (hkind : kind? ts = some (.keyword .whileWord))
    (ih : ∀ us, us.length < ts.length → ReadsStatement us) : ReadsStatement ts := by
  intro stop s rest h
  rw [plain_statement_while hkind, andThen_eq_ok] at h
  obtain ⟨t, rest₁, ht, h⟩ := h
  obtain ⟨rfl, hk, hsure₁⟩ := expect_sound ht
  rw [andThen_eq_ok] at h
  obtain ⟨test, rest₂, htest, h⟩ := h
  obtain ⟨cs, rfl, hcs, hsure₂⟩ := condition_sound htest
  rw [andThen_eq_ok] at h
  obtain ⟨body, rest₃, hbody, h⟩ := h
  cases h
  obtain ⟨us, rfl, hus, hsure₃⟩ := ih rest₂ (length_lt_cons_append _ _ _) stop body rest hbody
  exact ⟨t :: (cs ++ us), by simp, .whileLoop hk hcs hus, fun _ => hsure₃ (hsure₂ hsure₁)⟩

/-- A loop that tests last is read as the grammar has it if its body is: behind the body stands a `while`. -/
theorem readsStatement_do (hkind : kind? ts = some (.keyword .doWord))
    (ih : ∀ us, us.length < ts.length → ReadsStatement us) : ReadsStatement ts := by
  intro stop s rest h
  rw [plain_statement_do hkind, andThen_eq_ok] at h
  obtain ⟨t, rest₁, ht, h⟩ := h
  obtain ⟨rfl, hk, -⟩ := expect_sound ht
  rw [andThen_eq_ok] at h
  obtain ⟨body, rest₂, hbody, h⟩ := h
  obtain ⟨us, rfl, hus, -⟩ := ih rest₁ (by simp) stop body rest₂ hbody
  rw [andThen_eq_ok] at h
  obtain ⟨w, rest₃, hw, h⟩ := h
  obtain ⟨rfl, hwk, -⟩ := expect_sound hw
  rw [andThen_eq_ok] at h
  obtain ⟨test, rest₄, htest, h⟩ := h
  obtain ⟨cs, rfl, hcs, -⟩ := condition_sound htest
  rw [andThen_eq_ok] at h
  obtain ⟨s, rest₅, hs, h⟩ := h
  cases h
  obtain ⟨rfl, hsk, hsure⟩ := expect_sound hs
  have hus' : Stmt.Derives (some (.keyword .whileWord)) us body := by
    rw [← hwk]
    exact hus
  exact ⟨t :: (us ++ w :: (cs ++ [s])), by simp, .doWhile hk hus' hwk hcs hsk, fun _ => hsure⟩

theorem readsStatement_for (hkind : kind? ts = some (.keyword .forWord))
    (ih : ∀ us, us.length < ts.length → ReadsStatement us) : ReadsStatement ts := by
  intro stop s rest h
  rw [plain_statement_for hkind, andThen_eq_ok] at h
  obtain ⟨head, rest₁, hhead, h⟩ := h
  have hshort := plain_shorter hhead
  obtain ⟨hs, rfl, hhs, hsure₁⟩ := loopHead_sound hhead
  rw [andThen_eq_ok] at h
  obtain ⟨body, rest₂, hbody, h⟩ := h
  cases h
  obtain ⟨us, rfl, hus, hsure₂⟩ := ih rest₁ hshort stop body rest hbody
  exact ⟨hs ++ us, by simp, .forLoop hhs hus, fun hsure => hsure₂ (hsure₁ hsure)⟩

theorem readsStatement_def (hkind : kind? ts = some (.keyword .defWord))
    (ih : ∀ us, us.length < ts.length → ReadsBlock us) : ReadsStatement ts := by
  intro stop s rest h
  rw [plain_statement_def hkind, andThen_eq_ok] at h
  obtain ⟨head, rest₁, hhead, h⟩ := h
  have hshort := plain_shorter hhead
  obtain ⟨hs, rfl, hhs, -⟩ := functionHead_sound hhead
  rw [andThen_eq_ok] at h
  obtain ⟨body, rest₂, hbody, h⟩ := h
  cases h
  obtain ⟨o, us, c, rfl, hok, hus, hck, hsure⟩ := ih rest₁ hshort stop body rest hbody
  exact ⟨hs ++ o :: (us ++ [c]), by simp, .function hhs hok hus hck, fun _ => hsure⟩

/-- A statement is read as the grammar has it, by its first token. -/
theorem readsStatement (ihBlock : ReadsBlock ts)
    (ih : ∀ us, us.length < ts.length → ReadsStatement us ∧ ReadsBlock us) : ReadsStatement ts := by
  by_cases hbrace : kind? ts = some .leftBrace
  · intro stop s rest h
    rw [plain_statement_block hbrace, andThen_eq_ok] at h
    obtain ⟨body, rest₁, hbody, h⟩ := h
    cases h
    obtain ⟨o, us, c, rfl, hok, hus, hck, hsure⟩ := ihBlock stop body rest hbody
    exact ⟨o :: (us ++ [c]), by simp, .block hok hus hck, fun _ => hsure⟩
  by_cases hif : kind? ts = some (.keyword .ifWord)
  · exact readsStatement_if hif fun us h => (ih us h).1
  by_cases hwhile : kind? ts = some (.keyword .whileWord)
  · exact readsStatement_while hwhile fun us h => (ih us h).1
  by_cases hdo : kind? ts = some (.keyword .doWord)
  · exact readsStatement_do hdo fun us h => (ih us h).1
  by_cases hfor : kind? ts = some (.keyword .forWord)
  · exact readsStatement_for hfor fun us h => (ih us h).1
  by_cases hdef : kind? ts = some (.keyword .defWord)
  · exact readsStatement_def hdef fun us h => (ih us h).2
  · intro stop s rest h
    rw [plain_statement_simple (by simp [compoundOpeners, hbrace, hif, hwhile, hdo, hfor, hdef])] at h
    exact simple_sound _ h

/-- A block is read as the grammar has it if the statements in it are. -/
theorem readsBlock (ih : ∀ us, us.length < ts.length → ReadsStatements (some .rightBrace) us) : ReadsBlock ts := by
  intro stop body rest h
  rw [plain_block, andThen_eq_ok] at h
  obtain ⟨o, rest₁, ho, h⟩ := h
  obtain ⟨rfl, hok, -⟩ := expect_sound ho
  split at h
  · rw [andThen_eq_ok] at h
    obtain ⟨c, rest₂, hc, h⟩ := h
    cases h
    obtain ⟨rfl, hck, hsure⟩ := expect_sound hc
    exact ⟨o, [], c, rfl, hok, .nil, hck, hsure⟩
  · rw [andThen_eq_ok] at h
    obtain ⟨ss, rest₂, hss, h⟩ := h
    obtain ⟨⟨us, rfl, hus, -⟩, -, -⟩ := ih rest₁ (by simp) stop ss rest₂ hss
    rw [andThen_eq_ok] at h
    obtain ⟨c, rest₃, hc, h⟩ := h
    cases h
    obtain ⟨rfl, hck, hsure⟩ := expect_sound hc
    have hus' : Stmt.DerivesAll (some .rightBrace) us body := by
      rw [← hck]
      exact hus
    exact ⟨o, us, c, rfl, hok, hus', hck, hsure⟩

/-- Statements are read as the grammar has them if the first is and those behind it are. -/
theorem readsStatements {closing : Option TokenKind} (ihFirst : ReadsStatement ts)
    (ih : ∀ us, us.length < ts.length → ReadsStatements closing us) : ReadsStatements closing ts := by
  intro stop ss rest h
  rw [plain_statements, andThen_eq_ok] at h
  obtain ⟨first, rest₁, hfirst, h⟩ := h
  have hshort := plain_shorter hfirst
  obtain ⟨us, rfl, hus, hsure₁⟩ := ihFirst stop first rest₁ hfirst
  split at h
  · next hend =>
    cases h
    have hone : Stmt.DerivesAll (kind? rest) (us ++ []) [first] := .cons hus .nil
    rw [List.append_nil] at hone
    exact ⟨⟨us, rfl, hone, hsure₁⟩, List.cons_ne_nil _ _, hend⟩
  · rw [andThen_eq_ok] at h
    obtain ⟨others, rest₂, hothers, h⟩ := h
    cases h
    obtain ⟨⟨vs, rfl, hvs, hsure₂⟩, -, hend⟩ := ih rest₁ hshort stop others rest hothers
    rw [kind?_append] at hus
    exact ⟨⟨us ++ vs, by simp, .cons hus hvs, fun hsure => hsure₂ (hsure₁ hsure)⟩, List.cons_ne_nil _ _, hend⟩

/-- A statement that is read is derived by the tokens taken for it, in front of the token that is left. -/
theorem statement_sound {s : Stmt} (h : plain (statement stop ts) = .ok (s, rest)) :
    Took (Stmt.Derives (kind? rest)) stop ts s rest :=
  (statement_induction (fun _ => readsStatement) (fun _ => readsBlock) (fun _ _ => readsStatements)).1 ts stop s rest h

/-- Statements that are read are derived by the tokens taken for them, and end where they may. -/
theorem statements_sound {closing : Option TokenKind} {ss : List Stmt}
    (h : plain (statements stop closing ts) = .ok (ss, rest)) :
    Took (Stmt.DerivesAll (kind? rest)) stop ts ss rest ∧ ss ≠ [] ∧ (kind? rest = none ∨ kind? rest = closing) :=
  (statement_induction (fun _ => readsStatement) (fun _ => readsBlock) (fun _ _ => readsStatements)).2.2 closing ts stop
    ss rest h

end Parse

end Scriptlet
