import Scriptlet.Proofs.Grammar.Agreement
import Scriptlet.Proofs.Parse.Prompt

/-!
# Faults at the earliest token

Every production is prompt. So a token that is reported as unexpected is the first one with which the tokens in front of it
cannot be the start of a program, and one of the kind that is reported as expected could stand in its place.
-/

namespace Scriptlet

/-! ## Texts that mean something -/

/-- Assignment operators are tokens of one or two characters. -/
theorem TokenKind.isSign_of_isAssignment {kind : TokenKind} (h : kind.isAssignment = true) : kind.isSign = true := by
  cases kind <;> first | rfl | cases h

namespace Token.Genuine

variable {t : Token}

/-- The text of an assignment operator that can stand in a source means one. -/
theorem exists_assignOp (h : t.Genuine) {kind : TokenKind} (hk : t.kind = kind) (hassign : kind.isAssignment = true) :
    ∃ op, AssignOp.ofText? t.text = some op := by
  have hsigns : ∀ sign ∈ signs, sign.1.isAssignment = true → (AssignOp.ofText? sign.2).isSome = true := by decide
  rw [← hk] at hassign
  have hmem := h.mem_signs_of_isSign (TokenKind.isSign_of_isAssignment hassign)
  exact Option.isSome_iff_exists.mp (hsigns _ hmem hassign)

/-- The text of a sign that can stand in a source means one. -/
theorem exists_unaryOp (h : t.Genuine) {kind : TokenKind} (hk : t.kind = kind)
    (hsign : kind = .additive ∨ kind = .logicalNot) : ∃ op, UnaryOp.ofText? t.text = some op := by
  have hsigns : ∀ sign ∈ signs, sign.1 = .additive ∨ sign.1 = .logicalNot → (UnaryOp.ofText? sign.2).isSome = true := by
    decide
  rw [← hk] at hsign
  have hmem := h.mem_signs_of_isSign (by rcases hsign with hsign | hsign <;> rw [hsign] <;> rfl)
  exact Option.isSome_iff_exists.mp (hsigns _ hmem hsign)

/-- The text of an operator that can stand in a source has a node on its level. -/
theorem exists_node (h : t.Genuine) {level : Level} (hk : t.kind = level.kind) :
    ∃ node, level.node? t.text = some node := by
  have hsigns : ∀ sign ∈ signs, sign.1 = level.kind → (level.node? sign.2).isSome = true := by cases level <;> decide
  have hmem := h.mem_signs_of_isSign (by rw [hk]; cases level <;> rfl)
  exact Option.isSome_iff_exists.mp (hsigns _ hmem hk)

theorem exists_number (h : t.Genuine) (hk : t.kind = .number) : ∃ x, Double.ofDigits? t.text = some x :=
  ⟨_, if_pos (h.isDigitRun hk)⟩

end Token.Genuine

namespace Parse

variable {ts : List Token}

/-! ## Expressions -/

/-- A name is an expression of every rank. -/
theorem sample_derives (rank : Rank) : Expr.Derives rank [TokenKind.name.sample] (.name "x") :=
  Expr.Derives.loosen (.name rfl) (by cases rank with | level l => cases l <;> decide | _ => decide)

/-- Nothing but tokens of known kinds is needed to go on. -/
theorem forall_genuine_samples (kinds : List TokenKind) : ∀ t ∈ kinds.map TokenKind.sample, t.Genuine := by
  intro t ht
  obtain ⟨kind, -, rfl⟩ := List.mem_map.mp ht
  exact kind.sample_genuine

/-- The production of a rank is prompt. -/
def PromptRead (rank : Rank) (ts : List Token) : Prop := Prompt (fun stop us => read stop rank us) (Expr.Derives rank) ts

/-- The operators of a level behind a left side are prompt. -/
def PromptChain (level : Level) (left : Expr) (ts : List Token) : Prop :=
  Prompt (fun stop us => plain (chain stop level left us)) (CarriesOn level left) ts

/-- The kind that is seen belongs to the first token. -/
theorem kind?_congr {us : List Token} (h : us.head? = ts.head?) : kind? us = kind? ts := by
  rw [kind?, kind?, h]

/-- A literal that is seen is taken. -/
theorem prompt_literal (h : (kind? ts).any TokenKind.isLiteral = true) :
    Prompt (fun stop us => plain (literal stop us)) (Expr.Derives .atom) ts := by
  have hsame : ∀ {kind : TokenKind} us, us.head? = ts.head? → kind? ts = some kind → kind? us = some kind :=
    fun us hus hk => (kind?_congr hus).trans hk
  obtain ⟨kind, hkind, hliteral⟩ : ∃ kind, kind? ts = some kind ∧ kind.isLiteral = true := by
    simpa [Option.any_eq_true] using h
  have hliteral' : kind = .text ∨ kind = .keyword .trueWord ∨ kind = .keyword .falseWord ∨ kind = .keyword .nullWord ∨
      kind = .number := by
    cases kind with
    | keyword word => cases word <;> simp_all [TokenKind.isLiteral]
    | _ => simp_all [TokenKind.isLiteral]
  -- The token is there, so its own rule takes it.
  have hknown : Prompt (fun stop us => plain (literal stop us)) (fun _ _ => False) ts := by
    rcases hliteral' with rfl | rfl | rfl | rfl | rfl
    · exact .congr (fun stop us hus => by rw [literal, hsame us hus hkind]) (prompt_knownAs hkind fun t _ _ => ⟨_, rfl⟩)
    · exact .congr (fun stop us hus => by rw [literal, hsame us hus hkind]) (prompt_knownAs hkind fun t _ _ => ⟨_, rfl⟩)
    · exact .congr (fun stop us hus => by rw [literal, hsame us hus hkind]) (prompt_knownAs hkind fun t _ _ => ⟨_, rfl⟩)
    · exact .congr (fun stop us hus => by rw [literal, hsame us hus hkind]) (prompt_knownAs hkind fun t _ _ => ⟨_, rfl⟩)
    · refine .congr (fun stop us hus => by rw [literal, hsame us hus hkind]) (prompt_knownAs hkind fun t ht hk => ?_)
      obtain ⟨x, hx⟩ := ht.exists_number hk
      exact ⟨.number x, by rw [hx]; rfl⟩
  exact hknown.starts fun _ _ => False.elim

/-- What needs no parentheses is prompt if whole expressions are on shorter lists. -/
theorem promptRead_atom (ihInner : ∀ us, us.length < ts.length → PromptRead .whole us) : PromptRead .atom ts := by
  by_cases hparen : kind? ts = some .leftParen
  · refine Prompt.congr (fun stop us hus => (read_atom us).trans (if_pos ((kind?_congr hus).trans hparen))) ?_
    refine Prompt.known hparen ?_
    intro o rest hts ho
    refine (ihInner rest (by simp [hts])).seq (fun us e he => ?_) fun stop e taken rest' hrest he => ?_
    · exact ⟨_, _, forall_genuine_samples [.rightParen], .parens ho he rfl⟩
    have hinner := (read_sound he).phrase hrest
    refine Prompt.token (fun c hc => ?_) fun c rest'' _ hc => prompt_pure e
    exact ⟨[], e, List.forall_mem_nil _, .parens ho hinner hc⟩
  by_cases hliteral : (kind? ts).any TokenKind.isLiteral = true
  · refine Prompt.congr (fun stop us hus => ?_) (prompt_literal hliteral)
    rw [read_atom, if_neg (by rwa [kind?_congr hus]), if_pos (by rwa [kind?_congr hus])]
  · refine Prompt.congr (fun stop us hus => (read_atom us).trans ((if_neg ?_).trans
      ((if_neg ?_).trans (plain_expectAs .name _ us)))) (Prompt.token (fun t hk => ?_) fun t rest _ hk => ?_)
    · rwa [kind?_congr hus]
    · rwa [kind?_congr hus]
    · exact ⟨[], _, List.forall_mem_nil _, .name hk⟩
    · exact prompt_pure _

/-- Operands with signs are prompt if those without are, and shorter lists are. -/
theorem promptRead_signed (ihAtom : PromptRead .atom ts) (ihArgument : ∀ us, us.length < ts.length → PromptRead .signed us) :
    PromptRead .signed ts := by
  have hsign : ∀ us : List Token, us.head? = ts.head? → sign? us = sign? ts :=
    fun us hus => by rw [sign?, kind?_congr hus, sign?]
  cases hkind : sign? ts with
  | none =>
    refine Prompt.congr (fun stop us hus => ?_) (ihAtom.starts (starts_of_forall fun us e he => ⟨e, .unsigned he⟩))
    rw [read_signed, hsign us hus, hkind]
  | some kind =>
    obtain ⟨hkind', hsigns⟩ := sign?_eq_some hkind
    refine Prompt.congr (fun stop us hus => (read_signed us).trans (by rw [hsign us hus, hkind])) ?_
    refine Prompt.knownAs hkind' (fun t ht hk => ht.exists_unaryOp hk hsigns) ?_
    intro t op rest hts hk hop
    refine (ihArgument rest (by simp [hts])).seq (starts_of_forall fun us e he => ?_) fun stop e _ _ _ _ => prompt_pure _
    exact ⟨_, .sign (hk ▸ hsigns) hop he⟩

/-- The operators of a level are prompt if operands and operators are on shorter lists. -/
theorem promptChain {l : Level} {left : Expr} (ihRight : ∀ us, us.length < ts.length → PromptRead l.operandRank us)
    (ihChain : ∀ left us, us.length < ts.length → PromptChain l left us) : PromptChain l left ts := by
  by_cases hkind : kind? ts = some l.kind
  · refine Prompt.congr (fun stop us hus => (plain_chain l left us).trans (if_pos ((kind?_congr hus).trans hkind))) ?_
    refine Prompt.knownAs hkind (fun t ht hk => ht.exists_node hk) ?_
    intro t node rest hts hk hnode
    obtain ⟨op, hop, rfl⟩ := Level.exists_joins hk hnode
    refine (ihRight rest (by simp [hts])).seq (starts_of_forall fun us right hright => ?_)
      fun stop right taken rest' hrest hright => ?_
    · exact ⟨op.node left right, fun ls hls => .operator hls hop hright⟩
    have hright' := (read_sound hright).phrase hrest
    refine (ihChain (op.node left right) rest' ?_).starts (starts_of_forall fun us e he => ⟨e, fun ls hls => ?_⟩)
    · have := read_shorter hright
      rw [hts, List.length_cons]
      omega
    · have := he (ls ++ t :: taken) (.operator hls hop hright')
      simpa using this
  · refine Prompt.congr (fun stop us hus => ?_) (prompt_pure left)
    rw [plain_chain, if_neg (by rwa [kind?_congr hus])]

/-- A level is prompt if its operands are, and its operators are on shorter lists. -/
theorem promptRead_level {l : Level} (ihFirst : PromptRead l.operandRank ts)
    (ihChain : ∀ left us, us.length < ts.length → PromptChain l left us) : PromptRead (.level l) ts := by
  refine Prompt.congr (fun stop us _ => read_level l us) ?_
  refine Prompt.seq ihFirst (starts_of_forall fun us e he => ⟨e, .operand he⟩) fun stop first taken rest hts hfirst => ?_
  have hfirst' := (read_sound hfirst).phrase hts
  exact (ihChain first rest (read_shorter hfirst)).starts (starts_of_forall fun us e he => ⟨e, he taken (.operand hfirst')⟩)

/-- Whole expressions are prompt if the weakest level is, and shorter lists are. Of a bad target nothing is asked. -/
theorem promptRead_whole (ihLeft : PromptRead (.level .or) ts)
    (ihValue : ∀ us, us.length < ts.length → PromptRead .whole us) : PromptRead .whole ts := by
  have hposition : ∀ us : List Token, us.head? = ts.head? → position us = position ts :=
    fun us hus => by rw [position, hus, position]
  refine Prompt.congr (fun stop us hus => (read_whole us).trans (by rw [hposition us hus])) ?_
  refine Prompt.seq ihLeft (starts_of_forall fun us e he => ⟨e, .loosest he⟩) fun stop left taken rest hts hleft => ?_
  have hassign : ∀ us : List Token, us.head? = rest.head? → assignment? us = assignment? rest :=
    fun us hus => by rw [assignment?, kind?_congr hus, assignment?]
  cases hkind : assignment? rest with
  | none => exact .congr (fun stop us hus => by rw [hassign us hus, hkind]) (prompt_pure left)
  | some kind =>
    obtain ⟨hkind', hassignment⟩ := assignment?_eq_some hkind
    refine .congr (fun stop us hus => by rw [hassign us hus, hkind]) ?_
    refine Prompt.knownAs hkind' (fun t ht hk => ht.exists_assignOp hk hassignment) ?_
    intro t op rest' hrest hk hop
    cases left with
    | name x =>
      have hleft' := (read_sound hleft).phrase hts
      refine (ihValue rest' ?_).seq (starts_of_forall fun us e he => ?_) fun stop e _ _ _ _ => prompt_pure _
      · have := read_shorter hleft
        rw [hrest, List.length_cons] at this
        omega
      · exact ⟨_, .assign hleft' (hk ▸ hassignment) hop he⟩
    | _ => exact fun _ _ => trivial

/-- Every production of expressions is prompt. -/
theorem prompt_read (rank : Rank) (ts : List Token) : PromptRead rank ts :=
  (read_induction (fun _ => promptRead_whole) (fun _ _ => promptRead_level) (fun _ _ _ => promptChain)
    (fun _ => promptRead_signed) (fun _ => promptRead_atom)).1 rank ts

/-! ## Parts of statements -/

/-- A clause that may be absent is prompt: where its closing token does not stand, an expression may start. -/
theorem prompt_expressionBefore (closing : TokenKind) (ts : List Token) :
    Prompt (fun stop us => plain (expressionBefore stop closing us)) (Maybe (Expr.Derives .whole)) ts := by
  by_cases hkind : kind? ts = some closing
  · refine Prompt.congr (fun stop us hus => ?_) (prompt_pure none)
    rw [plain_expressionBefore, if_pos ((kind?_congr hus).trans hkind)]
  · refine Prompt.congr (fun stop us hus => (plain_expressionBefore closing us).trans (if_neg ?_)) ?_
    · rwa [kind?_congr hus]
    refine (prompt_read .whole ts).seq (starts_of_forall fun us e he => ?_) fun stop e _ _ _ _ => prompt_pure _
    exact ⟨some e, .present he⟩

/-- Conditions are prompt. -/
theorem prompt_condition (ts : List Token) : Prompt (fun stop us => plain (condition stop us)) Condition ts := by
  refine Prompt.congr (fun stop us _ => plain_condition us) ?_
  refine Prompt.token (fun o ho => ?_) fun o rest hts ho => ?_
  · exact ⟨_, _, forall_genuine_samples [.name, .rightParen], .parens ho (sample_derives .whole) rfl⟩
  refine (prompt_read .whole rest).seq (fun us e he => ?_) fun stop e taken rest' hrest he => ?_
  · exact ⟨_, _, forall_genuine_samples [.rightParen], .parens ho he rfl⟩
  have he' := (read_sound he).phrase hrest
  exact Prompt.token (fun c hc => ⟨[], e, List.forall_mem_nil _, .parens ho he' hc⟩) fun c rest'' _ hc => prompt_pure e

/-- Declared names are prompt: behind a name a first value may follow or not. -/
theorem prompt_declarator (ts : List Token) : Prompt (fun stop us => plain (declarator stop us)) Declarator.Derives ts := by
  refine Prompt.congr (fun stop us _ => plain_declarator us) ?_
  refine (prompt_name ts).seq (starts_of_forall fun us x hx => ?_) fun stop x taken rest hts hx => ?_
  · cases hx with
    | name hk => exact ⟨_, .bare hk⟩
  obtain ⟨t, hts', hk, rfl, -⟩ := name_sound hx
  obtain rfl : taken = [t] := List.append_cancel_right (hts.symm.trans hts')
  by_cases hkind : kind? rest = some .assign
  · refine Prompt.congr (fun stop us hus => if_pos ((kind?_congr hus).trans hkind)) ?_
    refine Prompt.known hkind ?_
    intro s rest' _ hs
    refine (prompt_read .whole rest').seq (starts_of_forall fun us e he => ?_) fun stop e _ _ _ _ => prompt_pure _
    exact ⟨_, .init hk hs he⟩
  · exact Prompt.congr (fun stop us hus => if_neg (by rwa [kind?_congr hus])) (prompt_pure _)

/-- A list is prompt when its items are. -/
theorem prompt_list {α : Type} {Phrase : List Token → α → Prop} {item : Option LexFault → List Token → Reading α}
    {list : Option LexFault → List Token → Reading (List α)} (hlist : ∀ stop, ReadsList stop (item stop) (list stop))
    (hsound : ∀ {stop ts a rest}, item stop ts = .ok (a, rest) → Took Phrase stop ts a rest ∧ rest.length < ts.length)
    (hitem : ∀ ts, Prompt item Phrase ts) (ts : List Token) : Prompt list (CommaList Phrase) ts := by
  induction hn : ts.length using Nat.strongRecOn generalizing ts with
  | _ n ih =>
    refine Prompt.congr (fun stop us _ => hlist stop us) ?_
    refine (hitem ts).seq (starts_of_forall fun us a ha => ⟨[a], .last ha⟩) fun stop a taken rest hts ha => ?_
    obtain ⟨htook, hshort⟩ := hsound ha
    have ha' := htook.phrase hts
    by_cases hkind : kind? rest = some .comma
    · refine Prompt.congr (fun stop us hus => if_pos ((kind?_congr hus).trans hkind)) ?_
      refine Prompt.known hkind ?_
      intro c rest' hrest hc
      have hlt : rest'.length < n := by
        rw [hrest, List.length_cons] at hshort
        omega
      refine (ih _ hlt rest' rfl).seq (starts_of_forall fun us as has => ?_) fun stop as _ _ _ _ => prompt_pure _
      exact ⟨a :: as, .cons ha' hc has⟩
    · exact Prompt.congr (fun stop us hus => if_neg (by rwa [kind?_congr hus])) (prompt_pure _)

/-- Declarations are prompt. -/
theorem prompt_declaration (ts : List Token) : Prompt (fun stop us => plain (declaration stop us)) Declaration ts := by
  refine Prompt.congr (fun stop us _ => plain_declaration us) ?_
  refine Prompt.token (fun t hk => ?_) fun t rest _ hk => ?_
  · exact ⟨_, _, forall_genuine_samples [.name], .list hk (.last (.bare rfl))⟩
  refine Prompt.starts ?_ (starts_of_forall fun us ds hds => ⟨ds, .list hk hds⟩)
  exact prompt_list (fun _ => plain_declarators) (fun h => ⟨declarator_sound h, plain_shorter h⟩) prompt_declarator rest

/-- Parameters are prompt: any phrase of names may be closed. -/
theorem prompt_parameters (ts : List Token) : Prompt (fun stop us => plain (parameters stop us)) Parameters ts := by
  by_cases hkind : kind? ts = some .rightParen
  · refine Prompt.congr (fun stop us hus => ?_) (prompt_pure [])
    rw [plain_parameters, if_pos ((kind?_congr hus).trans hkind)]
  · refine Prompt.congr (fun stop us hus => (plain_parameters us).trans (if_neg (by rwa [kind?_congr hus]))) ?_
    refine Prompt.starts ?_ (starts_of_forall fun us ps hps => ⟨ps, .some hps⟩)
    refine prompt_list (fun _ => plain_names) (fun {stop ts x rest} h => ⟨?_, plain_shorter h⟩) prompt_name ts
    obtain ⟨t, rfl, hk, rfl, hsure⟩ := name_sound h
    exact took_token (.name hk) hsure

/-- The opening of a counting loop is prompt. -/
theorem prompt_loopInit (ts : List Token) : Prompt (fun stop us => plain (loopInit stop us)) (Maybe ForInit.Derives) ts := by
  by_cases hsemicolon : kind? ts = some .semicolon
  · refine Prompt.congr (fun stop us hus => ?_) (prompt_pure none)
    rw [plain_loopInit, if_pos ((kind?_congr hus).trans hsemicolon)]
  by_cases hlet : kind? ts = some (.keyword .letWord)
  · refine Prompt.congr (fun stop us hus => (plain_loopInit us).trans ((if_neg ?_).trans (if_pos ?_))) ?_
    · rwa [kind?_congr hus]
    · rwa [kind?_congr hus]
    refine (prompt_declaration ts).seq (starts_of_forall fun us ds hds => ?_) fun stop ds _ _ _ _ => prompt_pure _
    exact ⟨_, .present (.declare hds)⟩
  · refine Prompt.congr (fun stop us hus => (plain_loopInit us).trans ((if_neg ?_).trans (if_neg ?_))) ?_
    · rwa [kind?_congr hus]
    · rwa [kind?_congr hus]
    refine (prompt_read .whole ts).seq (starts_of_forall fun us e he => ?_) fun stop e _ _ _ _ => prompt_pure _
    exact ⟨_, .present (.eval he)⟩

/-- The head of a counting loop is prompt, clause by clause. -/
theorem prompt_loopHead (ts : List Token) : Prompt (fun stop us => plain (loopHead stop us)) LoopHead.Derives ts := by
  refine Prompt.congr (fun stop us _ => plain_loopHead us) ?_
  refine Prompt.token (fun f hf => ?_) fun f rest₁ _ hf => ?_
  · exact ⟨_, _, forall_genuine_samples [.leftParen, .semicolon, .semicolon, .rightParen],
      .head hf rfl .absent rfl .absent rfl .absent rfl⟩
  refine Prompt.token (fun o ho => ?_) fun o rest₂ _ ho => ?_
  · exact ⟨_, _, forall_genuine_samples [.semicolon, .semicolon, .rightParen],
      .head hf ho .absent rfl .absent rfl .absent rfl⟩
  refine (prompt_loopInit rest₂).seq (fun us i hi => ?_) fun stop i is rest₃ hrest₃ hi => ?_
  · exact ⟨_, _, forall_genuine_samples [.semicolon, .semicolon, .rightParen], .head hf ho hi rfl .absent rfl .absent rfl⟩
  have hi' := (loopInit_sound hi).phrase hrest₃
  refine Prompt.token (fun s₁ hs₁ => ?_) fun s₁ rest₄ _ hs₁ => ?_
  · exact ⟨_, _, forall_genuine_samples [.semicolon, .rightParen], .head hf ho hi' hs₁ .absent rfl .absent rfl⟩
  refine (prompt_expressionBefore .semicolon rest₄).seq (fun us e he => ?_) fun stop e es rest₅ hrest₅ he => ?_
  · exact ⟨_, _, forall_genuine_samples [.semicolon, .rightParen], .head hf ho hi' hs₁ he rfl .absent rfl⟩
  have he' := (expressionBefore_sound he).phrase hrest₅
  refine Prompt.token (fun s₂ hs₂ => ?_) fun s₂ rest₆ _ hs₂ => ?_
  · exact ⟨_, _, forall_genuine_samples [.rightParen], .head hf ho hi' hs₁ he' hs₂ .absent rfl⟩
  refine (prompt_expressionBefore .rightParen rest₆).seq (fun us u hu => ?_) fun stop u us rest₇ hrest₇ hu => ?_
  · exact ⟨_, _, forall_genuine_samples [.rightParen], .head hf ho hi' hs₁ he' hs₂ hu rfl⟩
  have hu' := (expressionBefore_sound hu).phrase hrest₇
  refine Prompt.token (fun c hc => ?_) fun c rest₈ _ hc => prompt_pure _
  exact ⟨[], _, List.forall_mem_nil _, .head hf ho hi' hs₁ he' hs₂ hu' hc⟩

/-- The head of a function is prompt. -/
theorem prompt_functionHead (ts : List Token) :
    Prompt (fun stop us => plain (functionHead stop us)) (fun us head => FunctionHead us head.1 head.2) ts := by
  refine Prompt.congr (fun stop us _ => plain_functionHead us) ?_
  refine Prompt.token (fun d hd => ?_) fun d rest₁ _ hd => ?_
  · exact ⟨_, (_, _), forall_genuine_samples [.name, .leftParen, .rightParen], .head hd rfl rfl .none rfl⟩
  refine (prompt_name rest₁).seq (fun us x hx => ?_) fun stop x taken rest₂ hrest₂ hx => ?_
  · cases hx with
    | name hf => exact ⟨_, (_, _), forall_genuine_samples [.leftParen, .rightParen], .head hd hf rfl .none rfl⟩
  obtain ⟨f, hrest₂', hf, rfl, -⟩ := name_sound hx
  obtain rfl : taken = [f] := List.append_cancel_right (hrest₂.symm.trans hrest₂')
  refine Prompt.token (fun o ho => ?_) fun o rest₃ _ ho => ?_
  · exact ⟨_, (_, _), forall_genuine_samples [.rightParen], .head hd hf ho .none rfl⟩
  refine (prompt_parameters rest₃).seq (fun us ps hps => ?_) fun stop ps us rest₄ hrest₄ hps => ?_
  · exact ⟨_, (_, _), forall_genuine_samples [.rightParen], .head hd hf ho hps rfl⟩
  have hps' := (parameters_sound hps).phrase hrest₄
  refine Prompt.token (fun c hc => ?_) fun c rest₅ _ hc => prompt_pure _
  exact ⟨[], (_, _), List.forall_mem_nil _, .head hd hf ho hps' hc⟩

/-! ## Statements -/

/-- A statement in front of anything but an `else`. -/
def Statement (us : List Token) (s : Stmt) : Prop :=
  ∀ next : Option TokenKind, next ≠ some (.keyword .elseWord) → s.Derives next us

/-- One statement or more in front of anything but an `else`. -/
def Statements (us : List Token) (ss : List Stmt) : Prop :=
  ss ≠ [] ∧ ∀ next : Option TokenKind, next ≠ some (.keyword .elseWord) → Stmt.DerivesAll next us ss

/-- Statements in braces. -/
def Braced (us : List Token) (body : List Stmt) : Prop :=
  ∃ o vs c, us = o :: (vs ++ [c]) ∧ o.kind = .leftBrace ∧ Stmt.DerivesAll (some .rightBrace) vs body ∧ c.kind = .rightBrace

/-- Statements without statements in them are prompt. -/
theorem prompt_simple (ts : List Token) : Prompt (fun stop us => plain (simple stop us)) Statement ts := by
  by_cases hsemicolon : kind? ts = some .semicolon
  · refine Prompt.congr (fun stop us hus => (plain_simple us).trans (if_pos ((kind?_congr hus).trans hsemicolon))) ?_
    exact Prompt.known hsemicolon fun t rest _ hk => prompt_pure _
  by_cases hlet : kind? ts = some (.keyword .letWord)
  · refine Prompt.congr (fun stop us hus => (plain_simple us).trans ((if_neg ?_).trans (if_pos ?_))) ?_
    · rwa [kind?_congr hus]
    · rwa [kind?_congr hus]
    refine (prompt_declaration ts).seq (fun us ds hds => ?_) fun stop ds taken rest hts hds => ?_
    · exact ⟨_, _, forall_genuine_samples [.semicolon], fun next _ => .declare hds rfl⟩
    have hds' := (declaration_sound hds).phrase hts
    refine Prompt.token (fun s hs => ?_) fun s rest' _ hs => prompt_pure _
    exact ⟨[], _, List.forall_mem_nil _, fun next _ => .declare hds' hs⟩
  by_cases hreturn : kind? ts = some (.keyword .returnWord)
  · refine Prompt.congr (fun stop us hus => (plain_simple us).trans
      ((if_neg ?_).trans ((if_neg ?_).trans (if_pos ?_)))) ?_
    · rwa [kind?_congr hus]
    · rwa [kind?_congr hus]
    · rwa [kind?_congr hus]
    refine Prompt.known hreturn ?_
    intro t rest hts hk
    refine (prompt_expressionBefore .semicolon rest).seq (fun us e he => ?_) fun stop e taken rest' hrest he => ?_
    · exact ⟨_, _, forall_genuine_samples [.semicolon], fun next _ => .result hk he rfl⟩
    have he' := (expressionBefore_sound he).phrase hrest
    refine Prompt.token (fun s hs => ?_) fun s rest'' _ hs => prompt_pure _
    exact ⟨[], _, List.forall_mem_nil _, fun next _ => .result hk he' hs⟩
  · refine Prompt.congr (fun stop us hus => (plain_simple us).trans
      ((if_neg ?_).trans ((if_neg ?_).trans (if_neg ?_)))) ?_
    · rwa [kind?_congr hus]
    · rwa [kind?_congr hus]
    · rwa [kind?_congr hus]
    refine (prompt_read .whole ts).seq (fun us e he => ?_) fun stop e taken rest hts he => ?_
    · exact ⟨_, _, forall_genuine_samples [.semicolon], fun next _ => .eval he rfl⟩
    have he' := (read_sound he).phrase hts
    refine Prompt.token (fun s hs => ?_) fun s rest' _ hs => prompt_pure _
    exact ⟨[], _, List.forall_mem_nil _, fun next _ => .eval he' hs⟩

/-- Statements are prompt. -/
def PromptStatement (ts : List Token) : Prop := Prompt (fun stop us => plain (statement stop us)) Statement ts

/-- Blocks are prompt. -/
def PromptBlock (ts : List Token) : Prop := Prompt (fun stop us => plain (block stop us)) Braced ts

/-- Lists of statements are prompt. -/
def PromptStatements (closing : Option TokenKind) (ts : List Token) : Prop :=
  Prompt (fun stop us => plain (statements stop closing us)) Statements ts

/-- A semicolon is a statement. -/
theorem sample_statement (next : Option TokenKind) : Stmt.Derives next [TokenKind.semicolon.sample] .empty := .empty rfl

/-- An `if` is prompt if statements are on shorter lists. -/
theorem promptStatement_if (hkind : kind? ts = some (.keyword .ifWord))
    (ih : ∀ us, us.length < ts.length → PromptStatement us) : PromptStatement ts := by
  refine Prompt.congr (fun stop us hus => plain_statement_if ((kind?_congr hus).trans hkind)) ?_
  refine Prompt.known hkind ?_
  intro t rest₁ hts hk
  refine (prompt_condition rest₁).seq (fun us e he => ?_) fun stop test cs rest₂ hrest₂ htest => ?_
  · exact ⟨_, _, forall_genuine_samples [.semicolon], fun next hnext => .ifThen hk he (sample_statement next) hnext⟩
  have htest' := (condition_sound htest).phrase hrest₂
  have hlt₂ : rest₂.length < ts.length := by
    have := plain_shorter htest
    rw [hts, List.length_cons]
    omega
  refine (ih rest₂ hlt₂).seq (starts_of_forall fun us s hs => ?_) fun stop body bs rest₃ hrest₃ hbody => ?_
  · exact ⟨_, fun next hnext => .ifThen hk htest' (hs next hnext) hnext⟩
  have hbody' := (statement_sound hbody).phrase hrest₃
  by_cases helse : kind? rest₃ = some (.keyword .elseWord)
  · rw [helse] at hbody'
    refine Prompt.congr (fun stop us hus => if_pos ((kind?_congr hus).trans helse)) ?_
    refine Prompt.known helse ?_
    intro e rest₄ hrest₄ he
    have hlt₄ : rest₄.length < ts.length := by
      have := plain_shorter hbody
      rw [hrest₄, List.length_cons] at this
      omega
    refine (ih rest₄ hlt₄).seq (starts_of_forall fun us s hs => ?_) fun stop other _ _ _ _ => prompt_pure _
    exact ⟨_, fun next hnext => .ifElse hk htest' hbody' he (hs next hnext)⟩
  · exact Prompt.congr (fun stop us hus => if_neg (by rwa [kind?_congr hus])) (prompt_pure _)

theorem promptStatement_while (hkind : kind? ts = some (.keyword .whileWord))
    (ih : ∀ us, us.length < ts.length → PromptStatement us) : PromptStatement ts := by
  refine Prompt.congr (fun stop us hus => plain_statement_while ((kind?_congr hus).trans hkind)) ?_
  refine Prompt.known hkind ?_
  intro t rest₁ hts hk
  refine (prompt_condition rest₁).seq (fun us e he => ?_) fun stop test cs rest₂ hrest₂ htest => ?_
  · exact ⟨_, _, forall_genuine_samples [.semicolon], fun next _ => .whileLoop hk he (sample_statement next)⟩
  have htest' := (condition_sound htest).phrase hrest₂
  have hlt₂ : rest₂.length < ts.length := by
    have := plain_shorter htest
    rw [hts, List.length_cons]
    omega
  refine (ih rest₂ hlt₂).seq (starts_of_forall fun us s hs => ?_) fun stop body _ _ _ _ => prompt_pure _
  exact ⟨_, fun next hnext => .whileLoop hk htest' (hs next hnext)⟩

/-- A loop that tests last is prompt if statements are on shorter lists: its `while` may follow any body. -/
theorem promptStatement_do (hkind : kind? ts = some (.keyword .doWord))
    (ih : ∀ us, us.length < ts.length → PromptStatement us) : PromptStatement ts := by
  have hcondition : Condition [TokenKind.leftParen.sample, TokenKind.name.sample, TokenKind.rightParen.sample] (.name "x") :=
    .parens rfl (sample_derives .whole) rfl
  refine Prompt.congr (fun stop us hus => plain_statement_do ((kind?_congr hus).trans hkind)) ?_
  refine Prompt.known hkind ?_
  intro t rest₁ hts hk
  refine (ih rest₁ (by simp [hts])).seq (fun us s hs => ?_) fun stop body bs rest₂ hrest₂ hbody => ?_
  · exact ⟨_, _, forall_genuine_samples [.keyword .whileWord, .leftParen, .name, .rightParen, .semicolon],
      fun next _ => .doWhile hk (hs _ (by decide)) rfl hcondition rfl⟩
  have hbody' : body.Derives (some (.keyword .whileWord)) bs := ((statement_sound hbody).phrase hrest₂).inFrontOf (by decide)
  refine Prompt.token (fun w hw => ?_) fun w rest₃ _ hw => ?_
  · exact ⟨_, _, forall_genuine_samples [.leftParen, .name, .rightParen, .semicolon],
      fun next _ => .doWhile hk hbody' hw hcondition rfl⟩
  refine (prompt_condition rest₃).seq (fun us e he => ?_) fun stop test cs rest₄ hrest₄ htest => ?_
  · exact ⟨_, _, forall_genuine_samples [.semicolon], fun next _ => .doWhile hk hbody' hw he rfl⟩
  have htest' := (condition_sound htest).phrase hrest₄
  refine Prompt.token (fun s hs => ?_) fun s rest₅ _ hs => prompt_pure _
  exact ⟨[], _, List.forall_mem_nil _, fun next _ => .doWhile hk hbody' hw htest' hs⟩

theorem promptStatement_for (hkind : kind? ts = some (.keyword .forWord))
    (ih : ∀ us, us.length < ts.length → PromptStatement us) : PromptStatement ts := by
  refine Prompt.congr (fun stop us hus => plain_statement_for ((kind?_congr hus).trans hkind)) ?_
  refine (prompt_loopHead ts).seq (fun us head hhead => ?_) fun stop head hs rest hts hhead => ?_
  · exact ⟨_, _, forall_genuine_samples [.semicolon], fun next _ => .forLoop hhead (sample_statement next)⟩
  have hhead' := (loopHead_sound hhead).phrase hts
  refine (ih rest (plain_shorter hhead)).seq (starts_of_forall fun us s hs => ?_) fun stop body _ _ _ _ => prompt_pure _
  exact ⟨_, fun next hnext => .forLoop hhead' (hs next hnext)⟩

theorem promptStatement_def (hkind : kind? ts = some (.keyword .defWord))
    (ih : ∀ us, us.length < ts.length → PromptBlock us) : PromptStatement ts := by
  refine Prompt.congr (fun stop us hus => plain_statement_def ((kind?_congr hus).trans hkind)) ?_
  refine (prompt_functionHead ts).seq (fun us head hhead => ?_) fun stop head hs rest hts hhead => ?_
  · exact ⟨_, _, forall_genuine_samples [.leftBrace, .rightBrace], fun next _ => .function hhead rfl .nil rfl⟩
  have hhead' := (functionHead_sound hhead).phrase hts
  refine (ih rest (plain_shorter hhead)).seq (starts_of_forall fun us body hbody => ?_)
    fun stop body _ _ _ _ => prompt_pure _
  obtain ⟨o, vs, c, rfl, ho, hvs, hc⟩ := hbody
  exact ⟨_, fun next _ => .function hhead' ho hvs hc⟩

/-- Statements are prompt, by their first token. -/
theorem promptStatement (ihBlock : PromptBlock ts)
    (ih : ∀ us, us.length < ts.length → PromptStatement us ∧ PromptBlock us) : PromptStatement ts := by
  by_cases hbrace : kind? ts = some .leftBrace
  · refine Prompt.congr (fun stop us hus => plain_statement_block ((kind?_congr hus).trans hbrace)) ?_
    refine Prompt.seq ihBlock (starts_of_forall fun us body hbody => ?_) fun stop body _ _ _ _ => prompt_pure _
    obtain ⟨o, vs, c, rfl, ho, hvs, hc⟩ := hbody
    exact ⟨_, fun next _ => .block ho hvs hc⟩
  by_cases hif : kind? ts = some (.keyword .ifWord)
  · exact promptStatement_if hif fun us h => (ih us h).1
  by_cases hwhile : kind? ts = some (.keyword .whileWord)
  · exact promptStatement_while hwhile fun us h => (ih us h).1
  by_cases hdo : kind? ts = some (.keyword .doWord)
  · exact promptStatement_do hdo fun us h => (ih us h).1
  by_cases hfor : kind? ts = some (.keyword .forWord)
  · exact promptStatement_for hfor fun us h => (ih us h).1
  by_cases hdef : kind? ts = some (.keyword .defWord)
  · exact promptStatement_def hdef fun us h => (ih us h).2
  · refine Prompt.congr (fun stop us hus => plain_statement_simple ?_) (prompt_simple ts)
    rw [kind?_congr hus]
    simp [compoundOpeners, hbrace, hif, hwhile, hdo, hfor, hdef]

/-- Blocks are prompt if the statements in them are. -/
theorem promptBlock (ih : ∀ us, us.length < ts.length → PromptStatements (some .rightBrace) us) : PromptBlock ts := by
  refine Prompt.congr (fun stop us _ => plain_block us) ?_
  refine Prompt.token (fun o ho => ?_) fun o rest hts ho => ?_
  · exact ⟨_, _, forall_genuine_samples [.rightBrace], o, [], _, rfl, ho, .nil, rfl⟩
  by_cases hkind : kind? rest = some .rightBrace
  · refine Prompt.congr (fun stop us hus => if_pos ((kind?_congr hus).trans hkind)) ?_
    exact Prompt.known hkind fun c rest' _ _ => prompt_pure []
  · refine Prompt.congr (fun stop us hus => if_neg (by rwa [kind?_congr hus])) ?_
    refine (ih rest (by simp [hts])).seq (fun us ss hss => ?_) fun stop ss vs rest' hrest hss => ?_
    · exact ⟨_, _, forall_genuine_samples [.rightBrace], o, us, _, rfl, ho, hss.2 _ (by decide), rfl⟩
    obtain ⟨htook, -, -⟩ := statements_sound hss
    refine Prompt.token (fun c hc => ?_) fun c rest'' _ hc => prompt_pure ss
    exact ⟨[], ss, List.forall_mem_nil _, o, vs, c, rfl, ho, (htook.phrase hrest).inFrontOf (by decide), hc⟩

/-- A statement in front of others. -/
theorem Statements.cons {ts us : List Token} {next : Option TokenKind} {s : Stmt} {ss : List Stmt} (hs : s.Derives next ts)
    (hss : Statements us ss) : Statements (ts ++ us) (s :: ss) := by
  refine ⟨List.cons_ne_nil _ _, fun next' hnext => .cons (hs.inFrontOf ?_) (hss.2 next' hnext)⟩
  obtain ⟨t, vs, rfl, -⟩ := (hss.2 next' hnext).opens hss.1
  exact (hss.2 next' hnext).kind?_ne_else

/-- Statements one after the other are prompt: one more may always follow. -/
theorem promptStatements {closing : Option TokenKind} (ihFirst : PromptStatement ts)
    (ih : ∀ us, us.length < ts.length → PromptStatements closing us) : PromptStatements closing ts := by
  refine Prompt.congr (fun stop us _ => plain_statements closing us) ?_
  refine Prompt.seq ihFirst (starts_of_forall fun us s hs => ?_) fun stop s taken rest hts hs => ?_
  · refine ⟨[s], List.cons_ne_nil _ _, fun next hnext => ?_⟩
    have hone : Stmt.DerivesAll next (us ++ []) [s] := .cons (hs next hnext) .nil
    rwa [List.append_nil] at hone
  have hs' := (statement_sound hs).phrase hts
  by_cases hend : kind? rest = none ∨ kind? rest = closing
  · exact Prompt.congr (fun stop us hus => if_pos (by rwa [kind?_congr hus])) (prompt_pure [s])
  · refine Prompt.congr (fun stop us hus => if_neg (by rwa [kind?_congr hus])) ?_
    refine (ih rest (plain_shorter hs)).seq (starts_of_forall fun us ss hss => ?_) fun stop ss _ _ _ _ => prompt_pure _
    exact ⟨s :: ss, .cons hs' hss⟩

/-- Every list of statements is prompt. -/
theorem prompt_statements (closing : Option TokenKind) (ts : List Token) : PromptStatements closing ts :=
  (statement_induction (fun _ => promptStatement) (fun _ => promptBlock) (fun _ _ => promptStatements)).2.2 closing ts

end Parse

/-! ## Programs -/

/-- Tokens that are the start of a program: some tokens behind them make them one. -/
def Viable (ts : List Token) : Prop :=
  ∃ more, (∀ t ∈ more, t.Genuine) ∧ ∃ p : Program, Program.ofStream ⟨ts ++ more, none⟩ = .ok p

/-- Where a program can go on with a kind, it can go on with any token of the kind. -/
theorem Viable.of_admits {pre : List Token} {kind : TokenKind} (h : Parse.Admits Parse.Statements pre kind) {t : Token}
    (ht : t.Genuine) (hk : t.kind = kind) : Viable (pre ++ [t]) := by
  obtain ⟨more, ss, hmore, hne, hss⟩ := h t ht hk
  refine ⟨more, hmore, ⟨ss⟩, (Program.ofStream_eq_ok_iff _ _).mpr ⟨rfl, hne, ?_⟩⟩
  rw [List.append_assoc, List.singleton_append]
  exact hss none (by decide)

/-- What starts a program starts with what starts a program. -/
theorem Viable.of_append {ts us : List Token} (h : Viable (ts ++ us)) (hus : ∀ t ∈ us, t.Genuine) : Viable ts := by
  obtain ⟨more, hmore, p, hp⟩ := h
  refine ⟨us ++ more, fun t ht => (List.mem_append.mp ht).elim (hus t) (hmore t), p, ?_⟩
  rwa [← List.append_assoc]

namespace Program

/-- A fault other than one of the scan comes from the statements. -/
theorem statements_eq_error {stream : Stream} {e : ParseFault} (h : ofStream stream = .error e) (he : ∀ f, e ≠ .lex f) :
    Parse.Sure stream.fault stream.tokens ∧ Parse.plain (Parse.statements stream.fault none stream.tokens) = .error e := by
  obtain ⟨ts, fault⟩ := stream
  have hsure : Parse.Sure fault ts := by
    rintro rfl
    cases fault with
    | none => rfl
    | some f =>
      cases h
      exact absurd rfl (he f)
  rw [ofStream_eq ts fault hsure] at h
  refine ⟨hsure, ?_⟩
  dsimp only
  split at h
  · cases h
  · next hread =>
    cases h
    exact hread

/-- A token that is not expected is the fault of every stream with the same tokens up to it. -/
theorem ofStream_unexpected {stream : Stream} (hgenuine : ∀ t ∈ stream.tokens, t.Genuine) {found : String}
    {expected : TokenKind} {position : Position} (h : ofStream stream = .error (.unexpected found expected position)) :
    ∃ pre t more, stream.tokens = pre ++ t :: more ∧ t.text = found ∧ t.position = position ∧ t.kind ≠ expected ∧
      Parse.Admits Parse.Statements pre expected ∧
      ∀ stream' : Stream, pre ++ [t] <+: stream'.tokens →
        ofStream stream' = .error (.unexpected found expected position) := by
  obtain ⟨-, hread⟩ := statements_eq_error h nofun
  have hprompt := Parse.prompt_statements none stream.tokens hgenuine stream.fault
  dsimp only at hprompt
  rw [hread] at hprompt
  obtain ⟨pre, t, more, hts, htext, hposition, hk, hadmits, hlocal⟩ := hprompt
  refine ⟨pre, t, more, hts, htext, hposition, hk, hadmits, ?_⟩
  rintro ⟨us, fault⟩ ⟨more', hmore'⟩
  have hus : pre ++ t :: more' = us := by simpa using hmore'
  subst hus
  rw [ofStream_eq _ _ (by simp),
    show Parse.plain (Parse.statements fault none (pre ++ t :: more')) = _ from hlocal fault more']

/-- The end is only reported where the scan reached it. -/
theorem ofStream_endOfInput {stream : Stream} (hgenuine : ∀ t ∈ stream.tokens, t.Genuine) {expected : TokenKind}
    (h : ofStream stream = .error (.endOfInput expected)) :
    stream.fault = none ∧ Parse.Admits Parse.Statements stream.tokens expected := by
  obtain ⟨hsure, hread⟩ := statements_eq_error h nofun
  have hprompt := Parse.prompt_statements none stream.tokens hgenuine stream.fault
  dsimp only at hprompt
  rw [hread] at hprompt
  exact ⟨hprompt.1 hsure, hprompt.2⟩

/-- A token is reported as unexpected when the tokens in front of it are the start of a program, with any token of the
expected kind behind them too, but not with the reported token; and then the same is reported for every source with the same
tokens up to it. The end is reported as unexpected when all tokens are the start of a program and not a program, and they
stay a start with any token of the expected kind behind them. -/
theorem parse_fault_earliest (source : String) :
    (∀ found expected position, parse source = .error (.unexpected found expected position) →
      ∃ pre t more, (Stream.ofSource source).tokens = pre ++ t :: more ∧
        t.text = found ∧ t.position = position ∧ t.kind ≠ expected ∧
        (∃ u : Token, u.Genuine ∧ u.kind = expected) ∧
        (∀ u : Token, u.Genuine → u.kind = expected → Viable (pre ++ [u])) ∧
        ¬Viable (pre ++ [t]) ∧
        ∀ source' : String, pre ++ [t] <+: (Stream.ofSource source').tokens →
          parse source' = .error (.unexpected found expected position)) ∧
    ∀ expected, parse source = .error (.endOfInput expected) →
      ∃ ts, tokenize source = .ok ts ∧ Viable ts ∧ (∀ p : Program, ofStream ⟨ts, none⟩ ≠ .ok p) ∧
        (∃ u : Token, u.Genuine ∧ u.kind = expected) ∧
        ∀ u : Token, u.Genuine → u.kind = expected → Viable (ts ++ [u]) := by
  have hgenuine : ∀ t ∈ (Stream.ofSource source).tokens, t.Genuine := Stream.genuine_of_mem
  refine ⟨fun found expected position h => ?_, fun expected h => ?_⟩
  · obtain ⟨pre, t, more, hts, htext, hposition, hk, hadmits, hsame⟩ := ofStream_unexpected hgenuine h
    refine ⟨pre, t, more, hts, htext, hposition, hk, ⟨_, expected.sample_genuine, expected.sample_kind⟩,
      fun u hu hukind => .of_admits hadmits hu hukind, ?_, fun source' hsource' => hsame _ hsource'⟩
    rintro ⟨more', -, p, hp⟩
    rw [hsame ⟨pre ++ [t] ++ more', none⟩ (List.prefix_append _ _)] at hp
    cases hp
  · obtain ⟨hfault, hadmits⟩ := ofStream_endOfInput hgenuine h
    have hstream : Stream.ofSource source = ⟨(Stream.ofSource source).tokens, none⟩ := by rw [← hfault]
    have hviable : ∀ u : Token, u.Genuine → u.kind = expected → Viable ((Stream.ofSource source).tokens ++ [u]) :=
      fun u hu hukind => .of_admits hadmits hu hukind
    refine ⟨_, tokenize_of_ofSource_eq hstream, ?_, fun p hp => ?_, ⟨_, expected.sample_genuine, expected.sample_kind⟩,
      hviable⟩
    · refine (hviable _ expected.sample_genuine expected.sample_kind).of_append ?_
      rw [List.forall_mem_singleton]
      exact expected.sample_genuine
    · rw [← hstream] at hp
      rw [parse, hp] at h
      cases h

/-- A missing semicolon behind a name, at a token and at the end. -/
theorem parse_fault_earliest_missing_semicolon :
    (∃ pre t more, (Stream.ofSource "a b;").tokens = pre ++ t :: more ∧ t.text = "b" ∧ t.position = ⟨1, 2⟩ ∧
      t.kind ≠ .semicolon ∧ ¬Viable (pre ++ [t])) ∧
    ∃ ts, tokenize "a" = .ok ts ∧ Viable ts ∧ Viable (ts ++ [TokenKind.semicolon.sample]) := by
  have hunexpected : parse "a b;" = .error (.unexpected "b" .semicolon ⟨1, 2⟩) := by with_unfolding_all rfl
  have hend : parse "a" = .error (.endOfInput .semicolon) := by with_unfolding_all rfl
  obtain ⟨pre, t, more, hts, htext, hposition, hk, -, -, hviable, -⟩ := (parse_fault_earliest "a b;").1 _ _ _ hunexpected
  obtain ⟨ts, hts', hviable', -, -, hgoes⟩ := (parse_fault_earliest "a").2 _ hend
  exact ⟨⟨pre, t, more, hts, htext, hposition, hk, hviable⟩, ts, hts', hviable', hgoes _ (TokenKind.sample_genuine _) rfl⟩

end Program

end Scriptlet
