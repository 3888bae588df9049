import Scriptlet.Proofs.Parse.Calls
import Scriptlet.Proofs.Parse.Earliest

/-!
# Which kinds a fault can name

Most tokens are taken only after a look at them, so that taking them cannot fail. Whether a plan is guarded in this way is
decided from what is known of the next token: by the caller at first, then by each look, and by the production that was called
last. The plans of all productions are guarded, and every call knows what the production needs. So the kinds that a fault can
name are the few that are taken without a look, and at the end of the tokens also a closing brace; and a text that has to mean
something means something.
-/

namespace Scriptlet

/-- The kinds that are taken without a look at the next token. -/
def TokenKind.demanded : List TokenKind := [.semicolon, .leftBrace, .leftParen, .rightParen, .keyword .whileWord, .name]

/-- What a fault can name as expected: a demanded kind, and at the end of the tokens also a closing brace. -/
def ParseFault.Foreseen : ParseFault → Prop
  | unexpected _ expected _ => expected ∈ TokenKind.demanded
  | endOfInput expected => expected = .rightBrace ∨ expected ∈ TokenKind.demanded
  | _ => True

/-- The text of a token means something wherever a production takes it for its meaning. -/
structure Token.Meant (t : Token) : Prop where
  assignment : t.kind.isAssignment = true → ∃ op, AssignOp.ofText? t.text = some op
  level : ∀ level : Level, t.kind = level.kind → ∃ node, level.node? t.text = some node
  sign : t.kind = .additive ∨ t.kind = .logicalNot → ∃ op, UnaryOp.ofText? t.text = some op
  number : t.kind = .number → ∃ x, Double.ofDigits? t.text = some x

theorem Token.Genuine.meant {t : Token} (h : t.Genuine) : t.Meant :=
  ⟨h.exists_assignOp rfl, fun _ => h.exists_node, h.exists_unaryOp rfl, h.exists_number⟩

namespace Parse

/-! ## What is known of the next token -/

/-- A token of a kind can be taken for sure, or its absence can be reported: the next token is of that kind, the kind is
demanded, or it is a closing brace and there is no next token. -/
def Meets (next : Option TokenKind) (kind : TokenKind) : Prop :=
  next = some kind ∨ kind ∈ TokenKind.demanded ∨ next = none ∧ kind = .rightBrace

namespace Production

/-- What the caller of a production has to know of the next token. -/
def Ready : Production → Option TokenKind → Prop
  | declaration, next => next = some (.keyword .letWord)
  | loopHead, next => next = some (.keyword .forWord)
  | functionHead, next => next = some (.keyword .defWord)
  | _, _ => True

/-- What is known of the next token behind a production. -/
def Leaves : Production → Option TokenKind → Prop
  | statements closing, next => next = none ∨ next = closing
  | _, _ => True

end Production

/-- What is known of the next token is enough for a plan: each token that it takes can be taken for sure or reported, each
production that it calls is ready, and it fails by itself only about what is assigned to. -/
def Plan.Guarded {α : Type} (known : Option TokenKind → Prop) : Plan α → Prop
  | .done _ => True
  | .fail e => ∃ p, e = .badTarget p
  | .look k => ∀ next, known next → (k next).Guarded (· = next)
  | .mark k => ∀ p, (k p).Guarded known
  | .take kind k => (∀ next, known next → Meets next kind) ∧
      ∀ t : Token, t.Genuine → t.kind = kind → (k t).Guarded fun _ => True
  | .call p k => (∀ next, known next → p.Ready next) ∧ ∀ a, (k a).Guarded p.Leaves

namespace Plan

variable {α β : Type} {known : Option TokenKind → Prop} {kind : TokenKind}

theorem guarded_ite {P : Prop} [Decidable P] {a b : Plan α} (ha : P → a.Guarded known) (hb : ¬P → b.Guarded known) :
    (if P then a else b).Guarded known := by
  split
  · next h => exact ha h
  · next h => exact hb h

/-- A token that was looked at is taken for sure. -/
theorem meets_of_eq {next : Option TokenKind} (h : next = some kind) : ∀ next', next' = next → Meets next' kind := by
  rintro _ rfl
  exact .inl h

/-- A token of a demanded kind needs no look. -/
theorem meets_of_demanded (h : kind ∈ TokenKind.demanded) : ∀ next, known next → Meets next kind :=
  fun _ _ => .inr (.inl h)

/-- A token whose text means something is taken like any other one. -/
theorem guarded_takeAs {read : String → Option β} {k : β → Plan α} (hmeets : ∀ next, known next → Meets next kind)
    (hread : ∀ t : Token, t.Genuine → t.kind = kind → ∃ b, read t.text = some b)
    (hk : ∀ b, (k b).Guarded fun _ => True) : (takeAs kind read k).Guarded known := by
  refine ⟨hmeets, fun t ht htkind => ?_⟩
  obtain ⟨b, hb⟩ := hread t ht htkind
  dsimp only
  rw [hb]
  exact hk b

/-- A literal that was looked at is taken for sure. -/
theorem guarded_literal {next : Option TokenKind} (h : next.any TokenKind.isLiteral = true) :
    (literal next).Guarded (· = next) := by
  unfold literal
  split
  · exact guarded_takeAs (meets_of_eq rfl) (fun _ _ _ => ⟨_, rfl⟩) fun _ => trivial
  · exact guarded_takeAs (meets_of_eq rfl) (fun _ _ _ => ⟨_, rfl⟩) fun _ => trivial
  · exact guarded_takeAs (meets_of_eq rfl) (fun _ _ _ => ⟨_, rfl⟩) fun _ => trivial
  · exact guarded_takeAs (meets_of_eq rfl) (fun _ _ _ => ⟨_, rfl⟩) fun _ => trivial
  · next htext htrue hfalse hnull =>
    obtain ⟨kind, rfl, hkind⟩ : ∃ kind, next = some kind ∧ kind.isLiteral = true := by
      simpa [Option.any_eq_true] using h
    have hnumber : kind = .number := by
      cases kind with
      | keyword word => cases word <;> simp_all [TokenKind.isLiteral]
      | _ => simp_all [TokenKind.isLiteral]
    refine guarded_takeAs (meets_of_eq (congrArg some hnumber)) (fun t ht hk => ?_) fun _ => trivial
    obtain ⟨x, hx⟩ := ht.exists_number hk
    exact ⟨.number x, by rw [hx]; rfl⟩

end Plan

/-! ## All productions are guarded -/

namespace Production

open Plan

theorem guarded_read (rank : Rank) : (read rank).plan.Guarded (read rank).Ready := by
  cases rank with
  | whole =>
    refine fun start => ⟨fun _ _ => trivial, fun left next _ => ?_⟩
    dsimp only
    split
    · trivial
    · next kind hassign =>
      obtain ⟨hnext, hkind⟩ := Option.filter_eq_some_iff.mp hassign
      refine guarded_takeAs (meets_of_eq hnext) (fun t ht hk => ht.exists_assignOp hk hkind) fun op => ?_
      split
      · next e htarget =>
        cases left <;> cases htarget
        all_goals exact ⟨_, rfl⟩
      · exact ⟨fun _ _ => trivial, fun _ => trivial⟩
  | level level => exact ⟨fun _ _ => trivial, fun _ => ⟨fun _ _ => trivial, fun _ => trivial⟩⟩
  | signed =>
    intro next _
    dsimp only
    split
    · next kind hsign =>
      obtain ⟨hnext, hkind⟩ := Option.filter_eq_some_iff.mp hsign
      refine guarded_takeAs (meets_of_eq hnext) (fun t ht hk => ht.exists_unaryOp hk (of_decide_eq_true hkind)) fun op => ?_
      exact ⟨fun _ _ => trivial, fun _ => trivial⟩
    · exact ⟨fun _ _ => trivial, fun _ => trivial⟩
  | atom =>
    refine fun next _ => guarded_ite (fun hparen => ?_) fun _ => guarded_ite guarded_literal fun _ => ?_
    · refine ⟨meets_of_eq hparen, fun _ _ _ => ⟨fun _ _ => trivial, fun inner => ?_⟩⟩
      exact ⟨meets_of_demanded (by decide), fun _ _ _ => trivial⟩
    · exact guarded_takeAs (meets_of_demanded (by decide)) (fun _ _ _ => ⟨_, rfl⟩) fun _ => trivial

theorem guarded_simple : simple.plan.Guarded simple.Ready := by
  refine fun next _ => guarded_ite (fun hsemicolon => ?_) fun _ => guarded_ite (fun hlet => ?_) fun _ =>
    guarded_ite (fun hreturn => ?_) fun _ => ?_
  · exact ⟨meets_of_eq hsemicolon, fun _ _ _ => trivial⟩
  · refine ⟨fun next' hnext => hnext.trans hlet, fun list => ?_⟩
    exact ⟨meets_of_demanded (by decide), fun _ _ _ => trivial⟩
  · refine ⟨meets_of_eq hreturn, fun _ _ _ => ⟨fun _ _ => trivial, fun value => ?_⟩⟩
    exact ⟨meets_of_demanded (by decide), fun _ _ _ => trivial⟩
  · exact ⟨fun _ _ => trivial, fun e => ⟨meets_of_demanded (by decide), fun _ _ _ => trivial⟩⟩

theorem guarded_statement : statement.plan.Guarded statement.Ready := by
  refine fun next _ => guarded_ite (fun _ => ?_) fun _ => guarded_ite (fun hif => ?_) fun _ =>
    guarded_ite (fun hwhile => ?_) fun _ => guarded_ite (fun hdo => ?_) fun _ => guarded_ite (fun hfor => ?_) fun _ =>
    guarded_ite (fun hdef => ?_) fun _ => ?_
  · exact ⟨fun _ _ => trivial, fun _ => trivial⟩
  · refine ⟨meets_of_eq hif, fun _ _ _ => ⟨fun _ _ => trivial, fun test => ⟨fun _ _ => trivial, fun body next _ => ?_⟩⟩⟩
    refine guarded_ite (fun helse => ?_) fun _ => trivial
    exact ⟨meets_of_eq helse, fun _ _ _ => ⟨fun _ _ => trivial, fun _ => trivial⟩⟩
  · refine ⟨meets_of_eq hwhile, fun _ _ _ => ⟨fun _ _ => trivial, fun test => ?_⟩⟩
    exact ⟨fun _ _ => trivial, fun _ => trivial⟩
  · refine ⟨meets_of_eq hdo, fun _ _ _ => ⟨fun _ _ => trivial, fun body => ?_⟩⟩
    -- The word behind the body is taken without a look.
    refine ⟨meets_of_demanded (by decide), fun _ _ _ => ⟨fun _ _ => trivial, fun test => ?_⟩⟩
    exact ⟨meets_of_demanded (by decide), fun _ _ _ => trivial⟩
  · exact ⟨fun next' hnext => hnext.trans hfor, fun head => ⟨fun _ _ => trivial, fun _ => trivial⟩⟩
  · exact ⟨fun next' hnext => hnext.trans hdef, fun head => ⟨fun _ _ => trivial, fun _ => trivial⟩⟩
  · exact ⟨fun _ _ => trivial, fun _ => trivial⟩

/-- The plan of every production is guarded by what its caller knows. -/
theorem guarded (p : Production) : p.plan.Guarded p.Ready := by
  cases p with
  | read rank => exact guarded_read rank
  | chain level left =>
    refine fun next _ => guarded_ite (fun hnext => ?_) fun _ => trivial
    refine guarded_takeAs (meets_of_eq hnext) (fun t ht hk => ht.exists_node hk) fun node => ⟨fun _ _ => trivial, fun _ => ?_⟩
    exact ⟨fun _ _ => trivial, fun _ => trivial⟩
  | expressionBefore closing =>
    exact fun next _ => guarded_ite (fun _ => trivial) fun _ => ⟨fun _ _ => trivial, fun _ => trivial⟩
  | condition =>
    refine ⟨meets_of_demanded (by decide), fun _ _ _ => ⟨fun _ _ => trivial, fun test => ?_⟩⟩
    exact ⟨meets_of_demanded (by decide), fun _ _ _ => trivial⟩
  | declarator =>
    rw [plan]
    refine guarded_takeAs (meets_of_demanded (by decide)) (fun _ _ _ => ⟨_, rfl⟩) fun id => ?_
    refine fun next _ => guarded_ite (fun hnext => ?_) fun _ => trivial
    exact ⟨meets_of_eq hnext, fun _ _ _ => ⟨fun _ _ => trivial, fun _ => trivial⟩⟩
  | declarators =>
    refine ⟨fun _ _ => trivial, fun first next _ => guarded_ite (fun hnext => ?_) fun _ => trivial⟩
    exact ⟨meets_of_eq hnext, fun _ _ _ => ⟨fun _ _ => trivial, fun _ => trivial⟩⟩
  | declaration => exact ⟨meets_of_eq rfl, fun _ _ _ => ⟨fun _ _ => trivial, fun _ => trivial⟩⟩
  | names =>
    rw [plan]
    refine guarded_takeAs (meets_of_demanded (by decide)) (fun _ _ _ => ⟨_, rfl⟩) fun first => ?_
    refine fun next _ => guarded_ite (fun hnext => ?_) fun _ => trivial
    exact ⟨meets_of_eq hnext, fun _ _ _ => ⟨fun _ _ => trivial, fun _ => trivial⟩⟩
  | parameters =>
    exact fun next _ => guarded_ite (fun _ => trivial) fun _ => ⟨fun _ _ => trivial, fun _ => trivial⟩
  | loopInit =>
    refine fun next _ => guarded_ite (fun _ => trivial) fun _ => guarded_ite (fun hlet => ?_) fun _ => ?_
    · exact ⟨fun next' hnext => hnext.trans hlet, fun _ => trivial⟩
    · exact ⟨fun _ _ => trivial, fun _ => trivial⟩
  | loopHead =>
    refine ⟨meets_of_eq rfl, fun _ _ _ => ⟨meets_of_demanded (by decide), fun _ _ _ => ⟨fun _ _ => trivial, fun init => ?_⟩⟩⟩
    refine ⟨meets_of_demanded (by decide), fun _ _ _ => ⟨fun _ _ => trivial, fun test => ?_⟩⟩
    refine ⟨meets_of_demanded (by decide), fun _ _ _ => ⟨fun _ _ => trivial, fun update => ?_⟩⟩
    exact ⟨meets_of_demanded (by decide), fun _ _ _ => trivial⟩
  | functionHead =>
    refine ⟨meets_of_eq rfl, fun _ _ _ => guarded_takeAs (meets_of_demanded (by decide)) (fun _ _ _ => ⟨_, rfl⟩) fun id => ?_⟩
    refine ⟨meets_of_demanded (by decide), fun _ _ _ => ⟨fun _ _ => trivial, fun params => ?_⟩⟩
    exact ⟨meets_of_demanded (by decide), fun _ _ _ => trivial⟩
  | simple => exact guarded_simple
  | statement => exact guarded_statement
  | block =>
    refine ⟨meets_of_demanded (by decide), fun _ _ _ next _ => guarded_ite (fun hnext => ?_) fun _ => ?_⟩
    · exact ⟨meets_of_eq hnext, fun _ _ _ => trivial⟩
    · -- The statements of a block end at its closing brace or at the end of the tokens.
      refine ⟨fun _ _ => trivial, fun body => ⟨fun next hnext => ?_, fun _ _ _ => trivial⟩⟩
      rcases hnext with hend | hbrace
      · exact .inr (.inr ⟨hend, rfl⟩)
      · exact .inl hbrace
  | statements closing =>
    refine ⟨fun _ _ => trivial, fun first next _ => guarded_ite (fun _ => trivial) fun _ => ?_⟩
    exact ⟨fun _ _ => trivial, fun _ => trivial⟩

end Production

/-! ## What goes wrong -/

variable {α : Type} {stop : Option LexFault} {ts rest : List Token}

/-- Where a token can be taken for sure or reported, a fault names what can be named. -/
theorem Meets.foreseen {kind : TokenKind} {e : ParseFault} (h : Meets (kind? ts) kind)
    (he : plain (expect stop kind ts) = .error e) : e.Foreseen := by
  cases ts with
  | nil =>
    cases he
    rcases h with hsome | hdemanded | ⟨-, hbrace⟩
    · cases hsome
    · exact .inr hdemanded
    · exact .inl hbrace
  | cons t rest =>
    rw [plain_expect_cons] at he
    split at he
    · cases rest <;> cases stop <;> cases he
      trivial
    · next hk =>
      cases he
      rcases h with hsome | hdemanded | ⟨hnone, -⟩
      · exact absurd (Option.some.inj hsome) hk
      · exact hdemanded
      · cases hnone

theorem Production.leaves {p : Production} {a : p.Value} (h : p.reading stop ts = .ok (a, rest)) : p.Leaves (kind? rest) := by
  cases p with
  | statements closing => exact (statements_sound h).2.2
  | _ => trivial

/-- A guarded plan fails with nothing unforeseen if that is so of the calls that it makes. -/
theorem Plan.Guarded.foreseen {plan : Plan α} {known : Option TokenKind → Prop} {e : ParseFault} (h : plan.Guarded known)
    (hts : ∀ t ∈ ts, t.Genuine) (hknown : known (kind? ts))
    (hcalls : ∀ q us, plan.Calls stop ts q us → q.Ready (kind? us) → ∀ e, q.reading stop us = .error e → e.Foreseen)
    (he : plan.run stop ts = .error e) : e.Foreseen := by
  induction plan generalizing ts known with
  | done a => cases he
  | fail f =>
    obtain ⟨p, rfl⟩ := h
    cases he
    trivial
  | look k ih => exact ih _ (h _ hknown) hts rfl (fun q us hq => hcalls q us (.look hq)) he
  | mark k ih => exact ih _ (h _) hts hknown (fun q us hq => hcalls q us (.mark hq)) he
  | take kind k ih =>
    rw [run, andThen_eq_error] at he
    rcases he with htaken | ⟨t, rest, htaken, he⟩
    · exact (h.1 _ hknown).foreseen htaken
    · obtain ⟨rfl, hkind, -⟩ := expect_sound htaken
      rw [List.forall_mem_cons] at hts
      exact ih t (h.2 t hts.1 hkind) hts.2 trivial (fun q us hq => hcalls q us (.take htaken hq)) he
  | call p k ih =>
    rw [run, andThen_eq_error] at he
    rcases he with hread | ⟨a, rest, hread, he⟩
    · exact hcalls p ts .here (h.1 _ hknown) e hread
    · have hrest : ∀ t ∈ rest, t.Genuine := fun t ht => hts t ((p.suffix_of_reading ts a rest hread).subset ht)
      exact ih a (h.2 a) hrest (Production.leaves hread) (fun q us hq => hcalls q us (.behind hread hq)) he

/-- No production fails with anything unforeseen where its caller knows what it needs. -/
theorem Production.foreseen (p : Production) (ts : List Token) (hts : ∀ t ∈ ts, t.Genuine) (hready : p.Ready (kind? ts)) :
    ∀ e, p.reading stop ts = .error e → e.Foreseen := by
  induction p, ts using Production.induction stop with
  | step p ts ih =>
    intro e he
    rw [p.reading_eq] at he
    exact p.guarded.foreseen hts hready (fun q us hq => ih q us hq fun t ht => hts t (hq.suffix.subset ht)) he

end Parse

namespace Program

/-- Only the demanded kinds are reported as expected in place of another token, and only these and a closing brace at the end
of the source; so a closing brace is never reported in place of another token, and no literal, no comma, no operator and no
keyword but one ever is. The text of every token means something wherever it is taken for its meaning, so that no fault comes
from a text. -/
theorem parse_names_demanded (source : String) :
    (∀ found expected position, parse source = .error (.unexpected found expected position) →
      expected ∈ [.semicolon, .leftBrace, .leftParen, .rightParen, .keyword .whileWord, .name]) ∧
    (∀ expected, parse source = .error (.endOfInput expected) →
      expected ∈ [.rightBrace, .semicolon, .leftBrace, .leftParen, .rightParen, .keyword .whileWord, .name]) ∧
    ∀ t ∈ (Stream.ofSource source).tokens, t.Meant := by
  have hforeseen : ∀ e, parse source = .error e → (∀ f, e ≠ .lex f) → e.Foreseen := by
    intro e h he
    obtain ⟨-, hread⟩ := statements_eq_error h he
    exact (Parse.Production.statements none).foreseen _ Stream.genuine_of_mem trivial e hread
  refine ⟨fun found expected position h => ?_, fun expected h => ?_, fun t ht => (Stream.genuine_of_mem t ht).meant⟩
  · exact hforeseen _ h fun _ => ParseFault.noConfusion
  · exact List.mem_cons.mpr (hforeseen _ h fun _ => ParseFault.noConfusion)

/-- The body of a function that is no block, a block that is not closed, and an operator that assigns. -/
theorem parse_names_demanded_body :
    TokenKind.leftBrace ∈ [.semicolon, .leftBrace, .leftParen, .rightParen, .keyword .whileWord, .name] ∧
    TokenKind.rightBrace ∈ [.rightBrace, .semicolon, .leftBrace, .leftParen, .rightParen, .keyword .whileWord, .name] ∧
    ∃ op, AssignOp.ofText? "*=" = some op := by
  have hbody : parse "def f() x;" = .error (.unexpected "x" .leftBrace ⟨1, 8⟩) := by with_unfolding_all rfl
  have hblock : parse "\x7b x;" = .error (.endOfInput .rightBrace) := by with_unfolding_all rfl
  have htoken : ⟨.compoundAssign, "*=", ⟨1, 2⟩⟩ ∈ (Stream.ofSource "x *= 2;").tokens := by decide +kernel
  exact ⟨(parse_names_demanded _).1 _ _ _ hbody, (parse_names_demanded _).2.1 _ hblock,
    ((parse_names_demanded _).2.2 _ htoken).assignment rfl⟩

end Program

end Scriptlet
