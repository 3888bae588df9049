import Scriptlet.Proofs.Grammar.Reading
import Scriptlet.Proofs.Token.Scan

/-!
# Positions do not matter

Productions look at the kinds and texts of tokens and never at their positions; they only copy positions into faults. The
fault that cut the tokens short is copied as well and not looked at. So a program is read the same whatever the positions of
its tokens, and a fault is the same but for what was copied into it. Since nothing else is copied, a fault stands where a
token stands or is the fault of the scan.
-/

namespace Scriptlet

/-- A fault with its position replaced. -/
def ParseFault.moved (f : Position → Position) : ParseFault → ParseFault
  | lex fault => lex (fault.moved f)
  | endOfInput expected => endOfInput expected
  | unexpected found expected position => unexpected found expected (f position)
  | badTarget position => badTarget (f position)

/-- A fault with its position replaced where it was copied from a token, and with the fault of the scan replaced. -/
def ParseFault.mapped (f : Position → Position) (g : LexFault → LexFault) : ParseFault → ParseFault
  | lex fault => lex (g fault)
  | endOfInput expected => endOfInput expected
  | unexpected found expected position => unexpected found expected (f position)
  | badTarget position => badTarget (f position)

/-- Where the fault of the scan moves like the tokens, everything moves. -/
theorem ParseFault.mapped_moved (f : Position → Position) (e : ParseFault) : e.mapped f (LexFault.moved f) = e.moved f := by
  cases e <;> rfl

namespace Parse

/-- A reading with all positions of tokens and the fault of the scan replaced. -/
def moved {α : Type} (f : Position → Position) (g : LexFault → LexFault) (x : Reading α) : Reading α :=
  match x with
  | .ok (a, rest) => .ok (a, rest.map (Token.moved f))
  | .error e => .error (e.mapped f g)

variable {α β : Type} {stop : Option LexFault} {ts : List Token} {f : Position → Position}
  {g : LexFault → LexFault}

/-- Moved tokens are of the same kinds. -/
@[simp] theorem kind?_map_moved (f : Position → Position) (ts : List Token) : kind? (ts.map (Token.moved f)) = kind? ts := by
  cases ts <;> rfl

@[simp] theorem assignment?_map_moved (f : Position → Position) (ts : List Token) :
    assignment? (ts.map (Token.moved f)) = assignment? ts := by
  rw [assignment?, kind?_map_moved, assignment?]

@[simp] theorem sign?_map_moved (f : Position → Position) (ts : List Token) :
    sign? (ts.map (Token.moved f)) = sign? ts := by
  rw [sign?, kind?_map_moved, sign?]

/-! ## Sequences -/

/-- A sequence moves when its parts do. -/
theorem andThen_moved {x x' : Reading α} {next next' : α → List Token → Reading β} (hx : x' = moved f g x)
    (hnext : ∀ a rest, x = .ok (a, rest) → next' a (rest.map (Token.moved f)) = moved f g (next a rest)) :
    andThen x' next' = moved f g (andThen x next) := by
  subst hx
  cases x with
  | error e => rfl
  | ok p => exact hnext p.1 p.2 rfl

/-- A sequence that starts with a single token moves when what follows the token does. -/
theorem expect_moved {kind : TokenKind} {next next' : Token → List Token → Reading β}
    (hnext : ∀ t rest, ts = t :: rest → next' (t.moved f) (rest.map (Token.moved f)) = moved f g (next t rest)) :
    andThen (plain (expect (stop.map g) kind (ts.map (Token.moved f)))) next' =
      moved f g (andThen (plain (expect stop kind ts)) next) := by
  cases ts with
  | nil => rfl
  | cons t rest =>
    rw [List.map_cons, plain_expect_cons, plain_expect_cons]
    by_cases hk : t.kind = kind
    · rw [if_pos hk, if_pos (show (t.moved f).kind = kind from hk)]
      cases rest with
      | nil =>
        cases stop with
        | none => exact hnext t [] rfl
        | some fault => rfl
      | cons u rest =>
        rw [List.map_cons, leave_cons, leave_cons, andThen_ok, andThen_ok, ← List.map_cons]
        exact hnext t (u :: rest) rfl
    · rw [if_neg hk, if_neg (show ¬(t.moved f).kind = kind from hk)]
      rfl

/-- A token whose text means something is taken wherever it stands. -/
theorem expectAs_moved {kind : TokenKind} {read : String → Option α} :
    plain (expectAs (stop.map g) kind read (ts.map (Token.moved f))) =
      moved f g (plain (expectAs stop kind read ts)) := by
  rw [plain_expectAs, plain_expectAs]
  refine expect_moved ?_
  intro t rest _
  simp only [Token.moved]
  cases read t.text <;> rfl

/-! ## Expressions -/

/-- The production of a rank moves. -/
def MovesRead (rank : Rank) (ts : List Token) : Prop :=
  ∀ f g stop, read (stop.map g) rank (ts.map (Token.moved f)) = moved f g (read stop rank ts)

/-- The operators of a level behind a left side move. -/
def MovesChain (level : Level) (left : Expr) (ts : List Token) : Prop :=
  ∀ f g stop, plain (chain (stop.map g) level left (ts.map (Token.moved f))) =
    moved f g (plain (chain stop level left ts))

/-- Literals move. -/
theorem literal_moved : plain (literal (stop.map g) (ts.map (Token.moved f))) =
    moved f g (plain (literal stop ts)) := by
  unfold literal
  rw [kind?_map_moved]
  split <;> exact expectAs_moved

/-- Whole expressions move if the weakest level does, and shorter lists do. -/
theorem movesRead_whole (ihLeft : MovesRead (.level .or) ts) (ihValue : ∀ us, us.length < ts.length → MovesRead .whole us) :
    MovesRead .whole ts := by
  intro f g stop
  rw [read_whole, read_whole]
  refine andThen_moved (ihLeft f g stop) ?_
  intro left rest hleft
  rw [assignment?_map_moved]
  cases assignment? rest with
  | none => rfl
  | some kind =>
    refine andThen_moved expectAs_moved ?_
    intro op rest' hop
    cases left with
    | name x =>
      refine andThen_moved (ihValue rest' ?_ f g stop) fun value rest'' _ => rfl
      exact Nat.lt_trans (plain_shorter hop) (read_shorter hleft)
    | _ =>
      -- The place of the fault is that of the first token, which the left side took.
      have hpos : position (ts.map (Token.moved f)) = f (position ts) := by
        cases ts with
        | nil => exact absurd (read_shorter hleft) (by simp)
        | cons t ts => rfl
      simp only [target, hpos]
      rfl

/-- A level moves if its operands do, and its operators do on shorter lists. -/
theorem movesRead_level {l : Level} (ihFirst : MovesRead l.operandRank ts)
    (ihChain : ∀ left us, us.length < ts.length → MovesChain l left us) : MovesRead (.level l) ts := by
  intro f g stop
  rw [read_level, read_level]
  exact andThen_moved (ihFirst f g stop) fun first rest hfirst => ihChain first rest (read_shorter hfirst) f g stop

/-- The operators of a level move if operands and operators do on shorter lists. -/
theorem movesChain {l : Level} {left : Expr} (ihRight : ∀ us, us.length < ts.length → MovesRead l.operandRank us)
    (ihChain : ∀ left us, us.length < ts.length → MovesChain l left us) : MovesChain l left ts := by
  intro f g stop
  rw [plain_chain, plain_chain, kind?_map_moved]
  split
  · refine andThen_moved expectAs_moved ?_
    intro node rest hnode
    have hshort := plain_shorter hnode
    refine andThen_moved (ihRight rest hshort f g stop) ?_
    intro right rest' hright
    exact ihChain _ rest' (Nat.lt_trans (read_shorter hright) hshort) f g stop
  · rfl

/-- Operands with signs move if those without do, and shorter lists do. -/
theorem movesRead_signed (ihAtom : MovesRead .atom ts) (ihArgument : ∀ us, us.length < ts.length → MovesRead .signed us) :
    MovesRead .signed ts := by
  intro f g stop
  rw [read_signed, read_signed, sign?_map_moved]
  cases sign? ts with
  | none => exact ihAtom f g stop
  | some kind =>
    refine andThen_moved expectAs_moved ?_
    intro op rest hop
    exact andThen_moved (ihArgument rest (plain_shorter hop) f g stop) fun argument rest' _ => rfl

/-- What needs no parentheses moves if whole expressions do on shorter lists. -/
theorem movesRead_atom (ihInner : ∀ us, us.length < ts.length → MovesRead .whole us) : MovesRead .atom ts := by
  intro f g stop
  rw [read_atom, read_atom, kind?_map_moved]
  split
  · refine expect_moved ?_
    intro o rest ho
    refine andThen_moved (ihInner rest (by simp [ho]) f g stop) ?_
    intro inner rest' _
    exact expect_moved fun c rest'' _ => rfl
  · split
    · exact literal_moved
    · exact expectAs_moved

/-- The production of every rank moves. -/
theorem read_moved (rank : Rank) (ts : List Token) : MovesRead rank ts :=
  (read_induction (fun _ => movesRead_whole) (fun _ _ => movesRead_level) (fun _ _ _ => movesChain)
    (fun _ => movesRead_signed) (fun _ => movesRead_atom)).1 rank ts

/-! ## Parts of statements -/

/-- A clause that may be absent moves. -/
theorem expressionBefore_moved {closing : TokenKind} :
    plain (expressionBefore (stop.map g) closing (ts.map (Token.moved f))) =
      moved f g (plain (expressionBefore stop closing ts)) := by
  rw [plain_expressionBefore, plain_expressionBefore, kind?_map_moved]
  split
  · rfl
  · exact andThen_moved (read_moved .whole ts f g stop) fun e rest _ => rfl

/-- Conditions move. -/
theorem condition_moved : plain (condition (stop.map g) (ts.map (Token.moved f))) =
    moved f g (plain (condition stop ts)) := by
  rw [plain_condition, plain_condition]
  refine expect_moved ?_
  intro o rest _
  refine andThen_moved (read_moved .whole rest f g stop) ?_
  intro test rest' _
  exact expect_moved fun c rest'' _ => rfl

/-- Declared names move. -/
theorem declarator_moved : plain (declarator (stop.map g) (ts.map (Token.moved f))) =
    moved f g (plain (declarator stop ts)) := by
  rw [plain_declarator, plain_declarator]
  refine andThen_moved expectAs_moved ?_
  intro id rest _
  rw [kind?_map_moved]
  split
  · refine expect_moved ?_
    intro s rest' _
    exact andThen_moved (read_moved .whole rest' f g stop) fun init rest'' _ => rfl
  · rfl

/-- A list moves when its items do. -/
theorem list_moved {item item' : List Token → Reading α} {list list' : List Token → Reading (List α)}
    (hlist : ReadsList stop item list) (hlist' : ReadsList (stop.map g) item' list')
    (hshort : ∀ {ts a rest}, item ts = .ok (a, rest) → rest.length < ts.length)
    (hitem : ∀ ts, item' (ts.map (Token.moved f)) = moved f g (item ts)) (ts : List Token) :
    list' (ts.map (Token.moved f)) = moved f g (list ts) := by
  induction hn : ts.length using Nat.strongRecOn generalizing ts with
  | _ n ih =>
    rw [hlist, hlist']
    refine andThen_moved (hitem ts) ?_
    intro first rest hfirst
    rw [kind?_map_moved]
    split
    · refine expect_moved ?_
      intro c rest' hc
      have hlt : rest'.length < n := by
        have := hshort hfirst
        rw [hc, List.length_cons] at this
        omega
      exact andThen_moved (ih rest'.length hlt rest' rfl) fun others rest'' _ => rfl
    · rfl

/-- Declarations move. -/
theorem declaration_moved : plain (declaration (stop.map g) (ts.map (Token.moved f))) =
    moved f g (plain (declaration stop ts)) := by
  rw [plain_declaration, plain_declaration]
  refine expect_moved ?_
  intro t rest _
  exact list_moved plain_declarators plain_declarators plain_shorter (fun _ => declarator_moved) rest

/-- Parameters move. -/
theorem parameters_moved : plain (parameters (stop.map g) (ts.map (Token.moved f))) =
    moved f g (plain (parameters stop ts)) := by
  rw [plain_parameters, plain_parameters, kind?_map_moved]
  split
  · rfl
  · exact list_moved plain_names plain_names plain_shorter (fun _ => expectAs_moved) ts

/-- The opening of a counting loop moves. -/
theorem loopInit_moved : plain (loopInit (stop.map g) (ts.map (Token.moved f))) =
    moved f g (plain (loopInit stop ts)) := by
  rw [plain_loopInit, plain_loopInit, kind?_map_moved]
  split
  · rfl
  split
  · exact andThen_moved declaration_moved fun list rest _ => rfl
  · exact andThen_moved (read_moved .whole ts f g stop) fun e rest _ => rfl

/-- The head of a counting loop moves. -/
theorem loopHead_moved : plain (loopHead (stop.map g) (ts.map (Token.moved f))) =
    moved f g (plain (loopHead stop ts)) := by
  rw [plain_loopHead, plain_loopHead]
  refine expect_moved fun _ _ _ => expect_moved fun _ _ _ => andThen_moved loopInit_moved fun _ _ _ => ?_
  refine expect_moved fun _ _ _ => andThen_moved expressionBefore_moved fun _ _ _ => ?_
  refine expect_moved fun _ _ _ => andThen_moved expressionBefore_moved fun _ _ _ => ?_
  exact expect_moved fun _ _ _ => rfl

/-- The head of a function moves. -/
theorem functionHead_moved : plain (functionHead (stop.map g) (ts.map (Token.moved f))) =
    moved f g (plain (functionHead stop ts)) := by
  rw [plain_functionHead, plain_functionHead]
  refine expect_moved fun _ _ _ => andThen_moved expectAs_moved fun _ _ _ => ?_
  refine expect_moved fun _ _ _ => andThen_moved parameters_moved fun _ _ _ => ?_
  exact expect_moved fun _ _ _ => rfl

/-- Statements without statements in them move. -/
theorem simple_moved : plain (simple (stop.map g) (ts.map (Token.moved f))) =
    moved f g (plain (simple stop ts)) := by
  rw [plain_simple, plain_simple, kind?_map_moved]
  split
  · exact expect_moved fun _ _ _ => rfl
  split
  · exact andThen_moved declaration_moved fun _ _ _ => expect_moved fun _ _ _ => rfl
  split
  · refine expect_moved fun _ _ _ => andThen_moved expressionBefore_moved fun _ _ _ => ?_
    exact expect_moved fun _ _ _ => rfl
  · exact andThen_moved (read_moved .whole ts f g stop) fun _ _ _ => expect_moved fun _ _ _ => rfl

/-! ## Statements -/

/-- Statements move. -/
def MovesStatement (ts : List Token) : Prop :=
  ∀ f g stop, plain (statement (stop.map g) (ts.map (Token.moved f))) = moved f g (plain (statement stop ts))

/-- Blocks move. -/
def MovesBlock (ts : List Token) : Prop :=
  ∀ f g stop, plain (block (stop.map g) (ts.map (Token.moved f))) = moved f g (plain (block stop ts))

/-- Lists of statements move. -/
def MovesStatements (closing : Option TokenKind) (ts : List Token) : Prop :=
  ∀ f g stop, plain (statements (stop.map g) closing (ts.map (Token.moved f))) =
    moved f g (plain (statements stop closing ts))

/-- An `if` moves if statements do on shorter lists. -/
theorem movesStatement_if (hkind : kind? ts = some (.keyword .ifWord))
    (ih : ∀ us, us.length < ts.length → MovesStatement us) : MovesStatement ts := by
  intro f g stop
  rw [plain_statement_if hkind, plain_statement_if (by rw [kind?_map_moved, hkind])]
  refine expect_moved ?_
  intro t rest ht
  refine andThen_moved condition_moved ?_
  intro test rest₁ htest
  have h₁ : rest₁.length < ts.length := by
    have := plain_shorter htest
    rw [ht, List.length_cons]
    omega
  refine andThen_moved (ih rest₁ h₁ f g stop) ?_
  intro body rest₂ hbody
  have h₂ := Nat.lt_trans (plain_shorter hbody) h₁
  rw [kind?_map_moved]
  split
  · refine expect_moved ?_
    intro e rest₃ he
    refine andThen_moved (ih rest₃ ?_ f g stop) fun other rest₄ _ => rfl
    rw [he, List.length_cons] at h₂
    omega
  · rfl

theorem movesStatement_while (hkind : kind? ts = some (.keyword .whileWord))
    (ih : ∀ us, us.length < ts.length → MovesStatement us) : MovesStatement ts := by
  intro f g stop
  rw [plain_statement_while hkind, plain_statement_while (by rw [kind?_map_moved, hkind])]
  refine expect_moved fun t rest ht => andThen_moved condition_moved fun test rest₁ htest => ?_
  refine andThen_moved (ih rest₁ ?_ f g stop) fun body rest₂ _ => rfl
  have := plain_shorter htest
  rw [ht, List.length_cons]
  omega

theorem movesStatement_do (hkind : kind? ts = some (.keyword .doWord))
    (ih : ∀ us, us.length < ts.length → MovesStatement us) : MovesStatement ts := by
  intro f g stop
  rw [plain_statement_do hkind, plain_statement_do (by rw [kind?_map_moved, hkind])]
  refine expect_moved fun t rest ht => andThen_moved (ih rest (by simp [ht]) f g stop) fun _ _ _ => ?_
  refine expect_moved fun _ _ _ => andThen_moved condition_moved fun _ _ _ => ?_
  exact expect_moved fun _ _ _ => rfl

/-- Statements move, by their first token. -/
theorem movesStatement (ihBlock : MovesBlock ts) (ih : ∀ us, us.length < ts.length → MovesStatement us ∧ MovesBlock us) :
    MovesStatement ts := by
  by_cases hbrace : kind? ts = some .leftBrace
  · intro f g stop
    rw [plain_statement_block hbrace, plain_statement_block (by rw [kind?_map_moved, hbrace])]
    exact andThen_moved (ihBlock f g stop) fun body rest _ => rfl
  by_cases hif : kind? ts = some (.keyword .ifWord)
  · exact movesStatement_if hif fun us h => (ih us h).1
  by_cases hwhile : kind? ts = some (.keyword .whileWord)
  · exact movesStatement_while hwhile fun us h => (ih us h).1
  by_cases hdo : kind? ts = some (.keyword .doWord)
  · exact movesStatement_do hdo fun us h => (ih us h).1
  by_cases hfor : kind? ts = some (.keyword .forWord)
  · intro f g stop
    rw [plain_statement_for hfor, plain_statement_for (by rw [kind?_map_moved, hfor])]
    refine andThen_moved loopHead_moved ?_
    intro head rest hhead
    exact andThen_moved ((ih rest (plain_shorter hhead)).1 f g stop) fun body rest' _ => rfl
  by_cases hdef : kind? ts = some (.keyword .defWord)
  · intro f g stop
    rw [plain_statement_def hdef, plain_statement_def (by rw [kind?_map_moved, hdef])]
    refine andThen_moved functionHead_moved ?_
    intro head rest hhead
    exact andThen_moved ((ih rest (plain_shorter hhead)).2 f g stop) fun body rest' _ => rfl
  · intro f g stop
    have hsimple : ∀ kind ∈ compoundOpeners, kind? ts ≠ some kind := by
      simp [compoundOpeners, hbrace, hif, hwhile, hdo, hfor, hdef]
    rw [plain_statement_simple hsimple, plain_statement_simple (by simpa using hsimple)]
    exact simple_moved

/-- Blocks move if the statements in them do. -/
theorem movesBlock (ih : ∀ us, us.length < ts.length → MovesStatements (some .rightBrace) us) : MovesBlock ts := by
  intro f g stop
  rw [plain_block, plain_block]
  refine expect_moved ?_
  intro o rest ho
  rw [kind?_map_moved]
  split
  · exact expect_moved fun _ _ _ => rfl
  · refine andThen_moved (ih rest (by simp [ho]) f g stop) ?_
    intro _ _ _
    exact expect_moved fun _ _ _ => rfl

/-- Statements one after the other move if the first does and those behind it do. -/
theorem movesStatements {closing : Option TokenKind} (ihFirst : MovesStatement ts)
    (ih : ∀ us, us.length < ts.length → MovesStatements closing us) : MovesStatements closing ts := by
  intro f g stop
  rw [plain_statements, plain_statements]
  refine andThen_moved (ihFirst f g stop) ?_
  intro first rest hfirst
  rw [kind?_map_moved]
  split
  · rfl
  · exact andThen_moved (ih rest (plain_shorter hfirst) f g stop) fun others rest' _ => rfl

/-- Statements move, up to whatever closes them. -/
theorem statements_moved (closing : Option TokenKind) (ts : List Token) : MovesStatements closing ts :=
  (statement_induction (fun _ => movesStatement) (fun _ => movesBlock) (fun _ _ => movesStatements)).2.2 closing ts

end Parse

/-- The program of a stream does not depend on the positions of its tokens or on what cut it short, and its fault only in
what it copies from them. -/
theorem Program.ofStream_mapped (f : Position → Position) (g : LexFault → LexFault) (ts : List Token)
    (fault : Option LexFault) :
    ofStream ⟨ts.map (Token.moved f), fault.map g⟩ = (ofStream ⟨ts, fault⟩).mapError (ParseFault.mapped f g) := by
  by_cases h : ts = [] → fault = none
  · have h' : ts.map (Token.moved f) = [] → fault.map g = none := by simpa using h
    rw [ofStream_eq ts fault h, ofStream_eq _ _ h', Parse.statements_moved none ts f g fault]
    cases Parse.plain (Parse.statements fault none ts) <;> rfl
  · rw [Classical.not_imp] at h
    obtain ⟨rfl, hfault⟩ := h
    cases fault with
    | none => exact absurd rfl hfault
    | some e => rfl

/-- The program of a stream does not depend on its positions, and its fault only in the position that it names. -/
theorem Program.ofStream_moved (f : Position → Position) (stream : Stream) :
    ofStream (stream.moved f) = (ofStream stream).mapError (ParseFault.moved f) := by
  rw [Stream.moved, ofStream_mapped]
  cases ofStream stream with
  | ok p => rfl
  | error e => exact congrArg Except.error (e.mapped_moved f)

/-- What program a stream is read as does not depend on where its tokens stand. -/
theorem Program.ofStream_eq_ok_of_moved {f : Position → Position} {stream stream' : Stream} {p : Program}
    (h : stream.moved f = stream'.moved f) (hp : ofStream stream = .ok p) : ofStream stream' = .ok p := by
  have hmoved := congrArg ofStream h
  rw [ofStream_moved, ofStream_moved, hp] at hmoved
  cases hread : ofStream stream' with
  | error e =>
    rw [hread] at hmoved
    cases hmoved
  | ok q =>
    rw [hread] at hmoved
    cases hmoved
    rfl

/-! ## Where faults come from -/

/-- A fault comes from a stream: it is the fault of the scan, it is the end, or it stands where a token stands. -/
def ParseFault.ComesFrom (stream : Stream) : ParseFault → Prop
  | lex fault => stream.fault = some fault
  | endOfInput _ => True
  | unexpected _ _ position => ∃ t ∈ stream.tokens, t.position = position
  | badTarget position => ∃ t ∈ stream.tokens, t.position = position

/-- A position that is kept on a condition and else replaced by the one below it. -/
def Position.downUnless (keep : Prop) [Decidable keep] (p : Position) : Position := if keep then p else p.down 1

/-- A position stays where it is exactly if it is kept. -/
theorem Position.downUnless_eq_self_iff {keep : Prop} [Decidable keep] {p : Position} :
    p.downUnless keep = p ↔ keep := by
  unfold downUnless
  split
  · next h => simp [h]
  · next h =>
    refine iff_of_false (fun heq => ?_) h
    have := congrArg line heq
    simp [down] at this

/-- Every fault comes from the stream. A position that no token has could be replaced without a change of the stream, and so
could a fault that is not the one of the scan; but then the same stream would have two faults. -/
theorem Program.comesFrom_of_ofStream {stream : Stream} {e : ParseFault} (h : ofStream stream = .error e) :
    e.ComesFrom stream := by
  obtain ⟨ts, fault⟩ := stream
  have hmapped := ofStream_mapped (fun p => p.downUnless (∃ t ∈ ts, t.position = p))
    (fun e => e.moved (Position.downUnless (fault = some e))) ts fault
  have htokens : ts.map (Token.moved fun p => p.downUnless (∃ t ∈ ts, t.position = p)) = ts := by
    conv => rhs; rw [← List.map_id ts]
    refine List.map_congr_left fun t ht => ?_
    rw [Token.moved, Position.downUnless_eq_self_iff.mpr ⟨t, ht, rfl⟩]
    rfl
  have hfault : fault.map (fun e => e.moved (Position.downUnless (fault = some e))) = fault := by
    cases fault with
    | none => rfl
    | some e => rw [Option.map_some, LexFault.moved, Position.downUnless_eq_self_iff.mpr rfl]
  rw [htokens, hfault, h] at hmapped
  have he := Except.error.inj hmapped
  cases e with
  | lex e =>
    have hposition := congrArg LexFault.position (ParseFault.lex.inj he)
    exact show fault = some e from Position.downUnless_eq_self_iff.mp hposition.symm
  | endOfInput expected => trivial
  | unexpected found expected position =>
    exact show ∃ t ∈ ts, t.position = position from
      Position.downUnless_eq_self_iff.mp (ParseFault.unexpected.inj he).2.2.symm
  | badTarget position =>
    exact show ∃ t ∈ ts, t.position = position from Position.downUnless_eq_self_iff.mp (ParseFault.badTarget.inj he).symm

end Scriptlet
