import Scriptlet.Proofs.Parse.Calls
import Scriptlet.Proofs.Parse.Earliest
import Scriptlet.Proofs.Token.Tiling

/-!
# What is assigned to

Wherever an expression starts, an assignment operator may stand behind what is read first. Only a name can stand on its
left, in any number of parentheses; of anything else the first token is reported, as soon as the token behind the operator is
known. And no such report comes from anywhere else.
-/

namespace Scriptlet

namespace Parse

open Production

/-! ## The one production that complains -/

/-- A plan that by itself has no complaint about what is assigned to. -/
def Plan.Silent {α : Type} : Plan α → Prop
  | .done _ => True
  | .fail e => ∀ p, e ≠ .badTarget p
  | .look k => ∀ kind, (k kind).Silent
  | .mark k => ∀ p, (k p).Silent
  | .take _ k => ∀ t, (k t).Silent
  | .call _ k => ∀ a, (k a).Silent

namespace Plan

variable {α β : Type} {stop : Option LexFault} {ts : List Token}

theorem silent_takeAs {kind : TokenKind} {read : String → Option β} {k : β → Plan α} (h : ∀ b, (k b).Silent) :
    (takeAs kind read k).Silent := by
  intro t
  dsimp only
  split
  · exact h _
  · exact fun _ => ParseFault.noConfusion

theorem silent_literal (kind : Option TokenKind) : (literal kind).Silent := by
  unfold literal
  split <;> exact silent_takeAs fun _ => trivial

theorem silent_ite {P : Prop} [Decidable P] {a b : Plan α} (ha : a.Silent) (hb : b.Silent) :
    (if P then a else b).Silent := by
  split
  · exact ha
  · exact hb

end Plan

/-- Taking a token is no assignment. -/
theorem expect_ne_badTarget {stop : Option LexFault} (kind : TokenKind) (ts : List Token) (p : Position) :
    plain (expect stop kind ts) ≠ .error (.badTarget p) := by
  intro h
  cases ts with
  | nil => cases h
  | cons t rest =>
    rw [plain_expect_cons] at h
    split at h
    · cases rest <;> cases stop <;> cases h
    · cases h

theorem expectAs_ne_badTarget {α : Type} {stop : Option LexFault} (kind : TokenKind) (read : String → Option α)
    (ts : List Token) (p : Position) : plain (expectAs stop kind read ts) ≠ .error (.badTarget p) := by
  intro h
  rw [plain_expectAs, andThen_eq_error] at h
  rcases h with htaken | ⟨t, rest, -, h⟩
  · exact expect_ne_badTarget kind ts p htaken
  · split at h <;> cases h

/-- What a silent plan fails with about a target comes from a call. -/
theorem Plan.Silent.exists_call {α : Type} {stop : Option LexFault} {plan : Plan α} (hsilent : plan.Silent)
    {ts : List Token} {p : Position} (h : plan.run stop ts = .error (.badTarget p)) :
    ∃ q us, plan.Calls stop ts q us ∧ q.reading stop us = .error (.badTarget p) := by
  induction plan generalizing ts with
  | done a => cases h
  | fail e => exact absurd (Except.error.inj h) (hsilent p)
  | look k ih =>
    obtain ⟨q, us, hcalls, hq⟩ := ih _ (hsilent _) h
    exact ⟨q, us, .look hcalls, hq⟩
  | mark k ih =>
    obtain ⟨q, us, hcalls, hq⟩ := ih _ (hsilent _) h
    exact ⟨q, us, .mark hcalls, hq⟩
  | take kind k ih =>
    rw [run, andThen_eq_error] at h
    rcases h with htaken | ⟨t, rest, htaken, h⟩
    · exact absurd htaken (expect_ne_badTarget kind ts p)
    · obtain ⟨q, us, hcalls, hq⟩ := ih t (hsilent t) h
      exact ⟨q, us, .take htaken hcalls, hq⟩
  | call q k ih =>
    rw [run, andThen_eq_error] at h
    rcases h with hread | ⟨a, rest, hread, h⟩
    · exact ⟨q, ts, .here, hread⟩
    · obtain ⟨q', us, hcalls, hq⟩ := ih a (hsilent a) h
      exact ⟨q', us, .behind hread hcalls, hq⟩

namespace Production

open Plan

/-- Every production is silent but the one that reads whole expressions. -/
theorem silent {p : Production} (h : ∀ rank, p = .read rank → rank ≠ .whole) : p.plan.Silent := by
  cases p with
  | read rank =>
    cases rank with
    | whole => exact absurd rfl (h _ rfl)
    | level level => exact fun _ _ => trivial
    | signed =>
      intro kind
      dsimp only
      split
      · exact silent_takeAs fun _ _ => trivial
      · exact fun _ => trivial
    | atom =>
      exact fun _ => silent_ite (fun _ _ _ => trivial) (silent_ite (silent_literal _) (silent_takeAs fun _ => trivial))
  | chain level left => exact fun _ => silent_ite (silent_takeAs fun _ _ _ => trivial) trivial
  | expressionBefore closing => exact fun _ => silent_ite trivial fun _ => trivial
  | condition => exact fun _ _ _ => trivial
  | declarator =>
    rw [plan]
    refine silent_takeAs ?_
    exact fun _ _ => silent_ite (fun _ _ => trivial) trivial
  | declarators => exact fun _ _ => silent_ite (fun _ _ => trivial) trivial
  | declaration => exact fun _ _ => trivial
  | names =>
    rw [plan]
    refine silent_takeAs ?_
    exact fun _ _ => silent_ite (fun _ _ => trivial) trivial
  | parameters => exact fun _ => silent_ite trivial fun _ => trivial
  | loopInit => exact fun _ => silent_ite trivial (silent_ite (fun _ => trivial) fun _ => trivial)
  | loopHead => exact fun _ _ _ _ _ _ _ _ => trivial
  | functionHead => exact fun _ => silent_takeAs fun _ _ _ _ => trivial
  | simple =>
    exact fun _ => silent_ite (fun _ => trivial) (silent_ite (fun _ _ => trivial) (silent_ite (fun _ _ _ => trivial)
      fun _ _ => trivial))
  | statement =>
    refine fun _ => silent_ite (fun _ => trivial) (silent_ite ?_ (silent_ite (fun _ _ _ => trivial)
      (silent_ite (fun _ _ _ _ _ => trivial) (silent_ite (fun _ _ => trivial) (silent_ite (fun _ _ => trivial) ?_)))))
    · exact fun _ _ _ _ => silent_ite (fun _ _ => trivial) trivial
    · exact fun _ => trivial
  | block => exact fun _ _ => silent_ite (fun _ => trivial) fun _ _ => trivial
  | statements closing => exact fun _ _ => silent_ite trivial fun _ => trivial

end Production

theorem target_eq_error {position p : Position} {e : Expr} (h : target position e = .error (.badTarget p)) :
    (∀ x, e ≠ .name x) ∧ p = position := by
  cases e with
  | name x => cases h
  | _ =>
    cases h
    exact ⟨fun x => Expr.noConfusion, rfl⟩

/-- Behind the operator of an assignment to a name the value is read. -/
theorem whole_calls_value {stop : Option LexFault} {ts us rest : List Token} {e : Expr} {kind : TokenKind} {op : AssignOp}
    {x : String} (hleft : Parse.read stop (.level .or) ts = .ok (e, us)) (hassign : assignment? us = some kind)
    (hop : plain (expectAs stop kind AssignOp.ofText? us) = .ok (op, rest)) (htarget : target (position ts) e = .ok x) :
    (Production.read .whole).plan.Calls stop ts (.read .whole) rest := by
  refine .mark (.behind hleft (.look ?_))
  rw [show Option.filter TokenKind.isAssignment (kind? us) = some kind from hassign]
  refine .takeAs hop ?_
  rw [htarget]
  exact .here

/-- What a whole expression fails with about a target is about its own left side, or comes from a call. -/
theorem whole_eq_badTarget {stop : Option LexFault} {ts : List Token} {p : Position}
    (h : Parse.read stop .whole ts = .error (.badTarget p)) :
    (∃ q us, (Production.read .whole).plan.Calls stop ts q us ∧ q.reading stop us = .error (.badTarget p)) ∨
      ∃ e o rest, Parse.read stop (.level .or) ts = .ok (e, o :: rest) ∧ o.kind.isAssignment = true ∧ Sure stop rest ∧
        (∀ x, e ≠ .name x) ∧ p = position ts := by
  rw [read_whole, andThen_eq_error] at h
  rcases h with hleft | ⟨e, us, hleft, h⟩
  · exact .inl ⟨_, _, .mark .here, hleft⟩
  split at h
  · cases h
  next kind hassign =>
  rw [andThen_eq_error] at h
  rcases h with hop | ⟨op, rest, hop, h⟩
  · exact absurd hop (expectAs_ne_badTarget _ _ _ _)
  obtain ⟨o, rfl, hok, -, hsure⟩ := expectAs_sound hop
  split at h
  · next f htarget =>
    cases h
    obtain ⟨hne, rfl⟩ := target_eq_error htarget
    exact .inr ⟨e, o, rest, hleft, hok ▸ (assignment?_eq_some hassign).2, hsure, hne, rfl⟩
  · next x htarget =>
    rw [andThen_eq_error] at h
    rcases h with hvalue | ⟨_, _, _, h⟩
    · exact .inl ⟨.read .whole, rest, whole_calls_value hleft hassign hop htarget, hvalue⟩
    · cases h

/-- A fault about a target arises where a whole expression is reached: behind its left side stands an assignment operator,
and the left side is not a name. -/
theorem exists_reaches_of_badTarget {stop : Option LexFault} {p : Position} (q : Production) (ts : List Token)
    (h : q.reading stop ts = .error (.badTarget p)) :
    ∃ us e o rest, Reaches stop (q, ts) (.read .whole, us) ∧ Parse.read stop (.level .or) us = .ok (e, o :: rest) ∧
      o.kind.isAssignment = true ∧ Sure stop rest ∧ (∀ x, e ≠ .name x) ∧ p = position us := by
  induction q, ts using Production.induction stop with
  | step q ts ih =>
    have hcall : (∃ q' us, q.plan.Calls stop ts q' us ∧ q'.reading stop us = .error (.badTarget p)) ∨
        q = .read .whole ∧ ∃ e o rest, Parse.read stop (.level .or) ts = .ok (e, o :: rest) ∧
          o.kind.isAssignment = true ∧ Sure stop rest ∧ (∀ x, e ≠ .name x) ∧ p = position ts := by
      by_cases hq : q = .read .whole
      · subst hq
        exact (whole_eq_badTarget h).imp id fun hown => ⟨rfl, hown⟩
      · rw [q.reading_eq] at h
        refine .inl (Plan.Silent.exists_call (Production.silent ?_) h)
        rintro rank rfl rfl
        exact hq rfl
    rcases hcall with ⟨q', us, hcalls, hread⟩ | ⟨rfl, e, o, rest, hleft, hown⟩
    · obtain ⟨vs, e, o, rest, hreaches, hrest⟩ := ih q' us hcalls hread
      have hstep : Production.Calls stop (q, ts) (q', us) := hcalls
      exact ⟨vs, e, o, rest, .head hstep hreaches, hrest⟩
    · exact ⟨ts, e, o, rest, .refl, hleft, hown⟩

end Parse

/-! ## Assignments of a stream -/

namespace Stream

open Parse

/-- Reading a stream starts an expression at `ts`: call by call, the statements of the stream lead there. -/
def Expects (stream : Stream) (ts : List Token) : Prop :=
  Sure stream.fault stream.tokens ∧ Production.Reaches stream.fault (.statements none, stream.tokens) (.read .whole, ts)

/-- Reading a stream starts an expression whose left side `es` is read in full, with tree `e`, and directly behind it stands
the assignment operator `o`. -/
structure Assigns (stream : Stream) (es : List Token) (e : Expr) (o : Token) (rest : List Token) : Prop where
  expected : stream.Expects (es ++ o :: rest)
  left : plain (binary stream.fault .or (es ++ o :: rest)) = .ok (e, o :: rest)
  operator : o.kind.isAssignment = true

variable {stream : Stream} {ts es rest : List Token} {e : Expr} {o : Token}

/-- Expressions start at what is left of the tokens. -/
theorem Expects.suffix (h : stream.Expects ts) : ts <:+ stream.tokens := h.2.suffix

/-- An expression starts at the first token when no statement of another form does. -/
theorem expects_tokens (hsure : Sure stream.fault stream.tokens)
    (h : ∀ kind ∈ compoundOpeners ++ [.semicolon, .keyword .letWord, .keyword .returnWord],
      kind? stream.tokens ≠ some kind) : stream.Expects stream.tokens := by
  have hstatement : Production.Calls stream.fault (.statements none, stream.tokens) (.statement, stream.tokens) := .here
  have hsimple : Production.Calls stream.fault (.statement, stream.tokens) (.simple, stream.tokens) := by
    refine .look ?_
    rw [if_neg (h _ (by decide)), if_neg (h _ (by decide)), if_neg (h _ (by decide)), if_neg (h _ (by decide)),
      if_neg (h _ (by decide)), if_neg (h _ (by decide))]
    exact .here
  have hwhole : Production.Calls stream.fault (.simple, stream.tokens) (.read .whole, stream.tokens) := by
    refine .look ?_
    rw [if_neg (h _ (by decide)), if_neg (h _ (by decide)), if_neg (h _ (by decide))]
    exact .here
  exact ⟨hsure, .head hstatement (.head hsimple (.single hwhole))⟩

/-- An expression that fails makes the program fail. -/
theorem Expects.ofStream_eq_error {f : ParseFault} (h : stream.Expects ts)
    (hf : plain (expression stream.fault ts) = .error f) : Program.ofStream stream = .error f := by
  have hread : plain (Parse.statements stream.fault none stream.tokens) = .error f := h.2.reading_eq_error hf
  rw [Program.ofStream_eq stream.tokens stream.fault h.1, hread]

theorem Assigns.exists_first (h : stream.Assigns es e o rest) : ∃ first more, es = first :: more := by
  refine List.exists_cons_of_ne_nil ?_
  rintro rfl
  have hread : Parse.read stream.fault (.level .or) (o :: rest) = .ok (e, o :: rest) := h.left
  exact Nat.lt_irrefl _ (read_shorter hread)

theorem Assigns.assignment?_eq (h : stream.Assigns es e o rest) : assignment? (o :: rest) = some o.kind := by
  rw [assignment?, kind?_cons, Option.filter_some, if_pos h.operator]

/-- Behind the operator of an assignment to a name another expression starts. -/
theorem Assigns.expects_rest {x : String} {op : AssignOp} (h : stream.Assigns es (.name x) o rest)
    (hop : AssignOp.ofText? o.text = some op) (hsure : Sure stream.fault rest) : stream.Expects rest := by
  have htaken : plain (expectAs stream.fault o.kind AssignOp.ofText? (o :: rest)) = .ok (op, rest) := by
    rw [expectAs_complete rfl hop, leave_of_sure _ hsure]
  have hcalls : Production.Calls stream.fault (.read .whole, es ++ o :: rest) (.read .whole, rest) :=
    whole_calls_value h.left h.assignment?_eq htaken rfl
  exact ⟨h.expected.1, h.expected.2.tail hcalls⟩

/-- Behind the operator the expression goes on with its target. -/
theorem Assigns.expression_eq {op : AssignOp} (h : stream.Assigns es e o rest) (hop : AssignOp.ofText? o.text = some op) :
    plain (expression stream.fault (es ++ o :: rest)) =
      andThen (leave stream.fault op rest) fun op rest =>
        match target (position es) e with
        | .error f => .error f
        | .ok name =>
          andThen (plain (expression stream.fault rest)) fun value rest => .ok (.assign op name value, rest) := by
  have hposition : position (es ++ o :: rest) = position es := by
    obtain ⟨first, more, rfl⟩ := h.exists_first
    rfl
  refine (read_whole _).trans ?_
  rw [show Parse.read stream.fault (.level .or) (es ++ o :: rest) = .ok (e, o :: rest) from h.left, andThen_ok,
    h.assignment?_eq]
  dsimp only
  rw [expectAs_complete rfl hop, hposition]
  rfl

/-- Where the tokens end behind the operator because the next one does not lex, that fault is the fault of the program. -/
theorem Assigns.eq_lex {op : AssignOp} (h : stream.Assigns es e o []) (hop : AssignOp.ofText? o.text = some op)
    {f : LexFault} (hf : stream.fault = some f) : Program.ofStream stream = .error (.lex f) := by
  refine h.expected.ofStream_eq_error ?_
  rw [h.expression_eq hop, hf]
  rfl

/-- Of anything but a name the first token is reported. -/
theorem Assigns.eq_badTarget {op : AssignOp} (h : stream.Assigns es e o rest) (hop : AssignOp.ofText? o.text = some op)
    (hsure : Sure stream.fault rest) (he : ∀ x, e ≠ .name x) :
    Program.ofStream stream = .error (.badTarget (position es)) := by
  refine h.expected.ofStream_eq_error ?_
  rw [h.expression_eq hop, leave_of_sure _ hsure, andThen_ok]
  cases e with
  | name x => exact absurd rfl (he x)
  | _ => rfl

/-- Of the ends of a list in which positions grow, no two start at one position. -/
theorem eq_of_position_eq {ts us vs : List Token} {t u : Token} (hts : ts.Pairwise fun t u => t.position.Before u.position)
    (hus : t :: us <:+ ts) (hvs : u :: vs <:+ ts) (h : t.position = u.position) : t :: us = u :: vs := by
  -- Of two ends of the list one is an end of the other; where it starts later, it starts at a later position.
  have hgrow : ∀ {t u : Token} {us vs : List Token}, u :: vs <:+ ts → t :: us <:+ u :: vs → t.position = u.position →
      t :: us = u :: vs := by
    intro t u us vs hvs hsuffix hposition
    rcases List.suffix_cons_iff.mp hsuffix with heq | hlater
    · exact heq
    · have hpairs := hts.sublist hvs.sublist
      have hbefore := List.rel_of_pairwise_cons hpairs (hlater.subset (List.mem_cons_self ..))
      rw [hposition] at hbefore
      exact absurd hbefore (Position.Before.irrefl _)
  rcases List.suffix_or_suffix_of_suffix hus hvs with hsuffix | hsuffix
  · exact hgrow hvs hsuffix h
  · exact (hgrow hus hsuffix h.symm).symm

/-- A fault about a target comes from an assignment whose left side is no name, and it names the first token of that side. -/
theorem exists_assigns_of_badTarget {p : Position} (h : Program.ofStream stream = .error (.badTarget p)) :
    ∃ first more e o rest, stream.Assigns (first :: more) e o rest ∧ Sure stream.fault rest ∧ (∀ x, e ≠ .name x) ∧
      first ∈ stream.tokens ∧ p = first.position := by
  have hsure : Sure stream.fault stream.tokens := by
    intro hnil
    obtain ⟨tokens, fault⟩ := stream
    cases fault with
    | none => rfl
    | some f =>
      rw [show tokens = [] from hnil] at h
      cases h
  rw [Program.ofStream_eq stream.tokens stream.fault hsure] at h
  have hread : (Production.statements none).reading stream.fault stream.tokens = .error (.badTarget p) := by
    split at h
    · cases h
    · next hf =>
      cases h
      exact hf
  obtain ⟨ts, e, o, rest, hreaches, hleft, hoperator, hrest, he, rfl⟩ := exists_reaches_of_badTarget _ _ hread
  obtain ⟨es, rfl, -, -⟩ := read_sound hleft
  have hassigns : stream.Assigns es e o rest := ⟨⟨hsure, hreaches⟩, hleft, hoperator⟩
  obtain ⟨first, more, rfl⟩ := hassigns.exists_first
  exact ⟨first, more, e, o, rest, hassigns, hrest, he, hreaches.suffix.subset (by simp), rfl⟩

end Stream

/-- Assignment targets. Wherever an expression starts and its left side is read in full with an assignment operator directly
behind it: if what comes behind the operator does not lex, that is the fault of the program; if the left side is not a name,
its first token is reported, whatever follows; and if it is a name, this operator is not reported and the expression goes on
behind it. Every report of a target arises in this way, at a token of the source. -/
theorem assignment_targets (source : String) :
    (∀ es e o rest, (Stream.ofSource source).Assigns es e o rest → ∃ first more, es = first :: more ∧
      (∀ f, rest = [] → (Stream.ofSource source).fault = some f → Program.parse source = .error (.lex f)) ∧
      (Parse.Sure (Stream.ofSource source).fault rest → (∀ x, e ≠ .name x) →
        Program.parse source = .error (.badTarget first.position)) ∧
      ∀ x, e = .name x → Program.parse source ≠ .error (.badTarget first.position) ∧
        ∃ op, AssignOp.ofText? o.text = some op ∧ (Parse.Sure (Stream.ofSource source).fault rest →
          Parse.plain (Parse.expression (Stream.ofSource source).fault (es ++ o :: rest)) =
            Parse.andThen (Parse.plain (Parse.expression (Stream.ofSource source).fault rest)) fun value rest =>
              .ok (.assign op x value, rest))) ∧
    ∀ p, Program.parse source = .error (.badTarget p) → ∃ first more e o rest,
      (Stream.ofSource source).Assigns (first :: more) e o rest ∧ Parse.Sure (Stream.ofSource source).fault rest ∧
      (∀ x, e ≠ .name x) ∧ first ∈ (Stream.ofSource source).tokens ∧ p = first.position := by
  refine ⟨fun es e o rest h => ?_, fun p => Stream.exists_assigns_of_badTarget⟩
  obtain ⟨first, more, rfl⟩ := h.exists_first
  have hmem : o ∈ (Stream.ofSource source).tokens := h.expected.suffix.subset (by simp)
  obtain ⟨op, hop⟩ := (Stream.genuine_of_mem o hmem).exists_assignOp rfl h.operator
  refine ⟨first, more, rfl, ?_, fun hsure he => h.eq_badTarget hop hsure he, ?_⟩
  · rintro f rfl hf
    exact h.eq_lex hop hf
  · rintro x rfl
    refine ⟨fun hbad => ?_, op, hop, fun hsure => ?_⟩
    · -- The report would come from another assignment at the same position, so at the same tokens: it is this one.
      obtain ⟨first', more', e', o', rest', h', -, he', -, hposition⟩ := Stream.exists_assigns_of_badTarget hbad
      have hsame : first :: more ++ o :: rest = first' :: more' ++ o' :: rest' :=
        Stream.eq_of_position_eq (Stream.ordered _ _).1 h.expected.suffix h'.expected.suffix hposition
      have hleft := h.left
      rw [hsame, h'.left] at hleft
      cases hleft
      exact he' x rfl
    · rw [h.expression_eq hop, Parse.leave_of_sure _ hsure]
      rfl

/-- A name in parentheses is assigned to, a negated one is not; and what does not lex behind an operator comes first. -/
theorem assignment_targets_negated : Program.parse "(a) = -b = 2" = .error (.badTarget ⟨1, 6⟩) ∧
    Program.parse "true = @" = .error (.lex ⟨'@', ⟨1, 7⟩⟩) ∧
    ∃ first ∈ (Stream.ofSource "(a) = -b = 2").tokens, ⟨1, 6⟩ = first.position := by
  have hstream : Stream.ofSource "(a) = -b = 2" = ⟨[⟨.leftParen, "(", ⟨1, 0⟩⟩, ⟨.name, "a", ⟨1, 1⟩⟩,
      ⟨.rightParen, ")", ⟨1, 2⟩⟩, ⟨.assign, "=", ⟨1, 4⟩⟩, ⟨.additive, "-", ⟨1, 6⟩⟩, ⟨.name, "b", ⟨1, 7⟩⟩,
      ⟨.assign, "=", ⟨1, 9⟩⟩, ⟨.number, "2", ⟨1, 11⟩⟩], none⟩ := by decide +kernel
  have houter : (Stream.ofSource "(a) = -b = 2").Assigns [⟨.leftParen, "(", ⟨1, 0⟩⟩, ⟨.name, "a", ⟨1, 1⟩⟩,
      ⟨.rightParen, ")", ⟨1, 2⟩⟩] (.name "a") ⟨.assign, "=", ⟨1, 4⟩⟩ [⟨.additive, "-", ⟨1, 6⟩⟩, ⟨.name, "b", ⟨1, 7⟩⟩,
      ⟨.assign, "=", ⟨1, 9⟩⟩, ⟨.number, "2", ⟨1, 11⟩⟩] := by
    rw [hstream]
    exact ⟨Stream.expects_tokens (fun _ => rfl) (by decide), by with_unfolding_all rfl, rfl⟩
  have hinner : (Stream.ofSource "(a) = -b = 2").Assigns [⟨.additive, "-", ⟨1, 6⟩⟩, ⟨.name, "b", ⟨1, 7⟩⟩]
      (.unary .minus (.name "b")) ⟨.assign, "=", ⟨1, 9⟩⟩ [⟨.number, "2", ⟨1, 11⟩⟩] := by
    refine ⟨houter.expects_rest rfl (fun h => by cases h), ?_, rfl⟩
    rw [hstream]
    with_unfolding_all rfl
  have hstuck : Stream.ofSource "true = @" =
      ⟨[⟨.keyword .trueWord, "true", ⟨1, 0⟩⟩, ⟨.assign, "=", ⟨1, 5⟩⟩], some ⟨'@', ⟨1, 7⟩⟩⟩ := by decide +kernel
  have hlex : (Stream.ofSource "true = @").Assigns [⟨.keyword .trueWord, "true", ⟨1, 0⟩⟩] (.bool true)
      ⟨.assign, "=", ⟨1, 5⟩⟩ [] := by
    rw [hstuck]
    exact ⟨Stream.expects_tokens (fun h => by cases h) (by decide), by with_unfolding_all rfl, rfl⟩
  obtain ⟨first, more, heq, -, hbad, -⟩ := (assignment_targets _).1 _ _ _ _ hinner
  cases heq
  have hparse := hbad (fun h => by cases h) fun x => Expr.noConfusion
  obtain ⟨-, -, -, hfault, -⟩ := (assignment_targets _).1 _ _ _ _ hlex
  obtain ⟨first, -, -, -, -, -, -, -, hmem, hposition⟩ := (assignment_targets _).2 _ hparse
  exact ⟨hparse, hfault _ rfl (by rw [hstuck]), first, hmem, hposition⟩

end Scriptlet
