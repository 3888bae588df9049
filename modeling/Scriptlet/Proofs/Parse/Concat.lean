import Scriptlet.Proofs.Grammar.Agreement
import Scriptlet.Proofs.Grammar.Follow
import Scriptlet.Proofs.Parse.Moved
import Scriptlet.Proofs.Token.Newline

/-!
# Sources one after the other

A source that is a program, a line feed and another source: the second source is read as if it stood alone, only further
down. So two programs make up one program, and a fault of the second source is the fault of the whole.
-/

namespace Scriptlet

/-! ## Tokens -/

/-- A slash is an operator of the strongest level. -/
theorem Token.Genuine.kind_slash {t : Token} (h : t.Genuine) (ht : t.text = "/") : t.kind = .multiplicative := by
  have hsigns : ∀ sign ∈ signs, sign.2 = "/" → sign.1 = .multiplicative := by decide
  exact hsigns _ (h.mem_signs (c := '/') (by rw [ht]; rfl) (by decide) (by decide)) ht

/-- A token that starts with a star is an operator of the strongest level or a combined assignment sign. -/
theorem Token.Genuine.kind_star {t : Token} (h : t.Genuine) (ht : t.text.toList.head? = some '*') :
    t.kind = .multiplicative ∨ t.kind = .compoundAssign := by
  have hsigns : ∀ sign ∈ signs, sign.2.toList.head? = some '*' → sign.1 = .multiplicative ∨ sign.1 = .compoundAssign := by
    decide
  exact hsigns _ (h.mem_signs ht (by decide) (by decide)) ht

/-- In the tokens of a program no comment opener was read as operators. -/
theorem Program.Derives.no_opener {ts : List Token} {p : Program} (h : p.Derives ts) (hts : ∀ t ∈ ts, t.Genuine) :
    ts.IsChain fun t u => ¬Stream.Opener t u := by
  refine h.2.clean.inside.imp_of_mem_imp fun t u ht hu hclash hopener => hclash ⟨?_, ?_⟩
  · exact (hts t ht).kind_slash hopener.1
  · exact (hts u hu).kind_star hopener.2.1

/-! ## Programs -/

namespace Program

/-- Behind the tokens of a program any other tokens are read as if they stood alone, unless an `else` is the first of them.
-/
theorem ofStream_prepend {ts : List Token} {p : Program} (h : p.Derives ts) {stream : Stream} (hne : stream ≠ ⟨[], none⟩)
    (helse : Parse.kind? stream.tokens ≠ some (.keyword .elseWord)) :
    ofStream (stream.prepend ts) = (ofStream stream).map fun q => ⟨p.body ++ q.body⟩ := by
  obtain ⟨us, fault⟩ := stream
  have hts : ts ≠ [] := by
    obtain ⟨t, ts, rfl, -⟩ := h.2.opens h.1
    exact List.cons_ne_nil _ _
  have htakes := (h.2.inFrontOf helse).takes h.1 fault none us (.inl rfl) rfl
  rw [Stream.prepend, ofStream_eq _ _ (by simp [hts]), htakes]
  cases us with
  | nil =>
    cases fault with
    | none => exact absurd rfl hne
    | some e => rfl
  | cons u us =>
    rw [ofStream_eq (u :: us) fault fun hnil => absurd hnil (List.cons_ne_nil u us), Parse.leave_cons, Parse.andThen_ok, if_neg (by simp)]
    cases Parse.plain (Parse.statements fault none (u :: us)) <;> rfl

/-- A program, a line feed and a second source with tokens of its own are read as the second source alone, with the
statements of the program in front and all positions further down. -/
theorem parse_append_newline_eq {s₁ s₂ : String} {p₁ : Program} (h : parse s₁ = .ok p₁)
    (hne : Stream.ofSource s₂ ≠ ⟨[], none⟩)
    (helse : Parse.kind? (Stream.ofSource s₂).tokens ≠ some (.keyword .elseWord)) :
    parse (s₁ ++ "\n" ++ s₂) =
      ((parse s₂).mapError (ParseFault.moved (Position.down (1 + s₁.toList.count '\n')))).map
        fun q => ⟨p₁.body ++ q.body⟩ := by
  obtain ⟨ts, hts, hderives⟩ := derives_of_parse h
  have hopen := hderives.no_opener (Stream.genuine_of_ofSource hts)
  have hne' : (Stream.ofSource s₂).moved (Position.down (1 + s₁.toList.count '\n')) ≠ ⟨[], none⟩ := by
    intro heq
    have htokens := congrArg Stream.tokens heq
    have hfault := congrArg Stream.fault heq
    simp only [Stream.moved, List.map_eq_nil_iff, Option.map_eq_none_iff] at htokens hfault
    exact hne (by rw [← htokens, ← hfault])
  rw [parse, Stream.ofSource_newline hts hopen, ofStream_prepend hderives hne' (by simpa [Stream.moved] using helse),
    ofStream_moved]
  rfl

/-- A program, a line feed and a second source: the statements of a second program follow those of the first, and a fault of
the second source that has tokens of its own is the fault of the whole, as many lines further down as the first source takes.
-/
theorem parse_append_newline (s₁ s₂ : String) (p₁ : Program) (h : parse s₁ = .ok p₁) :
    (∀ p₂ : Program, parse s₂ = .ok p₂ → parse (s₁ ++ "\n" ++ s₂) = .ok ⟨p₁.body ++ p₂.body⟩) ∧
    ∀ e : ParseFault, parse s₂ = .error e → tokenize s₂ ≠ .ok [] →
      (∀ t ∈ (Stream.ofSource s₂).tokens.head?, t.kind ≠ .keyword .elseWord) →
      parse (s₁ ++ "\n" ++ s₂) = .error (e.moved (Position.down (1 + s₁.toList.count '\n'))) := by
  constructor
  · intro p₂ h₂
    obtain ⟨us, hus, hderives⟩ := derives_of_parse h₂
    rw [parse_append_newline_eq h, h₂]
    · rfl
    · intro heq
      rw [hus] at heq
      cases heq
      obtain ⟨t, ts, hnil, -⟩ := hderives.2.opens hderives.1
      cases hnil
    · rw [hus]
      exact hderives.2.kind?_ne_else
  · intro e he hne helse
    rw [parse_append_newline_eq h, he]
    · rfl
    · exact fun heq => hne (tokenize_of_ofSource_eq heq)
    · intro heq
      obtain ⟨t, ht, hk⟩ := Option.map_eq_some_iff.mp heq
      exact helse t ht hk

/-- A comment and an `if` without `else` at the end of the first source, and a fault on the second line of the second one. -/
theorem parse_append_newline_open_if :
    parse ("if (a) b; // c" ++ "\n" ++ "d;") =
      .ok ⟨[.ifThen (.name "a") (.eval (.name "b")), .eval (.name "d")]⟩ ∧
    parse ("if (a) b; // c" ++ "\n" ++ "d;\n )") = .error (.unexpected ")" .name ⟨3, 1⟩) := by
  have h₁ : parse "if (a) b; // c" = .ok ⟨[.ifThen (.name "a") (.eval (.name "b"))]⟩ := by with_unfolding_all rfl
  have h₂ : parse "d;" = .ok ⟨[.eval (.name "d")]⟩ := by with_unfolding_all rfl
  have he : parse "d;\n )" = .error (.unexpected ")" .name ⟨2, 1⟩) := by with_unfolding_all rfl
  refine ⟨(parse_append_newline _ _ _ h₁).1 _ h₂, (parse_append_newline _ _ _ h₁).2 _ he ?_ ?_⟩
  · intro hnil
    have := Stream.ofSource_eq_of_tokenize hnil
    revert this
    decide +kernel
  · decide +kernel

end Program

end Scriptlet
