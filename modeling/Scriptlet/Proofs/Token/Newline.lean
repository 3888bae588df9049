import Scriptlet.Proofs.Token.Stuck

/-!
# Line feeds between sources

A line feed behind a source separates it from any other source put behind: the tokens in front of the line feed are as they
were, and the other source is scanned as if it stood alone, only further down. There is one exception, and it is one for some
source that may follow. A comment opener that was read as operators goes on over the line feed to a closing mark behind it.
-/

namespace Scriptlet

/-! ## Positions -/

theorem Position.advance_line (p : Position) (cs : List Char) : (p.advance cs).line = p.line + cs.count '\n' := by
  induction cs generalizing p with
  | nil => rfl
  | cons c cs ih =>
    rw [advance_cons, ih]
    by_cases hc : c = '\n'
    · subst hc
      simp only [step, if_true, List.count_cons_self]
      omega
    · simp only [step, if_neg hc, List.count_cons_of_ne hc]

/-- Behind a text and a line feed a new line starts, as many lines further down as the text has line feeds and one more. -/
theorem Position.step_newline (cs : List Char) : (start.advance cs).step '\n' = start.down (1 + cs.count '\n') := by
  have hline := advance_line start cs
  simp only [step, if_true, down, start] at hline ⊢
  rw [hline]
  congr 1
  omega

/-! ## Openers that a later text closes -/

/-- A mark that is not found stands nowhere in the text. -/
theorem not_infix_of_cutAfter {mark cs : List Char} (hmark : mark ≠ []) (h : cutAfter mark cs = none) : ¬mark <:+: cs := by
  induction cs with
  | nil => simpa using hmark
  | cons c cs ih =>
    rw [cutAfter] at h
    split at h
    · cases h
    · next hm =>
      intro hinfix
      rcases List.infix_cons_iff.mp hinfix with hpre | hinfix
      · exact hm (List.isPrefixOf_iff_prefix.mpr hpre)
      · exact ih (Option.map_eq_none_iff.mp h) hinfix

/-- A text that only separates and a closing mark: the mark ends a comment that was opened in front of them and not closed. -/
theorem Lexeme.first?_closed {cs : List Char} (h : cutAfter ['*', '/'] cs = none) :
    ∃ chars, first? ('/' :: '*' :: (cs ++ ['\n', '*', '/'])) = some ⟨chars, [], none⟩ := by
  have hbody : ¬['*', '/'] <:+: cs ++ ['\n'] := by
    intro hinfix
    rcases List.infix_concat_iff.mp hinfix with hsuffix | hinfix
    · obtain ⟨front, hfront⟩ := hsuffix
      have hlast := congrArg List.getLast? hfront
      simp at hlast
    · exact not_infix_of_cutAfter (by decide) h hinfix
  have hcut := cutAfter_closing hbody []
  rw [List.append_assoc, List.singleton_append] at hcut
  exact ⟨'/' :: '*' :: (cs ++ ['\n', '*', '/']), by rw [first?_opener, hcut]⟩

namespace Stream

variable {cs : List Char} {p : Position} {ts : List Token}

/-- Only a text that starts with a slash and a star has operators of an opener in front. -/
theorem opener_of_tokens {x : Lexeme} {kind : TokenKind} {u : Token} (hx : Lexeme.first? cs = some x)
    (hu : (ofCursor ⟨x.rest, p.advance x.chars⟩).tokens.head? = some u)
    (h : Opener ⟨kind, .ofList x.chars, p⟩ u) : ['/', '*'] <+: cs := by
  obtain ⟨hslash, hstar, hposition⟩ := h
  have hchars : x.chars = ['/'] := by
    have := congrArg String.toList hslash
    simpa using this
  obtain ⟨happ, -⟩ := Lexeme.first?_append hx
  rw [hchars] at happ hu
  -- A blank or a comment behind the slash would move the next token further on.
  have hnext : ∀ y, Lexeme.first? x.rest = some y → y.tokenKind? ≠ none := by
    intro y hy hskip
    rw [ofCursor_skip hy hskip] at hu
    have hbefore := Position.before_advance (Lexeme.first?_append hy).2 (p.advance ['/'])
    have hlater := (before_of_before hbefore y.rest).1 u (List.mem_of_mem_head? hu)
    rw [hposition] at hlater
    exact Position.Before.irrefl _ hlater
  cases hrest : x.rest with
  | nil =>
    rw [hrest, ofCursor_nil] at hu
    cases hu
  | cons d ds =>
    cases hy : Lexeme.first? (d :: ds) with
    | none =>
      rw [hrest, ofCursor_stuck hy] at hu
      cases hu
    | some y =>
      cases hk : y.tokenKind? with
      | none => exact absurd hk (hnext y (hrest ▸ hy))
      | some kind' =>
        rw [hrest, ofCursor_token hy hk] at hu
        cases hu
        rw [String.toList_ofList] at hstar
        obtain ⟨more, hmore⟩ := List.head?_eq_some_iff.mp hstar
        have hfront := (Lexeme.first?_append hy).1
        rw [hmore, List.cons_append] at hfront
        obtain ⟨rfl, -⟩ := List.cons.inj hfront
        rw [← happ, hrest]
        exact ⟨ds, rfl⟩

/-- A text with an opener read as operators has no more tokens when a line feed and a closing mark are put behind it. -/
theorem length_tokens_closed (h : ofCursor ⟨cs, p⟩ = ⟨ts, none⟩) (hopen : ¬ts.IsChain fun t u => ¬Opener t u) :
    (ofCursor ⟨cs ++ ['\n', '*', '/'], p⟩).tokens.length ≤ ts.length := by
  induction cs using scan_induction generalizing p ts with
  | nil =>
    rw [ofCursor_nil] at h
    cases h
    exact absurd .nil hopen
  | stuck c cs hstuck =>
    rw [ofCursor_stuck hstuck] at h
    cases h
  | token cs x kind hx hk ih =>
    rw [ofCursor_token hx hk] at h
    obtain ⟨us, rfl, hus⟩ := cons_eq h
    by_cases hstar : ['/', '*'] <+: cs
    · obtain ⟨ds, rfl⟩ := hstar
      have hnone : cutAfter ['*', '/'] ds = none := by
        cases hcut : cutAfter ['*', '/'] ds with
        | none => rfl
        | some cut =>
          have hopener := Lexeme.first?_opener ds
          rw [hcut] at hopener
          cases hx.symm.trans hopener
          cases hk
      obtain ⟨chars, hclosed⟩ := Lexeme.first?_closed hnone
      have htext : ['/', '*'] ++ ds ++ ['\n', '*', '/'] = '/' :: '*' :: (ds ++ ['\n', '*', '/']) := rfl
      rw [htext, ofCursor_skip hclosed rfl, ofCursor_nil]
      exact Nat.zero_le _
    · have hrest : ¬us.IsChain fun t u => ¬Opener t u := by
        intro hchain
        refine hopen (List.isChain_cons.mpr ⟨fun u hu hopener => hstar ?_, hchain⟩)
        exact opener_of_tokens hx (by rwa [hus]) hopener
      rw [ofCursor_token (Lexeme.first?_append_blank hx (Lexeme.kind_ne_none hk) hstar rfl) hk]
      exact Nat.succ_le_succ (ih hus hrest)
  | skip cs x hx hk ih =>
    rw [ofCursor_skip hx hk] at h
    rw [ofCursor_skip_newline hx hk]
    exact ih h hopen

/-! ## Sources -/

/-- The tokens of a source that is scanned to its end, a line feed and another source. -/
theorem ofSource_newline {s₁ : String} {ts : List Token} (h : ofSource s₁ = ⟨ts, none⟩)
    (hopen : ts.IsChain fun t u => ¬Opener t u) (s₂ : String) :
    ofSource (s₁ ++ "\n" ++ s₂) = ((ofSource s₂).moved (Position.down (1 + s₁.toList.count '\n'))).prepend ts := by
  have htext : (s₁ ++ "\n" ++ s₂).toList = s₁.toList ++ '\n' :: s₂.toList := by simp
  rw [ofSource, Cursor.ofSource, htext, ofCursor_newline h hopen, Position.step_newline, ofCursor_down]
  rfl

end Stream

/-- A source that tokenizes, a line feed and a second source: the tokens of the first, then those of the second as many lines
further down as the first source takes; and if the second does not tokenize, its fault as far down. This holds of every second
source exactly when no slash of the first stands directly in front of a token that starts with a star. -/
theorem tokenize_append_newline (s₁ : String) (ts : List Token) (h : tokenize s₁ = .ok ts) :
    (ts.IsChain fun t u => ¬Stream.Opener t u) ↔ ∀ s₂ : String,
      (∀ us, tokenize s₂ = .ok us →
        tokenize (s₁ ++ "\n" ++ s₂) = .ok (ts ++ us.map (Token.moved (Position.down (1 + s₁.toList.count '\n'))))) ∧
      ∀ e, tokenize s₂ = .error e →
        tokenize (s₁ ++ "\n" ++ s₂) = .error (e.moved (Position.down (1 + s₁.toList.count '\n'))) := by
  have hstream := Stream.ofSource_eq_of_tokenize h
  constructor
  · intro hopen s₂
    have hjoined := Stream.ofSource_newline hstream hopen s₂
    refine ⟨fun us hus => ?_, fun e he => ?_⟩
    · rw [Stream.ofSource_eq_of_tokenize hus] at hjoined
      exact tokenize_of_ofSource_eq hjoined
    · rw [tokenize_eq_error_iff, hjoined, Stream.prepend, Stream.moved, Stream.fault_of_tokenize he]
      rfl
  · intro hall
    by_contra hopen
    -- A closing mark is two tokens by itself, and none behind an opener that it closes.
    have hmark : tokenize "*/" = .ok [⟨.multiplicative, "*", ⟨1, 0⟩⟩, ⟨.multiplicative, "/", ⟨1, 1⟩⟩] := by decide +kernel
    have hjoined := Stream.ofSource_eq_of_tokenize ((hall "*/").1 _ hmark)
    have htext : (s₁ ++ "\n" ++ "*/").toList = s₁.toList ++ ['\n', '*', '/'] := by simp
    have hlength := Stream.length_tokens_closed hstream hopen
    rw [← htext] at hlength
    have hlater := congrArg (fun stream => stream.tokens.length) hjoined
    simp only [List.length_append, List.length_map, List.length_cons, List.length_nil] at hlater
    have : (Stream.ofSource (s₁ ++ "\n" ++ "*/")).tokens.length ≤ ts.length := hlength
    omega

/-- A slash in front of a line comment with a star, then a source with a string over two lines or with a fault. -/
theorem tokenize_append_newline_slash :
    tokenize ("a / // *" ++ "\n" ++ "'\n' b") = .ok [⟨.name, "a", ⟨1, 0⟩⟩, ⟨.multiplicative, "/", ⟨1, 2⟩⟩,
      ⟨.text, "'\n'", ⟨2, 0⟩⟩, ⟨.name, "b", ⟨3, 2⟩⟩] ∧
    tokenize ("a / // *" ++ "\n" ++ "* / |") = .error ⟨'|', ⟨2, 4⟩⟩ := by
  have h : tokenize "a / // *" = .ok [⟨.name, "a", ⟨1, 0⟩⟩, ⟨.multiplicative, "/", ⟨1, 2⟩⟩] := by decide +kernel
  have hopen : [(⟨.name, "a", ⟨1, 0⟩⟩ : Token), ⟨.multiplicative, "/", ⟨1, 2⟩⟩].IsChain fun t u => ¬Stream.Opener t u :=
    List.isChain_cons_cons.mpr ⟨fun hopener => absurd hopener.1 (by decide), List.isChain_singleton _⟩
  have hus : tokenize "'\n' b" = .ok [⟨.text, "'\n'", ⟨1, 0⟩⟩, ⟨.name, "b", ⟨2, 2⟩⟩] := by decide +kernel
  have he : tokenize "* / |" = .error ⟨'|', ⟨1, 4⟩⟩ := by decide +kernel
  exact ⟨((tokenize_append_newline _ _ h).mp hopen _).1 _ hus, ((tokenize_append_newline _ _ h).mp hopen _).2 _ he⟩

end Scriptlet
