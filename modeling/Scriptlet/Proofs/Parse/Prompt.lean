import Scriptlet.Proofs.Grammar.Follow
import Scriptlet.Proofs.Token.Genuine

/-!
# Prompt productions

A production is prompt when it does not look further than the token behind what it takes, and fails at the first token that
cannot be right. In front of such a token it has read the start of a phrase, and the kind that it names in its fault is one
with which the phrase can go on. Promptness is kept by sequences and choices, so each production gets it from its parts.
-/

namespace Scriptlet

namespace Parse

variable {α β : Type}

/-! ## Definitions -/

/-- A phrase that starts with `pre` can go on with any token of a kind. -/
def Admits (Phrase : List Token → α → Prop) (pre : List Token) (kind : TokenKind) : Prop :=
  ∀ t : Token, t.Genuine → t.kind = kind → ∃ more a, (∀ u ∈ more, u.Genuine) ∧ Phrase (pre ++ t :: more) a

/-- What a prompt production may give for a list of tokens. It takes tokens and would take the same ones with the same token
behind them, whatever follows. Or it fails at a token and would fail there whatever follows, where a phrase can go on with
the kind that is named. Or it comes to the end of tokens that were not cut short, where a phrase can go on with the kind that
is named. -/
def Decided (P : Option LexFault → List Token → Reading α) (Phrase : List Token → α → Prop) (stop : Option LexFault)
    (ts : List Token) : Reading α → Prop
  | .ok (a, rest) => ∃ taken, ts = taken ++ rest ∧ (Sure stop ts → Sure stop rest) ∧
    ∀ t more, rest = t :: more → ∀ stop' more', P stop' (taken ++ t :: more') = .ok (a, t :: more')
  | .error (.unexpected found expected position) => ∃ pre t more, ts = pre ++ t :: more ∧
    t.text = found ∧ t.position = position ∧ t.kind ≠ expected ∧ Admits Phrase pre expected ∧
    ∀ stop' more', P stop' (pre ++ t :: more') = .error (.unexpected found expected position)
  | .error (.endOfInput expected) => (Sure stop ts → stop = none) ∧ Admits Phrase ts expected
  | .error _ => True

/-- A production is prompt on a list of tokens that can stand in a source. -/
def Prompt (P : Option LexFault → List Token → Reading α) (Phrase : List Token → α → Prop) (ts : List Token) : Prop :=
  (∀ t ∈ ts, t.Genuine) → ∀ stop, Decided P Phrase stop ts (P stop ts)

variable {P : Option LexFault → List Token → Reading α} {Phrase : List Token → α → Prop} {ts : List Token}

/-! ## Choices -/

/-- Only the first token decides between productions. -/
theorem Prompt.congr {P' : Option LexFault → List Token → Reading α}
    (h : ∀ stop us, us.head? = ts.head? → P stop us = P' stop us) (hP : Prompt P' Phrase ts) : Prompt P Phrase ts := by
  intro hts stop
  have := hP hts stop
  rw [h stop ts rfl]
  match hr : P' stop ts with
  | .ok (a, rest) =>
    rw [hr] at this
    obtain ⟨taken, rfl, hsure, hlocal⟩ := this
    refine ⟨taken, rfl, hsure, fun t more hrest stop' more' => ?_⟩
    rw [h stop' _ (by cases taken <;> simp [hrest])]
    exact hlocal t more hrest stop' more'
  | .error (.unexpected found expected position) =>
    rw [hr] at this
    obtain ⟨pre, t, more, rfl, htext, hposition, hk, hadmits, hlocal⟩ := this
    refine ⟨pre, t, more, rfl, htext, hposition, hk, hadmits, fun stop' more' => ?_⟩
    rw [h stop' _ (by cases pre <;> simp)]
    exact hlocal stop' more'
  | .error (.endOfInput expected) =>
    rw [hr] at this
    exact this
  | .error (.lex fault) => trivial
  | .error (.badTarget position) => trivial

/-- Every phrase of the first sort is the start of one of the second sort. -/
def Starts (Phrase : List Token → α → Prop) (Phrase' : List Token → β → Prop) : Prop :=
  ∀ us a, Phrase us a → ∃ more b, (∀ u ∈ more, u.Genuine) ∧ Phrase' (us ++ more) b

/-- Every phrase of the first sort is one of the second sort by itself. -/
theorem starts_of_forall {Phrase' : List Token → β → Prop} (h : ∀ us a, Phrase us a → ∃ b, Phrase' us b) :
    Starts Phrase Phrase' := by
  intro us a ha
  obtain ⟨b, hb⟩ := h us a ha
  exact ⟨[], b, List.forall_mem_nil _, by rwa [List.append_nil]⟩

theorem Admits.starts {Phrase' : List Token → β → Prop} {pre : List Token} {kind : TokenKind} (h : Admits Phrase pre kind)
    (hstarts : Starts Phrase Phrase') : Admits Phrase' pre kind := by
  intro t ht hk
  obtain ⟨more, a, hmore, hphrase⟩ := h t ht hk
  obtain ⟨more', b, hmore', hphrase'⟩ := hstarts _ a hphrase
  refine ⟨more ++ more', b, ?_, by simpa using hphrase'⟩
  intro u hu
  exact (List.mem_append.mp hu).elim (hmore u) (hmore' u)

/-- A production is prompt for every sort of phrase that starts with its own. -/
theorem Prompt.starts {Phrase' : List Token → α → Prop} (h : Prompt P Phrase ts) (hstarts : Starts Phrase Phrase') :
    Prompt P Phrase' ts := by
  intro hts stop
  have := h hts stop
  match hr : P stop ts with
  | .ok (a, rest) => rwa [hr] at this
  | .error (.unexpected found expected position) =>
    rw [hr] at this
    obtain ⟨pre, t, more, hpre, htext, hposition, hk, hadmits, hlocal⟩ := this
    exact ⟨pre, t, more, hpre, htext, hposition, hk, hadmits.starts hstarts, hlocal⟩
  | .error (.endOfInput expected) =>
    rw [hr] at this
    exact ⟨this.1, this.2.starts hstarts⟩
  | .error (.lex fault) => trivial
  | .error (.badTarget position) => trivial

/-- Where the sort of phrase asks for nothing more, nothing is taken. -/
theorem prompt_pure (a : α) : Prompt (fun _ us => .ok (a, us)) Phrase ts :=
  fun _ _ => ⟨[], rfl, id, fun _ _ _ _ _ => rfl⟩

/-! ## Sequences -/

/-- Two lists with the same token behind the same start have the same first token. -/
theorem append_cons_eq_cons (pre : List Token) (t : Token) (more more' : List Token) :
    ∃ u us us', pre ++ t :: more = u :: us ∧ pre ++ t :: more' = u :: us' := by
  cases pre with
  | nil => exact ⟨t, more, more', rfl, rfl⟩
  | cons u pre => exact ⟨u, pre ++ t :: more, pre ++ t :: more', rfl, rfl⟩

theorem Admits.behind {taken rest : List Token} {kind : TokenKind}
    (h : Admits (fun us a => Phrase (taken ++ us) a) rest kind) : Admits Phrase (taken ++ rest) kind := by
  intro t ht hk
  obtain ⟨more, a, hmore, hphrase⟩ := h t ht hk
  exact ⟨more, a, hmore, by rwa [List.append_assoc]⟩

/-- A sequence is prompt when its first part is, the phrases of the first part are starts of phrases of the whole, and the
second part is prompt behind what the first part takes. -/
theorem Prompt.seq {R : α → Option LexFault → List Token → Reading β} {Whole : List Token → β → Prop}
    (hP : Prompt P Phrase ts) (hstarts : Starts Phrase Whole)
    (hR : ∀ stop a taken rest, ts = taken ++ rest → P stop ts = .ok (a, rest) →
      Prompt (R a) (fun us b => Whole (taken ++ us) b) rest) :
    Prompt (fun stop us => andThen (P stop us) fun a rest => R a stop rest) Whole ts := by
  intro hts stop
  have hdecided := hP hts stop
  dsimp only
  match hr : P stop ts with
  | .ok (a, rest) =>
    rw [hr] at hdecided
    obtain ⟨taken, rfl, hsure, hlocal⟩ := hdecided
    have hsecond := hR stop a taken rest rfl hr (fun t ht => hts t (by simp [ht])) stop
    -- What the first part takes does not depend on what stands behind the next token.
    have hfirst : ∀ pre t more stop' more', rest = pre ++ t :: more →
        P stop' (taken ++ (pre ++ t :: more')) = .ok (a, pre ++ t :: more') := by
      intro pre t more stop' more' hrest
      obtain ⟨u, us, us', hu, hu'⟩ := append_cons_eq_cons pre t more more'
      rw [hu']
      exact hlocal u us (hrest.trans hu) stop' us'
    rw [andThen_ok]
    match hr' : R a stop rest with
    | .ok (b, rest') =>
      rw [hr'] at hsecond
      obtain ⟨taken', hrest, hsure', hlocal'⟩ := hsecond
      refine ⟨taken ++ taken', by rw [hrest, List.append_assoc], fun h => hsure' (hsure h), ?_⟩
      intro t more hrest' stop' more'
      dsimp only
      rw [List.append_assoc, hfirst taken' t more stop' more' (by rw [hrest, hrest']), andThen_ok]
      exact hlocal' t more hrest' stop' more'
    | .error (.unexpected found expected position) =>
      rw [hr'] at hsecond
      obtain ⟨pre, t, more, hrest, htext, hposition, hk, hadmits, hlocal'⟩ := hsecond
      refine ⟨taken ++ pre, t, more, by rw [hrest, List.append_assoc], htext, hposition, hk, hadmits.behind, ?_⟩
      intro stop' more'
      dsimp only
      rw [List.append_assoc, hfirst pre t more stop' more' hrest, andThen_ok]
      exact hlocal' stop' more'
    | .error (.endOfInput expected) =>
      rw [hr'] at hsecond
      exact ⟨fun h => hsecond.1 (hsure h), hsecond.2.behind⟩
    | .error (.lex fault) => trivial
    | .error (.badTarget position) => trivial
  | .error (.unexpected found expected position) =>
    rw [hr] at hdecided
    obtain ⟨pre, t, more, hpre, htext, hposition, hk, hadmits, hlocal⟩ := hdecided
    refine ⟨pre, t, more, hpre, htext, hposition, hk, hadmits.starts hstarts, fun stop' more' => ?_⟩
    dsimp only
    rw [hlocal stop' more', andThen_error]
  | .error (.endOfInput expected) =>
    rw [hr] at hdecided
    exact ⟨hdecided.1, hdecided.2.starts hstarts⟩
  | .error (.lex fault) => trivial
  | .error (.badTarget position) => trivial

/-- What was taken is a phrase. -/
theorem Took.phrase {stop : Option LexFault} {a : α} {taken rest : List Token} (h : Took Phrase stop ts a rest)
    (hts : ts = taken ++ rest) : Phrase taken a := by
  obtain ⟨taken', hts', hphrase, -⟩ := h
  rwa [List.append_cancel_right (hts.symm.trans hts')]

/-! ## Single tokens -/

/-- A single token of a kind. -/
def IsToken (kind : TokenKind) (us : List Token) (t : Token) : Prop := us = [t] ∧ t.kind = kind

/-- A token that is known to be there is taken. As this does not fail, nothing has to be known of phrases. -/
theorem prompt_known {kind : TokenKind} (hkind : kind? ts = some kind) :
    Prompt (fun stop us => plain (expect stop kind us)) (fun _ _ => False) ts := by
  intro hts stop
  dsimp only
  cases ts with
  | nil => cases hkind
  | cons t rest =>
    have hk : t.kind = kind := Option.some.inj hkind
    rw [plain_expect_cons, if_pos hk]
    cases rest with
    | nil =>
      cases stop with
      | none => exact ⟨[t], rfl, fun _ _ => rfl, nofun⟩
      | some fault => trivial
    | cons u rest =>
      rw [leave_cons]
      refine ⟨[t], rfl, fun _ => nofun, ?_⟩
      rintro v more ⟨⟩ stop' more'
      dsimp only
      rw [List.singleton_append, plain_expect_cons, if_pos hk, leave_cons]

theorem prompt_expect (kind : TokenKind) (ts : List Token) :
    Prompt (fun stop us => plain (expect stop kind us)) (IsToken kind) ts := by
  by_cases hkind : kind? ts = some kind
  · exact (prompt_known hkind).starts fun _ _ => False.elim
  intro hts stop
  have hadmits : Admits (IsToken kind) [] kind := fun t ht hk => ⟨[], t, List.forall_mem_nil _, rfl, hk⟩
  dsimp only
  cases ts with
  | nil => exact ⟨fun h => h rfl, hadmits⟩
  | cons t rest =>
    have hk : ¬t.kind = kind := fun hk => hkind (congrArg some hk)
    rw [plain_expect_cons, if_neg hk]
    refine ⟨[], t, rest, rfl, rfl, rfl, hk, hadmits, fun stop' more' => ?_⟩
    dsimp only
    rw [List.nil_append, plain_expect_cons, if_neg hk]

section

variable {kind : TokenKind} {R : Token → Option LexFault → List Token → Reading β} {Whole : List Token → β → Prop}

/-- A sequence that starts with a token that is known to be there. -/
theorem Prompt.known (hkind : kind? ts = some kind)
    (hR : ∀ t rest, ts = t :: rest → t.kind = kind → Prompt (R t) (fun us b => Whole (t :: us) b) rest) :
    Prompt (fun stop us => andThen (plain (expect stop kind us)) fun t rest => R t stop rest) Whole ts := by
  refine (prompt_known hkind).seq (fun _ _ => False.elim) ?_
  intro stop t taken rest hts ht
  obtain ⟨hts', hk, -⟩ := expect_sound ht
  obtain rfl : taken = [t] := List.append_cancel_right (hts.symm.trans hts')
  exact hR t rest hts hk

/-- A sequence that starts with a single token. -/
theorem Prompt.token (hstarts : ∀ t : Token, t.kind = kind → ∃ more b, (∀ u ∈ more, u.Genuine) ∧ Whole (t :: more) b)
    (hR : ∀ t rest, ts = t :: rest → t.kind = kind → Prompt (R t) (fun us b => Whole (t :: us) b) rest) :
    Prompt (fun stop us => andThen (plain (expect stop kind us)) fun t rest => R t stop rest) Whole ts := by
  refine (prompt_expect kind ts).seq ?_ fun stop t taken rest hts ht => ?_
  · rintro us t ⟨rfl, hk⟩
    exact hstarts t hk
  · obtain ⟨hts', hk, -⟩ := expect_sound ht
    obtain rfl : taken = [t] := List.append_cancel_right (hts.symm.trans hts')
    exact hR t rest hts hk

end

/-- A token that is known to be there and whose text means something. -/
theorem prompt_knownAs {kind : TokenKind} {read : String → Option α} (hkind : kind? ts = some kind)
    (hread : ∀ t : Token, t.Genuine → t.kind = kind → ∃ a, read t.text = some a) :
    Prompt (fun stop us => plain (expectAs stop kind read us)) (fun _ _ => False) ts := by
  intro hts
  refine Prompt.congr (fun stop us _ => plain_expectAs kind read us) (Prompt.known hkind fun t rest hrest hk => ?_) hts
  obtain ⟨a, ha⟩ := hread t (hts t (by simp [hrest])) hk
  simp only [ha]
  exact prompt_pure a

/-- A sequence that starts with such a token. -/
theorem Prompt.knownAs {kind : TokenKind} {read : String → Option α} {R : α → Option LexFault → List Token → Reading β}
    {Whole : List Token → β → Prop} (hkind : kind? ts = some kind)
    (hread : ∀ t : Token, t.Genuine → t.kind = kind → ∃ a, read t.text = some a)
    (hR : ∀ t a rest, ts = t :: rest → t.kind = kind → read t.text = some a →
      Prompt (R a) (fun us b => Whole (t :: us) b) rest) :
    Prompt (fun stop us => andThen (plain (expectAs stop kind read us)) fun a rest => R a stop rest) Whole ts := by
  refine (prompt_knownAs hkind hread).seq (fun _ _ => False.elim) ?_
  intro stop a taken rest hts ha
  obtain ⟨t, hts', hk, hread', -⟩ := expectAs_sound ha
  obtain rfl : taken = [t] := List.append_cancel_right (hts.symm.trans hts')
  exact hR t a rest hts hk hread'

/-- A name. -/
theorem prompt_name (ts : List Token) : Prompt (fun stop us => plain (name stop us)) Parameter ts := by
  refine Prompt.congr (fun stop us _ => plain_expectAs .name some us) (Prompt.token (fun t hk => ?_) fun t rest _ _ => ?_)
  · exact ⟨[], t.text, List.forall_mem_nil _, .name hk⟩
  · exact prompt_pure t.text

end Parse

end Scriptlet
