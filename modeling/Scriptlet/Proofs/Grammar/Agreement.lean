import Scriptlet.Proofs.Grammar.Complete
import Scriptlet.Proofs.Token.Genuine

/-!
# Reading agrees with the grammar

The program that a source is read as is the program that its tokens derive, and no list of tokens derives two programs.
-/

namespace Scriptlet

/-- A sign that is spelled like an operator and has the kind of a row is one of the operators of the row. -/
theorem Infix.mem_operators_of_mem_signs (op : Infix) : ∀ sign ∈ signs, ∀ row ∈ Level.rows, sign.1 = row.kind →
    sign.2 = op.text → op ∈ row.operators := by
  cases op with
  | logical op => cases op <;> decide +kernel
  | binary op => cases op <;> decide +kernel

/-- In a source the operators of a level are the tokens of its kind that are spelled like one of the operators that the table
lists for the level. -/
theorem Level.joins_iff_of_genuine {level : Level} {t : Token} {op : Infix} (ht : t.Genuine) : level.Joins t op ↔
    ∃ row ∈ rows, row.level = level ∧ t.kind = row.kind ∧ op ∈ row.operators ∧ t.text = op.text := by
  constructor
  · rintro ⟨row, hrow, hlevel, hk, htext, -⟩
    have hsign : t.kind.isSign = true := by
      have hall : ∀ row ∈ rows, row.kind.isSign = true := by decide
      rw [hk]
      exact hall row hrow
    have hmem := op.mem_operators_of_mem_signs _ (ht.mem_signs_of_isSign hsign) row hrow hk htext
    exact ⟨row, hrow, hlevel, hk, hmem, htext⟩
  · rintro ⟨row, hrow, hlevel, hk, hmem, htext⟩
    exact ⟨row, hrow, hlevel, hk, htext, op, hmem, rfl⟩

namespace Program

/-- A stream is read as a program exactly when it was not cut short and its tokens derive the program. -/
theorem ofStream_eq_ok_iff (stream : Stream) (p : Program) :
    ofStream stream = .ok p ↔ stream.fault = none ∧ p.Derives stream.tokens := by
  obtain ⟨ts, fault⟩ := stream
  constructor
  · intro h
    have hsure : Parse.Sure fault ts := by
      rintro rfl
      cases fault with
      | none => rfl
      | some e => cases h
    rw [ofStream_eq ts fault hsure] at h
    split at h
    · next body rest hread =>
      cases h
      obtain ⟨⟨us, rfl, hus, hsure'⟩, hne, hend⟩ := Parse.statements_sound hread
      have hrest : rest = [] := by
        cases rest with
        | nil => rfl
        | cons t rest => simp at hend
      subst hrest
      rw [List.append_nil] at hsure ⊢
      exact ⟨hsure' (by rwa [List.append_nil]) rfl, hne, hus⟩
    · cases h
  · rintro ⟨rfl, hne, hbody⟩
    have := hbody.takes hne none none [] (.inl rfl) rfl
    rw [List.append_nil] at this
    rw [ofStream_eq ts none fun _ => rfl, this]
    rfl

/-- A list of tokens derives one program at most. -/
theorem Derives.unique {ts : List Token} {p q : Program} (hp : p.Derives ts) (hq : q.Derives ts) : p = q := by
  have hp' := (ofStream_eq_ok_iff ⟨ts, none⟩ p).mpr ⟨rfl, hp⟩
  have hq' := (ofStream_eq_ok_iff ⟨ts, none⟩ q).mpr ⟨rfl, hq⟩
  rw [hp'] at hq'
  exact Except.ok.inj hq'

/-- A source that is a program has tokens that derive it. -/
theorem derives_of_parse {source : String} {p : Program} (h : parse source = .ok p) :
    ∃ ts, Stream.ofSource source = ⟨ts, none⟩ ∧ p.Derives ts := by
  obtain ⟨hfault, hderives⟩ := (ofStream_eq_ok_iff _ p).mp h
  exact ⟨_, by rw [← hfault], hderives⟩

/-- A source whose tokens are known is read as a program exactly when the tokens derive the program, and they derive no
other. -/
theorem parse_eq_ok_iff_derives (source : String) (ts : List Token) (h : tokenize source = .ok ts) :
    (∀ p : Program, parse source = .ok p ↔ p.Derives ts) ∧ ∀ p q : Program, p.Derives ts → q.Derives ts → p = q := by
  refine ⟨fun p => ?_, fun p q hp hq => hp.unique hq⟩
  rw [parse, Stream.ofSource_eq_of_tokenize h, ofStream_eq_ok_iff]
  exact and_iff_right rfl

/-- The nearest `if` takes the `else`. -/
theorem parse_eq_ok_iff_derives_nested_if : ∃ ts : List Token, tokenize "if (a) if (b) ; else ;" = .ok ts ∧
    parse "if (a) if (b) ; else ;" = .ok ⟨[.ifThen (.name "a") (.ifElse (.name "b") .empty .empty)]⟩ ∧
    ∀ q : Program, q.Derives ts ↔ q = ⟨[.ifThen (.name "a") (.ifElse (.name "b") .empty .empty)]⟩ := by
  have hstream : Stream.ofSource "if (a) if (b) ; else ;" = ⟨(Stream.ofSource "if (a) if (b) ; else ;").tokens, none⟩ := by
    decide +kernel
  have htokens := tokenize_of_ofSource_eq hstream
  have hparse : parse "if (a) if (b) ; else ;" = .ok ⟨[.ifThen (.name "a") (.ifElse (.name "b") .empty .empty)]⟩ := by
    with_unfolding_all rfl
  obtain ⟨hiff, hunique⟩ := parse_eq_ok_iff_derives _ _ htokens
  refine ⟨_, htokens, hparse, fun q => ⟨fun hq => hunique _ _ hq ((hiff _).mp hparse), fun hq => ?_⟩⟩
  rw [hq]
  exact (hiff _).mp hparse

end Program

end Scriptlet
