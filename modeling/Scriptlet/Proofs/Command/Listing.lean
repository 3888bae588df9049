import Mathlib.Data.List.Nodup
import Scriptlet.Proofs.Command.Outcome
import Scriptlet.Proofs.Number.Numeral
import Scriptlet.Proofs.Parse.Ahead
import Scriptlet.Proofs.Report.Layout

/-!
# What a listing of tokens tells

A line of a listing starts with the label of a kind, and the label ends at the first space. The kind tells where the text of
the token ends: a string ends at its second quote and may hold anything in between, line feeds and what looks like further
lines included, and every other text ends with its line. So a listing stands for the kinds and the texts of one list of tokens
only, and sources with the same listing are read alike.
-/

namespace Scriptlet

/-! ## Labels -/

namespace TokenKind

/-- Every kind, once. -/
def all : List TokenKind :=
  [semicolon, leftBrace, rightBrace, leftParen, rightParen, comma, number, text, name, equality, assign, compoundAssign,
   additive, multiplicative, relational, logicalAnd, logicalOr, logicalNot] ++ Keyword.all.map keyword

theorem mem_all (kind : TokenKind) : kind ∈ all := by
  cases kind with
  | keyword word => exact List.mem_append_right _ (List.mem_map_of_mem word.mem_all)
  | _ => decide

/-- No two kinds have the same label. -/
theorem label_injective {kind kind' : TokenKind} (h : kind.label = kind'.label) : kind = kind' := by
  have hlabels : (all.map label).Nodup := by decide +kernel
  exact List.inj_on_of_nodup_map hlabels kind.mem_all kind'.mem_all h

theorem no_space_label (kind : TokenKind) : ' ' ∉ kind.label.toList := by
  have hall : ∀ kind ∈ all, ' ' ∉ kind.label.toList := by decide +kernel
  exact hall kind kind.mem_all

/-- A label with a space behind it is known from any text that starts with them. -/
theorem label_append_inj {kind kind' : TokenKind} {as bs : List Char}
    (h : kind.label.toList ++ ' ' :: as = kind'.label.toList ++ ' ' :: bs) : kind = kind' ∧ as = bs := by
  obtain ⟨hlabel, hrest⟩ := append_cons_inj_of_notMem kind.no_space_label kind'.no_space_label h
  exact ⟨label_injective (String.toList_inj.mp hlabel), hrest⟩

end TokenKind

/-! ## Lines of tokens -/

namespace Token

variable {t u : Token} {as bs : List Char}

/-- The text of a genuine token tells its kind. -/
theorem Genuine.kind_eq_of_text (ht : t.Genuine) (hu : u.Genuine) (h : t.text = u.text) : t.kind = u.kind := by
  obtain ⟨x, hx, -, htkind⟩ := ht
  obtain ⟨y, hy, -, hukind⟩ := hu
  rw [h] at hx
  obtain rfl : x = y := Option.some.inj (hx.symm.trans hy)
  exact Option.some.inj (htkind.symm.trans hukind)

/-- Only strings are written over several lines. -/
theorem Genuine.no_lineFeed (ht : t.Genuine) (hkind : t.kind ≠ .text) : '\n' ∉ t.text.toList := by
  intro hfeed
  have hstring : Genuine ⟨.text, t.text, t.position⟩ := genuine_text rfl (ht.isQuoted_of_lineFeed hfeed)
  exact hkind (ht.kind_eq_of_text hstring rfl)

/-- A quoted text is known from any text that starts with it: it ends where its first character comes again. -/
theorem quoted_append_inj {s s' : String} (hs : Text.IsQuoted s) (hs' : Text.IsQuoted s')
    (h : s.toList ++ as = s'.toList ++ bs) : s = s' ∧ as = bs := by
  obtain ⟨q, body, -, hbody, htext⟩ := hs
  obtain ⟨q', body', -, hbody', htext'⟩ := hs'
  rw [htext, htext', List.cons_append, List.cons_append, List.append_assoc, List.append_assoc] at h
  obtain ⟨rfl, h⟩ := List.cons.inj h
  obtain ⟨rfl, hrest⟩ := append_cons_inj_of_notMem hbody hbody' h
  exact ⟨String.toList_inj.mp (htext.trans htext'.symm), hrest⟩

/-- The text of a genuine token with a line feed behind it is known, for its kind, from any text that starts with them. -/
theorem Genuine.text_append_inj (ht : t.Genuine) (hu : u.Genuine) (hkind : t.kind = u.kind)
    (h : t.text.toList ++ '\n' :: as = u.text.toList ++ '\n' :: bs) : t.text = u.text ∧ as = bs := by
  by_cases hstring : t.kind = .text
  · obtain ⟨htext, hrest⟩ := quoted_append_inj (ht.isQuoted hstring) (hu.isQuoted (hkind ▸ hstring)) h
    exact ⟨htext, (List.cons.inj hrest).2⟩
  · obtain ⟨htext, hrest⟩ := append_cons_inj_of_notMem (ht.no_lineFeed hstring) (hu.no_lineFeed (hkind ▸ hstring)) h
    exact ⟨String.toList_inj.mp htext, hrest⟩

/-- The characters of the line of a token: the label of its kind, a space, its text and a line feed. -/
def lineChars (t : Token) : List Char := t.kind.label.toList ++ ' ' :: (t.text.toList ++ ['\n'])

/-- The line of a genuine token is known from any text that starts with it. -/
theorem Genuine.lineChars_append_inj (ht : t.Genuine) (hu : u.Genuine) (h : t.lineChars ++ as = u.lineChars ++ bs) :
    t.kind = u.kind ∧ t.text = u.text ∧ as = bs := by
  simp only [lineChars, List.append_assoc, List.cons_append, List.nil_append] at h
  obtain ⟨hkind, h⟩ := TokenKind.label_append_inj h
  exact ⟨hkind, ht.text_append_inj hu hkind h⟩

/-- A listing is written line by line. -/
theorem toList_listing (ts : List Token) : (listing ts).toList = ts.flatMap lineChars := by
  rw [listing]
  induction ts with
  | nil => rfl
  | cons t ts ih =>
    rw [List.map_cons, String.join_cons, String.toList_append, ih, List.flatMap_cons]
    simp [lineChars]

/-- Two lists of genuine tokens have the same listing exactly if they have the same kinds and texts in the same order. -/
theorem listing_eq_listing_iff {ts us : List Token} (hts : ∀ t ∈ ts, t.Genuine) (hus : ∀ u ∈ us, u.Genuine) :
    listing ts = listing us ↔ ts.map (fun t => (t.kind, t.text)) = us.map fun u => (u.kind, u.text) := by
  rw [← String.toList_inj, toList_listing, toList_listing]
  induction ts generalizing us with
  | nil => cases us <;> simp [lineChars]
  | cons t ts ih =>
    cases us with
    | nil => simp [lineChars]
    | cons u us =>
      rw [List.forall_mem_cons] at hts hus
      rw [List.flatMap_cons, List.flatMap_cons, List.map_cons, List.map_cons, List.cons.injEq, ← ih hts.2 hus.2,
        Prod.mk.injEq]
      constructor
      · intro h
        obtain ⟨hkind, htext, hrest⟩ := hts.1.lineChars_append_inj hus.1 h
        exact ⟨⟨hkind, htext⟩, hrest⟩
      · rintro ⟨⟨hkind, htext⟩, hrest⟩
        rw [lineChars, lineChars, hkind, htext, hrest]

end Token

/-! ## Commands that list tokens -/

namespace Command

variable {args args' : List String} {stdin stdin' : ByteArray} {read read' : FileReader} {source source' : String}
  {ts us : List Token}

/-- A command lists the tokens of a source: its arguments ask for tokens, and the input that is selected is the source in
UTF-8. -/
def Lists (args : List String) (stdin : ByteArray) (read : FileReader) (source : String) : Prop :=
  ∃ options, Options.Asked args options ∧ options.format = .tokens ∧ Supplies stdin read options.path source.toUTF8

/-- What a command prints that lists the tokens of a source. -/
theorem Lists.stdout_eq (h : Lists args stdin read source) (hts : tokenize source = .ok ts) :
    (exit args stdin read).stdout = Token.listing ts := by
  obtain ⟨options, hasked, hformat, hbytes⟩ := h
  rw [exit_of_delivers ⟨options, source, hasked, hbytes, .tokens hformat hts⟩]
  rfl

/-- Two commands that list the tokens of two sources without a fault print the same exactly if the tokens have the same kinds
and texts in the same order. So where they print the same, both sources are read as the same program, or both fail at the same
token in the same way. -/
theorem stdout_eq_iff_tokens (h : Lists args stdin read source) (h' : Lists args' stdin' read' source')
    (hts : tokenize source = .ok ts) (hus : tokenize source' = .ok us) :
    ((exit args stdin read).stdout = (exit args' stdin' read').stdout ↔
      ts.map (fun t => (t.kind, t.text)) = us.map fun u => (u.kind, u.text)) ∧
    ((exit args stdin read).stdout = (exit args' stdin' read').stdout →
      (∃ p, Program.parse source = .ok p ∧ Program.parse source' = .ok p) ∨
      ∃ e e', Program.parse source = .error e ∧ Program.parse source' = .error e' ∧ ParseFault.SameAt ts us e e') := by
  have hstream := Stream.ofSource_eq_of_tokenize hts
  have hstream' := Stream.ofSource_eq_of_tokenize hus
  have hlistings := Token.listing_eq_listing_iff (Stream.genuine_of_ofSource hstream) (Stream.genuine_of_ofSource hstream')
  rw [h.stdout_eq hts, h'.stdout_eq hus]
  refine ⟨hlistings, fun hsame => ?_⟩
  rw [Program.parse, Program.parse, hstream, hstream']
  exact Program.ofStream_congr (hlistings.mp hsame)

/-- A string that holds what looks like the end of it and a further line is not taken for two strings, and a comment does not
show. -/
theorem stdout_eq_iff_tokens_string_with_lines :
    (run ["--format", "tokens"] "'a\nSTRING b'".toUTF8 ⟨[]⟩).stdout ≠
      (run ["x", "-f", "tokens"] .empty ⟨[("x", "'a' 'b'".toUTF8)]⟩).stdout ∧
    (run ["--format", "tokens"] "'a\nSTRING b'".toUTF8 ⟨[]⟩).stdout =
      (run ["--format", "tokens"] "'a\nSTRING b' // c".toUTF8 ⟨[]⟩).stdout := by
  have hasked : Options.Asked ["--format", "tokens"] ⟨.tokens, false, none⟩ := by
    rw [← Options.ofArgs_eq_ok_iff]
    rfl
  have hasked' : Options.Asked ["x", "-f", "tokens"] ⟨.tokens, false, some "x"⟩ := by
    rw [← Options.ofArgs_eq_ok_iff]
    rfl
  have hread : Workspace.read ⟨[("x", "'a' 'b'".toUTF8)]⟩ ["start"] "x" = .ok "'a' 'b'".toUTF8 := by with_unfolding_all rfl
  have hone : tokenize "'a\nSTRING b'" = .ok [⟨.text, "'a\nSTRING b'", ⟨1, 0⟩⟩] := by decide +kernel
  have htwo : tokenize "'a' 'b'" = .ok [⟨.text, "'a'", ⟨1, 0⟩⟩, ⟨.text, "'b'", ⟨1, 4⟩⟩] := by decide +kernel
  have hcomment : tokenize "'a\nSTRING b' // c" = .ok [⟨.text, "'a\nSTRING b'", ⟨1, 0⟩⟩] := by decide +kernel
  have hlists : ∀ source : String, Lists ["--format", "tokens"] source.toUTF8 (Workspace.read ⟨[]⟩ ["start"]) source :=
    fun source => ⟨_, hasked, rfl, .standard⟩
  refine ⟨fun hsame => ?_, (stdout_eq_iff_tokens (hlists _) (hlists _) hone hcomment).1.mpr rfl⟩
  have hfile : Lists ["x", "-f", "tokens"] .empty (Workspace.read ⟨[("x", "'a' 'b'".toUTF8)]⟩ ["start"]) "'a' 'b'" :=
    ⟨_, hasked', rfl, .file (by decide) hread⟩
  have htokens := (stdout_eq_iff_tokens (hlists _) hfile hone htwo).1.mp hsame
  exact absurd (congrArg List.length htokens) (by decide)

end Command

end Scriptlet
