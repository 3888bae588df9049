import Scriptlet.Proofs.Number.Whole
import Scriptlet.Proofs.Parse.Blame
import Scriptlet.Proofs.Text.Line
import Scriptlet.Report

/-!
# The rows of a report

A report is five rows and, for some faults, an empty row and a hint. All rows but the first are single lines, whatever the
source is. The first is the message, and a message is a single line unless the token that it quotes is a string over several
lines.
-/

namespace Scriptlet

namespace Report

/-! ## Rows and texts -/

/-- The text of rows, each with a line feed behind it. -/
def ofRows (rows : List String) : String := String.join (rows.map (· ++ "\n"))

/-- The rows of a text: what its line feeds close, and what stands behind the last of them. -/
def split (text : String) : List String := (text.toList.splitOn '\n').map .ofList

/-- A text without line feeds is one line. -/
theorem split_eq_singleton {text : String} (h : '\n' ∉ text.toList) : split text = [text] := by
  rw [split, List.splitOn_eq_singleton h, List.map_singleton, String.ofList_toList]

/-- A line feed divides the rows of a text. -/
theorem split_append (text more : String) : split (text ++ "\n" ++ more) = split text ++ split more := by
  have hfeed : (text ++ "\n" ++ more).toList = text.toList ++ '\n' :: more.toList := by simp
  rw [split, hfeed, List.splitOn_append_cons_self, List.map_append, split, split]

/-- A row is closed by its line feed. -/
theorem ofRows_cons (row : String) (rows : List String) : ofRows (row :: rows) = row ++ "\n" ++ ofRows rows := by
  rw [ofRows, List.map_cons, String.join_cons, ofRows]

/-- Rows without line feeds are the rows of their text. -/
theorem split_ofRows {rows : List String} (h : ∀ row ∈ rows, '\n' ∉ row.toList) : split (ofRows rows) = rows ++ [""] := by
  induction rows with
  | nil => rfl
  | cons row rows ih =>
    rw [List.forall_mem_cons] at h
    rw [ofRows_cons, split_append, split_eq_singleton h.1, ih h.2]
    rfl

/-- A text has one row more than line feeds. -/
theorem length_split (text : String) : (split text).length = text.toList.count '\n' + 1 := by
  rw [split, List.length_map]
  induction text.toList with
  | nil => rfl
  | cons c cs ih =>
    rw [List.splitOn_cons_eq_if_modifyHead]
    by_cases hc : c = '\n'
    · rw [if_pos (beq_iff_eq.mpr hc), List.length_cons, ih, hc, List.count_cons_self]
    · rw [if_neg (by simpa using hc), List.length_modifyHead, ih, List.count_cons_of_ne hc]

/-! ## The rows of a report -/

/-- The first row: the code and the message. -/
def title (fault : ParseFault) : String := "error[" ++ fault.code ++ "]: " ++ fault.message

/-- The row of the place, with a line and a column that are counted from 1. -/
def location (file : String) (line column : Nat) : String :=
  "  --> " ++ file ++ ":" ++ toString line ++ ":" ++ toString column

/-- The row of the source line. -/
def sourceRow (line : Nat) (row : String) : String := lineNumber line ++ " | " ++ row

/-- The row of the caret. -/
def caretRow (column : Nat) : String := "   | " ++ spaces column ++ "^"

/-- The rows of the hint. -/
def hintRows (fault : ParseFault) : List String :=
  match fault.help? with
  | some hint => ["", "help: " ++ hint]
  | none => []

/-- The rows of a report about a place that shows a line of the source. -/
def layout (file : String) (fault : ParseFault) (p : Position) (row : String) : List String :=
  [title fault, location file p.line (p.column + 1), "   |", sourceRow p.line row, caretRow p.column] ++ hintRows fault

variable {file source : String} {fault : ParseFault}

/-- A report shows the line of the place of its fault. -/
theorem render_eq (file source : String) (fault : ParseFault) : render file source fault =
    ofRows (layout file fault (place source fault) (Text.line source (place source fault).line)) := by
  have hlocation : "  --> " ++ file ++ ":" ++ (place source fault).text =
      location file (place source fault).line ((place source fault).column + 1) := by
    simp only [location, Position.text, String.append_assoc]
  rw [render, rows, hlocation]
  rfl

/-! ## Rows without line feeds -/

/-- A literal is given by its characters, so what it lacks is seen without reading it back from its bytes. -/
theorem no_lineFeed_ofList {cs : List Char} (h : '\n' ∉ cs) : '\n' ∉ (String.ofList cs).toList := by
  rwa [String.toList_ofList]

theorem no_lineFeed_append {s t : String} (hs : '\n' ∉ s.toList) (ht : '\n' ∉ t.toList) : '\n' ∉ (s ++ t).toList := by
  rw [String.toList_append, List.mem_append, not_or]
  exact ⟨hs, ht⟩

theorem no_lineFeed_toString (n : Nat) : '\n' ∉ (toString n).toList := by
  intro hmem
  have hdigit := Double.isDigit_of_mem_toString hmem
  cases hdigit

theorem no_lineFeed_spaces (n : Nat) : '\n' ∉ (spaces n).toList := by
  rw [spaces, String.toList_ofList]
  intro hmem
  cases List.eq_of_mem_replicate hmem

theorem no_lineFeed_location (hfile : '\n' ∉ file.toList) (line column : Nat) : '\n' ∉ (location file line column).toList :=
  no_lineFeed_append (no_lineFeed_append (no_lineFeed_append (no_lineFeed_append
    (no_lineFeed_append (no_lineFeed_ofList (by decide)) hfile) (no_lineFeed_ofList (by decide)))
    (no_lineFeed_toString line)) (no_lineFeed_ofList (by decide))) (no_lineFeed_toString column)

theorem no_lineFeed_sourceRow {row : String} (line : Nat) (hrow : '\n' ∉ row.toList) :
    '\n' ∉ (sourceRow line row).toList :=
  no_lineFeed_append (no_lineFeed_append (no_lineFeed_append (no_lineFeed_spaces _) (no_lineFeed_toString line))
    (no_lineFeed_ofList (by decide))) hrow

theorem no_lineFeed_caretRow (column : Nat) : '\n' ∉ (caretRow column).toList :=
  no_lineFeed_append (no_lineFeed_append (no_lineFeed_ofList (by decide)) (no_lineFeed_spaces column))
    (no_lineFeed_ofList (by decide))

theorem no_lineFeed_label (kind : TokenKind) : '\n' ∉ kind.label.toList := by
  cases kind with
  | keyword word => cases word <;> exact no_lineFeed_ofList (by decide)
  | _ => exact no_lineFeed_ofList (by decide)

/-- The hint of a fault has no line feed in its rows. -/
theorem no_lineFeed_hintRows (fault : ParseFault) : ∀ row ∈ hintRows fault, '\n' ∉ row.toList := by
  have hnone : ∀ row ∈ ([] : List String), '\n' ∉ row.toList := List.forall_mem_nil _
  have hsome : ∀ {hint : String}, '\n' ∉ hint.toList → ∀ row ∈ ["", "help: " ++ hint], '\n' ∉ row.toList :=
    fun hhint => List.forall_mem_cons.mpr
      ⟨by decide, List.forall_mem_singleton.mpr (no_lineFeed_append (no_lineFeed_ofList (by decide)) hhint)⟩
  cases fault with
  | lex e => exact hnone
  | endOfInput expected =>
    exact hsome (no_lineFeed_append (no_lineFeed_append (no_lineFeed_ofList (by decide)) (no_lineFeed_label expected))
      (no_lineFeed_ofList (by decide)))
  | unexpected found expected position => exact hnone
  | badTarget position => exact hsome (no_lineFeed_ofList (by decide))

/-- The line feeds of the first row are those of the message. -/
theorem count_title (fault : ParseFault) : (title fault).toList.count '\n' = fault.message.toList.count '\n' := by
  have hcode : '\n' ∉ fault.code.toList := by
    cases fault <;> exact no_lineFeed_ofList (by decide)
  have hopening : '\n' ∉ ("error[" ++ fault.code ++ "]: ").toList :=
    no_lineFeed_append (no_lineFeed_append (no_lineFeed_ofList (by decide)) hcode) (no_lineFeed_ofList (by decide))
  rw [title, String.toList_append, List.count_append, List.count_eq_zero_of_not_mem hopening, Nat.zero_add]

end Report

/-! ## Messages -/

theorem ParseFault.message_unexpected (found : String) (expected : TokenKind) (position : Position) :
    (unexpected found expected position).message =
      "Unexpected token: \"" ++ found ++ "\", expected: \"" ++ expected.label ++ "\"" := rfl

/-- The line feeds of a message about a token are those of the token. -/
theorem ParseFault.count_message (found : String) (expected : TokenKind) (position : Position) :
    (unexpected found expected position).message.toList.count '\n' = found.toList.count '\n' := by
  have hopening : '\n' ∉ "Unexpected token: \"".toList := Report.no_lineFeed_ofList (by decide)
  have hmiddle : '\n' ∉ "\", expected: \"".toList := Report.no_lineFeed_ofList (by decide)
  have hclosing : '\n' ∉ "\"".toList := Report.no_lineFeed_ofList (by decide)
  simp only [message_unexpected, String.toList_append, List.count_append, List.count_eq_zero_of_not_mem hopening,
    List.count_eq_zero_of_not_mem hmiddle, List.count_eq_zero_of_not_mem hclosing,
    List.count_eq_zero_of_not_mem (Report.no_lineFeed_label expected), Nat.zero_add, Nat.add_zero]

/-- A genuine token over several lines is a quoted text. -/
theorem Token.Genuine.isQuoted_of_lineFeed {t : Token} (h : t.Genuine) (hfeed : '\n' ∈ t.text.toList) :
    Text.IsQuoted t.text := by
  have hsigns : ∀ sign ∈ signs, '\n' ∉ sign.2.toList := by decide
  have hword : ∀ {s : String}, (∀ c ∈ s.toList, Text.isWord c = true) → '\n' ∉ s.toList := by
    intro s hs hmem
    have hfeed := hs '\n' hmem
    cases hfeed
  rcases h.cases with hsign | ⟨-, -, hdigits⟩ | ⟨-, c, cs, hcs, -, hall⟩ | ⟨-, hquoted⟩
  · exact absurd hfeed (hsigns _ hsign)
  · exact absurd hfeed (hword fun c hc => Text.isWord_of_isDigit c (List.all_eq_true.mp hdigits c hc))
  · exact absurd hfeed (hword (hcs ▸ hall))
  · exact hquoted

/-- A message is one line, unless it is about a quoted text over several lines. -/
theorem Stream.Blames.lineFeed_mem_message_iff {source lexeme : String} {fault : ParseFault}
    (h : (ofSource source).Blames fault lexeme) : '\n' ∈ fault.message.toList ↔
      ∃ t ∈ (ofSource source).tokens, ∃ expected, fault = .unexpected t.text expected t.position ∧
        Text.IsQuoted t.text ∧ '\n' ∈ t.text.toList := by
  cases h with
  | @character e hfault =>
    obtain ⟨-, -, -, -, hblank⟩ := exists_before_fault hfault
    have hlexeme : e.character.toString.toList = [e.character] := String.toList_singleton _
    have hfeed : '\n' ∉ e.character.toString.toList := by
      rw [hlexeme, List.mem_singleton]
      exact Text.ne_of_class (p := Text.isBlank) rfl hblank
    refine iff_of_false (Report.no_lineFeed_append (Report.no_lineFeed_append (Report.no_lineFeed_ofList (by decide)) hfeed)
      (Report.no_lineFeed_ofList (by decide))) ?_
    rintro ⟨_, _, _, heq, -⟩
    cases heq
  | @token t expected ht hk =>
    rw [← List.count_pos_iff, ParseFault.count_message, List.count_pos_iff]
    constructor
    · exact fun hmem => ⟨t, ht, expected, rfl, (genuine_of_mem t ht).isQuoted_of_lineFeed hmem, hmem⟩
    · rintro ⟨u, _, _, heq, -, hmem⟩
      rw [(ParseFault.unexpected.inj heq).1]
      exact hmem
  | target _ _ =>
    refine iff_of_false (Report.no_lineFeed_ofList (by decide)) ?_
    rintro ⟨_, _, _, heq, -⟩
    cases heq

namespace Report

variable {source file : String} {fault : ParseFault}

/-- A hint stands behind an empty row, and only the faults that can be mended have one. -/
theorem hintRows_cases (fault : ParseFault) :
    (∃ hint, hintRows fault = ["", "help: " ++ hint]) ∧
        ((∃ expected, fault = .endOfInput expected) ∨ ∃ position, fault = .badTarget position) ∨
      hintRows fault = [] ∧ (∀ expected, fault ≠ .endOfInput expected) ∧ ∀ position, fault ≠ .badTarget position := by
  cases fault with
  | lex e => exact .inr ⟨rfl, ⟨fun _ h => (by cases h), fun _ h => (by cases h)⟩⟩
  | endOfInput expected => exact .inl ⟨⟨_, rfl⟩, .inl ⟨expected, rfl⟩⟩
  | unexpected found expected position => exact .inr ⟨rfl, ⟨fun _ h => (by cases h), fun _ h => (by cases h)⟩⟩
  | badTarget position => exact .inl ⟨⟨_, rfl⟩, .inr ⟨position, rfl⟩⟩

/-- Only the first row of a report can be several. -/
theorem split_render (hfile : '\n' ∉ file.toList) : ∃ (p : Position) (row : String),
    split (render file source fault) =
      split (title fault) ++ [location file p.line (p.column + 1), "   |", sourceRow p.line row, caretRow p.column] ++
        hintRows fault ++ [""] := by
  refine ⟨place source fault, Text.line source (place source fault).line, ?_⟩
  have hrest : ∀ row ∈ [location file (place source fault).line ((place source fault).column + 1), "   |",
      sourceRow (place source fault).line (Text.line source (place source fault).line),
      caretRow (place source fault).column] ++ hintRows fault, '\n' ∉ row.toList := by
    refine List.forall_mem_append.mpr ⟨?_, no_lineFeed_hintRows fault⟩
    simp only [List.forall_mem_cons]
    exact ⟨no_lineFeed_location hfile _ _, by decide, no_lineFeed_sourceRow _ (Text.no_lineFeed_line _ _),
      no_lineFeed_caretRow _, List.forall_mem_nil _⟩
  rw [render_eq, layout, List.cons_append, ofRows_cons, split_append, split_ofRows hrest, List.append_assoc,
    List.append_assoc, List.append_assoc]

/-- A report of a source that is no program has the rows of its message, four rows more, and a hint behind an empty row if
the source ends too soon or something other than a name is assigned to. The message is one row, unless a quoted text over
several lines is in a place where another token has to stand: it is quoted as it is, and the message has its line feeds. -/
theorem rows_of_render (h : Program.parse source = .error fault) (hfile : '\n' ∉ file.toList) :
    ('\n' ∈ fault.message.toList ↔ ∃ t ∈ (Stream.ofSource source).tokens, ∃ expected,
        fault = .unexpected t.text expected t.position ∧ Text.IsQuoted t.text ∧ '\n' ∈ t.text.toList) ∧
    (split (title fault)).length = fault.message.toList.count '\n' + 1 ∧
    ('\n' ∉ fault.message.toList → split (title fault) = [title fault]) ∧
    (∃ (p : Position) (row : String), split (render file source fault) =
      split (title fault) ++ [location file p.line (p.column + 1), "   |", sourceRow p.line row, caretRow p.column] ++
        hintRows fault ++ [""]) ∧
    ((∃ hint, hintRows fault = ["", "help: " ++ hint]) ∧
        ((∃ expected, fault = .endOfInput expected) ∨ ∃ position, fault = .badTarget position) ∨
      hintRows fault = [] ∧ (∀ expected, fault ≠ .endOfInput expected) ∧ ∀ position, fault ≠ .badTarget position) := by
  have hmessage : '\n' ∈ fault.message.toList ↔ ∃ t ∈ (Stream.ofSource source).tokens, ∃ expected,
      fault = .unexpected t.text expected t.position ∧ Text.IsQuoted t.text ∧ '\n' ∈ t.text.toList := by
    obtain ⟨expected, rfl⟩ | ⟨_, hblames⟩ := Stream.exists_blames h
    · refine iff_of_false (no_lineFeed_append (no_lineFeed_append (no_lineFeed_ofList (by decide))
        (no_lineFeed_label expected)) (no_lineFeed_ofList (by decide))) ?_
      rintro ⟨_, _, _, heq, -⟩
      cases heq
    · exact hblames.lineFeed_mem_message_iff
  have htitle : '\n' ∉ fault.message.toList → split (title fault) = [title fault] := by
    intro hline
    rw [← List.count_eq_zero, ← count_title, List.count_eq_zero] at hline
    exact split_eq_singleton hline
  exact ⟨hmessage, by rw [length_split, count_title], htitle, split_render hfile, hintRows_cases fault⟩

/-- A bad assignment in a file: five rows and a hint. -/
theorem rows_of_render_badTarget : Program.parse "1 = 2;" = .error (.badTarget ⟨1, 0⟩) ∧ '\n' ∉ "a.sp".toList ∧
    ∃ (p : Position) (row : String), split (render "a.sp" "1 = 2;" (.badTarget ⟨1, 0⟩)) =
      split (title (.badTarget ⟨1, 0⟩)) ++
        [location "a.sp" p.line (p.column + 1), "   |", sourceRow p.line row, caretRow p.column] ++
        hintRows (.badTarget ⟨1, 0⟩) ++ [""] := by
  have hparse : Program.parse "1 = 2;" = .error (.badTarget ⟨1, 0⟩) := by with_unfolding_all rfl
  exact ⟨hparse, by decide, (rows_of_render hparse (by decide)).2.2.2.1⟩

/-- A quoted text over two lines that stands where a name has to stand: its message is no single line, and the report has six
rows. -/
theorem message_two_lines : Program.parse "let \"a\nb\";" = .error (.unexpected "\"a\nb\"" .name ⟨1, 4⟩) ∧
    '\n' ∈ (ParseFault.unexpected "\"a\nb\"" .name ⟨1, 4⟩).message.toList ∧ '\n' ∉ "a.sp".toList ∧
    split (render "a.sp" "let \"a\nb\";" (.unexpected "\"a\nb\"" .name ⟨1, 4⟩)) =
      ["error[E_UNEXPECTED_TOKEN]: Unexpected token: \"\"a", "b\"\", expected: \"IDENTIFIER\"", "  --> a.sp:1:5", "   |",
        "  1 | let \"a", "   |     ^", ""] :=
  ⟨by with_unfolding_all rfl, by decide +kernel, by decide, by decide +kernel⟩

end Report

end Scriptlet
