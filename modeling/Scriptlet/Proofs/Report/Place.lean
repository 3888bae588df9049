import Scriptlet.Proofs.Report.Layout

/-!
# What a report points at

A report shows the line of the source that its fault is in, and the column of the fault is that of the first character blamed.
The row of the source line has a margin of six columns up to line 999 and the row of the caret has one of five, so the caret
stands one column to the left of that character.
-/

namespace Scriptlet

namespace Report

variable {source lexeme : String} {fault : ParseFault} {p : Position}

/-! ## The line shown -/

/-- A report shows the line that the blamed characters start in. -/
theorem render_of_blames (file : String) (h : (Stream.ofSource source).Blames fault lexeme)
    (hp : fault.position? = some p) : ∃ row c cs, render file source fault = ofRows (layout file fault p (.ofList row)) ∧
      Text.Row source.toList p.line row ∧ row[p.column]? = some c ∧ lexeme.toList = c :: cs := by
  obtain ⟨before, after, c, cs, htext, hposition, hlexeme, hblank⟩ := h.exists_before
  have hbehind : p = .behind before := Option.some.inj (hp.symm.trans hposition)
  have hne : ∀ d : Char, Text.isBlank d = true → c ≠ d := fun d hd => (Text.ne_of_class hd hblank).symm
  obtain ⟨row, hrow, hc⟩ := @Position.exists_row_behind before (cs ++ after) c (hne _ rfl) (hne _ rfl)
  have hsource : source.toList = before ++ c :: (cs ++ after) := by
    rw [htext, hlexeme, List.append_assoc, List.cons_append]
  rw [← hsource, ← hbehind] at hrow
  rw [← hbehind] at hc
  have hplace : place source fault = p := by rw [place, hp, Option.getD_some]
  exact ⟨row, c, cs, by rw [render_eq, hplace, hrow.line_eq], hrow, hc, hlexeme⟩

/-- A report without a place shows what stands behind the last line feed, and points behind it. -/
theorem render_of_no_position (source file : String) (h : fault.position? = none) : ∃ above row, source.toList = above ++ row ∧
    Text.StartsLine above ∧ '\n' ∉ row ∧
    render file source fault = ofRows (layout file fault ⟨above.count '\n' + 1, row.length⟩ (.ofList row)) := by
  obtain ⟨above, row, htext, habove, hrow, hbehind⟩ := Position.exists_start source.toList
  have hplace : place source fault = ⟨above.count '\n' + 1, row.length⟩ := by
    rw [place, h, Option.getD_none, Position.endOf_eq_behind, hbehind]
  exact ⟨above, row, htext, habove, hrow, by rw [render_eq, hplace, (Text.Row.last habove hrow htext).line_eq]⟩

/-- The report of a source that does not parse or does not tokenize shows the line that its fault is in: that line goes on
beyond the column of the fault, with the first character of what is blamed. Where the source ends too soon, the report shows
what stands behind the last line feed and points behind its last character. -/
theorem shows_fault (source file : String) (fault : ParseFault)
    (h : Program.parse source = .error fault ∨ ∃ e, tokenize source = .error e ∧ fault = .lex e) :
    (∀ p, fault.position? = some p → ∃ row lexeme c cs,
      render file source fault = ofRows (layout file fault p (.ofList row)) ∧ Text.Row source.toList p.line row ∧
        p.column < row.length ∧ row[p.column]? = some c ∧ (Stream.ofSource source).Blames fault lexeme ∧
        lexeme.toList = c :: cs) ∧
    ∀ expected, fault = .endOfInput expected → ∃ above row, source.toList = above ++ row ∧ Text.StartsLine above ∧
      '\n' ∉ row ∧
      render file source fault = ofRows (layout file fault ⟨above.count '\n' + 1, row.length⟩ (.ofList row)) := by
  constructor
  · intro p hp
    obtain ⟨lexeme, hblames⟩ : ∃ lexeme, (Stream.ofSource source).Blames fault lexeme := by
      obtain h | ⟨e, he, rfl⟩ := h
      · obtain ⟨expected, rfl⟩ | hblames := Stream.exists_blames h
        · cases hp
        · exact hblames
      · exact ⟨_, .character (Stream.fault_of_tokenize he)⟩
    obtain ⟨row, c, cs, hrender, hrow, hc, hlexeme⟩ := render_of_blames file hblames hp
    exact ⟨row, lexeme, c, cs, hrender, hrow, (List.getElem?_eq_some_iff.mp hc).1, hc, hblames, hlexeme⟩
  · rintro expected rfl
    exact render_of_no_position source file rfl

/-- A number behind a quoted text over two lines, in a line that a carriage return ends. -/
theorem shows_fault_two_lines : Program.parse "'x\ny' 5\r\n" = .error (.unexpected "5" .semicolon ⟨2, 3⟩) ∧
    ∃ row lexeme c cs, render "a.sp" "'x\ny' 5\r\n" (.unexpected "5" .semicolon ⟨2, 3⟩) =
        ofRows (layout "a.sp" (.unexpected "5" .semicolon ⟨2, 3⟩) ⟨2, 3⟩ (.ofList row)) ∧
      Text.Row "'x\ny' 5\r\n".toList 2 row ∧ 3 < row.length ∧ row[3]? = some c ∧
      (Stream.ofSource "'x\ny' 5\r\n").Blames (.unexpected "5" .semicolon ⟨2, 3⟩) lexeme ∧ lexeme.toList = c :: cs := by
  have hparse : Program.parse "'x\ny' 5\r\n" = .error (.unexpected "5" .semicolon ⟨2, 3⟩) := by with_unfolding_all rfl
  exact ⟨hparse, (shows_fault _ "a.sp" _ (.inl hparse)).1 _ rfl⟩

/-! ## The caret -/

/-- A line number below 1000 has at most three digits. -/
theorem length_lineNumber {line : Nat} (h : line ≤ 999) : (lineNumber line).toList.length = 3 := by
  have hdigits : (toString line).length ≤ 3 := by
    rw [Nat.toString_eq_repr, ← String.length_toList, Nat.toList_repr]
    exact (Nat.length_toDigits_le_iff (by decide) (by decide)).mpr (by omega)
  rw [lineNumber, String.toList_append, List.length_append, spaces, String.toList_ofList, List.length_replicate,
    String.length_toList]
  omega

/-- Up to line 999, a source line is printed behind six columns. -/
theorem drop_sourceRow {line : Nat} (h : line ≤ 999) (row : String) : (sourceRow line row).toList.drop 6 = row.toList := by
  have hmargin : (lineNumber line ++ " | ").toList.length = 6 := by
    rw [String.toList_append, List.length_append, length_lineNumber h]
    rfl
  rw [sourceRow, String.toList_append, ← hmargin, List.drop_left]

/-- The caret is the last character of its row, behind five columns and those of the fault. -/
theorem caretRow_eq (column : Nat) : (caretRow column).toList =
    "   | ".toList ++ List.replicate column ' ' ++ ['^'] := by
  have hspaces : (spaces column).toList = List.replicate column ' ' := String.toList_ofList
  rw [caretRow, String.toList_append, String.toList_append, hspaces]
  rfl

theorem idxOf_caretRow (column : Nat) : (caretRow column).toList.idxOf '^' = column + 5 := by
  have hmargin : '^' ∉ "   | ".toList ++ List.replicate column ' ' := by
    rw [List.mem_append, not_or]
    refine ⟨by decide, fun hmem => ?_⟩
    cases List.eq_of_mem_replicate hmem
  rw [caretRow_eq, List.idxOf_append_of_notMem hmargin, List.length_append, List.length_replicate, List.idxOf_cons_self]
  exact Nat.add_comm 5 column

/-- Up to line 999, the caret stands one column to the left of the first character blamed: that character is behind six
columns and those of its column in the printed row of its line, and the caret, the last character of the next row, is behind
five columns and as many. -/
theorem caret_one_left (source file : String) (h : Program.parse source = .error fault) (hp : fault.position? = some p)
    (hline : p.line ≤ 999) : ∃ row c, Text.Row source.toList p.line row ∧ row[p.column]? = some c ∧
      render file source fault = ofRows ([title fault, location file p.line (p.column + 1), "   |",
        sourceRow p.line (.ofList row), caretRow p.column] ++ hintRows fault) ∧
      (sourceRow p.line (.ofList row)).toList.drop 6 = row ∧
      (sourceRow p.line (.ofList row)).toList[p.column + 6]? = some c ∧
      (caretRow p.column).toList.idxOf '^' = p.column + 5 ∧ (caretRow p.column).toList.length = p.column + 6 := by
  obtain ⟨expected, rfl⟩ | ⟨lexeme, hblames⟩ := Stream.exists_blames h
  · cases hp
  obtain ⟨row, c, -, hrender, hrow, hc, -⟩ := render_of_blames file hblames hp
  have hdrop : (sourceRow p.line (.ofList row)).toList.drop 6 = row := by
    rw [drop_sourceRow hline, String.toList_ofList]
  have hprinted : (sourceRow p.line (.ofList row)).toList[p.column + 6]? = some c := by
    rw [Nat.add_comm, ← List.getElem?_drop, hdrop, hc]
  have hlength : (caretRow p.column).toList.length = p.column + 6 := by
    rw [caretRow_eq, List.length_append, List.length_append, List.length_replicate, List.length_singleton, Nat.add_comm _ p.column]
    rfl
  exact ⟨row, c, hrow, hc, hrender, hdrop, hprinted, idxOf_caretRow p.column, hlength⟩

/-- A parenthesis in the second line: it is printed in column 12, and the caret below in column 11. -/
theorem caret_one_left_second_line :
    Program.parse "let a;\nx = 1 )" = .error (.unexpected ")" .semicolon ⟨2, 6⟩) ∧ 2 ≤ 999 ∧
      ∃ row c, Text.Row "let a;\nx = 1 )".toList 2 row ∧ row[6]? = some c ∧
        (sourceRow 2 (.ofList row)).toList[12]? = some c ∧ (caretRow 6).toList.idxOf '^' = 11 := by
  have hparse : Program.parse "let a;\nx = 1 )" = .error (.unexpected ")" .semicolon ⟨2, 6⟩) := by with_unfolding_all rfl
  obtain ⟨row, c, hrow, hc, -, -, hprinted, hcaret, -⟩ := caret_one_left _ "example.sp" hparse rfl (by decide)
  exact ⟨hparse, by decide, row, c, hrow, hc, hprinted, hcaret⟩

/-- The whole report: the parenthesis is in column 12 of the fourth row, and the caret in column 11 of the fifth. -/
theorem caret_not_below : Program.parse "let a;\nx = 1 )" = .error (.unexpected ")" .semicolon ⟨2, 6⟩) ∧
    split (render "example.sp" "let a;\nx = 1 )" (.unexpected ")" .semicolon ⟨2, 6⟩)) =
      ["error[E_UNEXPECTED_TOKEN]: Unexpected token: \")\", expected: \";\"", "  --> example.sp:2:7", "   |",
        "  2 | x = 1 )", "   |       ^", ""] ∧
    "x = 1 )".toList[6]? = some ')' ∧ "  2 | x = 1 )".toList.idxOf ')' = 12 ∧ "   |       ^".toList.idxOf '^' = 11 :=
  ⟨by with_unfolding_all rfl, by decide +kernel, by decide, by decide, by decide⟩

end Report

end Scriptlet
