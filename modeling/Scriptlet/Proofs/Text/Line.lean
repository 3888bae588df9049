import Scriptlet.Proofs.Token.Tiling
import Scriptlet.Text.Line

/-!
# Lines and positions

Positions are counted character by character and lines are cut at line feeds. Both agree: behind some characters of a text the
column is the length of what stands behind the last line feed so far, and the line of that number goes on with the next
character. A carriage return that a line loses stands directly in front of a line feed, so no other character is lost with it.
-/

namespace Scriptlet

namespace Text

/-! ## Rows -/

/-- A line starts behind some characters: there are none, or the last of them is a line feed. -/
def StartsLine (above : List Char) : Prop := above = [] ∨ above.getLast? = some '\n'

/-- The line of a number in a text: what stands between the line feeds around it, without a carriage return directly in front
of the closing one. What stands behind the last line feed is whole. -/
inductive Row (text : List Char) : Nat → List Char → Prop where
  | last {above row : List Char} : StartsLine above → '\n' ∉ row → text = above ++ row → Row text (above.count '\n' + 1) row
  | closed {above row below : List Char} : StartsLine above → '\n' ∉ row → row.getLast? ≠ some '\r' →
      text = above ++ row ++ '\n' :: below → Row text (above.count '\n' + 1) row
  | returned {above row below : List Char} : StartsLine above → '\n' ∉ row →
      text = above ++ row ++ '\r' :: '\n' :: below → Row text (above.count '\n' + 1) row

variable {text above row start rest : List Char} {number : Nat} {c : Char}

/-! ## Cutting a text into lines -/

/-- Characters other than line feeds go to the open line. -/
theorem linesFrom_append (h : '\n' ∉ row) (before rest : List Char) :
    linesFrom before (row ++ rest) = linesFrom (row.reverse ++ before) rest := by
  induction row generalizing before with
  | nil => rfl
  | cons c row ih =>
    rw [List.mem_cons, not_or] at h
    rw [List.cons_append, linesFrom, if_neg (Ne.symm h.1), ih h.2, List.reverse_cons, List.append_assoc,
      List.singleton_append]

/-- Each line feed closes one line, whatever stands in front of it. -/
theorem drop_linesFrom (above rest before : List Char) :
    (linesFrom before (above ++ '\n' :: rest)).drop (above.count '\n' + 1) = linesFrom [] rest := by
  induction above generalizing before with
  | nil => rw [List.nil_append, linesFrom, if_pos rfl, List.count_nil, List.drop_succ_cons, List.drop_zero]
  | cons c above ih =>
    rw [List.cons_append, linesFrom]
    by_cases hc : c = '\n'
    · rw [if_pos hc, hc, List.count_cons_self, List.drop_succ_cons, ih]
    · rw [if_neg hc, List.count_cons_of_ne hc, ih]

/-- The line of the number of line feeds in front of it is the first of what stands behind them. -/
theorem getElem?_linesFrom (h : StartsLine above) (rest : List Char) :
    (linesFrom [] (above ++ rest))[above.count '\n']? = (linesFrom [] rest).head? := by
  rw [← List.head?_drop]
  rcases h with rfl | h
  · rfl
  · obtain ⟨front, rfl⟩ := List.getLast?_eq_some_iff.mp h
    rw [List.append_assoc, List.singleton_append, List.count_append, List.count_singleton_self, drop_linesFrom]

/-- The lines that a text is cut into are its rows. -/
theorem Row.line_eq {source : String} (h : Row source.toList number row) : line source number = .ofList row := by
  have hline : ∀ {above rest : List Char}, StartsLine above → source.toList = above ++ rest →
      line source (above.count '\n' + 1) = ((linesFrom [] rest).head?.map String.ofList).getD "" := by
    intro above rest habove hsource
    rw [line, lines, hsource, List.getElem?_map, Nat.add_sub_cancel, getElem?_linesFrom habove]
  cases h with
  | @last above row habove hrow htext =>
    rw [hline habove htext]
    have hrows := linesFrom_append hrow [] []
    rw [List.append_nil, List.append_nil] at hrows
    rw [hrows, linesFrom]
    by_cases hnil : row = []
    · rw [hnil]
      rfl
    · rw [if_neg (by simpa using hnil), List.reverse_reverse]
      rfl
  | @closed above row below habove hrow hlast htext =>
    rw [List.append_assoc] at htext
    rw [hline habove htext, linesFrom_append hrow, linesFrom, if_pos rfl, List.append_nil, List.reverse_reverse, dropReturn,
      if_neg hlast]
    rfl
  | @returned above row below habove hrow htext =>
    have hreturn : '\n' ∉ row ++ ['\r'] := by simp [hrow]
    rw [List.append_assoc, List.append_cons] at htext
    rw [hline habove htext, linesFrom_append hreturn, linesFrom, if_pos rfl, List.append_nil, List.reverse_reverse,
      dropReturn, if_pos List.getLast?_concat, List.dropLast_concat]
    rfl

/-- No line has a line feed in it. -/
theorem no_lineFeed_linesFrom (before cs : List Char) (h : '\n' ∉ before) : ∀ row ∈ linesFrom before cs, '\n' ∉ row := by
  have hreverse : ∀ {before : List Char}, '\n' ∉ before → '\n' ∉ before.reverse := fun h => by simpa using h
  induction cs generalizing before with
  | nil =>
    rw [linesFrom]
    split
    · exact List.forall_mem_nil _
    · exact List.forall_mem_singleton.mpr (hreverse h)
  | cons c cs ih =>
    rw [linesFrom]
    split
    · refine List.forall_mem_cons.mpr ⟨?_, ih [] List.not_mem_nil⟩
      unfold dropReturn
      split
      · exact fun hmem => hreverse h (List.dropLast_subset _ hmem)
      · exact hreverse h
    · next hc => exact ih (c :: before) (by simp [h, Ne.symm hc])

theorem no_lineFeed_line (source : String) (number : Nat) : '\n' ∉ (line source number).toList := by
  rw [line, lines, List.getElem?_map]
  cases hrow : (linesFrom [] source.toList)[number - 1]? with
  | none => exact List.not_mem_nil
  | some row =>
    rw [Option.map_some, Option.getD_some, String.toList_ofList]
    exact no_lineFeed_linesFrom [] source.toList List.not_mem_nil row (List.mem_of_getElem? hrow)

/-! ## Rows at positions -/

/-- The row goes on behind the start of a line with any character that is no line end. -/
theorem exists_row (habove : StartsLine above) (hstart : '\n' ∉ start) (hfeed : c ≠ '\n') (hreturn : c ≠ '\r')
    (rest : List Char) : ∃ more, Row (above ++ start ++ c :: rest) (above.count '\n' + 1) (start ++ c :: more) := by
  obtain ⟨line, hline⟩ : ∃ line, line = rest.takeWhile (· ≠ '\n') := ⟨_, rfl⟩
  have hsplit := List.takeWhile_append_dropWhile (p := (· ≠ '\n')) (l := rest)
  rw [← hline] at hsplit
  have hfree : '\n' ∉ line := by
    intro hmem
    rw [hline] at hmem
    simpa using List.all_eq_true.mp List.all_takeWhile _ hmem
  have hrow : ∀ {more : List Char}, '\n' ∉ more → '\n' ∉ start ++ c :: more := by
    intro more hmore
    simp [hstart, hmore, Ne.symm hfeed]
  cases hrest : rest.dropWhile (· ≠ '\n') with
  | nil =>
    rw [hrest, List.append_nil] at hsplit
    subst hsplit
    exact ⟨line, .last habove (hrow hfree) (List.append_assoc ..)⟩
  | cons d below =>
    have hd : d = '\n' := by
      have hstop := List.head?_dropWhile_not (· ≠ '\n') rest
      rw [hrest] at hstop
      simpa using hstop
    rw [hrest, hd] at hsplit
    subst hsplit
    by_cases hlast : line.getLast? = some '\r'
    · obtain ⟨more, rfl⟩ := List.getLast?_eq_some_iff.mp hlast
      have htext : above ++ start ++ c :: (more ++ ['\r'] ++ '\n' :: below) =
          above ++ (start ++ c :: more) ++ '\r' :: '\n' :: below := by simp
      exact ⟨more, .returned habove (hrow fun hmem => hfree (List.mem_append_left _ hmem)) htext⟩
    · have htext : above ++ start ++ c :: (line ++ '\n' :: below) = above ++ (start ++ c :: line) ++ '\n' :: below := by simp
      refine ⟨line, .closed habove (hrow hfree) ?_ htext⟩
      rw [List.getLast?_append, List.getLast?_cons]
      cases hend : line.getLast? with
      | none => simp [hreturn]
      | some e =>
        rw [hend] at hlast
        simpa using hlast

end Text

namespace Position

theorem endOf_eq_behind (text : String) : endOf text = behind text.toList :=
  (behind_append [] text.toList).symm

/-- Behind some characters, the column counts those behind the last line feed. -/
theorem exists_start (before : List Char) : ∃ above start, before = above ++ start ∧ Text.StartsLine above ∧ '\n' ∉ start ∧
    behind before = ⟨above.count '\n' + 1, start.length⟩ := by
  induction before using List.reverseRecOn with
  | nil => exact ⟨[], [], rfl, .inl rfl, List.not_mem_nil, rfl⟩
  | append_singleton before c ih =>
    obtain ⟨above, start, rfl, habove, hstart, hbehind⟩ := ih
    rw [behind_snoc, hbehind, step]
    by_cases hc : c = '\n'
    · refine ⟨above ++ start ++ [c], [], (List.append_nil _).symm, .inr ?_, List.not_mem_nil, ?_⟩
      · rw [List.getLast?_concat, hc]
      · rw [if_pos hc, hc, List.count_append, List.count_append, List.count_eq_zero_of_not_mem hstart,
          List.count_singleton_self]
        rfl
    · refine ⟨above, start ++ [c], List.append_assoc .., habove, by simp [hstart, Ne.symm hc], ?_⟩
      rw [if_neg hc, List.length_append, List.length_singleton]

/-- The line of a position shows the character that stands there, at the column of the position, unless it ends the line. -/
theorem exists_row_behind {before rest : List Char} {c : Char} (hfeed : c ≠ '\n') (hreturn : c ≠ '\r') :
    ∃ row, Text.Row (before ++ c :: rest) (behind before).line row ∧ row[(behind before).column]? = some c := by
  obtain ⟨above, start, rfl, habove, hstart, hbehind⟩ := exists_start before
  obtain ⟨more, hrow⟩ := Text.exists_row habove hstart hfeed hreturn rest
  rw [hbehind]
  exact ⟨start ++ c :: more, hrow, by simp⟩

end Position

end Scriptlet
