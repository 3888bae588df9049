import Scriptlet.Command.Run
import Scriptlet.Proofs.Command.Arguments
import Scriptlet.Proofs.Command.Paths

/-!
# What a command leaves behind

A command prints exactly what was asked for and tells nothing, or it tells why not and prints nothing. It looks at its
standard input only if that is its input, and else only at what reading its path gives, so at the places that the path leads
through.
-/

namespace Scriptlet

/-! ## What is printed -/

namespace Command

/-- What is printed for a source in each format. Only the tokens do without a program. -/
inductive Prints (options : Options) (source : String) : String → Prop where
  | tokens {ts : List Token} : options.format = .tokens → tokenize source = .ok ts →
      Prints options source (Token.listing ts)
  | sexpr {p : Program} : options.format = .sexpr → Program.parse source = .ok p →
      Prints options source (p.toSExpr.render ++ "\n")
  | compact {p : Program} : options.format = .json → options.compact = true → Program.parse source = .ok p →
      Prints options source (p.toJson.compact ++ "\n")
  | pretty {p : Program} : options.format = .json → options.compact = false → Program.parse source = .ok p →
      Prints options source (p.toJson.pretty ++ "\n")

/-- The bytes of the input that is selected: without a path or with a single dash in its place these are the bytes of the
standard input, and with any other path the bytes that are read there. -/
inductive Supplies (stdin : ByteArray) (read : FileReader) : Option String → ByteArray → Prop where
  | standard : Supplies stdin read none stdin
  | dash : Supplies stdin read (some "-") stdin
  | file {path : String} {bytes : ByteArray} : path ≠ "-" → read path = .ok bytes → Supplies stdin read (some path) bytes

/-- A command delivers a text: its arguments ask for options, the input that is selected is a source in UTF-8, and the text is
printed for that source. -/
def Delivers (args : List String) (stdin : ByteArray) (read : FileReader) (text : String) : Prop :=
  ∃ options source, Options.Asked args options ∧ Supplies stdin read options.path source.toUTF8 ∧ Prints options source text

/-- The output in the format of tokens is the listing. -/
theorem output_tokens {options : Options} (h : options.format = .tokens) (source : String) :
    output options source = ((tokenize source).map Token.listing).mapError .lex := by
  unfold output
  rw [h]

/-- The output in any other format is the text of the program, and a line feed. -/
theorem output_program {options : Options} (h : options.format ≠ .tokens) (source : String) :
    output options source = (Program.parse source).map fun program => programText options program ++ "\n" := by
  unfold output
  cases hformat : options.format with
  | tokens => exact absurd hformat h
  | json => rfl
  | sexpr => rfl

/-- What is output is printed. -/
theorem prints_of_output {options : Options} {source text : String} (h : output options source = .ok text) :
    Prints options source text := by
  by_cases htokens : options.format = .tokens
  · rw [output_tokens htokens] at h
    cases hsource : tokenize source with
    | error e =>
      rw [hsource] at h
      cases h
    | ok ts =>
      rw [hsource] at h
      cases h
      exact .tokens htokens hsource
  · rw [output_program htokens] at h
    cases hsource : Program.parse source with
    | error e =>
      rw [hsource] at h
      cases h
    | ok p =>
      rw [hsource] at h
      cases h
      unfold programText
      cases hformat : options.format with
      | tokens => exact absurd hformat htokens
      | sexpr => exact .sexpr hformat hsource
      | json =>
        cases hcompact : options.compact with
        | true => exact .compact hformat hcompact hsource
        | false => exact .pretty hformat hcompact hsource

/-- What is printed is output. -/
theorem Prints.output {options : Options} {source text : String} (h : Prints options source text) :
    output options source = .ok text := by
  cases h with
  | tokens hformat hsource =>
    rw [output_tokens hformat, hsource]
    rfl
  | sexpr hformat hsource =>
    rw [output_program (by simp [hformat]), hsource]
    simp [Except.map, programText, hformat]
  | compact hformat hcompact hsource =>
    rw [output_program (by simp [hformat]), hsource]
    simp [Except.map, programText, hformat, hcompact]
  | pretty hformat hcompact hsource =>
    rw [output_program (by simp [hformat]), hsource]
    simp [Except.map, programText, hformat, hcompact]

/-- Bytes are read as the source whose bytes they are. -/
theorem fromUTF8?_eq_some_iff (bytes : ByteArray) (source : String) :
    String.fromUTF8? bytes = some source ↔ bytes = source.toUTF8 := by
  unfold String.fromUTF8?
  constructor
  · intro h
    split at h
    · cases h
      rfl
    · cases h
  · rintro rfl
    exact dif_pos source.isValidUTF8

/-! ## What is read -/

/-- A path other than a single dash selects the file at the path. -/
theorem input_of_path {options : Options} {path : String} (h : options.path = some path) (hpath : path ≠ "-") :
    options.input = .file path := by
  rw [Options.input, h]
  exact if_neg hpath

/-- No path, or a single dash, selects the standard input. -/
theorem input_of_standard {options : Options} (h : options.path = none ∨ options.path = some "-") :
    options.input = .standard := by
  rcases h with h | h
  · rw [Options.input, h]
  · rw [Options.input, h]
    exact if_pos rfl

/-- The bytes that are fetched are those of the input that is selected. -/
theorem fetch_eq_ok_iff {stdin bytes : ByteArray} {read : FileReader} (options : Options) :
    fetch stdin read options.input = .ok bytes ↔ Supplies stdin read options.path bytes := by
  constructor
  · intro h
    cases hpath : options.path with
    | none =>
      rw [input_of_standard (.inl hpath)] at h
      cases h
      exact .standard
    | some path =>
      by_cases hdash : path = "-"
      · rw [input_of_standard (.inr (hdash ▸ hpath))] at h
        cases h
        rw [hdash]
        exact .dash
      · rw [input_of_path hpath hdash] at h
        exact .file hdash h
  · intro h
    generalize hpath : options.path = path at h
    cases h with
    | standard => rw [input_of_standard (.inl hpath)]; rfl
    | dash => rw [input_of_standard (.inr hpath)]; rfl
    | file hdash hread => rw [input_of_path hpath hdash]; exact hread

/-! ## The exit -/

/-- A message is told whatever its words are. -/
theorem complaint_ne_empty (message : String) : complaint message ≠ "" := by
  simp [complaint]

theorem complaintWithCause_ne_empty (message cause : String) : complaintWithCause message cause ≠ "" := by
  simp [complaintWithCause]

/-- A report tells something. -/
theorem render_ne_empty (file source : String) (fault : ParseFault) :
    Report.render file source fault ≠ "" := by
  simp [Report.render, Report.rows]

/-- A command that has a source to print for succeeds. -/
theorem finish_of_prints {options : Options} {source text : String} (h : Prints options source text) :
    finish options (.ok source.toUTF8) = .success text := by
  unfold finish
  dsimp only
  rw [(fromUTF8?_eq_some_iff _ source).mpr rfl]
  dsimp only
  rw [h.output]

/-- A command that does not print for the source that its bytes are tells something. -/
theorem finish_of_not_prints {options : Options} {bytes : Except ReadFault ByteArray}
    (h : ¬∃ source text, bytes = .ok source.toUTF8 ∧ Prints options source text) :
    ∃ message, message ≠ "" ∧ finish options bytes = .failure message := by
  unfold finish
  cases bytes with
  | error fault => exact ⟨_, complaintWithCause_ne_empty _ _, rfl⟩
  | ok bytes =>
    dsimp only
    cases hsource : String.fromUTF8? bytes with
    | none => exact ⟨_, complaintWithCause_ne_empty _ _, rfl⟩
    | some source =>
      dsimp only
      cases houtput : output options source with
      | error fault => exact ⟨_, render_ne_empty _ _ _, rfl⟩
      | ok text =>
        have hbytes := (fromUTF8?_eq_some_iff bytes source).mp hsource
        exact absurd ⟨source, text, congrArg _ hbytes, prints_of_output houtput⟩ h

/-- Arguments that ask for options lead to the exit for what is fetched. -/
theorem exit_of_asked {args : List String} {options : Options} (h : Options.Asked args options) (stdin : ByteArray)
    (read : FileReader) : exit args stdin read = finish options (fetch stdin read options.input) := by
  rw [exit, (Options.ofArgs_eq_ok_iff args options).mpr h]

/-- Arguments that ask for nothing are refused before anything is read. -/
theorem exit_of_not_asked {args : List String} (h : ¬∃ options, Options.Asked args options) :
    ∃ message, message ≠ "" ∧ ∀ stdin read, exit args stdin read = .failure message := by
  cases hargs : Options.ofArgs args with
  | ok options => exact absurd ⟨options, (Options.ofArgs_eq_ok_iff args options).mp hargs⟩ h
  | error fault =>
    refine ⟨_, complaint_ne_empty fault.message, fun stdin read => ?_⟩
    rw [exit, hargs]

variable {args : List String} {stdin : ByteArray} {read : FileReader}

/-- A command that delivers a text succeeds with it. -/
theorem exit_of_delivers {text : String} (h : Delivers args stdin read text) : exit args stdin read = .success text := by
  obtain ⟨options, source, hoptions, hbytes, hprints⟩ := h
  rw [exit_of_asked hoptions, (fetch_eq_ok_iff options).mpr hbytes, finish_of_prints hprints]

/-- A command that delivers no text fails and tells something. -/
theorem exit_of_not_delivers (h : ¬∃ text, Delivers args stdin read text) :
    ∃ message, message ≠ "" ∧ exit args stdin read = .failure message := by
  by_cases hasked : ∃ options, Options.Asked args options
  · obtain ⟨options, hoptions⟩ := hasked
    rw [exit_of_asked hoptions]
    refine finish_of_not_prints ?_
    rintro ⟨source, text, hbytes, hprints⟩
    exact h ⟨text, options, source, hoptions, (fetch_eq_ok_iff options).mp hbytes, hprints⟩
  · obtain ⟨message, hmessage, hexit⟩ := exit_of_not_asked hasked
    exact ⟨message, hmessage, hexit stdin read⟩

/-- A command that reads the file at a path depends on what reading that path gives and on nothing else. -/
theorem exit_of_path {options : Options} {path : String} (hasked : Options.Asked args options)
    (hpath : options.path = some path) (hdash : path ≠ "-") (stdin' : ByteArray) {read' : FileReader}
    (hread : read' path = read path) : exit args stdin' read' = exit args stdin read := by
  rw [exit_of_asked hasked, exit_of_asked hasked, input_of_path hpath hdash, fetch, fetch, hread]

/-- The exit code is 0 exactly if a text is delivered, and then that text is all that is written. Otherwise the exit code is
1, nothing is printed and something is told. Refused arguments are refused whatever the standard input and the files are. A
command that reads its standard input does not look at any file. One that reads a file depends on what reading its path gives
and on nothing else; so in a workspace, wherever it starts, it depends neither on its standard input nor on what is the case at
any place that the path does not lead through. -/
theorem run_outcome (args : List String) (stdin : ByteArray) (read : FileReader) :
    ((exit args stdin read).code = 0 ↔ ∃ text, Delivers args stdin read text) ∧
    (∀ text, Delivers args stdin read text → exit args stdin read = ⟨0, text, ""⟩) ∧
    ((¬∃ text, Delivers args stdin read text) →
      (exit args stdin read).code = 1 ∧ (exit args stdin read).stdout = "" ∧ (exit args stdin read).stderr ≠ "") ∧
    ((¬∃ options, Options.Asked args options) → ∀ stdin' read', exit args stdin' read' = exit args stdin read) ∧
    (∀ options, Options.Asked args options → options.path = none ∨ options.path = some "-" →
      ∀ read', exit args stdin read' = exit args stdin read) ∧
    (∀ options path, Options.Asked args options → options.path = some path → path ≠ "-" →
      ∀ stdin' read', read' path = read path → exit args stdin' read' = exit args stdin read) ∧
    ∀ options path, Options.Asked args options → options.path = some path → path ≠ "-" →
      ∀ (start : List String) (w w' : Workspace),
        (∀ place ∈ Workspace.waypoints start path, Workspace.SameAt start place w' w) →
          ∀ stdin', run args stdin' w' start = run args stdin w start := by
  refine ⟨⟨fun hcode => ?_, ?_⟩, fun text htext => exit_of_delivers htext, fun hnone => ?_, fun hnot stdin' read' => ?_,
    fun options hoptions hinput read' => ?_, fun options path hoptions hpath hdash stdin' read' => ?_,
    fun options path hoptions hpath hdash start w w' hsame stdin' => ?_⟩
  · by_cases hsome : ∃ text, Delivers args stdin read text
    · exact hsome
    · obtain ⟨message, -, hexit⟩ := exit_of_not_delivers hsome
      rw [hexit] at hcode
      cases hcode
  · rintro ⟨text, htext⟩
    rw [exit_of_delivers htext]
    rfl
  · obtain ⟨message, hmessage, hexit⟩ := exit_of_not_delivers hnone
    rw [hexit]
    exact ⟨rfl, rfl, hmessage⟩
  · obtain ⟨message, -, hexit⟩ := exit_of_not_asked hnot
    rw [hexit, hexit]
  · rw [exit_of_asked hoptions, exit_of_asked hoptions, input_of_standard hinput]
    rfl
  · exact exit_of_path hoptions hpath hdash stdin'
  · rw [run, run]
    exact exit_of_path hoptions hpath hdash stdin' (Workspace.read_congr hsame)

/-- Of two formats the last one counts. The file stands at a path from the root, and neither the standard input nor another
file of its directory changes anything. -/
theorem run_outcome_last_format :
    run ["-f", "sexpr", "/home/a", "--format", "tokens"] .empty ⟨[("a", "x;".toUTF8)]⟩ ["home"] =
      ⟨0, "IDENTIFIER x\n; ;\n", ""⟩ ∧
    run ["-f", "sexpr", "/home/a", "--format", "tokens"] "@".toUTF8 ⟨[("b", "@".toUTF8), ("a", "x;".toUTF8)]⟩ ["home"] =
      ⟨0, "IDENTIFIER x\n; ;\n", ""⟩ := by
  have hasked : Options.Asked ["-f", "sexpr", "/home/a", "--format", "tokens"] ⟨.tokens, false, some "/home/a"⟩ := by
    rw [← Options.ofArgs_eq_ok_iff]
    rfl
  have hread : Workspace.read ⟨[("a", "x;".toUTF8)]⟩ ["home"] "/home/a" = .ok "x;".toUTF8 := by with_unfolding_all rfl
  have htokens : tokenize "x;" = .ok [⟨.name, "x", ⟨1, 0⟩⟩, ⟨.semicolon, ";", ⟨1, 1⟩⟩] := by with_unfolding_all rfl
  obtain ⟨-, hdelivers, -, -, -, -, hway⟩ := run_outcome ["-f", "sexpr", "/home/a", "--format", "tokens"] .empty
    (Workspace.read ⟨[("a", "x;".toUTF8)]⟩ ["home"])
  have hexit := hdelivers _ ⟨_, "x;", hasked, .file (by decide) hread, .tokens rfl htokens⟩
  have hsame : ∀ place ∈ Workspace.waypoints ["home"] "/home/a", Workspace.SameAt ["home"] place
      ⟨[("b", "@".toUTF8), ("a", "x;".toUTF8)]⟩ ⟨[("a", "x;".toUTF8)]⟩ := by
    unfold Workspace.SameAt
    decide +kernel
  exact ⟨hexit, (hway _ _ hasked rfl (by decide) _ _ _ hsame _).trans hexit⟩

end Command

end Scriptlet
