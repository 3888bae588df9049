import Scriptlet.Command.Workspace

/-!
# What reading a path depends on

A path leads through places, one for each of its parts that names something. Reading it looks at these places only: at the
file that stands there, or at whether a directory does. A file on whose way no other file stands is read by its path from the
root, wherever the command was started.
-/

namespace Scriptlet

namespace Workspace

/-- The places that parts lead through from a directory. -/
def places (here : List String) : List String → List (List String)
  | [] => []
  | part :: later =>
    if part = "" ∨ part = "." then places here later
    else if part = ".." then places here.dropLast later
    else (here ++ [part]) :: places (here ++ [part]) later

/-- The places that a path leads through. -/
def waypoints (start : List String) (path : String) : List (List String) :=
  places (if isAbsolute path then [] else start) (parts path)

/-- Two workspaces are the same at a place: the same file stands there, and it is a directory in both or in none. -/
def SameAt (start place : List String) (w w' : Workspace) : Prop :=
  w.file? start place = w'.file? start place ∧ w.isDirectory start place = w'.isDirectory start place

variable {w w' : Workspace} {start place here later : List String} {path part name : String}

/-! ## Parts that move -/

/-- An empty part and a single dot stay in the directory. -/
theorem follow_stay (h : part = "" ∨ part = ".") : w.follow start here (part :: later) = w.follow start here later := by
  rw [follow, if_pos h]

/-- Two dots go up. -/
theorem follow_up : w.follow start here (".." :: later) = w.follow start here.dropLast later := by
  rw [follow, if_neg (by decide), if_pos rfl]

/-- Any other part goes down; a file is what the path names only if the part is the last one. -/
theorem follow_file {bytes : ByteArray} (hname : ¬(part = "" ∨ part = ".") ∧ part ≠ "..")
    (hfile : w.file? start (here ++ [part]) = some bytes) :
    w.follow start here (part :: later) = if later = [] then .ok bytes else .error .notDirectory := by
  rw [follow, if_neg hname.1, if_neg hname.2, hfile]

/-- A part that goes down to a directory stays there for the later parts. -/
theorem follow_directory (hname : ¬(part = "" ∨ part = ".") ∧ part ≠ "..") (hnone : w.file? start (here ++ [part]) = none)
    (hdirectory : w.isDirectory start (here ++ [part]) = true) :
    w.follow start here (part :: later) = w.follow start (here ++ [part]) later := by
  rw [follow, if_neg hname.1, if_neg hname.2, hnone]
  exact if_pos hdirectory

/-! ## Only places on the way count -/

/-- Parts are followed alike in workspaces that are the same at each place they lead through. -/
theorem follow_congr (h : ∀ place ∈ places here later, SameAt start place w w') :
    w.follow start here later = w'.follow start here later := by
  induction later generalizing here with
  | nil => rw [follow, follow]
  | cons part later ih =>
    by_cases hstay : part = "" ∨ part = "."
    · rw [places, if_pos hstay] at h
      rw [follow_stay hstay, follow_stay hstay, ih h]
    by_cases hup : part = ".."
    · rw [places, if_neg hstay, if_pos hup] at h
      rw [hup, follow_up, follow_up, ih h]
    rw [places, if_neg hstay, if_neg hup, List.forall_mem_cons] at h
    obtain ⟨⟨hfile, hdirectory⟩, hlater⟩ := h
    rw [follow, follow, if_neg hstay, if_neg hstay, if_neg hup, if_neg hup, hfile, hdirectory, ih hlater]

/-- A path is read alike in workspaces that are the same at each place it leads through. -/
theorem read_congr (h : ∀ place ∈ waypoints start path, SameAt start place w w') : w.read start path = w'.read start path := by
  unfold read
  split
  · rfl
  · exact follow_congr h

/-- Two workspaces are the same at every place but that of a name whose bytes differ. -/
theorem sameAt_of_ne {before after : List (String × ByteArray)} {bytes bytes' : ByteArray} (h : placeOf start name ≠ place) :
    SameAt start place ⟨before ++ (name, bytes) :: after⟩ ⟨before ++ (name, bytes') :: after⟩ := by
  refine ⟨?_, by simp only [isDirectory, List.any_append, List.any_cons]⟩
  simp only [file?, List.find?_append, List.find?_cons, h, decide_false]

/-- The bytes of a name that stands at no place on the way do not matter, wherever else it stands. -/
theorem read_replace {before after : List (String × ByteArray)} {bytes bytes' : ByteArray}
    (h : placeOf start name ∉ waypoints start path) :
    read ⟨before ++ (name, bytes) :: after⟩ start path = read ⟨before ++ (name, bytes') :: after⟩ start path :=
  read_congr fun _ hplace => sameAt_of_ne (ne_of_mem_of_not_mem hplace h).symm

/-! ## Files are found -/

/-- The directories above a file are directories. -/
theorem isDirectory_of_file? {bytes : ByteArray} (h : w.file? start (here ++ part :: later) = some bytes) :
    w.isDirectory start here = true := by
  obtain ⟨f, hf, -⟩ := Option.map_eq_some_iff.mp h
  have hplace : placeOf start f.1 = here ++ part :: later := by simpa using List.find?_some hf
  refine Bool.or_eq_true_iff.mpr (.inr (List.any_eq_true.mpr ⟨f, List.mem_of_find?_eq_some hf, ?_⟩))
  rw [hplace]
  simp

/-- The parts of the place of a file lead to it if no other file is on the way. -/
theorem follow_of_file? {bytes : ByteArray} (hne : later ≠ [])
    (hnames : ∀ part ∈ later, ¬(part = "" ∨ part = ".") ∧ part ≠ "..") (hfile : w.file? start (here ++ later) = some bytes)
    (hway : ∀ above, above <+: later → above ≠ later → w.file? start (here ++ above) = none) :
    w.follow start here later = .ok bytes := by
  induction later generalizing here with
  | nil => exact absurd rfl hne
  | cons part later ih =>
    rw [List.forall_mem_cons] at hnames
    cases later with
    | nil => rw [follow_file hnames.1 hfile, if_pos rfl]
    | cons next later =>
      have hnone : w.file? start (here ++ [part]) = none := hway [part] (by simp) (by simp)
      have hsplit : here ++ part :: next :: later = here ++ [part] ++ next :: later := by simp
      rw [hsplit] at hfile
      rw [follow_directory hnames.1 hnone (isDirectory_of_file? hfile)]
      refine ih (List.cons_ne_nil _ _) hnames.2 hfile fun above habove hother => ?_
      rw [List.append_assoc]
      exact hway ([part] ++ above) (List.cons_prefix_cons.mpr ⟨rfl, habove⟩) (by simpa using hother)

/-- A file is read by its path from the root if no other file is on the way. -/
theorem read_of_file? {bytes : ByteArray} (hne : place ≠ []) (hpath : isAbsolute path = true) (hparts : parts path = "" :: place)
    (hnames : ∀ part ∈ place, ¬(part = "" ∨ part = ".") ∧ part ≠ "..") (hfile : w.file? start place = some bytes)
    (hway : ∀ above, above <+: place → above ≠ place → w.file? start above = none) : w.read start path = .ok bytes := by
  have hpath' : path ≠ "" := by
    rintro rfl
    cases hpath
  rw [read, if_neg hpath', if_pos hpath, hparts, follow_stay (.inl rfl)]
  exact follow_of_file? hne hnames hfile hway

/-- A path from the root, one that goes up from the start, and one that goes up from the root. -/
example : read ⟨[("a", "x;".toUTF8), ("/etc/b", "y;".toUTF8)]⟩ ["home", "me"] "/home/me/a" = .ok "x;".toUTF8 ∧
    read ⟨[("a", "x;".toUTF8), ("/etc/b", "y;".toUTF8)]⟩ ["home", "me"] "../../etc/b" = .ok "y;".toUTF8 ∧
    read ⟨[("a", "x;".toUTF8), ("/etc/b", "y;".toUTF8)]⟩ ["home", "me"] "/../etc/b" = .ok "y;".toUTF8 := by
  refine ⟨?_, ?_, ?_⟩ <;> with_unfolding_all rfl

end Workspace

end Scriptlet
