import Scriptlet.Command.Options

/-!
# What argument lists ask for

An argument list is accepted if it is a row of items, at most one of them an input: a format flag with the name of a format
behind it, the flag for one line, or an input. The options follow from the items alone; the last format counts.
-/

namespace Scriptlet

/-! ## Items -/

/-- The name of a format. -/
def Format.name : Format → String
  | json => "json"
  | sexpr => "sexpr"
  | tokens => "tokens"

/-- A format is known by its name. -/
theorem Format.ofName?_eq_some_iff (name : String) (format : Format) : ofName? name = some format ↔ format.name = name := by
  constructor
  · intro h
    unfold ofName? at h
    split at h <;> cases h <;> rfl
  · rintro rfl
    cases format <;> rfl

/-- What one argument asks for, or two. -/
inductive Item where
  | format (flag : String) (format : Format)
  | compact
  | input (path : String)
  deriving DecidableEq

namespace Item

/-- The arguments of an item. -/
def args : Item → List String
  | .format flag f => [flag, f.name]
  | .compact => ["--compact"]
  | .input path => [path]

/-- There are two flags for a format. An input does not start with a dash, unless that is all of it. -/
def Allowed : Item → Prop
  | .format flag _ => flag = "--format" ∨ flag = "-f"
  | .compact => True
  | .input path => path = "-" ∨ path.toList.head? ≠ some '-'

/-- The formats that items ask for. -/
def formats (items : List Item) : List Format :=
  items.filterMap fun
    | .format _ f => some f
    | _ => none

/-- The inputs that items name. -/
def paths (items : List Item) : List String :=
  items.filterMap fun
    | .input path => some path
    | _ => none

end Item

namespace Options

/-- The options that items ask for: the last format if there is one, one line if the flag for it stands anywhere, and the
input. -/
def ofItems (items : List Item) : Options :=
  ⟨(Item.formats items).getLast?.getD .json, decide (.compact ∈ items), (Item.paths items).head?⟩

/-- An argument list asks for options: it is a row of items that are allowed, with one input at most. -/
def Asked (args : List String) (options : Options) : Prop :=
  ∃ items : List Item, items.flatMap Item.args = args ∧ (∀ item ∈ items, item.Allowed) ∧ (Item.paths items).length ≤ 1 ∧
    options = ofItems items

/-- The options after more items. -/
def plus (options : Options) (items : List Item) : Options :=
  ⟨(Item.formats items).getLast?.getD options.format, options.compact || decide (.compact ∈ items),
    options.path.or (Item.paths items).head?⟩

variable (options : Options) (items : List Item)

/-- On top of what stands for no arguments the items say everything. -/
theorem plus_initial : initial.plus items = ofItems items := by
  simp only [plus, initial, ofItems, Bool.false_or, Option.none_or]

theorem plus_nil : options.plus [] = options := by
  simp [plus, Item.formats, Item.paths]

/-- A format takes the place of the one in front. -/
theorem plus_format (flag : String) (format : Format) :
    options.plus (.format flag format :: items) = plus ⟨format, options.compact, options.path⟩ items := by
  have hformats : Item.formats (.format flag format :: items) = format :: Item.formats items := rfl
  have hpaths : Item.paths (.format flag format :: items) = Item.paths items := rfl
  simp [plus, hformats, hpaths, List.getLast?_cons]

theorem plus_compact : options.plus (.compact :: items) = plus ⟨options.format, true, options.path⟩ items := by
  have hformats : Item.formats (.compact :: items) = Item.formats items := rfl
  have hpaths : Item.paths (.compact :: items) = Item.paths items := rfl
  simp [plus, hformats, hpaths]

variable {options}

/-- The first path is the input; a later one would be a fault. -/
theorem plus_input (h : options.path = none) (path : String) :
    options.plus (.input path :: items) = plus ⟨options.format, options.compact, some path⟩ items := by
  have hformats : Item.formats (.input path :: items) = Item.formats items := rfl
  have hpaths : Item.paths (.input path :: items) = path :: Item.paths items := rfl
  simp [plus, hformats, hpaths, h]

/-! ## Reading arguments -/

/-- A single hyphen is no flag. -/
theorem isFlag_eq_false_iff (arg : String) : isFlag arg = false ↔ arg = "-" ∨ arg.toList.head? ≠ some '-' := by
  by_cases harg : arg = "-"
  · simp [isFlag, harg]
  · simp [isFlag, harg]

/-- A flag for the format takes the argument behind it. -/
theorem extend_format {flag : String} (hflag : flag = "--format" ∨ flag = "-f") (format : Format) (args : List String) :
    options.extend (flag :: format.name :: args) = extend ⟨format, options.compact, options.path⟩ args := by
  have hname : Format.ofName? format.name = some format := (Format.ofName?_eq_some_iff _ _).mpr rfl
  rw [extend.eq_def]
  simp only [hflag, hname, if_true]

theorem extend_compact (args : List String) :
    options.extend ("--compact" :: args) = extend ⟨options.format, true, options.path⟩ args := by
  rw [extend.eq_def]
  simp

/-- What is no flag is the input, as long as there is none. -/
theorem extend_input (hnone : options.path = none) {path : String} (hpath : path = "-" ∨ path.toList.head? ≠ some '-')
    (args : List String) : options.extend (path :: args) = extend ⟨options.format, options.compact, some path⟩ args := by
  have hflag : isFlag path = false := (isFlag_eq_false_iff path).mpr hpath
  have hother : ∀ flag, isFlag flag = true → path ≠ flag := by
    rintro flag htrue rfl
    rw [hflag] at htrue
    cases htrue
  have hformat : ¬(path = "--format" ∨ path = "-f") := by
    rintro (h | h)
    · exact hother _ (by decide) h
    · exact hother _ (by decide) h
  rw [extend.eq_def]
  simp only [hformat, hother _ (show isFlag "--compact" = true by decide), hflag, hnone, if_false, Bool.false_eq_true]

/-- Items that are allowed are read, if there is one input at most. -/
theorem extend_of_items (items : List Item) (hallowed : ∀ item ∈ items, item.Allowed)
    (hpaths : (options.path.toList ++ Item.paths items).length ≤ 1) :
    options.extend (items.flatMap Item.args) = .ok (options.plus items) := by
  induction items generalizing options with
  | nil => rw [List.flatMap_nil, extend, plus_nil]
  | cons item items ih =>
    rw [List.forall_mem_cons] at hallowed
    obtain ⟨hitem, hitems⟩ := hallowed
    rw [List.flatMap_cons]
    cases item with
    | format flag format =>
      rw [plus_format]
      exact (extend_format hitem format _).trans (ih hitems hpaths)
    | compact =>
      rw [plus_compact]
      exact (extend_compact _).trans (ih hitems hpaths)
    | input path =>
      have hlength : (Item.paths (.input path :: items)).length = (Item.paths items).length + 1 := rfl
      rw [List.length_append, hlength] at hpaths
      have hnone : options.path = none := by
        rw [← Option.toList_eq_nil_iff, ← List.length_eq_zero_iff]
        omega
      rw [plus_input items hnone]
      refine (extend_input hnone hitem _).trans (ih hitems ?_)
      simp only [Option.toList_some, List.length_append, List.length_singleton]
      omega

/-- Arguments that are read are items that are allowed. -/
theorem items_of_extend {args : List String} {read : Options} (h : options.extend args = .ok read) :
    ∃ items : List Item, items.flatMap Item.args = args ∧ (∀ item ∈ items, item.Allowed) ∧
      (options.path.toList ++ Item.paths items).length ≤ 1 ∧ read = options.plus items := by
  fun_induction extend options args with
  | case1 options =>
    cases h
    refine ⟨[], rfl, List.forall_mem_nil _, ?_, (plus_nil _).symm⟩
    cases options.path <;> simp [Item.paths]
  | case2 => cases h
  | case3 => cases h
  | case4 options flag hflag name args format hname ih =>
    obtain ⟨items, rfl, hallowed, hpaths, rfl⟩ := ih h
    obtain rfl := (Format.ofName?_eq_some_iff _ _).mp hname
    exact ⟨.format flag format :: items, rfl, List.forall_mem_cons.mpr ⟨hflag, hallowed⟩, hpaths, (plus_format _ _ _ _).symm⟩
  | case5 options args hflag ih =>
    obtain ⟨items, rfl, hallowed, hpaths, rfl⟩ := ih h
    exact ⟨.compact :: items, rfl, List.forall_mem_cons.mpr ⟨trivial, hallowed⟩, hpaths, (plus_compact _ _).symm⟩
  | case6 => cases h
  | case7 => cases h
  | case8 options path args hformat hcompact hflag hnone ih =>
    obtain ⟨items, rfl, hallowed, hpaths, rfl⟩ := ih h
    have hinput : (Item.input path).Allowed := (isFlag_eq_false_iff path).mp (Bool.eq_false_iff.mpr hflag)
    refine ⟨.input path :: items, rfl, List.forall_mem_cons.mpr ⟨hinput, hallowed⟩, ?_, (plus_input items hnone path).symm⟩
    rw [hnone]
    exact hpaths

/-- Arguments give options exactly if they ask for them. -/
theorem ofArgs_eq_ok_iff (args : List String) (options : Options) : ofArgs args = .ok options ↔ Asked args options := by
  constructor
  · intro h
    obtain ⟨items, hargs, hallowed, hpaths, rfl⟩ := items_of_extend h
    exact ⟨items, hargs, hallowed, hpaths, plus_initial items⟩
  · rintro ⟨items, rfl, hallowed, hpaths, rfl⟩
    have hread : initial.extend (items.flatMap Item.args) = .ok (initial.plus items) :=
      extend_of_items items hallowed hpaths
    rw [ofArgs, hread, plus_initial]

end Options

end Scriptlet
