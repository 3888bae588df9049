import Scriptlet.Proofs.Json.Reading
import Scriptlet.Proofs.Tree.Unsigned
import Scriptlet.Tree.ToJson

/-!
# Trees out of JSON

Reads a tree back from the JSON value it was written as. A node is known by its form and its members by their keys, so their
order does not matter, and nothing that a source can say is lost in the texts of a program: two programs that were read have
equal texts exactly if they are the same.
-/

namespace Scriptlet

/-! ## Nodes -/

namespace Json

/-- The member of an object with a key. -/
def get? : Json → String → Option Json
  | object members, key => members.lookup key
  | _, _ => none

@[simp] theorem get?_object (members : List (String × Json)) (key : String) :
    (object members).get? key = members.lookup key := rfl

/-- What an object holds under a key is smaller than its members. -/
theorem sizeOf_lt_of_lookup {members : List (String × Json)} {key : String} {w : Json}
    (h : members.lookup key = some w) : sizeOf w < sizeOf members := by
  induction members with
  | nil => cases h
  | cons first members ih =>
    obtain ⟨k, v⟩ := first
    rw [List.lookup_cons] at h
    split at h
    · cases h
      simp only [List.cons.sizeOf_spec, Prod.mk.sizeOf_spec]
      omega
    · have hlt := ih h
      simp only [List.cons.sizeOf_spec]
      omega

/-- The member of an object is smaller than the object. -/
theorem sizeOf_lt_of_get? {v w : Json} {key : String} (h : v.get? key = some w) : sizeOf w < sizeOf v := by
  cases v with
  | scalar s => cases h
  | array items => cases h
  | object members =>
    have hlt := sizeOf_lt_of_lookup h
    rw [object.sizeOf_spec]
    omega

/-- The items of an array. -/
def items? : Json → Option (List Json)
  | array items => some items
  | _ => none

/-- The items of an array are smaller than the array. -/
theorem sizeOf_lt_of_items? {v w : Json} {items : List Json} (h : v.items? = some items) (hw : w ∈ items) :
    sizeOf w < sizeOf v := by
  cases v with
  | scalar s => cases h
  | array items =>
    cases h
    have hlt := List.sizeOf_lt_of_mem hw
    rw [array.sizeOf_spec]
    omega
  | object members => cases h

/-- Reads the member of an object with a key, which is smaller than the object. -/
def read {α : Type} (v : Json) (key : String) (f : (w : Json) → sizeOf w < sizeOf v → Option α) : Option α :=
  (v.get? key).pbind fun w hw => f w (sizeOf_lt_of_get? hw)

/-- Reads each item of the member of an object with a key. -/
def readAll {α : Type} (v : Json) (key : String) (f : (w : Json) → sizeOf w < sizeOf v → Option α) : Option (List α) :=
  v.read key fun w hw => w.items?.pbind fun items hitems => items.attach.mapM fun ⟨item, hitem⟩ =>
    f item (Nat.lt_trans (sizeOf_lt_of_items? hitems hitem) hw)

/-- Reading a member does not depend on the proof that it is smaller. -/
@[simp] theorem read_eq {α : Type} (v : Json) (key : String) (f : Json → Option α) :
    (v.read key fun w _ => f w) = (v.get? key).bind f :=
  Option.pbind_eq_bind _ _

/-- Nor does reading the items of a member. -/
@[simp] theorem readAll_eq {α : Type} (v : Json) (key : String) (f : Json → Option α) :
    (v.readAll key fun w _ => f w) = ((v.get? key).bind items?).bind (List.mapM f) := by
  have hitems (items : List Json) : (items.attach.mapM fun ⟨item, _⟩ => f item) = items.mapM f := by
    rw [List.mapM_subtype fun _ _ => rfl, List.unattach_attach]
  simp only [readAll, hitems, read_eq, Option.pbind_eq_bind, Option.bind_assoc]

/-- The text that is a value. -/
def text? : Json → Option String
  | scalar (.text s) => some s
  | _ => none

/-- The truth value that is a value. -/
def bool? : Json → Option Bool
  | scalar (.bool b) => some b
  | _ => none

/-- What is read from a value that may be null: nothing if it is null, and otherwise what `a` is. -/
def orNull {α : Type} (v : Json) (a : Option α) : Option (Option α) :=
  match v with
  | scalar .null => some none
  | _ => a.map some

/-- What is read from a value is not absent. -/
theorem orNull_of_eq_some {α : Type} {v : Json} {read : Json → Option α} {a : α} (hnull : read null = none)
    (h : read v = some a) : v.orNull (read v) = some (some a) := by
  unfold orNull
  split
  · cases hnull.symm.trans h
  · rw [h, Option.map_some]

/-- The form of a node. -/
def form? (v : Json) : Option String := (v.get? "type").bind text?

end Json

/-! ## Reading trees back -/

/-- The number that is a value. -/
def Double.ofJson? : Json → Option Double
  | .scalar .null => some infinity
  | .scalar (.natural n) => some (nearest n 1)
  | .scalar (.double x _) => some x
  | _ => none

/-- The name that is a node. -/
def nameOfJson? (v : Json) : Option String :=
  match v.form? with
  | some "Identifier" => (v.get? "name").bind Json.text?
  | _ => none

/-- The expression that is a node. -/
def Expr.ofJson? (v : Json) : Option Expr :=
  match v.form? with
  | some "Identifier" => (nameOfJson? v).map name
  | some "NumericLiteral" => ((v.get? "value").bind Double.ofJson?).map number
  | some "StringLiteral" => ((v.get? "value").bind Json.text?).map text
  | some "BooleanLiteral" => ((v.get? "value").bind Json.bool?).map bool
  | some "NullLiteral" => some null
  | some "UnaryExpression" => do
    let op ← ((v.get? "operator").bind Json.text?).bind UnaryOp.ofText?
    let argument ← v.read "argument" fun w _ => ofJson? w
    some (unary op argument)
  | some "BinaryExpression" => do
    let op ← ((v.get? "operator").bind Json.text?).bind BinaryOp.ofText?
    let left ← v.read "left" fun w _ => ofJson? w
    let right ← v.read "right" fun w _ => ofJson? w
    some (binary op left right)
  | some "LogicalExpression" => do
    let op ← ((v.get? "operator").bind Json.text?).bind LogicalOp.ofText?
    let left ← v.read "left" fun w _ => ofJson? w
    let right ← v.read "right" fun w _ => ofJson? w
    some (logical op left right)
  | some "AssignmentExpression" => do
    let op ← ((v.get? "operator").bind Json.text?).bind AssignOp.ofText?
    let target ← (v.get? "left").bind nameOfJson?
    let value ← v.read "right" fun w _ => ofJson? w
    some (assign op target value)
  | _ => none
termination_by sizeOf v

/-- The expression that is a node, or none where there is null. -/
def Expr.optionOfJson? (v : Json) : Option (Option Expr) := v.orNull (ofJson? v)

/-- The declared name that is a node. -/
def Declarator.ofJson? (v : Json) : Option Declarator :=
  match v.form? with
  | some "VariableDeclaration" => do
    let name ← (v.get? "id").bind nameOfJson?
    let init ← (v.get? "init").bind Expr.optionOfJson?
    some ⟨name, init⟩
  | _ => none

/-- The declaration that is a node. -/
def Declarator.listOfJson? (v : Json) : Option (List Declarator) :=
  match v.form? with
  | some "VariableStatement" => v.readAll "declarations" fun w _ => ofJson? w
  | _ => none

/-- The opening of a counting loop that is a node. -/
def ForInit.ofJson? (v : Json) : Option ForInit :=
  ((Expr.ofJson? v).map eval).or ((Declarator.listOfJson? v).map declare)

/-- A function if its body is a block. -/
def Stmt.functionOf? (name : String) (params : List String) : Stmt → Option Stmt
  | block body => some (function name params body)
  | _ => none

/-- The statement that is a node. -/
def Stmt.ofJson? (v : Json) : Option Stmt :=
  match v.form? with
  | some "EmptyStatement" => some empty
  | some "BlockStatement" => (v.readAll "body" fun w _ => ofJson? w).map block
  | some "ExpressionStatement" => ((v.get? "expression").bind Expr.ofJson?).map eval
  | some "VariableStatement" => (Declarator.listOfJson? v).map declare
  -- Both sorts of `if` have this form; the alternate tells them apart.
  | some "IfStatement" => do
    let test ← (v.get? "test").bind Expr.ofJson?
    let consequent ← v.read "consequent" fun w _ => ofJson? w
    let alternate ← v.read "alternate" fun w _ => w.orNull (ofJson? w)
    some (alternate.elim (ifThen test consequent) (ifElse test consequent))
  | some "WhileStatement" => do
    let test ← (v.get? "test").bind Expr.ofJson?
    let body ← v.read "body" fun w _ => ofJson? w
    some (whileLoop test body)
  | some "DoWhileStatement" => do
    let body ← v.read "body" fun w _ => ofJson? w
    let test ← (v.get? "test").bind Expr.ofJson?
    some (doWhile body test)
  | some "ForStatement" => do
    let init ← (v.get? "init").bind fun w => w.orNull (ForInit.ofJson? w)
    let test ← (v.get? "test").bind Expr.optionOfJson?
    let update ← (v.get? "update").bind Expr.optionOfJson?
    let body ← v.read "body" fun w _ => ofJson? w
    some (forLoop init test update body)
  | some "FunctionDeclaration" => do
    let name ← (v.get? "name").bind nameOfJson?
    let params ← v.readAll "params" fun w _ => nameOfJson? w
    -- The body of a function is written as a block.
    let body ← v.read "body" fun w _ => ofJson? w
    functionOf? name params body
  | some "ReturnStatement" => ((v.get? "argument").bind Expr.optionOfJson?).map result
  | _ => none
termination_by sizeOf v

/-- The program that is a node. -/
def Program.ofJson? (v : Json) : Option Program :=
  match v.form? with
  | some "Program" => (v.readAll "body" fun w _ => Stmt.ofJson? w).map Program.mk
  | _ => none

/-! ## The order of members -/

namespace Json

/-- A map of values that keeps scalars, the items of arrays and the members of objects, up to the order of the members. -/
structure Rearranges (f : Json → Json) : Prop where
  scalar : ∀ s, f (.scalar s) = .scalar s
  array : ∀ vs, f (.array vs) = .array (vs.map f)
  get? : ∀ v key, (f v).get? key = (v.get? key).map f

/-- A value that is left as it is keeps all of this. -/
theorem rearranges_id : Rearranges id :=
  ⟨fun _ => rfl, fun _ => by rw [List.map_id]; rfl, fun _ _ => by rw [Option.map_id]; rfl⟩

/-- A member that is inserted in order is found as if it stood in front. -/
theorem lookup_insertMember (key k : String) (v : Json) (members : List (String × Json)) :
    (insertMember (k, v) members).lookup key = ((k, v) :: members).lookup key := by
  induction members with
  | nil => rfl
  | cons first members ih =>
    obtain ⟨k₁, v₁⟩ := first
    by_cases hle : k ≤ k₁
    · rw [insertMember, if_pos hle]
    · -- The member goes behind another one, which has another key.
      have hne : k ≠ k₁ := fun h => hle (h ▸ String.le_refl k)
      rw [insertMember, if_neg hle, List.lookup_cons, ih]
      by_cases hkey : key = k₁
      · subst hkey
        simp [List.lookup_cons, beq_eq_false_iff_ne.mpr hne.symm]
      · simp [List.lookup_cons, beq_eq_false_iff_ne.mpr hkey]

/-- The same values are found when the members are sorted. -/
theorem lookup_sortedMembers (key : String) (members : List (String × Json)) :
    (sortedMembers members).lookup key = (members.lookup key).map sorted := by
  induction members with
  | nil => rfl
  | cons first members ih =>
    obtain ⟨k, v⟩ := first
    rw [sortedMembers, lookup_insertMember, List.lookup_cons, List.lookup_cons, ih]
    split
    · rfl
    · rfl

theorem sortedItems_eq_map (items : List Json) : sortedItems items = items.map sorted := by
  induction items with
  | nil => rfl
  | cons item items ih => rw [sortedItems, ih, List.map_cons]

/-- Sorting keeps all of this. -/
theorem rearranges_sorted : Rearranges sorted := by
  refine ⟨fun _ => rfl, fun vs => ?_, fun v key => ?_⟩
  · rw [sorted, sortedItems_eq_map]
  · cases v with
    | scalar s => rfl
    | array items => rfl
    | object members => exact lookup_sortedMembers key members

namespace Rearranges

variable {f : Json → Json} (hf : Rearranges f)

include hf

/-- The form of a node is known whatever the order of its members. -/
theorem form?_node (form : String) (members : List (String × Json)) : (f (node form members)).form? = some form := by
  simp [form?, hf.get?, node, hf.scalar, text?]

/-- So are the values of its other members. -/
theorem get?_node (form : String) (members : List (String × Json)) {key : String} (hkey : key ≠ "type") :
    (f (node form members)).get? key = (members.lookup key).map f := by
  simp [hf.get?, node, List.lookup_cons, beq_eq_false_iff_ne.mpr hkey]

end Rearranges

end Json

/-! ## Trees as they were written -/

/-- No expression is null. -/
theorem Expr.ofJson?_null : ofJson? .null = none := by
  rw [ofJson?]
  rfl

/-- No statement is null. -/
theorem Stmt.ofJson?_null : ofJson? .null = none := by
  rw [ofJson?]
  rfl

/-- Values written one by one are read one by one. -/
theorem mapM_map_eq_some {α β γ : Type} {write : α → β} {read : β → Option γ} {g : α → γ} {as : List α}
    (h : ∀ a ∈ as, read (write a) = some (g a)) : (as.map write).mapM read = some (as.map g) := by
  induction as with
  | nil => rfl
  | cons a as ih =>
    rw [List.forall_mem_cons] at h
    simp [List.mapM_cons, h.1, ih h.2]

variable {f : Json → Json}

/-- A whole number is read back from its value, without its sign. -/
theorem Double.ofJson?_toJson (hf : Json.Rearranges f) {x : Double} (h : x.IsWhole) :
    ofJson? (f x.toJson) = some x.unsigned := by
  rcases h with h | rfl
  · obtain ⟨n, hn⟩ := Option.ne_none_iff_exists'.mp h
    have hfinite := (natural?_eq_some hn).1
    -- Below 2 ^ 64 the digits are read and rounded; from there on the double itself is written.
    by_cases hlt : n < 2 ^ 64
    · simp only [toJson, hfinite, hn, hlt, hf.scalar, ofJson?, nearest_of_natural? hn, if_true, dite_true]
    · have hsign := unsigned_eq_of_natural? hn (by omega)
      simp only [toJson, hfinite, hn, hlt, hf.scalar, ofJson?, hsign, if_false, dite_true]
  · have hinfinite : ¬infinity.isFinite = true := by decide
    rw [toJson, dif_neg hinfinite, hf.scalar]
    rfl

theorem nameOfJson?_toJson (hf : Json.Rearranges f) (s : String) : nameOfJson? (f (nameToJson s)) = some s := by
  simp [nameOfJson?, nameToJson, hf.form?_node, hf.get?_node, hf.scalar, Json.text?]

/-- A well-formed expression is read back from its node, without the signs of its numbers. -/
theorem Expr.ofJson?_toJson (hf : Json.Rearranges f) {e : Expr} (h : e.WellFormed) :
    ofJson? (f e.toJson) = some e.unsigned := by
  induction e with
  | name s =>
    have hform : (f (nameToJson s)).form? = some "Identifier" := hf.form?_node _ _
    rw [toJson, ofJson?, hform]
    simp [nameOfJson?_toJson hf, unsigned]
  | number x =>
    rw [toJson, ofJson?, hf.form?_node]
    simp [hf.get?_node, Double.ofJson?_toJson hf h, unsigned]
  | text s =>
    rw [toJson, ofJson?, hf.form?_node]
    simp [hf.get?_node, hf.scalar, Json.text?, unsigned]
  | bool b =>
    rw [toJson, ofJson?, hf.form?_node]
    simp [hf.get?_node, hf.scalar, Json.bool?, unsigned]
  | null =>
    rw [toJson, ofJson?, hf.form?_node]
    simp [unsigned]
  | unary op a ih =>
    rw [toJson, ofJson?, hf.form?_node]
    simp [hf.get?_node, hf.scalar, List.lookup_cons, Json.text?, UnaryOp.ofText?_text, ih h, unsigned]
  | binary op a b iha ihb =>
    rw [toJson, ofJson?, hf.form?_node]
    simp [hf.get?_node, hf.scalar, List.lookup_cons, Json.text?, BinaryOp.ofText?_text, iha h.1, ihb h.2, unsigned]
  | logical op a b iha ihb =>
    rw [toJson, ofJson?, hf.form?_node]
    simp [hf.get?_node, hf.scalar, List.lookup_cons, Json.text?, LogicalOp.ofText?_text, iha h.1, ihb h.2, unsigned]
  | assign op s a ih =>
    rw [toJson, ofJson?, hf.form?_node]
    simp [hf.get?_node, hf.scalar, List.lookup_cons, Json.text?, AssignOp.ofText?_text, nameOfJson?_toJson hf, ih h.2,
      unsigned]

/-- So is an expression that may be absent. -/
theorem Expr.optionOfJson?_toJson (hf : Json.Rearranges f) {o : Option Expr} (h : ∀ e ∈ o, e.WellFormed) :
    optionOfJson? (f (optionToJson o)) = some (o.map unsigned) := by
  cases o with
  | none => simp [optionToJson, hf.scalar, optionOfJson?, Json.orNull]
  | some e =>
    rw [optionToJson, optionOfJson?, Json.orNull_of_eq_some ofJson?_null (ofJson?_toJson hf (h e rfl)), Option.map_some]

theorem Declarator.ofJson?_toJson (hf : Json.Rearranges f) {d : Declarator} (h : d.WellFormed) :
    ofJson? (f d.toJson) = some d.unsigned := by
  rw [toJson, ofJson?, hf.form?_node]
  simp [hf.get?_node, List.lookup_cons, nameOfJson?_toJson hf, Expr.optionOfJson?_toJson hf h.2, unsigned]

/-- So is a declaration. -/
theorem Declarator.listOfJson?_toJson (hf : Json.Rearranges f) {ds : List Declarator} (h : Declaration.WellFormed ds) :
    listOfJson? (f (listToJson ds)) = some (ds.map unsigned) := by
  have hds : (ds.map (f ∘ toJson)).mapM ofJson? = some (ds.map unsigned) :=
    mapM_map_eq_some fun d hd => ofJson?_toJson hf (h.2 d hd)
  rw [listToJson, listOfJson?, hf.form?_node]
  simp [hf.get?_node, hf.array, Json.items?, hds]

/-- The opening of a counting loop as it was written, or none where there was null. -/
theorem ForInit.optionOfJson?_toJson (hf : Json.Rearranges f) {o : Option ForInit} (h : ∀ i ∈ o, i.WellFormed) :
    (f (optionToJson o)).orNull (ofJson? (f (optionToJson o))) = some (o.map unsigned) := by
  rcases o with _ | i
  · rw [optionToJson, hf.scalar]
    rfl
  · refine Json.orNull_of_eq_some ?_ ?_
    · rw [ofJson?, Expr.ofJson?_null]
      rfl
    · cases i with
      | declare ds =>
        have hnone : Expr.ofJson? (f (Declarator.listToJson ds)) = none := by
          rw [Declarator.listToJson, Expr.ofJson?, hf.form?_node]
          rfl
        simp [optionToJson, ofJson?, hnone, Declarator.listOfJson?_toJson hf (h _ rfl), unsigned]
      | eval e => simp [optionToJson, ofJson?, Expr.ofJson?_toJson hf (h _ rfl), unsigned]

mutual

/-- So is a statement. -/
theorem Stmt.ofJson?_toJson (hf : Json.Rearranges f) (s : Stmt) (h : s.WellFormed) :
    Stmt.ofJson? (f s.toJson) = some s.unsigned := by
  cases s with
  | empty =>
    rw [Stmt.toJson, Stmt.ofJson?, hf.form?_node]
    rfl
  | block body =>
    rw [Stmt.toJson, Stmt.ofJson?, hf.form?_node]
    simp [hf.get?_node, hf.array, Json.items?, Stmt.mapM_ofJson?_listToJson hf body h, Stmt.unsigned]
  | eval e =>
    rw [Stmt.toJson, Stmt.ofJson?, hf.form?_node]
    simp [hf.get?_node, Expr.ofJson?_toJson hf h, Stmt.unsigned]
  | declare ds =>
    have hform : (f (Declarator.listToJson ds)).form? = some "VariableStatement" := hf.form?_node _ _
    rw [Stmt.toJson, Stmt.ofJson?, hform]
    simp [Declarator.listOfJson?_toJson hf h, Stmt.unsigned]
  | ifThen test body =>
    rw [Stmt.toJson, Stmt.ofJson?, hf.form?_node]
    simp [hf.get?_node, hf.scalar, List.lookup_cons, Expr.ofJson?_toJson hf h.1, Stmt.ofJson?_toJson hf body h.2,
      Json.orNull, Stmt.unsigned]
  | ifElse test body other =>
    have hother := Json.orNull_of_eq_some Stmt.ofJson?_null (Stmt.ofJson?_toJson hf other h.2.2.1)
    rw [Stmt.toJson, Stmt.ofJson?, hf.form?_node]
    simp [hf.get?_node, List.lookup_cons, Expr.ofJson?_toJson hf h.1, Stmt.ofJson?_toJson hf body h.2.1, hother,
      Stmt.unsigned]
  | whileLoop test body =>
    rw [Stmt.toJson, Stmt.ofJson?, hf.form?_node]
    simp [hf.get?_node, List.lookup_cons, Expr.ofJson?_toJson hf h.1, Stmt.ofJson?_toJson hf body h.2, Stmt.unsigned]
  | doWhile body test =>
    rw [Stmt.toJson, Stmt.ofJson?, hf.form?_node]
    simp [hf.get?_node, List.lookup_cons, Expr.ofJson?_toJson hf h.2, Stmt.ofJson?_toJson hf body h.1, Stmt.unsigned]
  | forLoop init test update body =>
    rw [Stmt.toJson, Stmt.ofJson?, hf.form?_node]
    simp [hf.get?_node, List.lookup_cons, ForInit.optionOfJson?_toJson hf h.1, Expr.optionOfJson?_toJson hf h.2.1,
      Expr.optionOfJson?_toJson hf h.2.2.1, Stmt.ofJson?_toJson hf body h.2.2.2, Stmt.unsigned]
  | function name params body =>
    have hparams : (params.map (f ∘ nameToJson)).mapM nameOfJson? = some (params.map id) :=
      mapM_map_eq_some fun s _ => nameOfJson?_toJson hf s
    have hbody : Stmt.ofJson? (f (.node "BlockStatement" [("body", .array (Stmt.listToJson body))])) =
        some (.block (Stmt.unsignedAll body)) := by
      rw [Stmt.ofJson?, hf.form?_node]
      simp [hf.get?_node, hf.array, Json.items?, Stmt.mapM_ofJson?_listToJson hf body h.2.2]
    rw [Stmt.toJson, Stmt.ofJson?, hf.form?_node]
    simp [hf.get?_node, hf.array, List.lookup_cons, Json.items?, nameOfJson?_toJson hf, hparams, hbody, Stmt.functionOf?,
      Stmt.unsigned]
  | result value =>
    rw [Stmt.toJson, Stmt.ofJson?, hf.form?_node]
    simp [hf.get?_node, Expr.optionOfJson?_toJson hf h, Stmt.unsigned]

/-- So are statements one after the other. -/
theorem Stmt.mapM_ofJson?_listToJson (hf : Json.Rearranges f) (ss : List Stmt) (h : Stmt.WellFormedAll ss) :
    ((Stmt.listToJson ss).map f).mapM Stmt.ofJson? = some (Stmt.unsignedAll ss) := by
  cases ss with
  | nil => rfl
  | cons s ss =>
    simp [Stmt.listToJson, Stmt.ofJson?_toJson hf s h.1, Stmt.mapM_ofJson?_listToJson hf ss h.2, Stmt.unsignedAll]

end

/-- A well-formed program is read back from its JSON value, whatever the order of the members is. -/
theorem Program.ofJson?_toJson (hf : Json.Rearranges f) {p : Program} (h : p.WellFormed) :
    ofJson? (f p.toJson) = some p.unsigned := by
  rw [toJson, ofJson?, hf.form?_node]
  simp [hf.get?_node, hf.array, Json.items?, Stmt.mapM_ofJson?_listToJson hf p.body h.2, unsigned]

/-! ## Texts of programs -/

open Json (writeAt)

/-- Programs that were read have equal texts, in either layout and whatever the order of the members is, exactly if they are
the same. -/
theorem Program.writeAt_eq_iff (hf : Json.Rearranges f) {source source' : String} {p q : Program}
    (hp : parse source = .ok p) (hq : parse source' = .ok q) (layout : Json.Layout) (level : Nat) :
    writeAt layout level (f p.toJson) = writeAt layout level (f q.toJson) ↔ (p == q) = true := by
  rw [same_iff_eq hp hq]
  constructor
  · intro htext
    have hvalue : f p.toJson = f q.toJson :=
      Json.Denotes.unique (htext ▸ Json.denotes_writeAt layout level (f p.toJson)) (Json.denotes_writeAt layout level _)
    have hread := ofJson?_toJson hf (wellFormed_of_parse hp)
    rw [hvalue, ofJson?_toJson hf (wellFormed_of_parse hq), Option.some.injEq] at hread
    rw [← unsigned_eq_of_parse hp, ← unsigned_eq_of_parse hq, hread]
  · rintro rfl
    rfl

/-- Nothing is lost in the texts of programs that were read: the texts in one line are equal exactly if the programs are the
same, and so are those with a line for each member, and both sorts of texts with the members in the order of their keys. -/
theorem Program.texts_eq_iff {source source' : String} {p q : Program} (hp : parse source = .ok p)
    (hq : parse source' = .ok q) :
    (p.toJson.compact = q.toJson.compact ↔ (p == q) = true) ∧
    (p.toJson.pretty = q.toJson.pretty ↔ (p == q) = true) ∧
    (p.toJson.sorted.compact = q.toJson.sorted.compact ↔ (p == q) = true) ∧
    (p.toJson.sorted.pretty = q.toJson.sorted.pretty ↔ (p == q) = true) :=
  ⟨writeAt_eq_iff Json.rearranges_id hp hq .line 0, writeAt_eq_iff Json.rearranges_id hp hq .lines 0,
    writeAt_eq_iff Json.rearranges_sorted hp hq .line 0, writeAt_eq_iff Json.rearranges_sorted hp hq .lines 0⟩

/-- A value that is absent and one that is `null` stand apart in every text. -/
theorem Program.texts_eq_iff_absent_value : ∃ p q : Program, parse "return;" = .ok p ∧ parse "return (null);" = .ok q ∧
    p.toJson.compact ≠ q.toJson.compact ∧ p.toJson.pretty ≠ q.toJson.pretty ∧
    p.toJson.sorted.compact ≠ q.toJson.sorted.compact ∧ p.toJson.sorted.pretty ≠ q.toJson.sorted.pretty := by
  have hp : parse "return;" = .ok ⟨[.result none]⟩ := by with_unfolding_all rfl
  have hq : parse "return (null);" = .ok ⟨[.result (some .null)]⟩ := by with_unfolding_all rfl
  have hdiffer : ¬((⟨[.result none]⟩ : Program) == ⟨[.result (some .null)]⟩) = true := by decide
  obtain ⟨hcompact, hpretty, hsorted, hsortedPretty⟩ := texts_eq_iff hp hq
  exact ⟨_, _, hp, hq, mt hcompact.mp hdiffer, mt hpretty.mp hdiffer, mt hsorted.mp hdiffer, mt hsortedPretty.mp hdiffer⟩

end Scriptlet
