import Scriptlet.Proofs.Json.Blanks
import Scriptlet.Proofs.Json.Order
import Scriptlet.Tree.ToJson

/-!
# The JSON texts of a program

A program is written as JSON in one line, with a line for each member, and in one line with the members in the order of their
keys. All three are JSON texts of one value up to the order of members, and no object of that value has a key twice.
-/

namespace Scriptlet

open Json (EveryMember EveryItem)

/-! ## Keys of nodes -/

/-- A node has distinct keys if its members have, and none of them is the form. -/
theorem Json.distinctKeys_node {form : String} {members : List (String × Json)}
    (hkeys : ("type" :: members.map Prod.fst).Nodup) (hmembers : EveryMember List.Nodup members) :
    (node form members).DistinctKeys :=
  ⟨hkeys, trivial, hmembers⟩

/-- Keys are distinct in every item if they are in what each item is made from. -/
theorem Json.everyItem_map {α : Type} {f : α → Json} {as : List α} (h : ∀ a ∈ as, (f a).DistinctKeys) :
    EveryItem List.Nodup (as.map f) := by
  induction as with
  | nil => trivial
  | cons a as ih =>
    rw [List.forall_mem_cons] at h
    exact ⟨h.1, ih h.2⟩

theorem Double.distinctKeys_toJson (x : Double) : x.toJson.DistinctKeys := by
  unfold toJson
  split
  · split
    · split <;> trivial
    · trivial
  · trivial

theorem distinctKeys_nameToJson (name : String) : (nameToJson name).DistinctKeys :=
  Json.distinctKeys_node (by simp) ⟨trivial, trivial⟩

/-- No key stands twice in an object of the node of an expression. -/
theorem Expr.distinctKeys_toJson (e : Expr) : e.toJson.DistinctKeys := by
  induction e with
  | name s => exact distinctKeys_nameToJson s
  | number x => exact Json.distinctKeys_node (by simp) ⟨x.distinctKeys_toJson, trivial⟩
  | text s => exact Json.distinctKeys_node (by simp) ⟨trivial, trivial⟩
  | bool b => exact Json.distinctKeys_node (by simp) ⟨trivial, trivial⟩
  | null => exact Json.distinctKeys_node (by simp) trivial
  | unary op a ih => exact Json.distinctKeys_node (by simp) ⟨trivial, ih, trivial⟩
  | binary op a b iha ihb => exact Json.distinctKeys_node (by simp) ⟨trivial, iha, ihb, trivial⟩
  | logical op a b iha ihb => exact Json.distinctKeys_node (by simp) ⟨trivial, iha, ihb, trivial⟩
  | assign op s a ih => exact Json.distinctKeys_node (by simp) ⟨trivial, distinctKeys_nameToJson s, ih, trivial⟩

theorem Expr.distinctKeys_optionToJson (o : Option Expr) : (optionToJson o).DistinctKeys := by
  cases o with
  | none => trivial
  | some e => exact e.distinctKeys_toJson

/-- No key stands twice in an object of the node of a declarator. -/
theorem Declarator.distinctKeys_toJson (d : Declarator) : d.toJson.DistinctKeys :=
  Json.distinctKeys_node (by simp) ⟨distinctKeys_nameToJson d.name, Expr.distinctKeys_optionToJson d.init, trivial⟩

theorem Declarator.distinctKeys_listToJson (ds : List Declarator) : (listToJson ds).DistinctKeys :=
  Json.distinctKeys_node (by simp) ⟨Json.everyItem_map fun d _ => d.distinctKeys_toJson, trivial⟩

theorem ForInit.distinctKeys_optionToJson (o : Option ForInit) : (optionToJson o).DistinctKeys := by
  rcases o with _ | ds | e
  · trivial
  · exact Declarator.distinctKeys_listToJson ds
  · exact e.distinctKeys_toJson

mutual

/-- No key stands twice in an object of the node of a statement. -/
theorem Stmt.distinctKeys_toJson (s : Stmt) : s.toJson.DistinctKeys := by
  cases s with
  | empty => exact Json.distinctKeys_node (by simp) trivial
  | block body => exact Json.distinctKeys_node (by simp) ⟨Stmt.everyItem_listToJson body, trivial⟩
  | eval e => exact Json.distinctKeys_node (by simp) ⟨e.distinctKeys_toJson, trivial⟩
  | declare ds => exact Declarator.distinctKeys_listToJson ds
  | ifThen test body =>
    exact Json.distinctKeys_node (by simp) ⟨test.distinctKeys_toJson, body.distinctKeys_toJson, trivial, trivial⟩
  | ifElse test body other =>
    exact Json.distinctKeys_node (by simp)
      ⟨test.distinctKeys_toJson, body.distinctKeys_toJson, other.distinctKeys_toJson, trivial⟩
  | whileLoop test body =>
    exact Json.distinctKeys_node (by simp) ⟨test.distinctKeys_toJson, body.distinctKeys_toJson, trivial⟩
  | doWhile body test =>
    exact Json.distinctKeys_node (by simp) ⟨body.distinctKeys_toJson, test.distinctKeys_toJson, trivial⟩
  | forLoop init test update body =>
    exact Json.distinctKeys_node (by simp) ⟨ForInit.distinctKeys_optionToJson init, Expr.distinctKeys_optionToJson test,
      Expr.distinctKeys_optionToJson update, body.distinctKeys_toJson, trivial⟩
  | function name params body =>
    have hparams : EveryItem List.Nodup (params.map nameToJson) := Json.everyItem_map fun s _ => distinctKeys_nameToJson s
    have hbody : (Json.node "BlockStatement" [("body", .array (Stmt.listToJson body))]).DistinctKeys :=
      Json.distinctKeys_node (by simp) ⟨Stmt.everyItem_listToJson body, trivial⟩
    exact Json.distinctKeys_node (by simp) ⟨distinctKeys_nameToJson name, hparams, hbody, trivial⟩
  | result value => exact Json.distinctKeys_node (by simp) ⟨Expr.distinctKeys_optionToJson value, trivial⟩

/-- Nor in one of the nodes of statements one after the other. -/
theorem Stmt.everyItem_listToJson (ss : List Stmt) : EveryItem List.Nodup (Stmt.listToJson ss) := by
  cases ss with
  | nil => trivial
  | cons s ss => exact ⟨s.distinctKeys_toJson, Stmt.everyItem_listToJson ss⟩

end

/-- No object in the value of a program has a key twice. -/
theorem Program.distinctKeys_toJson (p : Program) : p.toJson.DistinctKeys :=
  Json.distinctKeys_node (by simp) ⟨Stmt.everyItem_listToJson p.body, trivial⟩

/-! ## Texts -/

/-- A value is all that either of its texts denotes. -/
theorem Json.denotes_writeAt_iff (layout : Layout) (level : Nat) (v w : Json) :
    Denotes (writeAt layout level v) w ↔ w = v := by
  constructor
  · intro h
    exact h.unique (denotes_writeAt layout level v)
  · rintro rfl
    exact denotes_writeAt layout level w

/-- The three texts of a program are JSON texts and agree. The one in one line and the one with a line for each member denote
one value, and the third denotes that value up to the order of members; in all of them the keys of an object are distinct.
Without the blanks outside of strings the second text is the first, and the third is the text in one line of the only value
that is the same up to the order of members and has the keys of every object in the order of their bytes. -/
theorem Program.texts_agree (p : Program) :
    (∀ v, Json.Denotes p.toJson.compact v ↔ v = p.toJson) ∧
    (∀ v, Json.Denotes p.toJson.pretty v ↔ v = p.toJson) ∧
    (∀ v, Json.Denotes p.toJson.sorted.compact v ↔ v = p.toJson.sorted) ∧
    p.toJson.Reordered p.toJson.sorted ∧ p.toJson.DistinctKeys ∧ p.toJson.sorted.DistinctKeys ∧
    Json.withoutBlanks p.toJson.pretty = p.toJson.compact ∧
    ∀ v, p.toJson.Reordered v ∧ v.KeysAscend ↔ v = p.toJson.sorted := by
  have hreordered := Json.reordered_sorted p.toJson
  have hascend : p.toJson.sorted.KeysAscend := Json.keysAscend_sorted _ p.distinctKeys_toJson
  refine ⟨Json.denotes_writeAt_iff .line 0 _, Json.denotes_writeAt_iff .lines 0 _, Json.denotes_writeAt_iff .line 0 _,
    hreordered, p.distinctKeys_toJson, hascend.distinctKeys, Json.withoutBlanks_pretty _, fun v => ⟨?_, ?_⟩⟩
  · rintro ⟨hv, hkeys⟩
    exact hv.eq_sorted _ hkeys
  · rintro rfl
    exact ⟨hreordered, hascend⟩

end Scriptlet
