import Mathlib.Data.List.Lex
import Mathlib.Data.List.Sort
import Scriptlet.Json.Basic

/-!
# The order of members

Two values are the same up to the order of members if they differ only in the order in which their objects name their
members. Of the values that are the same up to that order only one has the keys of every object in the order of their bytes,
and `Json.sorted` finds it: the order of strings is the order of their bytes.
-/

namespace Scriptlet

/-! ## Strings in the order of their bytes -/

namespace Text

/-- The bytes of a string in UTF-8. -/
def bytes (s : String) : List UInt8 := s.toUTF8.data.toList

/-- The bytes of a text are those of its characters, one after the other. -/
theorem bytes_eq (s : String) : bytes s = s.toList.flatMap String.utf8EncodeChar := by
  have hbytes : s.toUTF8 = (s.toList.flatMap String.utf8EncodeChar).toByteArray := by
    conv => lhs; rw [← @String.ofList_toList s]
    rfl
  rw [bytes, hbytes, List.toList_data_toByteArray]

/-- A row of bytes is smaller if its first byte is, or if that is the same and the rest is smaller. -/
theorem ofNat_cons_lt {m n : Nat} {as bs : List UInt8} (hn : n < 256) (h : m < n ∨ m = n ∧ as < bs) :
    UInt8.ofNat m :: as < UInt8.ofNat n :: bs := by
  rw [List.cons_lt_cons_iff, UInt8.lt_iff_toNat_lt, UInt8.toNat_ofNat', UInt8.toNat_ofNat']
  rcases h with h | ⟨rfl, h⟩
  · exact .inl (by omega)
  · exact .inr ⟨rfl, h⟩

/-- The last digit to base 64, written as a byte, decides if the other digits are the same. -/
theorem continuation_lt {m n : Nat} {as bs : List UInt8} (h : m < n ∨ m = n ∧ as < bs) :
    m / 64 < n / 64 ∨ m / 64 = n / 64 ∧ UInt8.ofNat (m % 64 + 128) :: as < UInt8.ofNat (n % 64 + 128) :: bs := by
  rcases h with h | ⟨rfl, h⟩
  · by_cases hdiv : m / 64 < n / 64
    · exact .inl hdiv
    · exact .inr ⟨by omega, ofNat_cons_lt (by omega) (.inl (by omega))⟩
  · exact .inr ⟨rfl, ofNat_cons_lt (by omega) (.inr ⟨rfl, h⟩)⟩

/-- The bytes of a smaller character are smaller, whatever follows them. -/
theorem utf8EncodeChar_append_lt {c d : Char} (h : c < d) (as bs : List UInt8) :
    String.utf8EncodeChar c ++ as < String.utf8EncodeChar d ++ bs := by
  have hlt : c.val.toNat < d.val.toNat := h
  have hmax : d.val.toNat < 0x110000 := by
    rcases d.valid with hd | hd
    · exact Nat.lt_trans hd (by decide)
    · exact hd.2
  unfold String.utf8EncodeChar
  dsimp only
  generalize c.val.toNat = m at *
  generalize d.val.toNat = n at *
  have hone := @continuation_lt m n as bs (.inl hlt)
  have htwo := continuation_lt hone
  have hthree := continuation_lt htwo
  simp only [Nat.div_div_eq_div_mul, Nat.reduceMul] at htwo hthree
  -- A character of more bytes has a larger first byte; among characters of one length the digits to base 64 decide.
  split
  · -- One byte.
    split
    · exact ofNat_cons_lt (by omega) (.inl hlt)
    repeat' split
    all_goals exact ofNat_cons_lt (by omega) (.inl (by omega))
  split
  · -- Two bytes.
    split
    · omega
    split
    · exact ofNat_cons_lt (by omega) (hone.imp (by omega) (And.imp_left (by omega)))
    split
    all_goals exact ofNat_cons_lt (by omega) (.inl (by omega))
  split
  · -- Three bytes.
    split
    · omega
    split
    · omega
    split
    · exact ofNat_cons_lt (by omega) (htwo.imp (by omega) (And.imp_left (by omega)))
    · exact ofNat_cons_lt (by omega) (.inl (by omega))
  · -- Four bytes.
    split
    · omega
    split
    · omega
    split
    · omega
    · exact ofNat_cons_lt (by omega) (hthree.imp (by omega) (And.imp_left (by omega)))

/-- Characters and their bytes have the same order. -/
theorem flatMap_utf8EncodeChar_lt {cs ds : List Char} (h : cs < ds) :
    cs.flatMap String.utf8EncodeChar < ds.flatMap String.utf8EncodeChar := by
  induction h with
  | nil =>
    rw [List.flatMap_cons]
    obtain ⟨b, bs, hbs⟩ := List.exists_cons_of_ne_nil (@String.utf8EncodeChar_ne_nil _)
    rw [hbs]
    exact .nil
  | rel h =>
    rw [List.flatMap_cons, List.flatMap_cons]
    exact utf8EncodeChar_append_lt h _ _
  | cons _ ih =>
    rw [List.flatMap_cons, List.flatMap_cons]
    exact List.Lex.append_left _ ih _

/-- A smaller string has smaller bytes. -/
theorem bytes_lt_of_lt {s t : String} (h : s < t) : bytes s < bytes t := by
  rw [bytes_eq, bytes_eq]
  exact flatMap_utf8EncodeChar_lt (String.lt_iff.mp h)

end Text

namespace Json

/-! ## The keys of objects -/

mutual

/-- The keys of each object in a value have a property. -/
def EveryObject (P : List String → Prop) : Json → Prop
  | scalar _ => True
  | array items => EveryItem P items
  | object members => P (members.map Prod.fst) ∧ EveryMember P members

/-- The keys of each object in items have a property. -/
def EveryItem (P : List String → Prop) : List Json → Prop
  | [] => True
  | item :: items => item.EveryObject P ∧ EveryItem P items

/-- The keys of each object in the values of members have a property. -/
def EveryMember (P : List String → Prop) : List (String × Json) → Prop
  | [] => True
  | (_, value) :: members => value.EveryObject P ∧ EveryMember P members

end

/-- No object of a value has a key twice. -/
abbrev DistinctKeys : Json → Prop := EveryObject List.Nodup

/-- Keys stand in the order of their bytes. -/
def Ascending (keys : List String) : Prop := keys.Pairwise fun key key' => Text.bytes key < Text.bytes key'

/-- Each object of a value has its keys in the order of their bytes. -/
abbrev KeysAscend : Json → Prop := EveryObject Ascending

/-- No key stands twice among ascending keys. -/
theorem Ascending.nodup {keys : List String} (h : Ascending keys) : keys.Nodup := by
  refine List.Pairwise.imp ?_ h
  rintro key _ hlt rfl
  exact List.lt_irrefl _ hlt

/-- Members are in the order of the bytes of their keys in one way only. -/
theorem Ascending.eq_of_perm {vs ws : List (String × Json)} (hvs : Ascending (vs.map Prod.fst))
    (hws : Ascending (ws.map Prod.fst)) (h : vs.Perm ws) : vs = ws := by
  unfold Ascending at hvs hws
  rw [List.pairwise_map] at hvs hws
  exact List.Perm.eq_of_pairwise (fun _ _ _ _ hlt hgt => absurd hgt (List.lt_asymm hlt)) hvs hws h

/-- All values of the members are meant. -/
theorem everyMember_iff (P : List String → Prop) (members : List (String × Json)) :
    EveryMember P members ↔ ∀ member ∈ members, member.2.EveryObject P := by
  induction members with
  | nil => simp [EveryMember]
  | cons member members ih => rw [EveryMember, List.forall_mem_cons, ih]

mutual

/-- What holds of the keys of every object does so with a weaker condition. -/
theorem EveryObject.imp {P Q : List String → Prop} (hPQ : ∀ keys, P keys → Q keys) (v : Json) (h : v.EveryObject P) :
    v.EveryObject Q := by
  cases v with
  | scalar s => trivial
  | array items => exact EveryItem.imp hPQ items h
  | object members => exact ⟨hPQ _ h.1, EveryMember.imp hPQ members h.2⟩
termination_by structural v

/-- The same of the items of an array. -/
theorem EveryItem.imp {P Q : List String → Prop} (hPQ : ∀ keys, P keys → Q keys) (vs : List Json) (h : EveryItem P vs) :
    EveryItem Q vs := by
  cases vs with
  | nil => trivial
  | cons v vs => exact ⟨EveryObject.imp hPQ v h.1, EveryItem.imp hPQ vs h.2⟩
termination_by structural vs

/-- The same of the members of an object. -/
theorem EveryMember.imp {P Q : List String → Prop} (hPQ : ∀ keys, P keys → Q keys) (vs : List (String × Json))
    (h : EveryMember P vs) : EveryMember Q vs := by
  cases vs with
  | nil => trivial
  | cons v vs => exact ⟨EveryObject.imp hPQ v.2 h.1, EveryMember.imp hPQ vs h.2⟩
termination_by structural vs

end

/-- Where keys ascend none stands twice. -/
theorem KeysAscend.distinctKeys {v : Json} (h : v.KeysAscend) : v.DistinctKeys :=
  EveryObject.imp (fun _ => Ascending.nodup) v h

/-! ## Values up to the order of members -/

mutual

/-- Two values are the same up to the order of the members of objects. -/
inductive Reordered : Json → Json → Prop where
  | scalar (value : Scalar) : Reordered (scalar value) (scalar value)
  | array {items items' : List Json} : ReorderedItems items items' → Reordered (array items) (array items')
  | object {members between members' : List (String × Json)} : ReorderedMembers members between → between.Perm members' →
      Reordered (object members) (object members')

/-- Each item is the same up to the order of members. -/
inductive ReorderedItems : List Json → List Json → Prop where
  | nil : ReorderedItems [] []
  | cons {v w : Json} {vs ws : List Json} : Reordered v w → ReorderedItems vs ws → ReorderedItems (v :: vs) (w :: ws)

/-- The keys are the same, and each value is the same up to the order of members. -/
inductive ReorderedMembers : List (String × Json) → List (String × Json) → Prop where
  | nil : ReorderedMembers [] []
  | cons {key : String} {v w : Json} {vs ws : List (String × Json)} : Reordered v w → ReorderedMembers vs ws →
      ReorderedMembers ((key, v) :: vs) ((key, w) :: ws)

end

/-! ## Sorting -/

/-- The order in which members are sorted. -/
abbrev keyLe (a b : String × Json) : Prop := a.1 ≤ b.1

instance : Std.Total keyLe := ⟨fun a b => String.le_total a.1 b.1⟩

instance : IsTrans (String × Json) keyLe := ⟨fun _ _ _ => String.le_trans⟩

/-- A member is inserted where the library's insertion sort inserts it. -/
theorem insertMember_eq (member : String × Json) (members : List (String × Json)) :
    insertMember member members = members.orderedInsert keyLe member := by
  induction members with
  | nil => rfl
  | cons first members ih => rw [insertMember, List.orderedInsert_cons, ih]

/-- The members with their values sorted. -/
def sortedValues (members : List (String × Json)) : List (String × Json) :=
  members.map fun member => (member.1, member.2.sorted)

/-- Members are sorted as the library's insertion sort sorts them. -/
theorem sortedMembers_eq (members : List (String × Json)) :
    sortedMembers members = (sortedValues members).insertionSort keyLe := by
  induction members with
  | nil => rfl
  | cons member members ih =>
    rw [sortedMembers, insertMember_eq, ih, sortedValues, sortedValues, List.map_cons, List.insertionSort_cons]

/-- Sorting leaves the members as they are but for their order. -/
theorem sortedMembers_perm (members : List (String × Json)) : (sortedMembers members).Perm (sortedValues members) := by
  rw [sortedMembers_eq]
  exact List.perm_insertionSort _ _

/-- Sorting the values leaves the keys where they are. -/
theorem map_fst_sortedValues (members : List (String × Json)) :
    (sortedValues members).map Prod.fst = members.map Prod.fst := by
  simp [sortedValues]

/-- Keys that are distinct come to stand in the order of their bytes. -/
theorem ascending_sortedMembers {members : List (String × Json)} (h : (members.map Prod.fst).Nodup) :
    Ascending ((sortedMembers members).map Prod.fst) := by
  have hperm := (sortedMembers_perm members).map Prod.fst
  rw [map_fst_sortedValues] at hperm
  have hle : ((sortedMembers members).map Prod.fst).Pairwise (· ≤ ·) := by
    rw [List.pairwise_map, sortedMembers_eq]
    exact List.pairwise_insertionSort keyLe _
  refine List.Pairwise.imp₂ (fun key key' hle hne => ?_) hle (hperm.nodup_iff.mpr h)
  exact Text.bytes_lt_of_lt (String.not_le.mp fun hge => hne (String.le_antisymm hle hge))

mutual

/-- Sorting changes the order of members only. -/
theorem reordered_sorted (v : Json) : v.Reordered v.sorted := by
  cases v with
  | scalar s => exact .scalar s
  | array items => exact .array (reorderedItems_sorted items)
  | object members => exact .object (reorderedMembers_sorted members) (sortedMembers_perm members).symm
termination_by structural v

/-- Items with their objects sorted are the items in another order of members. -/
theorem reorderedItems_sorted (vs : List Json) : ReorderedItems vs (sortedItems vs) := by
  cases vs with
  | nil => exact .nil
  | cons v vs => exact .cons (reordered_sorted v) (reorderedItems_sorted vs)
termination_by structural vs

/-- So are the values of members with their objects sorted. -/
theorem reorderedMembers_sorted (vs : List (String × Json)) : ReorderedMembers vs (sortedValues vs) := by
  cases vs with
  | nil => exact .nil
  | cons v vs =>
    obtain ⟨key, v⟩ := v
    exact .cons (reordered_sorted v) (reorderedMembers_sorted vs)
termination_by structural vs

end

mutual

/-- A value whose objects have distinct keys has them in the order of their bytes once it is sorted. -/
theorem keysAscend_sorted (v : Json) (h : v.DistinctKeys) : v.sorted.KeysAscend := by
  cases v with
  | scalar s => trivial
  | array items => exact everyItem_sortedItems items h
  | object members =>
    refine ⟨ascending_sortedMembers h.1, ?_⟩
    rw [everyMember_iff]
    intro member hmember
    exact (everyMember_iff _ _).mp (everyMember_sortedValues members h.2) member
      ((sortedMembers_perm members).mem_iff.mp hmember)
termination_by structural v

/-- Where no key stands twice the keys of every object in a sorted item ascend. -/
theorem everyItem_sortedItems (vs : List Json) (h : EveryItem List.Nodup vs) :
    EveryItem Ascending (sortedItems vs) := by
  cases vs with
  | nil => trivial
  | cons v vs => exact ⟨keysAscend_sorted v h.1, everyItem_sortedItems vs h.2⟩
termination_by structural vs

/-- The same of the values of members. -/
theorem everyMember_sortedValues (vs : List (String × Json)) (h : EveryMember List.Nodup vs) :
    EveryMember Ascending (sortedValues vs) := by
  cases vs with
  | nil => trivial
  | cons v vs =>
    obtain ⟨key, v⟩ := v
    exact ⟨keysAscend_sorted v h.1, everyMember_sortedValues vs h.2⟩
termination_by structural vs

end

/-- Another order inside the values leaves the keys where they are. -/
theorem ReorderedMembers.map_fst {vs ws : List (String × Json)} (h : ReorderedMembers vs ws) :
    ws.map Prod.fst = vs.map Prod.fst := by
  induction vs generalizing ws with
  | nil =>
    cases h
    rfl
  | cons v vs ih =>
    cases h with
    | cons _ h => rw [List.map_cons, List.map_cons, ih h]

mutual

/-- Only one order of the members has the keys of every object in the order of their bytes. -/
theorem Reordered.eq_sorted (v : Json) {w : Json} (h : v.Reordered w) (hw : w.KeysAscend) : w = v.sorted := by
  cases v with
  | scalar s =>
    cases h
    rfl
  | array vs =>
    cases h with
    | array h => rw [ReorderedItems.eq_sortedItems vs h hw, sorted]
  | object vs =>
    cases h with
    | @object _ between ws h hperm =>
      obtain ⟨hkeys, hmembers⟩ := hw
      have hbetween : between = sortedValues vs := by
        refine ReorderedMembers.eq_sortedValues vs h ((everyMember_iff _ _).mpr fun member hmember => ?_)
        exact (everyMember_iff _ _).mp hmembers member (hperm.mem_iff.mp hmember)
      have hdistinct : (vs.map Prod.fst).Nodup := by
        rw [← h.map_fst, (hperm.map Prod.fst).nodup_iff]
        exact hkeys.nodup
      rw [hbetween] at hperm
      have hws : ws = sortedMembers vs :=
        hkeys.eq_of_perm (ascending_sortedMembers hdistinct) (hperm.symm.trans (sortedMembers_perm vs).symm)
      rw [hws, sorted]
termination_by structural v

/-- Items in another order of members whose keys ascend are the sorted ones. -/
theorem ReorderedItems.eq_sortedItems (vs : List Json) {ws : List Json} (h : ReorderedItems vs ws)
    (hws : EveryItem Ascending ws) : ws = sortedItems vs := by
  cases vs with
  | nil =>
    cases h
    rfl
  | cons v vs =>
    cases h with
    | cons hv h => rw [hv.eq_sorted v hws.1, ReorderedItems.eq_sortedItems vs h hws.2, sortedItems]
termination_by structural vs

/-- So are the values of members. -/
theorem ReorderedMembers.eq_sortedValues (vs : List (String × Json)) {ws : List (String × Json)} (h : ReorderedMembers vs ws)
    (hws : EveryMember Ascending ws) : ws = sortedValues vs := by
  cases vs with
  | nil =>
    cases h
    rfl
  | cons v vs =>
    obtain ⟨key, v⟩ := v
    cases h with
    | cons hv h =>
      rw [hv.eq_sorted v hws.1, ReorderedMembers.eq_sortedValues vs h hws.2, sortedValues, sortedValues, List.map_cons]
termination_by structural vs

end

end Json

end Scriptlet
