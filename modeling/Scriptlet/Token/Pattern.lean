import Scriptlet.Text.Blank
import Scriptlet.Text.Word

/-!
# Patterns: the shapes of lexemes

A pattern says which characters at the front of a text belong to one lexeme. Where it applies it cuts the text in two, the
lexeme and what follows it; a lexeme is never empty.
-/

namespace Scriptlet

/-- The character classes that lexemes of any length are made of. -/
inductive CharClass where
  | blank | digit | word
  deriving DecidableEq, Repr

/-- The characters of a class. -/
def CharClass.holds : CharClass → Char → Bool
  | blank => Text.isBlank
  | digit => Text.isDigit
  | word => Text.isWord

/-- The shapes of lexemes. -/
inductive Pattern where
  /-- As many characters of a class as there are, and at least one. -/
  | run (cls : CharClass)
  /-- One character of a set. -/
  | single (set : List Char)
  /-- One character of a set, then a fixed one. -/
  | pair (set : List Char) (last : Char)
  /-- One character of a set, then a fixed one if it is there. -/
  | singleOrPair (set : List Char) (last : Char)
  /-- Two slashes and the rest of the line, without the line feed. -/
  | lineComment
  /-- From a slash and a star to the nearest star and slash after them. -/
  | blockComment
  /-- From a quote to the nearest equal quote after it. -/
  | quoted (quote : Char)
  deriving DecidableEq, Repr

/-- Cuts a text behind the first place where `mark` stands in it. -/
def cutAfter (mark : List Char) : List Char → Option (List Char × List Char)
  | [] => none
  | c :: cs =>
    if mark.isPrefixOf (c :: cs) then some (mark, (c :: cs).drop mark.length)
    else (cutAfter mark cs).map fun (l, r) => (c :: l, r)

namespace Pattern

/-- Cuts a text into the lexeme of a pattern at its front and what follows it, if the pattern applies there. -/
def split? : Pattern → List Char → Option (List Char × List Char)
  | run cls, c :: cs => if cls.holds c then some (c :: cs.takeWhile cls.holds, cs.dropWhile cls.holds) else none
  | single set, c :: cs => if c ∈ set then some ([c], cs) else none
  | pair set last, c :: d :: cs => if c ∈ set ∧ d = last then some ([c, d], cs) else none
  | singleOrPair set last, c :: cs =>
    if c ∈ set then if cs.head? = some last then some ([c, last], cs.tail) else some ([c], cs) else none
  | lineComment, '/' :: '/' :: cs => some ('/' :: '/' :: cs.takeWhile (· ≠ '\n'), cs.dropWhile (· ≠ '\n'))
  | blockComment, '/' :: '*' :: cs => (cutAfter ['*', '/'] cs).map fun (l, r) => ('/' :: '*' :: l, r)
  | quoted quote, c :: cs => if c = quote then (cutAfter [quote] cs).map fun (l, r) => (c :: l, r) else none
  | _, _ => none

end Pattern

/-- A cut behind a mark loses nothing. -/
theorem cutAfter_append {mark cs l r : List Char} (h : cutAfter mark cs = some (l, r)) : l ++ r = cs := by
  induction cs generalizing l r with
  | nil => simp [cutAfter] at h
  | cons c cs ih =>
    rw [cutAfter] at h
    split at h
    · next hm =>
      obtain ⟨t, ht⟩ := List.isPrefixOf_iff_prefix.mp hm
      cases h
      rw [← ht, List.drop_left]
    · obtain ⟨⟨l', r'⟩, hcut, heq⟩ := Option.map_eq_some_iff.mp h
      cases heq
      simp [ih hcut]

namespace Pattern

/-- A lexeme and what follows it make up the text, and the lexeme is not empty. -/
theorem split?_append {p : Pattern} {cs l r : List Char} (h : p.split? cs = some (l, r)) : l ++ r = cs ∧ l ≠ [] := by
  unfold split? at h
  split at h
  · split at h <;> cases h
    simp
  · split at h <;> cases h
    simp
  · split at h <;> cases h
    simp
  · next set last c cs =>
    split at h
    · split at h
      · next hd =>
        cases h
        cases cs <;> simp_all
      · cases h
        simp
    · cases h
  · cases h
    simp
  · obtain ⟨⟨l', r'⟩, hcut, heq⟩ := Option.map_eq_some_iff.mp h
    cases heq
    simp [cutAfter_append hcut]
  · split at h
    · obtain ⟨⟨l', r'⟩, hcut, heq⟩ := Option.map_eq_some_iff.mp h
      cases heq
      simp [cutAfter_append hcut]
    · cases h
  · cases h

end Pattern

end Scriptlet
