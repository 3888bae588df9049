import Scriptlet.Proofs.Number.Literal
import Scriptlet.Proofs.Tree.OfSExpr

/-!
# Legible S-expressions

The text of an S-expression marks nothing as an atom, a number or a text, and escapes nothing. It can be read all the same
where no text has a double quote in it and every number is finite: the first character tells the sorts of parts apart, and a
part ends where what stands behind it begins. So the text of such an S-expression stands for no other one.
-/

namespace Scriptlet

namespace SExpr

/-! ## Legible parts -/

/-- A part that its text shows: an atom that is a symbol, a finite number without a sign, a text without double quotes. -/
def IsLegible : SExpr → Prop
  | atom s => Text.isSymbol s = true
  | number x => x.isFinite = true ∧ x.negative = false
  | text s => '"' ∉ s.toList
  | list _ => True

/-- The sorts of S-expressions. -/
inductive Shape where
  | atom
  | number
  | text
  | list

/-- The sort of an S-expression. -/
def shape : SExpr → Shape
  | atom _ => .atom
  | number _ => .number
  | text _ => .text
  | list _ => .list

/-- The sort of the S-expressions that start with a character. -/
def Shape.ofFront? (c : Char) : Option Shape :=
  if Text.isDigit c then some number
  else if c = '"' then some text
  else if c = '(' then some list
  else if Text.isMark c then none
  else some atom

/-- What can stand behind an S-expression: a space, a closing parenthesis or nothing. -/
def Closes (cs : List Char) : Prop := ∀ c ∈ cs.head?, c = ' ' ∨ c = ')'

/-- The characters of the items of a list but the first. -/
def moreChars (items : List SExpr) : List Char := items.flatMap fun item => ' ' :: item.render.toList

/-- The items of a list are written one after the other, with a space in front of all but the first. -/
theorem toList_renderItems (s : SExpr) (ss : List SExpr) :
    (renderItems (s :: ss)).toList = s.render.toList ++ moreChars ss := by
  induction ss generalizing s with
  | nil => rw [renderItems, moreChars, List.flatMap_nil, List.append_nil]
  | cons t ts ih =>
    rw [renderItems, String.toList_append, String.toList_append, ih, moreChars, moreChars, List.flatMap_cons,
      List.append_assoc]
    · rfl
    · exact fun h => by cases h

theorem toList_text (a : String) : (text a).render.toList = '"' :: (a.toList ++ ['"']) := by
  rw [render, String.toList_append, String.toList_append]
  rfl

theorem toList_list (ss : List SExpr) : (list ss).render.toList = '(' :: ((renderItems ss).toList ++ [')']) := by
  rw [render, String.toList_append, String.toList_append]
  rfl

/-- Neither a space nor a closing parenthesis is in the class, so no more of it follows. -/
theorem Closes.stop {p : Char → Bool} {cs : List Char} (h : Closes cs) (hspace : p ' ' = false) (hclose : p ')' = false) :
    ∀ c ∈ cs.head?, p c = false := by
  intro c hc
  rcases h c hc with rfl | rfl
  · exact hspace
  · exact hclose

/-- Behind an item of a list, a space or the closing parenthesis follows. -/
theorem closes_moreChars (ss : List SExpr) (cs : List Char) : Closes (moreChars ss ++ ')' :: cs) := by
  cases ss with
  | nil =>
    rintro c ⟨⟩
    exact .inr rfl
  | cons s ss =>
    rintro c ⟨⟩
    exact .inl rfl

variable {s t : SExpr} {x y : Double} {as bs : List Char}

/-- The text of a finite number without a sign is a numeral. -/
theorem exists_numeral (h : (number x).IsLegible) : ∃ n : Numeral, n.WellFormed ∧ n.toDouble = x ∧ n.negative = false ∧
    (number x).render.toList = n.chars := by
  obtain ⟨n, hn, hchars, hsign, -, hdouble, -⟩ := isPlain_doubleStyle.exists_numeral h.1
  refine ⟨n, hn, hdouble, hsign.trans h.2, ?_⟩
  rw [← hchars, ← render_number h.1, Expr.toSExpr]

/-- The first character of a legible S-expression tells its sort. -/
theorem exists_front (h : s.Every IsLegible) : ∃ c cs, s.render.toList = c :: cs ∧ Shape.ofFront? c = some s.shape := by
  cases s with
  | atom a =>
    simp only [Every, IsLegible, Text.isSymbol, Bool.and_eq_true] at h
    obtain ⟨hfront, hall⟩ := h
    cases ha : a.toList with
    | nil =>
      rw [ha] at hfront
      cases hfront
    | cons c cs =>
      rw [ha, List.head?_cons, Option.any_some, Bool.not_eq_true'] at hfront
      rw [ha, List.all_cons, Bool.and_eq_true, Bool.not_eq_true'] at hall
      have hmark := hall.1
      simp only [Text.isMark, Bool.or_eq_false_iff, decide_eq_false_iff_not] at hmark
      refine ⟨c, cs, ha, ?_⟩
      rw [Shape.ofFront?, hfront, if_neg Bool.false_ne_true, if_neg hmark.2, if_neg hmark.1.1.2, hall.1,
        if_neg Bool.false_ne_true]
      rfl
  | number x =>
    obtain ⟨n, hn, -, hsign, hchars⟩ := exists_numeral h
    obtain ⟨c, cs, hcs⟩ := List.exists_cons_of_ne_nil hn.whole.1
    have hdigit : Text.isDigit c = true := hn.whole.2 c (hcs ▸ List.mem_cons_self)
    rw [Numeral.chars, hsign, hcs] at hchars
    exact ⟨c, _, hchars, if_pos hdigit⟩
  | text a => exact ⟨'"', _, toList_text a, rfl⟩
  | list items => exact ⟨'(', _, toList_list items, rfl⟩

/-- Texts that go on alike start with S-expressions of one sort. -/
theorem shape_eq (hs : s.Every IsLegible) (ht : t.Every IsLegible) (h : s.render.toList ++ as = t.render.toList ++ bs) :
    s.shape = t.shape := by
  obtain ⟨c, cs, hc, hshape⟩ := exists_front hs
  obtain ⟨d, ds, hd, hshape'⟩ := exists_front ht
  rw [hc, hd] at h
  obtain ⟨rfl, -⟩ := List.cons.inj h
  exact Option.some.inj (hshape.symm.trans hshape')

/-! ## What a text shows -/

/-- A symbol is known from the text, and where it ends. -/
theorem atom_append_inj {a b : String} (ha : Text.isSymbol a = true) (hb : Text.isSymbol b = true) (has : Closes as)
    (hbs : Closes bs) (h : a.toList ++ as = b.toList ++ bs) : a = b ∧ as = bs := by
  have hchars : ∀ {a}, Text.isSymbol a = true → ∀ c ∈ a.toList, (!Text.isMark c) = true :=
    fun ha => List.all_eq_true.mp (Bool.and_eq_true_iff.mp ha).2
  obtain ⟨hchars, hrest⟩ := append_inj_of_stop (hchars ha) (hchars hb) (has.stop rfl rfl) (hbs.stop rfl rfl) h
  exact ⟨String.toList_inj.mp hchars, hrest⟩

/-- A number is known from the text, and where it ends. -/
theorem number_append_inj (hx : (number x).IsLegible) (hy : (number y).IsLegible) (has : Closes as) (hbs : Closes bs)
    (h : (number x).render.toList ++ as = (number y).render.toList ++ bs) : x = y ∧ as = bs := by
  obtain ⟨n, hn, hx, -, hnchars⟩ := exists_numeral hx
  obtain ⟨m, hm, hy, -, hmchars⟩ := exists_numeral hy
  rw [hnchars, hmchars] at h
  obtain ⟨hchars, hrest⟩ := append_inj_of_stop (Numeral.isNumberChar_of_mem hn) (Numeral.isNumberChar_of_mem hm)
    (has.stop rfl rfl) (hbs.stop rfl rfl) h
  rw [← hx, ← hy, Numeral.eq_of_chars hn hm hchars]
  exact ⟨rfl, hrest⟩

/-- A text without quotes in it is known from the text, and where it ends. -/
theorem text_append_inj {a b : String} (ha : '"' ∉ a.toList) (hb : '"' ∉ b.toList)
    (h : (text a).render.toList ++ as = (text b).render.toList ++ bs) : a = b ∧ as = bs := by
  rw [toList_text, toList_text, List.cons_append, List.cons_append, List.append_assoc, List.append_assoc] at h
  obtain ⟨hchars, hrest⟩ := append_cons_inj_of_notMem ha hb (List.cons.inj h).2
  exact ⟨String.toList_inj.mp hchars, hrest⟩

/-- Lists that are written alike are both empty or both not, and are written alike with a space in front of every item. -/
theorem moreChars_of_renderItems {ss ts : List SExpr} (hss : EveryItem IsLegible ss) (hts : EveryItem IsLegible ts)
    (h : (renderItems ss).toList ++ ')' :: as = (renderItems ts).toList ++ ')' :: bs) :
    moreChars ss ++ ')' :: as = moreChars ts ++ ')' :: bs := by
  have hfront : ∀ {t : SExpr} {ts : List SExpr} {as bs : List Char}, t.Every IsLegible →
      ')' :: as ≠ (renderItems (t :: ts)).toList ++ bs := by
    intro t ts as bs ht heq
    obtain ⟨c, cs, hc, hshape⟩ := exists_front ht
    rw [toList_renderItems, hc] at heq
    obtain ⟨rfl, -⟩ := List.cons.inj heq
    cases hshape
  cases ss with
  | nil =>
    cases ts with
    | nil => exact h
    | cons t ts => exact absurd h (hfront hts.1)
  | cons s ss =>
    cases ts with
    | nil => exact absurd h.symm (hfront hss.1)
    | cons t ts =>
      rw [toList_renderItems, toList_renderItems] at h
      exact congrArg (' ' :: ·) h

mutual

/-- A text that starts with a legible S-expression shows which one it is and where it ends. -/
theorem append_inj (s t : SExpr) (hs : s.Every IsLegible) (ht : t.Every IsLegible) {as bs : List Char} (has : Closes as)
    (hbs : Closes bs) (h : s.render.toList ++ as = t.render.toList ++ bs) : s = t ∧ as = bs := by
  have hshape := shape_eq hs ht h
  cases s with
  | atom a =>
    cases t with
    | atom b =>
      obtain ⟨rfl, hrest⟩ := atom_append_inj hs ht has hbs h
      exact ⟨rfl, hrest⟩
    | _ => cases hshape
  | number x =>
    cases t with
    | number y =>
      obtain ⟨rfl, hrest⟩ := number_append_inj hs ht has hbs h
      exact ⟨rfl, hrest⟩
    | _ => cases hshape
  | text a =>
    cases t with
    | text b =>
      obtain ⟨rfl, hrest⟩ := text_append_inj hs ht h
      exact ⟨rfl, hrest⟩
    | _ => cases hshape
  | list ss =>
    cases t with
    | list ts =>
      rw [toList_list, toList_list, List.cons_append, List.cons_append, List.append_assoc, List.append_assoc] at h
      have hmore := moreChars_of_renderItems hs ht (List.cons.inj h).2
      obtain ⟨rfl, hrest⟩ := moreChars_append_inj ss ts hs ht hmore
      exact ⟨rfl, hrest⟩
    | _ => cases hshape

/-- The items of a list are known from the text, up to the parenthesis that closes it. -/
theorem moreChars_append_inj (ss ts : List SExpr) (hss : EveryItem IsLegible ss) (hts : EveryItem IsLegible ts)
    {as bs : List Char} (h : moreChars ss ++ ')' :: as = moreChars ts ++ ')' :: bs) : ss = ts ∧ as = bs := by
  cases ss with
  | nil =>
    cases ts with
    | nil => exact ⟨rfl, (List.cons.inj h).2⟩
    | cons t ts => cases h
  | cons s ss =>
    cases ts with
    | nil => cases h
    | cons t ts =>
      have hitem : s.render.toList ++ (moreChars ss ++ ')' :: as) = t.render.toList ++ (moreChars ts ++ ')' :: bs) := by
        rw [← List.append_assoc, ← List.append_assoc]
        exact (List.cons.inj h).2
      obtain ⟨rfl, hmore⟩ := append_inj s t hss.1 hts.1 (closes_moreChars ss as) (closes_moreChars ts bs) hitem
      obtain ⟨rfl, hrest⟩ := moreChars_append_inj ss ts hss.2 hts.2 hmore
      exact ⟨rfl, hrest⟩

end

/-- The text of a legible S-expression stands for no other one. -/
theorem render_inj (hs : s.Every IsLegible) (ht : t.Every IsLegible) (h : s.render = t.render) : s = t := by
  have hclose : Closes [] := by
    intro c hc
    cases hc
  refine (append_inj s t hs ht hclose hclose ?_).1
  rw [h]

/-- A double quote in a text can end it for a reader. -/
example : (list [.text "a\" \"b"]).render = (list [.text "a", .text "b"]).render := by decide

/-- Infinity is written like a name. -/
example : (number .infinity).render = (atom "inf").render := by decide

end SExpr

/-! ## Texts of programs -/

theorem Program.legible_toSExpr_of_parse {source : String} {p : Program} (h : parse source = .ok p)
    (htexts : ∀ s, .text s ∈ p.literals → '"' ∉ s.toList) (hnumbers : ∀ x, .number x ∈ p.literals → x.isFinite = true) :
    p.toSExpr.Every SExpr.IsLegible := by
  refine every_toSExpr_of_parse (fun _ hs => hs) h fun l hl => ?_
  cases l with
  | number x => exact fun _ => ⟨hnumbers x hl, rfl⟩
  | text s => exact htexts s hl
  | _ => trivial

/-- Two programs that were read, whose texts have no double quotes and whose numbers are finite, have the same S-expression
exactly if the texts of their S-expressions are the same, whether numbers are compared as numbers or as they are represented.
-/
theorem Program.render_eq_iff {source source' : String} {p q : Program} (hp : parse source = .ok p)
    (hq : parse source' = .ok q) (hptexts : ∀ s, .text s ∈ p.literals → '"' ∉ s.toList)
    (hpnumbers : ∀ x, .number x ∈ p.literals → x.isFinite = true)
    (hqtexts : ∀ s, .text s ∈ q.literals → '"' ∉ s.toList)
    (hqnumbers : ∀ x, .number x ∈ q.literals → x.isFinite = true) :
    (p.toSExpr.render = q.toSExpr.render ↔ (p.toSExpr == q.toSExpr) = true) ∧
      (p.toSExpr.render = q.toSExpr.render ↔ p.toSExpr = q.toSExpr) := by
  have hequal : p.toSExpr.render = q.toSExpr.render ↔ p.toSExpr = q.toSExpr :=
    ⟨SExpr.render_inj (legible_toSExpr_of_parse hp hptexts hpnumbers) (legible_toSExpr_of_parse hq hqtexts hqnumbers),
      congrArg SExpr.render⟩
  have hsame : (p.toSExpr == q.toSExpr) = true ↔ p.toSExpr = q.toSExpr :=
    SExpr.same_iff_eq _ _ (plain_toSExpr_of_parse hp) (plain_toSExpr_of_parse hq)
  exact ⟨by rw [hequal, hsame], hequal⟩

/-- A parenthesis in a text is not taken for one of a list. -/
theorem Program.render_eq_iff_parenthesis : ∃ p q : Program, parse "a = 'b (c' + 10;" = .ok p ∧
    parse "a = 'b'; (c + 10);" = .ok q ∧ p.toSExpr ≠ q.toSExpr ∧ p.toSExpr.render ≠ q.toSExpr.render := by
  have hp : parse "a = 'b (c' + 10;" =
      .ok ⟨[.eval (.assign .set "a" (.binary .add (.text "b (c") (.number (.nearest 10 1))))]⟩ := by
    with_unfolding_all rfl
  have hq : parse "a = 'b'; (c + 10);" =
      .ok ⟨[.eval (.assign .set "a" (.text "b")), .eval (.binary .add (.name "c") (.number (.nearest 10 1)))]⟩ := by
    with_unfolding_all rfl
  have hfinite : (Double.nearest 10 1).isFinite = true := by decide +kernel
  obtain ⟨-, hequal⟩ := render_eq_iff hp hq (by simp [literals, Stmt.literalsAll, Stmt.literals, Expr.literals])
    (by simp [literals, Stmt.literalsAll, Stmt.literals, Expr.literals, hfinite])
    (by simp [literals, Stmt.literalsAll, Stmt.literals, Expr.literals])
    (by simp [literals, Stmt.literalsAll, Stmt.literals, Expr.literals, hfinite])
  suffices hne : _ ≠ _ from ⟨_, _, hp, hq, hne, fun hrender => hne (hequal.mp hrender)⟩
  simp [toSExpr, SExpr.form, Stmt.listToSExpr]

end Scriptlet
