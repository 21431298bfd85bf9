import Mathlib

/-!
# Markup

A page is a list of characters, and what a character of it is depends on where its reader is
(`Markup.Place`): in the text, in a reference to characters, in a tag, or in a quoted value of a
tag. What `Markup.read` finds is the markup of the page and the text that is shown.

A page is read piece by piece, so all that matters of a piece is where it leads, what markup it has
and what it shows. Two pieces with the same markup (`Markup.Same`) differ in their text only. A text
that is escaped leads from the text to the text, has no markup, and is shown as it was
(`Markup.read_flatMap`).
-/

namespace Markup

/-- Where a reader of a page is. -/
inductive Place where
  | text
  /-- After the ampersand, with the name so far. -/
  | reference (name : List Char)
  | tag
  /-- In a value of a tag, until the quote comes again. -/
  | quoted (quote : Char)
  deriving DecidableEq

/-- What a reader finds. -/
inductive Item where
  | shown (c : Char)
  | mark (c : Char)
  deriving DecidableEq

namespace Item

/-- The character that is shown. -/
def shown? : Item → Option Char
  | shown c => some c
  | mark _ => none

/-- The character of the markup. -/
def mark? : Item → Option Char
  | shown _ => none
  | mark c => some c

end Item

variable (named : List Char → List Char)

/-- A reader goes on by one character. A reference by name is to the characters `named`. -/
def next : Place → Char → Place × List Item
  | .text, c =>
    if c = '<' then (.tag, [.mark c])
    else if c = '&' then (.reference [], [])
    else (.text, [.shown c])
  | .reference name, c =>
    if c = ';' then (.text, (named name).map .shown) else (.reference (name ++ [c]), [])
  | .tag, c =>
    if c = '>' then (.text, [.mark c])
    else if c = '"' ∨ c = '\'' then (.quoted c, [.mark c])
    else (.tag, [.mark c])
  | .quoted quote, c => (if c = quote then .tag else .quoted quote, [.mark c])

/-- Where a reader gets to, and what he finds on the way. -/
def read : Place → List Char → Place × List Item
  | place, [] => (place, [])
  | place, c :: page =>
    let (place, items) := next named place c
    let (last, items') := read place page
    (last, items ++ items')

/-- The markup of a piece that is read from a place on. -/
def marks (place : Place) (page : List Char) : List Char :=
  (read named place page).2.filterMap Item.mark?

/-- The text that it shows. -/
def shown (place : Place) (page : List Char) : List Char :=
  (read named place page).2.filterMap Item.shown?

variable {named} {p q r : Place} {x y : List Char}

theorem read_cons (place : Place) (c : Char) (page : List Char) :
    read named place (c :: page) =
      ((read named (next named place c).1 page).1,
        (next named place c).2 ++ (read named (next named place c).1 page).2) := rfl

/-- **A page is read piece by piece.** So what a template has around a text is read apart from the
text. -/
theorem read_append (p : Place) (x y : List Char) :
    read named p (x ++ y) =
      ((read named (read named p x).1 y).1,
        (read named p x).2 ++ (read named (read named p x).1 y).2) := by
  induction x generalizing p with
  | nil => rfl
  | cons c x ih => rw [List.cons_append, read_cons, ih, read_cons, List.append_assoc]

theorem marks_append (p : Place) (x y : List Char) :
    marks named p (x ++ y) = marks named p x ++ marks named (read named p x).1 y := by
  rw [marks, read_append, List.filterMap_append, marks, marks]

theorem shown_append (p : Place) (x y : List Char) :
    shown named p (x ++ y) = shown named p x ++ shown named (read named p x).1 y := by
  rw [shown, read_append, List.filterMap_append, shown, shown]

/-! ### Texts and values -/

/-- A text without a tag and without a reference. -/
theorem read_of_plain (h : ∀ c ∈ x, c ≠ '<' ∧ c ≠ '&') :
    read named .text x = (.text, x.map .shown) := by
  induction x with
  | nil => rfl
  | cons c x ih =>
    obtain ⟨hlt, hamp⟩ := h c List.mem_cons_self
    rw [read_cons, next, if_neg hlt, if_neg hamp, ih fun d hd => h d (List.mem_cons_of_mem _ hd)]
    rfl

/-- A reference goes on to its semicolon. -/
theorem read_reference {name : List Char} (h : ';' ∉ x) :
    read named (.reference name) (x ++ [';']) = (.text, (named (name ++ x)).map .shown) := by
  induction x generalizing name with
  | nil =>
    rw [List.nil_append, read_cons, next, if_pos rfl, List.append_nil]
    exact congrArg (Prod.mk _) (List.append_nil _)
  | cons c x ih =>
    rw [List.mem_cons, not_or] at h
    rw [List.cons_append, read_cons, next, if_neg fun hc => h.1 hc.symm, ih h.2,
      List.append_assoc]
    rfl

/-- A value does not end before the quote comes again. -/
theorem read_quoted {quote : Char} (h : quote ∉ x) :
    read named (.quoted quote) x = (.quoted quote, x.map .mark) := by
  induction x with
  | nil => rfl
  | cons c x ih =>
    rw [List.mem_cons, not_or] at h
    rw [read_cons, next, if_neg fun hc => h.1 hc.symm, ih h.2]
    rfl

/-- **An escaped text** is read as the text it was, when each character is. An encoder that escapes
the markup is shown to be one by its characters alone. -/
theorem read_flatMap {code : Char → List Char}
    (hcode : ∀ c, read named .text (code c) = (.text, [.shown c])) (t : List Char) :
    read named .text (t.flatMap code) = (.text, t.map .shown) := by
  induction t with
  | nil => rfl
  | cons c t ih =>
    rw [List.flatMap_cons, read_append, hcode, ih]
    rfl

/-- What is read as a text has no markup. -/
theorem marks_of_read {t : List Char} (h : read named p x = (q, t.map .shown)) :
    marks named p x = [] := by
  rw [marks, h]
  refine List.filterMap_eq_nil_iff.mpr fun item hitem => ?_
  obtain ⟨c, -, rfl⟩ := List.mem_map.mp hitem
  rfl

/-- It shows the text. -/
theorem shown_of_read {t : List Char} (h : read named p x = (q, t.map .shown)) :
    shown named p x = t := by
  rw [shown, h, List.filterMap_map]
  exact List.filterMap_some

/-! ### Pieces with the same markup -/

/-- **Two pieces that differ in their text only**: they lead from one place to another, and have the
same markup. -/
structure Same (named : List Char → List Char) (p q : Place) (x y : List Char) : Prop where
  left : (read named p x).1 = q
  right : (read named p y).1 = q
  marks : marks named p x = marks named p y

namespace Same

theorem refl (h : (read named p x).1 = q) : Same named p q x x := ⟨h, h, rfl⟩

theorem nil : Same named p p [] [] := refl rfl

/-- Two texts. -/
theorem of_read {s t : List Char} (hx : read named p x = (q, s.map .shown))
    (hy : read named p y = (q, t.map .shown)) : Same named p q x y :=
  ⟨congrArg Prod.fst hx, congrArg Prod.fst hy, (marks_of_read hx).trans (marks_of_read hy).symm⟩

/-- A value. -/
theorem quoted {quote : Char} (h : quote ∉ x) : Same named (.quoted quote) (.quoted quote) x x :=
  refl (congrArg Prod.fst (read_quoted h))

theorem append {x' y' : List Char} (h : Same named p q x y) (h' : Same named q r x' y') :
    Same named p r (x ++ x') (y ++ y') where
  left := by rw [read_append, h.left, h'.left]
  right := by rw [read_append, h.right, h'.right]
  marks := by rw [marks_append, marks_append, h.left, h.right, h.marks, h'.marks]

/-- One piece for each element of two lists. -/
theorem flatMap {α β : Type*} {f : α → List Char} {g : β → List Char} {l : List α} {m : List β}
    (h : List.Forall₂ (fun a b => Same named p p (f a) (g b)) l m) :
    Same named p p (l.flatMap f) (m.flatMap g) := by
  induction h with
  | nil => exact nil
  | cons hab _ ih => exact hab.append ih

/-- Pieces with another between any two. -/
theorem intercalate {separator : List Char} (hseparator : (read named p separator).1 = p)
    {l m : List (List Char)} (h : List.Forall₂ (Same named p p) l m) :
    Same named p p (separator.intercalate l) (separator.intercalate m) := by
  induction h with
  | nil => exact nil
  | @cons x y l m hxy hlm ih =>
    cases hlm with
    | nil => rwa [List.intercalate_singleton, List.intercalate_singleton]
    | cons hnext hrest =>
      rw [List.intercalate_cons_cons, List.intercalate_cons_cons]
      exact (hxy.append (refl hseparator)).append ih

end Same

/-! ### What a piece shows -/

/-- **A piece that shows a text** on the way from one place to another. -/
structure Shows (named : List Char → List Char) (p q : Place) (x t : List Char) : Prop where
  place : (read named p x).1 = q
  shown : shown named p x = t

namespace Shows

variable {s t : List Char}

theorem nil : Shows named p p [] [] := ⟨rfl, rfl⟩

theorem of_read (h : read named p x = (q, t.map .shown)) : Shows named p q x t :=
  ⟨congrArg Prod.fst h, shown_of_read h⟩

theorem append (hx : Shows named p q x s) (hy : Shows named q r y t) :
    Shows named p r (x ++ y) (s ++ t) where
  place := by rw [read_append, hx.place, hy.place]
  shown := by rw [shown_append, hx.place, hx.shown, hy.shown]

theorem flatMap {α : Type*} {f g : α → List Char} {l : List α}
    (h : ∀ a ∈ l, Shows named p p (f a) (g a)) :
    Shows named p p (l.flatMap f) (l.flatMap g) := by
  induction l with
  | nil => exact nil
  | cons a l ih =>
    exact (h a List.mem_cons_self).append (ih fun b hb => h b (List.mem_cons_of_mem _ hb))

end Shows

/-! What a piece shows is seen on the page. -/

section Infix

variable {t : List Char}

theorem infix_shown_left (h : t <:+: shown named p x) (y : List Char) :
    t <:+: shown named p (x ++ y) := by
  rw [shown_append]
  exact h.trans (List.prefix_append _ _).isInfix

theorem infix_shown_right (hx : (read named p x).1 = q) (h : t <:+: shown named q y) :
    t <:+: shown named p (x ++ y) := by
  rw [shown_append, hx]
  exact h.trans (List.suffix_append _ _).isInfix

theorem infix_shown_intercalate {separator : List Char}
    (hseparator : (read named p separator).1 = p) {l : List (List Char)}
    (hl : ∀ y ∈ l, (read named p y).1 = p) (hx : x ∈ l) (h : t <:+: shown named p x) :
    t <:+: shown named p (separator.intercalate l) := by
  induction l with
  | nil => cases hx
  | cons y l ih =>
    obtain ⟨hy, hrest⟩ := List.forall_mem_cons.mp hl
    rcases l with _ | ⟨z, l⟩
    · rw [List.intercalate_singleton]
      exact List.mem_singleton.mp hx ▸ h
    · rw [List.intercalate_cons_cons]
      have hplace : (read named p (y ++ separator)).1 = p := by rw [read_append, hy, hseparator]
      rcases List.mem_cons.mp hx with rfl | hx
      · exact infix_shown_left (infix_shown_left h _) _
      · exact infix_shown_right hplace (ih hrest hx)

end Infix

end Markup
