import EventCodegen.Text.WidthTable

/-! Columns that a text takes on a terminal. -/
namespace EventCodegen.Text

/-- Columns of one character: none for a control or a joining mark, two for a wide one. -/
def charWidth (c : Char) : Nat :=
  if 0x20 ≤ c.toNat ∧ c.toNat < 0x7F then 1
  else if inRanges c.toNat zeroWidthRanges then 0
  else if inRanges c.toNat doubleWidthRanges then 2
  else 1

/-- Columns of a text. -/
def width : List Char → Nat
  | [] => 0
  | c :: rest => charWidth c + width rest

/-- The beginning of a text that fits `columns`, filled with spaces to exactly that many. A wide
character that would stand across the edge is left out. -/
def fit (columns : Nat) : List Char → List Char
  | [] => List.replicate columns ' '
  | c :: rest =>
    if charWidth c ≤ columns then c :: fit (columns - charWidth c) rest
    else List.replicate columns ' '

@[simp] theorem width_nil : width [] = 0 := rfl

@[simp] theorem width_cons (c : Char) (s : List Char) : width (c :: s) = charWidth c + width s := rfl

@[simp] theorem width_append (s t : List Char) : width (s ++ t) = width s + width t := by
  induction s with
  | nil => simp
  | cons c rest ih => rw [List.cons_append, width_cons, width_cons, ih, Nat.add_assoc]

theorem width_replicate_space (n : Nat) : width (List.replicate n ' ') = n := by
  induction n with
  | zero => rfl
  | succ n ih =>
    rw [List.replicate_succ, width_cons, ih, show charWidth ' ' = 1 from rfl]; omega

/-- A fitted text takes exactly the columns it was given. -/
theorem width_fit (columns : Nat) (s : List Char) : width (fit columns s) = columns := by
  induction s generalizing columns with
  | nil => exact width_replicate_space columns
  | cons c rest ih =>
    by_cases h : charWidth c ≤ columns
    · simp only [fit, h, if_true, width_cons, ih]; omega
    · simp only [fit, h, if_false, width_replicate_space]

end EventCodegen.Text
