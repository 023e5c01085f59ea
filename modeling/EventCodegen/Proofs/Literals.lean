import Mathlib.Tactic.SplitIfs
import EventCodegen.Json.Parser
import EventCodegen.Source.Literal
import EventCodegen.Proofs.Blocks

/-! Literals as a reader sees them. A scanner that only knows quotes and backslashes finds the end
of every literal where it was written to end (`mask_literalChars`), and a literal can be read back
character by character (`readChar_literalChar`), so neither its text nor what follows it is lost
(`literalChars_append_inj`). -/
namespace EventCodegen.Source

/-! ## Finding the end of a literal -/

/-- Where a scanner stands: in code, in a literal, or behind a backslash in one. -/
inductive Place
  | code
  | literal
  | escape
deriving DecidableEq, Repr

/-- Where a scanner stands after a character. -/
def Place.next : Place → Char → Place
  | code, c => if c = Text.doubleQuote then literal else code
  | literal, c =>
    if c = Text.doubleQuote then code else if c = Text.backslash then escape else literal
  | escape, _ => literal

/-- A text in which nothing is left of a literal but its quotes. A literal ends at the first quote
that no backslash escapes. -/
def mask : Place → List Char → List Char
  | _, [] => []
  | .code, c :: rest => c :: mask (Place.next .code c) rest
  | .literal, c :: rest =>
    if c = Text.doubleQuote then c :: mask .code rest else mask (Place.next .literal c) rest
  | .escape, _ :: rest => mask .literal rest

/-- A line with the literals in it masked. -/
def maskLine (l : List Char) : List Char := mask .code l

/-- A character that stands for itself in a literal and ends no line. -/
def IsPlain (c : Char) : Prop := c ≠ Text.doubleQuote ∧ c ≠ Text.backslash ∧ c ≠ '\n'

theorem isPlain_hexDigit : ∀ n < 16, IsPlain (Text.hexDigit n) := by
  unfold IsPlain
  decide

theorem isPlain_of_mem_hex {c : Char} : ∀ (width n : Nat), c ∈ Text.hex width n → IsPlain c
  | 0, _, h => by cases h
  | width + 1, n, h => by
    rcases List.mem_append.mp h with h | h
    · exact isPlain_of_mem_hex width (n / 16) h
    · rw [List.mem_singleton.mp h]
      exact isPlain_hexDigit _ (Nat.mod_lt n (by decide))

/-- A character of a literal is written as itself, or behind a backslash with hexadecimal digits
after it. -/
theorem literalChar_cases (t : Target) (c : Char) : (IsPlain c ∧ literalChar t c = [c]) ∨
    ∃ d digits, literalChar t c = Text.backslash :: d :: digits ∧ d ≠ '\n' ∧
      ∀ x ∈ digits, IsPlain x := by
  have hshort : ∀ d : Char, d ≠ '\n' → ∃ e digits, [Text.backslash, d] = Text.backslash :: e :: digits ∧
      e ≠ '\n' ∧ ∀ x ∈ digits, IsPlain x :=
    fun d hd => ⟨d, [], rfl, hd, by simp⟩
  have hlong : ∃ e digits, Text.backslash :: 'u' :: Text.hex 4 c.toNat = Text.backslash :: e :: digits ∧
      e ≠ '\n' ∧ ∀ x ∈ digits, IsPlain x :=
    ⟨'u', _, rfl, by decide, fun _ => isPlain_of_mem_hex 4 c.toNat⟩
  have hself : ¬(c = Text.doubleQuote ∨ c = Text.backslash) → ¬c = '\n' → IsPlain c :=
    fun h hn => ⟨fun hq => h (Or.inl hq), fun hb => h (Or.inr hb), hn⟩
  cases t with
  | python =>
    simp only [literalChar, Json.escapedChar]
    split_ifs with hquote hfeed
    · exact Or.inr (hshort c (by rcases hquote with rfl | rfl <;> decide))
    · exact Or.inr (hshort 'n' (by decide))
    · exact Or.inr (hshort 'r' (by decide))
    · exact Or.inr (hshort 't' (by decide))
    · exact Or.inr (hshort 'b' (by decide))
    · exact Or.inr (hshort 'f' (by decide))
    · exact Or.inr hlong
    · exact Or.inl ⟨hself hquote hfeed, rfl⟩
  | kotlin =>
    simp only [literalChar, kotlinChar]
    split_ifs with hquote hfeed
    · exact Or.inr (hshort c (by rcases hquote with rfl | rfl | rfl <;> decide))
    · exact Or.inr (hshort 'n' (by decide))
    · exact Or.inr (hshort 'r' (by decide))
    · exact Or.inr (hshort 't' (by decide))
    · exact Or.inr (hshort 'b' (by decide))
    · exact Or.inr hlong
    · exact Or.inl ⟨hself (fun h => hquote (h.imp_right Or.inl)) hfeed, rfl⟩

theorem mask_plain {s : List Char} (h : ∀ c ∈ s, IsPlain c) (r : List Char) :
    mask .literal (s ++ r) = mask .literal r := by
  induction s with
  | nil => rfl
  | cons c rest ih =>
    obtain ⟨hquote, hbackslash, _⟩ := h c List.mem_cons_self
    rw [List.cons_append, mask, if_neg hquote, Place.next, if_neg hquote, if_neg hbackslash]
    exact ih fun d hd => h d (List.mem_cons_of_mem c hd)

/-- A scanner passes over a character of a literal and is still in the literal. -/
theorem mask_literalChar (t : Target) (c : Char) (r : List Char) :
    mask .literal (literalChar t c ++ r) = mask .literal r := by
  rcases literalChar_cases t c with ⟨hplain, heq⟩ | ⟨d, digits, heq, _, hdigits⟩
  · rw [heq]
    exact mask_plain (by simpa using hplain) r
  · -- the backslash takes the next character with it, whatever that is
    rw [heq]
    show mask .literal (digits ++ r) = _
    exact mask_plain hdigits r

/-- A scanner sees a literal end at the quote that was written to end it. -/
theorem mask_literalChars (t : Target) (s r : List Char) :
    mask .code (literalChars t s ++ r) = Text.doubleQuote :: Text.doubleQuote :: mask .code r := by
  have hbody : mask .literal (s.flatMap (literalChar t) ++ Text.doubleQuote :: r) =
      Text.doubleQuote :: mask .code r := by
    induction s with
    | nil => rfl
    | cons c rest ih => rw [List.flatMap_cons, List.append_assoc, mask_literalChar, ih]
  rw [literalChars, List.cons_append, List.cons_append, List.append_assoc, List.singleton_append,
    mask, Place.next, if_pos rfl, hbody]

/-- Code without quotes is left as it is. -/
theorem mask_code {s : List Char} (h : Text.doubleQuote ∉ s) (r : List Char) :
    mask .code (s ++ r) = s ++ mask .code r := by
  induction s with
  | nil => rfl
  | cons c rest ih =>
    rw [List.mem_cons, not_or] at h
    rw [List.cons_append, mask, Place.next, if_neg (Ne.symm h.1), ih h.2, List.cons_append]

example : maskLine "f(\"a\\\"b\", x)".toList = "f(\"\", x)".toList := by decide

/-- No literal ends its line. -/
theorem not_mem_literalChars (t : Target) (s : List Char) : '\n' ∉ literalChars t s := by
  intro hmem
  simp only [literalChars, List.cons_append, List.mem_cons, List.mem_append, List.mem_flatMap,
    List.not_mem_nil, or_false] at hmem
  rcases hmem with hquote | ⟨c, _, hc⟩ | hquote
  · exact absurd hquote (by decide)
  · rcases literalChar_cases t c with ⟨hplain, heq⟩ | ⟨d, digits, heq, hd, hdigits⟩
    · rw [heq, List.mem_singleton] at hc
      exact hplain.2.2 hc.symm
    · rw [heq, List.mem_cons, List.mem_cons] at hc
      rcases hc with hbackslash | hfeed | hdigit
      · exact absurd hbackslash (by decide)
      · exact hd hfeed.symm
      · exact (hdigits _ hdigit).2.2 rfl
  · exact absurd hquote (by decide)

/-! ## Reading a literal back -/

/-- What stands behind a backslash, and what follows it. -/
def readEscape : List Char → Option (Char × List Char)
  | [] => none
  | 'n' :: rest => some ('\n', rest)
  | 'r' :: rest => some ('\r', rest)
  | 't' :: rest => some ('\t', rest)
  | 'b' :: rest => some (Char.ofNat 8, rest)
  | 'f' :: rest => some (Char.ofNat 12, rest)
  | 'u' :: rest =>
    match rest with
    | i :: j :: k :: l :: more => (Json.hex4? i j k l).map fun n => (Char.ofNat n, more)
    | _ => none
  | c :: rest => some (c, rest)

/-- A character of a literal in either language, and what follows it; none where the literal
ends. -/
def readChar : List Char → Option (Char × List Char)
  | [] => none
  | c :: rest =>
    if c = Text.doubleQuote then none
    else if c = Text.backslash then readEscape rest
    else some (c, rest)

/-- The number of a control character is read from its digits. -/
theorem hex4?_hex : ∀ n < 0x20, Json.hex4? (Text.hexDigit (n / 16 / 16 / 16 % 16))
    (Text.hexDigit (n / 16 / 16 % 16)) (Text.hexDigit (n / 16 % 16)) (Text.hexDigit (n % 16)) =
      some n := by decide

theorem readEscape_hex {n : Nat} (h : n < 0x20) (r : List Char) :
    readEscape ('u' :: Text.hex 4 n ++ r) = some (Char.ofNat n, r) := by
  show (Json.hex4? _ _ _ _).map (fun n => (Char.ofNat n, r)) = _
  rw [hex4?_hex n h]
  rfl

/-- A character of a literal is read back as it was. -/
theorem readChar_literalChar (t : Target) (c : Char) (r : List Char) :
    readChar (literalChar t c ++ r) = some (c, r) := by
  have hescape : ∀ s : List Char, readChar (Text.backslash :: s) = readEscape s := fun _ => rfl
  -- the letters of escapes are none of the characters that are escaped by themselves
  have hself : c ≠ Text.doubleQuote → c ≠ Text.backslash → readChar ([c] ++ r) = some (c, r) := by
    intro hquote hbackslash
    rw [List.singleton_append, readChar, if_neg hquote, if_neg hbackslash]
  have hnumber : c.toNat < 0x20 →
      readEscape ('u' :: Text.hex 4 c.toNat ++ r) = some (c, r) := by
    intro hc
    rw [readEscape_hex hc, Char.ofNat_toNat]
  cases t with
  | python =>
    simp only [literalChar, Json.escapedChar]
    split_ifs with hquote hn hr ht hb hf hcontrol
    · rcases hquote with rfl | rfl <;> rfl
    · rw [hn]; rfl
    · rw [hr]; rfl
    · rw [ht]; rfl
    · rw [hb]; rfl
    · rw [hf]; rfl
    · exact hnumber hcontrol
    · rw [not_or] at hquote
      exact hself hquote.1 hquote.2
  | kotlin =>
    simp only [literalChar, kotlinChar]
    split_ifs with hquote hn hr ht hb hcontrol
    · rcases hquote with rfl | rfl | rfl <;> rfl
    · rw [hn]; rfl
    · rw [hr]; rfl
    · rw [ht]; rfl
    · rw [hb]; rfl
    · exact hnumber hcontrol
    · rw [not_or, not_or] at hquote
      exact hself hquote.1 hquote.2.1

/-- Neither the text of a literal nor what follows the literal is lost. -/
theorem literalChars_append_inj {t : Target} {a b r s : List Char}
    (h : literalChars t a ++ r = literalChars t b ++ s) : a = b ∧ r = s := by
  simp only [literalChars, List.cons_append, List.append_assoc, List.cons.injEq, true_and,
    List.nil_append] at h
  -- the quote that ends a literal is the one place in it where no character is read
  have hread := flatMap_append_inj (P := fun l => readChar l = none) (k := id)
    (r := Text.doubleQuote :: r) (s := Text.doubleQuote :: s) ?_ ?_ ?_ rfl rfl h
  · rw [List.map_id, List.map_id] at hread
    exact ⟨hread.1, (List.cons.inj hread.2).2⟩
  · intro c _ d _ r s hcd
    have hsame := readChar_literalChar t c r
    rw [hcd, readChar_literalChar] at hsame
    obtain ⟨rfl, rfl⟩ := Prod.mk.inj (Option.some.inj hsame)
    exact ⟨rfl, rfl⟩
  · intro c _ r hend
    rw [readChar_literalChar] at hend
    cases hend
  · intro c _ r hend
    rw [readChar_literalChar] at hend
    cases hend

end EventCodegen.Source
