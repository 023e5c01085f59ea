import EventCodegen.Proofs.Literals

/-! Literals by the rules of their own language. Each language has a table of the escapes that are
one letter long, and escapes by number besides. A decoder accepts nothing else: it refuses an escape
that only the other language has, a control character, a quote before the end and, in Kotlin, a
dollar that would start a template. Every character is written in one of three forms
(`literalChar_forms`), so the literal of a text holds nothing that has to be escaped and is decoded
to that text (`decode_literal`). -/
namespace EventCodegen

/-- The escapes of a language that are one letter long: the letter behind the backslash, and what it
stands for. -/
def Target.escapes : Target → List (Char × Char)
  | .python =>
    [(Text.backslash, Text.backslash), (Text.doubleQuote, Text.doubleQuote), ('n', '\n'),
     ('r', '\r'), ('t', '\t'), ('b', Char.ofNat 8), ('f', Char.ofNat 12)]
  | .kotlin =>
    [(Text.backslash, Text.backslash), (Text.doubleQuote, Text.doubleQuote), ('$', '$'),
     ('n', '\n'), ('r', '\r'), ('t', '\t'), ('b', Char.ofNat 8)]

/-- The characters that do not stand for themselves inside a literal: the quote ends it, the
backslash starts an escape, and in Kotlin the dollar starts a template. -/
def Target.marks : Target → List Char
  | .python => [Text.doubleQuote, Text.backslash]
  | .kotlin => [Text.doubleQuote, Text.backslash, '$']

namespace Source

/-! ## Decoding -/

/-- The character of a code point, if it has one. -/
def charOf? (n : Nat) : Option Char := if n.isValidChar then some (Char.ofNat n) else none

/-- Decodes a literal from behind its first quote. The first quote that no backslash escapes has to
be the last character. -/
def decodeInside (t : Target) : List Char → Option (List Char)
  | [] => none
  | c :: rest =>
    if c = Text.doubleQuote then if rest.isEmpty then some [] else none
    else if c = Text.backslash then
      match rest with
      | [] => none
      | e :: after =>
        if e = 'u' then
          match after with
          | i :: j :: k :: l :: more => do
            let x ← charOf? (← Json.hex4? i j k l)
            return x :: (← decodeInside t more)
          | _ => none
        else do
          let x ← t.escapes.lookup e
          return x :: (← decodeInside t after)
    else if c.toNat < 0x20 ∨ c ∈ t.marks then none
    else do return c :: (← decodeInside t rest)

/-- The text that a double-quoted literal stands for in a language. -/
def decode (t : Target) : List Char → Option (List Char)
  | [] => none
  | c :: rest => if c = Text.doubleQuote then decodeInside t rest else none

/-- The characters inside a literal that belong to no escape. A backslash takes the next character
with it; one that has none to take stands for itself. -/
def unescaped : List Char → List Char
  | [] => []
  | c :: rest =>
    if c = Text.backslash then
      match rest with
      | [] => [c]
      | _ :: after => unescaped after
    else c :: unescaped rest

/-! ## The three forms of a character -/

/-- A character of a literal stands for itself, or has a short escape, or is a control character
that is escaped by number. -/
theorem literalChar_forms (t : Target) (c : Char) :
    (literalChar t c = [c] ∧ 0x20 ≤ c.toNat ∧ c ∉ t.marks) ∨
    (∃ e, literalChar t c = [Text.backslash, e] ∧ t.escapes.lookup e = some c ∧ e ≠ 'u' ∧
      0x20 ≤ e.toNat) ∨
    (literalChar t c = Text.backslash :: 'u' :: Text.hex 4 c.toNat ∧ c.toNat < 0x20) := by
  cases t with
  | python =>
    simp only [literalChar, Json.escapedChar]
    split_ifs with hquote hn hr ht hb hf hcontrol
    · exact Or.inr (Or.inl ⟨c, by rcases hquote with rfl | rfl <;> decide⟩)
    · exact Or.inr (Or.inl ⟨'n', by rw [hn]; decide⟩)
    · exact Or.inr (Or.inl ⟨'r', by rw [hr]; decide⟩)
    · exact Or.inr (Or.inl ⟨'t', by rw [ht]; decide⟩)
    · exact Or.inr (Or.inl ⟨'b', by rw [hb]; decide⟩)
    · exact Or.inr (Or.inl ⟨'f', by rw [hf]; decide⟩)
    · exact Or.inr (Or.inr ⟨rfl, hcontrol⟩)
    · exact Or.inl ⟨rfl, by omega, by simpa [Target.marks] using hquote⟩
  | kotlin =>
    simp only [literalChar, kotlinChar]
    split_ifs with hquote hn hr ht hb hcontrol
    · exact Or.inr (Or.inl ⟨c, by rcases hquote with rfl | rfl | rfl <;> decide⟩)
    · exact Or.inr (Or.inl ⟨'n', by rw [hn]; decide⟩)
    · exact Or.inr (Or.inl ⟨'r', by rw [hr]; decide⟩)
    · exact Or.inr (Or.inl ⟨'t', by rw [ht]; decide⟩)
    · exact Or.inr (Or.inl ⟨'b', by rw [hb]; decide⟩)
    · exact Or.inr (Or.inr ⟨rfl, hcontrol⟩)
    · exact Or.inl ⟨rfl, by omega, by simpa [Target.marks] using hquote⟩

/-- A quote and a backslash are marks of every language. -/
theorem ne_of_not_mem_marks {t : Target} {c : Char} (h : c ∉ t.marks) :
    c ≠ Text.doubleQuote ∧ c ≠ Text.backslash := by
  constructor
  · rintro rfl
    exact h (by cases t <;> decide)
  · rintro rfl
    exact h (by cases t <;> decide)

/-- A digit of an escape by number is printed and is no mark. -/
theorem hexDigit_plain (t : Target) :
    ∀ n < 16, 0x20 ≤ (Text.hexDigit n).toNat ∧ Text.hexDigit n ∉ t.marks := by
  cases t <;> decide

theorem mem_hex_four {c : Char} {n : Nat} (h : c ∈ Text.hex 4 n) : ∃ k < 16, c = Text.hexDigit k := by
  simp only [Text.hex, List.nil_append, List.cons_append, List.mem_cons, List.not_mem_nil,
    or_false] at h
  rcases h with rfl | rfl | rfl | rfl
  · exact ⟨_, Nat.mod_lt _ (by decide), rfl⟩
  · exact ⟨_, Nat.mod_lt _ (by decide), rfl⟩
  · exact ⟨_, Nat.mod_lt _ (by decide), rfl⟩
  · exact ⟨_, Nat.mod_lt _ (by decide), rfl⟩

/-! ## What stands inside a literal -/

/-- No control character stands in a literal. -/
theorem printed_literalChar {t : Target} {c d : Char} (h : d ∈ literalChar t c) :
    0x20 ≤ d.toNat := by
  rcases literalChar_forms t c with ⟨heq, hc, _⟩ | ⟨e, heq, _, _, he⟩ | ⟨heq, _⟩
  · rw [heq, List.mem_singleton] at h
    rwa [h]
  · rw [heq, List.mem_cons, List.mem_singleton] at h
    rcases h with rfl | rfl
    · decide
    · exact he
  · rw [heq, List.mem_cons, List.mem_cons] at h
    rcases h with rfl | rfl | h
    · decide
    · decide
    · obtain ⟨k, hk, rfl⟩ := mem_hex_four h
      exact (hexDigit_plain t k hk).1

theorem unescaped_append_of_plain {t : Target} {s : List Char} (h : ∀ c ∈ s, c ∉ t.marks)
    (r : List Char) : unescaped (s ++ r) = s ++ unescaped r := by
  induction s with
  | nil => rfl
  | cons c rest ih =>
    have hc := (ne_of_not_mem_marks (h c List.mem_cons_self)).2
    rw [List.cons_append, unescaped.eq_def]
    simp only [if_neg hc, ih fun d hd => h d (List.mem_cons_of_mem c hd), List.cons_append]

/-- What a character adds to the unescaped part of a literal is no mark. -/
theorem unescaped_literalChar (t : Target) (c : Char) (r : List Char) :
    ∃ s, unescaped (literalChar t c ++ r) = s ++ unescaped r ∧ ∀ d ∈ s, d ∉ t.marks := by
  rcases literalChar_forms t c with ⟨heq, _, hc⟩ | ⟨e, heq, _⟩ | ⟨heq, _⟩
  · have hplain : ∀ d ∈ [c], d ∉ t.marks := by simpa using hc
    exact ⟨[c], by rw [heq, unescaped_append_of_plain hplain], hplain⟩
  · exact ⟨[], by rw [heq]; rfl, by simp⟩
  · -- the backslash takes the `u` with it, and the digits stand for themselves
    have hplain : ∀ d ∈ Text.hex 4 c.toNat, d ∉ t.marks := by
      intro d hd
      obtain ⟨k, hk, rfl⟩ := mem_hex_four hd
      exact (hexDigit_plain t k hk).2
    refine ⟨Text.hex 4 c.toNat, ?_, hplain⟩
    rw [heq]
    exact unescaped_append_of_plain hplain r

/-- Whatever a text holds, its literal has no mark outside of escapes. -/
theorem not_mem_marks_of_unescaped (t : Target) (s : List Char) :
    ∀ c ∈ unescaped (s.flatMap (literalChar t)), c ∉ t.marks := by
  induction s with
  | nil => simp [unescaped]
  | cons d rest ih =>
    intro c hc
    obtain ⟨added, heq, hadded⟩ := unescaped_literalChar t d (rest.flatMap (literalChar t))
    rw [List.flatMap_cons, heq] at hc
    exact (List.mem_append.mp hc).elim (hadded c) (ih c)

/-! ## Reading a literal back -/

/-- A character that is no mark and no control character is read as itself. -/
theorem decodeInside_plain {t : Target} {c : Char} (hc : 0x20 ≤ c.toNat) (h : c ∉ t.marks)
    (r : List Char) : decodeInside t (c :: r) = (decodeInside t r).map (c :: ·) := by
  obtain ⟨hquote, hbackslash⟩ := ne_of_not_mem_marks h
  rw [decodeInside.eq_def]
  simp only [if_neg hquote, if_neg hbackslash, if_neg (not_or.mpr ⟨Nat.not_lt.mpr hc, h⟩)]
  cases decodeInside t r <;> rfl

/-- A short escape is read as what its table says. -/
theorem decodeInside_escape {t : Target} {e c : Char} (h : t.escapes.lookup e = some c)
    (he : e ≠ 'u') (r : List Char) :
    decodeInside t (Text.backslash :: e :: r) = (decodeInside t r).map (c :: ·) := by
  have hquote : Text.backslash ≠ Text.doubleQuote := by decide
  rw [decodeInside.eq_def]
  simp only [if_neg hquote, if_true, if_neg he, h]
  cases decodeInside t r <;> rfl

/-- An escape by number is read as the character of that number. -/
theorem decodeInside_number {t : Target} {i j k l c : Char}
    (h : (Json.hex4? i j k l).bind charOf? = some c) (r : List Char) :
    decodeInside t (Text.backslash :: 'u' :: i :: j :: k :: l :: r) =
      (decodeInside t r).map (c :: ·) := by
  have hquote : Text.backslash ≠ Text.doubleQuote := by decide
  obtain ⟨n, hn, hc⟩ := Option.bind_eq_some_iff.mp h
  rw [decodeInside.eq_def]
  simp only [if_neg hquote, if_true, hn, Option.bind_eq_bind, Option.bind_some, hc]
  cases decodeInside t r <;> rfl

/-- The number of a control character is the number of that character. -/
theorem charOf?_hex : ∀ n < 0x20, (Json.hex4? (Text.hexDigit (n / 16 / 16 / 16 % 16))
    (Text.hexDigit (n / 16 / 16 % 16)) (Text.hexDigit (n / 16 % 16)) (Text.hexDigit (n % 16))).bind
      charOf? = some (Char.ofNat n) := by decide

/-- A decoder reads a character of a literal as what was written there. -/
theorem decodeInside_literalChar (t : Target) (c : Char) (r : List Char) :
    decodeInside t (literalChar t c ++ r) = (decodeInside t r).map (c :: ·) := by
  rcases literalChar_forms t c with ⟨heq, hc, hmark⟩ | ⟨e, heq, hlookup, he, _⟩ | ⟨heq, hcontrol⟩
  · rw [heq]
    exact decodeInside_plain hc hmark r
  · rw [heq]
    exact decodeInside_escape hlookup he r
  · have hnumber := charOf?_hex c.toNat hcontrol
    rw [Char.ofNat_toNat] at hnumber
    rw [heq]
    exact decodeInside_number hnumber r

theorem decode_literalChars (t : Target) (s : List Char) :
    decode t (literalChars t s) = some s := by
  show decodeInside t (s.flatMap (literalChar t) ++ [Text.doubleQuote]) = some s
  induction s with
  | nil => rfl
  | cons c rest ih =>
    rw [List.flatMap_cons, List.append_assoc, decodeInside_literalChar, ih]
    rfl

/-- The literal of a text is that text between two quotes, with nothing in it that would have to be
escaped and is not, and it is decoded to the text by the rules of its language. -/
theorem decode_literal (t : Target) (s : String) : ∃ inside : List Char,
    (literal t s).toList = Text.doubleQuote :: inside ++ [Text.doubleQuote] ∧
    (∀ c ∈ inside, 0x20 ≤ c.toNat) ∧
    Text.doubleQuote ∉ unescaped inside ∧ Text.backslash ∉ unescaped inside ∧
    (t = .kotlin → '$' ∉ unescaped inside) ∧
    decode t (literal t s).toList = some s.toList := by
  have hliteral : (literal t s).toList = literalChars t s.toList := String.toList_ofList
  have hmarks := not_mem_marks_of_unescaped t s.toList
  refine ⟨s.toList.flatMap (literalChar t), hliteral, ?_, ?_, ?_, ?_, ?_⟩
  · intro c hc
    obtain ⟨d, _, hd⟩ := List.mem_flatMap.mp hc
    exact printed_literalChar hd
  · exact fun h => hmarks _ h (by cases t <;> decide)
  · exact fun h => hmarks _ h (by cases t <;> decide)
  · rintro rfl h
    exact hmarks _ h (by decide)
  · rw [hliteral]
    exact decode_literalChars t s.toList

/-- The escape of a form feed is known to one language alone. -/
example : decode .python (literalChars .python ['\x0c']) = some ['\x0c'] ∧
    decode .kotlin (literalChars .python ['\x0c']) = none := by decide

end Source
end EventCodegen
