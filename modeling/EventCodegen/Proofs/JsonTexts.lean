import EventCodegen.Json.Printer
import EventCodegen.Proofs.DecodedLiterals
import EventCodegen.Proofs.NumberTexts
import EventCodegen.Proofs.PlanShape
import EventCodegen.Proofs.ProperValues

/-! A value that is written to a file is read back from it. Every part of a written value is read
back wherever it stands, as long as nothing, a comma or a line break comes after it (`ReadsBack`):
strings by undoing their escapes, numbers by their digits, arrays and objects part by part. What
cannot be written at all is left out by `writeFault?`. -/
namespace EventCodegen.Json

/-! ## Strings -/

/-- A character that stands for itself. -/
theorem scanString_plain (whole : List Char) (read : List Nat) {c : Char} (t : List Char)
    (hquote : c ≠ Text.doubleQuote) (hbackslash : c ≠ Text.backslash) (hc : ¬c.toNat < 0x20) :
    scanString whole read (c :: t) = scanString whole (c.toNat :: read) t := by
  rw [scanString.eq_def]
  exact (if_neg hquote).trans ((if_neg hbackslash).trans (if_neg hc))

/-- A character behind a backslash. -/
theorem scanString_escape (whole : List Char) (read : List Nat) {e x : Char} (t : List Char)
    (he : e ≠ 'u') (hx : simpleEscape? e = some x) :
    scanString whole read (Text.backslash :: e :: t) = scanString whole (x.toNat :: read) t := by
  have hquote : Text.backslash ≠ Char.ofNat 34 := by decide
  have hbackslash : Text.backslash = Char.ofNat 92 := rfl
  rw [scanString, if_neg hquote, if_pos hbackslash, if_neg he, hx]

/-- A character by its number. -/
theorem scanString_number (whole : List Char) (read : List Nat) {after more : List Char} {n : Nat}
    (h : hexEscape? after = some (n, more)) :
    scanString whole read (Text.backslash :: 'u' :: after) = scanString whole (n :: read) more := by
  have hquote : Text.backslash ≠ Char.ofNat 34 := by decide
  have hbackslash : Text.backslash = Char.ofNat 92 := rfl
  rw [scanString, if_neg hquote, if_pos hbackslash, if_pos rfl]
  split
  · next hnone =>
    rw [h] at hnone
    cases hnone
  · next hsome =>
    rw [h] at hsome
    cases hsome
    rfl

/-- The number of a control character is read if something follows it: digits at the end of a text
are no escape. -/
theorem hexEscape?_hex {n : Nat} (hn : n < 0x20) {t : List Char} (ht : t ≠ []) :
    hexEscape? (Text.hex 4 n ++ t) = some (n, t) := by
  obtain ⟨next, rest, rfl⟩ := List.exists_cons_of_ne_nil ht
  have hquad : quad? (Text.hex 4 n ++ next :: rest) = some (n, next :: rest) := by
    show (hex4? _ _ _ _).map (fun m => (m, next :: rest)) = _
    rw [Source.hex4?_hex n hn]
    rfl
  have hhigh : isHighSurrogate n = false := by
    unfold isHighSurrogate
    rw [Bool.and_eq_false_iff]
    exact Or.inl (decide_eq_false (by omega))
  rw [hexEscape?, hquad]
  simp only [hhigh, Bool.false_eq_true, if_false]

/-- A written character is read as it was. -/
theorem scanString_escapedChar (whole : List Char) (read : List Nat) (c : Char) {t : List Char}
    (ht : t ≠ []) :
    scanString whole read (escapedChar c ++ t) = scanString whole (c.toNat :: read) t := by
  unfold escapedChar
  split_ifs with hself hn hr ht' hb hf hcontrol
  · rcases hself with rfl | rfl
    · exact scanString_escape whole read t (by decide) (by decide)
    · exact scanString_escape whole read t (by decide) (by decide)
  · rw [hn]
    exact scanString_escape whole read t (by decide) (by decide)
  · rw [hr]
    exact scanString_escape whole read t (by decide) (by decide)
  · rw [ht']
    exact scanString_escape whole read t (by decide) (by decide)
  · rw [hb]
    exact scanString_escape whole read t (by decide) (by decide)
  · rw [hf]
    exact scanString_escape whole read t (by decide) (by decide)
  · exact scanString_number whole read (hexEscape?_hex hcontrol ht)
  · obtain ⟨hquote, hbackslash⟩ := not_or.mp hself
    exact scanString_plain whole read t hquote hbackslash hcontrol

/-- The rest of a written text is read up to its closing quote. -/
theorem scanString_text (whole : List Char) (s : List Char) (read : List Nat) (rest : List Char) :
    scanString whole read (s.flatMap escapedChar ++ Text.doubleQuote :: rest) =
      .ok (Str.ofPoints (read.reverse ++ s.map Char.toNat), rest) := by
  induction s generalizing read with
  | nil =>
    rw [List.map_nil, List.append_nil, List.flatMap_nil, List.nil_append, scanString.eq_def]
    exact if_pos rfl
  | cons c more ih =>
    rw [List.flatMap_cons, List.append_assoc, scanString_escapedChar, ih, List.reverse_cons,
      List.append_assoc, List.map_cons, List.singleton_append]
    exact List.append_ne_nil_of_right_ne_nil _ (List.cons_ne_nil _ _)

theorem ofPoints_text (s : String) : Str.ofPoints (s.toList.map Char.toNat) = .text s := by
  rw [Str.ofPoints, Plan.split_text]
  show Str.text (String.ofList s.toList) = .text s
  rw [String.ofList_toList]

/-- A written text, from after its opening quote. -/
theorem scanString_quotedText (whole : List Char) (s : String) (rest : List Char) :
    scanString whole [] (s.toList.flatMap escapedChar ++ Text.doubleQuote :: rest) =
      .ok (.text s, rest) := by
  rw [scanString_text, List.reverse_nil, List.nil_append, ofPoints_text]

/-! ## Steps of the reader -/

/-- What begins a value is neither white space nor a closing bracket nor a byte order mark. -/
def Begins (s : List Char) : Prop :=
  ∃ c t, s = c :: t ∧ isSpace c = false ∧ c ≠ ']' ∧ c ≠ '\uFEFF'

theorem Begins.skipSpace {s : List Char} (h : Begins s) (rest : List Char) :
    skipSpace (s ++ rest) = s ++ rest := by
  obtain ⟨c, t, rfl, hc, _⟩ := h
  exact List.dropWhile_cons_of_neg (by rw [hc]; exact Bool.false_ne_true)

theorem Begins.append {s : List Char} (h : Begins s) (rest : List Char) : Begins (s ++ rest) := by
  obtain ⟨c, t, rfl, hc⟩ := h
  exact ⟨c, t ++ rest, rfl, hc⟩

theorem Begins.head?_ne {s : List Char} (h : Begins s) : s.head? ≠ some ']' := by
  obtain ⟨c, t, rfl, _, hc, _⟩ := h
  exact fun hhead => hc (Option.some.inj hhead)

/-- A line break with the blanks after it is white space. -/
theorem skipSpace_break (level : Nat) (s : List Char) :
    skipSpace (Style.saved.break level ++ s) = skipSpace s := by
  refine List.dropWhile_append_of_pos fun c hc => ?_
  rcases List.mem_cons.mp hc with rfl | hc
  · rfl
  · rw [List.eq_of_mem_replicate hc]
    rfl

/-- What has been read as a value began one. -/
theorem begins_of_parseValue {fuel : Nat} {s rest : List Char} {x : Json}
    (h : parseValue fuel s = .ok (x, rest)) : Begins s := by
  cases fuel with
  | zero => cases h
  | succ fuel =>
    cases s with
    | nil => cases h
    | cons c t =>
      have hfault : ∀ d : Char, isSpace d = true ∨ d = ']' ∨ d = '\uFEFF' →
          parseValue (fuel + 1) (d :: t) ≠ .ok (x, rest) := by
        intro d hd hread
        simp only [isSpace, Bool.or_eq_true, beq_iff_eq, or_assoc] at hd
        rcases hd with rfl | rfl | rfl | rfl | rfl | rfl <;> cases hread
      refine ⟨c, t, rfl, ?_, ?_, ?_⟩
      · by_contra hspace
        exact hfault c (Or.inl (Bool.eq_true_of_not_eq_false hspace)) h
      · rintro rfl
        exact hfault ']' (Or.inr (Or.inl rfl)) h
      · rintro rfl
        exact hfault '\uFEFF' (Or.inr (Or.inr rfl)) h

/-- What is read as a number begins with a digit, perhaps after a sign. -/
theorem begins_of_scanNumber {s : List Char} (h : scanNumber s ≠ fault .expectingValue s) :
    ∃ d t, isDigit d = true ∧ (s = d :: t ∨ s = '-' :: d :: t) := by
  have hwhole : ∀ u, scanWhole u ≠ none → ∃ d t, isDigit d = true ∧ u = d :: t := by
    intro u hu
    cases u with
    | nil => exact absurd rfl hu
    | cons d t =>
      refine ⟨d, t, ?_, rfl⟩
      rw [scanWhole] at hu
      split at hu
      · next hzero => rw [hzero]; rfl
      · split at hu
        · assumption
        · exact absurd rfl hu
  unfold scanNumber at h
  split at h
  next negative unsigned hsign =>
    have hsome : scanWhole unsigned ≠ none := by
      intro hnone
      rw [hnone] at h
      exact h rfl
    obtain ⟨d, t, hd, rfl⟩ := hwhole unsigned hsome
    refine ⟨d, t, hd, ?_⟩
    split at hsign
    · cases hsign
      exact Or.inr rfl
    · cases hsign
      exact Or.inl rfl

/-- No word begins with a digit, nor with one after a sign. -/
theorem scanConstant?_digit {d : Char} (hd : isDigit d = true) (t : List Char) :
    scanConstant? (d :: t) = none ∧ scanConstant? ('-' :: d :: t) = none := by
  have hne : ∀ c, isDigit c = false → c ≠ d := by
    rintro c hc rfl
    rw [hd] at hc
    cases hc
  constructor <;>
    simp [scanConstant?, constants, hne 'n' rfl, hne 't' rfl, hne 'f' rfl, hne 'N' rfl, hne 'I' rfl,
      hne '-' rfl]

theorem parseValue_scanNumber {fuel : Nat} {s : List Char}
    (h : scanNumber s ≠ fault .expectingValue s) : parseValue (fuel + 1) s = scanNumber s := by
  obtain ⟨d, t, hd, hs⟩ := begins_of_scanNumber h
  have hne : ∀ c, isDigit c = false → d ≠ c := by
    rintro c hc rfl
    rw [hd] at hc
    cases hc
  obtain ⟨hdigit, hsigned⟩ := scanConstant?_digit hd t
  rcases hs with rfl | rfl
  · rw [parseValue.eq_def]
    dsimp only
    rw [if_neg (hne _ rfl), if_neg (hne _ rfl), if_neg (hne _ rfl), hdigit]
  · rw [parseValue.eq_def]
    dsimp only
    rw [if_neg (by decide), if_neg (by decide), if_neg (by decide), hsigned]

theorem parseValue_number {fuel : Nat} {s : List Char} {found : Json × List Char}
    (h : scanNumber s = .ok found) : parseValue (fuel + 1) s = .ok found := by
  rw [parseValue_scanNumber, h]
  rw [h]
  nofun

theorem parseValue_arr {fuel : Nat} {s : List Char} (h : (skipSpace s).head? ≠ some ']') :
    parseValue (fuel + 1) ('[' :: s) = parseItems fuel [] (skipSpace s) := by
  rw [parseValue.eq_def]
  dsimp only
  rw [if_neg (by decide), if_pos rfl]
  split
  · next heq => exact absurd (by rw [heq]; rfl) h
  · rfl

theorem parseValue_obj {fuel : Nat} {s : List Char} (h : (skipSpace s).head? ≠ some '\x7d') :
    parseValue (fuel + 1) ('\x7b' :: s) = parseMembers fuel [] (skipSpace s) := by
  rw [parseValue.eq_def]
  dsimp only
  rw [if_neg (by decide), if_neg (by decide), if_pos rfl]
  split
  · next heq => exact absurd (by rw [heq]; rfl) h
  · rfl

theorem head?_doubleQuote_ne (s : List Char) : (Text.doubleQuote :: s).head? ≠ some '\x7d' :=
  fun h => absurd (Option.some.inj h) (by decide)

theorem parseItems_close {fuel : Nat} {read : List Json} {s after rest : List Char} {x : Json}
    (hvalue : parseValue fuel s = .ok (x, after)) (hafter : skipSpace after = ']' :: rest) :
    parseItems (fuel + 1) read s = .ok (.arr (x :: read).reverse, rest) := by
  rw [parseItems.eq_def]
  dsimp only
  rw [hvalue]
  dsimp only [bind, Except.bind]
  rw [hafter]
  rfl

theorem parseItems_more {fuel : Nat} {read : List Json} {s after rest : List Char} {x : Json}
    (hvalue : parseValue fuel s = .ok (x, after)) (hafter : skipSpace after = ',' :: rest) :
    parseItems (fuel + 1) read s = parseItems fuel (x :: read) (skipSpace rest) := by
  rw [parseItems.eq_def]
  dsimp only
  rw [hvalue]
  dsimp only [bind, Except.bind]
  rw [hafter]
  rfl

/-- A member is read as a name, a colon and a value, with white space between them. -/
theorem parseMembers_step {fuel : Nat} {read : Fields} {name : Str} {s t u after : List Char}
    {x : Json} (hname : scanString (Text.doubleQuote :: s) [] s = .ok (name, t))
    (hcolon : skipSpace t = ':' :: u) (hvalue : parseValue fuel (skipSpace u) = .ok (x, after)) :
    parseMembers (fuel + 1) read (Text.doubleQuote :: s) =
      match skipSpace after with
      | '\x7d' :: rest => .ok (.obj (put name x read), rest)
      | ',' :: rest => parseMembers fuel (put name x read) (skipSpace rest)
      | rest => fault .expectingComma rest := by
  have hquote : Text.doubleQuote = Char.ofNat 34 := rfl
  rw [parseMembers.eq_def]
  dsimp only
  rw [if_pos hquote, hname]
  dsimp only [bind, Except.bind]
  rw [hcolon]
  split
  · next rest heq =>
    cases heq
    rw [hvalue]
    rfl
  · next hne => exact absurd rfl (hne _)

theorem parseMembers_named {fuel : Nat} {read : Fields} {name : String} {s t after : List Char}
    {x : Json} (hcolon : skipSpace s = ':' :: t)
    (hvalue : parseValue fuel (skipSpace t) = .ok (x, after)) :
    parseMembers (fuel + 1) read (quotedText name.toList ++ s) =
      match skipSpace after with
      | '\x7d' :: rest => .ok (.obj (put (.text name) x read), rest)
      | ',' :: rest => parseMembers fuel (put (.text name) x read) (skipSpace rest)
      | rest => fault .expectingComma rest := by
  rw [quotedText, List.cons_append, List.cons_append, List.append_assoc, List.singleton_append]
  exact parseMembers_step (scanString_quotedText _ name s) hcolon hvalue

/-- A member is read as it is written to a file. -/
theorem parseMembers_member {fuel : Nat} {read : Fields} {name : String} {s after : List Char}
    {x : Json} (hs : Begins s) (hvalue : parseValue fuel s = .ok (x, after)) :
    parseMembers (fuel + 1) read (quotedText name.toList ++ ':' :: ' ' :: s) =
      match skipSpace after with
      | '\x7d' :: rest => .ok (.obj (put (.text name) x read), rest)
      | ',' :: rest => parseMembers fuel (put (.text name) x read) (skipSpace rest)
      | rest => fault .expectingComma rest := by
  have hspace : skipSpace (' ' :: s) = s := by
    have hskip := hs.skipSpace []
    rw [List.append_nil] at hskip
    exact hskip
  rw [← hspace] at hvalue
  exact parseMembers_named rfl hvalue

/-- The items of an array are a value and what comes after it: the end or a comma and more items. -/
theorem parseItems_eq_ok {fuel : Nat} {read : List Json} {s rest : List Char} {x : Json}
    (h : parseItems (fuel + 1) read s = .ok (x, rest)) :
    ∃ y after, parseValue fuel s = .ok (y, after) ∧
      ((skipSpace after = ']' :: rest ∧ x = .arr (y :: read).reverse) ∨
        ∃ t, skipSpace after = ',' :: t ∧ parseItems fuel (y :: read) (skipSpace t) = .ok (x, rest)) := by
  rw [parseItems.eq_def] at h
  obtain ⟨⟨y, after⟩, hvalue, hmark⟩ := bind_eq_ok.mp h
  refine ⟨y, after, hvalue, ?_⟩
  dsimp only at hmark
  split at hmark
  · next heq =>
    cases hmark
    exact Or.inl ⟨heq, rfl⟩
  · next heq => exact Or.inr ⟨_, heq, hmark⟩
  · cases hmark

/-- The members of an object are a name, a colon, a value and what comes after it. -/
theorem parseMembers_eq_ok {fuel : Nat} {read : Fields} {s rest : List Char} {x : Json}
    (h : parseMembers (fuel + 1) read s = .ok (x, rest)) :
    ∃ t name u v y after, s = Text.doubleQuote :: t ∧ scanString s [] t = .ok (name, u) ∧
      skipSpace u = ':' :: v ∧ parseValue fuel (skipSpace v) = .ok (y, after) ∧
      ((skipSpace after = '\x7d' :: rest ∧ x = .obj (put name y read)) ∨
        ∃ w, skipSpace after = ',' :: w ∧
          parseMembers fuel (put name y read) (skipSpace w) = .ok (x, rest)) := by
  cases s with
  | nil => cases h
  | cons c t =>
    rw [parseMembers.eq_def] at h
    dsimp only at h
    split_ifs at h with hc
    · obtain ⟨⟨name, u⟩, hname, h⟩ := bind_eq_ok.mp h
      dsimp only at h
      split at h
      · next v hcolon =>
        obtain ⟨⟨y, after⟩, hvalue, h⟩ := bind_eq_ok.mp h
        refine ⟨t, name, u, v, y, after, by rw [hc]; rfl, hname, hcolon, hvalue, ?_⟩
        dsimp only at h
        split at h
        · next heq =>
          cases h
          exact Or.inl ⟨heq, rfl⟩
        · next heq => exact Or.inr ⟨_, heq, h⟩
        · cases h
      · cases h
    · cases h

/-- What has been read as items began with a value. -/
theorem begins_of_parseItems {fuel : Nat} {read : List Json} {s rest : List Char} {x : Json}
    (h : parseItems fuel read s = .ok (x, rest)) : Begins s := by
  cases fuel with
  | zero => cases h
  | succ fuel =>
    obtain ⟨_, _, hvalue, _⟩ := parseItems_eq_ok h
    exact begins_of_parseValue hvalue

/-- What has been read as members began with a quote. -/
theorem begins_of_parseMembers {fuel : Nat} {read : Fields} {s rest : List Char} {x : Json}
    (h : parseMembers fuel read s = .ok (x, rest)) : ∃ t, s = Text.doubleQuote :: t := by
  cases fuel with
  | zero => cases h
  | succ fuel =>
    obtain ⟨t, _, _, _, _, _, hs, _⟩ := parseMembers_eq_ok h
    exact ⟨t, hs⟩

theorem parseValue_string {fuel : Nat} {s rest : List Char} {x : Str}
    (h : scanString (Text.doubleQuote :: s) [] s = .ok (x, rest)) :
    parseValue (fuel + 1) (Text.doubleQuote :: s) = .ok (.str x, rest) := by
  have hquote : Text.doubleQuote = Char.ofNat 34 := rfl
  rw [parseValue.eq_def]
  dsimp only
  rw [if_pos hquote, h]
  rfl

theorem parseValue_noItems {fuel : Nat} {s rest : List Char} (h : skipSpace s = ']' :: rest) :
    parseValue (fuel + 1) ('[' :: s) = .ok (.arr [], rest) := by
  rw [parseValue.eq_def]
  dsimp only
  rw [if_neg (by decide), if_pos rfl, h]
  rfl

theorem parseValue_noMembers {fuel : Nat} {s rest : List Char} (h : skipSpace s = '\x7d' :: rest) :
    parseValue (fuel + 1) ('\x7b' :: s) = .ok (.obj [], rest) := by
  rw [parseValue.eq_def]
  dsimp only
  rw [if_neg (by decide), if_neg (by decide), if_pos rfl, h]
  rfl

theorem parseValue_constant {fuel : Nat} {s : List Char} {found : Json × List Char}
    (h : scanConstant? s = some found) : parseValue (fuel + 1) s = .ok found := by
  obtain ⟨x, rest⟩ := found
  cases s with
  | nil => cases h
  | cons c t =>
    have hne : ∀ d ∈ [Char.ofNat 34, '[', '\x7b'], c ≠ d := by
      rintro d hd rfl
      simp only [List.mem_cons, List.not_mem_nil, or_false] at hd
      rcases hd with rfl | rfl | rfl <;> cases h
    rw [parseValue.eq_def]
    dsimp only
    rw [if_neg (hne _ (by simp)), if_neg (hne _ (by simp)), if_neg (hne _ (by simp)), h]

/-- How a value is read, by what it begins with. -/
inductive ValueStep (fuel : Nat) : List Char → Json → List Char → Prop
  | string {s rest : List Char} {x : Str} : scanString (Text.doubleQuote :: s) [] s = .ok (x, rest) →
    ValueStep fuel (Text.doubleQuote :: s) (.str x) rest
  | noItems {s rest : List Char} : skipSpace s = ']' :: rest → ValueStep fuel ('[' :: s) (.arr []) rest
  | items {s rest : List Char} {x : Json} : parseItems fuel [] (skipSpace s) = .ok (x, rest) →
    ValueStep fuel ('[' :: s) x rest
  | noMembers {s rest : List Char} : skipSpace s = '\x7d' :: rest →
    ValueStep fuel ('\x7b' :: s) (.obj []) rest
  | members {s rest : List Char} {x : Json} : parseMembers fuel [] (skipSpace s) = .ok (x, rest) →
    ValueStep fuel ('\x7b' :: s) x rest
  | constant {s rest : List Char} {x : Json} : scanConstant? s = some (x, rest) →
    ValueStep fuel s x rest
  | number {s rest : List Char} {x : Json} : scanNumber s = .ok (x, rest) → ValueStep fuel s x rest

theorem parseValue_eq_ok {fuel : Nat} {s rest : List Char} {x : Json} :
    parseValue (fuel + 1) s = .ok (x, rest) ↔ ValueStep fuel s x rest := by
  constructor
  · intro h
    cases s with
    | nil => cases h
    | cons c t =>
      rw [parseValue.eq_def] at h
      dsimp only at h
      split_ifs at h with hquote hbracket hbrace
      · obtain ⟨⟨y, after⟩, hstring, hy⟩ := bind_eq_ok.mp h
        cases hy
        subst hquote
        exact .string hstring
      · subst hbracket
        split at h
        · next hclose =>
          cases h
          exact .noItems hclose
        · exact .items h
      · subst hbrace
        split at h
        · next hclose =>
          cases h
          exact .noMembers hclose
        · exact .members h
      · split at h
        · next hconstant =>
          cases h
          exact .constant hconstant
        · exact .number h
  · intro h
    cases h with
    | string hstring => exact parseValue_string hstring
    | noItems hclose => exact parseValue_noItems hclose
    | items hitems => rw [parseValue_arr (begins_of_parseItems hitems).head?_ne, hitems]
    | noMembers hclose => exact parseValue_noMembers hclose
    | members hmembers =>
      obtain ⟨t, ht⟩ := begins_of_parseMembers hmembers
      rw [parseValue_obj (by rw [ht]; exact head?_doubleQuote_ne t), hmembers]
    | constant hconstant => exact parseValue_constant hconstant
    | number hnumber => exact parseValue_number hnumber

/-! ## Values -/

/-- A value is read back from its text wherever it stands in a file. -/
def ReadsBack (x : Json) : Prop := ∀ (level fuel : Nat) (rest : List Char), Ends rest →
  2 * (Style.saved.render level x).length < fuel →
  parseValue fuel (Style.saved.render level x ++ rest) = .ok (x, rest)

theorem ReadsBack.begins {x : Json} (h : ReadsBack x) (level : Nat) :
    Begins (Style.saved.render level x) := by
  have hread := h level _ [] ends_nil (Nat.lt_succ_self _)
  rw [List.append_nil] at hread
  exact begins_of_parseValue hread

/-- What comes after a part of an array or an object: a comma or a line break. -/
theorem ends_break (level : Nat) (s : List Char) : Ends (Style.saved.break level ++ s) :=
  ends_cons (Or.inr rfl) _

theorem ends_items (level outer : Nat) (items : List Json) (s : List Char) :
    Ends (Style.saved.renderItems level items ++ (Style.saved.break outer ++ s)) := by
  cases items with
  | nil => exact ends_break outer s
  | cons y more => exact ends_cons (Or.inl rfl) _

theorem ends_members (level outer : Nat) (members : Fields) (s : List Char) :
    Ends (Style.saved.renderMembers level members ++ (Style.saved.break outer ++ s)) := by
  cases members with
  | nil => exact ends_break outer s
  | cons m more => exact ends_cons (Or.inl rfl) _

theorem renderItems_cons (level : Nat) (x : Json) (rest : List Json) :
    Style.saved.renderItems level (x :: rest) = ',' :: (Style.saved.break level ++
      (Style.saved.render level x ++ Style.saved.renderItems level rest)) := by
  simp only [Style.renderItems, List.append_assoc]
  rfl

theorem not_mem_memberNames_of_distinct {read more : Fields} {m : Str × Json}
    (h : Distinct (read ++ m :: more)) : m.1 ∉ memberNames read := by
  unfold Distinct memberNames at h
  rw [List.map_append, List.map_cons] at h
  intro hm
  exact (List.nodup_append.mp h).2.2 m.1 hm m.1 List.mem_cons_self rfl

/-- The items of an array are read back one after the other. -/
theorem parseItems_render {items : List Json} {x : Json} {read : List Json} {level outer fuel : Nat}
    {tail : List Char} (hx : ReadsBack x) (hitems : ∀ y ∈ items, ReadsBack y)
    (hfuel : 2 * ((Style.saved.render level x).length +
      (Style.saved.renderItems level items).length) + 1 < fuel) :
    parseItems fuel read (Style.saved.render level x ++ (Style.saved.renderItems level items ++
        (Style.saved.break outer ++ ']' :: tail))) =
      .ok (.arr (read.reverse ++ x :: items), tail) := by
  induction items generalizing x read fuel with
  | nil =>
    obtain ⟨fuel, rfl⟩ : ∃ f, fuel = f + 1 := ⟨fuel - 1, by omega⟩
    have hvalue := hx level fuel _ (ends_items level outer [] (']' :: tail)) (by omega)
    rw [parseItems_close hvalue (skipSpace_break outer (']' :: tail)), List.reverse_cons]
  | cons y more ih =>
    obtain ⟨hy, hmore⟩ := List.forall_mem_cons.mp hitems
    obtain ⟨fuel, rfl⟩ : ∃ f, fuel = f + 1 := ⟨fuel - 1, by omega⟩
    have hvalue := hx level fuel _ (ends_items level outer (y :: more) (']' :: tail)) (by omega)
    have hitem := renderItems_cons level y more
    have hlength := congrArg List.length hitem
    simp only [List.length_cons, List.length_append] at hlength
    have hafter := congrArg (· ++ (Style.saved.break outer ++ ']' :: tail)) hitem
    simp only [List.cons_append, List.append_assoc] at hafter
    rw [hafter] at hvalue ⊢
    rw [parseItems_more hvalue rfl, skipSpace_break, (hy.begins level).skipSpace,
      ih hy hmore (by omega), List.reverse_cons, List.append_assoc, List.singleton_append]

theorem renderMembers_cons (level : Nat) (name : String) (x : Json) (rest : Fields) :
    Style.saved.renderMembers level ((.text name, x) :: rest) = ',' :: (Style.saved.break level ++
      (quotedText name.toList ++ ':' :: ' ' ::
        (Style.saved.render level x ++ Style.saved.renderMembers level rest))) := by
  simp only [Style.renderMembers, List.append_assoc]
  rfl

/-- The members of an object are read back one after the other. -/
theorem parseMembers_render {members : Fields} {name : String} {x : Json} {read : Fields}
    {level outer fuel : Nat} {tail : List Char} (hx : ReadsBack x)
    (hmembers : ∀ m ∈ members, (∃ s, m.1 = .text s) ∧ ReadsBack m.2)
    (hnames : Distinct (read ++ (.text name, x) :: members))
    (hfuel : 2 * ((Style.saved.render level x).length +
      (Style.saved.renderMembers level members).length) + 1 < fuel) :
    parseMembers fuel read (quotedText name.toList ++ ':' :: ' ' :: (Style.saved.render level x ++
        (Style.saved.renderMembers level members ++ (Style.saved.break outer ++ '\x7d' :: tail)))) =
      .ok (.obj (read ++ (.text name, x) :: members), tail) := by
  induction members generalizing name x read fuel with
  | nil =>
    obtain ⟨fuel, rfl⟩ : ∃ f, fuel = f + 1 := ⟨fuel - 1, by omega⟩
    have hvalue := hx level fuel _ (ends_members level outer [] ('\x7d' :: tail)) (by omega)
    have hafter := skipSpace_break outer ('\x7d' :: tail)
    rw [parseMembers_member ((hx.begins level).append _) hvalue,
      put_of_new (not_mem_memberNames_of_distinct hnames)]
    rw [Style.renderMembers, List.nil_append, hafter]
    rfl
  | cons m more ih =>
    obtain ⟨⟨⟨next, hnext⟩, hm⟩, hmore⟩ := List.forall_mem_cons.mp hmembers
    obtain ⟨n, y⟩ := m
    obtain rfl : n = .text next := hnext
    obtain ⟨fuel, rfl⟩ : ∃ f, fuel = f + 1 := ⟨fuel - 1, by omega⟩
    have hvalue := hx level fuel _
      (ends_members level outer ((.text next, y) :: more) ('\x7d' :: tail)) (by omega)
    have hmember := renderMembers_cons level next y more
    have hlength := congrArg List.length hmember
    simp only [List.length_cons, List.length_append] at hlength
    have hafter := congrArg (· ++ (Style.saved.break outer ++ '\x7d' :: tail)) hmember
    simp only [List.cons_append, List.append_assoc] at hafter
    rw [parseMembers_member ((hx.begins level).append _) hvalue,
      put_of_new (not_mem_memberNames_of_distinct hnames), hafter]
    have hrest : Distinct ((read ++ [(.text name, x)]) ++ (.text next, y) :: more) := by
      rw [List.append_assoc]
      exact hnames
    have hless : 2 * ((Style.saved.render level y).length +
        (Style.saved.renderMembers level more).length) + 1 < fuel := by omega
    have hread := ih hm hmore hrest hless
    rw [List.append_assoc, List.singleton_append] at hread
    rw [← hread]
    show parseMembers fuel _ (skipSpace (Style.saved.break level ++ _)) = _
    rw [skipSpace_break]
    rfl

/-! ## From its parts to a value -/

theorem render_arr (level : Nat) (x : Json) (rest : List Json) :
    Style.saved.render level (.arr (x :: rest)) = '[' :: (Style.saved.break (level + 1) ++
      (Style.saved.render (level + 1) x ++ (Style.saved.renderItems (level + 1) rest ++
        (Style.saved.break level ++ [']'])))) := by
  simp only [Style.render, List.append_assoc, List.cons_append]

theorem render_obj (level : Nat) (name : String) (x : Json) (rest : Fields) :
    Style.saved.render level (.obj ((.text name, x) :: rest)) =
      '\x7b' :: (Style.saved.break (level + 1) ++ (quotedText name.toList ++ ':' :: ' ' ::
        (Style.saved.render (level + 1) x ++ (Style.saved.renderMembers (level + 1) rest ++
          (Style.saved.break level ++ ['\x7d']))))) := by
  simp only [Style.render, List.append_assoc, List.cons_append]
  rfl

theorem writeFault?_item {items : List Json} (h : itemsFault? items = none) :
    ∀ x ∈ items, x.writeFault? = none := by
  induction items with
  | nil => exact fun _ hx => (List.not_mem_nil hx).elim
  | cons y more ih =>
    rw [itemsFault?, Option.or_eq_none_iff] at h
    exact List.forall_mem_cons.mpr ⟨h.1, ih h.2⟩

theorem writeFault?_member {members : Fields} (h : membersFault? members = none) :
    ∀ m ∈ members, (∃ s, m.1 = .text s) ∧ m.2.writeFault? = none := by
  induction members with
  | nil => exact fun _ hm => (List.not_mem_nil hm).elim
  | cons m more ih =>
    rw [membersFault?, Option.or_eq_none_iff, Option.or_eq_none_iff] at h
    refine List.forall_mem_cons.mpr ⟨⟨?_, h.1.2⟩, ih h.2⟩
    obtain ⟨n, y⟩ := m
    cases n with
    | text s => exact ⟨s, rfl⟩
    | broken clean surrogate rest => cases h.1.1

/-- There is always fuel for a step. -/
theorem ReadsBack.intro {x : Json} (h : ∀ (level fuel : Nat) (rest : List Char), Ends rest →
    2 * (Style.saved.render level x).length ≤ fuel →
    parseValue (fuel + 1) (Style.saved.render level x ++ rest) = .ok (x, rest)) : ReadsBack x := by
  rintro level (_ | fuel) rest hrest hfuel
  · cases hfuel
  · exact h level fuel rest hrest (Nat.le_of_lt_succ hfuel)

theorem readsBack_int {n : Int} (h : (int n).writeFault? = none) : ReadsBack (.int n) := by
  have hlength : ¬maxIntegerDigits < (Nat.toDigits 10 n.natAbs).length := by
    intro hmany
    rw [writeFault?, if_pos hmany] at h
    cases h
  refine .intro fun level fuel rest hrest _ => ?_
  rw [Style.render]
  exact parseValue_number (scanNumber_int hlength hrest)

theorem readsBack_float {x : Binary64} (hx : x.Canonical) : ReadsBack (.float x) := by
  refine .intro fun level fuel rest hrest _ => ?_
  cases x with
  | nan => rfl
  | infinite negative => cases negative <;> rfl
  | finite negative m e =>
    rw [Style.render]
    exact parseValue_number (scanNumber_finite hx hrest)

theorem readsBack_text (s : String) : ReadsBack (.str (.text s)) := by
  refine .intro fun level fuel rest _ _ => ?_
  have hrender : Style.saved.render level (.str (.text s)) ++ rest =
      Text.doubleQuote :: (s.toList.flatMap escapedChar ++ Text.doubleQuote :: rest) := by
    simp [Style.render, Style.string, Style.saved, quotedText]
  rw [hrender]
  exact parseValue_string (scanString_quotedText _ s rest)

theorem readsBack_arr {items : List Json} (h : ∀ x ∈ items, ReadsBack x) :
    ReadsBack (.arr items) := by
  refine .intro fun level fuel rest _ hfuel => ?_
  cases items with
  | nil => rfl
  | cons x more =>
    obtain ⟨hx, hmore⟩ := List.forall_mem_cons.mp h
    rw [render_arr] at hfuel ⊢
    simp only [List.length_cons, List.length_append, List.length_nil] at hfuel
    simp only [List.cons_append, List.append_assoc, List.nil_append]
    have hspace := skipSpace_break (level + 1) (Style.saved.render (level + 1) x ++
      (Style.saved.renderItems (level + 1) more ++ (Style.saved.break level ++ ']' :: rest)))
    rw [(hx.begins _).skipSpace] at hspace
    rw [parseValue_arr (by rw [hspace]; exact ((hx.begins _).append _).head?_ne), hspace,
      parseItems_render hx hmore (by omega)]
    rfl

theorem readsBack_obj {fields : Fields} (hnames : Distinct fields)
    (h : ∀ m ∈ fields, (∃ s, m.1 = .text s) ∧ ReadsBack m.2) : ReadsBack (.obj fields) := by
  refine .intro fun level fuel rest _ hfuel => ?_
  cases fields with
  | nil => rfl
  | cons m more =>
    obtain ⟨⟨⟨name, hname⟩, hx⟩, hmore⟩ := List.forall_mem_cons.mp h
    obtain ⟨n, x⟩ := m
    obtain rfl : n = .text name := hname
    rw [render_obj] at hfuel ⊢
    simp only [List.length_cons, List.length_append, List.length_nil] at hfuel
    simp only [List.cons_append, List.append_assoc, List.nil_append]
    have hspace := skipSpace_break (level + 1) (quotedText name.toList ++ ':' :: ' ' ::
      (Style.saved.render (level + 1) x ++ (Style.saved.renderMembers (level + 1) more ++
        (Style.saved.break level ++ '\x7d' :: rest))))
    have hless : 2 * ((Style.saved.render (level + 1) x).length +
      (Style.saved.renderMembers (level + 1) more).length) + 1 < fuel := by omega
    rw [parseValue_obj (by rw [hspace]; exact head?_doubleQuote_ne _), hspace]
    exact parseMembers_render hx hmore hnames hless

/-- What can be written is read back. -/
theorem readsBack {x : Json} (hx : Proper x) (hwrite : x.writeFault? = none) : ReadsBack x := by
  induction hx with
  | null => exact .intro fun _ _ _ _ _ => rfl
  | bool b => exact .intro fun _ _ _ _ _ => by cases b <;> rfl
  | int n => exact readsBack_int hwrite
  | float hx => exact readsBack_float hx
  | str s =>
    cases s with
    | broken clean surrogate more => cases hwrite
    | text s => exact readsBack_text s
  | arr _ ih => exact readsBack_arr fun x hx => ih x hx (writeFault?_item hwrite x hx)
  | obj hnames _ ih =>
    exact readsBack_obj hnames fun m hm => (writeFault?_member hwrite m hm).imp_right (ih m hm)

/-! ## Whole texts -/

/-- A number is written with digits, a point, a sign and the letter of its exponent. -/
def IsNumeric (c : Char) : Prop := isDigit c = true ∨ c ∈ ['-', '+', '.', 'e']

theorem IsNumeric.ne_return {c : Char} (h : IsNumeric c) : c ≠ '\r' := by
  rintro rfl
  rcases h with h | h
  · cases h
  · revert h
    decide

theorem isNumeric_of_mem_spelled {s : List Char} {digits : Nat} {power : Int}
    (h : Spells s digits power) : ∀ c ∈ s, IsNumeric c := by
  obtain ⟨whole, fraction, exponent, rfl, hwhole, hfraction, hexponent, _⟩ := h
  have hdigits : ∀ {t : List Char}, Digits t → ∀ c ∈ t, IsNumeric c := fun ht c hc => Or.inl (ht c hc)
  simp only [List.forall_mem_append]
  refine ⟨?_, ?_, ?_⟩
  · rcases hwhole with rfl | hwhole
    · exact hdigits (digits_zeros 1)
    · exact hdigits hwhole.1
  · cases fraction with
    | nil => exact fun _ h => (List.not_mem_nil h).elim
    | cons d more =>
      exact List.forall_mem_cons.mpr ⟨Or.inr (by decide), hdigits hfraction⟩
  · cases exponent with
    | none => exact fun _ h => (List.not_mem_nil h).elim
    | some e =>
      refine List.forall_mem_cons.mpr ⟨Or.inr (by decide), List.forall_mem_cons.mpr ⟨?_, ?_⟩⟩
      · cases e.1 <;> exact Or.inr (by decide)
      · exact hdigits (hexponent e rfl).1

theorem isNumeric_of_mem_signText {negative : Bool} : ∀ c ∈ signText negative, IsNumeric c := by
  cases negative with
  | false => exact fun _ h => (List.not_mem_nil h).elim
  | true => exact List.forall_mem_singleton.mpr (Or.inr (by decide))

theorem isNumeric_of_mem_int {n : Int} : ∀ c ∈ (toString n).toList, IsNumeric c := by
  rw [toList_toString_int]
  exact List.forall_mem_append.mpr
    ⟨isNumeric_of_mem_signText, fun c hc => Or.inl (digits_toDigits _ c hc)⟩

theorem isNumeric_of_mem_finite {negative : Bool} {m : Nat} {e : Int}
    (h : Binary64.Canonical (.finite negative m e)) :
    ∀ c ∈ (Binary64.text (.finite negative m e)).toList, IsNumeric c := by
  rw [toList_text_finite]
  refine List.forall_mem_append.mpr ⟨isNumeric_of_mem_signText, ?_⟩
  split
  · exact isNumeric_of_mem_spelled spells_zero
  · next hm =>
    obtain ⟨digits, power, hspells, _⟩ :=
      layout_spells (Binary64.shortest_pos h (Nat.pos_of_ne_zero hm))
    exact isNumeric_of_mem_spelled hspells

/-- What is written has line feeds for line breaks and nothing else. -/
def NoReturn (s : List Char) : Prop := ∀ c ∈ s, c ≠ '\r'

theorem noReturn_append {s t : List Char} : NoReturn (s ++ t) ↔ NoReturn s ∧ NoReturn t :=
  List.forall_mem_append

theorem noReturn_cons {c : Char} {s : List Char} : NoReturn (c :: s) ↔ c ≠ '\r' ∧ NoReturn s :=
  List.forall_mem_cons

theorem noReturn_nil : NoReturn [] := fun _ h => (List.not_mem_nil h).elim

theorem noReturn_of_not_mem {s : List Char} (h : '\r' ∉ s) : NoReturn s := by
  rintro c hc rfl
  exact h hc

theorem noReturn_break (level : Nat) : NoReturn (Style.saved.break level) := by
  refine noReturn_cons.mpr ⟨by decide, fun c hc => ?_⟩
  rw [List.eq_of_mem_replicate hc]
  decide

theorem noReturn_escapedChar (c : Char) : NoReturn (escapedChar c) := by
  have hpair : ∀ d : Char, d ≠ '\r' → NoReturn [Text.backslash, d] := fun d hd =>
    noReturn_cons.mpr ⟨by decide, noReturn_cons.mpr ⟨hd, noReturn_nil⟩⟩
  unfold escapedChar
  split_ifs with hself hn hr ht hb hf hcontrol
  · rcases hself with rfl | rfl
    · exact hpair _ (by decide)
    · exact hpair _ (by decide)
  · exact hpair 'n' (by decide)
  · exact hpair 'r' (by decide)
  · exact hpair 't' (by decide)
  · exact hpair 'b' (by decide)
  · exact hpair 'f' (by decide)
  · have hdigit : ∀ n < 16, Text.hexDigit n ≠ '\r' := by decide
    refine noReturn_cons.mpr ⟨by decide, noReturn_cons.mpr ⟨by decide, fun d hd => ?_⟩⟩
    obtain ⟨k, hk, rfl⟩ := Source.mem_hex_four hd
    exact hdigit k hk
  · exact noReturn_cons.mpr ⟨hr, noReturn_nil⟩

theorem noReturn_quotedText (s : List Char) : NoReturn (quotedText s) := by
  refine noReturn_append.mpr ⟨noReturn_cons.mpr ⟨by decide, fun c hc => ?_⟩, ?_⟩
  · obtain ⟨d, _, hc⟩ := List.mem_flatMap.mp hc
    exact noReturn_escapedChar d c hc
  · exact noReturn_cons.mpr ⟨by decide, noReturn_nil⟩

theorem noReturn_items {items : List Json} (h : ∀ x ∈ items, ∀ level,
    NoReturn (Style.saved.render level x)) (level : Nat) :
    NoReturn (Style.saved.renderItems level items) := by
  induction items with
  | nil => exact noReturn_nil
  | cons x more ih =>
    obtain ⟨hx, hmore⟩ := List.forall_mem_cons.mp h
    rw [renderItems_cons, noReturn_cons, noReturn_append, noReturn_append]
    exact ⟨by decide, noReturn_break level, hx level, ih hmore⟩

theorem noReturn_members {members : Fields} (h : ∀ m ∈ members, (∃ s, m.1 = .text s) ∧ ∀ level,
    NoReturn (Style.saved.render level m.2)) (level : Nat) :
    NoReturn (Style.saved.renderMembers level members) := by
  induction members with
  | nil => exact noReturn_nil
  | cons m more ih =>
    obtain ⟨⟨⟨name, hname⟩, hx⟩, hmore⟩ := List.forall_mem_cons.mp h
    obtain ⟨n, x⟩ := m
    obtain rfl : n = .text name := hname
    rw [renderMembers_cons, noReturn_cons, noReturn_append, noReturn_append, noReturn_cons,
      noReturn_cons, noReturn_append]
    exact ⟨by decide, noReturn_break level, noReturn_quotedText _, by decide, by decide, hx level,
      ih hmore⟩

theorem noReturn_render {x : Json} (hx : Proper x) (hwrite : x.writeFault? = none) (level : Nat) :
    NoReturn (Style.saved.render level x) := by
  induction hx generalizing level with
  | null => exact noReturn_of_not_mem (by unfold Style.render; decide)
  | bool b => cases b <;> exact noReturn_of_not_mem (by unfold Style.render; decide)
  | int n => exact fun c hc => (isNumeric_of_mem_int c hc).ne_return
  | @float x hx =>
    cases x with
    | nan => exact noReturn_of_not_mem (by unfold Style.render; decide)
    | infinite negative =>
      cases negative <;> exact noReturn_of_not_mem (by unfold Style.render; decide)
    | finite negative m e => exact fun c hc => (isNumeric_of_mem_finite hx c hc).ne_return
  | str s =>
    cases s with
    | broken clean surrogate more => cases hwrite
    | text s => exact noReturn_quotedText _
  | @arr items _ ih =>
    have hitems := fun x hx => ih x hx (writeFault?_item hwrite x hx)
    cases items with
    | nil => exact noReturn_of_not_mem (by unfold Style.render; decide)
    | cons x more =>
      obtain ⟨hx, hmore⟩ := List.forall_mem_cons.mp hitems
      rw [render_arr, noReturn_cons, noReturn_append, noReturn_append, noReturn_append,
        noReturn_append]
      exact ⟨by decide, noReturn_break _, hx _, noReturn_items hmore _, noReturn_break _,
        noReturn_cons.mpr ⟨by decide, noReturn_nil⟩⟩
  | @obj fields _ _ ih =>
    have hmembers := fun m hm => (writeFault?_member hwrite m hm).imp_right (ih m hm)
    cases fields with
    | nil => exact noReturn_of_not_mem (by unfold Style.render; decide)
    | cons m more =>
      obtain ⟨⟨⟨name, hname⟩, hx⟩, hmore⟩ := List.forall_mem_cons.mp hmembers
      obtain ⟨n, x⟩ := m
      obtain rfl : n = .text name := hname
      rw [render_obj, noReturn_cons, noReturn_append, noReturn_append, noReturn_cons, noReturn_cons,
        noReturn_append, noReturn_append, noReturn_append]
      exact ⟨by decide, noReturn_break _, noReturn_quotedText _, by decide, by decide, hx _,
        noReturn_members hmore _, noReturn_break _, noReturn_cons.mpr ⟨by decide, noReturn_nil⟩⟩

theorem unifyNewlines_of_noReturn {s : List Char} (h : NoReturn s) : Text.unifyNewlines s = s := by
  induction s with
  | nil => rfl
  | cons c rest ih =>
    obtain ⟨hc, hrest⟩ := noReturn_cons.mp h
    rw [Text.unifyNewlines, if_neg hc, ih hrest]
    rintro _ rfl
    exact absurd rfl hc

/-- A written value is what its text says. -/
theorem parse_write {x : Json} (hx : Proper x) (hwrite : x.writeFault? = none) :
    parse (write .saved x) = .ok x := by
  have hback := readsBack hx hwrite
  have hbegins := hback.begins 0
  have hvalue := hback 0 (2 * (Style.saved.render 0 x).length + 2) [] ends_nil (by omega)
  have hspace := hbegins.skipSpace []
  rw [List.append_nil] at hvalue hspace
  have hchars : parseChars (Style.saved.render 0 x) = .ok x := by
    obtain ⟨c, t, hs, _, _, hmark⟩ := hbegins
    unfold parseChars
    split
    · next heq =>
      rw [heq] at hs
      exact absurd (List.cons.inj hs).1.symm hmark
    · rw [hspace, hvalue]
      rfl
  rw [parse, write, String.toList_ofList, hchars]
  rfl

end EventCodegen.Json
