import EventCodegen.Proofs.Outcomes
import EventCodegen.Proofs.OversizedNumbers

/-! Reading JSON is blind to line ends: a text is read as the same text with every carriage return
turned into a line feed, and every pair of the two into one. Between values both are white space, no
word or number has either in it (`LineFree`), and inside a string both are refused, as they are
behind its backslash. What unifying changes beyond that is where a fault is met, and nothing else
(`SameReading`, `sameReading_parseChars`). -/
namespace EventCodegen

namespace Text

/-! ## Texts with their line ends unified -/

theorem unifyNewlines_cons {c : Char} (hc : c ≠ '\r') (s : List Char) :
    unifyNewlines (c :: s) = c :: unifyNewlines s := by
  rw [unifyNewlines]
  · rw [if_neg hc]
  · rintro rest rfl
    exact absurd rfl hc

theorem unifyNewlines_return (s : List Char) : ∃ t, unifyNewlines ('\r' :: s) = '\n' :: t := by
  rcases s with _ | ⟨c, t⟩
  · exact ⟨[], rfl⟩
  · by_cases hc : c = '\n'
    · subst hc
      exact ⟨unifyNewlines t, rfl⟩
    · refine ⟨unifyNewlines (c :: t), ?_⟩
      rw [unifyNewlines]
      · rw [if_pos rfl]
      · intro rest _ heq
        exact hc (List.cons.inj heq).1

theorem length_unifyNewlines_le (s : List Char) : (unifyNewlines s).length ≤ s.length := by
  fun_induction unifyNewlines s with
  | case1 => exact Nat.le_refl 0
  | case2 rest ih =>
    simp only [List.length_cons]
    omega
  | case3 c rest _ ih => exact Nat.succ_le_succ ih

theorem unifyNewlines_eq_nil {s : List Char} : unifyNewlines s = [] ↔ s = [] := by
  fun_cases unifyNewlines s <;> simp

/-- What a text without carriage returns begins is only unified after it. -/
theorem unifyNewlines_append {q : List Char} (hq : '\r' ∉ q) (t : List Char) :
    unifyNewlines (q ++ t) = q ++ unifyNewlines t := by
  induction q with
  | nil => rfl
  | cons c q ih =>
    rw [List.mem_cons, not_or] at hq
    rw [List.cons_append, unifyNewlines_cons (Ne.symm hq.1), ih hq.2, List.cons_append]

/-- A beginning without line ends has not come from unifying. -/
theorem exists_of_unifyNewlines {q r : List Char} (hq : '\n' ∉ q) :
    ∀ {s : List Char}, unifyNewlines s = q ++ r → ∃ t, s = q ++ t ∧ r = unifyNewlines t := by
  induction q with
  | nil => exact fun h => ⟨_, rfl, h.symm⟩
  | cons c q ih =>
    rw [List.mem_cons, not_or] at hq
    intro s h
    cases s with
    | nil => cases h
    | cons d t =>
      by_cases hd : d = '\r'
      · obtain ⟨u, hu⟩ := unifyNewlines_return t
        rw [hd, hu] at h
        exact absurd (List.cons.inj h).1 hq.1
      · rw [unifyNewlines_cons hd] at h
        obtain ⟨rfl, htail⟩ := List.cons.inj h
        obtain ⟨u, rfl, hr⟩ := ih hq.2 htail
        exact ⟨u, rfl, hr⟩

/-- What passes over one of the line ends passes over the other one, too. -/
theorem dropWhile_unifyNewlines {p : Char → Bool} (hp : p '\r' = p '\n') (s : List Char) :
    (unifyNewlines s).dropWhile p = unifyNewlines (s.dropWhile p) := by
  fun_induction unifyNewlines s with
  | case1 => rfl
  | case2 rest ih => cases hn : p '\n' <;> simp [hp, hn, ih, unifyNewlines]
  | case3 c rest hne ih =>
    by_cases hc : c = '\r'
    · cases hn : p '\n' with
      | true => simp [hc, hp, hn, ih]
      | false =>
        simp only [hc, if_true, List.dropWhile_cons, hp, hn, Bool.false_eq_true, if_false]
        rw [unifyNewlines, if_pos rfl]
        exact fun rest _ => hne rest hc
    · cases hpc : p c <;> simp [hc, hpc, ih, unifyNewlines_cons hc]

theorem takeWhile_unifyNewlines {p : Char → Bool} (hr : p '\r' = false) (hn : p '\n' = false)
    (s : List Char) : (unifyNewlines s).takeWhile p = s.takeWhile p := by
  fun_induction unifyNewlines s with
  | case1 => rfl
  | case2 rest ih => simp [hr, hn]
  | case3 c rest hne ih => by_cases hc : c = '\r' <;> simp [hc, hr, hn, ih, List.takeWhile_cons]

end Text

namespace Json

open Text (unifyNewlines unifyNewlines_cons)

/-! ## Parts of values -/

theorem skipSpace_unifyNewlines (s : List Char) :
    skipSpace (unifyNewlines s) = unifyNewlines (skipSpace s) :=
  Text.dropWhile_unifyNewlines rfl s

/-- What is read next, with the line ends after it unified. -/
def leveled {α : Type} (found : α × List Char) : α × List Char :=
  (found.1, unifyNewlines found.2)

/-- No character but the two of line ends is changed. -/
theorem head?_unifyNewlines_iff {c : Char} (hn : c ≠ '\n') (hr : c ≠ '\r') (s : List Char) :
    (unifyNewlines s).head? = some c ↔ s.head? = some c := by
  cases s with
  | nil => rfl
  | cons d t =>
    by_cases hd : d = '\r'
    · obtain ⟨u, hu⟩ := Text.unifyNewlines_return t
      rw [hd, hu]
      simp [Ne.symm hn, Ne.symm hr]
    · rw [unifyNewlines_cons hd]
      rfl

theorem tail_unifyNewlines {c : Char} (hr : c ≠ '\r') {s : List Char} (h : s.head? = some c) :
    (unifyNewlines s).tail = unifyNewlines s.tail := by
  obtain ⟨t, rfl⟩ := List.head?_eq_some_iff.mp h
  rw [unifyNewlines_cons hr]
  rfl

/-- A reader that takes what it reads from characters without line ends, and only looks whether
anything comes after them. -/
def LineFree {α : Type} (scan : List Char → Option (α × List Char)) : Prop :=
  ∀ {s rest : List Char} {x : α}, scan s = some (x, rest) → ∃ q, '\r' ∉ q ∧ '\n' ∉ q ∧
    s = q ++ rest ∧ ∀ r, (r = [] ↔ rest = []) → scan (q ++ r) = some (x, r)

/-- Such a reader finds the same whether line ends are unified or not. -/
theorem LineFree.leveled {α : Type} {scan : List Char → Option (α × List Char)}
    (h : LineFree scan) (s : List Char) : scan (unifyNewlines s) = (scan s).map Json.leveled := by
  cases hs : scan s with
  | some found =>
    obtain ⟨x, rest⟩ := found
    obtain ⟨q, hr, _, rfl, hagain⟩ := h hs
    rw [Text.unifyNewlines_append hr]
    exact hagain _ Text.unifyNewlines_eq_nil
  | none =>
    cases hu : scan (unifyNewlines s) with
    | none => rfl
    | some found =>
      -- what is found in the unified text would have been found before
      obtain ⟨x, rest⟩ := found
      obtain ⟨q, _, hn, hsplit, hagain⟩ := h hu
      obtain ⟨t, rfl, rfl⟩ := Text.exists_of_unifyNewlines hn hsplit
      rw [hagain t Text.unifyNewlines_eq_nil.symm] at hs
      cases hs

theorem ne_lineEnd_of_hexValue? {c : Char} (h : (hexValue? c).isSome) : '\r' ≠ c ∧ '\n' ≠ c := by
  constructor
  · rintro rfl
    exact absurd h (by decide)
  · rintro rfl
    exact absurd h (by decide)

theorem lineFree_hex4? {a b c d : Char} {n : Nat} (h : hex4? a b c d = some n) :
    '\r' ∉ [a, b, c, d] ∧ '\n' ∉ [a, b, c, d] := by
  unfold hex4? at h
  obtain ⟨_, ha, h⟩ := Option.bind_eq_some_iff.mp h
  obtain ⟨_, hb, h⟩ := Option.bind_eq_some_iff.mp h
  obtain ⟨_, hc, h⟩ := Option.bind_eq_some_iff.mp h
  obtain ⟨_, hd, _⟩ := Option.bind_eq_some_iff.mp h
  have ha' := ne_lineEnd_of_hexValue? (Option.isSome_of_eq_some ha)
  have hb' := ne_lineEnd_of_hexValue? (Option.isSome_of_eq_some hb)
  have hc' := ne_lineEnd_of_hexValue? (Option.isSome_of_eq_some hc)
  have hd' := ne_lineEnd_of_hexValue? (Option.isSome_of_eq_some hd)
  simp [ha', hb', hc', hd']

theorem lineFree_quad? : LineFree quad? := by
  intro s rest n h
  unfold quad? at h
  split at h
  · next a b c d next t =>
    obtain ⟨m, hm, heq⟩ := Option.map_eq_some_iff.mp h
    cases heq
    obtain ⟨hr, hn⟩ := lineFree_hex4? hm
    refine ⟨[a, b, c, d], hr, hn, rfl, fun r hnil => ?_⟩
    obtain ⟨next', t', rfl⟩ := List.exists_cons_of_ne_nil fun h => List.cons_ne_nil _ _ (hnil.mp h)
    show (hex4? a b c d).map _ = _
    rw [hm]
    rfl
  · cases h

theorem lineFree_lowEscape? : LineFree lowEscape? := by
  intro s rest n h
  unfold lowEscape? at h
  split at h
  · next x y t =>
    split at h
    · next hxy =>
      obtain ⟨hquad, hlow⟩ := Option.filter_eq_some_iff.mp h
      obtain ⟨q, hr, hn, rfl, hagain⟩ := lineFree_quad? hquad
      obtain ⟨rfl, rfl⟩ := hxy
      refine ⟨Char.ofNat 92 :: 'u' :: q, ?_, ?_, rfl, fun r hnil => ?_⟩
      · simp [hr]
      · simp [hn]
      · rw [List.cons_append, List.cons_append, lowEscape?, if_pos ⟨rfl, rfl⟩, hagain r hnil]
        exact Option.filter_eq_some_iff.mpr ⟨rfl, hlow⟩
    · cases h
  · cases h

theorem hexEscape?_unifyNewlines (s : List Char) :
    hexEscape? (unifyNewlines s) = (hexEscape? s).map leveled := by
  have hquad := lineFree_quad?.leveled s
  cases hs : quad? s with
  | none =>
    rw [hs] at hquad
    rw [hexEscape?, hexEscape?, hquad, hs]
    rfl
  | some found =>
    obtain ⟨n, t⟩ := found
    rw [hs] at hquad
    rw [hexEscape?_eq hquad, hexEscape?_eq hs, lineFree_lowEscape?.leveled]
    split
    · cases lowEscape? t <;> rfl
    · rfl

theorem scanConstant?_word {word : List Char} {value : Json} (h : (word, value) ∈ constants)
    (r : List Char) : scanConstant? (word ++ r) = some (value, r) := by
  simp only [constants, List.mem_cons, Prod.mk.injEq, List.not_mem_nil, or_false] at h
  rcases h with ⟨rfl, rfl⟩ | ⟨rfl, rfl⟩ | ⟨rfl, rfl⟩ | ⟨rfl, rfl⟩ | ⟨rfl, rfl⟩ | ⟨rfl, rfl⟩ <;> rfl

theorem lineFree_scanConstant? : LineFree scanConstant? := by
  intro s rest x h
  obtain ⟨⟨word, value⟩, hmem, hword⟩ := List.exists_of_findSome?_eq_some h
  dsimp only at hword
  split at hword
  · next hprefix =>
    obtain ⟨rfl, rfl⟩ := Prod.mk.inj (Option.some.inj hword)
    obtain ⟨t, rfl⟩ := List.isPrefixOf_iff_prefix.mp hprefix
    have hfree : ∀ word ∈ constants.map (·.1), '\r' ∉ word ∧ '\n' ∉ word := by decide
    obtain ⟨hr, hn⟩ := hfree word (List.mem_map.mpr ⟨_, hmem, rfl⟩)
    exact ⟨word, hr, hn, by rw [List.drop_left], fun r _ => scanConstant?_word hmem r⟩
  · cases hword

/-! ## Numbers -/

theorem numberSign_of_ne {s : List Char} (h : s.head? ≠ some '-') : numberSign s = (false, s) := by
  unfold numberSign
  split
  · exact absurd rfl h
  · rfl

theorem numberSign_unifyNewlines (s : List Char) :
    numberSign (unifyNewlines s) = leveled (numberSign s) := by
  by_cases h : s.head? = some '-'
  · obtain ⟨t, rfl⟩ := List.head?_eq_some_iff.mp h
    rw [unifyNewlines_cons (by decide)]
    rfl
  · have hunified : (unifyNewlines s).head? ≠ some '-' :=
      mt (head?_unifyNewlines_iff (by decide) (by decide) s).mp h
    rw [numberSign_of_ne h, numberSign_of_ne hunified]
    rfl

theorem isDigit_lineEnd : isDigit '\r' = false ∧ isDigit '\n' = false := by decide

theorem takeDigits_unifyNewlines (s : List Char) :
    (unifyNewlines s).takeWhile isDigit = s.takeWhile isDigit :=
  Text.takeWhile_unifyNewlines isDigit_lineEnd.1 isDigit_lineEnd.2 s

theorem dropDigits_unifyNewlines (s : List Char) :
    (unifyNewlines s).dropWhile isDigit = unifyNewlines (s.dropWhile isDigit) :=
  Text.dropWhile_unifyNewlines rfl s

theorem ne_return_of_isDigit {c : Char} (h : isDigit c = true) : c ≠ '\r' := by
  rintro rfl
  exact absurd h (by decide)

theorem scanWhole_unifyNewlines (s : List Char) :
    scanWhole (unifyNewlines s) = (scanWhole s).map leveled := by
  cases s with
  | nil => rfl
  | cons c t =>
    by_cases hc : c = '\r'
    · obtain ⟨u, hu⟩ := Text.unifyNewlines_return t
      rw [hc, hu]
      rfl
    · rw [unifyNewlines_cons hc, scanWhole, scanWhole, takeDigits_unifyNewlines,
        dropDigits_unifyNewlines]
      split
      · rfl
      · split <;> rfl

theorem beginsFraction_unifyNewlines_iff (s : List Char) :
    BeginsFraction (unifyNewlines s) ↔ BeginsFraction s := by
  constructor
  · rintro ⟨d, t, heq, hd⟩
    have hn : '\n' ∉ ['.', d] := by
      rintro h
      simp at h
      rw [← h] at hd
      exact absurd hd (by decide)
    obtain ⟨u, rfl, _⟩ := Text.exists_of_unifyNewlines (q := ['.', d]) (r := t) hn heq
    exact ⟨d, u, rfl, hd⟩
  · rintro ⟨d, t, rfl, hd⟩
    refine ⟨d, unifyNewlines t, ?_, hd⟩
    rw [unifyNewlines_cons (by decide), unifyNewlines_cons (ne_return_of_isDigit hd)]

theorem scanFraction_unifyNewlines (s : List Char) :
    scanFraction (unifyNewlines s) = leveled (scanFraction s) := by
  by_cases h : BeginsFraction s
  · obtain ⟨d, t, rfl, hd⟩ := h
    rw [unifyNewlines_cons (by decide), unifyNewlines_cons (ne_return_of_isDigit hd), scanFraction,
      scanFraction, if_pos hd, if_pos hd, takeDigits_unifyNewlines, dropDigits_unifyNewlines]
    rfl
  · rw [scanFraction_of_not h,
      scanFraction_of_not (mt (beginsFraction_unifyNewlines_iff s).mp h)]
    rfl

theorem exponentSign_of_ne {s : List Char} (hminus : s.head? ≠ some '-')
    (hplus : s.head? ≠ some '+') : exponentSign s = (false, s) := by
  unfold exponentSign
  split
  · exact absurd rfl hminus
  · exact absurd rfl hplus
  · rfl

theorem exponentSign_unifyNewlines (s : List Char) :
    exponentSign (unifyNewlines s) = leveled (exponentSign s) := by
  by_cases hminus : s.head? = some '-'
  · obtain ⟨t, rfl⟩ := List.head?_eq_some_iff.mp hminus
    rw [unifyNewlines_cons (by decide)]
    rfl
  by_cases hplus : s.head? = some '+'
  · obtain ⟨t, rfl⟩ := List.head?_eq_some_iff.mp hplus
    rw [unifyNewlines_cons (by decide)]
    rfl
  · rw [exponentSign_of_ne hminus hplus, exponentSign_of_ne]
    · rfl
    · exact mt (head?_unifyNewlines_iff (by decide) (by decide) s).mp hminus
    · exact mt (head?_unifyNewlines_iff (by decide) (by decide) s).mp hplus

theorem exponentFrom_unifyNewlines (negative : Bool) (digits whole : List Char) :
    exponentFrom negative (unifyNewlines digits) (unifyNewlines whole) =
      leveled (exponentFrom negative digits whole) := by
  cases digits with
  | nil => rfl
  | cons d t =>
    by_cases hd : isDigit d = true
    · have htake := takeDigits_unifyNewlines (d :: t)
      have hdrop := dropDigits_unifyNewlines (d :: t)
      rw [unifyNewlines_cons (ne_return_of_isDigit hd)] at htake hdrop ⊢
      rw [exponentFrom, exponentFrom, if_pos hd, if_pos hd, htake, hdrop]
      rfl
    · rw [exponentFrom_of_not, exponentFrom_of_not]
      · rfl
      · intro c u h
        rw [← (List.cons.inj h).1]
        exact Bool.eq_false_of_not_eq_true hd
      · intro c u h
        by_cases hr : d = '\r'
        · obtain ⟨v, hv⟩ := Text.unifyNewlines_return t
          rw [hr, hv] at h
          rw [← (List.cons.inj h).1]
          rfl
        · rw [unifyNewlines_cons hr] at h
          rw [← (List.cons.inj h).1]
          exact Bool.eq_false_of_not_eq_true hd

theorem scanExponent_unifyNewlines (s : List Char) :
    scanExponent (unifyNewlines s) = leveled (scanExponent s) := by
  cases s with
  | nil => rfl
  | cons e t =>
    by_cases he : e = 'e' ∨ e = 'E'
    · have hr : e ≠ '\r' := by
        rintro rfl
        exact absurd he (by decide)
      have hfrom := exponentFrom_unifyNewlines (exponentSign t).1 (exponentSign t).2 (e :: t)
      rw [unifyNewlines_cons hr] at hfrom ⊢
      rw [scanExponent_letter he, scanExponent_letter he, exponentSign_unifyNewlines, ← hfrom]
      rfl
    · have hnone : ∀ u, scanExponent (e :: u) = (none, e :: u) := fun u => if_neg he
      by_cases hr : e = '\r'
      · obtain ⟨u, hu⟩ := Text.unifyNewlines_return t
        rw [hnone, leveled, hr, hu]
        rfl
      · rw [hnone, leveled, unifyNewlines_cons hr, hnone]

/-! ## Two readings -/

/-- Two readings of which the second is that of a text with its line ends unified: the same is read,
with the line ends after it unified, or faults of the same kind are met, wherever that may be. -/
inductive SameReading {α : Type} :
    Except Fault (α × List Char) → Except Fault (α × List Char) → Prop
  | ok (found : α × List Char) : SameReading (.ok found) (.ok (leveled found))
  | malformed (reason : Reason) (m n : Nat) :
    SameReading (.error (.malformed reason m)) (.error (.malformed reason n))
  | hugeInteger : SameReading (.error .hugeInteger) (.error .hugeInteger)

namespace SameReading

variable {α β : Type} {x y : Except Fault (α × List Char)}

theorem fault (reason : Reason) (s t : List Char) :
    SameReading (Json.fault reason s : Except Fault (α × List Char)) (Json.fault reason t) :=
  .malformed reason s.length t.length

theorem bind {f g : α × List Char → Except Fault (β × List Char)} (h : SameReading x y)
    (hnext : ∀ found, SameReading (f found) (g (leveled found))) :
    SameReading (x >>= f) (y >>= g) := by
  cases h with
  | ok found => exact hnext found
  | malformed reason m n => exact .malformed reason m n
  | hugeInteger => exact .hugeInteger

end SameReading

theorem sameReading_scanNumber (s : List Char) :
    SameReading (scanNumber s) (scanNumber (unifyNewlines s)) := by
  rw [scanNumber_eq, scanNumber_eq, numberSign_unifyNewlines]
  dsimp only [leveled]
  rw [scanWhole_unifyNewlines]
  cases scanWhole (numberSign s).2 with
  | none => exact .fault _ _ _
  | some found =>
    obtain ⟨whole, after⟩ := found
    dsimp only [Option.map, leveled]
    rw [scanFraction_unifyNewlines]
    dsimp only [leveled]
    rw [scanExponent_unifyNewlines]
    cases hof : numberOf (numberSign s).1 whole (scanFraction after).1
        (scanExponent (scanFraction after).2).1 with
    | ok x =>
      dsimp only [leveled]
      rw [hof]
      exact .ok _
    | error e =>
      obtain ⟨rfl, _⟩ := numberOf_eq_error hof
      dsimp only [leveled]
      rw [hof]
      exact .hugeInteger

/-! ## Strings -/

theorem scanString_quote (whole : List Char) (read : List Nat) (t : List Char) :
    scanString whole read (Text.doubleQuote :: t) = .ok (Str.ofPoints read.reverse, t) := by
  rw [scanString.eq_def]
  exact if_pos rfl

theorem scanString_control (whole : List Char) (read : List Nat) {c : Char} (t : List Char)
    (hquote : c ≠ Text.doubleQuote) (hbackslash : c ≠ Text.backslash) (hc : c.toNat < 0x20) :
    scanString whole read (c :: t) = fault .controlCharacter (c :: t) := by
  rw [scanString.eq_def]
  exact (if_neg hquote).trans ((if_neg hbackslash).trans (if_pos hc))

theorem scanString_noEscape (whole : List Char) (read : List Nat) {e : Char} (t : List Char)
    (he : e ≠ 'u') (hx : simpleEscape? e = none) :
    scanString whole read (Text.backslash :: e :: t) =
      fault .invalidEscape (Text.backslash :: e :: t) := by
  have hquote : Text.backslash ≠ Char.ofNat 34 := by decide
  have hbackslash : Text.backslash = Char.ofNat 92 := rfl
  rw [scanString, if_neg hquote, if_pos hbackslash, if_neg he, hx]

theorem scanString_noNumber (whole : List Char) (read : List Nat) {after : List Char}
    (h : hexEscape? after = none) :
    scanString whole read (Text.backslash :: 'u' :: after) =
      fault .invalidHexEscape ('u' :: after) := by
  have hquote : Text.backslash ≠ Char.ofNat 34 := by decide
  have hbackslash : Text.backslash = Char.ofNat 92 := rfl
  rw [scanString, if_neg hquote, if_pos hbackslash, if_pos rfl]
  split
  · rfl
  · next hsome =>
    rw [h] at hsome
    cases hsome

/-- An escape takes one character at least. -/
theorem scanString_backslash (whole : List Char) (read : List Nat) :
    scanString whole read [Text.backslash] = fault .unterminatedString whole := by
  rw [scanString.eq_def]
  rfl

theorem sameReading_scanString (whole whole' s : List Char) (read : List Nat) :
    SameReading (scanString whole read s) (scanString whole' read (unifyNewlines s)) := by
  have hbackslash : Char.ofNat 92 = Text.backslash := rfl
  fun_induction scanString whole read s with
  | case1 =>
    rw [unifyNewlines, scanString]
    exact .fault _ _ _
  | case2 read after =>
    rw [unifyNewlines_cons (by decide)]
    exact scanString_quote whole' read (unifyNewlines after) ▸ .ok (_, after)
  | case3 =>
    rw [unifyNewlines_cons (by decide), unifyNewlines]
    exact scanString_backslash whole' _ ▸ .fault _ _ _
  | case4 read after hnone =>
    have hunified : hexEscape? (unifyNewlines after) = none := by
      rw [hexEscape?_unifyNewlines, hnone]
      rfl
    rw [unifyNewlines_cons (by decide), unifyNewlines_cons (by decide), hbackslash,
      scanString_noNumber whole' read hunified]
    exact .fault _ _ _
  | case5 read after n more hhex _ _ ih =>
    have hunified : hexEscape? (unifyNewlines after) = some (n, unifyNewlines more) := by
      rw [hexEscape?_unifyNewlines, hhex]
      rfl
    rw [unifyNewlines_cons (by decide), unifyNewlines_cons (by decide)]
    exact scanString_number whole' read hunified ▸ ih
  | case6 read e after he x hx _ ih =>
    have hr : e ≠ '\r' := by
      rintro rfl
      cases hx
    rw [unifyNewlines_cons (by decide), unifyNewlines_cons hr]
    exact scanString_escape whole' read _ he hx ▸ ih
  | case7 read e after he hx =>
    rw [unifyNewlines_cons (by decide), hbackslash]
    by_cases hr : e = '\r'
    · -- neither line end can be escaped
      obtain ⟨u, hu⟩ := Text.unifyNewlines_return after
      rw [hr, hu, scanString_noEscape whole' read u (by decide) (by decide)]
      exact .fault _ _ _
    · rw [unifyNewlines_cons hr, scanString_noEscape whole' read _ he hx]
      exact .fault _ _ _
  | case8 read c after hquote hbackslash hcontrol =>
    by_cases hr : c = '\r'
    · -- both line ends are control characters
      obtain ⟨u, hu⟩ := Text.unifyNewlines_return after
      rw [hr, hu, scanString_control whole' read u (by decide) (by decide) (by decide)]
      exact .fault _ _ _
    · rw [unifyNewlines_cons hr, scanString_control whole' read _ hquote hbackslash hcontrol]
      exact .fault _ _ _
  | case9 read c after hquote hbackslash hcontrol ih =>
    have hr : c ≠ '\r' := by
      rintro rfl
      exact hcontrol (by decide)
    rw [unifyNewlines_cons hr]
    exact scanString_plain whole' read _ hquote hbackslash hcontrol ▸ ih

/-! ## What comes next -/

/-- Looks whether the character `c` comes next. -/
def ifNext {β : Type} (c : Char) (yes no : List Char → β) (s : List Char) : β :=
  if s.head? = some c then yes s.tail else no s

theorem ifNext_cons {β : Type} (c : Char) (yes no : List Char → β) (t : List Char) :
    ifNext c yes no (c :: t) = yes t :=
  if_pos rfl

theorem ifNext_of_ne {β : Type} {c : Char} {yes no : List Char → β} {s : List Char}
    (h : ∀ t, s = c :: t → False) : ifNext c yes no s = no s := by
  refine if_neg fun hs => ?_
  obtain ⟨t, ht⟩ := List.head?_eq_some_iff.mp hs
  exact h t ht

theorem SameReading.ifNext {α : Type} {c : Char}
    {yes yes' no no' : List Char → Except Fault (α × List Char)} (hn : c ≠ '\n') (hr : c ≠ '\r')
    (hyes : ∀ t, SameReading (yes t) (yes' (unifyNewlines t)))
    (hno : ∀ t, SameReading (no t) (no' (unifyNewlines t))) (s : List Char) :
    SameReading (Json.ifNext c yes no s) (Json.ifNext c yes' no' (unifyNewlines s)) := by
  have hhead := head?_unifyNewlines_iff hn hr s
  unfold Json.ifNext
  simp only [hhead]
  split
  · next h =>
    rw [tail_unifyNewlines hr h]
    exact hyes _
  · exact hno s

/-- What comes after an opening bracket: the closing one, or what is inside. -/
def inside (closing : Char) (empty : Json) (more : List Char → Except Fault (Json × List Char))
    (s : List Char) : Except Fault (Json × List Char) :=
  ifNext closing (fun rest => .ok (empty, rest)) more (skipSpace s)

/-- What comes after a part of an array or an object: its end, a comma and more, or a fault. -/
def afterPart (closing : Char) (close more : List Char → Except Fault (Json × List Char))
    (s : List Char) : Except Fault (Json × List Char) :=
  ifNext closing close (ifNext ',' (fun rest => more (skipSpace rest)) (fault .expectingComma))
    (skipSpace s)

/-- What comes after the name of a member: a colon and the rest of the member, or a fault. -/
def afterName (member : List Char → Except Fault (Json × List Char)) (s : List Char) :
    Except Fault (Json × List Char) :=
  ifNext ':' (fun rest => member (skipSpace rest)) (fault .expectingColon) (skipSpace s)

namespace SameReading

variable {closing : Char} {close close' more more' : List Char → Except Fault (Json × List Char)}

theorem inside (hn : closing ≠ '\n') (hr : closing ≠ '\r') (empty : Json)
    (hmore : ∀ t, SameReading (more t) (more' (unifyNewlines t))) (s : List Char) :
    SameReading (Json.inside closing empty more s)
      (Json.inside closing empty more' (unifyNewlines s)) := by
  unfold Json.inside
  rw [skipSpace_unifyNewlines]
  exact .ifNext hn hr (fun t => .ok (empty, t)) hmore _

theorem afterPart (hn : closing ≠ '\n') (hr : closing ≠ '\r')
    (hclose : ∀ t, SameReading (close t) (close' (unifyNewlines t)))
    (hmore : ∀ t, SameReading (more t) (more' (unifyNewlines t))) (s : List Char) :
    SameReading (Json.afterPart closing close more s)
      (Json.afterPart closing close' more' (unifyNewlines s)) := by
  have hcomma (t : List Char) :
      SameReading (more (skipSpace t)) (more' (skipSpace (unifyNewlines t))) := by
    rw [skipSpace_unifyNewlines]
    exact hmore _
  unfold Json.afterPart
  rw [skipSpace_unifyNewlines]
  refine .ifNext hn hr hclose (fun t => ?_) _
  exact .ifNext (by decide) (by decide) hcomma (fun u => .fault _ u _) t

theorem afterName {member member' : List Char → Except Fault (Json × List Char)}
    (h : ∀ t, SameReading (member t) (member' (unifyNewlines t))) (s : List Char) :
    SameReading (Json.afterName member s) (Json.afterName member' (unifyNewlines s)) := by
  have hcolon (t : List Char) :
      SameReading (member (skipSpace t)) (member' (skipSpace (unifyNewlines t))) := by
    rw [skipSpace_unifyNewlines]
    exact h _
  unfold Json.afterName
  rw [skipSpace_unifyNewlines]
  exact .ifNext (by decide) (by decide) hcolon (fun t => .fault _ t _) _

end SameReading

/-! ## Values -/

theorem afterPart_close {closing : Char} {close more : List Char → Except Fault (Json × List Char)}
    {s t : List Char} (h : skipSpace s = closing :: t) :
    afterPart closing close more s = close t := by
  rw [afterPart, h, ifNext_cons]

theorem afterPart_more {closing : Char} {close more : List Char → Except Fault (Json × List Char)}
    {s t : List Char} (hne : ',' ≠ closing) (h : skipSpace s = ',' :: t) :
    afterPart closing close more s = more (skipSpace t) := by
  have hother : ∀ u, ',' :: t = closing :: u → False := fun u heq => hne (List.cons.inj heq).1
  rw [afterPart, h, ifNext_of_ne hother, ifNext_cons]

theorem afterPart_fault {closing : Char} {close more : List Char → Except Fault (Json × List Char)}
    {s : List Char} (hclose : ∀ t, skipSpace s = closing :: t → False)
    (hmore : ∀ t, skipSpace s = ',' :: t → False) :
    afterPart closing close more s = fault .expectingComma (skipSpace s) := by
  rw [afterPart, ifNext_of_ne hclose, ifNext_of_ne hmore]

/-- Reading the items of an array is reading one and what comes after it. -/
theorem parseItems_succ (fuel : Nat) (read : List Json) (s : List Char) :
    parseItems (fuel + 1) read s = parseValue fuel s >>= fun found =>
      afterPart ']' (fun rest => .ok (.arr (found.1 :: read).reverse, rest))
        (parseItems fuel (found.1 :: read)) found.2 := by
  rw [parseItems.eq_def]
  refine bind_congr fun found => ?_
  dsimp only
  split
  · next hclose =>
    rw [afterPart_close hclose]
    rfl
  · next hcomma => rw [afterPart_more (by decide) hcomma]
  · next hclose hcomma => rw [afterPart_fault hclose hcomma]

/-- Reading the members of an object is reading a name, a value and what comes after them. -/
theorem parseMembers_succ (fuel : Nat) (read : Fields) (s : List Char) :
    parseMembers (fuel + 1) read (Text.doubleQuote :: s) =
      scanString (Text.doubleQuote :: s) [] s >>= fun name =>
        afterName (fun t => parseValue fuel t >>= fun found =>
          afterPart '\x7d' (fun rest => .ok (.obj (put name.1 found.1 read), rest))
            (parseMembers fuel (put name.1 found.1 read)) found.2) name.2 := by
  have hquote : Text.doubleQuote = Char.ofNat 34 := rfl
  rw [parseMembers.eq_def]
  dsimp only
  rw [if_pos hquote]
  refine bind_congr fun name => ?_
  split
  · next rest hcolon =>
    rw [afterName, hcolon, ifNext_cons]
    refine bind_congr fun found => ?_
    split
    · next hclose =>
      rw [afterPart_close hclose]
      rfl
    · next hcomma => rw [afterPart_more (by decide) hcomma]
    · next hclose hcomma => rw [afterPart_fault hclose hcomma]
  · next hcolon => rw [afterName, ifNext_of_ne hcolon]

theorem parseValue_bracket (fuel : Nat) (s : List Char) :
    parseValue (fuel + 1) ('[' :: s) = inside ']' (.arr []) (parseItems fuel []) s := by
  rw [parseValue.eq_def]
  dsimp only
  rw [if_neg (by decide), if_pos rfl, inside]
  split
  · next hclose => rw [hclose, ifNext_cons]
  · next hclose => rw [ifNext_of_ne hclose]

theorem parseValue_brace (fuel : Nat) (s : List Char) :
    parseValue (fuel + 1) ('\x7b' :: s) = inside '\x7d' (.obj []) (parseMembers fuel []) s := by
  rw [parseValue.eq_def]
  dsimp only
  rw [if_neg (by decide), if_neg (by decide), if_pos rfl, inside]
  split
  · next hclose => rw [hclose, ifNext_cons]
  · next hclose => rw [ifNext_of_ne hclose]

/-- Where no value, array or object begins, a constant or a number does. -/
theorem parseValue_plain {fuel : Nat} {c : Char} (t : List Char) (hquote : c ≠ Text.doubleQuote)
    (hbracket : c ≠ '[') (hbrace : c ≠ '\x7b') :
    parseValue (fuel + 1) (c :: t) =
      match scanConstant? (c :: t) with
      | some found => .ok found
      | none => scanNumber (c :: t) := by
  rw [parseValue.eq_def]
  exact (if_neg hquote).trans ((if_neg hbracket).trans (if_neg hbrace))

theorem parseValue_doubleQuote (fuel : Nat) (t : List Char) :
    parseValue (fuel + 1) (Text.doubleQuote :: t) =
      scanString (Text.doubleQuote :: t) [] t >>= fun found => .ok (.str found.1, found.2) := by
  have hquote : Text.doubleQuote = Char.ofNat 34 := rfl
  rw [parseValue.eq_def]
  dsimp only
  rw [if_pos hquote]
  rfl

theorem parseMembers_noName {fuel : Nat} {read : Fields} {s : List Char}
    (h : s.head? ≠ some Text.doubleQuote) :
    parseMembers (fuel + 1) read s = fault .expectingName s := by
  cases s with
  | nil => rfl
  | cons c t =>
    rw [parseMembers.eq_def]
    exact if_neg fun hc => h (congrArg some hc)

/-- No value begins with a line end. -/
theorem parseValue_lineEnd (fuel : Nat) {c : Char} (hc : c = '\r' ∨ c = '\n') (t : List Char) :
    parseValue (fuel + 1) (c :: t) = fault .expectingValue (c :: t) := by
  rcases hc with rfl | rfl <;> rfl

/-- With so much fuel, line ends make no difference to what is read. -/
structure BlindToLineEnds (fuel : Nat) : Prop where
  value (s : List Char) : SameReading (parseValue fuel s) (parseValue fuel (unifyNewlines s))
  items (read : List Json) (s : List Char) :
    SameReading (parseItems fuel read s) (parseItems fuel read (unifyNewlines s))
  members (read : Fields) (s : List Char) :
    SameReading (parseMembers fuel read s) (parseMembers fuel read (unifyNewlines s))

namespace BlindToLineEnds

variable {fuel : Nat} (h : BlindToLineEnds fuel)

include h

theorem value_succ (s : List Char) :
    SameReading (parseValue (fuel + 1) s) (parseValue (fuel + 1) (unifyNewlines s)) := by
  cases s with
  | nil => exact .fault _ _ _
  | cons c t =>
    by_cases hr : c = '\r'
    · obtain ⟨u, hu⟩ := Text.unifyNewlines_return t
      rw [hr, hu, parseValue_lineEnd fuel (.inl rfl), parseValue_lineEnd fuel (.inr rfl)]
      exact .fault _ _ _
    -- the first character is the same in both texts and decides what is read
    have hconstant := lineFree_scanConstant?.leveled (c :: t)
    have hnumber := sameReading_scanNumber (c :: t)
    rw [unifyNewlines_cons hr] at hconstant hnumber ⊢
    by_cases hquote : c = Text.doubleQuote
    · rw [hquote, parseValue_doubleQuote, parseValue_doubleQuote]
      exact (sameReading_scanString _ _ t []).bind fun found => .ok (Json.str found.1, found.2)
    by_cases hbracket : c = '['
    · rw [hbracket, parseValue_bracket, parseValue_bracket]
      exact .inside (by decide) (by decide) _ (h.items []) t
    by_cases hbrace : c = '\x7b'
    · rw [hbrace, parseValue_brace, parseValue_brace]
      exact .inside (by decide) (by decide) _ (h.members []) t
    rw [parseValue_plain t hquote hbracket hbrace, parseValue_plain _ hquote hbracket hbrace,
      hconstant]
    cases scanConstant? (c :: t) with
    | none => exact hnumber
    | some found => exact .ok found

theorem items_succ (read : List Json) (s : List Char) :
    SameReading (parseItems (fuel + 1) read s) (parseItems (fuel + 1) read (unifyNewlines s)) := by
  rw [parseItems_succ, parseItems_succ]
  refine (h.value s).bind fun found => ?_
  exact .afterPart (by decide) (by decide) (fun t => .ok (_, t)) (h.items _) found.2

theorem members_succ (read : Fields) (s : List Char) :
    SameReading (parseMembers (fuel + 1) read s)
      (parseMembers (fuel + 1) read (unifyNewlines s)) := by
  by_cases hquote : s.head? = some Text.doubleQuote
  · obtain ⟨t, rfl⟩ := List.head?_eq_some_iff.mp hquote
    rw [unifyNewlines_cons (by decide), parseMembers_succ, parseMembers_succ]
    refine (sameReading_scanString _ _ t []).bind fun name => ?_
    refine .afterName (fun u => (h.value u).bind fun found => ?_) name.2
    exact .afterPart (by decide) (by decide) (fun v => .ok (_, v)) (h.members _) found.2
  · have hunified := mt (head?_unifyNewlines_iff (by decide) (by decide) s).mp hquote
    rw [parseMembers_noName hquote, parseMembers_noName hunified]
    exact .fault _ _ _

end BlindToLineEnds

theorem blindToLineEnds (fuel : Nat) : BlindToLineEnds fuel := by
  induction fuel with
  | zero =>
    exact ⟨fun s => .fault _ s _, fun _ s => .fault _ s _, fun _ s => .fault _ s _⟩
  | succ fuel ih => exact ⟨ih.value_succ, ih.items_succ, ih.members_succ⟩

/-! ## Whole texts -/

/-- What comes after the value that a text is: nothing, or a fault. -/
def atEnd (found : Json × List Char) : Except Fault Json :=
  if skipSpace found.2 = [] then .ok found.1 else fault .extraData (skipSpace found.2)

theorem parseChars_of_noMark {s : List Char} (h : s.head? ≠ some '\uFEFF') {fuel : Nat}
    (hfuel : 2 * s.length + 2 ≤ fuel) :
    parseChars s = parseValue fuel (skipSpace s) >>= atEnd := by
  have hlength := length_skipSpace_le s
  rw [parseValue_fuel (by omega) hfuel, parseChars.eq_def]
  split
  · exact absurd rfl h
  · refine bind_congr fun found => ?_
    dsimp only [atEnd]
    split
    · next hnil =>
      rw [hnil]
      rfl
    · next hne => rw [if_neg hne]

/-- Two whole texts of which the second is the first with its line ends unified: the same value is
read, or faults of the same kind are met. -/
theorem sameReading_parseChars (s : List Char) :
    SameReading ((·, []) <$> parseChars s) ((·, []) <$> parseChars (unifyNewlines s)) := by
  by_cases hmark : s.head? = some '\uFEFF'
  · obtain ⟨t, rfl⟩ := List.head?_eq_some_iff.mp hmark
    rw [unifyNewlines_cons (by decide)]
    exact .fault _ _ _
  · have hunified := mt (head?_unifyNewlines_iff (by decide) (by decide) s).mp hmark
    have hlength := Text.length_unifyNewlines_le s
    -- unifying makes no text longer, so the fuel of the first reading is enough for both
    have hfuel : 2 * (unifyNewlines s).length + 2 ≤ 2 * s.length + 2 := by omega
    rw [parseChars_of_noMark hmark (Nat.le_refl _), parseChars_of_noMark hunified hfuel,
      skipSpace_unifyNewlines, map_bind, map_bind]
    refine ((blindToLineEnds _).value _).bind fun found => ?_
    dsimp only [atEnd, leveled]
    rw [skipSpace_unifyNewlines]
    simp only [Text.unifyNewlines_eq_nil]
    split
    · exact .ok (found.1, [])
    · exact .fault _ _ _

/-- What comes of two texts of which the second is the first with its line ends unified. -/
inductive SameParse : Except ParseError Json → Except ParseError Json → Prop
  | ok (x : Json) : SameParse (.ok x) (.ok x)
  | malformed (reason : Reason) (line column position line' column' position' : Nat) :
    SameParse (.error (.malformed reason line column position))
      (.error (.malformed reason line' column' position'))
  | hugeInteger : SameParse (.error .hugeInteger) (.error .hugeInteger)

/-- Unifying line ends changes nothing but the places of faults. -/
theorem sameParse_unifyNewlines (s : List Char) :
    SameParse (parse (String.ofList s)) (parse (String.ofList (unifyNewlines s))) := by
  have h := sameReading_parseChars s
  rw [parse, parse, String.toList_ofList, String.toList_ofList]
  generalize parseChars s = found at h
  generalize parseChars (unifyNewlines s) = found' at h
  cases found <;> cases found' <;> cases h
  · exact .malformed _ _ _ _ _ _ _
  · exact .hugeInteger
  · exact .ok _

variable {s : List Char}

/-- A text and the same with its line ends unified are read as the same value. -/
theorem parse_unifyNewlines_eq_ok_iff {x : Json} :
    parse (String.ofList (unifyNewlines s)) = .ok x ↔ parse (String.ofList s) = .ok x := by
  have hsame := sameParse_unifyNewlines s
  generalize parse (String.ofList s) = found at hsame
  generalize parse (String.ofList (unifyNewlines s)) = found' at hsame
  cases hsame <;> simp

theorem meetsOversized_unifyNewlines_iff : MeetsOversized (unifyNewlines s) ↔ MeetsOversized s := by
  have h := parse_eq_hugeInteger_iff (String.ofList s)
  have hunified := parse_eq_hugeInteger_iff (String.ofList (unifyNewlines s))
  rw [String.toList_ofList] at h hunified
  rw [← h, ← hunified]
  have hsame := sameParse_unifyNewlines s
  generalize parse (String.ofList s) = found at hsame
  generalize parse (String.ofList (unifyNewlines s)) = found' at hsame
  cases hsame <;> simp

end Json
end EventCodegen
