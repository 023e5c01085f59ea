import Mathlib.Data.List.TakeWhile
import EventCodegen.Json.Parser
import EventCodegen.Json.Printer
import EventCodegen.Proofs.ShortestDecimals

/-! Numbers as they are written and read. A whole number is read from its digits
(`scanNumber_int`), and a floating-point one from the layout of its shortest decimal
(`scanNumber_finite`): wherever the point is put and whether there is an exponent, the digits and
the place of the point give back the decimal, up to zeros at its end. -/
namespace EventCodegen.Json

/-! ## Digits -/

/-- Characters that are all digits. -/
def Digits (s : List Char) : Prop := ∀ c ∈ s, isDigit c = true

/-- Digits that start with no zero. -/
def Significant (s : List Char) : Prop := Digits s ∧ ∃ c rest, s = c :: rest ∧ c ≠ '0'

/-- The whole part of a number: a zero alone or digits that start with none. -/
def IsWhole (s : List Char) : Prop := s = ['0'] ∨ Significant s

/-- A text that does not go on with a digit. -/
def NoDigit (s : List Char) : Prop := ∀ c, s.head? = some c → isDigit c = false

theorem Digits.append {a b : List Char} (ha : Digits a) (hb : Digits b) : Digits (a ++ b) :=
  List.forall_mem_append.mpr ⟨ha, hb⟩

theorem digits_zeros (n : ℕ) : Digits (List.replicate n '0') := by
  intro c hc
  rw [List.eq_of_mem_replicate hc]
  rfl

theorem digits_toDigits (n : ℕ) : Digits (Nat.toDigits 10 n) := by
  intro c hc
  have h := Nat.isDigit_of_mem_toDigits (by decide) (by decide) hc
  simpa [Char.isDigit, isDigit, Char.le_def] using h

theorem takeWhile_digits {s rest : List Char} (hs : Digits s) (hrest : NoDigit rest) :
    (s ++ rest).takeWhile isDigit = s := by
  rw [List.takeWhile_append_of_pos hs]
  cases rest with
  | nil => rw [List.takeWhile_nil, List.append_nil]
  | cons c more =>
    rw [List.takeWhile_cons, hrest c rfl]
    exact List.append_nil s

theorem dropWhile_digits {s rest : List Char} (hs : Digits s) (hrest : NoDigit rest) :
    (s ++ rest).dropWhile isDigit = rest := by
  rw [List.dropWhile_append_of_pos hs]
  cases rest with
  | nil => rfl
  | cons c more =>
    rw [List.dropWhile_cons, hrest c rfl]
    rfl

theorem digitsValue_eq (s : List Char) : digitsValue s = Nat.ofDigitChars 10 s 0 := by
  unfold digitsValue Nat.ofDigitChars
  congr 1
  funext n c
  rw [Nat.mul_comm]
  rfl

theorem digitsValue_toDigits (n : ℕ) : digitsValue (Nat.toDigits 10 n) = n := by
  rw [digitsValue_eq, Nat.ofDigitChars_toDigits (by decide) (by decide)]

theorem foldl_digits (s : List Char) (n : ℕ) :
    s.foldl (fun n c => n * 10 + (c.toNat - 48)) n = n * 10 ^ s.length + digitsValue s := by
  induction s generalizing n with
  | nil => simp [digitsValue]
  | cons c rest ih =>
    rw [digitsValue, List.foldl_cons, List.foldl_cons, ih, ih, List.length_cons, Nat.pow_succ]
    ring

theorem digitsValue_append (a b : List Char) :
    digitsValue (a ++ b) = digitsValue a * 10 ^ b.length + digitsValue b := by
  rw [digitsValue, List.foldl_append, foldl_digits b]
  rfl

@[simp] theorem digitsValue_zeros (n : ℕ) : digitsValue (List.replicate n '0') = 0 := by
  induction n with
  | zero => rfl
  | succ n ih =>
    rw [List.replicate_succ, ← List.singleton_append, digitsValue_append, ih]
    exact Nat.zero_mul _

/-- The first digit of a positive number is no zero. -/
theorem toDigits_eq_cons {n : ℕ} (hn : 0 < n) :
    ∃ c rest, Nat.toDigits 10 n = c :: rest ∧ c ≠ '0' := by
  induction n using Nat.strongRecOn with
  | ind n ih =>
    rcases Nat.lt_or_ge n 10 with hsmall | hlarge
    · have hfirst : ∀ n < 10, 0 < n → n.digitChar ≠ '0' := by decide
      exact ⟨_, [], Nat.toDigits_of_lt_base hsmall, hfirst n hsmall hn⟩
    · obtain ⟨c, rest, heq, hc⟩ := ih (n / 10) (Nat.div_lt_self hn (by decide))
        (Nat.div_pos hlarge (by decide))
      rw [Nat.toDigits_of_base_le (by decide) hlarge, heq]
      exact ⟨c, _, rfl, hc⟩

theorem significant_toDigits {n : ℕ} (hn : 0 < n) : Significant (Nat.toDigits 10 n) :=
  ⟨digits_toDigits n, toDigits_eq_cons hn⟩

theorem isWhole_toDigits (n : ℕ) : IsWhole (Nat.toDigits 10 n) := by
  rcases Nat.eq_zero_or_pos n with rfl | hn
  · exact Or.inl rfl
  · exact Or.inr (significant_toDigits hn)

theorem Significant.ne_nil {s : List Char} (h : Significant s) : s ≠ [] := by
  obtain ⟨_, c, rest, rfl, _⟩ := h
  exact List.cons_ne_nil c rest

theorem Significant.append {s more : List Char} (h : Significant s) (hmore : Digits more) :
    Significant (s ++ more) := by
  obtain ⟨hdigits, c, rest, rfl, hc⟩ := h
  exact ⟨hdigits.append hmore, c, rest ++ more, rfl, hc⟩

/-- The first of the digits, at least one, are significant if all are. -/
theorem Significant.take {s : List Char} (h : Significant s) {n : ℕ} (hn : 0 < n) :
    Significant (s.take n) := by
  obtain ⟨hdigits, c, rest, rfl, hc⟩ := h
  refine ⟨fun x hx => hdigits x (List.mem_of_mem_take hx), c, rest.take (n - 1), ?_, hc⟩
  obtain ⟨m, rfl⟩ := Nat.exists_eq_succ_of_ne_zero hn.ne'
  rfl

/-! ## Parts of a number -/

/-- What may follow a value in a written file: nothing, a comma or the end of the line. -/
def Ends (s : List Char) : Prop := ∀ c, s.head? = some c → c = ',' ∨ c = '\n'

theorem ends_nil : Ends [] := by
  intro c h
  cases h

theorem ends_cons {c : Char} (h : c = ',' ∨ c = '\n') (rest : List Char) : Ends (c :: rest) := by
  intro d hd
  cases hd
  exact h

theorem Ends.noDigit {s : List Char} (h : Ends s) : NoDigit s := by
  intro c hc
  rcases h c hc with rfl | rfl <;> rfl

/-- The digits after the point, with it. -/
def fractionText : List Char → List Char
  | [] => []
  | d :: rest => '.' :: d :: rest

/-- An exponent: whether it is negative, and its digits. -/
def exponentText : Option (Bool × List Char) → List Char
  | none => []
  | some (negative, digits) => 'e' :: (if negative then '-' else '+') :: digits

theorem digits_noExponent : ∀ e ∈ (none : Option (Bool × List Char)), Digits e.2 ∧ e.2 ≠ [] := by
  intro e h
  cases h

/-- The number that an exponent stands for. -/
def exponentValue : Option (Bool × List Char) → ℤ
  | none => 0
  | some (negative, digits) =>
    if negative then -(digitsValue digits : ℤ) else (digitsValue digits : ℤ)

theorem fractionText_of_ne_nil {s : List Char} (h : s ≠ []) : fractionText s = '.' :: s := by
  obtain ⟨d, rest, rfl⟩ := List.exists_cons_of_ne_nil h
  rfl

theorem scanWhole_eq {s rest : List Char} (hs : IsWhole s) (hrest : NoDigit rest) :
    scanWhole (s ++ rest) = some (s, rest) := by
  obtain rfl | ⟨hdigits, c, more, rfl, hc⟩ := hs
  · rfl
  · have hmore : Digits more := fun d hd => hdigits d (List.mem_cons_of_mem c hd)
    rw [List.cons_append, scanWhole, if_neg hc, if_pos (hdigits c List.mem_cons_self),
      takeWhile_digits hmore hrest, dropWhile_digits hmore hrest]

theorem scanFraction_eq {s rest : List Char} (hs : Digits s) (hrest : NoDigit rest)
    (hpoint : rest.head? ≠ some '.') : scanFraction (fractionText s ++ rest) = (s, rest) := by
  cases s with
  | nil =>
    rw [fractionText, List.nil_append, scanFraction]
    rintro d more rfl
    exact absurd rfl hpoint
  | cons d more =>
    have hmore : Digits more := fun c hc => hs c (List.mem_cons_of_mem d hc)
    rw [fractionText, List.cons_append, List.cons_append, scanFraction,
      if_pos (hs d List.mem_cons_self), takeWhile_digits hmore hrest, dropWhile_digits hmore hrest]

theorem scanExponent_none {rest : List Char} (hrest : Ends rest) :
    scanExponent rest = (none, rest) := by
  cases rest with
  | nil => rfl
  | cons c more =>
    rcases hrest c rfl with rfl | rfl <;> rfl

theorem scanExponent_some {negative : Bool} {s rest : List Char} (hs : Digits s) (hne : s ≠ [])
    (hrest : Ends rest) : scanExponent (exponentText (some (negative, s)) ++ rest) =
      (some (exponentValue (some (negative, s))), rest) := by
  obtain ⟨d, more, rfl⟩ := List.exists_cons_of_ne_nil hne
  have hscan : scanExponent (exponentText (some (negative, d :: more)) ++ rest) =
      if isDigit d = true then
        (some (exponentValue (some (negative, ((d :: more) ++ rest).takeWhile isDigit))),
          ((d :: more) ++ rest).dropWhile isDigit)
      else (none, exponentText (some (negative, d :: more)) ++ rest) := by
    cases negative <;> rfl
  rw [hscan, if_pos (hs d List.mem_cons_self), takeWhile_digits hs hrest.noDigit,
    dropWhile_digits hs hrest.noDigit]

/-! ## Whole numbers -/

/-- The sign of a number that may be negative. -/
def signText (negative : Bool) : List Char := if negative then ['-'] else []

/-- A number with its sign, from what comes after the sign. -/
theorem scanNumber_signed (negative : Bool) {s whole rest : List Char} (hs : IsWhole whole)
    (hrest : NoDigit rest) (hsplit : s = whole ++ rest) : scanNumber (signText negative ++ s) =
      if (scanFraction rest).1.isEmpty ∧ (scanExponent (scanFraction rest).2).1.isNone then
        if whole.length > maxIntegerDigits then .error .hugeInteger
        else .ok (.int (if negative then -(digitsValue whole : ℤ) else (digitsValue whole : ℤ)),
          (scanExponent (scanFraction rest).2).2)
      else
        .ok (.float (.ofDecimal negative (digitsValue (whole ++ (scanFraction rest).1))
          ((scanExponent (scanFraction rest).2).1.getD 0 - (scanFraction rest).1.length)),
          (scanExponent (scanFraction rest).2).2) := by
  have hwhole := scanWhole_eq hs hrest
  rw [hsplit]
  cases negative with
  | true =>
    show scanNumber ('-' :: (whole ++ rest)) = _
    unfold scanNumber
    split
    next negative unsigned heq =>
      split at heq
      · next hminus =>
        cases heq
        cases hminus
        rw [hwhole]
      · next hother => exact absurd rfl (hother _)
  | false =>
    obtain ⟨c, more, rfl, hc⟩ : ∃ c more, whole = c :: more ∧ isDigit c = true := by
      obtain rfl | ⟨hdigits, c, more, rfl, _⟩ := hs
      · exact ⟨_, _, rfl, rfl⟩
      · exact ⟨c, more, rfl, hdigits c List.mem_cons_self⟩
    have hsign : c ≠ '-' := by
      rintro rfl
      cases hc
    show scanNumber (c :: more ++ rest) = _
    unfold scanNumber
    split
    next negative unsigned heq =>
      split at heq
      · next hminus => exact absurd (List.cons.inj hminus).1 hsign
      · cases heq
        rw [hwhole]

theorem toList_toString_int (n : ℤ) :
    (toString n).toList = signText (decide (n < 0)) ++ Nat.toDigits 10 n.natAbs := by
  cases n with
  | ofNat n => exact Nat.toList_repr
  | negSucc n =>
    show ("-" ++ Nat.repr (n + 1)).toList = _
    rw [String.toList_append, Nat.toList_repr, decide_eq_true (Int.negSucc_lt_zero n),
      Int.natAbs_negSucc]
    rfl

/-- A whole number is read from its digits, if they are not too many. -/
theorem scanNumber_int {n : ℤ} {rest : List Char}
    (hlength : ¬maxIntegerDigits < (Nat.toDigits 10 n.natAbs).length) (hrest : Ends rest) :
    scanNumber ((toString n).toList ++ rest) = .ok (.int n, rest) := by
  have hfraction : scanFraction rest = ([], rest) := by
    cases rest with
    | nil => rfl
    | cons c more => rcases hrest c rfl with rfl | rfl <;> rfl
  rw [toList_toString_int, List.append_assoc,
    scanNumber_signed _ (isWhole_toDigits _) hrest.noDigit rfl, hfraction]
  dsimp only
  rw [scanExponent_none hrest, if_pos ⟨rfl, rfl⟩, if_neg hlength, digitsValue_toDigits]
  congr 3
  split
  · next h =>
    have := of_decide_eq_true h
    omega
  · next h =>
    have := of_decide_eq_false (Bool.eq_false_of_not_eq_true h)
    omega

/-! ## Floating-point numbers -/

/-- A number with a fraction or an exponent is read from its digits and the place of its point. -/
theorem scanNumber_decimal (negative : Bool) {whole fraction rest : List Char}
    {exponent : Option (Bool × List Char)} (hwhole : IsWhole whole) (hfraction : Digits fraction)
    (hexponent : ∀ e ∈ exponent, Digits e.2 ∧ e.2 ≠ [])
    (hfloat : fraction ≠ [] ∨ exponent.isSome = true) (hrest : Ends rest) :
    scanNumber (signText negative ++
        (whole ++ (fractionText fraction ++ (exponentText exponent ++ rest)))) =
      .ok (.float (.ofDecimal negative (digitsValue (whole ++ fraction))
        (exponentValue exponent - fraction.length)), rest) := by
  have htail : NoDigit (exponentText exponent ++ rest) ∧
      (exponentText exponent ++ rest).head? ≠ some '.' := by
    cases exponent with
    | none =>
      refine ⟨hrest.noDigit, fun h => ?_⟩
      rcases hrest '.' h with h | h <;> cases h
    | some e => exact ⟨fun c hc => by cases hc; rfl, by simp [exponentText]⟩
  have hpoint : NoDigit (fractionText fraction ++ (exponentText exponent ++ rest)) := by
    cases fraction with
    | nil => exact htail.1
    | cons d more => exact fun c hc => by cases hc; rfl
  have hscan : ∃ value, scanExponent (exponentText exponent ++ rest) = (value, rest) ∧
      value.getD 0 = exponentValue exponent ∧ value.isNone = exponent.isNone := by
    cases exponent with
    | none => exact ⟨none, scanExponent_none hrest, rfl, rfl⟩
    | some e =>
      obtain ⟨hdigits, hne⟩ := hexponent e rfl
      exact ⟨_, scanExponent_some hdigits hne hrest, rfl, rfl⟩
  obtain ⟨value, hvalue, hgetD, hnone⟩ := hscan
  rw [scanNumber_signed negative hwhole hpoint rfl, scanFraction_eq hfraction htail.1 htail.2]
  dsimp only
  rw [hvalue, hgetD, hnone, if_neg]
  rintro ⟨hempty, habsent⟩
  rcases hfloat with h | h
  · exact h (List.isEmpty_iff.mp hempty)
  · rw [Option.isNone_iff_eq_none.mp habsent] at h
    cases h

/-- Digits are those that stay without the zeros at their end, and these zeros. -/
theorem eq_kept_append_zeros (s : List Char) :
    s = (s.reverse.dropWhile (· == '0')).reverse ++
      List.replicate (s.length - (s.reverse.dropWhile (· == '0')).reverse.length) '0' := by
  have hsplit : s = (s.reverse.dropWhile (· == '0')).reverse ++
      (s.reverse.takeWhile (· == '0')).reverse := by
    rw [← List.reverse_append, List.takeWhile_append_dropWhile, List.reverse_reverse]
  have hzeros : (s.reverse.takeWhile (· == '0')).reverse =
      List.replicate (s.reverse.takeWhile (· == '0')).reverse.length '0' :=
    List.eq_replicate_iff.mpr ⟨rfl, fun c hc => by
      have hzero := List.mem_takeWhile_imp (List.mem_reverse.mp hc)
      exact eq_of_beq hzero⟩
  have hlength := congrArg List.length hsplit
  rw [List.length_append] at hlength
  rw [Nat.sub_eq_of_eq_add' hlength, ← hzeros]
  exact hsplit

/-- Trimming takes the zeros at the end away and nothing else. -/
theorem trimmed_spec {d : Binary64.Decimal} (hd : 0 < d.digits) : ∃ s, ∃ zeros : ℕ,
    d.trimmed = (s, d.exponent + zeros) ∧ Significant s ∧ digitsValue s * 10 ^ zeros = d.digits := by
  have hsplit := eq_kept_append_zeros (Nat.toDigits 10 d.digits)
  have hvalue := digitsValue_toDigits d.digits
  obtain ⟨hdigits, first, more, hfirst, hne⟩ := significant_toDigits hd
  have htrimmed : d.trimmed = (((Nat.toDigits 10 d.digits).reverse.dropWhile (· == '0')).reverse,
    d.exponent + ((Nat.toDigits 10 d.digits).length -
      ((Nat.toDigits 10 d.digits).reverse.dropWhile (· == '0')).reverse.length : ℤ)) := rfl
  generalize ((Nat.toDigits 10 d.digits).reverse.dropWhile (· == '0')).reverse = kept at *
  have hle : kept.length ≤ (Nat.toDigits 10 d.digits).length := by
    rw [hsplit, List.length_append]
    exact Nat.le_add_right _ _
  rw [← Nat.cast_sub hle] at htrimmed
  generalize (Nat.toDigits 10 d.digits).length - kept.length = zeros at *
  rw [hsplit] at hdigits hvalue hfirst
  rw [digitsValue_append, digitsValue_zeros, List.length_replicate, Nat.add_zero] at hvalue
  refine ⟨kept, zeros, htrimmed, ⟨fun c hc => hdigits c (List.mem_append_left _ hc), ?_⟩, hvalue⟩
  cases kept with
  | nil =>
    rw [← hvalue] at hd
    exact absurd hd (by simp [digitsValue])
  | cons c rest => exact ⟨c, rest, rfl, (List.cons.inj hfirst).1 ▸ hne⟩

/-- A text that spells digits and a power of ten, with a fraction or an exponent. -/
def Spells (s : List Char) (digits : ℕ) (power : ℤ) : Prop := ∃ whole fraction exponent,
  s = whole ++ (fractionText fraction ++ exponentText exponent) ∧ IsWhole whole ∧
  Digits fraction ∧ (∀ e ∈ exponent, Digits e.2 ∧ e.2 ≠ []) ∧
  (fraction ≠ [] ∨ exponent.isSome = true) ∧
  digitsValue (whole ++ fraction) = digits ∧ exponentValue exponent - fraction.length = power

theorem Spells.scan {s rest : List Char} {digits : ℕ} {power : ℤ} (h : Spells s digits power)
    (negative : Bool) (hrest : Ends rest) : scanNumber (signText negative ++ (s ++ rest)) =
      .ok (.float (.ofDecimal negative digits power), rest) := by
  obtain ⟨whole, fraction, exponent, rfl, hwhole, hfraction, hexponent, hfloat, rfl, rfl⟩ := h
  rw [List.append_assoc, List.append_assoc]
  exact scanNumber_decimal negative hwhole hfraction hexponent hfloat hrest

/-- Zeros between the point and the digits. -/
theorem spells_small {s : List Char} (hs : Significant s) (n : ℕ) :
    Spells ('0' :: '.' :: List.replicate n '0' ++ s) (digitsValue s) (-(n + s.length : ℤ)) := by
  have hne : List.replicate n '0' ++ s ≠ [] := List.append_ne_nil_of_right_ne_nil _ hs.ne_nil
  refine ⟨['0'], List.replicate n '0' ++ s, none, ?_, Or.inl rfl, (digits_zeros n).append hs.1,
    digits_noExponent, Or.inl hne, ?_, ?_⟩
  · rw [fractionText_of_ne_nil hne, exponentText, List.append_nil]
    rfl
  · rw [digitsValue_append, digitsValue_append, digitsValue_zeros]
    simp [digitsValue]
  · simp [exponentValue]

/-- Zeros between the digits and the point. -/
theorem spells_large {s : List Char} (hs : Significant s) (n : ℕ) :
    Spells (s ++ List.replicate n '0' ++ ['.', '0']) (digitsValue s * 10 ^ (n + 1)) (-1) := by
  refine ⟨s ++ List.replicate n '0', ['0'], none, rfl, Or.inr (hs.append (digits_zeros n)),
    digits_zeros 1, digits_noExponent, Or.inl (List.cons_ne_nil _ _), ?_, rfl⟩
  rw [List.append_assoc, ← List.replicate_succ', digitsValue_append, digitsValue_zeros,
    List.length_replicate, Nat.add_zero]

/-- The point among the digits. -/
theorem spells_mixed {s : List Char} (hs : Significant s) {n : ℕ} (hn : 0 < n)
    (hlength : n < s.length) :
    Spells (s.take n ++ '.' :: s.drop n) (digitsValue s) (-((s.length : ℤ) - n)) := by
  have hne : s.drop n ≠ [] := by
    rw [← List.length_pos_iff, List.length_drop]
    omega
  refine ⟨s.take n, s.drop n, none, ?_, Or.inr (hs.take hn),
    fun c hc => hs.1 c (List.mem_of_mem_drop hc), digits_noExponent, Or.inl hne, ?_, ?_⟩
  · rw [fractionText_of_ne_nil hne, exponentText, List.append_nil]
  · rw [List.take_append_drop]
  · rw [exponentValue, List.length_drop, Nat.cast_sub hlength.le, zero_sub]

/-- One digit before the point, and an exponent. -/
theorem spells_scientific {c : Char} {rest : List Char} (hs : Significant (c :: rest))
    (power : ℤ) (n : ℕ) :
    Spells ((c :: fractionText rest) ++ 'e' :: (if power < 0 then '-' else '+') ::
      List.replicate n '0' ++ Nat.toDigits 10 power.natAbs) (digitsValue (c :: rest))
      (power - rest.length) := by
  have hfirst : Significant [c] := hs.take one_pos
  refine ⟨[c], rest, some (decide (power < 0), List.replicate n '0' ++ Nat.toDigits 10 power.natAbs),
    ?_, Or.inr hfirst, fun d hd => hs.1 d (List.mem_cons_of_mem c hd), ?_, Or.inr rfl, rfl, ?_⟩
  · simp [exponentText]
  · rintro e ⟨⟩
    exact ⟨(digits_zeros n).append (digits_toDigits _),
      List.append_ne_nil_of_right_ne_nil _ Nat.toDigits_ne_nil⟩
  · have hpower : exponentValue (some (decide (power < 0),
        List.replicate n '0' ++ Nat.toDigits 10 power.natAbs)) = power := by
      simp only [exponentValue, digitsValue_append, digitsValue_zeros, digitsValue_toDigits,
        Nat.zero_mul, Nat.zero_add, decide_eq_true_eq]
      split <;> omega
    rw [hpower]

/-- However a decimal is laid out, its text is read as the decimal. -/
theorem layout_spells {d : Binary64.Decimal} (hd : 0 < d.digits) : ∃ digits power,
    Spells d.layout digits power ∧ ∀ negative, Binary64.ofDecimal negative digits power =
      Binary64.ofDecimal negative d.digits d.exponent := by
  obtain ⟨s, zeros, htrimmed, hs, hvalue⟩ := trimmed_spec hd
  have hread : ∀ negative, Binary64.ofDecimal negative (digitsValue s) (d.exponent + zeros) =
      Binary64.ofDecimal negative d.digits d.exponent := by
    intro negative
    rw [← hvalue, Binary64.ofDecimal_mul_pow]
  unfold Binary64.Decimal.layout
  simp only [htrimmed]
  generalize d.exponent + (zeros : ℤ) = e at hread ⊢
  split
  · split
    · refine ⟨_, _, spells_small hs _, fun negative => ?_⟩
      rw [← hread negative]
      congr 1
      omega
    · split
      · refine ⟨_, _, spells_large hs _, fun negative => ?_⟩
        rw [← hread negative, Binary64.ofDecimal_mul_pow]
        congr 1
        omega
      · refine ⟨_, _, spells_mixed hs (by omega) (by omega), fun negative => ?_⟩
        rw [← hread negative]
        congr 1
        omega
  · obtain ⟨hdigits, c, rest, rfl, hc⟩ := hs
    have hspells := fun power n => spells_scientific ⟨hdigits, c, rest, rfl, hc⟩ power n
    refine ⟨digitsValue (c :: rest), ((c :: rest).length : ℤ) + e - 1 - rest.length,
      by cases rest <;> exact hspells _ _, fun negative => ?_⟩
    rw [← hread negative]
    congr 1
    rw [List.length_cons]
    push_cast
    ring

theorem toList_text_finite (negative : Bool) (m : ℕ) (e : ℤ) :
    (Binary64.text (.finite negative m e)).toList = signText negative ++
      if m = 0 then ['0', '.', '0'] else (Binary64.shortest m e).layout := by
  cases negative <;> simp [Binary64.text, signText]

/-- The text of zero. -/
theorem spells_zero : Spells ['0', '.', '0'] 0 (-1) :=
  ⟨['0'], ['0'], none, rfl, Or.inl rfl, digits_zeros 1, digits_noExponent,
    Or.inl (List.cons_ne_nil _ _), rfl, rfl⟩

/-- A finite number is read back from its text. -/
theorem scanNumber_finite {negative : Bool} {m : ℕ} {e : ℤ}
    (h : Binary64.Canonical (.finite negative m e)) {rest : List Char} (hrest : Ends rest) :
    scanNumber ((Binary64.text (.finite negative m e)).toList ++ rest) =
      .ok (.float (.finite negative m e), rest) := by
  rw [toList_text_finite, List.append_assoc]
  split
  · next hm =>
    subst hm
    have hleast : e = -1074 := h.2.2.2.resolve_left (by decide)
    rw [spells_zero.scan negative hrest, hleast]
    rfl
  · next hm =>
    have hpos : 0 < m := Nat.pos_of_ne_zero hm
    obtain ⟨digits, power, hspells, hread⟩ := layout_spells (Binary64.shortest_pos h hpos)
    rw [hspells.scan negative hrest, hread, Binary64.shortest_reads h hpos]

end EventCodegen.Json
