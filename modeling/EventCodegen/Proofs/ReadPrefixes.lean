import EventCodegen.Proofs.JsonTexts

/-! Values at the beginning of a text. What the reader has taken for a value it takes for the same
value in every text that begins alike, as long as what comes next ends a value there (`Stops`): a
number could go on, a string could not. Each scanner looks at nothing behind what it takes
(`Within`, `BeforeQuote`), and from them the readers of values, of the items of an array and of the
members of an object get the same property together (`local_all`). -/
namespace EventCodegen.Json

/-! ## Where a value ends -/

/-- What may come after a value inside a text: nothing, white space, a comma or a closing
bracket. -/
def Stops (s : List Char) : Prop :=
  ∀ c, s.head? = some c → isSpace c = true ∨ c ∈ [',', ']', '\x7d']

theorem stops_nil : Stops [] := by
  intro c h
  cases h

theorem stops_cons {c : Char} (h : isSpace c = true ∨ c ∈ [',', ']', '\x7d']) (rest : List Char) :
    Stops (c :: rest) := by
  intro d hd
  cases hd
  exact h

/-- No character that a number goes on with stops a value. -/
theorem Stops.ne {c : Char} {rest : List Char} (h : Stops (c :: rest)) :
    isDigit c = false ∧ c ∉ ['-', '+', '.', 'e', 'E'] := by
  have hc := h c rfl
  simp only [isSpace, Bool.or_eq_true, beq_iff_eq, List.mem_cons, List.not_mem_nil, or_false,
    or_assoc] at hc
  rcases hc with rfl | rfl | rfl | rfl | rfl | rfl | rfl <;> decide

theorem Stops.noDigit {s : List Char} (h : Stops s) : NoDigit s := by
  intro c hc
  cases s with
  | nil => cases hc
  | cons d more =>
    cases hc
    exact h.ne.1

/-! ## Numbers -/

theorem takeWhile_append_noDigit (s : List Char) {r : List Char} (hr : NoDigit r) :
    (s ++ r).takeWhile isDigit = s.takeWhile isDigit := by
  induction s with
  | nil =>
    cases r with
    | nil => rfl
    | cons c more => rw [List.nil_append, List.takeWhile_cons, hr c rfl]; rfl
  | cons c more ih =>
    rw [List.cons_append, List.takeWhile_cons, List.takeWhile_cons, ih]

theorem dropWhile_append_noDigit (s : List Char) {r : List Char} (hr : NoDigit r) :
    (s ++ r).dropWhile isDigit = s.dropWhile isDigit ++ r := by
  induction s with
  | nil =>
    cases r with
    | nil => rfl
    | cons c more => rw [List.nil_append, List.dropWhile_cons, hr c rfl]; rfl
  | cons c more ih =>
    rw [List.cons_append, List.dropWhile_cons, List.dropWhile_cons, ih]
    split <;> rfl

/-- A part of a number is taken from the characters before the end of the value, and is the same
whatever comes after them. -/
def Within {α : Type} (scan : List Char → α × List Char) : Prop :=
  ∀ q, ∃ out q', q' <:+ q ∧ ∀ r, Stops r → scan (q ++ r) = (out, q' ++ r)

theorem within_scanFraction : Within scanFraction := by
  intro q
  by_cases hq : ∃ d t, q = '.' :: d :: t ∧ isDigit d = true
  · obtain ⟨d, t, rfl, hd⟩ := hq
    refine ⟨d :: t.takeWhile isDigit, t.dropWhile isDigit, ?_, fun r hr => ?_⟩
    · exact ((List.dropWhile_suffix _).trans (List.suffix_cons d t)).trans (List.suffix_cons '.' _)
    · rw [List.cons_append, List.cons_append, scanFraction, if_pos hd,
        takeWhile_append_noDigit t hr.noDigit, dropWhile_append_noDigit t hr.noDigit]
  · refine ⟨[], q, List.suffix_rfl, fun r hr => ?_⟩
    rw [scanFraction.eq_def]
    split
    · next d rest heq =>
      refine if_neg fun hd => ?_
      rcases q with _ | ⟨_, _ | ⟨_, t⟩⟩
      · obtain rfl : r = '.' :: d :: rest := heq
        exact hr.ne.2 (by decide)
      · obtain rfl : r = d :: rest := (List.cons.inj heq).2
        rw [hr.ne.1] at hd
        cases hd
      · obtain ⟨rfl, h⟩ := List.cons.inj heq
        obtain ⟨rfl, _⟩ := List.cons.inj h
        exact hq ⟨_, t, rfl, hd⟩
    · rfl

/-- The sign of an exponent, and what comes after it. -/
def exponentSign (s : List Char) : Bool × List Char :=
  match s with
  | '-' :: r => (true, r)
  | '+' :: r => (false, r)
  | r => (false, r)

/-- An exponent from its digits on; `whole` begins with its letter. -/
def exponentFrom (negative : Bool) (digits whole : List Char) : Option Int × List Char :=
  match digits with
  | d :: _ =>
    if isDigit d then
      (some (exponentValue (some (negative, digits.takeWhile isDigit))), digits.dropWhile isDigit)
    else (none, whole)
  | [] => (none, whole)

theorem scanExponent_letter {e : Char} (he : e = 'e' ∨ e = 'E') (rest : List Char) :
    scanExponent (e :: rest) =
      exponentFrom (exponentSign rest).1 (exponentSign rest).2 (e :: rest) :=
  if_pos he

theorem within_exponentSign : Within exponentSign := by
  have hother : ∀ s, s.head? ≠ some '-' → s.head? ≠ some '+' → exponentSign s = (false, s) := by
    intro s hminus hplus
    unfold exponentSign
    split
    · exact absurd rfl hminus
    · exact absurd rfl hplus
    · rfl
  intro q
  cases q with
  | nil =>
    refine ⟨false, [], List.suffix_rfl, fun r hr => ?_⟩
    cases r with
    | nil => rfl
    | cons c more =>
      have hc := hr.ne.2
      simp only [List.mem_cons, not_or] at hc
      exact hother _ (fun h => hc.1 (Option.some.inj h)) (fun h => hc.2.1 (Option.some.inj h))
  | cons c t =>
    by_cases hminus : c = '-'
    · exact ⟨true, t, List.suffix_cons c t, fun r _ => by rw [hminus]; rfl⟩
    · by_cases hplus : c = '+'
      · exact ⟨false, t, List.suffix_cons c t, fun r _ => by rw [hplus]; rfl⟩
      · exact ⟨false, c :: t, List.suffix_rfl, fun r _ => hother _
          (fun h => hminus (Option.some.inj h)) (fun h => hplus (Option.some.inj h))⟩

theorem within_scanExponent : Within scanExponent := by
  have hother : ∀ q, (∀ r, Stops r → scanExponent (q ++ r) = (none, q ++ r)) →
      ∃ out q', q' <:+ q ∧ ∀ r, Stops r → scanExponent (q ++ r) = (out, q' ++ r) :=
    fun q h => ⟨none, q, List.suffix_rfl, h⟩
  intro q
  cases q with
  | nil =>
    refine hother [] fun r hr => ?_
    cases r with
    | nil => rfl
    | cons c more =>
      have hc := hr.ne.2
      simp only [List.mem_cons, not_or] at hc
      exact if_neg (not_or.mpr ⟨hc.2.2.2.1, hc.2.2.2.2.1⟩)
  | cons e t =>
    by_cases he : e = 'e' ∨ e = 'E'
    · obtain ⟨negative, u, hu, hsign⟩ := within_exponentSign t
      have hscan : ∀ r, Stops r →
          scanExponent (e :: t ++ r) = exponentFrom negative (u ++ r) (e :: t ++ r) := by
        intro r hr
        rw [List.cons_append, scanExponent_letter he, hsign r hr]
      cases u with
      | nil =>
        refine hother _ fun r hr => (hscan r hr).trans ?_
        cases r with
        | nil => rfl
        | cons d more => exact if_neg (by rw [hr.ne.1]; exact Bool.false_ne_true)
      | cons d v =>
        by_cases hd : isDigit d = true
        · refine ⟨some (exponentValue (some (negative, (d :: v).takeWhile isDigit))),
            (d :: v).dropWhile isDigit,
            ((List.dropWhile_suffix _).trans hu).trans (List.suffix_cons e t), fun r hr => ?_⟩
          rw [hscan r hr, ← dropWhile_append_noDigit _ hr.noDigit,
            ← takeWhile_append_noDigit _ hr.noDigit]
          exact if_pos hd
        · exact hother _ fun r hr => (hscan r hr).trans (if_neg hd)
    · exact hother _ fun r _ => if_neg he

/-- The whole part of a number is taken from the characters before the end of the value, or there is
none whatever comes after them. -/
theorem scanWhole_within (q : List Char) :
    (∃ whole q', q' <:+ q ∧ ∀ r, Stops r → scanWhole (q ++ r) = some (whole, q' ++ r)) ∨
      ∀ r, Stops r → scanWhole (q ++ r) = none := by
  cases q with
  | nil =>
    refine Or.inr fun r hr => ?_
    cases r with
    | nil => rfl
    | cons c more =>
      have hzero : c ≠ '0' := by
        rintro rfl
        exact absurd hr.ne.1 (by decide)
      exact (if_neg hzero).trans (if_neg (by rw [hr.ne.1]; exact Bool.false_ne_true))
  | cons c t =>
    by_cases hzero : c = '0'
    · exact Or.inl ⟨['0'], t, List.suffix_cons c t, fun r _ => by rw [hzero]; rfl⟩
    · by_cases hc : isDigit c = true
      · refine Or.inl ⟨c :: t.takeWhile isDigit, t.dropWhile isDigit,
          (List.dropWhile_suffix _).trans (List.suffix_cons c t), fun r hr => ?_⟩
        rw [List.cons_append, scanWhole, if_neg hzero, if_pos hc,
          takeWhile_append_noDigit t hr.noDigit, dropWhile_append_noDigit t hr.noDigit]
      · exact Or.inr fun r _ => (if_neg hzero).trans (if_neg hc)

/-- The sign of a number, and what comes after it. -/
def numberSign (s : List Char) : Bool × List Char :=
  match s with
  | '-' :: r => (true, r)
  | r => (false, r)

theorem within_numberSign : Within numberSign := by
  have hother : ∀ s, s.head? ≠ some '-' → numberSign s = (false, s) := by
    intro s hminus
    unfold numberSign
    split
    · exact absurd rfl hminus
    · rfl
  intro q
  cases q with
  | nil =>
    refine ⟨false, [], List.suffix_rfl, fun r hr => hother r ?_⟩
    intro h
    cases r with
    | nil => cases h
    | cons c more => exact hr.ne.2 (by rw [Option.some.inj h]; decide)
  | cons c t =>
    by_cases hminus : c = '-'
    · exact ⟨true, t, List.suffix_cons c t, fun r _ => by rw [hminus]; rfl⟩
    · exact ⟨false, c :: t, List.suffix_rfl, fun r _ =>
        hother _ fun h => hminus (Option.some.inj h)⟩

/-- What is read as a number with the given parts, and what is left after it. -/
def numberOf (negative : Bool) (whole fraction : List Char) (exponent : Option Int) :
    Except Fault Json :=
  if fraction.isEmpty ∧ exponent.isNone then
    if whole.length > maxIntegerDigits then .error .hugeInteger
    else .ok (.int (if negative then -(digitsValue whole : Int) else (digitsValue whole : Int)))
  else
    .ok (.float (.ofDecimal negative (digitsValue (whole ++ fraction))
      (exponent.getD 0 - fraction.length)))

/-- A number is its sign, its whole part, its fraction and its exponent. -/
theorem scanNumber_eq (s : List Char) :
    scanNumber s =
      match scanWhole (numberSign s).2 with
      | none => fault .expectingValue s
      | some (whole, a) =>
        (numberOf (numberSign s).1 whole (scanFraction a).1
          (scanExponent (scanFraction a).2).1).map
            fun x => (x, (scanExponent (scanFraction a).2).2) := by
  have hscan : scanNumber s =
      match scanWhole (numberSign s).2 with
      | none => fault .expectingValue s
      | some (whole, a) =>
        if (scanFraction a).1.isEmpty ∧ (scanExponent (scanFraction a).2).1.isNone then
          if whole.length > maxIntegerDigits then .error .hugeInteger
          else .ok (.int (if (numberSign s).1 then -(digitsValue whole : Int)
            else (digitsValue whole : Int)), (scanExponent (scanFraction a).2).2)
        else .ok (.float (.ofDecimal (numberSign s).1 (digitsValue (whole ++ (scanFraction a).1))
          ((scanExponent (scanFraction a).2).1.getD 0 - (scanFraction a).1.length)),
            (scanExponent (scanFraction a).2).2) := rfl
  rw [hscan]
  cases scanWhole (numberSign s).2 with
  | none => rfl
  | some found =>
    unfold numberOf
    dsimp only
    split_ifs <;> rfl

/-- A number is taken from the characters before the end of the value, and is the same whatever
comes after them. -/
theorem scanNumber_within (q : List Char) :
    (∃ x q', q' <:+ q ∧ ∀ r, Stops r → scanNumber (q ++ r) = .ok (x, q' ++ r)) ∨
      ∀ r, Stops r → ∃ e, scanNumber (q ++ r) = .error e := by
  obtain ⟨negative, t, ht, hsign⟩ := within_numberSign q
  rcases scanWhole_within t with ⟨whole, u, hu, hwhole⟩ | hnone
  · obtain ⟨fraction, v, hv, hfraction⟩ := within_scanFraction u
    obtain ⟨exponent, w, hw, hexponent⟩ := within_scanExponent v
    have hscan : ∀ r, Stops r → scanNumber (q ++ r) =
        (numberOf negative whole fraction exponent).map fun x => (x, w ++ r) := by
      intro r hr
      rw [scanNumber_eq, hsign r hr, hwhole r hr]
      dsimp only
      rw [hfraction r hr, hexponent r hr]
    cases hof : numberOf negative whole fraction exponent with
    | ok x =>
      refine Or.inl ⟨x, w, hw.trans (hv.trans (hu.trans ht)), fun r hr => ?_⟩
      rw [hscan r hr, hof]
      rfl
    | error e =>
      refine Or.inr fun r hr => ⟨e, ?_⟩
      rw [hscan r hr, hof]
      rfl
  · refine Or.inr fun r hr => ⟨.malformed .expectingValue (q ++ r).length, ?_⟩
    rw [scanNumber_eq, hsign r hr, hnone r hr]
    rfl

theorem prefix_of_scanNumber {s rest : List Char} {x : Json} (h : scanNumber s = .ok (x, rest))
    (hrest : Stops rest) : ∃ q, q ≠ [] ∧ s = q ++ rest ∧
      ∀ r, Stops r → scanNumber (q ++ r) = .ok (x, r) := by
  -- what is left over is an end of `s`; from the characters before it, nothing is left over
  have hsuffix : rest <:+ s := by
    rcases scanNumber_within s with ⟨y, q', hq', hread⟩ | herror
    · have hs := hread [] stops_nil
      rw [List.append_nil, List.append_nil, h] at hs
      cases hs
      exact hq'
    · obtain ⟨e, he⟩ := herror [] stops_nil
      rw [List.append_nil, h] at he
      cases he
  obtain ⟨q, rfl⟩ := hsuffix
  rcases scanNumber_within q with ⟨y, q', hq', hread⟩ | herror
  · have hq := hread rest hrest
    rw [h, Except.ok.injEq, Prod.mk.injEq, List.self_eq_append_left] at hq
    obtain ⟨rfl, rfl⟩ := hq
    refine ⟨q, ?_, rfl, hread⟩
    rintro rfl
    obtain ⟨d, t, hd, hs | hs⟩ := begins_of_scanNumber (by rw [h]; nofun)
    · rw [List.nil_append] at hs
      rw [hs] at hrest
      rw [hrest.ne.1] at hd
      cases hd
    · rw [List.nil_append] at hs
      rw [hs] at hrest
      exact hrest.ne.2 List.mem_cons_self
  · obtain ⟨e, he⟩ := herror rest hrest
    rw [h] at he
    cases he

/-! ## Strings -/

/-- An escape is taken from the characters before the quote that ends the string, or there is none,
whatever comes after that quote. -/
def BeforeQuote (escape? : List Char → Option (Nat × List Char)) : Prop :=
  ∀ q, (∃ n q', ∀ r, escape? (q ++ Text.doubleQuote :: r) = some (n, q' ++ Text.doubleQuote :: r)) ∨
    ∀ r, escape? (q ++ Text.doubleQuote :: r) = none

theorem hex4?_quote {a b c d : Char} (h : Text.doubleQuote ∈ [a, b, c, d]) :
    hex4? a b c d = none := by
  have hquote : hexValue? Text.doubleQuote = none := by decide
  unfold hex4?
  simp only [List.mem_cons, List.not_mem_nil, or_false] at h
  rcases h with rfl | rfl | rfl | rfl <;> simp [hquote]

/-- There are no four digits where a quote comes too early. -/
theorem quad?_quote {q : List Char} (hq : q.length < 4) (r : List Char) :
    quad? (q ++ Text.doubleQuote :: r) = none := by
  have hnone : ∀ s : List Char, Text.doubleQuote ∈ s.take 4 → quad? s = none := by
    intro s hs
    unfold quad?
    split
    · rw [hex4?_quote hs]
      rfl
    · rfl
  refine hnone _ ?_
  rw [List.take_append, List.mem_append]
  obtain ⟨n, hn⟩ : ∃ n, 4 - q.length = n + 1 := ⟨3 - q.length, by omega⟩
  rw [hn, List.take_succ_cons]
  exact Or.inr List.mem_cons_self

theorem beforeQuote_quad? : BeforeQuote quad? := by
  intro q
  match q with
  | [] | [_] | [_, _] | [_, _, _] => exact Or.inr (quad?_quote (by simp))
  | a :: b :: c :: d :: t =>
    have hquad : ∀ r, quad? (a :: b :: c :: d :: t ++ Text.doubleQuote :: r) =
        (hex4? a b c d).map fun n => (n, t ++ Text.doubleQuote :: r) := by
      intro r
      cases t <;> rfl
    cases hn : hex4? a b c d with
    | none => exact Or.inr fun r => by rw [hquad, hn]; rfl
    | some n => exact Or.inl ⟨n, t, fun r => by rw [hquad, hn]; rfl⟩

theorem beforeQuote_lowEscape? : BeforeQuote lowEscape? := by
  have hother : ∀ x y s, ¬(x = Char.ofNat 92 ∧ y = 'u') → lowEscape? (x :: y :: s) = none :=
    fun _ _ _ h => if_neg h
  intro q
  match q with
  | [] =>
    refine Or.inr fun r => ?_
    cases r with
    | nil => rfl
    | cons y more => exact hother _ _ _ fun h => absurd h.1 (by decide)
  | [x] => exact Or.inr fun r => hother _ _ _ fun h => absurd h.2 (by decide)
  | x :: y :: t =>
    by_cases hxy : x = Char.ofNat 92 ∧ y = 'u'
    · have hlow : ∀ r, lowEscape? (x :: y :: t ++ Text.doubleQuote :: r) =
          (quad? (t ++ Text.doubleQuote :: r)).filter fun q => isLowSurrogate q.1 :=
        fun r => if_pos hxy
      rcases beforeQuote_quad? t with ⟨n, q', hquad⟩ | hnone
      · by_cases hn : isLowSurrogate n = true
        · exact Or.inl ⟨n, q', fun r => by rw [hlow, hquad]; exact if_pos hn⟩
        · exact Or.inr fun r => by rw [hlow, hquad]; exact if_neg hn
      · exact Or.inr fun r => by rw [hlow, hnone]; rfl
    · exact Or.inr fun r => hother _ _ _ hxy

theorem hexEscape?_eq {s t : List Char} {n : Nat} (h : quad? s = some (n, t)) :
    hexEscape? s =
      if isHighSurrogate n then
        (lowEscape? t).elim (some (n, t)) fun low => some (joinSurrogates n low.1, low.2)
      else some (n, t) := by
  rw [hexEscape?, h]
  dsimp only
  cases lowEscape? t <;> rfl

theorem beforeQuote_hexEscape? : BeforeQuote hexEscape? := by
  intro q
  rcases beforeQuote_quad? q with ⟨n, q', hquad⟩ | hnone
  · by_cases hn : isHighSurrogate n = true
    · rcases beforeQuote_lowEscape? q' with ⟨m, t, hlow⟩ | hnone
      · refine Or.inl ⟨joinSurrogates n m, t, fun r => ?_⟩
        rw [hexEscape?_eq (hquad r), if_pos hn, hlow, Option.elim_some]
      · refine Or.inl ⟨n, q', fun r => ?_⟩
        rw [hexEscape?_eq (hquad r), if_pos hn, hnone, Option.elim_none]
    · exact Or.inl ⟨n, q', fun r => by rw [hexEscape?_eq (hquad r), if_neg hn]⟩
  · exact Or.inr fun r => by rw [hexEscape?, hnone]

theorem quad?_suffix {s more : List Char} {n : Nat} (h : quad? s = some (n, more)) :
    more <:+ s := by
  unfold quad? at h
  split at h
  · next a b c d next rest =>
    obtain ⟨m, _, heq⟩ := Option.map_eq_some_iff.mp h
    cases heq
    exact ⟨[a, b, c, d], rfl⟩
  · cases h

theorem lowEscape?_suffix {s more : List Char} {n : Nat} (h : lowEscape? s = some (n, more)) :
    more <:+ s := by
  unfold lowEscape? at h
  split at h
  · next x y t =>
    split_ifs at h
    exact (quad?_suffix (Option.filter_eq_some_iff.mp h).1).trans ⟨[x, y], rfl⟩
  · cases h

theorem hexEscape?_suffix {s more : List Char} {n : Nat} (h : hexEscape? s = some (n, more)) :
    more <:+ s := by
  cases hquad : quad? s with
  | none =>
    rw [hexEscape?, hquad] at h
    cases h
  | some found =>
    obtain ⟨m, t⟩ := found
    rw [hexEscape?_eq hquad] at h
    split_ifs at h
    · cases hlow : lowEscape? t with
      | none =>
        rw [hlow] at h
        rw [← (Prod.mk.inj (Option.some.inj h)).2]
        exact quad?_suffix hquad
      | some low =>
        rw [hlow] at h
        rw [← (Prod.mk.inj (Option.some.inj h)).2]
        exact (lowEscape?_suffix hlow).trans (quad?_suffix hquad)
    · rw [← (Prod.mk.inj (Option.some.inj h)).2]
      exact quad?_suffix hquad

/-- What is read as a string ends with a quote and is the same whatever comes after it. -/
theorem prefix_of_scanString {whole s rest : List Char} {read : List Nat} {x : Str}
    (h : scanString whole read s = .ok (x, rest)) :
    ∃ q, s = q ++ Text.doubleQuote :: rest ∧
      ∀ whole' r, scanString whole' read (q ++ Text.doubleQuote :: r) = .ok (x, r) := by
  have hfault : ∀ {reason : Reason} {t : List Char},
      (fault reason t : Except Fault (Str × List Char)) ≠ .ok (x, rest) := by
    intro reason t ht
    cases ht
  fun_induction scanString whole read s with
  | case1 => exact absurd h hfault
  | case2 read after =>
    cases h
    exact ⟨[], rfl, fun whole' r => by rw [List.nil_append, scanString.eq_def]; exact if_pos rfl⟩
  | case3 => exact absurd h hfault
  | case4 => exact absurd h hfault
  | case5 read after n more hhex _ _ ih =>
    obtain ⟨q, rfl, hread⟩ := ih h
    obtain ⟨p, rfl⟩ := hexEscape?_suffix hhex
    refine ⟨Text.backslash :: 'u' :: (p ++ q), by rw [← List.append_assoc]; rfl, fun whole' r => ?_⟩
    rcases beforeQuote_hexEscape? (p ++ q) with ⟨m, q', hescape⟩ | hnone
    · have heq := hescape rest
      rw [List.append_assoc, hhex, Option.some.injEq, Prod.mk.injEq,
        List.append_cancel_right_eq] at heq
      obtain ⟨rfl, rfl⟩ := heq
      rw [List.cons_append, List.cons_append, scanString_number whole' read (hescape r)]
      exact hread whole' r
    · rw [← List.append_assoc, hnone] at hhex
      cases hhex
  | case6 read e after he x hx _ ih =>
    obtain ⟨q, rfl, hread⟩ := ih h
    refine ⟨Text.backslash :: e :: q, rfl, fun whole' r => ?_⟩
    rw [List.cons_append, List.cons_append, scanString_escape whole' read _ he hx]
    exact hread whole' r
  | case7 => exact absurd h hfault
  | case8 => exact absurd h hfault
  | case9 read c after hquote hbackslash hcontrol ih =>
    obtain ⟨q, rfl, hread⟩ := ih h
    refine ⟨c :: q, rfl, fun whole' r => ?_⟩
    rw [List.cons_append, scanString_plain whole' read _ hquote hbackslash hcontrol]
    exact hread whole' r

/-! ## Words -/

/-- A word is read whatever comes after it. -/
theorem prefix_of_scanConstant? {s rest : List Char} {x : Json}
    (h : scanConstant? s = some (x, rest)) :
    ∃ q, q ≠ [] ∧ s = q ++ rest ∧ ∀ r, scanConstant? (q ++ r) = some (x, r) := by
  obtain ⟨⟨word, value⟩, hmem, hword⟩ := List.exists_of_findSome?_eq_some h
  dsimp only at hword
  split_ifs at hword with hprefix
  obtain ⟨rfl, rfl⟩ := Prod.mk.inj (Option.some.inj hword)
  obtain ⟨t, rfl⟩ := List.isPrefixOf_iff_prefix.mp hprefix
  refine ⟨word, ?_, by rw [List.drop_left], ?_⟩
  · rintro rfl
    revert hmem
    simp [constants]
  · intro r
    simp only [constants, List.mem_cons, Prod.mk.injEq, List.not_mem_nil, or_false] at hmem
    rcases hmem with ⟨rfl, rfl⟩ | ⟨rfl, rfl⟩ | ⟨rfl, rfl⟩ | ⟨rfl, rfl⟩ | ⟨rfl, rfl⟩ | ⟨rfl, rfl⟩ <;>
      rfl

/-! ## Values -/

/-- What follows white space is no white space. -/
theorem isSpace_of_skipSpace {s t : List Char} {c : Char} (h : skipSpace s = c :: t) :
    isSpace c = false := by
  have hdrop : s.dropWhile isSpace = c :: t := h
  have hhead := List.head_dropWhile_not isSpace (l := s) (by rw [hdrop]; exact List.cons_ne_nil c t)
  simpa [hdrop] using hhead

/-- A text is white space and what follows it. -/
theorem exists_of_skipSpace (s : List Char) :
    ∃ gap, s = gap ++ skipSpace s ∧ ∀ r, skipSpace (gap ++ r) = skipSpace r :=
  ⟨s.takeWhile isSpace, List.takeWhile_append_dropWhile.symm,
    fun _ => List.dropWhile_append_of_pos fun _ hd => List.mem_takeWhile_imp hd⟩

/-- A text that goes on with a mark, whatever comes after the mark. -/
theorem exists_of_mark {s t : List Char} {c : Char} (h : skipSpace s = c :: t) :
    ∃ gap, s = gap ++ c :: t ∧ ∀ r, skipSpace (gap ++ c :: r) = c :: r := by
  obtain ⟨gap, hs, hgap⟩ := exists_of_skipSpace s
  refine ⟨gap, by rw [← h]; exact hs, fun r => ?_⟩
  rw [hgap]
  exact List.dropWhile_cons_of_neg (by rw [isSpace_of_skipSpace h]; exact Bool.false_ne_true)

/-- What goes on with a closing bracket or a comma stops a value. -/
theorem stops_of_skipSpace {s t : List Char} {c : Char} (h : skipSpace s = c :: t)
    (hc : c ∈ [',', ']', '\x7d']) : Stops s := by
  cases s with
  | nil => exact stops_nil
  | cons d more =>
    by_cases hd : isSpace d = true
    · exact stops_cons (Or.inl hd) more
    · have hskip : skipSpace (d :: more) = d :: more := List.dropWhile_cons_of_neg hd
      rw [hskip] at h
      obtain ⟨rfl, _⟩ := List.cons.inj h
      exact stops_cons (Or.inr hc) more

/-- White space and the beginning of what follows it are the same whatever comes after them. -/
theorem exists_of_skipSpace_append {s q rest : List Char} (h : skipSpace s = q ++ rest) :
    ∃ p, s = p ++ rest ∧ ∀ r, q ≠ [] ∨ skipSpace r = r → skipSpace (p ++ r) = q ++ r := by
  cases q with
  | nil =>
    obtain ⟨gap, hs, hgap⟩ := exists_of_skipSpace s
    refine ⟨gap, by rw [← List.nil_append rest, ← h]; exact hs, fun r hr => ?_⟩
    rw [hgap, hr.resolve_left (fun hne => hne rfl), List.nil_append]
  | cons c q =>
    obtain ⟨gap, rfl, hgap⟩ := exists_of_mark h
    exact ⟨gap ++ c :: q, by simp, fun r _ => by simpa using hgap (q ++ r)⟩

/-- What is read with some fuel is read from any text that begins alike: a value as long as what
comes after it stops it, the rest of an array or an object whatever comes after. -/
structure Local (fuel : Nat) : Prop where
  value : ∀ {s rest : List Char} {x : Json}, parseValue fuel s = .ok (x, rest) → Stops rest →
    ∃ q, q ≠ [] ∧ s = q ++ rest ∧ ∀ r, Stops r → parseValue fuel (q ++ r) = .ok (x, r)
  items : ∀ {read : List Json} {s rest : List Char} {x : Json},
    parseItems fuel read s = .ok (x, rest) →
    ∃ q, q ≠ [] ∧ s = q ++ rest ∧ ∀ r, parseItems fuel read (q ++ r) = .ok (x, r)
  members : ∀ {read : Fields} {s rest : List Char} {x : Json},
    parseMembers fuel read s = .ok (x, rest) →
    ∃ q, q ≠ [] ∧ s = q ++ rest ∧ ∀ r, parseMembers fuel read (q ++ r) = .ok (x, r)

/-- A value and the mark behind it. -/
theorem Local.mark {fuel : Nat} (h : Local fuel) {s after t : List Char} {x : Json} {c : Char}
    (hvalue : parseValue fuel s = .ok (x, after)) (hmark : skipSpace after = c :: t)
    (hc : c ∈ [',', ']', '\x7d']) :
    ∃ q, q ≠ [] ∧ s = q ++ c :: t ∧ ∀ r, ∃ after', parseValue fuel (q ++ c :: r) = .ok (x, after') ∧
      skipSpace after' = c :: r := by
  obtain ⟨q, hq, rfl, hagain⟩ := h.value hvalue (stops_of_skipSpace hmark hc)
  obtain ⟨gap, rfl, hgap⟩ := exists_of_mark hmark
  refine ⟨q ++ gap, by simp [hq], by simp, fun r => ⟨gap ++ c :: r, ?_, hgap r⟩⟩
  rw [List.append_assoc]
  exact hagain _ (stops_of_skipSpace (hgap r) hc)

theorem Local.items_succ {fuel : Nat} (h : Local fuel) {read : List Json} {s rest : List Char}
    {x : Json} (hread : parseItems (fuel + 1) read s = .ok (x, rest)) :
    ∃ q, q ≠ [] ∧ s = q ++ rest ∧ ∀ r, parseItems (fuel + 1) read (q ++ r) = .ok (x, r) := by
  obtain ⟨y, after, hvalue, ⟨hclose, rfl⟩ | ⟨t, hcomma, hmore⟩⟩ := parseItems_eq_ok hread
  · obtain ⟨q, hq, rfl, hagain⟩ := h.mark hvalue hclose (by decide)
    refine ⟨q ++ [']'], by simp, by simp, fun r => ?_⟩
    obtain ⟨after', hvalue', hclose'⟩ := hagain r
    rw [List.append_assoc]
    exact parseItems_close hvalue' hclose'
  · obtain ⟨q, hq, rfl, hagain⟩ := h.mark hvalue hcomma (by decide)
    obtain ⟨q', hq', hsplit, hmore'⟩ := h.items hmore
    obtain ⟨p, rfl, hskip⟩ := exists_of_skipSpace_append hsplit
    refine ⟨q ++ ',' :: p, by simp, by simp, fun r => ?_⟩
    obtain ⟨after', hvalue', hcomma'⟩ := hagain (p ++ r)
    rw [List.append_assoc]
    exact (parseItems_more hvalue' hcomma').trans (by rw [hskip _ (Or.inl hq'), hmore'])

theorem Local.members_succ {fuel : Nat} (h : Local fuel) {read : Fields} {s rest : List Char}
    {x : Json} (hread : parseMembers (fuel + 1) read s = .ok (x, rest)) :
    ∃ q, q ≠ [] ∧ s = q ++ rest ∧ ∀ r, parseMembers (fuel + 1) read (q ++ r) = .ok (x, r) := by
  obtain ⟨t, name, u, v, y, after, rfl, hname, hcolon, hvalue, hend⟩ := parseMembers_eq_ok hread
  obtain ⟨n, rfl, hname'⟩ := prefix_of_scanString hname
  obtain ⟨gap, rfl, hgap⟩ := exists_of_mark hcolon
  -- what comes before the mark behind the value is the same whatever comes after that mark
  have hmember : ∀ {c : Char} {w : List Char}, skipSpace after = c :: w → c ∈ [',', ']', '\x7d'] →
      ∃ p, v = p ++ c :: w ∧ ∀ r, ∃ after',
        parseValue fuel (skipSpace (p ++ c :: r)) = .ok (y, after') ∧ skipSpace after' = c :: r := by
    intro c w hmark hc
    obtain ⟨q, hq, hv, hagain⟩ := h.mark hvalue hmark hc
    obtain ⟨p, rfl, hskip⟩ := exists_of_skipSpace_append hv
    refine ⟨p, rfl, fun r => ?_⟩
    rw [hskip _ (Or.inl hq)]
    exact hagain r
  rcases hend with ⟨hclose, rfl⟩ | ⟨w, hcomma, hmore⟩
  · obtain ⟨p, rfl, hagain⟩ := hmember hclose (by decide)
    refine ⟨Text.doubleQuote :: (n ++ Text.doubleQuote :: (gap ++ ':' :: (p ++ ['\x7d']))),
      List.cons_ne_nil _ _, by simp, fun r => ?_⟩
    obtain ⟨after', hvalue', hclose'⟩ := hagain r
    have hstep : parseMembers (fuel + 1) read _ = _ :=
      parseMembers_step (hname' _ _) (hgap _) hvalue'
    rw [hclose'] at hstep
    simpa using hstep
  · obtain ⟨p, rfl, hagain⟩ := hmember hcomma (by decide)
    obtain ⟨q', hq', hsplit, hmore'⟩ := h.members hmore
    obtain ⟨p', rfl, hskip⟩ := exists_of_skipSpace_append hsplit
    refine ⟨Text.doubleQuote :: (n ++ Text.doubleQuote :: (gap ++ ':' :: (p ++ ',' :: p'))),
      List.cons_ne_nil _ _, by simp, fun r => ?_⟩
    obtain ⟨after', hvalue', hcomma'⟩ := hagain (p' ++ r)
    have hstep : parseMembers (fuel + 1) read _ = _ :=
      parseMembers_step (hname' _ _) (hgap _) hvalue'
    rw [hcomma'] at hstep
    have hnext : _ = parseMembers fuel (put name y read) (skipSpace (p' ++ r)) := hstep
    rw [hskip _ (Or.inl hq'), hmore'] at hnext
    simpa using hnext

theorem Local.value_succ {fuel : Nat} (h : Local fuel) {s rest : List Char} {x : Json}
    (hread : parseValue (fuel + 1) s = .ok (x, rest)) (hrest : Stops rest) :
    ∃ q, q ≠ [] ∧ s = q ++ rest ∧ ∀ r, Stops r → parseValue (fuel + 1) (q ++ r) = .ok (x, r) := by
  simp only [parseValue_eq_ok] at hread ⊢
  cases hread with
  | string hstring =>
    obtain ⟨q, rfl, hagain⟩ := prefix_of_scanString hstring
    refine ⟨Text.doubleQuote :: (q ++ [Text.doubleQuote]), List.cons_ne_nil _ _, by simp,
      fun r _ => ?_⟩
    rw [List.cons_append, List.append_assoc]
    exact .string (hagain _ r)
  | noItems hclose =>
    obtain ⟨gap, rfl, hgap⟩ := exists_of_mark hclose
    refine ⟨'[' :: (gap ++ [']']), List.cons_ne_nil _ _, by simp, fun r _ => ?_⟩
    rw [List.cons_append, List.append_assoc]
    exact .noItems (hgap r)
  | items hitems =>
    obtain ⟨q, hq, hsplit, hagain⟩ := h.items hitems
    obtain ⟨p, rfl, hskip⟩ := exists_of_skipSpace_append hsplit
    exact ⟨'[' :: p, List.cons_ne_nil _ _, rfl,
      fun r _ => .items ((congrArg _ (hskip r (Or.inl hq))).trans (hagain r))⟩
  | noMembers hclose =>
    obtain ⟨gap, rfl, hgap⟩ := exists_of_mark hclose
    refine ⟨'\x7b' :: (gap ++ ['\x7d']), List.cons_ne_nil _ _, by simp, fun r _ => ?_⟩
    rw [List.cons_append, List.append_assoc]
    exact .noMembers (hgap r)
  | members hmembers =>
    obtain ⟨q, hq, hsplit, hagain⟩ := h.members hmembers
    obtain ⟨p, rfl, hskip⟩ := exists_of_skipSpace_append hsplit
    exact ⟨'\x7b' :: p, List.cons_ne_nil _ _, rfl,
      fun r _ => .members ((congrArg _ (hskip r (Or.inl hq))).trans (hagain r))⟩
  | constant hconstant =>
    obtain ⟨q, hq, hs, hagain⟩ := prefix_of_scanConstant? hconstant
    exact ⟨q, hq, hs, fun r _ => .constant (hagain r)⟩
  | number hnumber =>
    obtain ⟨q, hq, hs, hagain⟩ := prefix_of_scanNumber hnumber hrest
    exact ⟨q, hq, hs, fun r hr => .number (hagain r hr)⟩

/-- Whatever the fuel. -/
theorem local_all (fuel : Nat) : Local fuel := by
  induction fuel with
  | zero => exact ⟨fun h _ => (nomatch h), fun h => (nomatch h), fun h => (nomatch h)⟩
  | succ fuel ih => exact ⟨ih.value_succ, ih.items_succ, ih.members_succ⟩

end EventCodegen.Json
