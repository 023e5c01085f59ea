import EventCodegen.Proofs.ReadPrefixes

/-! The one fault of JSON text that is none of form: a whole number with more digits than are read.
The fuel of the readers has no part in it, since enough of it is enough (`parseValue_fuel`). The
fault comes up exactly where such a number begins and the text before it, read alone, ends where a
value is wanted (`MeetsOversized`, `parse_eq_hugeInteger_iff`). -/
namespace EventCodegen.Json

/-! ## Fuel -/

theorem length_skipSpace_le (s : List Char) : (skipSpace s).length ≤ s.length :=
  (List.dropWhile_suffix _).length_le

/-- With fuel for every character twice over, more fuel changes nothing. -/
structure Ample (fuel : Nat) : Prop where
  value : ∀ {s : List Char}, 2 * s.length < fuel → parseValue (fuel + 1) s = parseValue fuel s
  items : ∀ {read : List Json} {s : List Char}, 2 * s.length + 1 < fuel →
    parseItems (fuel + 1) read s = parseItems fuel read s
  members : ∀ {read : Fields} {s : List Char}, 2 * s.length + 1 < fuel →
    parseMembers (fuel + 1) read s = parseMembers fuel read s

/-- What comes behind the mark after a value is shorter by two characters at least. -/
theorem length_of_mark {fuel : Nat} {s after t : List Char} {x : Json} {c : Char}
    (hvalue : parseValue fuel s = .ok (x, after)) (hmark : skipSpace after = c :: t)
    (hc : c ∈ [',', ']', '\x7d']) : (skipSpace t).length + 2 ≤ s.length := by
  obtain ⟨q, hq, rfl, _⟩ := (local_all fuel).mark hvalue hmark hc
  have hpos := List.length_pos_of_ne_nil hq
  have ht := length_skipSpace_le t
  rw [List.length_append, List.length_cons]
  omega

theorem Ample.value_succ {fuel : Nat} (h : Ample fuel) {s : List Char}
    (hs : 2 * s.length < fuel + 1) : parseValue (fuel + 2) s = parseValue (fuel + 1) s := by
  cases s with
  | nil => rfl
  | cons c t =>
    have ht := length_skipSpace_le t
    rw [List.length_cons] at hs
    rw [parseValue.eq_def, parseValue.eq_def (fuel + 1)]
    dsimp only
    split_ifs
    · rfl
    · split
      · rfl
      · exact h.items (by omega)
    · split
      · rfl
      · exact h.members (by omega)
    · rfl

theorem Ample.items_succ {fuel : Nat} (h : Ample fuel) {read : List Json} {s : List Char}
    (hs : 2 * s.length + 1 < fuel + 1) :
    parseItems (fuel + 2) read s = parseItems (fuel + 1) read s := by
  rw [parseItems.eq_def, parseItems.eq_def (fuel + 1)]
  dsimp only
  rw [h.value (by omega)]
  cases hvalue : parseValue fuel s with
  | error e => rfl
  | ok found =>
    dsimp only [bind, Except.bind]
    split
    · rfl
    · next hmark =>
      have hless := length_of_mark hvalue hmark (by decide)
      exact h.items (by omega)
    · rfl

theorem Ample.members_succ {fuel : Nat} (h : Ample fuel) {read : Fields} {s : List Char}
    (hs : 2 * s.length + 1 < fuel + 1) :
    parseMembers (fuel + 2) read s = parseMembers (fuel + 1) read s := by
  cases s with
  | nil => rfl
  | cons c t =>
    rw [parseMembers.eq_def, parseMembers.eq_def (fuel + 1)]
    dsimp only
    rw [List.length_cons] at hs
    split_ifs
    · cases hname : scanString (c :: t) [] t with
      | error e => rfl
      | ok found =>
        obtain ⟨name, u⟩ := found
        obtain ⟨q, rfl, _⟩ := prefix_of_scanString hname
        dsimp only [bind, Except.bind]
        split
        · next v hcolon =>
          obtain ⟨gap, rfl, _⟩ := exists_of_mark hcolon
          have hv := length_skipSpace_le v
          simp only [List.length_append, List.length_cons] at hs
          rw [h.value (by omega)]
          cases hvalue : parseValue fuel (skipSpace v) with
          | error e => rfl
          | ok found =>
            dsimp only
            split
            · rfl
            · next hmark =>
              have hless := length_of_mark hvalue hmark (by decide)
              exact h.members (by omega)
            · rfl
        · rfl
    · rfl

theorem ample_all (fuel : Nat) : Ample fuel := by
  induction fuel with
  | zero =>
    exact ⟨fun h => absurd h (Nat.not_lt_zero _), fun h => absurd h (Nat.not_lt_zero _),
      fun h => absurd h (Nat.not_lt_zero _)⟩
  | succ fuel ih => exact ⟨ih.value_succ, ih.items_succ, ih.members_succ⟩

/-- A value is the same whatever the fuel, if there is enough. -/
theorem parseValue_fuel {fuel more : Nat} {s : List Char} (h : 2 * s.length < fuel)
    (hmore : fuel ≤ more) : parseValue more s = parseValue fuel s := by
  induction hmore with
  | refl => rfl
  | @step m hm ih => rw [(ample_all m).value (h.trans_le hm), ih]

/-! ## Whole numbers with too many digits -/

/-- A point and a digit come next. -/
def BeginsFraction (s : List Char) : Prop := ∃ d t, s = '.' :: d :: t ∧ isDigit d = true

/-- A letter `e`, perhaps a sign, and a digit come next. -/
def BeginsExponent (s : List Char) : Prop :=
  ∃ e sign d t, s = e :: (sign ++ d :: t) ∧ (e = 'e' ∨ e = 'E') ∧ sign ∈ [[], ['-'], ['+']] ∧
    isDigit d = true

/-- A text that begins with a whole number of more digits than are read. -/
def BeginsOversized (s : List Char) : Prop :=
  ∃ negative digits after, s = signText negative ++ (digits ++ after) ∧ Significant digits ∧
    maxIntegerDigits < digits.length ∧ NoDigit after ∧ ¬BeginsFraction after ∧ ¬BeginsExponent after

theorem scanFraction_of_not {s : List Char} (h : ¬BeginsFraction s) : scanFraction s = ([], s) := by
  unfold scanFraction
  split
  · next d rest => exact if_neg fun hd => h ⟨d, rest, rfl, hd⟩
  · rfl

theorem scanFraction_ne_nil {s : List Char} (h : BeginsFraction s) : (scanFraction s).1 ≠ [] := by
  obtain ⟨d, t, rfl, hd⟩ := h
  rw [scanFraction, if_pos hd]
  exact List.cons_ne_nil _ _

theorem exponentFrom_of_not {negative : Bool} {digits whole : List Char}
    (h : ∀ d t, digits = d :: t → isDigit d = false) :
    exponentFrom negative digits whole = (none, whole) := by
  cases digits with
  | nil => rfl
  | cons d t => exact if_neg (by rw [h d t rfl]; exact Bool.false_ne_true)

/-- The sign of an exponent is one of three texts. -/
theorem exists_exponentSign (s : List Char) :
    ∃ sign ∈ [[], ['-'], ['+']], s = sign ++ (exponentSign s).2 := by
  unfold exponentSign
  split
  · exact ⟨['-'], by decide, rfl⟩
  · exact ⟨['+'], by decide, rfl⟩
  · exact ⟨[], by decide, rfl⟩

theorem scanExponent_of_not {s : List Char} (h : ¬BeginsExponent s) :
    scanExponent s = (none, s) := by
  cases s with
  | nil => rfl
  | cons e rest =>
    by_cases he : e = 'e' ∨ e = 'E'
    · obtain ⟨sign, hsign, hrest⟩ := exists_exponentSign rest
      rw [scanExponent_letter he]
      refine exponentFrom_of_not fun d t hdigits => Bool.eq_false_of_not_eq_true fun hd => ?_
      rw [hdigits] at hrest
      exact h ⟨e, sign, d, t, congrArg (e :: ·) hrest, he, hsign, hd⟩
    · exact if_neg he

theorem scanExponent_ne_none {s : List Char} (h : BeginsExponent s) :
    (scanExponent s).1 ≠ none := by
  obtain ⟨e, sign, d, t, rfl, he, hsign, hd⟩ := h
  have hdigit : exponentSign (d :: t) = (false, d :: t) := by
    unfold exponentSign
    split
    · next heq =>
      obtain ⟨rfl, _⟩ := List.cons.inj heq
      exact absurd hd (by decide)
    · next heq =>
      obtain ⟨rfl, _⟩ := List.cons.inj heq
      exact absurd hd (by decide)
    · rfl
  have hfrom : ∀ negative whole, (exponentFrom negative (d :: t) whole).1 ≠ none := by
    intro negative whole
    rw [exponentFrom, if_pos hd]
    exact Option.some_ne_none _
  rw [scanExponent_letter he]
  simp only [List.mem_cons, List.not_mem_nil, or_false] at hsign
  rcases hsign with rfl | rfl | rfl
  · rw [List.nil_append, hdigit]
    exact hfrom _ _
  · exact hfrom _ _
  · exact hfrom _ _

/-- A whole part is a zero alone, or its digits are all that come next. -/
theorem scanWhole_eq_some {s whole after : List Char} (h : scanWhole s = some (whole, after)) :
    s = whole ++ after ∧ (whole = ['0'] ∨ Significant whole ∧ NoDigit after) := by
  cases s with
  | nil => cases h
  | cons c t =>
    rw [scanWhole] at h
    split_ifs at h with hzero hc
    · cases h
      exact ⟨by rw [hzero]; rfl, Or.inl (by rw [hzero])⟩
    · cases h
      refine ⟨by rw [List.cons_append, List.takeWhile_append_dropWhile],
        Or.inr ⟨⟨?_, c, _, rfl, hzero⟩, ?_⟩⟩
      · exact List.forall_mem_cons.mpr ⟨hc, fun d hd => List.mem_takeWhile_imp hd⟩
      · intro d hd
        have hhead := List.head?_dropWhile_not isDigit t
        rw [hd] at hhead
        simpa using hhead

theorem numberSign_eq (s : List Char) : s = signText (numberSign s).1 ++ (numberSign s).2 := by
  unfold numberSign
  split <;> rfl

/-- The parts of a number fail to make one only if it is a whole one with too many digits. -/
theorem numberOf_eq_error {negative : Bool} {whole fraction : List Char} {exponent : Option Int}
    {e : Fault} (h : numberOf negative whole fraction exponent = .error e) :
    e = .hugeInteger ∧ fraction = [] ∧ exponent = none ∧ maxIntegerDigits < whole.length := by
  unfold numberOf at h
  split_ifs at h with hparts hmany
  exact ⟨(Except.error.inj h).symm, List.isEmpty_iff.mp hparts.1,
    Option.isNone_iff_eq_none.mp hparts.2, hmany⟩

theorem scanNumber_eq_hugeInteger_iff {s : List Char} :
    scanNumber s = .error .hugeInteger ↔ BeginsOversized s := by
  constructor
  · intro h
    rw [scanNumber_eq] at h
    split at h
    · cases h
    · next whole after hwhole =>
      cases hof : numberOf (numberSign s).1 whole (scanFraction after).1
          (scanExponent (scanFraction after).2).1 with
      | ok x =>
        rw [hof] at h
        cases h
      | error e =>
        obtain ⟨_, hfraction, hexponent, hmany⟩ := numberOf_eq_error hof
        have hnot : ¬BeginsFraction after := fun hb => scanFraction_ne_nil hb hfraction
        rw [scanFraction_of_not hnot] at hexponent
        obtain ⟨hsplit, rfl | ⟨hdigits, hafter⟩⟩ := scanWhole_eq_some hwhole
        · exact absurd hmany (by decide)
        · refine ⟨(numberSign s).1, whole, after, ?_, hdigits, hmany, hafter, hnot,
            fun hb => scanExponent_ne_none hb hexponent⟩
          rw [← hsplit]
          exact numberSign_eq s
  · rintro ⟨negative, digits, after, rfl, hdigits, hmany, hafter, hfraction, hexponent⟩
    rw [scanNumber_signed negative (Or.inr hdigits) hafter rfl, scanFraction_of_not hfraction]
    dsimp only
    rw [scanExponent_of_not hexponent, if_pos ⟨rfl, rfl⟩, if_pos hmany]

theorem scanNumber_eq_error {s : List Char} {e : Fault} (h : scanNumber s = .error e) :
    e = .malformed .expectingValue s.length ∨ e = .hugeInteger := by
  rw [scanNumber_eq] at h
  split at h
  · exact Or.inl (Except.error.inj h).symm
  · next whole after hwhole =>
    cases hof : numberOf (numberSign s).1 whole (scanFraction after).1
        (scanExponent (scanFraction after).2).1 with
    | ok x =>
      rw [hof] at h
      cases h
    | error e' =>
      rw [hof] at h
      cases h
      exact Or.inr (numberOf_eq_error hof).1

/-! ## Faults where a value should begin -/

/-- The text ends where a value should begin. -/
def wanting : Fault := .malformed .expectingValue 0

/-- A fault that is met where a value begins: there is none, or it is a number with too many
digits. -/
def AtValue (e : Fault) : Prop := e = wanting ∨ e = .hugeInteger

theorem fault_ne_error {α : Type} {reason : Reason} (hreason : reason ≠ .expectingValue)
    {s : List Char} {e : Fault} (he : AtValue e) :
    (fault reason s : Except Fault α) ≠ .error e := by
  intro h
  obtain rfl := Except.error.inj h
  rcases he with he | he
  · exact hreason (Fault.malformed.inj he).1
  · cases he

/-- A string has faults of its own alone. -/
theorem scanString_ne_error {whole s : List Char} {read : List Nat} {e : Fault} (he : AtValue e) :
    scanString whole read s ≠ .error e := by
  fun_induction scanString whole read s with
  | case1 => exact fault_ne_error (by decide) he
  | case2 =>
    intro h
    cases h
  | case3 => exact fault_ne_error (by decide) he
  | case4 => exact fault_ne_error (by decide) he
  | case5 _ _ _ _ _ _ _ ih => exact ih
  | case6 _ _ _ _ _ _ _ ih => exact ih
  | case7 => exact fault_ne_error (by decide) he
  | case8 => exact fault_ne_error (by decide) he
  | case9 _ _ _ _ _ _ ih => exact ih

theorem parseItems_eq_error {fuel : Nat} {read : List Json} {s : List Char} {e : Fault}
    (he : AtValue e) (h : parseItems (fuel + 1) read s = .error e) :
    parseValue fuel s = .error e ∨
      ∃ x after t, parseValue fuel s = .ok (x, after) ∧ skipSpace after = ',' :: t ∧
        parseItems fuel (x :: read) (skipSpace t) = .error e := by
  rw [parseItems.eq_def] at h
  dsimp only at h
  cases hvalue : parseValue fuel s with
  | error e' =>
    rw [hvalue] at h
    exact Or.inl h
  | ok found =>
    rw [hvalue] at h
    dsimp only [bind, Except.bind] at h
    split at h
    · cases h
    · next hcomma => exact Or.inr ⟨_, _, _, rfl, hcomma, h⟩
    · exact absurd h (fault_ne_error (by decide) he)

theorem parseMembers_eq_error {fuel : Nat} {read : Fields} {s : List Char} {e : Fault}
    (he : AtValue e) (h : parseMembers (fuel + 1) read s = .error e) :
    ∃ t name u v, s = Text.doubleQuote :: t ∧ scanString s [] t = .ok (name, u) ∧
      skipSpace u = ':' :: v ∧ (parseValue fuel (skipSpace v) = .error e ∨
        ∃ x after w, parseValue fuel (skipSpace v) = .ok (x, after) ∧ skipSpace after = ',' :: w ∧
          parseMembers fuel (put name x read) (skipSpace w) = .error e) := by
  cases s with
  | nil => exact absurd h (fault_ne_error (by decide) he)
  | cons c t =>
    rw [parseMembers.eq_def] at h
    dsimp only at h
    split_ifs at h with hc
    · cases hname : scanString (c :: t) [] t with
      | error e' =>
        rw [hname] at h
        cases h
        exact absurd hname (scanString_ne_error he)
      | ok found =>
        obtain ⟨name, u⟩ := found
        rw [hname] at h
        dsimp only [bind, Except.bind] at h
        split at h
        · next v hcolon =>
          refine ⟨t, name, u, v, by rw [hc]; rfl, hname, hcolon, ?_⟩
          cases hvalue : parseValue fuel (skipSpace v) with
          | error e' =>
            rw [hvalue] at h
            exact Or.inl h
          | ok found =>
            rw [hvalue] at h
            dsimp only at h
            split at h
            · cases h
            · next hcomma => exact Or.inr ⟨_, _, _, rfl, hcomma, h⟩
            · exact absurd h (fault_ne_error (by decide) he)
        · exact absurd h (fault_ne_error (by decide) he)
    · exact absurd h (fault_ne_error (by decide) he)

/-- Where a value fails to begin: at its own first character, or further inside. -/
theorem parseValue_eq_error {fuel : Nat} {s : List Char} {e : Fault} (he : AtValue e)
    (h : parseValue (fuel + 1) s = .error e) :
    (s = [] ∧ e = wanting) ∨ (scanNumber s = .error .hugeInteger ∧ e = .hugeInteger) ∨
    (∃ t, s = '[' :: t ∧ (skipSpace t).head? ≠ some ']' ∧
      parseItems fuel [] (skipSpace t) = .error e) ∨
    (∃ t, s = '\x7b' :: t ∧ (skipSpace t).head? ≠ some '\x7d' ∧
      parseMembers fuel [] (skipSpace t) = .error e) := by
  cases s with
  | nil => exact Or.inl ⟨rfl, (Except.error.inj h).symm⟩
  | cons c t =>
    rw [parseValue.eq_def] at h
    dsimp only at h
    split_ifs at h with hquote hbracket hbrace
    · cases hstring : scanString (c :: t) [] t with
      | error e' =>
        rw [hstring] at h
        cases h
        exact absurd hstring (scanString_ne_error he)
      | ok found =>
        rw [hstring] at h
        cases h
    · split at h
      · cases h
      · next hne =>
        refine Or.inr (Or.inr (Or.inl ⟨t, by rw [hbracket], fun hhead => ?_, h⟩))
        obtain ⟨u, hu⟩ := List.head?_eq_some_iff.mp hhead
        exact hne u hu
    · split at h
      · cases h
      · next hne =>
        refine Or.inr (Or.inr (Or.inr ⟨t, by rw [hbrace], fun hhead => ?_, h⟩))
        obtain ⟨u, hu⟩ := List.head?_eq_some_iff.mp hhead
        exact hne u hu
    · split at h
      · cases h
      · rcases he with rfl | rfl
        · -- where no number begins, the text still goes on
          rcases scanNumber_eq_error h with hlength | hhuge
          · cases hlength
          · cases hhuge
        · exact Or.inr (Or.inl ⟨h, rfl⟩)

theorem parseItems_error {fuel : Nat} {read : List Json} {s : List Char} {e : Fault}
    (h : parseValue fuel s = .error e) : parseItems (fuel + 1) read s = .error e := by
  rw [parseItems.eq_def]
  dsimp only
  rw [h]
  rfl

theorem parseMembers_error {fuel : Nat} {read : Fields} {name : Str} {s t u : List Char} {e : Fault}
    (hname : scanString (Text.doubleQuote :: s) [] s = .ok (name, t))
    (hcolon : skipSpace t = ':' :: u) (hvalue : parseValue fuel (skipSpace u) = .error e) :
    parseMembers (fuel + 1) read (Text.doubleQuote :: s) = .error e := by
  have hquote : Text.doubleQuote = Char.ofNat 34 := rfl
  rw [parseMembers.eq_def]
  dsimp only
  rw [if_pos hquote, hname]
  dsimp only [bind, Except.bind]
  rw [hcolon]
  split
  · next rest heq =>
    cases heq
    rw [hvalue]
  · next hne => exact absurd rfl (hne _)

/-- What is left of a text where a value should begin, and the fault that is met there. -/
inductive FaultAt : List Char → Fault → Prop
  | wanting : FaultAt [] wanting
  | oversized {s : List Char} : scanNumber s = .error .hugeInteger → FaultAt s .hugeInteger

variable {s : List Char} {e : Fault}

theorem FaultAt.atValue (h : FaultAt s e) : AtValue e := by
  cases h with
  | wanting => exact Or.inl rfl
  | oversized => exact Or.inr rfl

/-- A number with too many digits is what begins there, if anything does. -/
theorem FaultAt.head (h : FaultAt s e) : ∀ c, s.head? = some c → isDigit c = true ∨ c = '-' := by
  intro c hc
  cases h with
  | wanting => cases hc
  | oversized hs =>
    obtain ⟨d, t, hd, rfl | rfl⟩ := begins_of_scanNumber (by rw [hs]; nofun)
    · cases hc
      exact Or.inl hd
    · cases hc
      exact Or.inr rfl

theorem FaultAt.skipSpace (h : FaultAt s e) : skipSpace s = s := by
  cases s with
  | nil => rfl
  | cons c t =>
    refine List.dropWhile_cons_of_neg fun hspace => ?_
    have hhead := h.head c rfl
    simp only [isSpace, Bool.or_eq_true, beq_iff_eq, or_assoc] at hspace
    rcases hspace with rfl | rfl | rfl | rfl <;> revert hhead <;> decide

theorem FaultAt.parseValue (h : FaultAt s e) (fuel : Nat) : parseValue (fuel + 1) s = .error e := by
  cases h with
  | wanting => rfl
  | oversized hs => rw [parseValue_scanNumber (by rw [hs]; nofun), hs]

/-- The closing bracket that did not come next does not come next in front of such a fault. -/
theorem FaultAt.head?_append {q t n : List Char} {c : Char} (h : FaultAt s e)
    (hc : ¬(isDigit c = true ∨ c = '-')) (ht : t.head? ≠ some c) (hq : t = q ++ n) :
    (q ++ s).head? ≠ some c := by
  cases q with
  | nil => exact fun hs => hc (h.head c hs)
  | cons d q =>
    rw [hq] at ht
    exact ht

/-- A fault where a value should begin is met at a place in the text, and whatever fault is put in
that place is met instead. -/
structure Located (fuel : Nat) : Prop where
  value : ∀ {s : List Char} {e : Fault}, 2 * s.length < fuel → AtValue e →
    parseValue fuel s = .error e → ∃ q n, s = q ++ n ∧ FaultAt n e ∧
      ∀ m e', FaultAt m e' → parseValue fuel (q ++ m) = .error e'
  items : ∀ {read : List Json} {s : List Char} {e : Fault}, 2 * s.length + 1 < fuel → AtValue e →
    parseItems fuel read s = .error e → ∃ q n, s = q ++ n ∧ FaultAt n e ∧
      ∀ m e', FaultAt m e' → parseItems fuel read (q ++ m) = .error e'
  members : ∀ {read : Fields} {s : List Char} {e : Fault}, 2 * s.length + 1 < fuel → AtValue e →
    parseMembers fuel read s = .error e → ∃ q n, s = q ++ n ∧ FaultAt n e ∧
      ∀ m e', FaultAt m e' → parseMembers fuel read (q ++ m) = .error e'

theorem Located.value_succ {fuel : Nat} (h : Located fuel) (hs : 2 * s.length < fuel + 1)
    (he : AtValue e) (hread : parseValue (fuel + 1) s = .error e) :
    ∃ q n, s = q ++ n ∧ FaultAt n e ∧
      ∀ m e', FaultAt m e' → parseValue (fuel + 1) (q ++ m) = .error e' := by
  rcases parseValue_eq_error he hread with ⟨rfl, rfl⟩ | ⟨hnumber, rfl⟩ | ⟨t, rfl, hhead, hitems⟩ |
    ⟨t, rfl, hhead, hmembers⟩
  · exact ⟨[], [], rfl, .wanting, fun m e' hm => hm.parseValue fuel⟩
  · exact ⟨[], s, rfl, .oversized hnumber, fun m e' hm => hm.parseValue fuel⟩
  · have ht := length_skipSpace_le t
    rw [List.length_cons] at hs
    obtain ⟨q, n, hsplit, hn, hagain⟩ := h.items (by omega) he hitems
    obtain ⟨p, rfl, hskip⟩ := exists_of_skipSpace_append hsplit
    refine ⟨'[' :: p, n, rfl, hn, fun m e' hm => ?_⟩
    have hm' := hskip m (Or.inr hm.skipSpace)
    have hhead' := hm.head?_append (by decide) hhead hsplit
    rw [← hm'] at hhead'
    rw [List.cons_append, parseValue_arr hhead', hm', hagain m e' hm]
  · have ht := length_skipSpace_le t
    rw [List.length_cons] at hs
    obtain ⟨q, n, hsplit, hn, hagain⟩ := h.members (by omega) he hmembers
    obtain ⟨p, rfl, hskip⟩ := exists_of_skipSpace_append hsplit
    refine ⟨'\x7b' :: p, n, rfl, hn, fun m e' hm => ?_⟩
    have hm' := hskip m (Or.inr hm.skipSpace)
    have hhead' := hm.head?_append (by decide) hhead hsplit
    rw [← hm'] at hhead'
    rw [List.cons_append, parseValue_obj hhead', hm', hagain m e' hm]

theorem Located.items_succ {fuel : Nat} (h : Located fuel) {read : List Json}
    (hs : 2 * s.length + 1 < fuel + 1) (he : AtValue e)
    (hread : parseItems (fuel + 1) read s = .error e) :
    ∃ q n, s = q ++ n ∧ FaultAt n e ∧
      ∀ m e', FaultAt m e' → parseItems (fuel + 1) read (q ++ m) = .error e' := by
  rcases parseItems_eq_error he hread with hvalue | ⟨x, after, t, hvalue, hcomma, hmore⟩
  · obtain ⟨q, n, hsplit, hn, hagain⟩ := h.value (by omega) he hvalue
    exact ⟨q, n, hsplit, hn, fun m e' hm => parseItems_error (hagain m e' hm)⟩
  · have hless := length_of_mark hvalue hcomma (by decide)
    obtain ⟨q, hq, rfl, hagain⟩ := (local_all fuel).mark hvalue hcomma (by decide)
    obtain ⟨q', n, hsplit, hn, hmore'⟩ := h.items (by omega) he hmore
    obtain ⟨p, rfl, hskip⟩ := exists_of_skipSpace_append hsplit
    refine ⟨q ++ ',' :: p, n, by simp, hn, fun m e' hm => ?_⟩
    obtain ⟨after', hvalue', hcomma'⟩ := hagain (p ++ m)
    rw [List.append_assoc]
    refine (parseItems_more hvalue' hcomma').trans ?_
    rw [hskip m (Or.inr hm.skipSpace), hmore' m e' hm]

theorem Located.members_succ {fuel : Nat} (h : Located fuel) {read : Fields}
    (hs : 2 * s.length + 1 < fuel + 1) (he : AtValue e)
    (hread : parseMembers (fuel + 1) read s = .error e) :
    ∃ q n, s = q ++ n ∧ FaultAt n e ∧
      ∀ m e', FaultAt m e' → parseMembers (fuel + 1) read (q ++ m) = .error e' := by
  obtain ⟨t, name, u, v, rfl, hname, hcolon, hend⟩ := parseMembers_eq_error he hread
  obtain ⟨r, rfl, hname'⟩ := prefix_of_scanString hname
  obtain ⟨gap, rfl, hgap⟩ := exists_of_mark hcolon
  have hv := length_skipSpace_le v
  simp only [List.length_cons, List.length_append] at hs
  rcases hend with hvalue | ⟨x, after, w, hvalue, hcomma, hmore⟩
  · obtain ⟨q, n, hsplit, hn, hagain⟩ := h.value (by omega) he hvalue
    obtain ⟨p, rfl, hskip⟩ := exists_of_skipSpace_append hsplit
    refine ⟨Text.doubleQuote :: (r ++ Text.doubleQuote :: (gap ++ ':' :: p)), n, by simp, hn,
      fun m e' hm => ?_⟩
    have hvalue' := hagain m e' hm
    rw [← hskip m (Or.inr hm.skipSpace)] at hvalue'
    simpa using parseMembers_error (hname' _ _) (hgap _) hvalue'
  · have hless := length_of_mark hvalue hcomma (by decide)
    obtain ⟨q, hq, hsplit, hagain⟩ := (local_all fuel).mark hvalue hcomma (by decide)
    obtain ⟨p, rfl, hskip⟩ := exists_of_skipSpace_append hsplit
    obtain ⟨q', n, hsplit', hn, hmore'⟩ := h.members (by omega) he hmore
    obtain ⟨p', rfl, hskip'⟩ := exists_of_skipSpace_append hsplit'
    refine ⟨Text.doubleQuote :: (r ++ Text.doubleQuote :: (gap ++ ':' :: (p ++ ',' :: p'))), n,
      by simp, hn, fun m e' hm => ?_⟩
    obtain ⟨after', hvalue', hcomma'⟩ := hagain (p' ++ m)
    rw [← hskip _ (Or.inl hq)] at hvalue'
    have hstep : parseMembers (fuel + 1) read _ = _ :=
      parseMembers_step (hname' _ _) (hgap _) hvalue'
    rw [hcomma'] at hstep
    have hnext : _ = parseMembers fuel (put name x read) (skipSpace (p' ++ m)) := hstep
    rw [hskip' m (Or.inr hm.skipSpace), hmore' m e' hm] at hnext
    simpa using hnext

theorem located_all (fuel : Nat) : Located fuel := by
  induction fuel with
  | zero =>
    exact ⟨fun h => absurd h (Nat.not_lt_zero _), fun h => absurd h (Nat.not_lt_zero _),
      fun h => absurd h (Nat.not_lt_zero _)⟩
  | succ fuel ih => exact ⟨ih.value_succ, ih.items_succ, ih.members_succ⟩

/-! ## Whole texts -/

/-- A text that has a whole number with too many digits where a value should begin: what comes
before the number is read up to its end and found to want a value. -/
def MeetsOversized (s : List Char) : Prop :=
  ∃ before after, s = before ++ after ∧ BeginsOversized after ∧
    parseChars before = .error (.malformed .expectingValue 0)

/-- A fault where a value should begin is one of the value that the text is. -/
theorem parseChars_eq_error_iff (he : AtValue e) : parseChars s = .error e ↔
    s.head? ≠ some '\uFEFF' ∧ parseValue (2 * s.length + 2) (skipSpace s) = .error e := by
  unfold parseChars
  split
  · next t =>
    constructor
    · exact fun h => absurd h (fault_ne_error (by decide) he)
    · exact fun h => absurd rfl h.1
  · next hmark =>
    have hhead : s.head? ≠ some '\uFEFF' := by
      intro h
      obtain ⟨t, ht⟩ := List.head?_eq_some_iff.mp h
      exact hmark t ht
    cases hvalue : parseValue (2 * s.length + 2) (skipSpace s) with
    | error e' =>
      constructor
      · intro h
        cases h
        exact ⟨hhead, rfl⟩
      · rintro ⟨_, h⟩
        cases h
        rfl
    | ok found =>
      constructor
      · intro h
        dsimp only [bind, Except.bind] at h
        split at h
        · cases h
        · exact absurd h (fault_ne_error (by decide) he)
      · rintro ⟨_, h⟩
        cases h

/-- A fault where a value should begin is met at a place in the text, and another fault that is put
in that place is met instead. -/
theorem parseChars_located (he : AtValue e) (h : parseChars s = .error e) {m : List Char}
    {e' : Fault} (hm : FaultAt m e') :
    ∃ before n, s = before ++ n ∧ FaultAt n e ∧ parseChars (before ++ m) = .error e' := by
  obtain ⟨hhead, hvalue⟩ := (parseChars_eq_error_iff he).mp h
  -- fuel for both texts
  have hlength := length_skipSpace_le s
  have hfuel : 2 * s.length + 2 ≤ 2 * (s.length + m.length) + 2 := by omega
  rw [← parseValue_fuel (by omega) hfuel] at hvalue
  obtain ⟨q, n, hsplit, hn, hagain⟩ := (located_all _).value (by omega) he hvalue
  obtain ⟨p, rfl, hskip⟩ := exists_of_skipSpace_append hsplit
  refine ⟨p, n, rfl, hn, (parseChars_eq_error_iff hm.atValue).mpr ⟨?_, ?_⟩⟩
  · exact hm.head?_append (by decide) hhead rfl
  · have hlength' := length_skipSpace_le (p ++ m)
    have hfuel' : 2 * (p ++ m).length + 2 ≤ 2 * ((p ++ n).length + m.length) + 2 := by
      simp only [List.length_append]
      omega
    rw [← parseValue_fuel (by omega) hfuel', hskip m (Or.inr hm.skipSpace)]
    exact hagain m e' hm

/-- A text is refused for a number with too many digits exactly if it meets one. -/
theorem parseChars_eq_hugeInteger_iff {s : List Char} :
    parseChars s = .error .hugeInteger ↔ MeetsOversized s := by
  constructor
  · intro h
    obtain ⟨before, n, rfl, hn, hbefore⟩ := parseChars_located (Or.inr rfl) h .wanting
    rw [List.append_nil] at hbefore
    cases hn with
    | oversized hnumber =>
      exact ⟨before, n, rfl, scanNumber_eq_hugeInteger_iff.mp hnumber, hbefore⟩
  · rintro ⟨before, after, rfl, hafter, hbefore⟩
    have hnumber := FaultAt.oversized (scanNumber_eq_hugeInteger_iff.mpr hafter)
    obtain ⟨q, n, hsplit, hn, hread⟩ := parseChars_located (Or.inl rfl) hbefore hnumber
    cases hn with
    | wanting =>
      rw [hsplit, List.append_nil]
      exact hread

theorem parse_eq_hugeInteger_iff (text : String) :
    parse text = .error .hugeInteger ↔ MeetsOversized text.toList := by
  rw [← parseChars_eq_hugeInteger_iff, parse]
  cases parseChars text.toList with
  | ok x => simp [Except.mapError]
  | error fault => cases fault <;> simp [Except.mapError, Fault.locate]

end EventCodegen.Json
