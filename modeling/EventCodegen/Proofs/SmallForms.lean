import Mathlib.Data.Nat.Bitwise
import EventCodegen.Text.Case

/-! A text in small letters stays as it is. The case tables lead to letters that they do not move on
(`moved_apart_reached`), and a sigma that ends a word is no capital any more, so the small form of a
small form is that form (`lower_lower`). Names that are compared by their small forms can therefore
be kept in that form. -/
namespace EventCodegen.Text

/-- A character that is its own small form. -/
def IsSmall (c : Char) : Prop := lowerChar c = [c]

instance (c : Char) : Decidable (IsSmall c) := inferInstanceAs (Decidable (lowerChar c = [c]))

theorem IsSmall.ne_capitalSigma {c : Char} (h : IsSmall c) : c ≠ capitalSigma := by
  rintro rfl
  exact absurd h (by decide)

/-! ## Code points of the tables -/

/-- The code points that a run moves. -/
def CaseRun.sources (r : CaseRun) : List Nat :=
  (List.range ((r.last - r.first) / r.stride + 1)).map fun k => r.first + r.stride * k

/-- The code points that a run leads to. -/
def CaseRun.targets (r : CaseRun) : List Nat := r.sources.map fun n : Nat => (n + r.shift).toNat

/-- A code point is moved by a run that has it among its sources, or stays. -/
theorem shiftIn_cases (n : Nat) : ∀ runs : List CaseRun, shiftIn n runs = n ∨
    ∃ r ∈ runs, n ∈ r.sources ∧ shiftIn n runs = (n + r.shift).toNat
  | [] => Or.inl rfl
  | r :: rest => by
    rw [shiftIn]
    split
    · exact Or.inl rfl
    · split
      · next hrun =>
        refine Or.inr ⟨r, List.mem_cons_self, ?_, rfl⟩
        refine List.mem_map.mpr ⟨(n - r.first) / r.stride, ?_, ?_⟩
        · have hle : (n - r.first) / r.stride ≤ (r.last - r.first) / r.stride :=
            Nat.div_le_div_right (by omega)
          exact List.mem_range.mpr (by omega)
        · rw [Nat.mul_div_cancel' (Nat.dvd_of_mod_eq_zero hrun.2)]
          omega
      · rcases shiftIn_cases n rest with h | ⟨r', hr', h⟩
        · exact Or.inl h
        · exact Or.inr ⟨r', List.mem_cons_of_mem r hr', h⟩

/-- What a code point is mapped to is the point itself, or it stands in the tables. -/
theorem mem_mapped {expansions : List (Nat × List Nat)} {runs : List CaseRun} {n m : Nat}
    (h : m ∈ mapped expansions runs n) :
    m = n ∨ (∃ r ∈ runs, m ∈ r.targets) ∨ ∃ e ∈ expansions, m ∈ e.2 := by
  rw [mapped] at h
  cases hlookup : expansions.lookup n with
  | some points =>
    obtain ⟨before, after, heq, _⟩ := List.lookup_eq_some_iff.mp hlookup
    have hmem : (n, points) ∈ expansions := by
      rw [heq]
      simp
    rw [hlookup] at h
    exact Or.inr (Or.inr ⟨_, hmem, h⟩)
  | none =>
    rw [hlookup, Option.getD_none, List.mem_singleton] at h
    rcases shiftIn_cases n runs with hsame | ⟨r, hr, hsource, hshift⟩
    · exact Or.inl (h.trans hsame)
    · refine Or.inr (Or.inl ⟨r, hr, ?_⟩)
      rw [h, hshift]
      exact List.mem_map.mpr ⟨n, hsource, rfl⟩

/-- The code points that have another small form. -/
def movedPoints : List Nat := lowerRuns.flatMap CaseRun.sources ++ lowerExpansions.map (·.1)

/-- The code points in these small forms. -/
def reachedPoints : List Nat := lowerRuns.flatMap CaseRun.targets ++ lowerExpansions.flatMap (·.2)

/-- Numbers as the bits of one number: large sets are compared at once. -/
def bits (numbers : List Nat) : Nat := numbers.foldr (fun n set => 1 <<< n ||| set) 0

theorem testBit_bits {n : Nat} : ∀ numbers : List Nat,
    (bits numbers).testBit n = decide (n ∈ numbers)
  | [] => by simp [bits]
  | m :: rest => by
    show (1 <<< m ||| bits rest).testBit n = _
    rw [Nat.testBit_or, testBit_bits rest, Nat.one_shiftLeft, Nat.testBit_two_pow]
    simp [eq_comm]

theorem moved_apart_reached : bits movedPoints &&& bits reachedPoints = 0 := by decide +kernel

theorem not_mem_movedPoints {n : Nat} (h : n ∈ reachedPoints) : n ∉ movedPoints := by
  intro hmoved
  have hbit : (bits movedPoints &&& bits reachedPoints).testBit n = true := by
    rw [Nat.testBit_and, testBit_bits, testBit_bits, decide_eq_true h, decide_eq_true hmoved]
    rfl
  rw [moved_apart_reached, Nat.zero_testBit] at hbit
  cases hbit

/-- The table takes a code point to reached ones, or leaves it alone. -/
theorem mapped_cases (n : Nat) : mapped lowerExpansions lowerRuns n = [n] ∨
    ∀ m ∈ mapped lowerExpansions lowerRuns n, m ∈ reachedPoints := by
  rw [mapped]
  cases hlookup : lowerExpansions.lookup n with
  | some points =>
    obtain ⟨before, after, heq, _⟩ := List.lookup_eq_some_iff.mp hlookup
    have hmem : (n, points) ∈ lowerExpansions := by
      rw [heq]
      simp
    exact Or.inr fun m hm => List.mem_append_right _ (List.mem_flatMap.mpr ⟨_, hmem, hm⟩)
  | none =>
    rw [Option.getD_none]
    rcases shiftIn_cases n lowerRuns with hsame | ⟨r, hr, hsource, hshift⟩
    · exact Or.inl (by rw [hsame])
    · refine Or.inr fun m hm => List.mem_append_left _ (List.mem_flatMap.mpr ⟨r, hr, ?_⟩)
      rw [List.mem_singleton.mp hm, hshift]
      exact List.mem_map.mpr ⟨n, hsource, rfl⟩

/-- The table leaves alone what is not among its moved points. -/
theorem mapped_of_not_moved {n : Nat} (h : n ∉ movedPoints) :
    mapped lowerExpansions lowerRuns n = [n] := by
  have hlookup : lowerExpansions.lookup n = none := by
    rw [List.lookup_eq_none_iff]
    intro e he
    rw [bne_iff_ne]
    exact fun heq => h (List.mem_append_right _ (List.mem_map.mpr ⟨e, he, heq.symm⟩))
  have hshift : shiftIn n lowerRuns = n := by
    rcases shiftIn_cases n lowerRuns with hsame | ⟨r, hr, hsource, _⟩
    · exact hsame
    · exact absurd (List.mem_append_left _ (List.mem_flatMap.mpr ⟨r, hr, hsource⟩)) h
  rw [mapped, hlookup, hshift, Option.getD_none]

/-! ## Characters -/

/-- A character that the table leaves alone is small, unless it is a capital of ASCII, for which the
table is not asked. -/
theorem isSmall_of_mapped {c : Char} (hascii : ¬c.toNat < 0x80)
    (h : mapped lowerExpansions lowerRuns c.toNat = [c.toNat]) : IsSmall c := by
  rw [IsSmall, lowerChar, if_neg hascii, h, List.map_singleton, Char.ofNat_toNat]

/-- The letters of ASCII stand in the table as well, so what is reached there is small. -/
theorem isSmall_ascii : ∀ n < 0x80,
    (mapped lowerExpansions lowerRuns n = [n] → IsSmall (Char.ofNat n)) ∧
    (lowerChar (Char.ofNat n)).all (fun d => decide (IsSmall d)) = true := by
  decide

theorem isSmall_of_reached {n : Nat} (h : n ∈ reachedPoints) : IsSmall (Char.ofNat n) := by
  have hfixed := mapped_of_not_moved (not_mem_movedPoints h)
  by_cases hascii : n < 0x80
  · exact (isSmall_ascii n hascii).1 hfixed
  · by_cases hvalid : n.isValidChar
    · have hn : (Char.ofNat n).toNat = n := by
        rw [Char.ofNat, dif_pos hvalid]
        rfl
      exact isSmall_of_mapped (by rwa [hn]) (by rwa [hn])
    · have hzero : Char.ofNat n = Char.ofNat 0 := by
        rw [Char.ofNat, dif_neg hvalid]
        rfl
      rw [hzero]
      decide

/-- The small form of a character is made of small characters. -/
theorem isSmall_of_mem_lowerChar {c d : Char} (h : d ∈ lowerChar c) : IsSmall d := by
  by_cases hascii : c.toNat < 0x80
  · rw [← Char.ofNat_toNat c] at h
    exact of_decide_eq_true (List.all_eq_true.mp (isSmall_ascii c.toNat hascii).2 d h)
  · rw [lowerChar, if_neg hascii] at h
    rcases mapped_cases c.toNat with hsame | hreached
    · rw [hsame, List.map_singleton, List.mem_singleton, Char.ofNat_toNat] at h
      rw [h]
      exact isSmall_of_mapped hascii hsame
    · obtain ⟨n, hn, rfl⟩ := List.mem_map.mp h
      exact isSmall_of_reached (hreached n hn)

/-! ## Texts -/

theorem isSmall_of_mem_lowerFrom {d : Char} : ∀ (s : List Char) (inWord : Bool),
    d ∈ lowerFrom inWord s → IsSmall d
  | [], _, h => by cases h
  | c :: rest, inWord, h => by
    rw [lowerFrom] at h
    split at h
    · rcases List.mem_cons.mp h with rfl | h
      · decide
      · exact isSmall_of_mem_lowerFrom rest _ h
    · rcases List.mem_append.mp h with h | h
      · exact isSmall_of_mem_lowerChar h
      · exact isSmall_of_mem_lowerFrom rest _ h

theorem lowerFrom_of_isSmall : ∀ (s : List Char) (inWord : Bool), (∀ c ∈ s, IsSmall c) →
    lowerFrom inWord s = s
  | [], _, _ => rfl
  | c :: rest, inWord, h => by
    have hc := h c List.mem_cons_self
    have hrest := lowerFrom_of_isSmall rest (if isCaseIgnorable c then inWord else isCased c)
      fun d hd => h d (List.mem_cons_of_mem c hd)
    rw [lowerFrom, if_neg (fun hsigma => hc.ne_capitalSigma hsigma.1), hc, hrest]
    rfl

/-- A text in small letters stays as it is. -/
@[simp] theorem lower_lower (s : String) : lower (lower s) = lower s := by
  apply String.toList_injective
  rw [toList_lower (lower s)]
  refine lowerFrom_of_isSmall _ false fun c hc => ?_
  rw [toList_lower] at hc
  exact isSmall_of_mem_lowerFrom s.toList false hc

end EventCodegen.Text
