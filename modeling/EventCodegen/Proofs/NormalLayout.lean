import EventCodegen.Proofs.LaidOutLines

/-! Laying out a text with steps of four spaces gives a normal form. A text is seen as its lines
that are not blank, each with the number of blank lines right before it (`spaced`), and written back
from that (`spread`). In this view the layout trims every line, leaves at most two blank lines
before it and none before the first (`settle`), and does nothing else (`format_eq`). What holds of a
laid-out text is then read off the settled lines, and laying it out again changes nothing because
settled lines are settled (`settle_settle`). -/
namespace EventCodegen.Layout

/-! ## Lines and the blank ones before them -/

/-- Whether nothing but white space stands on a line. -/
def isBlankLine (l : List Char) : Bool := (Text.trimRight l).isEmpty

/-- The lines that are not blank, each with the number of blank lines right before it; `before`
blank lines stand before the first line. -/
def spaced (before : Nat) : List (List Char) → List (Nat × List Char)
  | [] => []
  | l :: rest => if isBlankLine l then spaced (before + 1) rest else (before, l) :: spaced 0 rest

/-- Lines after the numbers of empty lines that belong before them. -/
def spread (groups : List (Nat × List Char)) : List (List Char) :=
  groups.flatMap fun g => List.replicate g.1 [] ++ [g.2]

/-- Without empty lines before the first line. -/
def fromTop : List (Nat × List Char) → List (Nat × List Char)
  | [] => []
  | (_, l) :: rest => (0, l) :: rest

/-- Trimmed lines with at most two empty lines before each, and none before the first. -/
def settle (groups : List (Nat × List Char)) : List (Nat × List Char) :=
  fromTop (groups.map fun g => (min 2 g.1, Text.trimRight g.2))

/-- Lines that the layout has nothing to change about. -/
structure IsNormal (ls : List (List Char)) : Prop where
  unbroken : ∀ l ∈ ls, '\n' ∉ l
  trimmed : ∀ l ∈ ls, Text.trimRight l = l
  opens : ∀ l ∈ ls.head?, isBlankLine l = false
  closes : ∀ l ∈ ls.getLast?, isBlankLine l = false
  sparse : ∀ x y z, [x, y, z] <:+: ls →
    ¬(isBlankLine x = true ∧ isBlankLine y = true ∧ isBlankLine z = true)

@[simp] theorem isBlankLine_nil : isBlankLine [] = true := rfl

@[simp] theorem isBlankLine_trimRight (l : List Char) :
    isBlankLine (Text.trimRight l) = isBlankLine l := by
  rw [isBlankLine, Text.trimRight_trimRight, isBlankLine]

/-- Of trimmed lines only the empty one is blank. -/
theorem isBlankLine_eq_isEmpty {l : List Char} (h : Text.trimRight l = l) :
    isBlankLine l = l.isEmpty := by
  rw [isBlankLine, h]

theorem isBlankLine_of_mem_spaced {before : Nat} {ls : List (List Char)} {g : Nat × List Char}
    (h : g ∈ spaced before ls) : isBlankLine g.2 = false := by
  induction ls generalizing before with
  | nil => cases h
  | cons l rest ih =>
    rw [spaced] at h
    split at h
    · exact ih h
    · next hl =>
      rcases List.mem_cons.mp h with rfl | h
      · exact Bool.eq_false_iff.mpr hl
      · exact ih h

theorem mem_of_mem_spaced {before : Nat} {ls : List (List Char)} {g : Nat × List Char}
    (h : g ∈ spaced before ls) : g.2 ∈ ls := by
  induction ls generalizing before with
  | nil => cases h
  | cons l rest ih =>
    rw [spaced] at h
    split at h
    · exact List.mem_cons_of_mem l (ih h)
    · rcases List.mem_cons.mp h with rfl | h
      · exact List.mem_cons_self
      · exact List.mem_cons_of_mem l (ih h)

/-- The lines that are not blank, in order. -/
theorem map_snd_spaced (before : Nat) (ls : List (List Char)) :
    (spaced before ls).map Prod.snd = ls.filter (!isBlankLine ·) := by
  induction ls generalizing before with
  | nil => rfl
  | cons l rest ih =>
    rw [spaced]
    by_cases hl : isBlankLine l = true <;> simp [hl, ih]

theorem spaced_map_trimRight (before : Nat) (ls : List (List Char)) :
    spaced before (ls.map Text.trimRight) =
      (spaced before ls).map fun g => (g.1, Text.trimRight g.2) := by
  induction ls generalizing before with
  | nil => rfl
  | cons l rest ih =>
    rw [List.map_cons, spaced, spaced, isBlankLine_trimRight, ih, ih]
    split <;> rfl

/-- Squeezing trimmed lines leaves at most two blank ones before each line. -/
theorem spaced_squeeze (before : Nat) {ls : List (List Char)}
    (h : ∀ l ∈ ls, Text.trimRight l = l) : spaced (min 2 before) (squeeze before ls) =
      (spaced before ls).map fun g => (min 2 g.1, g.2) := by
  induction ls generalizing before with
  | nil => rfl
  | cons l rest ih =>
    obtain ⟨hl, hrest⟩ := List.forall_mem_cons.mp h
    have hblank := isBlankLine_eq_isEmpty hl
    cases l with
    | nil =>
      have hnext := ih (before + 1) hrest
      rw [squeeze, spaced, if_pos isBlankLine_nil, ← hnext]
      split
      · next hfew =>
        have hmin : min 2 before + 1 = min 2 (before + 1) := by omega
        rw [spaced, if_pos isBlankLine_nil, hmin]
      · next hmany =>
        have hmin : min 2 before = min 2 (before + 1) := by omega
        rw [hmin]
    | cons c cs =>
      have hshown : ¬isBlankLine (c :: cs) = true := by
        rw [hblank]
        exact Bool.false_ne_true
      rw [squeeze, spaced, spaced, if_neg hshown, if_neg hshown, List.map_cons, ← ih 0 hrest]
      rfl

/-- Trimmed lines can be written back, but for the empty ones at their end. -/
theorem exists_eq_spread (before : Nat) {ls : List (List Char)}
    (h : ∀ l ∈ ls, Text.trimRight l = l) :
    ∃ n, List.replicate before [] ++ ls = spread (spaced before ls) ++ List.replicate n [] := by
  induction ls generalizing before with
  | nil => exact ⟨before, List.append_nil _⟩
  | cons l rest ih =>
    obtain ⟨hl, hrest⟩ := List.forall_mem_cons.mp h
    rw [spaced]
    split
    · next hblank =>
      rw [isBlankLine_eq_isEmpty hl, List.isEmpty_iff] at hblank
      obtain ⟨n, hn⟩ := ih (before + 1) hrest
      refine ⟨n, ?_⟩
      rw [← hn, List.replicate_succ', hblank, List.append_assoc, List.singleton_append]
    · obtain ⟨n, hn⟩ := ih 0 hrest
      rw [List.replicate_zero, List.nil_append] at hn
      refine ⟨n, ?_⟩
      rw [spread, List.flatMap_cons, ← spread, List.append_assoc, ← hn, List.append_assoc,
        List.singleton_append]

theorem spaced_replicate_append (before n : Nat) (ls : List (List Char)) :
    spaced before (List.replicate n [] ++ ls) = spaced (before + n) ls := by
  induction n generalizing before with
  | zero => rfl
  | succ n ih =>
    rw [List.replicate_succ, List.cons_append, spaced, if_pos isBlankLine_nil, ih,
      Nat.add_right_comm, Nat.add_assoc]

/-- What is written back is read as it was, whatever follows. -/
theorem spaced_spread_append {groups : List (Nat × List Char)}
    (h : ∀ g ∈ groups, isBlankLine g.2 = false) (ls : List (List Char)) :
    spaced 0 (spread groups ++ ls) = groups ++ spaced 0 ls := by
  induction groups with
  | nil => rfl
  | cons g rest ih =>
    obtain ⟨hg, hrest⟩ := List.forall_mem_cons.mp h
    rw [spread, List.flatMap_cons, ← spread, List.append_assoc, List.append_assoc,
      spaced_replicate_append, Nat.zero_add, List.singleton_append, spaced, hg,
      if_neg Bool.false_ne_true, ih hrest, List.cons_append]

theorem spaced_spread {groups : List (Nat × List Char)}
    (h : ∀ g ∈ groups, isBlankLine g.2 = false) : spaced 0 (spread groups) = groups := by
  have happend := spaced_spread_append h []
  rwa [List.append_nil, spaced, List.append_nil] at happend

/-! ## The layout in this view -/

theorem rdropWhile_spread {groups : List (Nat × List Char)}
    (h : ∀ g ∈ groups, g.2.isEmpty = false) (n : Nat) :
    (spread groups ++ List.replicate n []).rdropWhile (·.isEmpty) = spread groups := by
  induction n with
  | zero =>
    rw [List.replicate_zero, List.append_nil]
    rcases List.eq_nil_or_concat' groups with rfl | ⟨init, g, rfl⟩
    · rfl
    · rw [spread, List.flatMap_append, List.flatMap_singleton, ← List.append_assoc]
      refine List.rdropWhile_concat_neg _ _ _ ?_
      rw [h g (List.mem_append_right _ List.mem_cons_self)]
      exact Bool.false_ne_true
  | succ n ih =>
    rw [List.replicate_succ', ← List.append_assoc, List.rdropWhile_concat_pos _ _ _ rfl, ih]

/-- Dropping the empty lines at both ends moves the first line to the top. -/
theorem dropOuterEmpty_spread {groups : List (Nat × List Char)}
    (h : ∀ g ∈ groups, g.2.isEmpty = false) (n : Nat) :
    Text.dropOuterEmpty (spread groups ++ List.replicate n []) = spread (fromTop groups) := by
  cases groups with
  | nil =>
    have hnone : (List.replicate n ([] : List Char)).dropWhile (·.isEmpty) = [] :=
      List.dropWhile_eq_nil_iff.mpr fun l hl => by rw [List.eq_of_mem_replicate hl]; rfl
    show ((List.replicate n []).dropWhile (·.isEmpty)).rdropWhile (·.isEmpty) = []
    rw [hnone, List.rdropWhile_nil]
  | cons g rest =>
    obtain ⟨k, l⟩ := g
    have hl : (l.isEmpty) = false := h (k, l) List.mem_cons_self
    have hfirst : (spread ((k, l) :: rest) ++ List.replicate n []).dropWhile (·.isEmpty) =
        spread ((0, l) :: rest) ++ List.replicate n [] := by
      simp [spread, List.dropWhile_append_of_pos, hl]
    rw [Text.dropOuterEmpty, hfirst, fromTop]
    exact rdropWhile_spread
      (List.forall_mem_cons.mpr ⟨hl, (List.forall_mem_cons.mp h).2⟩) n

/-- Steps of four spaces leave lines as they are. -/
theorem reindent_four (l : List Char) : reindent 4 l = l := by
  have hscaled : scaled 4 (margin l) = margin l := by
    unfold scaled
    omega
  rw [reindent_eq, hscaled, ← eq_replicate_append]

/-- A text is laid out by settling its lines. -/
theorem format_eq (s : List Char) :
    format 4 s = Text.unlines (spread (settle (spaced 0 (Text.lines s)))) ++ ['\n'] := by
  have htrimmed : ∀ l ∈ (Text.lines s).map Text.trimRight, Text.trimRight l = l :=
    List.forall_mem_map.mpr fun l _ => Text.trimRight_trimRight l
  have htidy : ∀ l ∈ tidyLines s, Text.trimRight l = l := fun l hl =>
    htrimmed l (squeeze_subset 0 _ hl)
  have hgroups : spaced 0 (tidyLines s) =
      (spaced 0 (Text.lines s)).map fun g => (min 2 g.1, Text.trimRight g.2) := by
    have hsqueeze := spaced_squeeze 0 htrimmed
    rw [spaced_map_trimRight, List.map_map] at hsqueeze
    exact hsqueeze
  have hlines : formattedLines 4 s = tidyLines s :=
    List.map_id'' reindent_four (tidyLines s)
  obtain ⟨n, hn⟩ := exists_eq_spread 0 htidy
  rw [List.replicate_zero, List.nil_append] at hn
  have hfull : ∀ g ∈ spaced 0 (tidyLines s), g.2.isEmpty = false := fun g hg => by
    rw [← isBlankLine_eq_isEmpty (htidy g.2 (mem_of_mem_spaced hg))]
    exact isBlankLine_of_mem_spaced hg
  show Text.stripChar '\n' (Text.unlines (formattedLines 4 s)) ++ ['\n'] = _
  rw [Text.stripChar_unlines fun _ => not_mem_formattedLines, hlines, hn,
    dropOuterEmpty_spread hfull, hgroups, settle]

/-! ## Settled lines -/

theorem mem_fromTop {groups : List (Nat × List Char)} {g : Nat × List Char}
    (h : g ∈ fromTop groups) : ∃ n, (n, g.2) ∈ groups ∧ g.1 ≤ n := by
  cases groups with
  | nil => cases h
  | cons first rest =>
    rcases List.mem_cons.mp h with rfl | h
    · exact ⟨first.1, List.mem_cons_self, Nat.zero_le _⟩
    · exact ⟨g.1, List.mem_cons_of_mem first h, le_rfl⟩

theorem mem_settle {groups : List (Nat × List Char)} {g : Nat × List Char} (h : g ∈ settle groups) :
    g.1 ≤ 2 ∧ ∃ k ∈ groups, g.2 = Text.trimRight k.2 := by
  obtain ⟨n, hn, hle⟩ := mem_fromTop h
  obtain ⟨k, hk, heq⟩ := List.mem_map.mp hn
  obtain ⟨rfl, hg⟩ := Prod.mk.inj heq
  exact ⟨hle.trans (min_le_left 2 k.1), k, hk, hg.symm⟩

theorem isBlankLine_of_mem_settle {groups : List (Nat × List Char)}
    (h : ∀ g ∈ groups, isBlankLine g.2 = false) : ∀ g ∈ settle groups, isBlankLine g.2 = false := by
  intro g hg
  obtain ⟨_, k, hk, heq⟩ := mem_settle hg
  rw [heq, isBlankLine_trimRight]
  exact h k hk

theorem settle_settle (groups : List (Nat × List Char)) :
    settle (settle groups) = settle groups := by
  cases groups with
  | nil => rfl
  | cons g rest => simp [settle, fromTop]

/-- Past the first line, which has no blank lines before it any more. -/
theorem tail_settle (groups : List (Nat × List Char)) : (settle groups).tail =
    (groups.map fun g => (min 2 g.1, Text.trimRight g.2)).tail := by
  cases groups with
  | nil => rfl
  | cons g rest => rfl

theorem map_snd_settle (groups : List (Nat × List Char)) :
    (settle groups).map Prod.snd = (groups.map Prod.snd).map Text.trimRight := by
  cases groups with
  | nil => rfl
  | cons g rest => simp [settle, fromTop]

/-- Where a line that is not blank comes later, all blank lines before it are counted. -/
theorem exists_spaced_ge (before : Nat) {ls : List (List Char)}
    (h : ∃ l ∈ ls, isBlankLine l = false) : ∃ g ∈ spaced before ls, before ≤ g.1 := by
  induction ls generalizing before with
  | nil => obtain ⟨l, hl, _⟩ := h; cases hl
  | cons l rest ih =>
    rw [spaced]
    split
    · next hblank =>
      have hrest : ∃ k ∈ rest, isBlankLine k = false := by
        obtain ⟨k, hk, hshown⟩ := h
        rcases List.mem_cons.mp hk with rfl | hk
        · rw [hblank] at hshown
          cases hshown
        · exact ⟨k, hk, hshown⟩
      obtain ⟨g, hg, hle⟩ := ih (before + 1) hrest
      exact ⟨g, hg, by omega⟩
    · exact ⟨_, List.mem_cons_self, le_rfl⟩

/-- Three blank lines in a row before a line that is not blank are counted together. -/
theorem exists_three_le (before : Nat) (ls : List (List Char)) {x y z : List Char}
    {ms : List (List Char)} (hx : isBlankLine x = true) (hy : isBlankLine y = true)
    (hz : isBlankLine z = true) (hms : ∃ l ∈ ms, isBlankLine l = false) :
    ∃ g ∈ spaced before (ls ++ x :: y :: z :: ms), 3 ≤ g.1 := by
  induction ls generalizing before with
  | nil =>
    obtain ⟨g, hg, hle⟩ := exists_spaced_ge (before + 1 + 1 + 1) hms
    refine ⟨g, ?_, by omega⟩
    rwa [List.nil_append, spaced, if_pos hx, spaced, if_pos hy, spaced, if_pos hz]
  | cons l rest ih =>
    rw [List.cons_append, spaced]
    split
    · exact ih (before + 1)
    · obtain ⟨g, hg, hle⟩ := ih 0
      exact ⟨g, List.mem_cons_of_mem _ hg, hle⟩

theorem getLast?_spread {groups : List (Nat × List Char)} {l : List Char}
    (h : l ∈ (spread groups).getLast?) : ∃ g ∈ groups, l = g.2 := by
  rcases List.eq_nil_or_concat' groups with rfl | ⟨init, g, rfl⟩
  · cases h
  · rw [spread, List.flatMap_append, List.flatMap_singleton, ← List.append_assoc,
      List.getLast?_concat, Option.mem_some_iff] at h
    exact ⟨g, List.mem_append_right _ List.mem_cons_self, h.symm⟩

theorem mem_spread {groups : List (Nat × List Char)} {l : List Char} (h : l ∈ spread groups) :
    l = [] ∨ ∃ g ∈ groups, l = g.2 := by
  obtain ⟨g, hg, hl⟩ := List.mem_flatMap.mp h
  rcases List.mem_append.mp hl with hl | hl
  · exact .inl (List.eq_of_mem_replicate hl)
  · exact .inr ⟨g, hg, List.mem_singleton.mp hl⟩

/-- Settled lines are normal. -/
theorem isNormal_spread_settle {groups : List (Nat × List Char)}
    (hblank : ∀ g ∈ groups, isBlankLine g.2 = false) (hbreak : ∀ g ∈ groups, '\n' ∉ g.2) :
    IsNormal (spread (settle groups)) := by
  have hshown := isBlankLine_of_mem_settle hblank
  have hcloses : ∀ l ∈ (spread (settle groups)).getLast?, isBlankLine l = false := by
    intro l hl
    obtain ⟨g, hg, rfl⟩ := getLast?_spread hl
    exact hshown g hg
  refine ⟨?unbroken, ?trimmed, ?opens, hcloses, ?sparse⟩
  case unbroken =>
    intro l hl
    rcases mem_spread hl with rfl | ⟨g, hg, rfl⟩
    · exact List.not_mem_nil
    · obtain ⟨_, k, hk, heq⟩ := mem_settle hg
      rw [heq]
      exact fun hmem => hbreak k hk (Text.trimRight_subset k.2 hmem)
  case trimmed =>
    intro l hl
    rcases mem_spread hl with rfl | ⟨g, hg, rfl⟩
    · rfl
    · obtain ⟨_, k, hk, heq⟩ := mem_settle hg
      rw [heq, Text.trimRight_trimRight]
  case opens =>
    intro l hl
    cases groups with
    | nil => cases hl
    | cons g rest =>
      -- no empty lines stand before the first line
      obtain rfl : Text.trimRight g.2 = l := Option.some.inj hl
      rw [isBlankLine_trimRight]
      exact hblank g List.mem_cons_self
  case sparse =>
    rintro x y z ⟨front, back, heq⟩ ⟨hx, hy, hz⟩
    have hsplit : spread (settle groups) = front ++ x :: y :: z :: back := by
      rw [← heq, List.append_assoc]
      rfl
    -- the lines end in one that is not blank, so one stands behind the three
    have hback : ∃ l ∈ back, isBlankLine l = false := by
      rcases List.eq_nil_or_concat' back with rfl | ⟨init, l, rfl⟩
      · have hlast := hcloses z (by rw [hsplit]; simp)
        rw [hz] at hlast
        cases hlast
      · have hlast : (spread (settle groups)).getLast? = some l := by
          rw [← heq, ← List.append_assoc, List.getLast?_concat]
        exact ⟨l, List.mem_append_right _ List.mem_cons_self, hcloses l hlast⟩
    obtain ⟨g, hg, hle⟩ := exists_three_le 0 front hx hy hz hback
    rw [← hsplit, spaced_spread hshown] at hg
    have hfew := (mem_settle hg).1
    omega

/-- The line feed at the end of a text adds no line that is not blank. -/
theorem spaced_lines_close {groups : List (Nat × List Char)}
    (hblank : ∀ g ∈ groups, isBlankLine g.2 = false) (hbreak : ∀ l ∈ spread groups, '\n' ∉ l) :
    spaced 0 (Text.lines (Text.unlines (spread groups) ++ ['\n'])) = groups := by
  have hend : Text.lines (Text.unlines (spread groups) ++ ['\n']) =
      Text.lines (Text.unlines (spread groups)) ++ [[]] := List.splitOn_append_cons_self _ []
  rw [hend]
  by_cases hne : spread groups = []
  · have hnone : groups = [] := by
      rw [← spaced_spread hblank, hne, spaced]
    subst hnone
    rfl
  · rw [Text.lines_unlines hne hbreak, spaced_spread_append hblank]
    exact List.append_nil groups

/-- Every text is laid out, with steps of four spaces, as normal lines and a line feed after them.
Its lines that are not blank are those of the text, trimmed and in order; past the first one, each
has as many blank lines before it as in the text, or two if there were more. Laying it out again
changes nothing. -/
theorem format_is_normal (s : List Char) : ∃ ls out,
    format? (.ofJson (.int 4)) s = some out ∧ out = Text.unlines ls ++ ['\n'] ∧ IsNormal ls ∧
    ls.filter (!isBlankLine ·) = ((Text.lines s).filter (!isBlankLine ·)).map Text.trimRight ∧
    (spaced 0 ls).tail =
      ((spaced 0 (Text.lines s)).map fun g => (min 2 g.1, Text.trimRight g.2)).tail ∧
    format? (.ofJson (.int 4)) out = some out := by
  have hblank : ∀ g ∈ spaced 0 (Text.lines s), isBlankLine g.2 = false :=
    fun _ => isBlankLine_of_mem_spaced
  have hbreak : ∀ g ∈ spaced 0 (Text.lines s), '\n' ∉ g.2 :=
    fun _ hg => Text.not_mem_of_mem_lines (mem_of_mem_spaced hg)
  have hnormal := isNormal_spread_settle hblank hbreak
  have hshown := isBlankLine_of_mem_settle hblank
  refine ⟨spread (settle (spaced 0 (Text.lines s))), format 4 s, rfl, format_eq s, hnormal, ?_, ?_,
    ?_⟩
  · rw [← map_snd_spaced 0, spaced_spread hshown, map_snd_settle, map_snd_spaced]
  · rw [spaced_spread hshown, tail_settle]
  · show some (format 4 (format 4 s)) = some (format 4 s)
    rw [format_eq (format 4 s), format_eq s, spaced_lines_close hshown hnormal.unbroken,
      settle_settle]

end EventCodegen.Layout
