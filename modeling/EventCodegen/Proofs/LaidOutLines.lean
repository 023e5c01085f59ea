import Mathlib.Data.List.DropRight
import EventCodegen.Layout

/-! The layout line by line. A laid-out text is its tidied and reindented lines without the empty
ones at both ends (`lines_format`); leaving empty lines aside, each of its lines is a line of the
text, trimmed and reindented (`filter_lines_format`). A map of lines that leaves indentation and
emptiness alone can be applied before or after the layout (`map_lines_format`), and reindenting
loses nothing of lines whose indentation is made of whole steps (`reindent_inj`). -/
namespace EventCodegen

namespace Text

/-! ## Texts and their lines -/

theorem lines_unlines {ls : List (List Char)} (hne : ls ≠ []) (h : ∀ l ∈ ls, '\n' ∉ l) :
    lines (unlines ls) = ls := List.splitOn_intercalate '\n' h hne

@[simp] theorem unlines_singleton (l : List Char) : unlines [l] = l := List.intercalate_singleton

theorem unlines_cons (l : List Char) {ls : List (List Char)} (hne : ls ≠ []) :
    unlines (l :: ls) = l ++ '\n' :: unlines ls := by
  unfold unlines
  rw [List.intercalate_cons_of_ne_nil hne]
  simp

theorem unlines_concat {ls : List (List Char)} (hne : ls ≠ []) (l : List Char) :
    unlines (ls ++ [l]) = unlines ls ++ '\n' :: l := by
  induction ls with
  | nil => exact absurd rfl hne
  | cons k rest ih =>
    rw [List.cons_append, unlines_cons k (by simp)]
    by_cases hrest : rest = []
    · subst hrest
      simp
    · rw [ih hrest, unlines_cons k hrest]
      simp

/-- Lines without line feeds stay lines after any others. -/
theorem lines_unlines_append {as : List (List Char)} (hne : as ≠ []) {bs : List (List Char)}
    (h : ∀ l ∈ bs, '\n' ∉ l) : lines (unlines (as ++ bs)) = lines (unlines as) ++ bs := by
  induction bs using List.reverseRecOn with
  | nil => rw [List.append_nil, List.append_nil]
  | append_singleton bs l ih =>
    obtain ⟨hbs, hl⟩ := List.forall_mem_append.mp h
    have hlast : lines l = [l] := by
      have hsingle := lines_unlines (List.cons_ne_nil l []) hl
      rwa [unlines_singleton] at hsingle
    have hsplit : lines (unlines (as ++ bs) ++ '\n' :: l) =
        lines (unlines (as ++ bs)) ++ lines l := List.splitOn_append_cons_self _ l
    rw [← List.append_assoc, unlines_concat (List.append_ne_nil_of_left_ne_nil hne bs), hsplit,
      ih hbs, hlast, List.append_assoc]

/-- What a text is split at stands in none of its parts. -/
theorem not_mem_of_mem_splitOn {c : Char} {s l : List Char} (h : l ∈ s.splitOn c) : c ∉ l := by
  induction s generalizing l with
  | nil =>
    rw [List.mem_singleton.mp h]
    exact List.not_mem_nil
  | cons d rest ih =>
    rw [List.splitOn_cons_eq_if_modifyHead] at h
    split at h
    · rcases List.mem_cons.mp h with rfl | h
      · exact List.not_mem_nil
      · exact ih h
    · next hd =>
      cases hsplit : rest.splitOn c with
      | nil => exact absurd hsplit (List.splitOn_ne_nil _ _)
      | cons first more =>
        rw [hsplit, List.modifyHead_cons] at h
        have hmem : ∀ k ∈ first :: more, c ∉ k := fun k hk => ih (by rw [hsplit]; exact hk)
        rcases List.mem_cons.mp h with rfl | h
        · rw [List.mem_cons, not_or]
          exact ⟨fun heq => hd (by rw [← heq]; exact beq_self_eq_true c),
            hmem first List.mem_cons_self⟩
        · exact hmem l (List.mem_cons_of_mem _ h)

theorem not_mem_of_mem_lines {s l : List Char} (h : l ∈ lines s) : '\n' ∉ l :=
  not_mem_of_mem_splitOn h

/-- Lines without the empty ones at both ends. -/
def dropOuterEmpty (ls : List (List Char)) : List (List Char) :=
  (ls.dropWhile (·.isEmpty)).rdropWhile (·.isEmpty)

theorem dropWhile_unlines {ls : List (List Char)} (h : ∀ l ∈ ls, '\n' ∉ l) :
    (unlines ls).dropWhile (· == '\n') = unlines (ls.dropWhile (·.isEmpty)) := by
  induction ls with
  | nil => rfl
  | cons l rest ih =>
    have hrest := ih fun k hk => h k (List.mem_cons_of_mem l hk)
    cases l with
    | nil =>
      -- an empty line leaves its line feed at the beginning, unless it is the last line
      by_cases hne : rest = []
      · subst hne
        rfl
      · rw [unlines_cons [] hne]
        simpa using hrest
    | cons c cs =>
      have hc : (c == '\n') = false := by
        rw [beq_eq_false_iff_ne]
        rintro rfl
        exact h _ List.mem_cons_self List.mem_cons_self
      by_cases hne : rest = []
      · subst hne
        simp [hc]
      · rw [unlines_cons _ hne]
        simp [unlines_cons _ hne, hc]

theorem rdropWhile_unlines {ls : List (List Char)} (h : ∀ l ∈ ls, '\n' ∉ l) :
    (unlines ls).rdropWhile (· == '\n') = unlines (ls.rdropWhile (·.isEmpty)) := by
  induction ls using List.reverseRecOn with
  | nil => rfl
  | append_singleton rest l ih =>
    have hrest := ih fun k hk => h k (List.mem_append_left _ hk)
    rcases List.eq_nil_or_concat' l with rfl | ⟨cs, c, rfl⟩
    · rw [List.rdropWhile_concat_pos _ _ _ rfl, ← hrest]
      by_cases hne : rest = []
      · subst hne
        rfl
      · rw [unlines_concat hne, List.rdropWhile_concat_pos _ _ _ rfl]
    · have hc : ¬(c == '\n') = true := by
        rw [beq_iff_eq]
        rintro rfl
        exact h (cs ++ ['\n']) (by simp) (by simp)
      rw [List.rdropWhile_concat_neg _ rest _ (by simp)]
      by_cases hne : rest = []
      · subst hne
        rw [List.nil_append, unlines_singleton]
        exact List.rdropWhile_concat_neg (· == '\n') cs c hc
      · rw [unlines_concat hne, ← List.cons_append, ← List.append_assoc]
        exact List.rdropWhile_concat_neg (· == '\n') _ c hc

/-- Line feeds at the ends of a text are the empty lines there. -/
theorem stripChar_unlines {ls : List (List Char)} (h : ∀ l ∈ ls, '\n' ∉ l) :
    stripChar '\n' (unlines ls) = unlines (dropOuterEmpty ls) := by
  show ((unlines ls).dropWhile (· == '\n')).rdropWhile (· == '\n') = _
  rw [dropWhile_unlines h, rdropWhile_unlines, dropOuterEmpty]
  exact fun l hl => h l ((List.dropWhile_suffix _).subset hl)

theorem dropOuterEmpty_subset (ls : List (List Char)) : dropOuterEmpty ls ⊆ ls := fun _ h =>
  (List.dropWhile_suffix _).subset ((List.rdropWhile_prefix _ _).subset h)

theorem filter_dropWhile {α : Type} (p : α → Bool) (as : List α) :
    (as.dropWhile p).filter (!p ·) = as.filter (!p ·) := by
  induction as with
  | nil => rfl
  | cons a rest ih => by_cases ha : p a = true <;> simp [ha, ih]

theorem filter_rdropWhile {α : Type} (p : α → Bool) (as : List α) :
    (as.rdropWhile p).filter (!p ·) = as.filter (!p ·) := by
  rw [List.rdropWhile, List.filter_reverse, filter_dropWhile, List.filter_reverse,
    List.reverse_reverse]

theorem filter_dropOuterEmpty (ls : List (List Char)) :
    (dropOuterEmpty ls).filter (!·.isEmpty) = ls.filter (!·.isEmpty) := by
  rw [dropOuterEmpty, filter_rdropWhile, filter_dropWhile]

/-- Only a text without lines reads differently, as one empty line. -/
theorem filter_lines_unlines {ls : List (List Char)} (h : ∀ l ∈ ls, '\n' ∉ l) :
    (lines (unlines ls)).filter (!·.isEmpty) = ls.filter (!·.isEmpty) := by
  by_cases hne : ls = []
  · subst hne
    rfl
  · rw [lines_unlines hne h]

theorem map_lines_unlines {g : List Char → List Char} (hnil : g [] = [])
    (hg : ∀ {l}, '\n' ∉ l → '\n' ∉ g l) {ls : List (List Char)} (h : ∀ l ∈ ls, '\n' ∉ l) :
    (lines (unlines ls)).map g = lines (unlines (ls.map g)) := by
  by_cases hne : ls = []
  · subst hne
    simp [lines, unlines, hnil]
  · rw [lines_unlines hne h, lines_unlines (by simpa using hne)]
    exact List.forall_mem_map.mpr fun l hl => hg (h l hl)

theorem dropOuterEmpty_map {g : List Char → List Char} (hg : ∀ l, (g l).isEmpty = l.isEmpty)
    (ls : List (List Char)) : dropOuterEmpty (ls.map g) = (dropOuterEmpty ls).map g := by
  have hcomp : (fun l : List Char => l.isEmpty) ∘ g = fun l => l.isEmpty := funext hg
  unfold dropOuterEmpty List.rdropWhile
  rw [List.dropWhile_map, hcomp, ← List.map_reverse, List.dropWhile_map, hcomp, List.map_reverse]

theorem trimRight_subset (s : List Char) : trimRight s ⊆ s :=
  (List.rdropWhile_prefix isBlank s).subset

@[simp] theorem trimRight_trimRight (s : List Char) : trimRight (trimRight s) = trimRight s :=
  List.rdropWhile_idempotent isBlank s

end Text

namespace Layout

/-! ## Squeezing -/

theorem squeeze_subset : ∀ (before : Nat) (ls : List (List Char)), squeeze before ls ⊆ ls
  | _, [] => List.Subset.refl []
  | before, [] :: rest => by
    rw [squeeze]
    split
    · exact List.cons_subset_cons [] (squeeze_subset (before + 1) rest)
    · exact List.subset_cons_of_subset [] (squeeze_subset (before + 1) rest)
  | _, (c :: cs) :: rest => List.cons_subset_cons (c :: cs) (squeeze_subset 0 rest)

theorem filter_squeeze : ∀ (before : Nat) (ls : List (List Char)),
    (squeeze before ls).filter (!·.isEmpty) = ls.filter (!·.isEmpty)
  | _, [] => rfl
  | before, [] :: rest => by
    have ih := filter_squeeze (before + 1) rest
    rw [squeeze]
    split <;> simpa using ih
  | _, (c :: cs) :: rest => by
    have ih := filter_squeeze 0 rest
    simpa [squeeze] using ih

theorem squeeze_map {g : List Char → List Char} (hg : ∀ l, (g l).isEmpty = l.isEmpty) :
    ∀ (before : Nat) (ls : List (List Char)),
      squeeze before (ls.map g) = (squeeze before ls).map g
  | _, [] => rfl
  | before, [] :: rest => by
    have hnil : g [] = [] := List.isEmpty_iff.mp (hg [])
    have ih := squeeze_map hg (before + 1) rest
    rw [List.map_cons, hnil, squeeze, squeeze, ih]
    split
    · rw [List.map_cons, hnil]
    · rfl
  | _, (c :: cs) :: rest => by
    have ih := squeeze_map hg 0 rest
    cases hgc : g (c :: cs) with
    | nil => rw [← List.isEmpty_iff, hg] at hgc; cases hgc
    | cons d ds => rw [List.map_cons, hgc, squeeze, squeeze, ih, List.map_cons, hgc]

/-! ## Indentation -/

/-- The number of spaces that a line begins with. -/
def margin (l : List Char) : Nat := (l.takeWhile (· == ' ')).length

/-- A line after the spaces that it begins with. -/
def content (l : List Char) : List Char := l.dropWhile (· == ' ')

theorem takeWhile_eq_replicate (l : List Char) :
    l.takeWhile (· == ' ') = List.replicate (margin l) ' ' := by
  rw [List.eq_replicate_iff]
  exact ⟨rfl, fun c hc => by simpa using List.mem_takeWhile_imp hc⟩

theorem eq_replicate_append (l : List Char) : l = List.replicate (margin l) ' ' ++ content l := by
  rw [← takeWhile_eq_replicate]
  exact List.takeWhile_append_dropWhile.symm

/-- No content begins with a space. -/
theorem takeWhile_content (l : List Char) : (content l).takeWhile (· == ' ') = [] := by
  unfold content
  rw [List.takeWhile_eq_nil_iff]
  exact List.dropWhile_get_zero_not _ l

theorem margin_replicate_append (w : Nat) {l : List Char} (h : l.takeWhile (· == ' ') = []) :
    margin (List.replicate w ' ' ++ l) = w := by
  unfold margin
  rw [List.takeWhile_append_of_pos (by simp), h]
  simp

theorem content_eq_self {l : List Char} (h : l.takeWhile (· == ' ') = []) : content l = l := by
  have heq := eq_replicate_append l
  rw [← takeWhile_eq_replicate, h] at heq
  exact heq.symm

theorem content_replicate_append (w : Nat) (l : List Char) :
    content (List.replicate w ' ' ++ l) = content l := List.dropWhile_append_of_pos (by simp)

theorem content_content (l : List Char) : content (content l) = content l :=
  List.dropWhile_idempotent (· == ' ') l

theorem reindent_eq (n : Int) (l : List Char) :
    reindent n l = List.replicate (scaled n (margin l)) ' ' ++ content l := by
  have hlen : l.length - (content l).length = margin l := by
    have h := congrArg List.length (eq_replicate_append l)
    rw [List.length_append, List.length_replicate] at h
    omega
  show List.replicate (scaled n (l.length - (content l).length)) ' ' ++ content l = _
  rw [hlen]

theorem margin_reindent (n : Int) (l : List Char) : margin (reindent n l) = scaled n (margin l) := by
  rw [reindent_eq, margin_replicate_append _ (takeWhile_content l)]

theorem content_reindent (n : Int) (l : List Char) : content (reindent n l) = content l := by
  rw [reindent_eq, content_replicate_append, content_content]

/-- Whole steps of indentation stay apart, whatever their width. -/
theorem scaled_inj {n : Int} (hn : 1 ≤ n) {v w : Nat} (hv : 4 ∣ v) (hw : 4 ∣ w)
    (h : scaled n v = scaled n w) : v = w := by
  obtain ⟨a, rfl⟩ := hv
  obtain ⟨b, rfl⟩ := hw
  have hscaled : ∀ k : Nat, (scaled n (4 * k) : Int) = k * n := by
    intro k
    have hnonneg : (0 : Int) ≤ k * n := Int.mul_nonneg (by omega) (by omega)
    have hzero : ((0 : Nat) : Int) = 0 := rfl
    unfold scaled
    rw [Nat.mul_div_cancel_left k (by decide), Nat.mul_mod_right, hzero, Int.add_zero]
    exact Int.toNat_of_nonneg hnonneg
  have heq : (a : Int) * n = b * n := by rw [← hscaled, ← hscaled, h]
  have hab := Int.eq_of_mul_eq_mul_right (by omega) heq
  omega

/-- Two lines that are indented by whole steps and look the same once reindented are the same. -/
theorem reindent_inj {n : Int} (hn : 1 ≤ n) {k l : List Char} (hk : 4 ∣ margin k)
    (hl : 4 ∣ margin l) (h : reindent n k = reindent n l) : k = l := by
  have hcontent := congrArg content h
  have hmargin := congrArg margin h
  rw [content_reindent, content_reindent] at hcontent
  rw [margin_reindent, margin_reindent] at hmargin
  rw [eq_replicate_append k, eq_replicate_append l, hcontent, scaled_inj hn hk hl hmargin]

/-! ## The laid-out text -/

/-- The lines of the laid-out text before the empty ones at its ends are dropped. -/
def formattedLines (n : Int) (s : List Char) : List (List Char) := (tidyLines s).map (reindent n)

theorem not_mem_reindent {n : Int} {l : List Char} (h : '\n' ∉ l) : '\n' ∉ reindent n l := by
  rw [reindent_eq, List.mem_append, not_or]
  refine ⟨?_, fun hmem => h ((List.dropWhile_suffix _).subset hmem)⟩
  intro hmem
  exact absurd (List.eq_of_mem_replicate hmem) (by decide)

theorem not_mem_formattedLines {n : Int} {s l : List Char} (h : l ∈ formattedLines n s) :
    '\n' ∉ l := by
  obtain ⟨k, hk, rfl⟩ := List.mem_map.mp h
  obtain ⟨j, hj, rfl⟩ := List.mem_map.mp (squeeze_subset 0 _ hk)
  exact not_mem_reindent fun hmem => Text.not_mem_of_mem_lines hj (Text.trimRight_subset j hmem)

/-- What is laid out is laid out in steps of some width. -/
theorem exists_format {indent : Indent} {s out : List Char} (h : format? indent s = some out) :
    ∃ n, out = format n s := by
  unfold format? at h
  split at h
  · exact ⟨_, (Option.some.inj h).symm⟩
  · split at h
    · exact ⟨4, (Option.some.inj h).symm⟩
    · cases h

/-- The lines of the laid-out text; its last line feed is followed by an empty one. -/
theorem lines_format (n : Int) (s : List Char) : Text.lines (format n s) =
    Text.lines (Text.unlines (Text.dropOuterEmpty (formattedLines n s))) ++ [[]] := by
  show Text.lines (Text.stripChar '\n' (Text.unlines (formattedLines n s)) ++ ['\n']) = _
  rw [Text.stripChar_unlines fun _ => not_mem_formattedLines]
  exact List.splitOn_append_cons_self _ []

/-- Reindenting a trimmed line neither empties it nor fills it. -/
theorem isEmpty_reindent (n : Int) {l : List Char} (h : Text.trimRight l = l) :
    (reindent n l).isEmpty = l.isEmpty := by
  rcases List.eq_nil_or_concat' l with rfl | ⟨init, c, rfl⟩
  · simp [reindent_eq, margin, content, scaled]
  · -- a trimmed line ends in a character that is no space, and that one stays
    have hlast : ¬Text.isBlank c = true := by
      have hself := List.rdropWhile_eq_self_iff.mp h (by simp)
      simpa using hself
    have hc : ¬(c == ' ') = true := by
      rw [beq_iff_eq]
      rintro rfl
      exact hlast (by decide)
    have hne : content (init ++ [c]) ≠ [] := by
      intro hnil
      exact hc (List.dropWhile_eq_nil_iff.mp hnil c (by simp))
    have hfull : reindent n (init ++ [c]) ≠ [] := by
      rw [reindent_eq]
      exact List.append_ne_nil_of_right_ne_nil _ hne
    rw [List.isEmpty_eq_false_iff.mpr hfull, List.isEmpty_eq_false_iff.mpr (by simp)]

/-- Empty lines aside, a laid-out text has the lines of the text, trimmed and reindented. -/
theorem filter_lines_format (n : Int) (s : List Char) :
    (Text.lines (format n s)).filter (!·.isEmpty) =
      (((Text.lines s).map Text.trimRight).filter (!·.isEmpty)).map (reindent n) := by
  have hkeep : ∀ l ∈ tidyLines s, (!(reindent n l).isEmpty) = !l.isEmpty := by
    intro l hl
    obtain ⟨k, _, rfl⟩ := List.mem_map.mp (squeeze_subset 0 _ hl)
    rw [isEmpty_reindent n (Text.trimRight_trimRight k)]
  have hend : ([[]] : List (List Char)).filter (!·.isEmpty) = [] := rfl
  calc
    _ = (Text.lines (Text.unlines (Text.dropOuterEmpty (formattedLines n s)))).filter
          (!·.isEmpty) := by
      rw [lines_format, List.filter_append, hend, List.append_nil]
    _ = (formattedLines n s).filter (!·.isEmpty) := by
      rw [Text.filter_lines_unlines (fun _ hl => not_mem_formattedLines
        (Text.dropOuterEmpty_subset _ hl)), Text.filter_dropOuterEmpty]
    _ = ((tidyLines s).filter (!·.isEmpty)).map (reindent n) := by
      rw [formattedLines, List.filter_map]
      exact congrArg _ (List.filter_congr hkeep)
    _ = _ := by rw [tidyLines, filter_squeeze]

/-- A map of lines that leaves line ends, emptiness and indentation alone. -/
structure Transparent (g : List Char → List Char) : Prop where
  noBreak : ∀ {l}, '\n' ∉ l → '\n' ∉ g l
  isEmpty : ∀ l, (g l).isEmpty = l.isEmpty
  reindent : ∀ n l, g (reindent n l) = reindent n (g l)

/-- Trimmed lines are only squeezed. -/
theorem tidyLines_unlines {ls : List (List Char)} (hne : ls ≠ []) (hbreak : ∀ l ∈ ls, '\n' ∉ l)
    (htrim : ∀ l ∈ ls, Text.trimRight l = l) : tidyLines (Text.unlines ls) = squeeze 0 ls := by
  rw [tidyLines, Text.lines_unlines hne hbreak, List.map_congr_left (g := id) htrim, List.map_id]

/-- Such a map can be applied to trimmed lines before they are laid out. -/
theorem map_lines_format {g : List Char → List Char} (hg : Transparent g) (n : Int)
    {ls : List (List Char)} (hne : ls ≠ []) (hbreak : ∀ l ∈ ls, '\n' ∉ l)
    (htrim : ∀ l ∈ ls, Text.trimRight l = l ∧ Text.trimRight (g l) = g l) :
    (Text.lines (format n (Text.unlines ls))).map g =
      Text.lines (format n (Text.unlines (ls.map g))) := by
  have hnil : g [] = [] := List.isEmpty_iff.mp (hg.isEmpty [])
  have hmapped : tidyLines (Text.unlines (ls.map g)) = squeeze 0 (ls.map g) :=
    tidyLines_unlines (by simpa using hne)
      (List.forall_mem_map.mpr fun l hl => hg.noBreak (hbreak l hl))
      (List.forall_mem_map.mpr fun l hl => (htrim l hl).2)
  have hformatted : (formattedLines n (Text.unlines ls)).map g =
      formattedLines n (Text.unlines (ls.map g)) := by
    unfold formattedLines
    rw [tidyLines_unlines hne hbreak fun l hl => (htrim l hl).1, hmapped, squeeze_map hg.isEmpty,
      List.map_map, List.map_map]
    exact List.map_congr_left fun l _ => hg.reindent n l
  -- the empty lines at the ends are the same before and after the map
  calc
    _ = (Text.lines (Text.unlines (Text.dropOuterEmpty
          (formattedLines n (Text.unlines ls))))).map g ++ [[]] := by
      rw [lines_format, List.map_append, List.map_singleton, hnil]
    _ = Text.lines (Text.unlines ((Text.dropOuterEmpty
          (formattedLines n (Text.unlines ls))).map g)) ++ [[]] := by
      rw [Text.map_lines_unlines hnil hg.noBreak fun _ hl =>
        not_mem_formattedLines (Text.dropOuterEmpty_subset _ hl)]
    _ = Text.lines (Text.unlines (Text.dropOuterEmpty
          (formattedLines n (Text.unlines (ls.map g))))) ++ [[]] := by
      rw [← Text.dropOuterEmpty_map hg.isEmpty, hformatted]
    _ = _ := (lines_format n _).symm

end Layout
end EventCodegen
