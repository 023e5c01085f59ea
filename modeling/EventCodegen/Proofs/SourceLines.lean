import EventCodegen.Source.Line
import EventCodegen.Proofs.LaidOutLines
import EventCodegen.Proofs.Literals

/-! Lines of source text with their literals. A line is sound if its code holds neither quotes nor
line feeds and no white space stands at its ends. Sound lines survive the layout
(`Line.Sound.trimRight_render`), show their level (`Line.Sound.margin_render`) and look the same as
any other line with the same code once the literals are masked (`Line.Sound.maskLine_render`). -/
namespace EventCodegen.Source

/-! ## Masked lines and the layout -/

theorem mask_subset : ∀ (p : Place) (s : List Char), mask p s ⊆ s
  | _, [] => by simp [mask]
  | .code, c :: rest => by
    rw [mask]
    exact List.cons_subset_cons c (mask_subset _ rest)
  | .literal, c :: rest => by
    rw [mask]
    split
    · exact List.cons_subset_cons c (mask_subset _ rest)
    · exact List.subset_cons_of_subset c (mask_subset _ rest)
  | .escape, c :: rest => by
    rw [mask]
    exact List.subset_cons_of_subset c (mask_subset _ rest)

theorem mask_spaces (w : Nat) (r : List Char) :
    mask .code (List.replicate w ' ' ++ r) = List.replicate w ' ' ++ mask .code r :=
  mask_code (fun h => absurd (List.eq_of_mem_replicate h) (by decide)) r

theorem takeWhile_maskLine {s : List Char} (h : s.takeWhile (· == ' ') = []) :
    (maskLine s).takeWhile (· == ' ') = [] := by
  cases s with
  | nil => rfl
  | cons c rest =>
    by_cases hc : (c == ' ') = true
    · rw [List.takeWhile_cons, hc] at h
      cases h
    · rw [maskLine, mask]
      exact List.takeWhile_cons_of_neg hc

/-- Masking the literals of a line is of no concern to the layout. -/
theorem transparent_maskLine : Layout.Transparent maskLine where
  noBreak h := fun hmem => h (mask_subset _ _ hmem)
  isEmpty l := by
    cases l with
    | nil => rfl
    | cons c rest => rw [maskLine, mask]; rfl
  reindent n l := by
    have hspaces : ∀ (w : Nat) (r : List Char),
        maskLine (List.replicate w ' ' ++ r) = List.replicate w ' ' ++ maskLine r := mask_spaces
    have hstart := takeWhile_maskLine (Layout.takeWhile_content l)
    have hmask : maskLine l =
        List.replicate (Layout.margin l) ' ' ++ maskLine (Layout.content l) := by
      rw [← hspaces, ← Layout.eq_replicate_append]
    calc
      _ = List.replicate (Layout.scaled n (Layout.margin l)) ' ' ++ maskLine (Layout.content l) := by
        rw [Layout.reindent_eq, hspaces]
      _ = Layout.reindent n (List.replicate (Layout.margin l) ' ' ++ maskLine (Layout.content l)) := by
        rw [Layout.reindent_eq, Layout.margin_replicate_append _ hstart,
          Layout.content_replicate_append, Layout.content_eq_self hstart]
      _ = _ := by rw [← hmask]

/-! ## Code around literals -/

/-- Code that stays in its line and begins no literal. -/
def IsCode (s : String) : Prop := ∀ c ∈ s.toList, c ≠ Text.doubleQuote ∧ c ≠ '\n'

instance : DecidablePred IsCode := fun s =>
  decidable_of_iff (s.toList.all (fun c => c != Text.doubleQuote && c != '\n') = true)
    (by simp [IsCode])

@[simp] theorem isCode_append {a b : String} : IsCode (a ++ b) ↔ IsCode a ∧ IsCode b := by
  simp only [IsCode, String.toList_append, List.forall_mem_append]

/-- No white space stands at the beginning. -/
def Opens (s : List Char) : Prop := s.head?.any (!Text.isBlank ·) = true

/-- No white space stands at the end. -/
def Closes (s : List Char) : Prop := s.getLast?.any (!Text.isBlank ·) = true

instance : DecidablePred Opens := fun _ => inferInstanceAs (Decidable (_ = true))
instance : DecidablePred Closes := fun _ => inferInstanceAs (Decidable (_ = true))

theorem Opens.append {a : List Char} (h : Opens a) (b : List Char) : Opens (a ++ b) := by
  cases a with
  | nil => cases h
  | cons c rest => exact h

theorem Closes.ne_nil {s : List Char} (h : Closes s) : s ≠ [] := by
  rintro rfl
  cases h

theorem Closes.append {b : List Char} (h : Closes b) (a : List Char) : Closes (a ++ b) := by
  rwa [Closes, List.getLast?_append_of_ne_nil _ h.ne_nil]

/-- There is no white space at the end to lose. -/
theorem Closes.trimRight_eq {s : List Char} (h : Closes s) : Text.trimRight s = s := by
  refine List.rdropWhile_eq_self_iff.mpr fun hne => ?_
  rw [Closes, List.getLast?_eq_some_getLast hne] at h
  simpa using h

theorem opens_literalChars (t : Target) (s : List Char) : Opens (literalChars t s) := rfl

theorem closes_literalChars (t : Target) (s : List Char) : Closes (literalChars t s) :=
  Closes.append (by decide) (Text.doubleQuote :: s.flatMap (literalChar t))

/-! ## Sound lines -/

/-- A line without the texts in its literals. -/
def Piece.erase : Piece → Piece
  | code s => code s
  | literal _ => literal ""

@[inherit_doc Piece.erase]
def Line.erase (l : Line) : Line := { l with pieces := l.pieces.map Piece.erase }

/-- The characters of a line after its indentation. -/
def Line.body (t : Target) (l : Line) : List Char := l.pieces.flatMap (Piece.render t)

/-- A line as it may stand in a file: its code holds neither quotes nor line feeds, and unless it is
blank there is no white space at its ends. -/
structure Line.Sound (t : Target) (l : Line) : Prop where
  code : ∀ s, Piece.code s ∈ l.pieces → IsCode s
  tight : l = .blank ∨ Opens (l.body t) ∧ Closes (l.body t)

/-- A line that stays one line and loses nothing at its ends, whatever its code is. -/
structure Line.Neat (t : Target) (l : Line) : Prop where
  oneLine : '\n' ∉ l.body t
  tight : l = .blank ∨ Opens (l.body t) ∧ Closes (l.body t)

namespace Line

theorem sound_blank (t : Target) : blank.Sound t := ⟨fun _ h => (List.not_mem_nil h).elim, Or.inl rfl⟩

theorem sound_code (t : Target) (level : Nat) {s : String} (h : IsCode s) (hopen : Opens s.toList)
    (hclose : Closes s.toList) : (code level s).Sound t where
  code _ hmem := by
    obtain rfl : _ = s := by simpa [Line.code] using hmem
    exact h
  tight := by
    have hbody : (Line.code level s).body t = s.toList := List.append_nil _
    exact Or.inr (by rw [hbody]; exact ⟨hopen, hclose⟩)

/-- A line that begins with a literal. -/
theorem sound_literal_code (t : Target) (level : Nat) (raw : String) {s : String} (h : IsCode s)
    (hclose : Closes s.toList) : Sound t ⟨level, [.literal raw, .code s]⟩ where
  code _ hmem := by
    obtain rfl : _ = s := by simpa using hmem
    exact h
  tight := by
    have hbody : body t ⟨level, [.literal raw, .code s]⟩ =
        literalChars t raw.toList ++ s.toList := by simp [body, Piece.render]
    rw [hbody]
    exact Or.inr ⟨(opens_literalChars t _).append _, hclose.append _⟩

/-- A line that ends with a literal. -/
theorem sound_code_literal (t : Target) (level : Nat) {s : String} (raw : String) (h : IsCode s)
    (hopen : Opens s.toList) : Sound t ⟨level, [.code s, .literal raw]⟩ where
  code _ hmem := by
    obtain rfl : _ = s := by simpa using hmem
    exact h
  tight := by
    have hbody : body t ⟨level, [.code s, .literal raw]⟩ =
        s.toList ++ literalChars t raw.toList := by simp [body, Piece.render]
    rw [hbody]
    exact Or.inr ⟨hopen.append _, (closes_literalChars t _).append _⟩

theorem sound_argument (t : Target) (level : Nat) (raw : String) : (argument level raw).Sound t :=
  sound_literal_code t level raw (by decide) (by decide)

theorem sound_literal (t : Target) (level : Nat) (raw : String) :
    (literal level raw).Sound t where
  code _ hmem := by simp [Line.literal] at hmem
  tight := by
    have hbody : (literal level raw).body t = literalChars t raw.toList := List.append_nil _
    rw [hbody]
    exact Or.inr ⟨opens_literalChars t _, closes_literalChars t _⟩

theorem sound_around (t : Target) (level : Nat) {before after : String} (raw : String)
    (hbefore : IsCode before) (hafter : IsCode after) (hopen : Opens before.toList)
    (hclose : after = "" ∨ Closes after.toList) : (around level before raw after).Sound t where
  code s hmem := by
    simp only [around, List.mem_cons, Piece.code.injEq, reduceCtorEq, List.not_mem_nil, or_false,
      false_or] at hmem
    rcases hmem with rfl | rfl
    · exact hbefore
    · exact hafter
  tight := by
    have hbody : (around level before raw after).body t =
        before.toList ++ (literalChars t raw.toList ++ after.toList) := by
      simp [body, around, Piece.render]
    rw [hbody]
    refine Or.inr ⟨hopen.append _, Closes.append ?_ _⟩
    rcases hclose with rfl | hclose
    · simpa using closes_literalChars t raw.toList
    · exact hclose.append _

/-! ## Sound lines as text -/

section
variable {t : Target} {l : Line}

theorem render_eq (t : Target) (l : Line) :
    l.render t = List.replicate (step * l.level) ' ' ++ l.body t := rfl

theorem Sound.neat (h : l.Sound t) : l.Neat t where
  oneLine hmem := by
    obtain ⟨p, hp, hc⟩ := List.mem_flatMap.mp hmem
    cases p with
    | code s => exact (h.code s hp _ hc).2 rfl
    | literal raw => exact not_mem_literalChars t raw.toList hc
  tight := h.tight

theorem Neat.not_mem_render (h : l.Neat t) : '\n' ∉ l.render t := by
  rw [render_eq, List.mem_append, not_or]
  exact ⟨fun hspace => absurd (List.eq_of_mem_replicate hspace) (by decide), h.oneLine⟩

theorem Sound.not_mem_render (h : l.Sound t) : '\n' ∉ l.render t := h.neat.not_mem_render

/-- A neat line has no white space at its end to lose. -/
theorem Neat.trimRight_render (h : l.Neat t) : Text.trimRight (l.render t) = l.render t := by
  rcases h.tight with rfl | ⟨_, hclose⟩
  · rfl
  · exact (hclose.append _).trimRight_eq

theorem Sound.trimRight_render (h : l.Sound t) : Text.trimRight (l.render t) = l.render t :=
  h.neat.trimRight_render

theorem Opens.takeWhile_eq_nil {s : List Char} (h : Opens s) : s.takeWhile (· == ' ') = [] := by
  cases s with
  | nil => rfl
  | cons c rest =>
    have hc : ¬(c == ' ') = true := by
      rw [beq_iff_eq]
      rintro rfl
      exact absurd h (by show ¬(!Text.isBlank ' ') = true; decide)
    exact List.takeWhile_cons_of_neg hc

/-- The spaces before a sound line are those of its level. -/
theorem Sound.margin_render (h : l.Sound t) : Layout.margin (l.render t) = step * l.level := by
  rcases h.tight with rfl | ⟨hopen, _⟩
  · rfl
  · exact Layout.margin_replicate_append _ (Opens.takeWhile_eq_nil hopen)

/-- Only the blank line is empty. -/
theorem Neat.isEmpty_render (h : l.Neat t) : (l.render t).isEmpty = l.pieces.isEmpty := by
  rcases h.tight with rfl | ⟨hopen, _⟩
  · rfl
  · have hbody : l.body t ≠ [] := by
      intro hnil
      rw [hnil] at hopen
      cases hopen
    have hpieces : l.pieces ≠ [] := by
      intro hnil
      exact hbody (by rw [body, hnil]; rfl)
    rw [List.isEmpty_eq_false_iff.mpr hpieces, render_eq,
      List.isEmpty_eq_false_iff.mpr (List.append_ne_nil_of_right_ne_nil _ hbody)]

/-- Of a sound line masking leaves the code. -/
theorem Sound.maskLine_render (h : l.Sound t) : maskLine (l.render t) = l.erase.render t := by
  have hpieces : ∀ ps : List Piece, (∀ s, Piece.code s ∈ ps → IsCode s) →
      mask .code (ps.flatMap (Piece.render t)) = (ps.map Piece.erase).flatMap (Piece.render t) := by
    intro ps
    induction ps with
    | nil => exact fun _ => rfl
    | cons p rest ih =>
      intro hcode
      have hrest := ih fun s hs => hcode s (List.mem_cons_of_mem p hs)
      rw [List.flatMap_cons, List.map_cons, List.flatMap_cons, ← hrest]
      cases p with
      | code s =>
        exact mask_code (fun hquote => (hcode s List.mem_cons_self _ hquote).1 rfl) _
      | literal raw => exact mask_literalChars t raw.toList _
  rw [maskLine, render_eq, mask_spaces]
  exact congrArg _ (hpieces l.pieces h.code)

/-- A sound line stays sound without the texts in its literals. -/
theorem Sound.erase (h : l.Sound t) : l.erase.Sound t where
  code s hmem := by
    obtain ⟨p, hp, heq⟩ := List.mem_map.mp hmem
    cases p with
    | code s' => cases heq; exact h.code s hp
    | literal raw => cases heq
  tight := by
    have hhead : ∀ ps : List Piece, (ps.flatMap (Piece.render t)).head? =
        ((ps.map Piece.erase).flatMap (Piece.render t)).head? := by
      intro ps
      induction ps with
      | nil => rfl
      | cons p rest ih =>
        cases p with
        | code s => simp [List.head?_append, Piece.erase, Piece.render, ih]
        | literal raw => rfl
    -- a literal begins and ends with a quote, whatever it holds
    have hquote : ∀ s : List Char, (literalChars t s).getLast? = some Text.doubleQuote :=
      fun s => List.getLast?_concat
    have hlast : ∀ ps : List Piece, (ps.flatMap (Piece.render t)).getLast? =
        ((ps.map Piece.erase).flatMap (Piece.render t)).getLast? := by
      intro ps
      induction ps with
      | nil => rfl
      | cons p rest ih =>
        cases p with
        | code s => simp [List.getLast?_append, Piece.erase, Piece.render, ih]
        | literal raw =>
          simp only [List.flatMap_cons, List.map_cons, List.getLast?_append, Piece.erase,
            Piece.render, hquote, ih]
    rcases h.tight with rfl | ⟨hopen, hclose⟩
    · exact Or.inl rfl
    · refine Or.inr ⟨?_, ?_⟩
      · unfold Opens at hopen ⊢
        rwa [body, Line.erase, ← hhead]
      · unfold Closes at hclose ⊢
        rwa [body, Line.erase, ← hlast]

end

end Line
end EventCodegen.Source
