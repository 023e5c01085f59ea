import EventCodegen.Proofs.CategoryLines

/-! The lines that a reader of a file sees. A laid-out file determines the lines that are not blank
(`shown_eq_of_format_eq`), and each of them determines what its code and its literals were made
from. -/
namespace EventCodegen.Source

/-- The lines that are not blank, before the layout. -/
def shown (t : Target) (ls : List Line) : List (List Char) :=
  (ls.filter (!·.pieces.isEmpty)).map (Line.render t)

section
variable {t : Target}

@[simp] theorem shown_nil : shown t [] = [] := rfl

@[simp] theorem shown_blank (ls : List Line) : shown t (.blank :: ls) = shown t ls := rfl

@[simp] theorem shown_code (level : Nat) (s : String) (ls : List Line) :
    shown t (.code level s :: ls) = (Line.code level s).render t :: shown t ls := rfl

@[simp] theorem shown_literal (level : Nat) (raw : String) (ls : List Line) :
    shown t (.literal level raw :: ls) = (Line.literal level raw).render t :: shown t ls := rfl

@[simp] theorem shown_argument (level : Nat) (raw : String) (ls : List Line) :
    shown t (.argument level raw :: ls) = (Line.argument level raw).render t :: shown t ls := rfl

@[simp] theorem shown_append (ks ls : List Line) : shown t (ks ++ ls) = shown t ks ++ shown t ls := by
  simp [shown]

theorem shown_map {α : Type} {f : α → Line} (hf : ∀ a, (f a).pieces ≠ []) (as : List α) :
    shown t (as.map f) = as.map fun a => (f a).render t := by
  have hall : (as.map f).filter (!·.pieces.isEmpty) = as.map f := by
    rw [List.filter_eq_self]
    refine List.forall_mem_map.mpr fun a _ => ?_
    rw [List.isEmpty_eq_false_iff.mpr (hf a)]
    rfl
  rw [shown, hall, List.map_map]
  rfl

theorem shown_flatMap {α : Type} (f : α → List Line) (as : List α) :
    shown t (as.flatMap f) = as.flatMap fun a => shown t (f a) := by
  simp only [shown, List.filter_flatMap, List.map_flatMap]

/-! ## Files and their lines -/

/-- Of neat lines, what is not blank is what is not empty. -/
theorem filter_render {ls : List Line} (h : AllNeat t ls) :
    (ls.map (Line.render t)).filter (!·.isEmpty) = shown t ls := by
  rw [List.filter_map, shown]
  congr 1
  refine List.filter_congr fun l hl => ?_
  simp [(h l hl).isEmpty_render]

/-- The lines of a laid-out file, empty ones aside, are those that are shown, reindented. -/
theorem filter_lines_file {ls : List Line} (h : AllNeat t ls) (hne : ls ≠ []) (n : Int) :
    (Text.lines (Layout.format n (text t ls))).filter (!·.isEmpty) =
      (shown t ls).map (Layout.reindent n) := by
  have htrim : (ls.map (Line.render t)).map Text.trimRight = ls.map (Line.render t) := by
    rw [List.map_map]
    exact List.map_congr_left fun l hl => (h l hl).trimRight_render
  have hlines : Text.lines (text t ls) = ls.map (Line.render t) :=
    Text.lines_unlines (by simpa using hne)
      (List.forall_mem_map.mpr fun l hl => (h l hl).not_mem_render)
  calc
    _ = (((Text.lines (text t ls)).map Text.trimRight).filter (!·.isEmpty)).map
          (Layout.reindent n) := Layout.filter_lines_format n _
    _ = ((ls.map (Line.render t)).filter (!·.isEmpty)).map (Layout.reindent n) := by
      rw [hlines, htrim]
    _ = _ := by rw [filter_render h]

/-- Whatever is read of a file, nothing is read of its empty lines. -/
theorem filterMap_filter_isEmpty {α : Type} {f : List Char → Option α} (hnil : f [] = none)
    (lines : List (List Char)) : (lines.filter (!·.isEmpty)).filterMap f = lines.filterMap f := by
  rw [List.filterMap_filter]
  refine List.filterMap_congr fun line _ => ?_
  cases line with
  | nil => exact hnil.symm
  | cons c rest => rfl

/-- What is read of the lines after their indentation, before they are laid out. -/
theorem filterMap_body_filter {α : Type} {f : List Char → Option α} (hnil : f [] = none)
    (ls : List Line) : (ls.filter (!·.pieces.isEmpty)).filterMap (fun l => f (l.body t)) =
      ls.filterMap fun l => f (l.body t) := by
  rw [List.filterMap_filter]
  refine List.filterMap_congr fun l _ => ?_
  cases hpieces : l.pieces with
  | nil =>
    rw [Line.body, hpieces]
    exact hnil.symm
  | cons p rest => rfl

/-- After its indentation a line is the same whatever its level and the layout. -/
theorem content_reindent_render {l : Line} (h : l.Neat t) (n : Int) :
    Layout.content (Layout.reindent n (l.render t)) = l.body t := by
  rw [Layout.content_reindent]
  rcases h.tight with rfl | ⟨hopen, _⟩
  · rfl
  · rw [Line.render_eq, Layout.content_replicate_append,
      Layout.content_eq_self (Line.Opens.takeWhile_eq_nil hopen)]

/-- What is read of laid-out lines is what is read of the lines before the layout. -/
theorem filterMap_content {α : Type} {read : List Char → Option α} (hnil : read [] = none)
    {ls : List Line} (h : AllNeat t ls) {n : Int} {lines : List (List Char)}
    (hlines : lines.filter (!·.isEmpty) = (shown t ls).map (Layout.reindent n)) :
    (lines.filterMap fun line => read (Layout.content line)) =
      ls.filterMap fun l => read (l.body t) := by
  have hcontent := filterMap_filter_isEmpty (f := fun line => read (Layout.content line)) hnil lines
  rw [← hcontent, hlines, shown, List.map_map, List.filterMap_map,
    ← filterMap_body_filter hnil]
  refine List.filterMap_congr fun l hl => ?_
  exact congrArg read (content_reindent_render (h l (List.mem_of_mem_filter hl)) n)

/-- Neat lines that follow a line at the first level are found again in the laid-out text, whatever
stands above it. -/
theorem exists_below (above : List Line) (hne : above ≠ []) {s : String}
    (hline : (Line.code 0 s).Neat t) (hs : Opens s.toList) {ls : List Line} (h : AllNeat t ls)
    (n : Int) : ∃ front members,
    Text.lines (Layout.format n (text t (above ++ .code 0 s :: ls))) =
      front ++ s.toList :: members ∧
    members.filter (!·.isEmpty) = (shown t ls).map (Layout.reindent n) := by
  have hall : AllNeat t (.code 0 s :: ls) := List.forall_mem_cons.mpr ⟨hline, h⟩
  have hbreak : ∀ l ∈ (Line.code 0 s :: ls).map (Line.render t), '\n' ∉ l :=
    List.forall_mem_map.mpr fun l hl => (hall l hl).not_mem_render
  have htrim : ((Line.code 0 s :: ls).map (Line.render t)).map Text.trimRight =
      (Line.code 0 s :: ls).map (Line.render t) := by
    rw [List.map_map]
    exact List.map_congr_left fun l hl => (hall l hl).trimRight_render
  have hlines : Text.lines (text t (above ++ .code 0 s :: ls)) =
      Text.lines (text t above) ++ (Line.code 0 s :: ls).map (Line.render t) := by
    rw [text, List.map_append]
    exact Text.lines_unlines_append (by simpa using hne) hbreak
  have hrender : Layout.reindent n ((Line.code 0 s).render t) = s.toList := by
    have hbody : (Line.code 0 s).render t = s.toList := List.append_nil _
    have hmargin := Line.Opens.takeWhile_eq_nil hs
    rw [hbody, Layout.reindent_eq, Layout.margin, hmargin, Layout.content_eq_self hmargin]
    simp [Layout.scaled]
  have hfilter := Layout.filter_lines_format n (text t (above ++ .code 0 s :: ls))
  rw [hlines, List.map_append, htrim, List.filter_append, filter_render hall, List.map_append,
    shown_code, List.map_cons, hrender] at hfilter
  -- lines that are empty may stand between those that are not
  obtain ⟨front, rest, heq, _, hrest⟩ := List.filter_eq_append_iff.mp hfilter
  obtain ⟨gap, members, hgap, _, _, hmembers⟩ := List.filter_eq_cons_iff.mp hrest
  exact ⟨front ++ gap, members, by rw [heq, hgap, List.append_assoc], hmembers⟩

/-- The layout keeps every line that is not blank: two files that look the same were laid out from
the same lines. -/
theorem shown_eq_of_format_eq {ks ls : List Line} (hk : AllSound t ks) (hl : AllSound t ls)
    (hkne : ks ≠ []) (hlne : ls ≠ []) {n : Int} (hn : 1 ≤ n)
    (h : Layout.format n (text t ks) = Layout.format n (text t ls)) : shown t ks = shown t ls := by
  have hsteps : ∀ {ls : List Line}, AllSound t ls → ∀ s ∈ shown t ls, 4 ∣ Layout.margin s := by
    intro ls hls s hs
    obtain ⟨l, hmem, rfl⟩ := List.mem_map.mp hs
    rw [(hls l (List.mem_of_mem_filter hmem)).margin_render]
    exact Nat.dvd_mul_right 4 l.level
  have hreindented : (shown t ks).map (Layout.reindent n) = (shown t ls).map (Layout.reindent n) := by
    rw [← filter_lines_file hk.neat hkne, ← filter_lines_file hl.neat hlne, h]
  have hsame := map_inj_of_items (k := id) (fun a ha b hb =>
    Layout.reindent_inj hn (hsteps hk a ha) (hsteps hl b hb)) hreindented
  rwa [List.map_id, List.map_id] at hsame

/-! ## Reading one line -/

/-- Lines at one level are told apart by what follows their indentation. -/
theorem render_inj {level : Nat} {ps qs : List Piece} :
    Line.render t ⟨level, ps⟩ = Line.render t ⟨level, qs⟩ ↔
      ps.flatMap (Piece.render t) = qs.flatMap (Piece.render t) := by
  rw [Line.render_eq, Line.render_eq, List.append_cancel_left_eq]
  rfl

/-- A line is never mistaken for a line at a deeper level. -/
theorem render_ne_of_level_lt {k l : Line} (hlevel : k.level < l.level) (hopen : Opens (k.body t)) :
    k.render t ≠ l.render t := by
  intro h
  obtain ⟨d, hd⟩ := Nat.exists_eq_add_of_lt hlevel
  have hspaces : step * l.level = step * k.level + (step * d + 3 + 1) := by
    unfold step
    omega
  rw [Line.render_eq, Line.render_eq, hspaces, List.replicate_add, List.append_assoc,
    List.append_cancel_left_eq, List.replicate_succ] at h
  rw [h] at hopen
  exact absurd hopen (by show ¬(!Text.isBlank ' ') = true; decide)

@[simp] theorem render_code_inj {level : Nat} {a b : String} :
    (Line.code level a).render t = (Line.code level b).render t ↔ a = b := by
  rw [Line.code, Line.code, render_inj]
  simp [Piece.render, String.toList_inj]

theorem literalChars_inj {a b : String} :
    literalChars t a.toList = literalChars t b.toList ↔ a = b := by
  constructor
  · intro h
    exact String.toList_inj.mp
      (literalChars_append_inj (r := []) (s := []) (by rw [h])).1
  · rintro rfl
    rfl

@[simp] theorem render_literal_inj {level : Nat} {a b : String} :
    (Line.literal level a).render t = (Line.literal level b).render t ↔ a = b := by
  rw [Line.literal, Line.literal, render_inj]
  simp [Piece.render, literalChars_inj]

@[simp] theorem render_argument_inj {level : Nat} {a b : String} :
    (Line.argument level a).render t = (Line.argument level b).render t ↔ a = b := by
  rw [Line.argument, Line.argument, render_inj]
  simp [Piece.render, literalChars_inj]

@[simp] theorem render_around_inj {level : Nat} {before a b after : String} :
    (Line.around level before a after).render t = (Line.around level before b after).render t ↔
      a = b := by
  rw [Line.around, Line.around, render_inj]
  simp [Piece.render, literalChars_inj]

/-- A literal and the code after it are read apart. -/
theorem render_literal_code_inj {level : Nat} {a b x y : String}
    (h : Line.render t ⟨level, [.literal a, .code x]⟩ =
      Line.render t ⟨level, [.literal b, .code y]⟩) : a = b ∧ x = y := by
  rw [render_inj] at h
  simp only [List.flatMap_cons, List.flatMap_nil, Piece.render, List.append_nil] at h
  obtain ⟨hraw, hcode⟩ := literalChars_append_inj h
  exact ⟨String.toList_inj.mp hraw, String.toList_inj.mp hcode⟩

/-- A name, the code after it and a literal are read apart. -/
theorem render_name_literal_inj {level : Nat} {before name₁ name₂ after raw₁ raw₂ : String}
    (h₁ : Naming.isIdentifier name₁.toList = true) (h₂ : Naming.isIdentifier name₂.toList = true)
    (hafter : after.toList.head?.any (!Naming.isIdentifierChar ·) = true)
    (h : Line.render t ⟨level, [.code (before ++ name₁ ++ after), .literal raw₁]⟩ =
      Line.render t ⟨level, [.code (before ++ name₂ ++ after), .literal raw₂]⟩) :
    name₁ = name₂ ∧ raw₁ = raw₂ := by
  rw [render_inj] at h
  simp only [List.flatMap_cons, List.flatMap_nil, Piece.render, List.append_nil,
    String.toList_append, List.append_assoc, List.append_cancel_left_eq] at h
  cases hlist : after.toList with
  | nil => rw [hlist] at hafter; cases hafter
  | cons x rest =>
    rw [hlist, List.cons_append, List.cons_append] at h
    rw [hlist] at hafter
    have hx : Naming.isIdentifierChar x = false := by simpa using hafter
    obtain ⟨hname, _, hrest⟩ := Naming.identifier_append_inj
      (fun _ => Naming.isIdentifierChar_of_mem h₁) (fun _ => Naming.isIdentifierChar_of_mem h₂)
      hx hx h
    refine ⟨String.toList_inj.mp hname, ?_⟩
    rw [List.append_cancel_left_eq] at hrest
    exact literalChars_inj.mp hrest

end
end EventCodegen.Source
