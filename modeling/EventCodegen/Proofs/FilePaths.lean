import EventCodegen.Files.Replace
import EventCodegen.Proofs.LaidOutLines

/-! Paths built from texts. A plain name is a part of a path as it is, so plain names make the path
with these parts (`ofStrings_plain`), and its text writes it (`ofString_text`). Of other texts two
things can be told: where a path starts is decided by a text with a slash in front
(`start_ofStrings_iff`), and every part of the path comes from one of the texts
(`exists_of_mem_ofStrings`). Where only files have a dot in their names (`Filed`), no file takes the
place of a directory (`Filed.eq_of_prefix_parts`). -/
namespace EventCodegen

namespace Text

/-! ## Texts taken apart -/

theorem not_mem_of_mem_parts {c : Char} {s part : String} (h : part ∈ parts c s) :
    c ∉ part.toList := by
  obtain ⟨l, hl, rfl⟩ := List.mem_map.mp h
  rw [String.toList_ofList]
  exact not_mem_of_mem_splitOn hl

/-- Texts without the separator are found again once they have been joined. -/
theorem parts_joined {c : Char} {texts : List String} (hne : texts ≠ [])
    (h : ∀ s ∈ texts, c ∉ s.toList) : parts c (joined (String.singleton c) texts) = texts := by
  have hsplit : (joined (String.singleton c) texts).toList.splitOn c = texts.map String.toList := by
    rw [joined, String.toList_intercalate, String.toList_singleton]
    exact List.splitOn_intercalate c (List.forall_mem_map.mpr h) (by simpa using hne)
  have hid : String.ofList ∘ String.toList = id := funext fun _ => String.ofList_toList
  rw [parts, hsplit, List.map_map, hid, List.map_id]

/-- Every part of a text stands before its separator or at the end. -/
theorem infix_of_mem_splitOn {c : Char} {s l : List Char} (h : l ∈ s.splitOn c) :
    l ++ [c] <:+: s ++ [c] := by
  have hjoined : ∀ ls : List (List Char), l ∈ ls → l ++ [c] <:+: [c].intercalate ls ++ [c] := by
    intro ls
    induction ls with
    | nil => exact fun hl => absurd hl List.not_mem_nil
    | cons k rest ih =>
      intro hl
      by_cases hrest : rest = []
      · subst hrest
        rw [List.mem_singleton.mp hl]
        simp
      · rw [List.intercalate_cons_of_ne_nil hrest, List.append_assoc]
        rcases List.mem_cons.mp hl with rfl | hl
        · exact (List.prefix_append _ _).isInfix
        · exact (ih hl).trans (List.suffix_append _ _).isInfix
  have hself := hjoined _ h
  rwa [List.intercalate_splitOn] at hself

/-- What a text is split into is made of its own characters. -/
theorem subset_of_mem_splitOn {c : Char} {s l : List Char} (h : l ∈ s.splitOn c) : l ⊆ s := by
  intro d hd
  have hmem := (infix_of_mem_splitOn h).subset (List.mem_append_left [c] hd)
  refine (List.mem_append.mp hmem).resolve_right fun hc => ?_
  rw [List.mem_singleton.mp hc] at hd
  exact not_mem_of_mem_splitOn h hd

/-- Joined texts hold nothing but their characters and those of the separators. -/
theorem not_mem_joined {c : Char} {separator : String} (hc : c ∉ separator.toList)
    {texts : List String} (h : ∀ s ∈ texts, c ∉ s.toList) :
    c ∉ (joined separator texts).toList := by
  rw [joined, String.toList_intercalate]
  induction texts with
  | nil => exact List.not_mem_nil
  | cons s rest ih =>
    rw [List.forall_mem_cons] at h
    rw [List.map_cons]
    by_cases hrest : rest = []
    · subst hrest
      rw [List.map_nil, List.intercalate_singleton]
      exact h.1
    · rw [List.intercalate_cons_of_ne_nil (mt List.map_eq_nil_iff.mp hrest), List.mem_append,
        List.mem_append, not_or, not_or]
      exact ⟨⟨h.1, hc⟩, ih h.2⟩

theorem parts_of_not_mem {c : Char} {s : String} (h : c ∉ s.toList) : parts c s = [s] := by
  have hjoined : joined (String.singleton c) [s] = s := String.intercalate_singleton
  have hparts := parts_joined (c := c) (List.cons_ne_nil s []) (by simpa using h)
  rwa [hjoined] at hparts

theorem parts_append {c : Char} (a b : String) :
    parts c (a ++ String.singleton c ++ b) = parts c a ++ parts c b := by
  simp only [parts, String.toList_append, String.toList_singleton, List.append_assoc,
    List.singleton_append, List.splitOn_append_cons_self, List.map_append]

end Text

namespace Path

/-! ## Plain names -/

/-- A name that a path keeps as it is, and that leads nowhere but down. -/
structure IsPlain (name : String) : Prop where
  ne_empty : name ≠ ""
  ne_dot : name ≠ "."
  ne_dots : name ≠ ".."
  no_slash : '/' ∉ name.toList

theorem IsPlain.isName {name : String} (h : IsPlain name) : isName name = true := by
  simp [Path.isName, h.ne_empty, h.ne_dot]

/-- Whether the text of a path begins with a slash. -/
def Rooted (s : String) : Prop := s.toList.head? = some '/'

instance : DecidablePred Rooted := fun _ => inferInstanceAs (Decidable (_ = _))

theorem start_ofString_iff (s : String) : (ofString s).start = .here ↔ ¬Rooted s := by
  unfold ofString Rooted
  cases hs : s.toList with
  | nil => simp [startOf]
  | cons c rest =>
    by_cases hc : c = '/'
    · subst hc
      have hlength : ((('/' :: rest).takeWhile (· == '/')).length) =
          (rest.takeWhile (· == '/')).length + 1 := by simp
      simp only [startOf, hlength, List.head?_cons, not_true, iff_false]
      split
      · omega
      · nofun
      · nofun
    · simp [startOf, hc]

theorem start_of_no_slash {s : String} (h : '/' ∉ s.toList) : (ofString s).start = .here := by
  rw [start_ofString_iff]
  intro hroot
  exact h (List.mem_of_head? hroot)

theorem ofString_plain {name : String} (h : IsPlain name) : ofString name = ⟨.here, [name]⟩ := by
  have hstart := start_of_no_slash h.no_slash
  have hparts : (ofString name).parts = [name] := by
    show (Text.parts '/' name).filter Path.isName = [name]
    rw [Text.parts_of_not_mem h.no_slash]
    simp [h.isName]
  cases hp : ofString name with
  | mk start parts =>
    rw [hp] at hstart hparts
    exact congrArg₂ Path.mk hstart hparts

/-! ## Paths of several texts -/

theorem ofStrings_concat (texts : List String) (s : String) :
    ofStrings (texts ++ [s]) = (ofStrings texts).join (ofString s) := by
  simp [ofStrings]

theorem join_here (p : Path) (names : List String) :
    p.join ⟨.here, names⟩ = ⟨p.start, p.parts ++ names⟩ := rfl

theorem join_of_start_ne {q : Path} (h : q.start ≠ .here) (p : Path) : p.join q = q := by
  unfold join
  split
  · next hstart => exact absurd hstart h
  · rfl

theorem forall_parts_join {P : String → Prop} {p q : Path} (hp : ∀ part ∈ p.parts, P part)
    (hq : ∀ part ∈ q.parts, P part) : ∀ part ∈ (p.join q).parts, P part := by
  unfold join
  split
  · exact List.forall_mem_append.mpr ⟨hp, hq⟩
  · exact hq

theorem ofStrings_plain {names : List String} (h : ∀ n ∈ names, IsPlain n) :
    ofStrings names = ⟨.here, names⟩ := by
  induction names using List.reverseRecOn with
  | nil => rfl
  | append_singleton init last ih =>
    have hinit := ih fun n hn => h n (List.mem_append_left _ hn)
    have hlast := h last (List.mem_append_right _ (List.mem_singleton_self last))
    rw [ofStrings_concat, hinit, ofString_plain hlast, join_here]

/-- A path goes on from where it is taken unless one of its texts begins with a slash. -/
theorem start_ofStrings_iff (texts : List String) :
    (ofStrings texts).start = .here ↔ ∀ s ∈ texts, ¬Rooted s := by
  induction texts using List.reverseRecOn with
  | nil => exact ⟨fun _ _ h => absurd h List.not_mem_nil, fun _ => rfl⟩
  | append_singleton init last ih =>
    rw [ofStrings_concat, List.forall_mem_append, List.forall_mem_singleton, ← ih,
      ← start_ofString_iff]
    by_cases hlast : (ofString last).start = .here
    · have hjoin : ((ofStrings init).join (ofString last)).start = (ofStrings init).start := by
        unfold join
        rw [hlast]
      rw [hjoin]
      exact (and_iff_left hlast).symm
    · rw [join_of_start_ne hlast]
      exact ⟨fun h => absurd h hlast, fun h => h.2⟩

/-- Every part of a path stands in one of the texts that it is made of. -/
theorem exists_of_mem_ofStrings {texts : List String} {part : String}
    (h : part ∈ (ofStrings texts).parts) : ∃ s ∈ texts, part ∈ (ofString s).parts := by
  induction texts using List.reverseRecOn with
  | nil => cases h
  | append_singleton init last ih =>
    rw [ofStrings_concat] at h
    have hparts : part ∈ (ofStrings init).parts ∨ part ∈ (ofString last).parts := by
      unfold join at h
      split at h
      · exact List.mem_append.mp h
      · exact Or.inr h
    rcases hparts with hinit | hlast
    · obtain ⟨s, hs, hpart⟩ := ih hinit
      exact ⟨s, List.mem_append_left _ hs, hpart⟩
    · exact ⟨last, List.mem_append_right _ (List.mem_singleton_self last), hlast⟩

/-- The parts of a text hold no characters but its own. -/
theorem mem_of_mem_parts {s part : String} (h : part ∈ (ofString s).parts) {c : Char}
    (hc : c ∈ part.toList) : c ∈ s.toList := by
  obtain ⟨hpart, _⟩ := List.mem_filter.mp h
  obtain ⟨l, hl, rfl⟩ := List.mem_map.mp hpart
  rw [String.toList_ofList] at hc
  exact Text.subset_of_mem_splitOn hl hc

/-! ## The text of a path -/

theorem text_here {names : List String} (hne : names ≠ []) :
    text ⟨.here, names⟩ = Text.joined "/" names := by
  unfold text
  rw [if_neg fun h => hne h.2]
  exact String.empty_append

/-- The text of a path of plain names writes that path. -/
theorem ofString_text {names : List String} (hne : names ≠ []) (h : ∀ n ∈ names, IsPlain n) :
    ofString (text ⟨.here, names⟩) = ⟨.here, names⟩ := by
  rw [text_here hne]
  have hparts : (ofString (Text.joined "/" names)).parts = names := by
    show (Text.parts '/' (Text.joined (String.singleton '/') names)).filter Path.isName = names
    rw [Text.parts_joined hne fun n hn => (h n hn).no_slash, List.filter_eq_self]
    exact fun n hn => (h n hn).isName
  have hstart : (ofString (Text.joined "/" names)).start = .here := by
    rw [start_ofString_iff, Rooted, Text.joined, String.toList_intercalate]
    cases names with
    | nil => exact absurd rfl hne
    | cons first rest =>
      -- the text begins as its first name does
      have hfirst := h first List.mem_cons_self
      cases hlist : first.toList with
      | nil => exact absurd (String.toList_injective hlist) hfirst.ne_empty
      | cons c more =>
        have hc : c ≠ '/' := by
          rintro rfl
          exact hfirst.no_slash (by rw [hlist]; exact List.mem_cons_self)
        cases rest with
        | nil => simpa [hlist] using hc
        | cons second others => simpa [hlist, List.intercalate_cons_of_ne_nil] using hc
  cases hp : ofString (Text.joined "/" names) with
  | mk start parts =>
    rw [hp] at hstart hparts
    exact congrArg₂ Path.mk hstart hparts

/-! ## Files and directories -/

theorem isBelow_iff {p : Path} : p.isBelow = true ↔ p.start = .here ∧ ".." ∉ p.parts := by
  simp only [isBelow, Bool.and_eq_true, beq_iff_eq, List.all_eq_true, bne_iff_ne,
    ← List.forall_mem_ne']

theorem parts_eq {p : Path} (h : p.parts ≠ []) : p.parent.parts ++ [p.name] = p.parts := by
  have hlast : ∀ {names : List String} (h : names ≠ []), names.getLastD "" = names.getLast h
    | _ :: _, _ => rfl
  rw [Path.name, hlast h]
  exact List.dropLast_concat_getLast h

/-- A path that leads down to a file: only the last name has a dot in it, and that is not the name
of a temporary file. -/
structure Filed (p : Path) : Prop where
  start : p.start = .here
  named : p.parts ≠ []
  plain : ∀ n ∈ p.parts, IsPlain n
  directories : ∀ n ∈ p.parent.parts, '.' ∉ n.toList
  dotted : '.' ∈ p.name.toList
  kept : ¬FileTree.temporaryEnding.toList <:+ p.name.toList

namespace Filed

variable {p q : Path}

theorem eq (hp : Filed p) : p = ⟨.here, p.parts⟩ := by
  rw [← hp.start]

theorem ne_dots (hp : Filed p) : ∀ n ∈ p.parts, n ≠ ".." := fun n hn => (hp.plain n hn).ne_dots

theorem name_mem (hp : Filed p) : p.name ∈ p.parts := by
  rw [← parts_eq hp.named]
  exact List.mem_append_right _ (List.mem_singleton_self _)

theorem isBelow (hp : Filed p) : p.isBelow = true :=
  isBelow_iff.mpr ⟨hp.start, fun hmem => hp.ne_dots _ hmem rfl⟩

theorem ofString_text (hp : Filed p) : ofString p.text = p := by
  rw [hp.eq]
  exact Path.ofString_text hp.named hp.plain

/-- No file lies below another one. -/
theorem eq_of_prefix_parts (hp : Filed p) (hq : Filed q) (h : p.parts <+: q.parts) : p = q := by
  have hparts : p.parts = q.parts := by
    rw [← parts_eq hq.named, List.prefix_concat_iff, parts_eq hq.named] at h
    rcases h with h | h
    · exact h
    · exact absurd hp.dotted (hq.directories _ (h.subset hp.name_mem))
  rw [hp.eq, hq.eq, hparts]

end Filed

end Path
end EventCodegen
