import EventCodegen.Display.Panel
import EventCodegen.Proofs.FilePaths

/-! Which marked texts can be shown. Only a tag that closes a style stands in the way, and only if
no tag before it opens that style. A text can be shown whatever styles are open (`Shows`) if it has
no tag in it, if none of its brackets has a slash after it (`Opening`), or if it has been escaped
(`shows_escape`). A style may be put around a text without closing tags, even if backslashes at its
end take the closing tag away (`Shows.styled`). -/
namespace EventCodegen.Display

variable {s t u v x inside after : List Char} {opened : List String}

/-! ## Backslashes -/

theorem backslashes_of_getLast? (h : s.getLast? ≠ some '\\') : backslashes s = [] := by
  unfold backslashes
  rw [List.getLast?_eq_head?_reverse] at h
  cases hs : s.reverse with
  | nil => rfl
  | cons c rest =>
    rw [hs, List.head?_cons, ne_eq, Option.some.injEq] at h
    rw [List.takeWhile_cons, beq_false_of_ne h]
    rfl

/-- What stands before a text counts only if nothing is between its backslashes and those there. -/
theorem backslashes_append (h : backslashes x = []) (s : List Char) :
    backslashes (x ++ s) = backslashes s := by
  have hx : x.reverse.takeWhile (· == '\\') = [] := List.reverse_eq_nil_iff.mp h
  unfold backslashes
  rw [List.reverse_append, List.takeWhile_append, hx, List.append_nil]
  split
  · next hall => rw [(List.takeWhile_prefix _).eq_of_length hall]
  · rfl

theorem backslashes_append_replicate (s : List Char) (k : Nat) :
    backslashes (s ++ List.replicate k '\\') = backslashes s ++ List.replicate k '\\' := by
  have hall : ∀ c ∈ List.replicate k '\\', (c == '\\') = true := by
    intro c hc
    rw [List.eq_of_mem_replicate hc]
    rfl
  unfold backslashes
  rw [List.reverse_append, List.reverse_replicate, List.takeWhile_append_of_pos hall,
    List.reverse_append, List.reverse_replicate]

theorem backslashes_eq_replicate (s : List Char) :
    backslashes s = List.replicate (backslashes s).length '\\' := by
  refine List.eq_replicate_iff.mpr ⟨rfl, fun c hc => ?_⟩
  have hmem := List.mem_takeWhile_imp (List.mem_reverse.mp hc)
  exact beq_iff_eq.mp hmem

/-! ## Pieces -/

/-- The pieces of a text `u` that comes after a text `s` without tags. -/
def piecesAfter (s u : List Char) : List Piece :=
  match u.splitOn '[' with
  | [] => []
  | first :: rest => piecesFrom (s ++ first) rest

theorem pieces_eq (u : List Char) : pieces u = piecesAfter [] u := rfl

theorem splitOn_append {first : List Char} {rest : List (List Char)} (hv : '[' ∉ v)
    (hu : u.splitOn '[' = first :: rest) : (v ++ u).splitOn '[' = (v ++ first) :: rest := by
  induction v with
  | nil => exact hu
  | cons c more ih =>
    rw [List.mem_cons, not_or] at hv
    have hc : (c == '[') = false := beq_false_of_ne (Ne.symm hv.1)
    rw [List.cons_append, List.splitOn_cons_eq_if_modifyHead, hc, ih hv.2]
    rfl

theorem exists_splitOn (u : List Char) : ∃ first rest, u.splitOn '[' = first :: rest :=
  List.exists_cons_of_ne_nil (List.splitOn_ne_nil _ _)

theorem piecesAfter_eq {first : List Char} {rest : List (List Char)}
    (hu : u.splitOn '[' = first :: rest) (s : List Char) :
    piecesAfter s u = piecesFrom (s ++ first) rest := by
  rw [piecesAfter, hu]

theorem piecesAfter_end (hv : '[' ∉ v) (s : List Char) : piecesAfter s v = [.plain (s ++ v)] :=
  piecesAfter_eq (List.splitOn_eq_singleton hv) s

/-- Characters before the first bracket belong to the text before. -/
theorem piecesAfter_append (hv : '[' ∉ v) (s u : List Char) :
    piecesAfter s (v ++ u) = piecesAfter (s ++ v) u := by
  obtain ⟨first, rest, hu⟩ := exists_splitOn u
  rw [piecesAfter_eq (splitOn_append hv hu), piecesAfter_eq hu, List.append_assoc]

theorem piecesAfter_cons {first : List Char} {rest : List (List Char)}
    (hu : u.splitOn '[' = first :: rest) (s : List Char) :
    piecesAfter s ('[' :: u) = piecesFrom s (first :: rest) := by
  have hsplit : ('[' :: u).splitOn '[' = [] :: first :: rest := by
    rw [List.splitOn_cons_eq_if_modifyHead, hu]
    rfl
  rw [piecesAfter_eq hsplit, List.append_nil]

theorem tagIn?_cons_eq_none {c : Char} {rest : List Char} :
    tagIn? (c :: rest) = none ↔ ¬(beginsTag c = true ∧ ']' ∈ rest) := by
  simp [tagIn?]

theorem tagIn?_tag {c : Char} (hc : beginsTag c = true) (hinside : ']' ∉ inside)
    (after : List Char) :
    tagIn? (c :: (inside ++ ']' :: after)) = some (c :: inside, after) := by
  have hall : ∀ d ∈ inside, (d != ']') = true := by
    intro d hd
    rw [bne_iff_ne]
    rintro rfl
    exact hinside hd
  have htake : (inside ++ ']' :: after).takeWhile (· != ']') = inside := by
    rw [List.takeWhile_append_of_pos hall]
    simp
  have hdrop : (inside ++ ']' :: after).dropWhile (· != ']') = ']' :: after := by
    rw [List.dropWhile_append_of_pos hall]
    simp
  rw [tagIn?, hc, htake, hdrop]
  simp

theorem tagIn?_eq_some (h : tagIn? t = some (inside, after)) :
    ∃ c i, inside = c :: i ∧ beginsTag c = true ∧ ']' ∉ i ∧ t = inside ++ ']' :: after := by
  cases t with
  | nil => cases h
  | cons c rest =>
    by_cases htag : beginsTag c = true ∧ ']' ∈ rest
    · obtain ⟨i, more, rfl, hi⟩ := List.eq_append_cons_of_mem htag.2
      rw [tagIn?_tag htag.1 hi] at h
      obtain ⟨rfl, rfl⟩ := Prod.mk.inj (Option.some.inj h)
      exact ⟨c, i, rfl, htag.1, hi, rfl⟩
    · rw [tagIn?_cons_eq_none.mpr htag] at h
      cases h

/-- A tag takes the backslashes before it. -/
theorem piecesAfter_tag {c : Char} (hc : beginsTag c = true) (hbracket : '[' ∉ c :: inside)
    (hinside : ']' ∉ inside) (s u : List Char) :
    piecesAfter s ('[' :: c :: inside ++ ']' :: u) =
      .plain (beforeBackslashes s) :: tagPieces (backslashes s) (c :: inside) ++
        piecesAfter [] u := by
  obtain ⟨first, rest, hu⟩ := exists_splitOn u
  have hv : '[' ∉ c :: inside ++ [']'] := by
    rw [List.mem_append, not_or]
    exact ⟨hbracket, by decide⟩
  have hsplit : (c :: inside ++ ']' :: u).splitOn '[' =
      (c :: (inside ++ ']' :: first)) :: rest := by
    simpa using splitOn_append hv hu
  rw [List.cons_append, piecesAfter_cons hsplit, piecesFrom, tagIn?_tag hc hinside,
    piecesAfter_eq hu]
  rfl

/-- A bracket that begins no tag belongs to the text before. -/
theorem piecesAfter_bracket (hv : '[' ∉ v) (hnone : tagIn? v = none)
    (hu : u = [] ∨ ∃ rest, u = '[' :: rest) (s : List Char) :
    piecesAfter s ('[' :: v ++ u) = piecesAfter (s ++ '[' :: v) u := by
  -- nothing of `u` belongs to what follows the bracket
  have hfirst : ∃ rest, u.splitOn '[' = [] :: rest := by
    rcases hu with rfl | ⟨rest, rfl⟩
    · exact ⟨[], rfl⟩
    · rw [List.splitOn_cons_eq_if_modifyHead]
      exact ⟨_, rfl⟩
  obtain ⟨rest, hrest⟩ := hfirst
  have hsplit := splitOn_append hv hrest
  rw [List.append_nil] at hsplit
  rw [List.cons_append, piecesAfter_cons hsplit, piecesFrom, hnone, piecesAfter_eq hrest,
    List.append_nil]

/-! ## Styles -/

@[simp] theorem shownFrom_plain (s : List Char) (rest : List Piece) :
    (shownFrom opened (.plain s :: rest)).isSome = (shownFrom opened rest).isSome := by
  rw [shownFrom]
  exact Option.isSome_map

theorem shownFrom_tag {opened' : List String} (h : afterTag? inside opened = some opened')
    (rest : List Piece) :
    shownFrom opened (.tag inside :: rest) = shownFrom opened' rest := by
  rw [shownFrom, h]
  rfl

/-- A tag with backslashes before it is a tag or a plain text. -/
theorem shownFrom_tagPieces {opened' : List String} (h : afterTag? inside opened = some opened')
    (slashes : List Char) {rest : List Piece} (hplain : (shownFrom opened rest).isSome = true)
    (htag : (shownFrom opened' rest).isSome = true) :
    (shownFrom opened (tagPieces slashes inside ++ rest)).isSome = true := by
  rw [tagPieces, List.cons_append, shownFrom_plain]
  split
  · rw [List.cons_append, shownFrom_tag h]
    exact htag
  · rw [List.cons_append, shownFrom_plain]
    exact hplain

/-- A tag without a slash opens a style. -/
theorem afterTag?_opening (h : inside.head? ≠ some '/') (opened : List String) :
    ∃ name, afterTag? inside opened = some (name :: opened) := by
  unfold afterTag?
  split
  · next name hname =>
    have hhead : inside.head? = some '/' := by
      cases inside with
      | nil => cases hname
      | cons c rest =>
        rw [List.takeWhile_cons] at hname
        split at hname
        · rw [(List.cons.inj hname).1]
          rfl
        · cases hname
    exact absurd hhead h
  · exact ⟨_, rfl⟩

/-! ## Texts without closing tags -/

/-- After the pieces of a text without closing tags at least the styles from before it are open. -/
theorem shownFrom_opening {more : List (List Char)}
    (hmore : ∀ opened' s, opened <:+ opened' →
      (shownFrom opened' (piecesFrom s more)).isSome = true)
    {rest : List (List Char)} (hrest : ∀ t ∈ rest, t.head? ≠ some '/') :
    ∀ opened' s, opened <:+ opened' →
      (shownFrom opened' (piecesFrom s (rest ++ more))).isSome = true := by
  induction rest with
  | nil => exact hmore
  | cons t rest ih =>
    rw [List.forall_mem_cons] at hrest
    intro opened' s hopened
    rw [List.cons_append, piecesFrom]
    cases htag : tagIn? t with
    | none => exact ih hrest.2 _ _ hopened
    | some found =>
      obtain ⟨inside, after⟩ := found
      obtain ⟨c, i, rfl, _, _, rfl⟩ := tagIn?_eq_some htag
      obtain ⟨name, hafter⟩ := @afterTag?_opening (c :: i) (by simpa using hrest.1) opened'
      dsimp only
      rw [List.cons_append, shownFrom_plain]
      exact shownFrom_tagPieces hafter _ (ih hrest.2 _ _ hopened)
        (ih hrest.2 _ _ (hopened.trans (List.suffix_cons name opened')))

/-- A text in which no bracket has a slash after it, so that no tag in it closes anything. -/
def Opening (v : List Char) : Prop := ¬['[', '/'] <:+: v

theorem opening_of_no_bracket (h : '[' ∉ v) : Opening v := by
  intro hpair
  exact h (hpair.subset (by decide))

theorem prefix_intercalate (c : Char) (first : List Char) (rest : List (List Char)) :
    first <+: [c].intercalate (first :: rest) := by
  cases rest with
  | nil => simp
  | cons next rest =>
    rw [List.intercalate_cons_of_ne_nil (List.cons_ne_nil next rest), List.append_assoc]
    exact List.prefix_append _ _

theorem infix_intercalate {c : Char} {t : List Char} {rest : List (List Char)} (h : t ∈ rest)
    (first : List Char) : c :: t <:+: [c].intercalate (first :: rest) := by
  induction rest generalizing first with
  | nil => cases h
  | cons next rest ih =>
    rw [List.intercalate_cons_of_ne_nil (List.cons_ne_nil next rest), List.append_assoc]
    rcases List.mem_cons.mp h with rfl | h
    · have hprefix : c :: t <+: c :: [c].intercalate (t :: rest) :=
        List.cons_prefix_cons.mpr ⟨rfl, prefix_intercalate c t rest⟩
      exact hprefix.isInfix.trans (List.suffix_append _ _).isInfix
    · exact (ih h next).trans (List.suffix_append_of_suffix (List.suffix_append _ _)).isInfix

theorem Opening.head? (h : Opening v) {first : List Char} {rest : List (List Char)}
    (hv : v.splitOn '[' = first :: rest) : ∀ t ∈ rest, t.head? ≠ some '/' := by
  intro t ht hhead
  have hwithin := infix_intercalate (c := '[') ht first
  rw [← hv, List.intercalate_splitOn] at hwithin
  obtain ⟨c, more, rfl⟩ := List.exists_cons_of_ne_nil (l := t) (by rintro rfl; cases hhead)
  obtain rfl : c = '/' := Option.some.inj hhead
  exact h (List.IsInfix.trans (List.prefix_append ['[', '/'] more).isInfix hwithin)

/-- A text can be shown where only plain text comes before it, whatever styles are open. -/
def Shows (u : List Char) : Prop :=
  ∀ opened x, backslashes x = [] → (shownFrom opened (piecesAfter x u)).isSome = true

theorem shown?_of_shows {text : String} (h : Shows text.toList) : (shown? text).isSome = true := by
  rw [shown?, pieces_eq]
  exact h [] [] rfl

theorem shows_opening (h : Opening v) : Shows v := by
  intro opened x _
  obtain ⟨first, rest, hv⟩ := exists_splitOn v
  rw [piecesAfter_eq hv, ← List.append_nil rest]
  refine shownFrom_opening (fun opened' s _ => ?_) (h.head? hv) _ _ List.suffix_rfl
  rw [piecesFrom, shownFrom_plain]
  rfl

theorem Shows.append (hu : Shows u) (hv : '[' ∉ v) (hlast : v.getLast? ≠ some '\\') :
    Shows (v ++ u) := by
  intro opened x hx
  rw [piecesAfter_append hv]
  exact hu opened _ ((backslashes_append hx v).trans (backslashes_of_getLast? hlast))

/-! ## A style around a text -/

/-- A name of a style in small letters. -/
structure IsStyle (n : List Char) : Prop where
  letters : n.all (fun c => 'a' ≤ c && c ≤ 'z') = true
  named : (Text.trim n).isEmpty = false

theorem IsStyle.ne_of_mem {n : List Char} (h : IsStyle n) {c : Char} (hc : c ∈ n) {d : Char}
    (hd : ('a' ≤ d && d ≤ 'z') = false) : c ≠ d := by
  rintro rfl
  rw [List.all_eq_true.mp h.letters c hc] at hd
  cases hd

theorem IsStyle.takeWhile {n : List Char} (h : IsStyle n) : n.takeWhile (· != '=') = n := by
  rw [List.takeWhile_eq_self_iff]
  intro c hc
  exact bne_iff_ne.mpr (h.ne_of_mem hc (by decide))

theorem IsStyle.opens {n : List Char} (h : IsStyle n) (opened : List String) :
    afterTag? n opened = some (styleName n :: opened) := by
  unfold afterTag?
  rw [h.takeWhile]
  split
  · next name => exact absurd rfl (h.ne_of_mem List.mem_cons_self (d := '/') (by decide))
  · rfl

theorem IsStyle.closes {n : List Char} (h : IsStyle n) {opened : List String}
    (hopen : styleName n ∈ opened) :
    afterTag? ('/' :: n) opened = some (opened.erase (styleName n)) := by
  have htake : ('/' :: n).takeWhile (· != '=') = '/' :: n := congrArg (List.cons '/') h.takeWhile
  unfold afterTag?
  rw [htake]
  show (if (Text.trim n).isEmpty = true then _ else close? (styleName n) opened) = _
  rw [h.named, close?, if_pos (List.contains_iff_mem.mpr hopen)]
  rfl

/-- A style can be put around a text without closing tags. -/
theorem Shows.styled {n : List Char} (hn : IsStyle n) (hv : Opening v) (hu : Shows u) :
    Shows ('[' :: n ++ ']' :: (v ++ '[' :: '/' :: n ++ ']' :: u)) := by
  intro opened x hx
  have hbracket : '[' ∉ n := fun hc => hn.ne_of_mem hc (by decide) rfl
  have hclose : ']' ∉ n := fun hc => hn.ne_of_mem hc (by decide) rfl
  obtain ⟨c, i, rfl⟩ := List.exists_cons_of_ne_nil (l := n) (by rintro rfl; cases hn.named)
  have hbegins : beginsTag c = true := by
    have hletter := List.all_eq_true.mp hn.letters c List.mem_cons_self
    rw [beginsTag, hletter]
    rfl
  have hinside : ']' ∉ i := fun h => hclose (List.mem_cons_of_mem c h)
  -- the opening tag is one, as there are no backslashes before it
  rw [piecesAfter_tag hbegins hbracket hinside, hx, List.cons_append, shownFrom_plain]
  show (shownFrom opened (.plain [] :: .tag (c :: i) :: _)).isSome = true
  rw [shownFrom_plain, shownFrom_tag (hn.opens opened)]
  -- the text inside opens styles at most, so the closing tag finds its own
  obtain ⟨first, rest, hsplit⟩ := exists_splitOn v
  have hall : (v ++ '[' :: '/' :: (c :: i) ++ ']' :: u).splitOn '[' =
      first :: (rest ++ ('/' :: (c :: i) ++ ']' :: u).splitOn '[') := by
    rw [List.append_assoc, List.cons_append, List.splitOn_append_cons_self, hsplit]
    rfl
  rw [piecesAfter_eq hall]
  refine shownFrom_opening (fun opened' s hopened => ?_) (hv.head? hsplit) _ _ List.suffix_rfl
  have hstyle : styleName (c :: i) ∈ opened' := hopened.mem List.mem_cons_self
  have hslash : '[' ∉ '/' :: c :: i := by
    rw [List.mem_cons, not_or]
    exact ⟨by decide, hbracket⟩
  obtain ⟨last, more, hlast⟩ := exists_splitOn ('/' :: (c :: i) ++ ']' :: u)
  rw [hlast, ← piecesAfter_cons hlast]
  show (shownFrom opened' (piecesAfter s ('[' :: '/' :: (c :: i) ++ ']' :: u))).isSome = true
  rw [piecesAfter_tag (by decide) hslash hclose, List.cons_append, shownFrom_plain]
  exact shownFrom_tagPieces (hn.closes hstyle) _ (hu _ [] rfl) (hu _ [] rfl)

/-! ## Escaped texts -/

/-- A text in which no bracket begins a tag, whatever backslashes are put after it. -/
def Inert (s : List Char) : Prop :=
  ∀ x k r, (r = [] ∨ ∃ rest, r = '[' :: rest) →
    piecesAfter x (s ++ List.replicate k '\\' ++ r) =
      piecesAfter (x ++ s ++ List.replicate k '\\') r

theorem not_mem_append_replicate (h : '[' ∉ s) (k : Nat) : '[' ∉ s ++ List.replicate k '\\' := by
  rw [List.mem_append, not_or]
  exact ⟨h, fun hmem => absurd (List.eq_of_mem_replicate hmem) (by decide)⟩

theorem inert_of_no_bracket (h : '[' ∉ s) : Inert s := by
  intro x k r _
  rw [piecesAfter_append (not_mem_append_replicate h k), ← List.append_assoc]

theorem tagIn?_append_replicate (h : tagIn? t = none) (k : Nat) :
    tagIn? (t ++ List.replicate k '\\') = none := by
  cases t with
  | nil =>
    cases k with
    | zero => rfl
    | succ k => exact tagIn?_cons_eq_none.mpr fun htag => absurd htag.1 (by decide)
  | cons c rest =>
    refine tagIn?_cons_eq_none.mpr fun htag => tagIn?_cons_eq_none.mp h ⟨htag.1, ?_⟩
    refine (List.mem_append.mp htag.2).resolve_right fun hmem => ?_
    exact absurd (List.eq_of_mem_replicate hmem) (by decide)

/-- A bracket that begins no tag begins none with backslashes after it either. -/
theorem Inert.append_bracket (hs : Inert s) (hbracket : '[' ∉ t) (hnone : tagIn? t = none) :
    Inert (s ++ '[' :: t) := by
  intro x k r hr
  have hbefore := hs x 0 ('[' :: (t ++ List.replicate k '\\') ++ r) (Or.inr ⟨_, rfl⟩)
  have hafter := piecesAfter_bracket (not_mem_append_replicate hbracket k)
    (tagIn?_append_replicate hnone k) hr (x ++ s)
  rw [List.replicate_zero, List.append_nil, List.append_nil] at hbefore
  simpa using hbefore.trans hafter

/-- Behind an odd number of backslashes a tag is a plain text. -/
theorem tagPieces_escaped (k : Nat) (inside : List Char) :
    tagPieces (List.replicate (k + k + 1) '\\') inside =
      [.plain (List.replicate k '\\'), .plain ('[' :: inside ++ [']'])] := by
  have hhalf : (k + k + 1) / 2 = k := by omega
  have hodd : (k + k + 1) % 2 ≠ 0 := by omega
  rw [tagPieces, List.length_replicate, hhalf, if_neg hodd]

theorem closeEscape_append (h : backslashes x = []) (s : List Char) :
    closeEscape (x ++ s) = x ++ closeEscape s := by
  unfold closeEscape
  rw [backslashes_append h]
  split
  · rw [List.append_assoc]
  · rfl

theorem Inert.shows_closeEscape (hs : Inert s) : Shows (closeEscape s) := by
  have hplain : ∀ k, Shows (s ++ List.replicate k '\\') := by
    intro k opened x _
    have hpieces := hs x k [] (Or.inl rfl)
    rw [List.append_nil, piecesAfter_end List.not_mem_nil] at hpieces
    rw [hpieces, shownFrom_plain]
    rfl
  unfold closeEscape
  split
  · exact hplain 1
  · have h := hplain 0
    rwa [List.replicate_zero, List.append_nil] at h

/-- The backslashes put before a tag leave an odd number of them there. -/
theorem shows_escapeFrom {rest : List (List Char)} (hs : Inert s) (hrest : ∀ t ∈ rest, '[' ∉ t) :
    Shows (closeEscape (escapeFrom s rest)) := by
  induction rest generalizing s with
  | nil => exact hs.shows_closeEscape
  | cons t rest ih =>
    rw [List.forall_mem_cons] at hrest
    unfold escapeFrom
    cases htag : tagIn? t with
    | none => exact ih (hs.append_bracket hrest.1 htag) hrest.2
    | some found =>
      obtain ⟨inside, after⟩ := found
      obtain ⟨c, i, rfl, hbegins, hinside, rfl⟩ := tagIn?_eq_some htag
      obtain ⟨hbracket, hafter⟩ := not_or.mp (mt List.mem_append.mpr hrest.1)
      have hshows := ih (inert_of_no_bracket (mt (List.mem_cons_of_mem ']') hafter)) hrest.2
      intro opened x hx
      -- `k` backslashes stand before the tag, `k + 1` more are put there
      obtain ⟨k, hk⟩ : ∃ k, backslashes s = List.replicate k '\\' :=
        ⟨_, backslashes_eq_replicate s⟩
      have hslashes : backslashes (x ++ s ++ List.replicate (k + 1) '\\') =
          List.replicate (k + k + 1) '\\' := by
        rw [backslashes_append_replicate, backslashes_append hx, hk, ← List.replicate_add]
        rfl
      have hclosed : closeEscape (s ++ backslashes s ++ '\\' :: '[' :: (c :: i) ++
            ']' :: escapeFrom after rest) =
          s ++ List.replicate (k + 1) '\\' ++
            ('[' :: c :: i ++ ']' :: closeEscape (escapeFrom after rest)) := by
        have hend : backslashes (s ++ backslashes s ++ '\\' :: '[' :: (c :: i) ++ [']']) = [] :=
          backslashes_of_getLast? (by rw [List.getLast?_concat]; decide)
        have hclose := closeEscape_append hend (escapeFrom after rest)
        rw [hk] at hclose ⊢
        simpa [List.replicate_succ'] using hclose
      have hinert := hs x (k + 1) ('[' :: c :: i ++ ']' :: closeEscape (escapeFrom after rest))
        (Or.inr ⟨_, rfl⟩)
      dsimp only
      rw [hclosed, hinert, piecesAfter_tag hbegins hbracket hinside, hslashes, tagPieces_escaped]
      simp only [List.cons_append, List.nil_append, shownFrom_plain]
      exact hshows opened [] rfl

/-- An escaped text can be shown. -/
theorem shows_escape (text : String) : Shows (escape text).toList := by
  unfold escape
  obtain ⟨first, rest, hsplit⟩ := exists_splitOn text.toList
  have hbracket : ∀ t ∈ first :: rest, '[' ∉ t := by
    rw [← hsplit]
    exact fun t ht => Text.not_mem_of_mem_splitOn ht
  rw [List.forall_mem_cons] at hbracket
  rw [hsplit]
  dsimp only
  rw [String.toList_ofList]
  exact shows_escapeFrom (inert_of_no_bracket hbracket.1) hbracket.2

/-! ## Tables and panels -/

theorem isSome_mapM {α β : Type} {f : α → Option β} {items : List α}
    (h : ∀ a ∈ items, (f a).isSome = true) : (items.mapM f).isSome = true := by
  induction items with
  | nil => rfl
  | cons a rest ih =>
    rw [List.forall_mem_cons] at h
    obtain ⟨b, hb⟩ := Option.isSome_iff_exists.mp h.1
    obtain ⟨bs, hbs⟩ := Option.isSome_iff_exists.mp (ih h.2)
    rw [List.mapM_cons, hb, hbs]
    rfl

theorem Table.isSome_cell? {markup : String} (h : Shows markup.toList) :
    (cell? markup).isSome = true :=
  Option.isSome_map.trans (shown?_of_shows h)

/-- A table can be shown if all its texts can. -/
theorem Table.isSome_lines? {t : Table} (hhead : ∀ markup ∈ t.head, Shows markup.toList)
    (hrows : ∀ row ∈ t.rows, ∀ markup ∈ row, Shows markup.toList)
    (htitle : Shows t.title.toList) : t.lines?.isSome = true := by
  obtain ⟨head, hhead⟩ := Option.isSome_iff_exists.mp
    (isSome_mapM fun markup hmarkup => isSome_cell? (hhead markup hmarkup))
  obtain ⟨rows, hrows⟩ := Option.isSome_iff_exists.mp
    (isSome_mapM fun row hrow => isSome_mapM fun markup hmarkup =>
      isSome_cell? (hrows row hrow markup hmarkup))
  obtain ⟨title, htitle⟩ := Option.isSome_iff_exists.mp (shown?_of_shows htitle)
  rw [lines?, hhead, hrows, htitle]
  rfl

theorem Panel.isSome_lines? {p : Panel} (h : Shows p.title.toList) (columns : Nat) :
    (p.lines? columns).isSome = true := by
  obtain ⟨title, htitle⟩ := Option.isSome_iff_exists.mp (shown?_of_shows h)
  rw [lines?, htitle]
  rfl

end EventCodegen.Display
