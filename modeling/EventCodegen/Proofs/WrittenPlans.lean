import EventCodegen.Proofs.JsonTexts

/-! A plan that is written as JSON is read back. What is written is a row of tokens, marks and
string literals, and any white space may stand around them (`Json.Spaced`). A row that spells a
value is read as that value wherever it stands, up to the white space behind it (`Json.ReadAs`):
literals first, then arrays and objects from their parts. A plan is three such levels of objects in
arrays. -/
namespace EventCodegen

namespace Json

/-! ## Tokens and white space -/

/-- The tokens of a text, in order. -/
abbrev Tokens := List (List Char)

/-- Nothing but white space. -/
def Blank (s : List Char) : Prop := ∀ c ∈ s, isSpace c = true

/-- A text made of tokens with any amount of white space behind each of them. -/
inductive Spaced : Tokens → List Char → Prop
  | nil : Spaced [] []
  | cons {token gap s : List Char} {tokens : Tokens} :
    Blank gap → Spaced tokens s → Spaced (token :: tokens) (token ++ (gap ++ s))

variable {tokens first second : Tokens} {token s gap : List Char}

theorem skipSpace_blank (h : Blank gap) (s : List Char) : skipSpace (gap ++ s) = skipSpace s :=
  List.dropWhile_append_of_pos h

/-- A text begins with its first token. -/
theorem Spaced.uncons (h : Spaced (token :: tokens) s) :
    ∃ gap t, Blank gap ∧ Spaced tokens t ∧ s = token ++ (gap ++ t) := by
  cases h with
  | cons hgap ht => exact ⟨_, _, hgap, ht, rfl⟩

/-- A text is cut where its tokens are. -/
theorem Spaced.split (h : Spaced (first ++ second) s) :
    ∃ t u, s = t ++ u ∧ Spaced first t ∧ Spaced second u := by
  induction first generalizing s with
  | nil => exact ⟨[], s, rfl, .nil, h⟩
  | cons token more ih =>
    obtain ⟨gap, t, hgap, ht, rfl⟩ := h.uncons
    obtain ⟨u, v, rfl, hu, hv⟩ := ih ht
    exact ⟨token ++ (gap ++ u), v, by simp only [List.append_assoc], .cons hgap hu, hv⟩

/-- A mark is read, and then the white space behind it. -/
theorem Spaced.mark {c : Char} (h : Spaced ([c] :: tokens) s) (rest : List Char) :
    ∃ u t, s ++ rest = c :: u ∧ skipSpace u = skipSpace (t ++ rest) ∧ Spaced tokens t ∧
      t.length < s.length := by
  obtain ⟨gap, t, hgap, ht, rfl⟩ := h.uncons
  refine ⟨gap ++ (t ++ rest), t, ?_, skipSpace_blank hgap _, ht, ?_⟩
  · rw [List.append_assoc, List.append_assoc]
    rfl
  · simp only [List.length_append, List.length_cons]
    omega

/-- The same white space behind every token. -/
theorem spaced_flatMap (hgap : Blank gap) (tokens : Tokens) :
    Spaced tokens (tokens.flatMap fun token => token ++ gap) := by
  induction tokens with
  | nil => exact .nil
  | cons token more ih =>
    rw [List.flatMap_cons, List.append_assoc]
    exact .cons hgap ih

/-! ## Tokens of values -/

/-- The tokens of an array whose items have the given ones. -/
def arrayTokens (items : List Tokens) : Tokens :=
  ['['] :: ([[',']].intercalate items ++ [[']']])

/-- The tokens of a member: its name, a colon and its value. -/
def memberTokens (m : String × Tokens) : Tokens := quotedText m.1.toList :: [':'] :: m.2

/-- The tokens of an object whose members have the given ones. -/
def objectTokens (members : List (String × Tokens)) : Tokens :=
  ['\x7b'] :: ([[',']].intercalate (members.map memberTokens) ++ [['\x7d']])

/-- Tokens are read as a value, however they are spaced and whatever comes after them. Only white
space is left before what comes after. -/
def ReadAs (tokens : Tokens) (x : Json) : Prop :=
  ∀ (s rest : List Char) (fuel : Nat), Spaced tokens s → 2 * s.length < fuel →
    ∃ after, parseValue fuel (s ++ rest) = .ok (x, after) ∧ skipSpace after = skipSpace rest

/-- What is read as a value begins one. -/
theorem ReadAs.begins {x : Json} (h : ReadAs tokens x) (hs : Spaced tokens s) : Begins s := by
  obtain ⟨after, hread, _⟩ := h s [] _ hs (Nat.lt_succ_self _)
  rw [List.append_nil] at hread
  exact begins_of_parseValue hread

theorem readAs_text (t : String) : ReadAs [quotedText t.toList] (text t) := by
  rintro s rest (_ | fuel) hs hfuel
  · cases hfuel
  · obtain ⟨gap, u, hgap, hu, rfl⟩ := hs.uncons
    cases hu
    refine ⟨gap ++ rest, ?_, skipSpace_blank hgap rest⟩
    have hquoted : quotedText t.toList ++ (gap ++ []) ++ rest = Text.doubleQuote ::
        (t.toList.flatMap escapedChar ++ Text.doubleQuote :: (gap ++ rest)) := by
      simp [quotedText]
    rw [hquoted]
    exact parseValue_string (scanString_quotedText _ t _)

/-- A value is read up to the mark behind it. -/
theorem ReadAs.upTo {x : Json} {part : Tokens} (hx : ReadAs part x) {c : Char}
    (hc : isSpace c = false) (hs : Spaced (part ++ [c] :: tokens) s) {fuel : Nat}
    (hfuel : 2 * s.length < fuel + 1) (rest : List Char) :
    ∃ after behind t, parseValue fuel (s ++ rest) = .ok (x, after) ∧
      skipSpace after = c :: behind ∧ skipSpace behind = skipSpace (t ++ rest) ∧
      Spaced tokens t ∧ t.length < s.length := by
  obtain ⟨u, v, rfl, hu, hv⟩ := hs.split
  obtain ⟨behind, t, hmark, hbehind, ht, hless⟩ := hv.mark rest
  rw [List.length_append] at hfuel ⊢
  obtain ⟨after, hvalue, hafter⟩ := hx u (v ++ rest) fuel hu (by omega)
  refine ⟨after, behind, t, ?_, ?_, hbehind, ht, by omega⟩
  · rw [List.append_assoc, hvalue]
  · rw [hafter, hmark]
    exact List.dropWhile_cons_of_neg (by rw [hc]; exact Bool.false_ne_true)

/-- The items of an array are read one after the other, up to its closing bracket. -/
theorem parseItems_spaced {part : Tokens} {parts : List Tokens} {x : Json} {items : List Json}
    (hx : ReadAs part x) (hitems : List.Forall₂ ReadAs parts items) {fuel : Nat}
    (read : List Json) {s : List Char}
    (hs : Spaced ([[',']].intercalate (part :: parts) ++ [[']']]) s) (hfuel : 2 * s.length < fuel)
    (rest : List Char) :
    ∃ after, parseItems fuel read (s ++ rest) = .ok (.arr (read.reverse ++ x :: items), after) ∧
      skipSpace after = skipSpace rest := by
  obtain ⟨fuel, rfl⟩ : ∃ f, fuel = f + 1 := ⟨fuel - 1, by omega⟩
  induction hitems generalizing part x fuel read s with
  | nil =>
    rw [List.intercalate_singleton] at hs
    obtain ⟨after, behind, t, hvalue, hmark, hbehind, ht, _⟩ := hx.upTo rfl hs hfuel rest
    cases ht
    exact ⟨behind, by rw [parseItems_close hvalue hmark, List.reverse_cons], hbehind⟩
  | @cons next y parts items hy hmore ih =>
    rw [List.intercalate_cons_cons, List.append_assoc, List.append_assoc,
      List.singleton_append] at hs
    obtain ⟨after, behind, t, hvalue, hmark, hbehind, ht, hless⟩ := hx.upTo rfl hs hfuel rest
    obtain ⟨fuel, rfl⟩ : ∃ f, fuel = f + 1 := ⟨fuel - 1, by omega⟩
    obtain ⟨last, hread, hlast⟩ := ih hy (x :: read) ht fuel (by omega)
    have hbegins := (begins_of_parseItems hread).skipSpace []
    rw [List.append_nil] at hbegins
    refine ⟨last, ?_, hlast⟩
    rw [parseItems_more hvalue hmark, hbehind, hbegins, hread, List.reverse_cons, List.append_assoc,
      List.singleton_append]

/-- A member is read up to the mark behind it. -/
theorem ReadAs.member {name : String} {part : Tokens} {x : Json} (hx : ReadAs part x) {c : Char}
    (hc : isSpace c = false) (hs : Spaced (memberTokens (name, part) ++ [c] :: tokens) s)
    {fuel : Nat} (hfuel : 2 * s.length < fuel + 1) (rest : List Char) :
    ∃ u v after behind t, s ++ rest = quotedText name.toList ++ u ∧ skipSpace u = ':' :: v ∧
      parseValue fuel (skipSpace v) = .ok (x, after) ∧
      skipSpace after = c :: behind ∧ skipSpace behind = skipSpace (t ++ rest) ∧
      Spaced tokens t ∧ t.length < s.length := by
  obtain ⟨gap, u, hgap, hu, rfl⟩ := hs.uncons
  obtain ⟨gap', v, hgap', hv, rfl⟩ := hu.uncons
  have hlength : v.length < (quotedText name.toList ++ (gap ++ ([':'] ++ (gap' ++ v)))).length := by
    simp only [List.length_append, List.length_cons]
    omega
  have hvfuel : 2 * v.length < fuel + 1 :=
    (Nat.mul_le_mul_left 2 hlength.le).trans_lt hfuel
  obtain ⟨after, behind, t, hvalue, hmark, hbehind, ht, hless⟩ := hx.upTo hc hv hvfuel rest
  refine ⟨gap ++ (':' :: (gap' ++ (v ++ rest))), gap' ++ (v ++ rest), after, behind, t, ?_, ?_, ?_,
    hmark, hbehind, ht, hless.trans hlength⟩
  · simp only [List.append_assoc, List.cons_append, List.nil_append]
  · rw [skipSpace_blank hgap]
    rfl
  · have hbegins := (begins_of_parseValue hvalue).skipSpace []
    rw [List.append_nil] at hbegins
    rw [skipSpace_blank hgap', hbegins, hvalue]

/-- The members of an object are read one after the other, up to its closing brace. -/
theorem parseMembers_spaced {name : String} {part : Tokens} {x : Json}
    {parts : List (String × Tokens)} {members : Fields} (hx : ReadAs part x)
    (hmembers : List.Forall₂ (fun m n => n.1 = .text m.1 ∧ ReadAs m.2 n.2) parts members)
    {fuel : Nat} (read : Fields) {s : List Char}
    (hnames : Distinct (read ++ (.text name, x) :: members))
    (hs : Spaced ([[',']].intercalate (((name, part) :: parts).map memberTokens) ++ [['\x7d']]) s)
    (hfuel : 2 * s.length < fuel) (rest : List Char) :
    ∃ after, parseMembers fuel read (s ++ rest) =
        .ok (.obj (read ++ (.text name, x) :: members), after) ∧
      skipSpace after = skipSpace rest := by
  obtain ⟨fuel, rfl⟩ : ∃ f, fuel = f + 1 := ⟨fuel - 1, by omega⟩
  induction hmembers generalizing name part x fuel read s with
  | nil =>
    rw [List.map_singleton, List.intercalate_singleton] at hs
    obtain ⟨u, v, after, behind, t, hu, hv, hvalue, hmark, hbehind, ht, _⟩ :=
      hx.member rfl hs hfuel rest
    cases ht
    refine ⟨behind, ?_, hbehind⟩
    have hnew := not_mem_memberNames_of_distinct hnames
    rw [hu, parseMembers_named hv hvalue, put_of_new hnew, hmark]
    rfl
  | @cons m n parts members hm hmore ih =>
    obtain ⟨next, npart⟩ := m
    obtain ⟨_, y⟩ := n
    obtain ⟨rfl, hy⟩ := hm
    rw [List.map_cons, List.map_cons, List.intercalate_cons_cons, List.append_assoc,
      List.append_assoc, List.singleton_append] at hs
    obtain ⟨u, v, after, behind, t, hu, hv, hvalue, hmark, hbehind, ht, hless⟩ :=
      hx.member rfl hs hfuel rest
    obtain ⟨fuel, rfl⟩ : ∃ f, fuel = f + 1 := ⟨fuel - 1, by omega⟩
    have hrest : Distinct ((read ++ [(.text name, x)]) ++ (.text next, y) :: members) := by
      rw [List.append_assoc]
      exact hnames
    obtain ⟨last, hread, hlast⟩ := ih hy _ hrest ht fuel (by omega)
    obtain ⟨w, hw⟩ := begins_of_parseMembers hread
    have hskip : skipSpace (t ++ rest) = t ++ rest := by
      rw [hw]
      rfl
    rw [List.append_assoc, List.singleton_append] at hread
    refine ⟨last, ?_, hlast⟩
    have hnew := not_mem_memberNames_of_distinct hnames
    rw [hu, parseMembers_named hv hvalue, put_of_new hnew, hmark]
    show parseMembers _ _ (skipSpace behind) = _
    rw [hbehind, hskip]
    exact hread

theorem readAs_arr {parts : List Tokens} {items : List Json} (h : List.Forall₂ ReadAs parts items) :
    ReadAs (arrayTokens parts) (.arr items) := by
  rintro s rest (_ | fuel) hs hfuel
  · cases hfuel
  · obtain ⟨u, t, hu, hskip, ht, hless⟩ := hs.mark rest
    rw [hu]
    cases h with
    | nil =>
      obtain ⟨after, _, hclose, hafter, hend, _⟩ := Spaced.mark ht rest
      cases hend
      have hskip : skipSpace u = ']' :: after := by
        rw [hskip, hclose]
        rfl
      exact ⟨after, parseValue_noItems hskip, hafter⟩
    | cons hx hitems =>
      obtain ⟨after, hread, hafter⟩ := parseItems_spaced hx hitems [] ht (by omega : _ < fuel) rest
      have hstart := (begins_of_parseItems hread).skipSpace []
      rw [List.append_nil] at hstart
      refine ⟨after, parseValue_eq_ok.mpr (.items ?_), hafter⟩
      rw [hskip, hstart, hread]
      rfl

theorem readAs_obj {parts : List (String × Tokens)} {members : Fields}
    (h : List.Forall₂ (fun m n => n.1 = .text m.1 ∧ ReadAs m.2 n.2) parts members)
    (hnames : Distinct members) : ReadAs (objectTokens parts) (.obj members) := by
  rintro s rest (_ | fuel) hs hfuel
  · cases hfuel
  · obtain ⟨u, t, hu, hskip, ht, hless⟩ := hs.mark rest
    rw [hu]
    cases h with
    | nil =>
      obtain ⟨after, _, hclose, hafter, hend, _⟩ := Spaced.mark ht rest
      cases hend
      have hskip : skipSpace u = '\x7d' :: after := by
        rw [hskip, hclose]
        rfl
      exact ⟨after, parseValue_noMembers hskip, hafter⟩
    | @cons m n parts members hm hmore =>
      obtain ⟨name, part⟩ := m
      obtain ⟨_, x⟩ := n
      obtain ⟨rfl, hx⟩ := hm
      obtain ⟨after, hread, hafter⟩ :=
        parseMembers_spaced hx hmore [] hnames ht (by omega : _ < fuel) rest
      obtain ⟨w, hw⟩ := begins_of_parseMembers hread
      have hstart : skipSpace (t ++ rest) = t ++ rest := by
        rw [hw]
        rfl
      refine ⟨after, parseValue_eq_ok.mpr (.members ?_), hafter⟩
      rw [hskip, hstart, hread]
      rfl

/-- A text of the tokens of a value is read as that value, with white space before it as well. -/
theorem ReadAs.parse {x : Json} (h : ReadAs tokens x) {whole : String} (hgap : Blank gap)
    (hs : Spaced tokens s) (hwhole : whole.toList = gap ++ s) : parse whole = .ok x := by
  obtain ⟨after, hread, hafter⟩ := h s [] (2 * (gap ++ s).length + 2) hs
    (by rw [List.length_append]; omega)
  rw [List.append_nil] at hread
  have hbegins := begins_of_parseValue hread
  have hstart := hbegins.skipSpace []
  rw [List.append_nil] at hstart
  have hchars : parseChars (gap ++ s) = .ok x := by
    unfold parseChars
    split
    · next heq =>
      -- a byte order mark is no white space, and no value begins with one
      cases gap with
      | nil =>
        obtain ⟨c, t, hc, _, _, hmark⟩ := hbegins
        rw [List.nil_append, hc] at heq
        exact absurd (List.cons.inj heq).1 hmark
      | cons c more =>
        obtain rfl : c = '\uFEFF' := (List.cons.inj heq).1
        exact absurd (hgap _ List.mem_cons_self) (by decide)
    · rw [skipSpace_blank hgap, hstart, hread]
      dsimp only [bind, Except.bind]
      rw [hafter]
      rfl
  rw [Json.parse, hwhole, hchars]
  rfl

end Json

open Json (Tokens Blank Spaced ReadAs arrayTokens objectTokens)

/-! ## Plans -/

/-- The token that writes a text. -/
def literalToken (s : String) : List Char := Source.literalChars .python s.toList

/-- A parameter is written as an object of its key and its value. -/
def Parameter.tokens (p : Parameter) : Tokens :=
  objectTokens [("name", [literalToken p.key]), ("value", [literalToken p.value])]

/-- An event is written as an object of its name and the array of its parameters. -/
def Event.tokens (e : Event) : Tokens :=
  objectTokens [("name", [literalToken e.name]),
    ("parameters", arrayTokens (e.parameters.map Parameter.tokens))]

/-- A category is written as an object of its name and the array of its events. -/
def Category.tokens (c : Category) : Tokens :=
  objectTokens [("name", [literalToken c.name]),
    ("events", arrayTokens (c.events.map Event.tokens))]

namespace Plan

/-- The tokens of a plan: the array of its categories. -/
def tokens (categories : List Category) : Tokens := arrayTokens (categories.map Category.tokens)

/-- A text that writes a plan, with any amount of white space before, between and after its
tokens. -/
def Writes (text : String) (categories : List Category) : Prop :=
  ∃ gap s, text.toList = gap ++ s ∧ Blank gap ∧ Spaced (tokens categories) s

theorem readAs_literal (s : String) : ReadAs [literalToken s] (Json.text s) := Json.readAs_text s

variable {α β : Type}

/-- A node is read as its name and what is read from its member. -/
theorem exists_node_reading {member : String} (hmember : member ≠ "name")
    {M : Option Json → β → Prop} {part : Tokens} {x : Json} {b : β} (hx : ReadAs part x)
    (hb : M (some x) b) (name : String) :
    ∃ y, ReadAs (objectTokens [("name", [literalToken name]), (member, part)]) y ∧
      NodeReading member M y name b := by
  refine ⟨.obj [(.text "name", Json.text name), (.text member, x)], ?_, .object ?_ ?_⟩
  · refine Json.readAs_obj (.cons ⟨rfl, readAs_literal name⟩ (.cons ⟨rfl, hx⟩ .nil)) ?_
    simp [Json.Distinct, Json.memberNames, hmember.symm]
  · rfl
  · simpa [Json.lookup, hmember.symm] using hb

/-- A list is read item by item. -/
theorem exists_items_reading {M : Json → α → Prop} {write : α → Tokens}
    (h : ∀ a, ∃ x, ReadAs (write a) x ∧ M x a) (as : List α) :
    ∃ items, ReadAs (arrayTokens (as.map write)) (.arr items) ∧ List.Forall₂ M items as := by
  choose read hread using h
  refine ⟨as.map read, Json.readAs_arr ?_, ?_⟩
  · exact List.forall₂_map_left_iff.mpr (List.forall₂_map_right_iff.mpr
      (List.forall₂_same.mpr fun a _ => (hread a).1))
  · exact List.forall₂_map_left_iff.mpr (List.forall₂_same.mpr fun a _ => (hread a).2)

theorem exists_parameter_reading (p : Parameter) :
    ∃ x, ReadAs p.tokens x ∧ ParameterReading x p :=
  exists_node_reading (by decide) (readAs_literal p.value) (.str p.value) p.key

theorem exists_event_reading (e : Event) : ∃ x, ReadAs e.tokens x ∧ EventReading x e := by
  obtain ⟨items, hread, hitems⟩ := exists_items_reading exists_parameter_reading e.parameters
  exact exists_node_reading (by decide) hread (.array hitems) e.name

theorem exists_category_reading (c : Category) :
    ∃ x, ReadAs c.tokens x ∧ CategoryReading x c := by
  obtain ⟨items, hread, hitems⟩ := exists_items_reading exists_event_reading c.events
  exact exists_node_reading (by decide) hread (.array hitems) c.name

theorem exists_plan_reading (categories : List Category) :
    ∃ x, ReadAs (tokens categories) x ∧ PlanReading x categories := by
  obtain ⟨items, hread, hitems⟩ := exists_items_reading exists_category_reading categories
  exact ⟨.arr items, hread, items, rfl, hitems⟩

/-- Every plan can be written, and whatever white space its tokens are written with, its text is
read back as that plan. -/
theorem parse_writes (categories : List Category) :
    (∃ text, Writes text categories) ∧
      ∀ text, Writes text categories → parse text = .ok categories := by
  have hempty : Blank [] := fun _ h => (List.not_mem_nil h).elim
  constructor
  · exact ⟨_, [], _, String.toList_ofList, hempty, Json.spaced_flatMap hempty _⟩
  · rintro text ⟨gap, s, htext, hgap, hs⟩
    obtain ⟨x, hread, hx⟩ := exists_plan_reading categories
    rw [parse, hread.parse hgap hs htext]
    exact mapError_eq_ok.mpr (ofJson_eq_ok.mpr hx)

/-- A plan whose texts look like JSON themselves, hold a line break or lie outside the basic
plane. -/
def lookalikes : List Category := [⟨"null", [⟨"[\"a\"]", [⟨"k\n", "😀"⟩]⟩]⟩]

/-- Its text with a line break before its first token and a blank behind each. -/
def lookalikesText : String :=
  "\n[ \x7b \"name\" : \"null\" , \"events\" : [ \x7b \"name\" : \"[\\\"a\\\"]\" , " ++
    "\"parameters\" : [ \x7b \"name\" : \"k\\n\" , \"value\" : \"😀\" \x7d ] \x7d ] \x7d ] "

theorem parse_writes_lookalikes :
    Writes lookalikesText lookalikes ∧ parse lookalikesText = .ok lookalikes := by
  have hspaced : Spaced (tokens lookalikes)
      ((tokens lookalikes).flatMap fun token => token ++ [' ']) :=
    Json.spaced_flatMap (List.forall_mem_singleton.mpr rfl) _
  have htext : lookalikesText.toList =
      ['\n'] ++ (tokens lookalikes).flatMap fun token => token ++ [' '] := by decide +kernel
  have hwrites : Writes lookalikesText lookalikes :=
    ⟨_, _, htext, List.forall_mem_singleton.mpr rfl, hspaced⟩
  exact ⟨hwrites, (parse_writes lookalikes).2 lookalikesText hwrites⟩

end Plan
end EventCodegen
