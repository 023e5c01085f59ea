import EventCodegen.Proofs.ShownLines

/-! Source text as a reader of the language sees it. The reader knows code, literals between quotes
of either kind and comments, and goes on from where it stood at the end of the text before. A text
is passed over if it takes the reader from code to code with certain brackets in it (`Passes`):
names and literals are passed over without any, whatever the literals hold (`passes_name`,
`passes_literal`), and so are comments up to the end of their line (`passes_comment`). Where every
line ends in code, a text is read line by line (`pick_lines`, `brackets_unlines`). At the beginning
of any line spaces leave the reader where it stands (`Mode.Rests`), be it in a literal that goes on
from the line before (`continued`). -/
namespace EventCodegen

namespace Text

theorem unlines_append_lineFeed {ls : List (List Char)} (hne : ls ≠ []) :
    unlines ls ++ ['\n'] = ls.flatMap (· ++ ['\n']) := by
  induction ls with
  | nil => exact absurd rfl hne
  | cons l rest ih =>
    by_cases hrest : rest = []
    · subst hrest
      rw [unlines_singleton, List.flatMap_singleton]
    · rw [unlines_cons l hrest, List.flatMap_cons, ← ih hrest]
      simp

/-- A text that ends in a line feed is made of its lines with a line feed after each. -/
theorem eq_flatMap_of_lines {s : List Char} {ls : List (List Char)} (h : lines s = ls ++ [[]]) :
    s = ls.flatMap (· ++ ['\n']) := by
  have hself : unlines (lines s) = s := List.intercalate_splitOn '\n'
  rw [h] at hself
  by_cases hne : ls = []
  · subst hne
    exact hself.symm
  · rw [← hself, unlines_concat hne, unlines_append_lineFeed hne]

end Text

namespace Source

/-! ## The reader -/

/-- Where a reader of source text stands: in code, in code right after a slash, in a literal between
quotes, behind a backslash in one, or in a comment. -/
inductive Mode
  | code
  | slash
  | literal (quote : Char)
  | escape (quote : Char)
  | comment
deriving DecidableEq, Repr

namespace Mode

/-- Where the reader stands after a character of code. Quotes of either kind begin a literal; a
comment begins with a number sign in Python and with the second of two slashes in Kotlin. -/
def ofCode (t : Target) (c : Char) : Mode :=
  if c = Text.doubleQuote ∨ c = Text.singleQuote then .literal c
  else match t with
    | .python => if c = '#' then .comment else .code
    | .kotlin => if c = '/' then .slash else .code

/-- Where the reader stands after a character. A literal ends at the next quote of its kind that no
backslash escapes, a comment with its line. -/
def next (t : Target) : Mode → Char → Mode
  | code, c => ofCode t c
  | slash, c => if c = '/' then comment else ofCode t c
  | literal q, c => if c = q then code else if c = Text.backslash then escape q else literal q
  | escape q, _ => literal q
  | comment, c => if c = '\n' then code else comment

/-- Where the reader stands after a text. -/
def after (t : Target) (m : Mode) (s : List Char) : Mode := s.foldl (next t) m

def isCode : Mode → Bool
  | code | slash => true
  | _ => false

def isLiteral : Mode → Bool
  | literal _ | escape _ => true
  | _ => false

end Mode

/-- The characters of a text that are wanted, given where the reader stands before each. -/
def pick (t : Target) (wanted : Mode → Char → Bool) : Mode → List Char → List Char
  | _, [] => []
  | m, c :: rest =>
    if wanted m c then c :: pick t wanted (m.next t c) rest else pick t wanted (m.next t c) rest

/-- Whether a character is a round or a curly bracket. -/
def isBracket (c : Char) : Bool := c == '(' || c == ')' || c == '\x7b' || c == '\x7d'

/-- The brackets of a text, those in literals and comments left out. -/
def brackets (t : Target) (m : Mode) (s : List Char) : List Char :=
  pick t (fun m c => m.isCode && isBracket c) m s

/-- The literals of a text with their quotes, one after the other. -/
def literals (t : Target) (m : Mode) (s : List Char) : List Char :=
  pick t (fun m c => m.isLiteral || (m.next t c).isLiteral) m s

example : brackets .python .code "f(\"a)\") # )".toList = "()".toList := by decide
example : literals .kotlin .code "val a = \"b\\\"c\" // \"d\"".toList = "\"b\\\"c\"".toList := by
  decide

section
variable {t : Target} {wanted : Mode → Char → Bool}

theorem after_append (m : Mode) (a b : List Char) :
    m.after t (a ++ b) = (m.after t a).after t b := List.foldl_append

theorem pick_append (m : Mode) (a b : List Char) :
    pick t wanted m (a ++ b) = pick t wanted m a ++ pick t wanted (m.after t a) b := by
  induction a generalizing m with
  | nil => rfl
  | cons c rest ih =>
    have hrest := ih (m.next t c)
    rw [List.cons_append, pick, pick, hrest]
    split
    · rfl
    · rfl

/-- Where a text leaves the reader where it was and has nothing wanted in it, nothing is picked. -/
theorem pick_eq_nil {m : Mode} {s : List Char}
    (h : ∀ c ∈ s, m.next t c = m ∧ wanted m c = false) : pick t wanted m s = [] := by
  induction s with
  | nil => rfl
  | cons c rest ih =>
    obtain ⟨hc, hrest⟩ := List.forall_mem_cons.mp h
    rw [pick, hc.1, hc.2, ih hrest]
    rfl

theorem after_eq_self {m : Mode} {s : List Char} (h : ∀ c ∈ s, m.next t c = m) :
    m.after t s = m := by
  induction s with
  | nil => rfl
  | cons c rest ih =>
    obtain ⟨hc, hrest⟩ := List.forall_mem_cons.mp h
    rw [Mode.after, List.foldl_cons, hc]
    exact ih hrest

end

/-! ## Texts that are passed over -/

/-- A text that leaves a reader where it was and has the brackets `bs` in its code. -/
structure Passes (t : Target) (m : Mode) (s bs : List Char) : Prop where
  stays : m.after t s = m
  shows : brackets t m s = bs

instance (t : Target) (m : Mode) (s bs : List Char) : Decidable (Passes t m s bs) :=
  decidable_of_iff (m.after t s = m ∧ brackets t m s = bs)
    ⟨fun h => ⟨h.1, h.2⟩, fun h => ⟨h.stays, h.shows⟩⟩

section
variable {t : Target} {m : Mode} {s r bs cs : List Char}

theorem passes_nil (t : Target) (m : Mode) : Passes t m [] [] := ⟨rfl, rfl⟩

theorem Passes.append (hs : Passes t m s bs) (hr : Passes t m r cs) :
    Passes t m (s ++ r) (bs ++ cs) where
  stays := by rw [after_append, hs.stays, hr.stays]
  shows := by
    have hshows := hr.shows
    unfold brackets at hshows ⊢
    rw [pick_append, hs.stays, hshows]
    exact congrArg (· ++ cs) hs.shows

theorem Passes.flatMap {α : Type} {as : List α} {f : α → List Char}
    (h : ∀ a ∈ as, Passes t m (f a) []) : Passes t m (as.flatMap f) [] := by
  induction as with
  | nil => exact passes_nil t m
  | cons a rest ih =>
    obtain ⟨ha, hrest⟩ := List.forall_mem_cons.mp h
    exact ha.append (ih hrest)

/-- Characters that begin nothing and are no brackets. -/
theorem passes_of_calm (h : ∀ c ∈ s, m.next t c = m ∧ isBracket c = false) :
    Passes t m s [] where
  stays := after_eq_self fun c hc => (h c hc).1
  shows := pick_eq_nil fun c hc => ⟨(h c hc).1, by rw [(h c hc).2, Bool.and_false]⟩

/-- Neither quotes nor marks of comments are characters of identifiers. -/
theorem calm_of_isIdentifierChar (t : Target) {c : Char} (h : Naming.isIdentifierChar c = true) :
    Mode.next t .code c = .code ∧ isBracket c = false := by
  have hne : ∀ d, Naming.isIdentifierChar d = false → c ≠ d := by
    rintro d hd rfl
    rw [hd] at h
    cases h
  have hquote : ¬(c = Text.doubleQuote ∨ c = Text.singleQuote) :=
    not_or.mpr ⟨hne _ (by decide), hne _ (by decide)⟩
  constructor
  · show Mode.ofCode t c = .code
    unfold Mode.ofCode
    rw [if_neg hquote]
    cases t with
    | python => exact if_neg (hne _ (by decide))
    | kotlin => exact if_neg (hne _ (by decide))
  · simp only [isBracket, Bool.or_eq_false_iff, beq_eq_false_iff_ne]
    exact ⟨⟨⟨hne _ (by decide), hne _ (by decide)⟩, hne _ (by decide)⟩, hne _ (by decide)⟩

theorem passes_name (t : Target) {name : String} (h : Naming.isIdentifier name.toList = true) :
    Passes t .code name.toList [] :=
  passes_of_calm fun _ hc => calm_of_isIdentifierChar t (Naming.isIdentifierChar_of_mem h hc)

/-! ## Literals and comments -/

theorem passes_plain {q : Char} (h : ∀ c ∈ s, c ≠ q ∧ c ≠ Text.backslash) :
    Passes t (.literal q) s [] where
  stays := after_eq_self fun c hc => by
    obtain ⟨hquote, hbackslash⟩ := h c hc
    rw [Mode.next, if_neg hquote, if_neg hbackslash]
  shows := pick_eq_nil fun c hc => by
    obtain ⟨hquote, hbackslash⟩ := h c hc
    rw [Mode.next, if_neg hquote, if_neg hbackslash]
    exact ⟨rfl, rfl⟩

/-- Within a literal a character of it does not end it, whatever it is. -/
theorem passes_literalChar (t : Target) (c : Char) :
    Passes t (.literal Text.doubleQuote) (literalChar t c) [] := by
  rcases literalChar_cases t c with ⟨hplain, heq⟩ | ⟨d, digits, heq, _, hdigits⟩
  · rw [heq]
    exact passes_plain (List.forall_mem_singleton.mpr ⟨hplain.1, hplain.2.1⟩)
  · -- the backslash takes the next character with it
    have hescape : Passes t (.literal Text.doubleQuote) [Text.backslash, d] [] := ⟨rfl, rfl⟩
    rw [heq]
    exact hescape.append (passes_plain fun x hx => ⟨(hdigits x hx).1, (hdigits x hx).2.1⟩)

theorem passes_literal (t : Target) (raw : List Char) :
    Passes t .code (literalChars t raw) [] := by
  have hinside : Passes t (.literal Text.doubleQuote) (raw.flatMap (literalChar t)) [] :=
    .flatMap fun c _ => passes_literalChar t c
  have hbegin : Mode.after t .code [Text.doubleQuote] = .literal Text.doubleQuote := rfl
  have hsplit : literalChars t raw =
      [Text.doubleQuote] ++ (raw.flatMap (literalChar t) ++ [Text.doubleQuote]) := rfl
  have hshows := hinside.shows
  unfold brackets at hshows
  rw [hsplit]
  constructor
  · rw [after_append, hbegin, after_append, hinside.stays]
    rfl
  · unfold brackets
    rw [pick_append, hbegin, pick_append, hinside.stays, hshows]
    rfl

/-- A comment ends with its line, and nothing in it matters. -/
theorem passes_comment {mark : List Char} (hmark : Mode.after t .code mark = .comment)
    (hshows : brackets t .code mark = []) (hrest : '\n' ∉ r) :
    Passes t .code (mark ++ r ++ ['\n']) [] := by
  have hstay : ∀ c ∈ r, Mode.next t .comment c = .comment := by
    intro c hc
    have hc' : c ≠ '\n' := by
      rintro rfl
      exact hrest hc
    exact if_neg hc'
  have hcomment : Mode.after t .comment r = .comment := after_eq_self hstay
  have hnone : brackets t .comment r = [] := pick_eq_nil fun c hc => ⟨hstay c hc, rfl⟩
  have hall : Mode.after t .code (mark ++ r) = .comment := by rw [after_append, hmark, hcomment]
  constructor
  · rw [after_append, hall]
    rfl
  · unfold brackets at hshows hnone ⊢
    rw [pick_append, hall, pick_append, hmark, hshows, hnone]
    rfl

/-! ## Lines -/

/-- A line at whose end the reader goes on in code. -/
def Settled (t : Target) (l : List Char) : Prop := Mode.after t .code (l ++ ['\n']) = .code

instance (t : Target) : DecidablePred (Settled t) := fun _ => inferInstanceAs (Decidable (_ = _))

/-- Settled lines are read one by one. -/
theorem pick_lines {wanted : Mode → Char → Bool} {ls : List (List Char)}
    (h : ∀ l ∈ ls, Settled t l) : pick t wanted .code (ls.flatMap (· ++ ['\n'])) =
      ls.flatMap fun l => pick t wanted .code (l ++ ['\n']) := by
  induction ls with
  | nil => rfl
  | cons l rest ih =>
    obtain ⟨hl, hrest⟩ := List.forall_mem_cons.mp h
    rw [List.flatMap_cons, List.flatMap_cons, pick_append, hl, ih hrest]

theorem brackets_append_lineFeed (t : Target) (m : Mode) (l : List Char) :
    brackets t m (l ++ ['\n']) = brackets t m l := by
  have hnone : ∀ m : Mode, brackets t m ['\n'] = [] := fun m => if_neg (by simp [isBracket])
  unfold brackets at hnone ⊢
  rw [pick_append, hnone, List.append_nil]

theorem brackets_unlines {ls : List (List Char)} (h : ∀ l ∈ ls, Settled t l) :
    brackets t .code (Text.unlines ls) = ls.flatMap (brackets t .code) := by
  by_cases hne : ls = []
  · subst hne
    rfl
  · rw [← brackets_append_lineFeed, Text.unlines_append_lineFeed hne, brackets, pick_lines h]
    exact List.flatMap_congr fun l _ => brackets_append_lineFeed t .code l

end

/-! ## Beginnings of lines -/

/-- Where spaces are no quotes to the reader: this is so wherever it gets to from code. -/
def Mode.Quoting : Mode → Prop
  | literal q | escape q => q ≠ ' '
  | _ => True

/-- A place where spaces leave the reader, as at the beginning of any line. -/
structure Mode.Rests (t : Target) (m : Mode) : Prop where
  quoting : m.Quoting
  stays : m.next t ' ' = m

/-- Lines, each with where the reader stands at its beginning. -/
def begun (t : Target) : Mode → List (List Char) → List (Mode × List Char)
  | _, [] => []
  | m, l :: rest => (m, l) :: begun t (m.after t (l ++ ['\n'])) rest

/-- The lines that begin within a literal. -/
def continued (t : Target) (ls : List (List Char)) : List (List Char) :=
  ((begun t .code ls).filter (·.1.isLiteral)).map (·.2)

section
variable {t : Target} {m : Mode}

theorem quoting_ite {p : Prop} [Decidable p] {k : Mode} (hm : m.Quoting) (hk : k.Quoting) :
    (if p then m else k).Quoting := by
  split
  · exact hm
  · exact hk

theorem Mode.Quoting.next (h : m.Quoting) (c : Char) : (m.next t c).Quoting := by
  have hcode : (Mode.ofCode t c).Quoting := by
    unfold Mode.ofCode
    split
    · next hquote =>
      rcases hquote with rfl | rfl
      · exact (by decide : Text.doubleQuote ≠ ' ')
      · exact (by decide : Text.singleQuote ≠ ' ')
    · cases t with
      | python => exact quoting_ite trivial trivial
      | kotlin => exact quoting_ite trivial trivial
  cases m with
  | code => exact hcode
  | slash => exact quoting_ite trivial hcode
  | literal q => exact quoting_ite trivial (quoting_ite h h)
  | escape q => exact h
  | comment => exact quoting_ite trivial trivial

theorem Mode.Quoting.after (h : m.Quoting) (s : List Char) : (m.after t s).Quoting := by
  induction s generalizing m with
  | nil => exact h
  | cons c rest ih => exact ih (h.next c)

theorem rests_code (t : Target) : Mode.code.Rests t := by
  cases t with
  | python => exact ⟨trivial, rfl⟩
  | kotlin => exact ⟨trivial, rfl⟩

theorem rests_literal {q : Char} (h : q ≠ ' ') : (Mode.literal q).Rests t := by
  refine ⟨h, ?_⟩
  rw [Mode.next, if_neg h.symm, if_neg (by decide)]

/-- A line feed takes the reader out of a comment and behind an escape. -/
theorem Mode.Quoting.rests_lineFeed (h : m.Quoting) : (m.next t '\n').Rests t := by
  have hcode : Mode.ofCode t '\n' = .code := by
    cases t with
    | python => rfl
    | kotlin => rfl
  cases m with
  | code =>
    show (Mode.ofCode t '\n').Rests t
    rw [hcode]
    exact rests_code t
  | slash =>
    show (Mode.ofCode t '\n').Rests t
    rw [hcode]
    exact rests_code t
  | literal q =>
    dsimp only [Mode.next]
    split
    · exact rests_code t
    · rw [if_neg (by decide)]
      exact rests_literal h
  | escape q => exact rests_literal h
  | comment => exact rests_code t

theorem Mode.Rests.after_line (h : m.Rests t) (l : List Char) :
    (m.after t (l ++ ['\n'])).Rests t := by
  rw [after_append]
  exact (h.quoting.after l).rests_lineFeed

theorem Mode.Rests.after_spaces (h : m.Rests t) (w : Nat) (r : List Char) :
    m.after t (List.replicate w ' ' ++ r) = m.after t r := by
  have hspaces : m.after t (List.replicate w ' ') = m := by
    refine after_eq_self fun c hc => ?_
    rw [List.eq_of_mem_replicate hc]
    exact h.stays
  rw [after_append, hspaces]

theorem Mode.Rests.pick_spaces {wanted : Mode → Char → Bool} (h : m.Rests t)
    (hspace : wanted m ' ' = false) (w : Nat) (r : List Char) :
    pick t wanted m (List.replicate w ' ' ++ r) = pick t wanted m r := by
  have hspaces : ∀ c ∈ List.replicate w ' ', m.next t c = m ∧ wanted m c = false := by
    intro c hc
    rw [List.eq_of_mem_replicate hc]
    exact ⟨h.stays, hspace⟩
  rw [pick_append, pick_eq_nil hspaces, after_eq_self fun c hc => (hspaces c hc).1,
    List.nil_append]

/-- Spaces before a line make no difference to a reader in code. -/
theorem settled_spaces_append (w : Nat) (l : List Char) :
    Settled t (List.replicate w ' ' ++ l) ↔ Settled t l := by
  unfold Settled
  rw [List.append_assoc, (rests_code t).after_spaces]

theorem begun_append (m : Mode) (as bs : List (List Char)) :
    begun t m (as ++ bs) = begun t m as ++ begun t (m.after t (as.flatMap (· ++ ['\n']))) bs := by
  induction as generalizing m with
  | nil => rfl
  | cons l rest ih =>
    rw [List.cons_append, begun, begun, ih, List.flatMap_cons, after_append m (l ++ ['\n']),
      List.cons_append]

theorem literals_lines (m : Mode) (ls : List (List Char)) :
    literals t m (ls.flatMap (· ++ ['\n'])) =
      (begun t m ls).flatMap fun p => literals t p.1 (p.2 ++ ['\n']) := by
  induction ls generalizing m with
  | nil => rfl
  | cons l rest ih =>
    have hrest := ih (m.after t (l ++ ['\n']))
    unfold literals at hrest ⊢
    rw [List.flatMap_cons, pick_append, hrest, begun, List.flatMap_cons]

/-- Where every line ends in code, no line begins within a literal. -/
theorem continued_of_settled {ls : List (List Char)} (h : ∀ l ∈ ls, Settled t l) :
    continued t ls = [] := by
  induction ls with
  | nil => rfl
  | cons l rest ih =>
    obtain ⟨hl, hrest⟩ := List.forall_mem_cons.mp h
    have hnone := ih hrest
    unfold continued at hnone ⊢
    rw [begun, hl]
    exact hnone

end
end Source
end EventCodegen
