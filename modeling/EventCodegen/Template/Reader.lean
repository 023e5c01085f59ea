import EventCodegen.Template.Basic
import EventCodegen.Text.Blank

/-! Reading the text of a template. Tags take the line end after them along, and the blanks before
them if nothing else stands before them on their line. -/
namespace EventCodegen.Template

/-- What an opening delimiter begins. -/
inductive Opening
  | output
  | tag
  | remark
deriving DecidableEq, Repr

/-- The characters in front of the brace that closes what was opened. -/
def Opening.closing : Opening → Char
  | output => '\x7d'
  | tag => '%'
  | remark => '#'

/-- A piece of the text of a template. -/
inductive Token
  | text (s : List Char)
  | output (inside : List Char)
  | tag (inside : List Char)
deriving DecidableEq, Repr

/-- What an opening brace and the next character begin. -/
def opening? (c d : Char) : Option Opening :=
  if c ≠ '\x7b' then none
  else if d = '\x7b' then some .output
  else if d = '%' then some .tag
  else if d = '#' then some .remark
  else none

/-- The text up to the next opening delimiter, and what comes after that. -/
def untilOpening : List Char → List Char × Option (Opening × List Char)
  | [] => ([], none)
  | [c] => ([c], none)
  | c :: d :: rest =>
    match opening? c d with
    | some o => ([], some (o, rest))
    | none =>
      let (before, found) := untilOpening (d :: rest)
      (c :: before, found)

theorem untilOpening_length {s rest : List Char} {o : Opening}
    (h : (untilOpening s).2 = some (o, rest)) : rest.length < s.length := by
  fun_induction untilOpening s with
  | case1 => simp at h
  | case2 => simp at h
  | case3 c d more o' _ =>
    simp only [Option.some.injEq, Prod.mk.injEq] at h
    rw [← h.2, List.length_cons, List.length_cons]
    omega
  | case4 c d more _ before found hx ih =>
    simp only [hx] at ih
    have := ih h
    simp at this ⊢
    omega

/-- The text up to the closing delimiter whose first character is `mark`, and the rest. -/
def untilClosing (mark : Char) : List Char → Option (List Char × List Char)
  | [] => none
  | [_] => none
  | c :: d :: rest =>
    if c = mark ∧ d = '\x7d' then some ([], rest)
    else (untilClosing mark (d :: rest)).map fun (inside, more) => (c :: inside, more)

theorem untilClosing_length {mark : Char} {s inside rest : List Char}
    (h : untilClosing mark s = some (inside, rest)) : rest.length < s.length := by
  fun_induction untilClosing mark s generalizing inside with
  | case1 => simp at h
  | case2 => simp at h
  | case3 c d more _ =>
    simp only [Option.some.injEq, Prod.mk.injEq] at h
    rw [← h.2, List.length_cons, List.length_cons]
    omega
  | case4 c d more _ ih =>
    obtain ⟨⟨i, m⟩, hm, he⟩ := Option.map_eq_some_iff.1 h
    have := @ih i (by rw [hm]; simp at he; rw [he.2])
    simp at this ⊢
    omega

/-- A text without the blanks after its last line end, if there is nothing else there. -/
def dropIndent (atLineStart : Bool) (s : List Char) : List Char :=
  let lastLine := (s.reverse.takeWhile (· != '\n')).reverse
  let startsLine := atLineStart || lastLine.length < s.length
  if startsLine && lastLine.all Text.isBlank then s.take (s.length - lastLine.length) else s

/-- The sign at the beginning of what a delimiter opens, which governs the blanks before it. -/
def trimBefore (o : Opening) (atLineStart : Bool) (before inside : List Char) :
    List Char × List Char :=
  match inside with
  | '-' :: inside => (Text.trimRight before, inside)
  | '+' :: inside => (before, inside)
  | inside => (if o = .output then before else dropIndent atLineStart before, inside)

/-- The sign at the end of what a delimiter closes, which governs the blanks after it. Without one
an output leaves them alone, and all else takes one line end along. Gives back what is inside, what
comes after, and whether a line starts there. -/
def trimAfter (o : Opening) (inside after : List Char) : List Char × List Char × Bool :=
  match inside.getLast? with
  | some '-' =>
    let skipped := after.takeWhile Text.isBlank
    (inside.dropLast, after.dropWhile Text.isBlank, skipped.getLast? == some '\n')
  | some '+' => if o = .output then (inside, after, false) else (inside.dropLast, after, false)
  | _ =>
    match o, after with
    | .output, _ => (inside, after, false)
    | _, '\n' :: after => (inside, after, true)
    | _, after => (inside, after, false)

theorem trimAfter_length (o : Opening) (inside after : List Char) :
    (trimAfter o inside after).2.1.length ≤ after.length := by
  unfold trimAfter
  split
  · exact (List.dropWhile_suffix _).length_le
  · split <;> exact Nat.le_refl _
  · split <;> simp

/-- The tokens of a text. -/
def tokens (atLineStart : Bool) (s : List Char) : Except TemplateFault (List Token) :=
  match h : untilOpening s with
  | (before, none) => .ok [.text before]
  | (before, some (o, rest)) =>
    match hc : untilClosing o.closing rest with
    | none => .error .unreadable
    | some (inside, after) =>
      let (before, inside) := trimBefore o atLineStart before inside
      let trimmed := trimAfter o inside after
      have : trimmed.2.1.length < s.length := by
        have h1 : rest.length < s.length := untilOpening_length (o := o) (by rw [h])
        have h2 := untilClosing_length hc
        have h3 := trimAfter_length o inside after
        show (trimAfter o inside after).2.1.length < s.length
        omega
      match tokens trimmed.2.2 trimmed.2.1 with
      | .error e => .error e
      | .ok more =>
        .ok (.text before :: match o with
          | .output => .output trimmed.1 :: more
          | .tag => .tag trimmed.1 :: more
          | .remark => more)
termination_by s.length

/-- The words of a text. -/
def words (s : List Char) : List String :=
  (((s.map fun c => if Text.isBlank c then ' ' else c).splitOn ' ').filter (!·.isEmpty)).map
    String.ofList

/-- Whether a word may be a name in a template. -/
def isName (word : String) : Bool := Naming.isIdentifier word.toList

/-- The name and the filters inside an output. -/
def readOutput (inside : List Char) : Except TemplateFault Node :=
  match (inside.splitOn '|').map fun part => String.ofList (Text.trim part) with
  | [""] => .error .emptyOutput
  | name :: filters =>
    if isName name && filters.all isName then .ok (.output name (filters.map Filter.ofName))
    else .error .unreadable
  | [] => .error .emptyOutput

/-- A block that is still open, with what has been read of it before its current part. A `chained`
choice stands alone in the other part of the choice around it and ends together with it. -/
inductive Block
  | choice (name : String) (chained : Bool)
  | otherwise (name : String) (yes : List Node) (chained : Bool)
  | loop (item name : String)
  | empty (item name : String) (body : List Node)

/-- The tags that may end the current part of a block. -/
def Block.looking : Block → List String
  | choice _ _ => ["elif", "else", "endif"]
  | otherwise _ _ _ => ["endif"]
  | loop _ _ => ["endfor", "else"]
  | empty _ _ _ => ["endfor"]

/-- The tag that began a block. -/
def Block.tag : Block → String
  | choice _ _ => "if"
  | otherwise _ _ _ => "if"
  | loop _ _ => "for"
  | empty _ _ _ => "for"

/-- What is being read: the nodes of the current part in reverse, and the open blocks from the inside
outwards, each with the nodes before it in reverse. -/
structure Reading where
  current : List Node := []
  outside : List (Block × List Node) := []

/-- The place of a tag that does not belong where it is found. -/
def Reading.place (r : Reading) (tag : String) : TemplatePlace :=
  match r.outside with
  | [] => {}
  | (block, _) :: _ =>
    { looking := block.looking
      innermost := some block.tag
      nested := r.outside.any fun (b, _) => b.looking.contains tag }

/-- Begins a block. -/
def Reading.begin (r : Reading) (block : Block) : Reading :=
  { current := [], outside := (block, r.current) :: r.outside }

/-- Ends a choice together with those that it is chained to. -/
def endChoice (current : List Node) : List (Block × List Node) → Reading
  | (.choice name chained, before) :: outside =>
    let nodes := .choice name current.reverse [] :: before
    if chained then endChoice nodes outside else ⟨nodes, outside⟩
  | (.otherwise name yes chained, before) :: outside =>
    let nodes := .choice name yes current.reverse :: before
    if chained then endChoice nodes outside else ⟨nodes, outside⟩
  | outside => ⟨current, outside⟩

/-- Reads a tag. -/
def Reading.tag (r : Reading) (inside : List Char) : Except TemplateFault Reading :=
  match words inside, r.outside with
  | [], _ => .error .tagWithoutName
  | ["if", name], _ => if isName name then .ok (r.begin (.choice name false)) else .error .unreadable
  | ["for", item, "in", name], _ =>
    if isName item && isName name then .ok (r.begin (.loop item name))
    else .error .unreadable
  | ["elif", name], (.choice first chained, before) :: outside =>
    if isName name then
      .ok ⟨[], (.choice name true, []) ::
        (.otherwise first r.current.reverse chained, before) :: outside⟩
    else .error .unreadable
  | ["else"], (.choice name chained, before) :: outside =>
    .ok ⟨[], (.otherwise name r.current.reverse chained, before) :: outside⟩
  | ["else"], (.loop item name, before) :: outside =>
    .ok ⟨[], (.empty item name r.current.reverse, before) :: outside⟩
  | ["endif"], (.choice name chained, before) :: outside =>
    .ok (endChoice r.current ((.choice name chained, before) :: outside))
  | ["endif"], (.otherwise name yes chained, before) :: outside =>
    .ok (endChoice r.current ((.otherwise name yes chained, before) :: outside))
  | ["endfor"], (.loop item name, before) :: outside =>
    .ok ⟨.loop item name r.current.reverse [] :: before, outside⟩
  | ["endfor"], (.empty item name body, before) :: outside =>
    .ok ⟨.loop item name body r.current.reverse :: before, outside⟩
  | "if" :: _, _ => .error .unreadable
  | "for" :: _, _ => .error .unreadable
  | tag :: _, _ =>
    if isName tag then .error (.unknownTag tag (r.place tag)) else .error .tagWithoutName

/-- Reads tokens up to the end, where no block may be open. -/
def readTokens (r : Reading) : List Token → Except TemplateFault (List Node)
  | [] =>
    if r.outside.isEmpty then .ok r.current.reverse else .error (.unexpectedEnd (r.place ""))
  | .text s :: rest => readTokens { r with current := .text s :: r.current } rest
  | .output inside :: rest => do
    let node ← readOutput inside
    readTokens { r with current := node :: r.current } rest
  | .tag inside :: rest => do
    let r ← r.tag inside
    readTokens r rest

/-- Reads the text of a template. -/
def read (s : List Char) : Except TemplateFault (List Node) := do
  let nodes ← readTokens {} (← tokens true s)
  match unknownFilterIn? false nodes with
  | some name => .error (.unknownFilter name)
  | none => return nodes

end EventCodegen.Template
