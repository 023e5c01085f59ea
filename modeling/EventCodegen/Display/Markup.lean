import EventCodegen.Text.Blank
import EventCodegen.Text.Case
import EventCodegen.Text.Lines

/-! Text with tags for its style, such as `[bold]…[/bold]`, as it is handed to the display. The tags
themselves are not shown; a backslash before one makes it ordinary text, and `escape` puts such
backslashes into a text that should be shown as it is. Names between colons stand for signs. -/
namespace EventCodegen.Display

/-! ## Tags -/

/-- What the name of a tag may begin with. -/
def beginsTag (c : Char) : Bool :=
  ('a' ≤ c && c ≤ 'z') || c == '#' || c == '/' || c == '@'

/-- The inside of the tag at the beginning of a text that follows an opening bracket and has no
other one in it, and what comes after the tag. -/
def tagIn? : List Char → Option (List Char × List Char)
  | [] => none
  | c :: rest =>
    if beginsTag c && rest.contains ']' then
      some (c :: rest.takeWhile (· != ']'), (rest.dropWhile (· != ']')).tail)
    else none

/-- The backslashes at the end of a text. -/
def backslashes (s : List Char) : List Char := (s.reverse.takeWhile (· == '\\')).reverse

/-- A text without the backslashes at its end. -/
def beforeBackslashes (s : List Char) : List Char := (s.reverse.dropWhile (· == '\\')).reverse

/-- What a marked text consists of. -/
inductive Piece
  | plain (s : List Char)
  | tag (inside : List Char)
deriving DecidableEq, Repr

/-- What a tag with some backslashes before it amounts to: of two backslashes one is shown, and one
that is left over makes the tag a plain text. -/
def tagPieces (slashes inside : List Char) : List Piece :=
  [.plain (List.replicate (slashes.length / 2) '\\'),
   if slashes.length % 2 = 0 then .tag inside else .plain ('[' :: inside ++ [']'])]

/-- The pieces of a text `s` that is followed by the given texts with a bracket before each. -/
def piecesFrom (s : List Char) : List (List Char) → List Piece
  | [] => [.plain s]
  | t :: rest =>
    match tagIn? t with
    | none => piecesFrom (s ++ '[' :: t) rest
    | some (inside, after) =>
      .plain (beforeBackslashes s) :: tagPieces (backslashes s) inside ++ piecesFrom after rest

/-- The pieces of a marked text. -/
def pieces (s : List Char) : List Piece :=
  match s.splitOn '[' with
  | [] => []
  | first :: rest => piecesFrom first rest

/-- A text `s`, followed by the given texts with a bracket before each, with its tags escaped. -/
def escapeFrom (s : List Char) : List (List Char) → List Char
  | [] => s
  | t :: rest =>
    match tagIn? t with
    | none => escapeFrom (s ++ '[' :: t) rest
    | some (inside, after) =>
      s ++ backslashes s ++ '\\' :: '[' :: inside ++ ']' :: escapeFrom after rest

/-- A text with no single backslash at its end, where one could escape what is put behind it. -/
def closeEscape (s : List Char) : List Char :=
  if backslashes s = ['\\'] then s ++ ['\\'] else s

/-- A text in which no tag has an effect. -/
def escape (s : String) : String :=
  match s.toList.splitOn '[' with
  | [] => ""
  | first :: rest => String.ofList (closeEscape (escapeFrom first rest))

/-! ## Signs by name -/

/-- Signs that have a name. -/
def signs : List (String × Char) := [("smile", Char.ofNat 0x1F604)]

/-- What may follow a name, and the mark that it adds: shown as text, or as a picture. -/
def variants : List (String × Char) :=
  [("-text", Char.ofNat 0xFE0E), ("-emoji", Char.ofNat 0xFE0F)]

/-- A name without what it ends in, if it ends so. -/
def withoutEnd? (ending name : List Char) : Option (List Char) :=
  if ending.isSuffixOf name then some (name.take (name.length - ending.length)) else none

/-- The name and the mark of a variant that stand between two colons. -/
def variantOf (name : List Char) : List Char × List Char :=
  match variants.findSome? (fun (ending, mark) =>
      (withoutEnd? ending.toList name).map fun base => (base, [mark])) with
  | some found => found
  | none => (name, [])

/-- The sign for a name between two colons; a name of no sign stays as it is. -/
def signText (name : List Char) : List Char :=
  let (base, mark) := variantOf name
  match signs.lookup (Text.lower (String.ofList base)) with
  | some sign => sign :: mark
  | none => ':' :: name ++ [':']

/-- A text, given by its parts between colons, with signs for their names. No blank is allowed in a
name. -/
def signsFrom : List (List Char) → List Char
  | [] => []
  | [s] => s
  | [s, t] => s ++ ':' :: t
  | s :: t :: u :: rest =>
    if t.any Text.isBlank then s ++ ':' :: signsFrom (t :: u :: rest)
    else s ++ signText t ++ signsFrom (u :: rest)

/-! ## What is shown -/

/-- Control characters that the display leaves out: bell, backspace, the vertical tab, the form feed
and the carriage return. -/
def isLeftOut (c : Char) : Bool := [0x07, 0x08, 0x0B, 0x0C, 0x0D].contains c.toNat

/-- A text in which a bracket that begins no tag has lost the backslash before it. -/
def bareBrackets : List Char → List Char
  | [] => []
  | '\\' :: '[' :: rest => '[' :: bareBrackets rest
  | c :: rest => c :: bareBrackets rest

/-- What is shown of a plain piece. -/
def plainText (s : List Char) : List Char :=
  (signsFrom ((bareBrackets s).splitOn ':')).filter (!isLeftOut ·)

/-- Attributes of a style in their order, each with its other names. -/
def attributes : List (String × List String) :=
  [("bold", ["b"]), ("dim", ["d"]), ("italic", ["i"]), ("underline", ["u"]), ("blink", []),
   ("blink2", []), ("reverse", ["r"]), ("conceal", ["c"]), ("strike", ["s"]),
   ("underline2", ["uu"]), ("frame", []), ("encircle", []), ("overline", ["o"])]

/-- The attribute that a word names. -/
def attribute? (word : String) : Option String :=
  (attributes.find? fun (name, others) => name == word || others.contains word).map (·.1)

/-- The words of a text in small letters. -/
def wordsOf (s : List Char) : List String :=
  ((Text.lower (String.ofList s)).toList.splitOnP Text.isBlank).filterMap fun w =>
    if w.isEmpty then none else some (String.ofList w)

/-- The name under which a style is opened and closed: attributes go by their first names and stand
in order. -/
def styleName (s : List Char) : String :=
  match (wordsOf s).mapM attribute? with
  | some (a :: as) =>
    Text.joined " " ((attributes.map (·.1)).filter fun name => (a :: as).contains name)
  | _ => Text.lower (String.ofList (Text.trim s))

/-- The open styles without the innermost one of a name, if there is one. -/
def close? (name : String) (opened : List String) : Option (List String) :=
  if opened.contains name then some (opened.erase name) else none

/-- The open styles after a tag. A tag with nothing but a slash closes the innermost one. A style
that is not open cannot be closed. -/
def afterTag? (inside : List Char) (opened : List String) : Option (List String) :=
  match inside.takeWhile (· != '=') with
  | '/' :: name =>
    if (Text.trim name).isEmpty then
      match opened with
      | [] => none
      | _ :: rest => some rest
    else close? (styleName name) opened
  | name => some (styleName name :: opened)

/-- What is shown of some pieces within the given open styles. -/
def shownFrom (opened : List String) : List Piece → Option (List Char)
  | [] => some []
  | .plain s :: rest => (plainText s ++ ·) <$> shownFrom opened rest
  | .tag inside :: rest => do shownFrom (← afterTag? inside opened) rest

/-- What is shown of a marked text, if every style that is closed was opened before. -/
def shown? (markup : String) : Option (List Char) := shownFrom [] (pieces markup.toList)

end EventCodegen.Display
