import EventCodegen.Json.Basic

/-! Writing JSON text: the escapes inside strings, the compact and the indented form, and the form
in which messages show a value. -/
namespace EventCodegen.Json

/-- A character inside a written string. Quote, backslash and control characters are escaped. -/
def escapedChar (c : Char) : List Char :=
  if c = Text.doubleQuote ∨ c = Text.backslash then [Text.backslash, c]
  else if c = '\n' then [Text.backslash, 'n']
  else if c = '\r' then [Text.backslash, 'r']
  else if c = '\t' then [Text.backslash, 't']
  else if c = Char.ofNat 8 then [Text.backslash, 'b']
  else if c = Char.ofNat 12 then [Text.backslash, 'f']
  else if c.toNat < 0x20 then Text.backslash :: 'u' :: Text.hex 4 c.toNat
  else [c]

/-- A code point as escapes by number: two of them, a pair of surrogates, above FFFF. -/
def escapedPoint (n : Nat) : List Char :=
  if n < 0x10000 then Text.backslash :: 'u' :: Text.hex 4 n
  else
    Text.backslash :: 'u' :: Text.hex 4 (0xD800 + (n - 0x10000) / 0x400) ++
      Text.backslash :: 'u' :: Text.hex 4 (0xDC00 + (n - 0x10000) % 0x400)

/-- A text in double quotes with its escapes. -/
def quotedText (s : List Char) : List Char :=
  Text.doubleQuote :: s.flatMap escapedChar ++ [Text.doubleQuote]

/-- A code point inside a string written in ASCII alone. -/
def asciiPoint (n : Nat) : List Char :=
  if n < 0x7F then escapedChar (Char.ofNat n) else escapedPoint n

/-- How JSON is written: whether in ASCII alone, with how many spaces for each level of an indented
form, and what stands between the parts of a form on one line. -/
structure Style where
  ascii : Bool
  indent : Option Nat
  itemGap : List Char
  colonGap : List Char

/-- The form of a saved configuration: indented by two, every character written as it is. -/
def Style.saved : Style := ⟨false, some 2, [','], [':', ' ']⟩

/-- The form on one line with a blank after every comma and colon. -/
def Style.spaced : Style := ⟨false, none, [',', ' '], [':', ' ']⟩

/-- The form for transport: one line of ASCII without blanks. -/
def Style.wire : Style := ⟨true, none, [','], [':']⟩

/-- A string in the given style. -/
def Style.string (style : Style) : Str → List Char
  | .text s =>
    if style.ascii then
      Text.doubleQuote :: s.toList.flatMap (fun c => asciiPoint c.toNat) ++ [Text.doubleQuote]
    else quotedText s.toList
  | .broken clean n rest =>
    Text.doubleQuote :: (clean.toList.map Char.toNat ++ n :: rest).flatMap asciiPoint ++
      [Text.doubleQuote]

/-- A floating-point number; the three that JSON lacks are written as words. -/
def floatText : Binary64 → String
  | .nan => "NaN"
  | .infinite negative => if negative then "-Infinity" else "Infinity"
  | x => x.text

/-- The line break before a part at `level`, in an indented form. -/
def Style.break (style : Style) (level : Nat) : List Char :=
  match style.indent with
  | none => []
  | some n => '\n' :: List.replicate (n * level) ' '

mutual

/-- Writes a value that stands at `level`. -/
def Style.render (style : Style) (level : Nat) : Json → List Char
  | .null => "null".toList
  | .bool b => if b then "true".toList else "false".toList
  | .int n => (toString n).toList
  | .float x => (floatText x).toList
  | .str s => style.string s
  | .arr [] => "[]".toList
  | .arr (x :: rest) =>
    '[' :: style.break (level + 1) ++ style.render (level + 1) x ++
      style.renderItems (level + 1) rest ++ style.break level ++ [']']
  | .obj [] => ['\x7b', '\x7d']
  | .obj ((name, x) :: rest) =>
    '\x7b' :: style.break (level + 1) ++ style.string name ++ style.colonGap ++
      style.render (level + 1) x ++ style.renderMembers (level + 1) rest ++
      style.break level ++ ['\x7d']

/-- Writes the items after the first, each with the comma before it. -/
def Style.renderItems (style : Style) (level : Nat) : List Json → List Char
  | [] => []
  | x :: rest =>
    style.itemGap ++ style.break level ++ style.render level x ++ style.renderItems level rest

/-- Writes the members after the first, each with the comma before it. -/
def Style.renderMembers (style : Style) (level : Nat) : List (Str × Json) → List Char
  | [] => []
  | (name, x) :: rest =>
    style.itemGap ++ style.break level ++ style.string name ++ style.colonGap ++
      style.render level x ++ style.renderMembers level rest

end

/-- The text of a value in the given style. -/
def write (style : Style) (x : Json) : String := String.ofList (style.render 0 x)

/-- A string as messages show it inside a value. -/
def shownStr : Str → List Char
  | .text s => (Text.quoted s).toList
  | .broken clean n rest =>
    let quote := Text.quoteFor clean.toList
    quote :: clean.toList.flatMap (Text.quotedChar quote) ++ (n :: rest).flatMap escapedPoint ++
      [quote]

mutual

/-- A value as messages show it: words with a capital, strings in quotes. -/
def shown : Json → List Char
  | .null => "None".toList
  | .bool b => if b then "True".toList else "False".toList
  | .int n => (toString n).toList
  | .float x => x.text.toList
  | .str s => shownStr s
  | .arr [] => "[]".toList
  | .arr (x :: rest) => '[' :: shown x ++ shownItems rest ++ [']']
  | .obj [] => ['\x7b', '\x7d']
  | .obj ((name, x) :: rest) =>
    '\x7b' :: shownStr name ++ ':' :: ' ' :: shown x ++ shownMembers rest ++ ['\x7d']

def shownItems : List Json → List Char
  | [] => []
  | x :: rest => ',' :: ' ' :: shown x ++ shownItems rest

def shownMembers : List (Str × Json) → List Char
  | [] => []
  | (name, x) :: rest =>
    ',' :: ' ' :: shownStr name ++ ':' :: ' ' :: shown x ++ shownMembers rest

end

/-- A value inside the text of a message: a string as it is, any other as messages show it. -/
def display : Json → String
  | .str s => s.clean
  | x => String.ofList (shown x)

end EventCodegen.Json
