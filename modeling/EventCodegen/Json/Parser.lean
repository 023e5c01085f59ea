import EventCodegen.Json.Basic

/-! Reading JSON text. Reading stops at the first fault, whose place is kept as the number of
characters from there to the end; `ParseError` turns it into a position, a line and a column.
The three constants `NaN`, `Infinity` and `-Infinity` are accepted, control characters inside
strings are not, and a whole number may have at most 4300 digits. -/
namespace EventCodegen.Json

/-- What is wrong with a JSON text. -/
inductive Reason
  | expectingValue
  | expectingName
  | expectingColon
  | expectingComma
  | extraData
  | unterminatedString
  | controlCharacter
  | invalidEscape
  | invalidHexEscape
  | byteOrderMark
deriving DecidableEq, Repr

def Reason.message : Reason → String
  | expectingValue => "Expecting value"
  | expectingName => "Expecting property name enclosed in double quotes"
  | expectingColon => "Expecting ':' delimiter"
  | expectingComma => "Expecting ',' delimiter"
  | extraData => "Extra data"
  | unterminatedString => "Unterminated string starting at"
  | controlCharacter => "Invalid control character at"
  | invalidEscape => "Invalid \\escape"
  | invalidHexEscape => "Invalid \\uXXXX escape"
  | byteOrderMark => "Unexpected UTF-8 BOM (decode using utf-8-sig)"

/-- A fault met while reading; `remaining` characters of the text are at or after it. -/
inductive Fault
  | malformed (reason : Reason) (remaining : Nat)
  | hugeInteger
deriving DecidableEq, Repr

/-- A fault of the given kind before the characters `rest`. -/
def fault {α : Type} (reason : Reason) (rest : List Char) : Except Fault α :=
  .error (.malformed reason rest.length)

/-- The white space of JSON. -/
def isSpace (c : Char) : Bool := c == ' ' || c == '\t' || c == '\n' || c == '\r'

/-- What follows the white space at the beginning. -/
def skipSpace (s : List Char) : List Char := s.dropWhile isSpace

/-- The value of a hexadecimal digit. -/
def hexValue? (c : Char) : Option Nat :=
  if '0' ≤ c ∧ c ≤ '9' then some (c.toNat - 48)
  else if 'a' ≤ c ∧ c ≤ 'f' then some (c.toNat - 87)
  else if 'A' ≤ c ∧ c ≤ 'F' then some (c.toNat - 55)
  else none

/-- The number written by four hexadecimal digits. -/
def hex4? (a b c d : Char) : Option Nat := do
  let a ← hexValue? a
  let b ← hexValue? b
  let c ← hexValue? c
  let d ← hexValue? d
  return ((a * 16 + b) * 16 + c) * 16 + d

/-- The character that a backslash and `c` stand for. -/
def simpleEscape? (c : Char) : Option Char :=
  if c = Char.ofNat 34 then some c
  else if c = Char.ofNat 92 then some c
  else if c = '/' then some '/'
  else if c = 'b' then some (Char.ofNat 8)
  else if c = 'f' then some (Char.ofNat 12)
  else if c = 'n' then some '\n'
  else if c = 'r' then some '\r'
  else if c = 't' then some '\t'
  else none

def isHighSurrogate (n : Nat) : Bool := 0xD800 ≤ n && n < 0xDC00
def isLowSurrogate (n : Nat) : Bool := 0xDC00 ≤ n && n < 0xE000

/-- The code point of a pair of surrogates. -/
def joinSurrogates (high low : Nat) : Nat := 0x10000 + (high - 0xD800) * 0x400 + (low - 0xDC00)

/-- Four hexadecimal digits that are not the end of the text. -/
def quad? : List Char → Option (Nat × List Char)
  | a :: b :: c :: d :: next :: rest => (hex4? a b c d).map fun n => (n, next :: rest)
  | _ => none

theorem quad?_length {s rest : List Char} {n : Nat} (h : quad? s = some (n, rest)) :
    rest.length + 4 = s.length := by
  unfold quad? at h
  split at h
  · obtain ⟨m, _, hm⟩ := Option.map_eq_some_iff.1 h
    cases hm
    simp
  · cases h

/-- An escape of a low surrogate. -/
def lowEscape? : List Char → Option (Nat × List Char)
  | x :: y :: s =>
    if x = Char.ofNat 92 ∧ y = 'u' then (quad? s).filter (fun q => isLowSurrogate q.1) else none
  | _ => none

theorem lowEscape?_length {s rest : List Char} {n : Nat} (h : lowEscape? s = some (n, rest)) :
    rest.length < s.length := by
  unfold lowEscape? at h
  split at h
  · split at h
    · have := quad?_length (Option.filter_eq_some_iff.1 h).1
      simp only [List.length_cons]
      omega
    · cases h
  · cases h

/-- The code point of an escape by number and what follows the escape, given what comes after its
`u`. A high surrogate takes the next escape with it if that is a low one. -/
def hexEscape? (s : List Char) : Option (Nat × List Char) :=
  match quad? s with
  | none => none
  | some (n, rest) =>
    if isHighSurrogate n then
      match lowEscape? rest with
      | some (m, more) => some (joinSurrogates n m, more)
      | none => some (n, rest)
    else some (n, rest)

theorem hexEscape?_length {s rest : List Char} {n : Nat} (h : hexEscape? s = some (n, rest)) :
    rest.length < s.length := by
  unfold hexEscape? at h
  split at h
  · cases h
  · rename_i hq
    have := quad?_length hq
    split at h
    · split at h
      · rename_i hl
        have := lowEscape?_length hl
        have := (Prod.mk.inj (Option.some.inj h)).2
        subst this
        omega
      · have := (Prod.mk.inj (Option.some.inj h)).2
        subst this
        omega
    · have := (Prod.mk.inj (Option.some.inj h)).2
      subst this
      omega

/-- Reads a string from after its opening quote to after its closing one. `whole` are the
characters from the opening quote on, `read` the code points read so far in reverse. -/
def scanString (whole : List Char) (read : List Nat) (s : List Char) :
    Except Fault (Str × List Char) :=
  match s with
  | [] => fault .unterminatedString whole
  | c :: rest =>
    if c = Char.ofNat 34 then .ok (Str.ofPoints read.reverse, rest)
    else if c = Char.ofNat 92 then
      match rest with
      | [] => fault .unterminatedString whole
      | e :: after =>
        if e = 'u' then
          match h : hexEscape? after with
          | none => fault .invalidHexEscape (e :: after)
          | some (n, more) =>
            have := hexEscape?_length h
            scanString whole (n :: read) more
        else
          match simpleEscape? e with
          | some x => scanString whole (x.toNat :: read) after
          | none => fault .invalidEscape (c :: e :: after)
    else if c.toNat < 0x20 then fault .controlCharacter (c :: rest)
    else scanString whole (c.toNat :: read) rest
termination_by s.length
decreasing_by
  all_goals simp only [List.length_cons]
  all_goals omega

def isDigit (c : Char) : Bool := '0' ≤ c && c ≤ '9'

/-- The number that decimal digits write. -/
def digitsValue (digits : List Char) : Nat :=
  digits.foldl (fun n c => n * 10 + (c.toNat - 48)) 0

/-- The whole part of a number: a zero alone or digits that start with none. -/
def scanWhole : List Char → Option (List Char × List Char)
  | [] => none
  | c :: rest =>
    if c = '0' then some ([c], rest)
    else if isDigit c then some (c :: rest.takeWhile isDigit, rest.dropWhile isDigit)
    else none

/-- The digits after a point, if a point and a digit come next. -/
def scanFraction (s : List Char) : List Char × List Char :=
  match s with
  | '.' :: d :: rest =>
    if isDigit d then (d :: rest.takeWhile isDigit, rest.dropWhile isDigit) else ([], s)
  | _ => ([], s)

/-- The exponent, if a letter `e`, perhaps a sign, and a digit come next. -/
def scanExponent (s : List Char) : Option Int × List Char :=
  match s with
  | e :: rest =>
    if e = 'e' ∨ e = 'E' then
      let (negative, digits) := match rest with
        | '-' :: r => (true, r)
        | '+' :: r => (false, r)
        | r => (false, r)
      match digits with
      | d :: _ =>
        if isDigit d then
          let n : Int := digitsValue (digits.takeWhile isDigit)
          (some (if negative then -n else n), digits.dropWhile isDigit)
        else (none, s)
      | [] => (none, s)
    else (none, s)
  | [] => (none, s)

/-- The most digits that a whole number may have. -/
def maxIntegerDigits : Nat := 4300

/-- Reads a number. It is a whole one unless it has a fraction or an exponent. -/
def scanNumber (s : List Char) : Except Fault (Json × List Char) :=
  let (negative, unsigned) := match s with
    | '-' :: r => (true, r)
    | r => (false, r)
  match scanWhole unsigned with
  | none => fault .expectingValue s
  | some (whole, afterWhole) =>
    let (fraction, afterFraction) := scanFraction afterWhole
    let (exponent, rest) := scanExponent afterFraction
    if fraction.isEmpty ∧ exponent.isNone then
      if whole.length > maxIntegerDigits then .error .hugeInteger
      else
        let n : Int := digitsValue whole
        .ok (.int (if negative then -n else n), rest)
    else
      .ok (.float (.ofDecimal negative (digitsValue (whole ++ fraction))
        (exponent.getD 0 - fraction.length)), rest)

/-- The words that stand for a value, with that value. -/
def constants : List (List Char × Json) :=
  [("null".toList, .null), ("true".toList, .bool true), ("false".toList, .bool false),
   ("NaN".toList, .float .nan), ("Infinity".toList, .float (.infinite false)),
   ("-Infinity".toList, .float (.infinite true))]

/-- The value of the word that `s` begins with, and what follows the word. -/
def scanConstant? (s : List Char) : Option (Json × List Char) :=
  constants.findSome? fun (word, value) =>
    if word.isPrefixOf s then some (value, s.drop word.length) else none

mutual

/-- Reads a value that starts right here. -/
def parseValue (fuel : Nat) (s : List Char) : Except Fault (Json × List Char) :=
  match fuel with
  | 0 => fault .expectingValue s
  | fuel + 1 =>
    match s with
    | [] => fault .expectingValue s
    | c :: rest =>
      if c = Char.ofNat 34 then do
        let (x, after) ← scanString s [] rest
        return (.str x, after)
      else if c = '[' then
        match skipSpace rest with
        | ']' :: after => .ok (.arr [], after)
        | items => parseItems fuel [] items
      else if c = '\x7b' then
        match skipSpace rest with
        | '\x7d' :: after => .ok (.obj [], after)
        | members => parseMembers fuel [] members
      else match scanConstant? s with
        | some found => .ok found
        | none => scanNumber s

/-- Reads the items of an array up to its end; `read` are those read so far in reverse. -/
def parseItems (fuel : Nat) (read : List Json) (s : List Char) :
    Except Fault (Json × List Char) :=
  match fuel with
  | 0 => fault .expectingValue s
  | fuel + 1 => do
    let (x, after) ← parseValue fuel s
    match skipSpace after with
    | ']' :: rest => return (.arr (x :: read).reverse, rest)
    | ',' :: rest => parseItems fuel (x :: read) (skipSpace rest)
    | rest => fault .expectingComma rest

/-- Reads the members of an object up to its end; `read` are those read so far. -/
def parseMembers (fuel : Nat) (read : Fields) (s : List Char) :
    Except Fault (Json × List Char) :=
  match fuel with
  | 0 => fault .expectingValue s
  | fuel + 1 =>
    match s with
    | [] => fault .expectingName s
    | c :: afterQuote =>
      if c = Char.ofNat 34 then do
        let (name, after) ← scanString s [] afterQuote
        match skipSpace after with
        | ':' :: rest =>
          let (x, after) ← parseValue fuel (skipSpace rest)
          match skipSpace after with
          | '\x7d' :: rest => return (.obj (put name x read), rest)
          | ',' :: rest => parseMembers fuel (put name x read) (skipSpace rest)
          | rest => fault .expectingComma rest
        | rest => fault .expectingColon rest
      else fault .expectingName s

end

/-- Reads a whole text. -/
def parseChars (s : List Char) : Except Fault Json := do
  match s with
  | '\uFEFF' :: _ => fault .byteOrderMark s
  | _ =>
    let (x, after) ← parseValue (2 * s.length + 2) (skipSpace s)
    match skipSpace after with
    | [] => return x
    | rest => fault .extraData rest

/-- Why a text is no JSON. -/
inductive ParseError
  | malformed (reason : Reason) (line column position : Nat)
  | hugeInteger
deriving DecidableEq, Repr

/-- The place of a fault in the text `s`, lines being separated by line feeds. -/
def Fault.locate (s : List Char) : Fault → ParseError
  | .malformed reason remaining =>
    let position := s.length - remaining
    let before := s.take position
    .malformed reason (before.count '\n' + 1)
      ((before.reverse.takeWhile (· != '\n')).length + 1) position
  | .hugeInteger => .hugeInteger

/-- The wording of an error of form. -/
def Reason.messageAt (reason : Reason) (line column position : Nat) : String :=
  reason.message ++ ": line " ++ toString line ++ " column " ++ toString column ++
    " (char " ++ toString position ++ ")"

/-- The value of a JSON text. -/
def parse (s : String) : Except ParseError Json :=
  (parseChars s.toList).mapError (Fault.locate s.toList)

end EventCodegen.Json
