import EventCodegen.Text.Lines
import EventCodegen.Text.Quoted

/-! Options on a command line. A long name may be shortened as long as only one option begins that
way and may have its value after an equals sign; short names take their value right behind them, and
several of them without values may stand together. -/
namespace EventCodegen.CommandLine

/-- What an option is for. -/
inductive Key
  | help
  | version
  | url
  | destination
  | package
  | language
  | settingsFile
  | verbose
  | strict
  | noComments
  | dryRun
deriving DecidableEq, Repr

/-- An option with its names. -/
structure OptionSpec where
  key : Key
  names : List String
  takesValue : Bool := false
deriving DecidableEq, Repr

/-- How an option is called in messages. -/
def OptionSpec.label (spec : OptionSpec) : String := Text.joined "/" spec.names

/-- The options of a command. -/
abbrev Specs := List OptionSpec

/-- A value that stands in the same word as the option, and whether an equals sign is between. -/
structure Attached where
  withSign : Bool
  text : List Char
deriving DecidableEq, Repr

/-- An option found in a word, under one of its names. -/
structure Match where
  spec : OptionSpec
  name : List Char
  attached : Option Attached := none
deriving DecidableEq, Repr

/-- A word of a command line: a plain one, an option, which may be unknown, or the divider after
which all words are plain. -/
inductive Word
  | plain (s : String)
  | divider
  | option (found : Option Match) (raw : String)
deriving DecidableEq, Repr

/-- The text of the divider. -/
def dividerText : String := "--"

/-- The text of a word. -/
def Word.text : Word → String
  | plain s => s
  | divider => dividerText
  | option _ raw => raw

/-- What is wrong with a command line. -/
inductive Fault
  | ambiguous (word : String) (candidates : List String)
  | needsValue (label : String)
  | unwantedValue (label : String) (value : String)
  | conflict (label other : String)
  | unknownCommand (name : String) (known : List String)
  | unrecognized (words : List String)
deriving DecidableEq, Repr

def Fault.message : Fault → String
  | ambiguous word candidates =>
    "ambiguous option: " ++ word ++ " could match " ++ Text.joined ", " candidates
  | needsValue label => "argument " ++ label ++ ": expected one argument"
  | unwantedValue label value =>
    "argument " ++ label ++ ": ignored explicit argument " ++ Text.quoted value
  | conflict label other => "argument " ++ label ++ ": not allowed with argument " ++ other
  | unknownCommand name known =>
    "argument COMMAND: invalid choice: " ++ Text.quoted name ++ " (choose from " ++
      Text.joined ", " (known.map Text.quoted) ++ ")"
  | unrecognized words => "unrecognized arguments: " ++ Text.joined " " words

/-- All names with their options, in the order in which they are declared. -/
def namesOf (specs : Specs) : List (List Char × OptionSpec) :=
  specs.flatMap fun spec => spec.names.map fun name => (name.toList, spec)

/-- The option of a name. -/
def named? (specs : Specs) (name : List Char) : Option OptionSpec := (namesOf specs).lookup name

/-- A word cut at its first equals sign. -/
def cutAtSign (s : List Char) : List Char × Option Attached :=
  match s.dropWhile (· != '=') with
  | [] => (s, none)
  | _ :: value => (s.takeWhile (· != '='), some ⟨true, value⟩)

/-- The options that a long name may be short for. -/
def longMatches (specs : Specs) (s : List Char) : List Match :=
  let (name, value) := cutAtSign s
  (namesOf specs).filterMap fun (full, spec) =>
    if name.isPrefixOf full then some ⟨spec, full, value⟩ else none

/-- The options that a short name, perhaps with more behind it, may mean. -/
def shortMatches (specs : Specs) (s : List Char) : List Match :=
  (namesOf specs).filterMap fun (full, spec) =>
    if full = s.take 2 then some ⟨spec, full, some ⟨false, s.drop 2⟩⟩
    else if s.isPrefixOf full then some ⟨spec, full, none⟩
    else none

/-- Whether a word with a dash in front is a negative number. -/
def isNegativeNumber : List Char → Bool
  | '-' :: rest =>
    let isDigit (c : Char) : Bool := '0' ≤ c && c ≤ '9'
    let rest := if rest.getLast? = some '\n' then rest.dropLast else rest
    match rest.dropWhile isDigit with
    | [] => !rest.isEmpty
    | '.' :: places => !places.isEmpty && places.all isDigit
    | _ => false
  | _ => false

/-- Finds out what a word is. -/
def classify (specs : Specs) (s : String) : Except Fault Word :=
  match s.toList with
  | '-' :: tail =>
    let whole := '-' :: tail
    let (name, value) := cutAtSign whole
    match named? specs whole, named? specs name with
    | some spec, _ => .ok (.option (some ⟨spec, whole, none⟩) s)
    | none, some spec => .ok (.option (some ⟨spec, name, value⟩) s)
    | none, none =>
      let found := if tail.head? = some '-' then longMatches specs whole
        else if tail.isEmpty then []
        else shortMatches specs whole
      match found with
      | [m] => .ok (.option (some m) s)
      | [] =>
        if tail.isEmpty || isNegativeNumber whole || tail.contains ' ' then .ok (.plain s)
        else .ok (.option none s)
      | ms => .error (.ambiguous s (ms.map fun m => String.ofList m.name))
  | _ => .ok (.plain s)

/-- Finds out what words are. -/
def classifyAll (specs : Specs) : List String → Except Fault (List Word)
  | [] => .ok []
  | s :: rest =>
    if s = dividerText then .ok (.divider :: rest.map .plain)
    else do
      let word ← classify specs s
      let words ← classifyAll specs rest
      return word :: words

/-- One use of an option. -/
structure Use where
  spec : OptionSpec
  value : Option String := none
deriving DecidableEq, Repr

/-- What an option in a word comes to: the uses of options, words that nothing is known about, and
whether the word after it was used up as a value. -/
structure Expansion where
  uses : List Use := []
  unknown : List String := []
  usedNext : Bool := false
deriving DecidableEq, Repr

/-- A value that stands in the same word as its option; a divider there counts for nothing. -/
def attachedValue (text : List Char) : String :=
  if String.ofList text = dividerText then "" else String.ofList text

/-- Whether a name has one dash only. -/
def isShort (name : List Char) : Bool := name[1]? != some '-'

/-- What is attached to the second of two short names that stand together. -/
def attachedAfter : List Char → Option Attached
  | [] => none
  | '=' :: value => some ⟨true, value⟩
  | value => some ⟨false, value⟩

/-- An option that has nothing attached takes its value from the next word. -/
def expandAlone (spec : OptionSpec) (next : Option String) : Except Fault Expansion :=
  if spec.takesValue then
    match next with
    | some value => .ok { uses := [⟨spec, some value⟩], usedNext := true }
    | none => .error (.needsValue spec.label)
  else .ok { uses := [⟨spec, none⟩] }

/-- Expands an option with what is attached to it. `fuel` bounds the names that stand together;
the characters attached are enough. -/
def expandAttached (specs : Specs) (next : Option String) :
    (fuel : Nat) → OptionSpec → (name : List Char) → Attached → Except Fault Expansion
  | 0, spec, _, attached => .error (.unwantedValue spec.label (String.ofList attached.text))
  | fuel + 1, spec, name, attached =>
    if spec.takesValue then .ok { uses := [⟨spec, some (attachedValue attached.text)⟩] }
    else
      match attached.text with
      | [] => .error (.unwantedValue spec.label "")
      | c :: more =>
        if !isShort name || attached.withSign || c == '-' then
          .error (.unwantedValue spec.label (String.ofList (c :: more)))
        else
          match named? specs ['-', c] with
          | none => .ok { uses := [⟨spec, none⟩], unknown := [String.ofList ('-' :: c :: more)] }
          | some other => do
            let e ← match attachedAfter more with
              | none => expandAlone other next
              | some a => expandAttached specs next fuel other ['-', c] a
            return { e with uses := ⟨spec, none⟩ :: e.uses }

/-- Expands an option; `next` is the word after it if that is a plain one. -/
def expand (specs : Specs) (m : Match) (next : Option String) : Except Fault Expansion :=
  match m.attached with
  | none => expandAlone m.spec next
  | some a => expandAttached specs next (a.text.length + 1) m.spec m.name a

/-- The next word, if it is a plain one. -/
def nextPlain : List Word → Option String
  | .plain s :: _ => some s
  | _ => none

end EventCodegen.CommandLine
