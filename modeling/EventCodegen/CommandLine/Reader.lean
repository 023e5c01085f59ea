import EventCodegen.CommandLine.Command

/-! From the words of a command line to a command with its arguments, or to an early end: help, the
version, or a message about what is wrong. -/
namespace EventCodegen.CommandLine

/-- The arguments of a command. -/
structure Arguments where
  plan : Option String := none
  url : Option String := none
  destination : Option String := none
  package : Option String := none
  language : Option String := none
  settingsFile : Option String := none
  verbose : Bool := false
  strict : Bool := false
  noComments : Bool := false
  dryRun : Bool := false
deriving DecidableEq, Repr

/-- The arguments with one use of an option taken in. -/
def Arguments.take (a : Arguments) (u : Use) : Arguments :=
  match u.spec.key with
  | .help => a
  | .version => a
  | .url => { a with url := u.value }
  | .destination => { a with destination := u.value }
  | .package => { a with package := u.value }
  | .language => { a with language := u.value }
  | .settingsFile => { a with settingsFile := u.value }
  | .verbose => { a with verbose := true }
  | .strict => { a with strict := true }
  | .noComments => { a with noComments := true }
  | .dryRun => { a with dryRun := true }

/-- How the program ends without doing any work. -/
structure Exit where
  code : Nat
  output : String := ""
  errors : String := ""
deriving DecidableEq, Repr

/-- The end after a fault: how to call the program or the command, and what is wrong. -/
def Exit.ofFault (usage : List String) (called : String) (f : Fault) : Exit :=
  { code := 2, errors := block (usage ++ [called ++ ": error: " ++ f.message]) }

/-- What comes of a command line. -/
inductive Outcome
  | run (command : Command) (arguments : Arguments)
  | noCommand
  | exit (e : Exit)
deriving DecidableEq, Repr

/-- A step of reading either goes on, or ends early, or fails. -/
inductive Stop
  | exit (e : Exit)
  | fault (f : Fault)
deriving DecidableEq, Repr

/-- The name of the positional argument in messages. -/
def planLabel : String := "schema"

/-- Takes in uses of options in order. Help ends the program, and an address may not stand beside
the file of a plan. -/
def takeAll (help : String) (a : Arguments) : List Use → Except Stop Arguments
  | [] => .ok a
  | u :: rest =>
    if u.spec.key = .help then .error (.exit { code := 0, output := help })
    else if u.spec.key = .version then
      .error (.exit { code := 0, output := block [programName ++ " " ++ version] })
    else if u.spec.key = .url ∧ a.plan.isSome then
      .error (.fault (.conflict u.spec.label planLabel))
    else takeAll help (a.take u) rest

/-- Takes in the file of a plan. -/
def takePlan (a : Arguments) (file : String) : Except Stop Arguments :=
  if a.url.isSome then .error (.fault (.conflict planLabel urlOption.label))
  else .ok { a with plan := some file }

/-- Reads the words of a command. `planOpen` says whether the file of a plan may still come, and
`unknown` are the words so far that nothing is known about. -/
def readWords (c : Command) (planOpen : Bool) (a : Arguments) (unknown : List String)
    (words : List Word) : Except Stop (Arguments × List String) :=
  match words with
  | [] => .ok (a, unknown)
  | .option none raw :: rest => readWords c planOpen a (unknown ++ [raw]) rest
  | .option (some m) _ :: rest =>
    match expand c.options m (nextPlain rest) with
    | .error f => .error (.fault f)
    | .ok e =>
      match takeAll c.help a e.uses with
      | .error stop => .error stop
      | .ok a =>
        readWords c planOpen a (unknown ++ e.unknown) (if e.usedNext then rest.tail else rest)
  | .divider :: .plain s :: rest =>
    if planOpen then
      match takePlan a s with
      | .error stop => .error stop
      | .ok a => readWords c false a unknown rest
    else readWords c planOpen a (unknown ++ [dividerText]) (.plain s :: rest)
  | .divider :: rest =>
    if planOpen then readWords c false a unknown rest
    else readWords c planOpen a (unknown ++ [dividerText]) rest
  | .plain s :: .divider :: rest =>
    if planOpen then
      match takePlan a s with
      | .error stop => .error stop
      | .ok a => readWords c false a unknown rest
    else readWords c planOpen a (unknown ++ [s]) (.divider :: rest)
  | .plain s :: rest =>
    if planOpen then
      match takePlan a s with
      | .error stop => .error stop
      | .ok a => readWords c false a unknown rest
    else readWords c planOpen a (unknown ++ [s]) rest
termination_by words.length
decreasing_by
  all_goals simp only [List.length_cons]
  all_goals first | omega | (split <;> first | omega | (simp only [List.length_tail]; omega))

/-- Reads what follows the name of a command. -/
def readCommand (c : Command) (words : List String) : Except Exit (Arguments × List String) :=
  let result : Except Stop (Arguments × List String) :=
    match classifyAll c.options words with
    | .error f => .error (.fault f)
    | .ok words => readWords c c.takesPlan {} [] words
  match result with
  | .ok r => .ok r
  | .error (.exit e) => .error e
  | .error (.fault f) => .error (.ofFault c.usage (programName ++ " " ++ c.name) f)

/-- The end after a fault in the words before a command. -/
def programFault (f : Fault) : Outcome := .exit (.ofFault programUsage programName f)

/-- The outcome once all words are read. -/
def finish (unknown : List String) (result : Outcome) : Outcome :=
  if unknown.isEmpty then result else programFault (.unrecognized unknown)

/-- Reads words up to the name of a command and then what follows. -/
def readProgram (unknown : List String) : List Word → Outcome
  | [] => finish unknown .noCommand
  | .option none raw :: rest => readProgram (unknown ++ [raw]) rest
  | .option (some m) _ :: rest =>
    match expand programOptions m (nextPlain rest) with
    | .error f => programFault f
    | .ok e =>
      match takeAll programHelp {} e.uses with
      | .error (.exit e) => .exit e
      | .error (.fault f) => programFault f
      | .ok _ => readProgram (unknown ++ e.unknown) rest
  | .divider :: [] => finish (unknown ++ [dividerText]) .noCommand
  | .divider :: _ :: _ => programFault (.unknownCommand dividerText (Command.all.map (·.name)))
  | .plain s :: rest =>
    match Command.ofName? s with
    | none => programFault (.unknownCommand s (Command.all.map (·.name)))
    | some c =>
      match readCommand c (rest.map Word.text) with
      | .error e => .exit e
      | .ok (a, more) => finish (unknown ++ more) (.run c a)

/-- Reads a command line. -/
def read (words : List String) : Outcome :=
  match classifyAll programOptions words with
  | .error f => programFault f
  | .ok words => readProgram [] words

end EventCodegen.CommandLine
