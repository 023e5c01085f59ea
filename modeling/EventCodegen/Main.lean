import EventCodegen.CommandLine.Program

/-! The program on a real system. It looks at the files that a run needs, lets the run go on what it
has seen, and carries out what the run has changed. Addresses cannot be reached from here, so every
request for one fails. -/
namespace EventCodegen.CommandLine

/-- What stands at a place of the system, if anything can be seen there. -/
def look (p : Place) : IO (Option Entry) := do
  try
    let bytes ← IO.FS.readBinFile (FileTree.placeText p)
    return some (.file bytes.toList)
  catch e =>
    match e with
    | .inappropriateType .. => return some .directory
    | _ => return none

/-- Puts what stands at some places into a tree. Nothing is below a place that is no directory. -/
def learn (t : FileTree) : List Place → IO FileTree
  | [] => return t
  | p :: rest => do
    if t.get? p.tail = some .directory then
      match ← look p with
      | some e => learn (t.put p e) rest
      | none => learn t rest
    else learn t rest

/-- The world for a tree. -/
def worldOn (files : FileTree) : World :=
  { files, response := .otherFailure "no network access" }

/-- A tree with everything in it that a run looks at. What has been `seen` is not looked at again. -/
partial def survey (words : List String) (files : FileTree) (seen : List Place) : IO FileTree := do
  let new := (placesOf words (worldOn files)).filter fun p => !seen.contains p
  if new.isEmpty then return files
  let new := new.mergeSort fun a b => a.length ≤ b.length
  survey words (← learn files new) (seen ++ new)

/-- Carries out changes on the system. -/
def carryOut : List (Place × Entry) → IO Unit
  | [] => return
  | (p, .directory) :: rest => do
    IO.FS.createDir (FileTree.placeText p)
    carryOut rest
  | (p, .file bytes) :: rest => do
    let temporary := FileTree.placeText (FileTree.temporaryPlace p)
    IO.FS.writeBinFile temporary ⟨bytes.toArray⟩
    IO.FS.rename temporary (FileTree.placeText p)
    carryOut rest

/-- Runs the program and gives back its exit code. -/
def start (words : List String) : IO UInt32 := do
  let home := ((Text.parts '/' (← IO.currentDir).toString).filter (· != "")).reverse
  let files ← survey words (.knowingHome home) (FileTree.wayTo home)
  let (outcome, w) := (program words).apply (worldOn files)
  carryOut (files.changes w.files)
  for n in w.journal.filter (·.isAtLeast (leastLevel words)) do
    IO.eprintln (n.level.name ++ " " ++ n.source ++ " | " ++ n.message)
  IO.print (String.join w.display)
  match outcome with
  | .ok e =>
    IO.print e.output
    IO.eprint e.errors
    return UInt32.ofNat e.code
  | .error e =>
    IO.eprintln (e.kind ++ ": " ++ e.message)
    return 1

end EventCodegen.CommandLine

def main (words : List String) : IO UInt32 := EventCodegen.CommandLine.start words
