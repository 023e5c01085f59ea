import EventCodegen.Source.Literal
import EventCodegen.Template.Reader

/-! Filling templates in, and finding them in a directory. -/
namespace EventCodegen.Template

/-- Why a template cannot be filled in. -/
inductive FillFault
  | undefined (name : String)
  | filterMissing (name : String)
  | misuse (e : Misuse)

/-- A value that may be used: one that is not defined stops everything. -/
def defined (name : String) : Option Json → Except FillFault Json
  | some x => .ok x
  | none => .error (.undefined name)

/-- The text of a list of single characters. -/
def joinCharacters (items : List Json) : Except FillFault String := do
  let characters ← items.mapM fun x =>
    match x.text?.map String.toList with
    | some [c] => Except.ok c
    | _ => .error (.misuse .wrongType)
  return String.ofList characters

/-- The literal of a value. For one language any value has a text; for the other it has to be a
text, or a list or an object that can be read as one. -/
def literalOf (name : String) (t : Target) (x : Option Json) : Except FillFault String :=
  match t, x with
  | .python, none => .error (.misuse .wrongType)
  | .python, some x => .ok (Json.write .spaced x)
  | .kotlin, none => .error (.undefined name)
  | .kotlin, some (.str (.text s)) => .ok (Source.literal .kotlin s)
  | .kotlin, some (.arr items) => Source.literal .kotlin <$> joinCharacters items
  | .kotlin, some (.obj fields) =>
    Source.literal .kotlin <$> joinCharacters (fields.map fun m => .str m.1)
  | .kotlin, some _ => .error (.misuse .wrongType)

/-- Applies filters, one after the other. -/
def applyFilters (name : String) : Option Json → List Filter → Except FillFault (Option Json)
  | x, [] => .ok x
  | x, .literal t :: rest => do
    let s ← literalOf name t x
    applyFilters name (some (.text s)) rest
  | _, .unknown filter :: _ => .error (.filterMissing filter)

/-- The items that a value is run through for. -/
def itemsOf : Json → Except FillFault (List Json)
  | .arr items => .ok items
  | .str (.text s) => .ok (s.toList.map fun c => .text (String.singleton c))
  | .obj fields => .ok (fields.map fun m => .str m.1)
  | _ => .error (.misuse .wrongType)

mutual

/-- Fills values into a node. -/
def Node.fill (values : Json.Fields) : Node → Except FillFault (List Char)
  | .text s => .ok s
  | .output name filters => do
    let x ← applyFilters name (Json.lookup name values) filters
    return (← defined name x).display.toList
  | .choice name yes no => do
    let x ← defined name (Json.lookup name values)
    if x.isGiven then fillAll values yes else fillAll values no
  | .loop item name body empty => do
    let items ← itemsOf (← defined name (Json.lookup name values))
    if items.isEmpty then fillAll values empty
    else
      let parts ← items.mapM fun x => fillAll (Json.put item x values) body
      return parts.flatten

/-- Fills values into nodes. -/
def fillAll (values : Json.Fields) : List Node → Except FillFault (List Char)
  | [] => .ok []
  | n :: rest => do
    let s ← n.fill values
    let more ← fillAll values rest
    return s ++ more

end

/-- The failure behind a template that cannot be filled in. -/
def FillFault.failure (template : String) : FillFault → Failure
  | undefined name => .template (.unfilled template ("'" ++ name ++ "' is undefined"))
  | filterMissing name => .template (.unfilled template ("No filter named '" ++ name ++ "' found."))
  | misuse e => .misuse e

/-- What the names of templates end in. -/
def ending : String := ".j2"

/-- Where templates are kept: in a directory, or with the generator of a language. -/
inductive Shelf
  | directory (path : Path)
  | generator (t : Target)
deriving DecidableEq, Repr

/-- The names of the templates of a language, with the first value that each asks for. -/
def generatorForms (t : Target) : List (String × String) :=
  [("base_event" ++ t.extension ++ ending, "base"), ("category" ++ t.extension ++ ending, "module")]

/-- The shelf of a directory, which has to be there. -/
def Shelf.ofDirectory (files : FileTree) (path : Path) : Except Failure Shelf :=
  match files.hasDirectory path with
  | .ok true => .ok (.directory path)
  | .ok false => .error (.template (.noDirectory path))
  | .error e => .error (.file e)

/-- The path of a template in a directory. No part of its name may lead out of it. -/
def pathIn (directory : Path) (name : String) : Option Path :=
  let parts := Text.parts '/' name
  if parts.contains ".." then none
  else some (directory.join { parts := parts.filter Path.isName })

/-- The template of a name in a directory, if there is one. -/
def find (files : FileTree) (directory : Path) (name : String) :
    Except Failure (Option (Except TemplateFault (List Node))) :=
  match (pathIn directory name).map files.stat with
  | some (.ok (.file bytes)) =>
    match Text.decode bytes with
    | .ok s => .ok (some (read (Text.unifyNewlines s)))
    | .error fault => .error (.misuse (.undecodable fault))
  | _ => .ok none

/-- Fills the template of a name in. -/
def Shelf.render (files : FileTree) (shelf : Shelf) (name : String) (values : Json.Fields) :
    Except Failure String :=
  match shelf with
  | generator t =>
    match (generatorForms t).lookup name with
    | some value => .error (FillFault.failure name (.undefined value))
    | none => .error (.template (.notFound name { parts := ["templates"] }))
  | directory path => do
    match ← find files path name with
    | none => .error (.template (.notFound name path))
    | some (.error fault) => .error (.template (.faulty name fault))
    | some (.ok nodes) =>
      match fillAll values nodes with
      | .ok s => return String.ofList s
      | .error fault => .error (fault.failure name)

/-- Whether there is a template of a name. One that cannot be read stops the question. -/
def Shelf.hasTemplate (files : FileTree) (shelf : Shelf) (name : String) : Except Failure Bool :=
  match shelf with
  | generator t => .ok ((generatorForms t).lookup name).isSome
  | directory path => do
    match ← find files path name with
    | none => return false
    | some (.error fault) => .error (.templateText fault)
    | some (.ok _) => return true

/-- The names of all templates, in order. -/
def Shelf.names (files : FileTree) : Shelf → List String
  | generator t => (generatorForms t).map (·.1)
  | directory path =>
    match files.find path with
    | .error _ => []
    | .ok place =>
      let found := files.entries.filterMap fun (p, e) =>
        match e, FileTree.namesBelow? place p with
        | .file _, some names => some (Text.joined "/" names)
        | _, _ => none
      (found.filter (fun name => ending.toList.isSuffixOf name.toList)).mergeSort
        (fun a b => decide (a ≤ b))

end EventCodegen.Template
