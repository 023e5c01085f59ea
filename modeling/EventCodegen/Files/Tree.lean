import EventCodegen.Files.Path
import EventCodegen.Text.Quoted
import EventCodegen.Text.Utf8

/-! A tree of files and directories, and what may go wrong when a path is followed in it. A place in
the tree is the list of names on the way to it, the last name first, so that the place above is the
tail. Each operation here either fails and leaves the tree alone, or changes one entry. -/
namespace EventCodegen

/-- Why an operation on a file fails. -/
inductive FileFault
  | missing
  | alreadyThere
  | notDirectory
  | isDirectory
  | nameTooLong
  | busy
  | nulCharacter
deriving DecidableEq, Repr

namespace FileFault

/-- The number by which systems know a fault. -/
def number : FileFault → Nat
  | missing => 2
  | busy => 16
  | alreadyThere => 17
  | notDirectory => 20
  | isDirectory => 21
  | nulCharacter => 22
  | nameTooLong => 36

def wording : FileFault → String
  | missing => "No such file or directory"
  | busy => "Device or resource busy"
  | alreadyThere => "File exists"
  | notDirectory => "Not a directory"
  | isDirectory => "Is a directory"
  | nulCharacter => "embedded null byte"
  | nameTooLong => "File name too long"

/-- The kind under which a fault is reported. -/
def kind : FileFault → String
  | missing => "FileNotFoundError"
  | busy => "OSError"
  | alreadyThere => "FileExistsError"
  | notDirectory => "NotADirectoryError"
  | isDirectory => "IsADirectoryError"
  | nulCharacter => "ValueError"
  | nameTooLong => "OSError"

/-- Whether the system itself finds the fault; a NUL in a path is refused before it is asked. -/
def isSystem : FileFault → Bool
  | nulCharacter => false
  | _ => true

end FileFault

/-- A failed operation: what went wrong at which path and, if a file was moved, on the way where. -/
structure FileError where
  fault : FileFault
  path : Path
  target : Option Path := none
deriving DecidableEq, Repr

def FileError.message (e : FileError) : String :=
  if e.fault.isSystem then
    "[Errno " ++ toString e.fault.number ++ "] " ++ e.fault.wording ++ ": " ++
      Text.quoted e.path.text ++
      match e.target with
      | none => ""
      | some target => " -> " ++ Text.quoted target.text
  else e.fault.wording

/-- A place in the tree: the names on the way, the last one first. -/
abbrev Place := List String

/-- What stands at a place. -/
inductive Entry
  | file (bytes : List UInt8)
  | directory
deriving DecidableEq, Repr

/-- A tree of files. `home` is the place from which relative paths start. -/
structure FileTree where
  home : Place := ["home"]
  entries : List (Place × Entry) := [(["home"], .directory)]
deriving Repr

namespace FileTree

/-- What stands at a place. The root is always a directory. -/
def get? (t : FileTree) (p : Place) : Option Entry :=
  if p = [] then some .directory else t.entries.lookup p

/-- The tree without what stands at a place. -/
def erase (t : FileTree) (p : Place) : FileTree :=
  { t with entries := t.entries.filter (·.1 != p) }

/-- The tree with `e` at a place. -/
def put (t : FileTree) (p : Place) (e : Entry) : FileTree :=
  { t with entries := (p, e) :: (t.erase p).entries }

/-- The most bytes in a name and in a path. -/
def maxName : Nat := 255
def maxPath : Nat := 4095

def byteLength (s : String) : Nat := (Text.encode s.toList).length

/-- The place that names lead to from `here`. Each step needs a directory to start from; whether
something stands at the last place is not asked. -/
def walk (t : FileTree) (here : Place) : List String → Except FileFault Place
  | [] => .ok here
  | name :: rest =>
    match t.get? here with
    | none => .error .missing
    | some (.file _) => .error .notDirectory
    | some .directory =>
      if name = ".." then walk t here.tail rest
      else if byteLength name > maxName then .error .nameTooLong
      else walk t (name :: here) rest

/-- The place of a path. -/
def find (t : FileTree) (p : Path) : Except FileFault Place :=
  if p.text.toList.any (· == Char.ofNat 0) then .error .nulCharacter
  else if byteLength p.text > maxPath then .error .nameTooLong
  else walk t (if p.start = .here then t.home else []) p.parts

/-- What stands at a path. -/
def stat (t : FileTree) (p : Path) : Except FileFault Entry := do
  match t.get? (← t.find p) with
  | some e => return e
  | none => .error .missing

/-- Whether something stands at a path. A path that leads nowhere has nothing at it, but one that
is too long cannot even be asked about. -/
def present (t : FileTree) (p : Path) : Except FileError Bool :=
  match t.stat p with
  | .ok _ => .ok true
  | .error .nameTooLong => .error ⟨.nameTooLong, p, none⟩
  | .error _ => .ok false

/-- Whether a directory stands at a path. -/
def hasDirectory (t : FileTree) (p : Path) : Except FileError Bool :=
  match t.stat p with
  | .ok e => .ok (e = .directory)
  | .error .nameTooLong => .error ⟨.nameTooLong, p, none⟩
  | .error _ => .ok false

/-- The bytes of the file at a path. -/
def read (t : FileTree) (p : Path) : Except FileError (List UInt8) :=
  match t.stat p with
  | .ok (.file bytes) => .ok bytes
  | .ok .directory => .error ⟨.isDirectory, p, none⟩
  | .error fault => .error ⟨fault, p, none⟩

/-- Whether a path ends in a name of its own, and not in a step upwards or nowhere. -/
def endsInName (p : Path) : Bool := p.parts != [] && p.name != ".."

/-- Makes one directory. -/
def makeDirectory (t : FileTree) (p : Path) : Except FileError FileTree :=
  match t.find p with
  | .error fault => .error ⟨fault, p, none⟩
  | .ok place =>
    if !endsInName p ∨ (t.get? place).isSome then .error ⟨.alreadyThere, p, none⟩
    else .ok (t.put place .directory)

/-- Writes a file, in the place of the file that may stand there. -/
def write (t : FileTree) (p : Path) (bytes : List UInt8) : Except FileError FileTree :=
  match t.find p with
  | .error fault => .error ⟨fault, p, none⟩
  | .ok place =>
    match t.get? place with
    | some .directory => .error ⟨.isDirectory, p, none⟩
    | _ => .ok (t.put place (.file bytes))

/-- Removes a file; that none is there is no failure. -/
def remove (t : FileTree) (p : Path) : Except FileError FileTree :=
  match t.find p with
  | .error .missing => .ok t
  | .error fault => .error ⟨fault, p, none⟩
  | .ok place =>
    match t.get? place with
    | none => .ok t
    | some .directory => .error ⟨.isDirectory, p, none⟩
    | some (.file _) => .ok (t.erase place)

/-- Moves a file, to the place of the file that may stand there. -/
def rename (t : FileTree) (p q : Path) : Except FileError FileTree :=
  match t.find p, t.find q with
  | .error fault, _ => .error ⟨fault, p, some q⟩
  | _, .error fault => .error ⟨fault, p, some q⟩
  | .ok source, .ok target =>
    match t.get? source with
    | none => .error ⟨.missing, p, some q⟩
    | some e =>
      if !endsInName q then .error ⟨.busy, p, some q⟩
      else match t.get? target with
        | some .directory => .error ⟨.isDirectory, p, some q⟩
        | _ => .ok ((t.erase source).put target e)

/-- Makes a directory and all that is missing above it. What is made stays even if a later step
fails, so the tree is returned in any case. A directory that is there already is no failure. -/
def makeDirectories (t : FileTree) (p : Path) : Except FileError Unit × FileTree :=
  match t.makeDirectory p with
  | .ok t => (.ok (), t)
  | .error e =>
    if _h : e.fault = .missing ∧ p.parts ≠ [] then
      match makeDirectories t p.parent with
      | (.error e, t) => (.error e, t)
      | (.ok _, t) =>
        match t.makeDirectory p with
        | .ok t => (.ok (), t)
        | .error e => (settle t e, t)
    else (settle t e, t)
termination_by p.parts.length
decreasing_by
  have := List.length_pos_iff.2 _h.2
  simp only [Path.parent, List.length_dropLast]
  omega
where
  /-- A failure counts for nothing where a directory stands anyway. -/
  settle (t : FileTree) (e : FileError) : Except FileError Unit :=
    if e.fault.isSystem ∧ e.fault ≠ .missing then
      match t.hasDirectory p with
      | .ok true => .ok ()
      | .ok false => .error e
      | .error e => .error e
    else .error e

/-- The names on the way from `base` to a place below it. -/
def namesBelow? (base place : Place) : Option (List String) :=
  if base.length < place.length ∧ place.drop (place.length - base.length) = base then
    some (place.take (place.length - base.length)).reverse
  else none

/-- Everything below the home directory with the text of its path, in the order of those texts. -/
def listing (t : FileTree) : List (String × Entry) :=
  let found := t.entries.filterMap fun (place, e) =>
    (namesBelow? t.home place).map fun names => (Text.joined "/" names, e)
  found.mergeSort (fun a b => decide (a.1 ≤ b.1))

end FileTree
end EventCodegen
