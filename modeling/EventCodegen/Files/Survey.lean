import EventCodegen.Files.Replace

/-! Working on a part of a larger tree of files: which places a path leads through, a tree that so
far knows nothing but the way to its home directory, and what a run has changed in it. -/
namespace EventCodegen.FileTree

/-- A place and all places above it, from the top on. -/
def wayTo : Place → List Place
  | [] => []
  | name :: above => wayTo above ++ [name :: above]

/-- A tree of which only the way to its home directory is known. -/
def knowingHome (home : Place) : FileTree :=
  { home, entries := (wayTo home).map fun p => (p, .directory) }

/-- The places that names lead through from `here`, as if all of them were directories. -/
def steps (here : Place) : List String → List Place
  | [] => []
  | name :: rest =>
    let next := if name = ".." then here.tail else name :: here
    next :: steps next rest

/-- The places that a path leads through. -/
def stepsOf (t : FileTree) (p : Path) : List Place :=
  steps (if p.start = .here then t.home else []) p.parts

/-- The place at which a file stands under its temporary name. -/
def temporaryPlace : Place → Place
  | [] => []
  | name :: above => (name ++ temporaryEnding) :: above

/-- What stands in the later tree and not, or not so, in the earlier one; what is above comes before
what is below it. -/
def changes (earlier later : FileTree) : List (Place × Entry) :=
  (later.entries.filter fun (p, e) => earlier.get? p ≠ some e).mergeSort
    fun a b => a.1.length ≤ b.1.length

/-- The places that matter to some changes: those of the changed entries, and those of the temporary
names of files. -/
def touched (changed : List (Place × Entry)) : List Place :=
  changed.flatMap fun (p, e) =>
    match e with
    | .directory => [p]
    | .file _ => [p, temporaryPlace p]

/-- A place as a path from the root. -/
def placeText (p : Place) : String := "/" ++ Text.joined "/" p.reverse

end EventCodegen.FileTree
