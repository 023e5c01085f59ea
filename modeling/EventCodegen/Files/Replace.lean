import EventCodegen.Files.Tree

/-! Replacing a file as a whole: its new content is written beside it under another name and then
moved to its place, so that the file is never seen half written. -/
namespace EventCodegen.FileTree

/-- What the temporary name of a file ends in. -/
def temporaryEnding : String := ".tmp"

/-- After a failure the temporary file is removed. If that fails too, its failure is the one that
counts. -/
def cleanUp (t : FileTree) (temporary : Path) (e : FileError) :
    Except FileError Unit × FileTree :=
  match t.remove temporary with
  | .ok t => (.error e, t)
  | .error e => (.error e, t)

/-- Gives the file at `path` the content `bytes` by way of the file at `temporary`. -/
def replace (t : FileTree) (path temporary : Path) (bytes : List UInt8) :
    Except FileError Unit × FileTree :=
  match t.write temporary bytes with
  | .error e => t.cleanUp temporary e
  | .ok written =>
    match written.rename temporary path with
    | .ok moved => (.ok (), moved)
    | .error e => written.cleanUp temporary e

end EventCodegen.FileTree
