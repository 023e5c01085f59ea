import EventCodegen.Failure

/-! Templates: texts with places where values are filled in, parts that depend on whether a value is
given, and parts repeated for the items of a value. -/
namespace EventCodegen.Template

/-- What is done to a value before it is filled in: it becomes a literal of a language. -/
inductive Filter
  | literal (t : Target)
  | unknown (name : String)
deriving DecidableEq, Repr

/-- The filters under their names. -/
def Filter.ofName : String → Filter
  | "py_str" => .literal .python
  | "kt_str" => .literal .kotlin
  | name => .unknown name

/-- A part of a template. -/
inductive Node
  | text (s : List Char)
  | output (name : String) (filters : List Filter)
  | choice (name : String) (yes no : List Node)
  | loop (item name : String) (body empty : List Node)
deriving Repr

mutual

/-- The first filter without a meaning. Within a choice nobody asks before it is needed; a loop
starts to ask again. -/
def Node.unknownFilter? (inChoice : Bool) : Node → Option String
  | .text _ => none
  | .output _ filters =>
    if inChoice then none
    else filters.findSome? fun f => match f with
      | .unknown name => some name
      | .literal _ => none
  | .choice _ yes no => (unknownFilterIn? true yes).or (unknownFilterIn? true no)
  | .loop _ _ body empty => (unknownFilterIn? false body).or (unknownFilterIn? inChoice empty)

def unknownFilterIn? (inChoice : Bool) : List Node → Option String
  | [] => none
  | n :: rest => (n.unknownFilter? inChoice).or (unknownFilterIn? inChoice rest)

end

end EventCodegen.Template
