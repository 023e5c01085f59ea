import EventCodegen.Number.Shortest
import EventCodegen.Text.Quoted

/-! JSON values. An object keeps its members in the order in which their names first appeared.
A string may hold surrogates that pair with nothing, because escapes can spell them; such a string
is no Unicode text and is kept apart from those that are. -/
namespace EventCodegen

namespace Json

/-- A decoded JSON string: a text, or a text `clean` followed by a surrogate without a partner and
any further code points. -/
inductive Str
  | text (s : String)
  | broken (clean : String) (surrogate : Nat) (rest : List Nat)
deriving DecidableEq, Repr

/-- The longest text at the beginning of some code points, and what follows it. -/
def Str.split : List Nat → List Char × List Nat
  | [] => ([], [])
  | n :: rest =>
    if 0xD800 ≤ n ∧ n < 0xE000 then ([], n :: rest)
    else ((Char.ofNat n) :: (Str.split rest).1, (Str.split rest).2)

/-- The string of some code points. -/
def Str.ofPoints (points : List Nat) : Str :=
  match Str.split points with
  | (clean, []) => .text (String.ofList clean)
  | (clean, n :: rest) => .broken (String.ofList clean) n rest

/-- The code points of a string. -/
def Str.points : Str → List Nat
  | .text s => s.toList.map Char.toNat
  | .broken clean n rest => clean.toList.map Char.toNat ++ n :: rest

/-- The text of a string; one that is no text gives what comes before its first fault. -/
def Str.clean : Str → String
  | .text s => s
  | .broken clean _ _ => clean

instance : Coe String Str := ⟨.text⟩

end Json

/-- A JSON value. Whole numbers are kept apart from floating-point ones, as their texts differ. -/
inductive Json
  | null
  | bool (b : Bool)
  | int (n : Int)
  | float (x : Binary64)
  | str (s : Json.Str)
  | arr (items : List Json)
  | obj (fields : List (Json.Str × Json))
deriving Repr

namespace Json

/-- The members of an object. -/
abbrev Fields := List (Str × Json)

instance : Inhabited Json := ⟨.null⟩

/-- A JSON string that holds a text. -/
def text (s : String) : Json := .str (.text s)

/-- The members with `name` bound to `value`: in its old place if it was bound, else at the end. -/
def put (name : Str) (value : Json) : Fields → Fields
  | [] => [(name, value)]
  | (n, v) :: rest => if n = name then (name, value) :: rest else (n, v) :: put name value rest

/-- The value bound to `name`. -/
def lookup (name : Str) : Fields → Option Json
  | [] => none
  | (n, v) :: rest => if n = name then some v else lookup name rest

/-- The first members with those of the second put in, one after the other. -/
def merge (base more : Fields) : Fields := more.foldl (fun fields m => put m.1 m.2 fields) base

/-- The name of a value's type in messages. -/
def typeName : Json → String
  | null => "null"
  | bool _ => "boolean"
  | int _ => "number"
  | float _ => "number"
  | str _ => "string"
  | arr _ => "array"
  | obj _ => "object"

/-- Whether a value counts as given: it is not null, false, zero or empty. -/
def isGiven : Json → Bool
  | null => false
  | bool b => b
  | int n => n != 0
  | float x => !x.isZero
  | str (.text s) => !s.toList.isEmpty
  | str _ => true
  | arr items => !items.isEmpty
  | obj fields => !fields.isEmpty

/-- The text that a value is, if it is one. -/
def text? : Json → Option String
  | str (.text s) => some s
  | _ => none

theorem text?_text (s : String) : (text s).text? = some s := rfl

@[simp] theorem lookup_put (name : Str) (value : Json) (fields : Fields) :
    lookup name (put name value fields) = some value := by
  induction fields with
  | nil => simp [put, lookup]
  | cons m rest ih => by_cases h : m.1 = name <;> simp [put, lookup, h, ih]

theorem lookup_put_ne {name other : Str} (value : Json) (fields : Fields) (h : other ≠ name) :
    lookup other (put name value fields) = lookup other fields := by
  induction fields with
  | nil => simp [put, lookup, Ne.symm h]
  | cons m rest ih =>
    by_cases hm : m.1 = name
    · simp [put, lookup, hm, Ne.symm h]
    · simp [put, lookup, hm, ih]

end Json
end EventCodegen
