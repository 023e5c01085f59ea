import EventCodegen.Naming

/-! Scopes of names. A scope knows the words it may not use and the names it has handed out as
unique; a name that is asked for again gets the least free number after it. -/
namespace EventCodegen

/-- A scope of names. Only names asked for as unique are recorded in `used`. -/
structure Scope where
  reserved : List String := []
  fallback : String := "value"
  used : List String := []
deriving Repr

namespace Scope

/-- `base` followed by the least number from `k` on that makes it free; `fuel` bounds the search. -/
def numbered (used : List String) (base : String) : (fuel : Nat) → (k : Nat) → String
  | 0, k => base ++ toString k
  | fuel + 1, k =>
    if base ++ toString k ∈ used then numbered used base fuel (k + 1) else base ++ toString k

/-- `base` if it is free, else `base` with the least free number after it. Of the first
`used.length + 1` candidates one is free. -/
def free (used : List String) (base : String) : String :=
  if base ∈ used then numbered used base used.length 1 else base

/-- A name in a style, as an identifier that is no reserved word unless the suffix makes it one. -/
def identifier (scope : Scope) (name : String) (style : NameStyle) (suffix : String := "_") :
    String :=
  let cleaned := Naming.clean scope.fallback (Naming.styled style name)
  if cleaned ∈ scope.reserved then cleaned ++ suffix else cleaned

/-- An identifier that no earlier unique request got, and the scope that remembers it. -/
def unique (scope : Scope) (name : String) (style : NameStyle) (suffix : String := "_") :
    String × Scope :=
  let chosen := free scope.used (scope.identifier name style suffix)
  (chosen, { scope with used := chosen :: scope.used })

/-- The part of a package that belongs to a category, as an identifier. -/
def moduleName (scope : Scope) (category : String) : String :=
  let cleaned := Naming.clean scope.fallback (Naming.segment category)
  if cleaned ∈ scope.reserved then cleaned ++ "_" else cleaned

/-- A scope with the same rules, further reserved words, and no name handed out. -/
def fork (scope : Scope) (extra : List String := []) : Scope :=
  { scope with reserved := scope.reserved ++ extra, used := [] }

/-- The reserved words in order, each once. -/
def reservedWords (scope : Scope) : List String :=
  (scope.reserved.eraseDups).mergeSort (fun a b => decide (a ≤ b))

end Scope
end EventCodegen
