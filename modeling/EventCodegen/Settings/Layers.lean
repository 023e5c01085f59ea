import EventCodegen.Registry
import EventCodegen.Settings.Basic

/-! Settings from several layers: the defaults of the language, then a settings file, then
overrides. The language itself may come from any layer. Members that name no setting become custom
settings. -/
namespace EventCodegen

namespace Json.Str

/-- Code points in small letters, after `pending` letters in reverse. A surrogate is no letter, so
the texts before and after it have small forms of their own. -/
def lowerPoints (pending : List Char) : List Nat → List Nat
  | [] => (Text.lowerFrom false pending.reverse).map Char.toNat
  | n :: rest =>
    if 0xD800 ≤ n ∧ n < 0xE000 then
      (Text.lowerFrom false pending.reverse).map Char.toNat ++ n :: lowerPoints [] rest
    else lowerPoints (Char.ofNat n :: pending) rest

/-- A string in small letters. -/
def lower : Str → Str
  | .text s => .text (Text.lower s)
  | .broken clean surrogate rest => .broken (Text.lower clean) surrogate (lowerPoints [] rest)

end Json.Str

namespace Settings

/-- The language that is used if no layer names one. -/
def defaultLanguage : String := "python"

/-- The first of some values that is given. -/
def firstGiven (values : List Json) : Json :=
  (values.find? (·.isGiven)).getD (.text defaultLanguage)

/-- The language that the layers choose, in small letters: that of the overrides, else the one
asked for, else that of the file. -/
def chosenLanguage (asked : Json) (file overrides : Json.Fields) : Except Failure Json.Str :=
  match firstGiven [(Json.lookup "language" overrides).getD .null, asked,
    (Json.lookup "language" file).getD .null] with
  | .str language => .ok language.lower
  | _ => .error (.misuse .notText)

/-- The name of a language in small letters as the registry knows it. One that the registry does
not know is kept as it is. -/
def primaryName (registry : Registry) : Json.Str → Json.Str
  | .text language => .text ((registry.primary? language).getD language)
  | language => language

/-- All members, with those that name no setting put into the custom settings. -/
def gatherCustom (fields : Json.Fields) : Except Failure Json.Fields :=
  let known := fields.filter (fun m => isSetting m.1)
  let unknown := fields.filter (fun m => !isSetting m.1)
  if unknown.isEmpty then .ok known
  else
    match ((Json.lookup customName known).getD (.obj [])).membersOf with
    | .ok custom => .ok (Json.put customName (.obj (Json.merge custom unknown)) known)
    | .error e => .error (.misuse e)

/-- The settings of all layers for a language that has been chosen. -/
def layeredFor (language : Json.Str) (file overrides : Json.Fields) : Except Failure Settings := do
  let merged := Json.merge (Json.merge (defaultsOf language) file) overrides
  let fields ← gatherCustom (Json.put "language" (.str language) merged)
  return ofFields fields

/-- The settings of all layers. `registry` knows the aliases of languages. -/
def layered (registry : Registry) (asked : Json) (file overrides : Json.Fields) :
    Except Failure Settings := do
  let language ← chosenLanguage asked file overrides
  layeredFor (primaryName registry language) file overrides

/-- The members of the overrides, which may be missing. -/
def overridesOf (x : Json) : Except Failure Json.Fields :=
  if x.isGiven then x.membersOf.mapError .misuse else .ok []

end Settings
end EventCodegen
