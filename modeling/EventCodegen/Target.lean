import EventCodegen.Scope

/-! The languages that event code is generated for. -/
namespace EventCodegen

/-- A language that event code is generated for. -/
inductive Target
  | python
  | kotlin
deriving DecidableEq, Repr

namespace Target

/-- The languages in the order in which they are set up. -/
def all : List Target := [python, kotlin]

def name : Target → String
  | python => "python"
  | kotlin => "kotlin"

/-- What generated files of the language end in. -/
def extension : Target → String
  | python => ".py"
  | kotlin => ".kt"

/-- The other names of the language. -/
def aliases : Target → List String
  | python => ["py"]
  | kotlin => ["kt"]

/-- The package that code of the language goes into unless another is set. -/
def defaultPackage : Target → String
  | python => "analytics.events"
  | kotlin => "com.example.analytics.events"

/-- The name under which the generator of the language is described. -/
def generatorName : Target → String
  | python => "PythonGenerator"
  | kotlin => "KotlinGenerator"

/-- The words of the language that no identifier may be. -/
def keywords : Target → List String
  | python =>
    ["False", "None", "True", "and", "as", "assert", "async", "await", "break", "class",
     "continue", "def", "del", "elif", "else", "except", "finally", "for", "from", "global", "if",
     "import", "in", "is", "lambda", "nonlocal", "not", "or", "pass", "raise", "return", "try",
     "while", "with", "yield"]
  | kotlin =>
    ["as", "break", "class", "continue", "do", "else", "false", "for", "fun", "if", "in",
     "interface", "is", "null", "object", "package", "return", "super", "this", "throw", "true",
     "try", "typealias", "typeof", "val", "var", "when", "while"]

/-- The properties of the base event type, which no field may hide. -/
def baseProperties : Target → List String
  | python => ["category_name", "screen_name", "event_name", "params"]
  | kotlin => ["categoryName", "screenName", "eventName", "params"]

/-- The naming rules of the language: no keyword and no property of the base event type. -/
def scope (t : Target) : Scope := { reserved := t.keywords ++ t.baseProperties }

/-- The language of a name. -/
def ofName? (name : String) : Option Target := all.find? (·.name == name)

end Target
end EventCodegen
