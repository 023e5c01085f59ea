import EventCodegen.Source.CategoryFile

/-! The source file of the base event type, which every generated event type extends. It holds what
an event always has: category, screen, name and the parameters sent along. -/
namespace EventCodegen.Source

/-- The beginning of the base module in Python, with the decorator for simple events. -/
def pythonBaseHead : List Line :=
  [.code 0 "\"\"\"Base type shared by all generated analytics events.\"\"\"",
   .code 0 ("# " ++ notice),
   .blank,
   .code 0 "from types import MappingProxyType",
   .code 0 "from typing import Mapping, TypeVar",
   .blank,
   .code 0 "_T = TypeVar(\"_T\")",
   .blank,
   .blank,
   .code 0 "def singleton(cls: type[_T]) -> _T:",
   .code 1 "\"\"\"Replace an event class by its only instance.\"\"\"",
   .code 1 "return cls()",
   .blank,
   .blank,
   .code 0 ("class " ++ baseTypeName ++ ":")]

/-- What the base class says about itself in Python, at length with comments on. -/
def pythonBaseAbout (comments : Bool) : List Line :=
  if comments then
    [.code 1 "\"\"\"An analytics event.",
     .blank,
     .code 1 "Holds the category and screen the event belongs to, its name and the",
     .code 1 "custom parameters sent along. Instances are immutable; generated event",
     .code 1 "types extend this class.",
     .code 1 "\"\"\""]
  else [.code 1 "\"\"\"An analytics event.\"\"\""]

/-- The four properties of an event with their types in Python. -/
def pythonProperties : List (String × String) :=
  [("category_name", "str"), ("screen_name", "str"), ("event_name", "str"),
   ("params", "Mapping[str, str]")]

/-- The constructor of the base class, which stores the properties. -/
def pythonBaseInit : List Line :=
  [.blank,
   .code 1 "def __init__(",
   .code 2 "self,"] ++
  pythonProperties.map (fun (name, type) => .code 2 (name ++ ": " ++ type ++ ",")) ++
  [.code 1 ") -> None:",
   .code 2 "object.__setattr__(self, \"_category_name\", category_name)",
   .code 2 "object.__setattr__(self, \"_screen_name\", screen_name)",
   .code 2 "object.__setattr__(self, \"_event_name\", event_name)",
   .code 2 "object.__setattr__(self, \"_params\", MappingProxyType(dict(params)))"]

/-- A property that reads what is stored under its name after an underscore. -/
def pythonProperty (name type : String) : List Line :=
  [.blank,
   .code 1 "@property",
   .code 1 ("def " ++ name ++ "(self) -> " ++ type ++ ":"),
   .code 2 ("return self._" ++ name)]

/-- The methods that keep instances as they are. -/
def pythonImmutability : List Line :=
  [.blank,
   .code 1 "def __setattr__(self, name: str, value: object) -> None:",
   .code 2 "raise AttributeError(f\"\x7btype(self).__name__\x7d is immutable\")",
   .blank,
   .code 1 "def __delattr__(self, name: str) -> None:",
   .code 2 "raise AttributeError(f\"\x7btype(self).__name__\x7d is immutable\")"]

/-- Comparison and display: events with equal properties are equal. -/
def pythonEquality : List Line :=
  [.blank,
   .code 1 "def _key(self) -> tuple:",
   .code 2 "return (",
   .code 3 "self._category_name,",
   .code 3 "self._screen_name,",
   .code 3 "self._event_name,",
   .code 3 "tuple(sorted(self._params.items())),",
   .code 2 ")",
   .blank,
   .code 1 "def __eq__(self, other: object) -> bool:",
   .code 2 ("if not isinstance(other, " ++ baseTypeName ++ "):"),
   .code 3 "return NotImplemented",
   .code 2 "return self._key() == other._key()",
   .blank,
   .code 1 "def __hash__(self) -> int:",
   .code 2 "return hash(self._key())",
   .blank,
   .code 1 "def __repr__(self) -> str:",
   .code 2 "return (",
   .code 3 "f\"\x7btype(self).__name__\x7d(category_name=\x7bself._category_name!r\x7d, \"",
   .code 3 "f\"screen_name=\x7bself._screen_name!r\x7d, event_name=\x7bself._event_name!r\x7d, \"",
   .code 3 "f\"params=\x7bdict(self._params)!r\x7d)\"",
   .code 2 ")"]

/-- The module of the base type in Python. -/
def pythonBase (comments : Bool) : List Line :=
  pythonBaseHead ++ pythonBaseAbout comments ++ pythonBaseInit ++
    pythonProperties.flatMap (fun (name, type) => pythonProperty name type) ++
    pythonImmutability ++ pythonEquality

/-- The file of the base type in Kotlin. -/
def kotlinBase (comments : Bool) (package : String) : List Line :=
  [.code 0 ("// " ++ notice)] ++
  onlyIf (!package.isEmpty) [.code 0 ("package " ++ package)] ++
  [.blank] ++
  onlyIf comments
    [.code 0 "/**",
     .code 0 " * An analytics event: the category and screen it belongs to, its name and",
     .code 0 " * the custom parameters sent along. Generated event types extend this class.",
     .code 0 " */"] ++
  [.code 0 ("open class " ++ baseTypeName ++ "("),
   .code 1 "val categoryName: String,",
   .code 1 "val screenName: String,",
   .code 1 "val eventName: String,",
   .code 1 "open val params: Map<String, String>,",
   .code 0 ")"]

/-- The lines of the source file of the base type. -/
def baseLines (t : Target) (comments : Bool) (package : String) : List Line :=
  match t with
  | .python => pythonBase comments
  | .kotlin => kotlinBase comments package

end EventCodegen.Source
