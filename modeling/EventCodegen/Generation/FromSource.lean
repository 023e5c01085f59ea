import EventCodegen.Generation.Output
import EventCodegen.Loading.Fetch

/-! Generating from a plan in a file or behind an address. -/
namespace EventCodegen.Session

/-- Fetches a plan and generates everything for it. -/
def generateFrom (s : Session) (output : Output) (file url : Json) : Run Generation := do
  let text ← Loading.fetch file url Loading.standardTimeout
  s.generate output text

end EventCodegen.Session
