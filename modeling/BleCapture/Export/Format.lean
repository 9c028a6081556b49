import BleCapture.Export.CsvReport
import BleCapture.Export.HtmlReport
import BleCapture.Export.JsonReport

/-!
# Report formats

The three documents that a session can be exported as.
-/

namespace BleCapture

inductive ExportFormat where
  | json
  | csv
  | html
  deriving DecidableEq, Repr

namespace ExportFormat

def name : ExportFormat → String
  | .json => "JSON"
  | .csv => "CSV"
  | .html => "HTML"

/-- The document for a session; `now` ends a capture that still runs. -/
def document (f : ExportFormat) (s : Session) (now : Timestamp) : Document :=
  match f with
  | .json => JsonReport.document s now
  | .csv => CsvReport.document s
  | .html => HtmlReport.document s now

end ExportFormat

end BleCapture
