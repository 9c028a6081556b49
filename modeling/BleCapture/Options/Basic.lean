import BleCapture.Device.Filter
import BleCapture.Export.Format
import BleCapture.Line.Decode
import BleCapture.Time.Timestamp

/-!
# Options of a capture

What the command line asks for. Without options, standard input is read with
the usual tag and nothing is written.
-/

namespace BleCapture

structure Options where
  input : Option String := none
  tag : String := Line.defaultTag
  output : Option String := none
  fifo : Option String := none
  json : Option String := none
  csv : Option String := none
  html : Option String := none
  filterAddress : Option Address := none
  filterName : Option String := none
  minRssi : Option Int8 := none
  statusInterval : Duration := Duration.ofSeconds 5
  verbose : Bool := false
  quiet : Bool := false

namespace Options

def filter (o : Options) : PacketFilter :=
  PacketFilter.make o.filterAddress o.filterName o.minRssi

/-- The requested reports with their paths, in the order they are written. -/
def exports (o : Options) : List (ExportFormat × String) :=
  [(.json, o.json), (.csv, o.csv), (.html, o.html)].filterMap fun (format, path) =>
    path.map fun p => (format, p)

end Options

end BleCapture
