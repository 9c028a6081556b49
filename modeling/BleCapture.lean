import BleCapture.Agent
import BleCapture.Line.Encode
import BleCapture.Main
import BleCapture.Proofs.Device.History
import BleCapture.Proofs.Queue.Lossy
import BleCapture.Proofs.Session.Steps
import BleCapture.Proofs.Tally
import BleCapture.Text.Blank
import BleCapture.Text.Number
import BleCapture.Text.Utf8
import BleCapture.Proofs.Session.Accounting
import BleCapture.Proofs.Text.Blank
import BleCapture.Proofs.Text.Hex
import BleCapture.Proofs.Text.Search
import BleCapture.Proofs.Text.Utf8
import BleCapture.Proofs.Advertisement.Structure
import BleCapture.Proofs.Hci.Report
import BleCapture.Proofs.Line.Field
import BleCapture.Proofs.Line.RoundTrip
import BleCapture.Proofs.Agent
import BleCapture.Proofs.LineReader
import BleCapture.Proofs.Pipeline
import BleCapture.Proofs.Hci.Truncation
import BleCapture.Proofs.Session.Filtering
import BleCapture.Proofs.Hci.Frame
import BleCapture.Proofs.Line.Decode
import BleCapture.Proofs.Hci.Reading
import BleCapture.Proofs.Queue.Schedule
import BleCapture.Proofs.Agent.Accounting
import BleCapture.Proofs.Pcap.Reading
import BleCapture.Proofs.Pcap.Writing
import BleCapture.Proofs.Pcap.Live
import BleCapture.Proofs.Except
import BleCapture.Proofs.FileSystem
import BleCapture.Proofs.Run.Steps
import BleCapture.Proofs.Run.CaptureFile
import BleCapture.Proofs.Run.RecordLengths
import BleCapture.Proofs.Run.LivePipe
import BleCapture.Proofs.Time.Calendar
import BleCapture.Proofs.Time.Duration
import BleCapture.Proofs.Time.Ticker
import BleCapture.Proofs.Export.Writing
import BleCapture.Proofs.Hci.Packet
import BleCapture.Proofs.Device.Order
import BleCapture.Proofs.Export.Markup
import BleCapture.Proofs.Export.DevicePage
import BleCapture.Proofs.Export.Agreement
import BleCapture.Proofs.Decimal.Binary64
import BleCapture.Proofs.Decimal.Faithful
import BleCapture.Proofs.Decimal.Rounding
import BleCapture.Proofs.Decimal.Arithmetic
import BleCapture.Proofs.Decimal.Shortest
import BleCapture.Proofs.Decimal.Halves
import BleCapture.Proofs.Device.Signal
import BleCapture.Proofs.Device.RunningMean
import BleCapture.Proofs.Export.TenthsText
import BleCapture.Proofs.Export.Average
import BleCapture.Proofs.Advertisement.Fields
import BleCapture.Proofs.Export.Csv
import BleCapture.Proofs.Export.CsvDocument
import BleCapture.Proofs.Export.Escape
import BleCapture.Proofs.Text.Occurrences
import BleCapture.Proofs.Export.Injection
import BleCapture.Proofs.Advertisement.Grammar
import BleCapture.Proofs.Address
import BleCapture.Proofs.Device.NameFilter
import BleCapture.Proofs.Hci.Payload
