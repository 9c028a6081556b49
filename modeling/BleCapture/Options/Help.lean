import BleCapture.Options.CommandLine

/-!
# Help for the command line
-/

namespace BleCapture.CommandLine

def Error.message : Error → String
  | .unknownArgument => "unexpected argument"
  | .missingValue => "an option lacks its value"
  | .malformedValue => "an option has an invalid value"
  | .conflict => "an option is repeated or excludes another one"
  | .unexpectedValue => "a flag takes no value"
  | .helpRequested => "help requested"
  | .versionRequested => "version requested"

def versionText : String := "ble-capture 0.1.0"

def usage : String :=
  String.intercalate "\n"
    ["Capture, decode and aggregate Bluetooth LE advertising traffic from a serial HCI log",
     "",
     "Usage: ble-capture [OPTIONS]",
     "",
     "  -i, --input <PATH>            Serial log to read instead of standard input",
     "      --tag <TAG>               Marker in front of every HCI line [default: [btsnoop]]",
     "  -o, --output <PCAP>           Write every captured packet to a PCAP file",
     "      --fifo <PATH>             Stream packets live into a named pipe",
     "      --json <FILE>             Export the session as JSON on exit",
     "      --csv <FILE>              Export the device table as CSV on exit",
     "      --html <FILE>             Export an HTML report on exit",
     "      --filter-mac <MAC>        Only keep advertisements from this address",
     "      --filter-name <TEXT>      Only keep advertisements whose name contains this text",
     "      --min-rssi <DBM>          Only keep advertisements of at least this signal strength",
     "      --status-interval <TIME>  Interval between status summaries [default: 5s]",
     "  -v, --verbose                 Log every packet and every rejected line",
     "  -q, --quiet                   Only log warnings and errors",
     "  -h, --help                    Print help",
     "  -V, --version                 Print version"]

end BleCapture.CommandLine
