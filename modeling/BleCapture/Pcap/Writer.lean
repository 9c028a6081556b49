import BleCapture.Pcap.Format

/-!
# Writing PCAP streams

The file header is written first; without it there is no writer. A packet
counts as written when its header and all of its bytes were accepted.
-/

namespace BleCapture.Pcap

structure Writer where
  sink : Sink
  packets : Nat := 0

namespace Writer

def create (sink : Sink) : Except IoError Writer :=
  match sink.write globalHeader with
  | (sink, none) => .ok { sink }
  | (_, some e) => .error e

/-- Writes one record. A failure leaves whatever part of it was accepted, and
later packets may still be tried. -/
def writePacket (w : Writer) (t : Timestamp) (packet : List UInt8) : Writer × Option IoError :=
  match w.sink.write (recordHeader t packet.length) with
  | (sink, some e) => ({ w with sink }, some e)
  | (sink, none) =>
    match sink.write packet with
    | (sink, some e) => ({ w with sink }, some e)
    | (sink, none) => ({ sink, packets := w.packets + 1 }, none)

end Writer

end BleCapture.Pcap
