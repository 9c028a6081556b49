import BleCapture.Advertisement.Basic
import BleCapture.Queue.Lossy
import BleCapture.Sink

/-!
# Capture agent

The capturing side: a radio delivers advertisements into a lossy queue, and a
drain empties it into a sink. Advertisements without payload are counted and
not kept.
-/

namespace BleCapture

def agentCapacity : Nat := 200

structure Agent where
  buffer : LossyQueue Advertisement agentCapacity := {}
  /-- Advertisements seen other than scan responses. -/
  advertisements : Nat := 0
  scanResponses : Nat := 0

/-- Lets a drain know when to stop. -/
inductive DrainStop where
  /-- The stop flag is set from the start. -/
  | flagSet
  /-- Whoever could set the flag is gone. -/
  | flagAbandoned
  /-- The flag is set once the buffer is empty. -/
  | onceEmpty
  deriving DecidableEq, Repr

namespace Agent

/-- The channel to record. A missing one is replaced by a rotation over the
three advertising channels. -/
def channelFor (a : Advertisement) (seen : Nat) : UInt8 :=
  if a.channel = 0 then UInt8.ofNat (37 + seen % 3) else a.channel

/-- Counts an advertisement and keeps it unless its payload is empty. -/
def deliver (g : Agent) (a : Advertisement) : Agent :=
  let counted :=
    if a.type = .scanResponse then { g with scanResponses := g.scanResponses + 1 }
    else { g with advertisements := g.advertisements + 1 }
  if a.payload.isEmpty then counted
  else
    { counted with
      buffer := counted.buffer.enqueue
        { a with channel := channelFor a counted.advertisements } }

/-- Delivers what comes over a radio channel, in order, until it is closed. -/
def bridge (g : Agent) (radio : List Advertisement) : Agent := radio.foldl deliver g

/-- Emits up to `n` buffered records in order. The record that the sink refuses
is lost, and the ones after it stay. -/
def emit (sink : σ → Advertisement → σ × Option IoError) :
    Nat → Agent → σ → Agent × σ × Option IoError
  | 0, g, s => (g, s, none)
  | n + 1, g, s =>
    match g.buffer.dequeue with
    | none => (g, s, none)
    | some (a, buffer) =>
      match sink s a with
      | (s, some e) => ({ g with buffer }, s, some e)
      | (s, none) => emit sink n { g with buffer } s

/-- Records emitted one by one before the drain notices that it should stop. -/
def paced (g : Agent) : DrainStop → Nat
  | .flagSet => 0
  | .flagAbandoned => 1
  | .onceEmpty => g.buffer.buffered

/-- Empties the buffer: record by record until the stop is noticed, then all
that is left. -/
def drain (g : Agent) (stop : DrainStop) (sink : σ → Advertisement → σ × Option IoError) (s : σ) :
    Agent × σ × Option IoError :=
  match emit sink (g.paced stop) g s with
  | (g, s, some e) => (g, s, some e)
  | (g, s, none) => emit sink g.buffer.buffered g s

end Agent

/-- A sink that accepts a number of records, without limit if none is given,
and then breaks. -/
structure RecordSink where
  room : Option Nat
  /-- Accepted records, latest first. -/
  accepted : List Advertisement := []

namespace RecordSink

def broken : IoError := ⟨.brokenPipe, "sink broken"⟩

def emit (s : RecordSink) (a : Advertisement) : RecordSink × Option IoError :=
  match s.room with
  | some 0 => (s, some broken)
  | some (n + 1) => (⟨some n, a :: s.accepted⟩, none)
  | none => ({ s with accepted := a :: s.accepted }, none)

end RecordSink

end BleCapture
