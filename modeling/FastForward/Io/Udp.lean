/-
The UDP input (`udp_input.rs`).

A poll drains the socket and returns one event for each run of datagrams
of one sender. The results of `recv_from` are the input here; when they
run out the socket would block. The hash that makes a source id of an
address (`source_id_for_sender`) is the parameter `idOf`. Health and
counters are left out.
-/
import FastForward.Io.Input

namespace FastForward.Io.Udp

open Core Pipeline

def maxDatagramsPerPoll : Nat := 256

def maxEmitBytesPerPoll : Nat := 1024 * 1024

/-- Has the poll read enough? -/
def shouldStopUdpDrain (datagramsRead emittedBytes : Nat) : Bool :=
  maxDatagramsPerPoll ≤ datagramsRead || maxEmitBytesPerPoll ≤ emittedBytes

/-- What `recv_from` gives. -/
inductive RecvResult (Addr : Type)
  | datagram (data : Bytes) (sender : Addr)
  /-- `ENOBUFS` or `ENOMEM`. -/
  | noBuffers
  | wouldBlock
  | connectionRefused
  | otherError

/-- The locals of `poll`. -/
structure Drain (R : Type) where
  datagramsRead : Nat := 0
  events : List (SourceEvent UInt8 R) := []
  /-- A source id, its bytes and how many of them were received. -/
  current : Option (SourceId × Bytes × Nat) := none
  emittedBytes : Nat := 0

variable {Addr R : Type}

/-- The datagrams of the current sender become an event. -/
def flushCurrentSender (events : List (SourceEvent UInt8 R)) :
    Option (SourceId × Bytes × Nat) → List (SourceEvent UInt8 R)
  | some (sourceId, bytes, accountedBytes) =>
    if bytes = [] then events else events ++ [.data bytes (some sourceId) accountedBytes none]
  | none => events

/-- With a newline at the end. -/
def terminated (data : Bytes) : Bytes :=
  if data.getLast? = some Ascii.newline then data else data ++ [Ascii.newline]

/-- A datagram joins those of its sender, if they came just before. -/
def Drain.append (sourceId : SourceId) (data : Bytes) (d : Drain R) : Drain R :=
  let (events, bytes, accountedBytes) :=
    match d.current.filter fun c => c.1 = sourceId with
    | some (_, bytes, accountedBytes) => (d.events, bytes, accountedBytes)
    | none => (flushCurrentSender d.events d.current, [], 0)
  { d with
    events
    current := some (sourceId, bytes ++ terminated data, accountedBytes + data.length)
    emittedBytes := d.emittedBytes + (terminated data).length }

def Drain.receive (sourceId : SourceId) (data : Bytes) (d : Drain R) : Drain R :=
  let d := { d with datagramsRead := d.datagramsRead + 1 }
  if data = [] then d else d.append sourceId data

/-- What a poll received, and what it returned unless it was an error. -/
structure Poll (Addr R : Type) where
  received : List (RecvResult Addr)
  returned : Option (List (SourceEvent UInt8 R))

variable (idOf : Addr → SourceId)

/-- The loop of `poll`, after what it has received, and the results that
are left. -/
def drain (d : Drain R) (received : List (RecvResult Addr)) :
    List (RecvResult Addr) → Poll Addr R × List (RecvResult Addr)
  | [] => ({ received, returned := some (flushCurrentSender d.events d.current) }, [])
  | result :: rest =>
    let received := received ++ [result]
    match result with
    | .datagram data sender =>
      let d := d.receive (idOf sender) data
      if shouldStopUdpDrain d.datagramsRead d.emittedBytes then
        ({ received, returned := some (flushCurrentSender d.events d.current) }, rest)
      else drain d received rest
    | .noBuffers | .wouldBlock | .connectionRefused =>
      ({ received, returned := some (flushCurrentSender d.events d.current) }, rest)
    | .otherError => ({ received, returned := none }, rest)

/-- One call of `poll`, and the results that are left. -/
def poll (results : List (RecvResult Addr)) : Poll Addr R × List (RecvResult Addr) :=
  drain idOf {} [] results

/-- That many polls, one after the other. -/
def polls : Nat → List (RecvResult Addr) → List (Poll Addr R)
  | 0, _ => []
  | n + 1, results =>
    let (p, rest) := poll idOf results
    p :: polls n rest

end FastForward.Io.Udp
