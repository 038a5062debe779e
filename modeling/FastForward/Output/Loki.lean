/-
The Loki sink (`loki.rs`): timestamps are reserved under a lock, sent
without it, and rolled back when a payload fails.

# Interleaving

The sinks share the last timestamp of every stream. A call of
`send_batch` is one step under the lock, which prepares its payloads and
reserves their timestamps, and then one step for each payload, accepted
by Loki or failed; a failure rolls back under the lock and ends the
call. Any number of calls may be under way. A call may be abandoned
while it awaits an answer. Then, and with an answer that is a failure to
the call, Loki may have accepted the payload or not.

# Parameters

Labels and rows are arbitrary types: a row stands for itself and for its
log line, of which only the length is read. The order of
`sort_unstable_by_key` and the order in which the streams of a batch are
visited are given.

A poisoned lock, metrics and the text of the payloads are left out.
-/
import FastForward.Output.Sink
import Mathlib.Tactic.Ring

namespace FastForward.Output.Loki

variable {Λ ρ : Type}

-- == timestamps

/-- A log entry: its timestamp in nanoseconds and its row. -/
abbrev LokiEntry (ρ : Type) := Nat × ρ

def u64Max : Nat := 2 ^ 64 - 1

/-- The loop of `sort_and_dedup_timestamps`: entries that do not come
after the previous timestamp are moved behind it, and dropped with all
that follow when there is no room. -/
def dedupFrom : Nat → List (LokiEntry ρ) → List (LokiEntry ρ)
  | _, [] => []
  | previous, (ts, row) :: entries =>
    if ts ≤ previous then
      if previous = u64Max then []
      else (previous + 1, row) :: dedupFrom (previous + 1) entries
    else (ts, row) :: dedupFrom ts entries

def sortAndDedupTimestamps (sort : List (LokiEntry ρ) → List (LokiEntry ρ))
    (entries : List (LokiEntry ρ)) (minTimestampExclusive : Option Nat) : List (LokiEntry ρ) :=
  match sort entries, minTimestampExclusive with
  | [], _ => []
  | entries, some minTs => dedupFrom minTs entries
  | (ts, row) :: entries, none => (ts, row) :: dedupFrom ts entries

/-- `sort_and_dedup_timestamps` with the count it returns. -/
def sortAndDedupCounted (sort : List (LokiEntry ρ) → List (LokiEntry ρ))
    (entries : List (LokiEntry ρ)) (minTimestampExclusive : Option Nat) :
    List (LokiEntry ρ) × Nat :=
  if entries.isEmpty then ([], 0)
  else
    let entries := sortAndDedupTimestamps sort entries minTimestampExclusive
    (entries, entries.length)

-- == payloads

structure PreparedPayload (Λ ρ : Type) where
  streamLabels : Λ
  entries : List (LokiEntry ρ)
  lastTimestampNs : Nat

structure Config (Λ ρ : Type) where
  sort : List (LokiEntry ρ) → List (LokiEntry ρ)
  /-- The length of a payload around its values. -/
  frameLen : Λ → Nat
  valueLen : LokiEntry ρ → Nat

def lokiMaxPayloadBytes : Nat := 1048576

def payloadOf (labels : Λ) (entries : List (LokiEntry ρ)) : PreparedPayload Λ ρ :=
  { streamLabels := labels, entries, lastTimestampNs := (entries.getLast?.map Prod.fst).getD 0 }

/-- The loop of `serialize_stream_chunks`, with the entries of the current
chunk and the length of its values. -/
def chunksFrom (config : Config Λ ρ) (labels : Λ) :
    List (LokiEntry ρ) → Nat → List (LokiEntry ρ) → List (PreparedPayload Λ ρ)
  | current, _, [] => if current.isEmpty then [] else [payloadOf labels current]
  | current, encodedLen, entry :: entries =>
    let sepLen := if current.isEmpty then 0 else 1
    let projectedLen :=
      config.frameLen labels + encodedLen + sepLen + config.valueLen entry
    if !current.isEmpty && lokiMaxPayloadBytes < projectedLen then
      payloadOf labels current :: chunksFrom config labels [entry] (config.valueLen entry) entries
    else
      chunksFrom config labels (current ++ [entry])
        (encodedLen + sepLen + config.valueLen entry) entries

def serializeStreamChunks (config : Config Λ ρ) (labels : Λ) (entries : List (LokiEntry ρ)) :
    List (PreparedPayload Λ ρ) :=
  chunksFrom config labels [] 0 entries

/-- The last timestamp of each stream. -/
abbrev TimestampState (Λ : Type) := Λ → Option Nat

abbrev StreamMap (Λ ρ : Type) := List (Λ × List (LokiEntry ρ))

def preparePayloads (config : Config Λ ρ) (streamMap : StreamMap Λ ρ) (state : TimestampState Λ) :
    List (PreparedPayload Λ ρ) :=
  streamMap.flatMap fun (labels, entries) =>
    serializeStreamChunks config labels
      (sortAndDedupTimestamps config.sort entries (state labels))

section Reservation

variable [DecidableEq Λ]

def insert (state : TimestampState Λ) (labels : Λ) (ts : Option Nat) : TimestampState Λ :=
  fun labels' => if labels' = labels then ts else state labels'

def reserve (state : TimestampState Λ) : List (PreparedPayload Λ ρ) → TimestampState Λ
  | [] => state
  | p :: payloads => reserve (insert state p.streamLabels (some p.lastTimestampNs)) payloads

/-- The timestamps to go back to. -/
def previousTimestamps (state : TimestampState Λ) (payloads : List (PreparedPayload Λ ρ)) :
    TimestampState Λ :=
  fun labels => if payloads.any (·.streamLabels = labels) then state labels else none

/-- Streams that still stand where a payload has put them go back. -/
def rollback (previous : TimestampState Λ) :
    List (PreparedPayload Λ ρ) → TimestampState Λ → TimestampState Λ
  | [], state => state
  | p :: payloads, state =>
    rollback previous payloads
      (if state p.streamLabels = some p.lastTimestampNs then
        insert state p.streamLabels (previous p.streamLabels)
      else state)

end Reservation

-- == calls

/-- A call of `send_batch`: the payloads that Loki has accepted and the
ones that are left. -/
structure Call (Λ ρ : Type) where
  previous : TimestampState Λ
  accepted : List (PreparedPayload Λ ρ)
  left : List (PreparedPayload Λ ρ)
  result : Option SendResult

/-- What Loki has accepted once the call is over, with the payload that was
awaited last or without it. -/
def Call.acceptedWith (c : Call Λ ρ) (accepted : Bool) : List (PreparedPayload Λ ρ) :=
  if accepted then c.accepted ++ c.left.take 1 else c.accepted

/-- The loop of `send_batch`, with the outcomes of its sends: the payloads
it has sent and its result. The last of them was refused if the result is
not Ok; all others were accepted. Without a further outcome it awaits one.
`send_batch` returns before the loop when `build_stream_map` fails, and
then sends nothing; that return is left out. -/
def sendPayloads : List (PreparedPayload Λ ρ) → List (Except IoError SendResult) →
    Option (List (PreparedPayload Λ ρ) × SendResult)
  | [], _ => some ([], .ok)
  | _ :: _, [] => none
  | p :: payloads, .ok .ok :: outcomes =>
    (sendPayloads payloads outcomes).map fun (sent, result) => (p :: sent, result)
  | p :: _, .ok other :: _ => some ([p], other)
  | p :: _, .error e :: _ => some ([p], .fromIoError e)

structure State (Λ ρ : Type) where
  lastTimestampByStream : TimestampState Λ
  calls : List (Call Λ ρ)

inductive Action (Λ ρ : Type)
  | sendBatch (streamMap : StreamMap Λ ρ)
  /-- An outcome; `accepted` tells of a failure whether Loki has accepted the
  payload all the same. -/
  | respond (call : Nat) (outcome : Except IoError SendResult) (accepted : Bool)
  | abandon (call : Nat) (accepted : Bool)

namespace State

variable [DecidableEq Λ]

def new : State Λ ρ := { lastTimestampByStream := fun _ => none, calls := [] }

/-- `prepare_and_reserve_payloads`. -/
def sendBatch (config : Config Λ ρ) (streamMap : StreamMap Λ ρ) (s : State Λ ρ) : State Λ ρ :=
  let payloads := preparePayloads config streamMap s.lastTimestampByStream
  { lastTimestampByStream := reserve s.lastTimestampByStream payloads
    calls := s.calls ++
      [{ previous := previousTimestamps s.lastTimestampByStream payloads
         accepted := [], left := payloads
         result := if payloads.isEmpty then some .ok else none }] }

/-- What the first payload that is left comes to. -/
def respond (i : Nat) (outcome : Except IoError SendResult) (accepted : Bool) (s : State Λ ρ) :
    Option (State Λ ρ) :=
  match s.calls[i]? with
  | none => none
  | some c =>
    match c.left, outcome with
    | [], _ => none
    | p :: left, .ok .ok =>
      let result := if left.isEmpty then some .ok else none
      some { s with calls := s.calls.set i { c with accepted := c.accepted ++ [p], left, result } }
    | left, outcome =>
      let result := match outcome with
        | .ok other => other
        | .error e => .fromIoError e
      some
        { lastTimestampByStream := rollback c.previous left s.lastTimestampByStream
          calls := s.calls.set i
            { c with accepted := c.acceptedWith accepted, left := [], result := some result } }

/-- The call is dropped while it awaits an answer. -/
def abandon (i : Nat) (accepted : Bool) (s : State Λ ρ) : Option (State Λ ρ) :=
  match s.calls[i]? with
  | none => none
  | some c =>
    if c.left.isEmpty then none
    else
      some
        { s with
          calls := s.calls.set i { c with accepted := c.acceptedWith accepted, left := [] } }

def step (config : Config Λ ρ) (action : Action Λ ρ) (s : State Λ ρ) : Option (State Λ ρ) :=
  match action with
  | .sendBatch streamMap => some (s.sendBatch config streamMap)
  | .respond i outcome accepted => s.respond i outcome accepted
  | .abandon i accepted => s.abandon i accepted

end State

/-- A map has a stream once. -/
def Action.IsMap : Action Λ ρ → Prop
  | .sendBatch streamMap => (streamMap.map Prod.fst).Nodup
  | _ => True

/-- No two rows were accepted for one stream with one timestamp. -/
def NeverReused (s : State Λ ρ) : Prop :=
  ∀ c ∈ s.calls, ∀ d ∈ s.calls, ∀ p ∈ c.accepted, ∀ q ∈ d.accepted,
    p.streamLabels = q.streamLabels → ∀ e ∈ p.entries, ∀ f ∈ q.entries, e.1 = f.1 → e.2 = f.2

/-- No stream is rolled back of which the call has had a payload accepted:
a payload that fails was not accepted and is the first of its stream in its
call, or another call has reserved on the stream since. -/
def RollsBackUnsent (s : State Λ ρ) : Action Λ ρ → Prop
  | .respond i outcome accepted => outcome ≠ .ok .ok → ∀ c, s.calls[i]? = some c →
      ∀ p ∈ c.acceptedWith accepted, ∀ q ∈ c.left, p.streamLabels = q.streamLabels →
        s.lastTimestampByStream q.streamLabels ≠ some q.lastTimestampNs
  | _ => True

end FastForward.Output.Loki
