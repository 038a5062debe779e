/-
What the S3 input sends for one object (`fetch_object`,
`fetch_parallel_stream` and the attempts of `run_orchestrator`).

Requests and decompression belong to the environment: an attempt is given
by what they return. A part is downloaded whole or not at all; a stream
gives bytes and then ends or fails. Paths for display, pauses between two
attempts and a closed channel are left out.
-/
import FastForward.Io.Input

namespace FastForward.Io.S3

open Core Pipeline

def outputChunkSize : Nat := 256 * 1024

def maxFetchAttempts : Nat := 3

structure ChunkPayload where
  bytes : Bytes
  accountedBytes : Nat
  sourceId : SourceId
  isEof : Bool
  deriving DecidableEq, Repr

/-- What `poll` makes of a payload: data only where there are bytes. -/
def ChunkPayload.events {R : Type} (p : ChunkPayload) : List (SourceEvent UInt8 R) :=
  (if p.bytes.isEmpty then [] else [.data p.bytes (some p.sourceId) p.accountedBytes none])
    ++ if p.isEof then [.endOfFile (some p.sourceId)] else []

section Fetch

variable (sourceId : SourceId) (size : Nat)

def eofPayload : ChunkPayload := ⟨[], 0, sourceId, true⟩

/-- A chunk; the first one is charged with the size of the object. -/
def chunkPayload (first isEof : Bool) (bytes : Bytes) : ChunkPayload :=
  ⟨bytes, if first then size else 0, sourceId, isEof⟩

/-- An attempt fails. The framer is told to flush what it holds, unless
nothing was sent. -/
def failed (first : Bool) : List ChunkPayload × Bool :=
  (if first then [] else [eofPayload sourceId], false)

def sendPart (first : Bool) : Nat → Bytes → List ChunkPayload
  | 0, _ => []
  | fuel + 1, data =>
    if data.isEmpty then []
    else
      chunkPayload sourceId size first false (data.take outputChunkSize)
        :: sendPart false fuel (data.drop outputChunkSize)

/-- `fetch_parallel_stream`: the parts in order, up to one that could not
be downloaded. -/
def fetchParallelStream (first : Bool) : List (Option Bytes) → List ChunkPayload × Bool
  | [] => ([eofPayload sourceId], true)
  | none :: _ => failed sourceId first
  | some data :: rest =>
    let (more, ok) := fetchParallelStream (first && data.isEmpty) rest
    (sendPart sourceId size first data.length data ++ more, ok)

/-- The other path of `fetch_object`: the buffer is filled from the
stream, and a failure loses what is in it. A short buffer is the last. -/
def fetchStream (fails first : Bool) : Nat → Bytes → List ChunkPayload × Bool
  | 0, _ => if fails then failed sourceId first else ([eofPayload sourceId], true)
  | fuel + 1, stream =>
    let buf := stream.take outputChunkSize
    if fails && decide (buf.length < outputChunkSize) then failed sourceId first
    else if buf.isEmpty then ([eofPayload sourceId], true)
    else if buf.length < outputChunkSize then ([chunkPayload sourceId size first true buf], true)
    else
      let (more, ok) := fetchStream fails false fuel (stream.drop outputChunkSize)
      (chunkPayload sourceId size first false buf :: more, ok)

end Fetch

/-- What the requests of an attempt return, and the size they report. -/
inductive Attempt
  | parallel (size : Nat) (parts : List (Option Bytes))
  | stream (size : Nat) (bytes : Bytes) (fails : Bool)
  deriving DecidableEq, Repr

namespace Attempt

/-- The bytes up to the failure or the end. -/
def received : Attempt → Bytes
  | .parallel _ parts => ((parts.takeWhile (·.isSome)).map (·.getD [])).flatten
  | .stream _ bytes _ => bytes

def fails : Attempt → Bool
  | .parallel _ parts => parts.contains none
  | .stream _ _ fails => fails

/-- `fetch_object`: what it sends, and whether it succeeds. -/
def fetchObject (sourceId : SourceId) : Attempt → List ChunkPayload × Bool
  | .parallel size parts => fetchParallelStream sourceId size true parts
  | .stream size bytes fails => fetchStream sourceId size fails true (bytes.length + 1) bytes

/-- The bytes it sends. -/
def sent (sourceId : SourceId) (a : Attempt) : Bytes :=
  (a.fetchObject sourceId).1.flatMap (·.bytes)

end Attempt

def fetchUntil (sourceId : SourceId) : List Attempt → List ChunkPayload × Bool
  | [] => ([], false)
  | a :: rest =>
    let (payloads, ok) := a.fetchObject sourceId
    if ok then (payloads, true)
    else
      let (more, ok) := fetchUntil sourceId rest
      (payloads ++ more, ok)

/-- The task of `run_orchestrator` for an object. -/
def fetchAttempts (sourceId : SourceId) (attempts : List Attempt) : List ChunkPayload × Bool :=
  fetchUntil sourceId (attempts.take maxFetchAttempts)

end FastForward.Io.S3
