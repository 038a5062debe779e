/-
The OTAP sink (`otap_sink.rs`): one request for a batch.

What `flat_to_star`, `serialize_ipc`, the encoder of the request and the
compressor make of a batch is given with the call, and so is the answer
of the server, with what the decoder makes of its body. Metrics are left
out.
-/
import FastForward.Core.Bytes
import FastForward.Output.Http

namespace FastForward.Output.Otap

open Core

/-- The status of an answer. -/
inductive StatusCode
  | ok
  | unavailable
  | invalidArgument
  deriving DecidableEq, Repr

/-- What the receiver says of a batch. -/
structure BatchStatus where
  statusCode : StatusCode
  statusMessage : String
  deriving DecidableEq, Repr

/-- The body of a successful response. -/
inductive Body
  | unreadable (error : String)
  | empty
  | undecodable (error : String)
  | status (batchStatus : BatchStatus)
  deriving DecidableEq, Repr

/-- What comes of a request. -/
inductive Answer
  | transportError (error : String)
  | response (status : Nat) (retryAfter : Option Duration) (text : Option String) (body : Body)
  deriving DecidableEq, Repr

/-- What a call of `send_batch` meets. -/
structure Call where
  numRows : Nat
  batchId : Nat
  flatToStar : Except String Unit
  /-- The tables of the star schema, or the error of the first that fails. -/
  serializeIpc : Except IoError (List Bytes)
  encodeBatchArrowRecords : Nat → List Bytes → Bytes
  maybeCompress : Bytes → Except IoError Bytes
  answer : Answer

namespace Call

/-- The buffer stays empty for a batch without rows. -/
def encodeBatch (call : Call) : Except IoError Bytes :=
  if call.numRows = 0 then .ok []
  else
    match call.flatToStar with
    | .error e => .error ⟨.invalidData, s!"flat_to_star failed: {e}"⟩
    | .ok () =>
      match call.serializeIpc with
      | .error e => .error e
      | .ok payloads => .ok (call.encodeBatchArrowRecords call.batchId payloads)

/-- One request and what its answer means. -/
def doSend (call : Call) : Except IoError SendResult :=
  match call.answer with
  | .transportError error => .error ⟨.other, error⟩
  | .response status retryAfter text body =>
    if IsSuccess status then
      match body with
      | .unreadable error => .error ⟨.other, error⟩
      | .empty => .ok .ok
      | .undecodable error => .error ⟨.invalidData, error⟩
      | .status batchStatus =>
        match batchStatus.statusCode with
        | .ok => .ok .ok
        | .unavailable => .ok (.retryAfter defaultRetryAfter)
        | .invalidArgument =>
          .ok (.rejected s!"OTAP rejected batch {call.batchId}: {batchStatus.statusMessage}")
    else
      let detail := text.getD ""
      match classifyHttpStatus status retryAfter s!"OTAP: {detail}" with
      | some result => .ok result
      | none => .error ⟨.other, s!"OTAP request failed with status {status}: {detail}"⟩

/-- A call of the sink. -/
def sendBatch (call : Call) : SendResult :=
  match call.encodeBatch with
  | .error e => .ioError e
  | .ok protoBuf =>
    if protoBuf = [] then .ok
    else
      match call.maybeCompress protoBuf with
      | .error e => .ioError e
      | .ok _ =>
        match call.doSend with
        | .error e => .ioError e
        | .ok result => result

end Call

end FastForward.Output.Otap
