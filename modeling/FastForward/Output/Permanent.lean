/-
Failures that no retry can mend, as `SendResult::from_io_error` draws the
line: an encoding error of the kind InvalidInput or InvalidData, and an
answer 413 to a request that cannot be made smaller. The calls here are
those of the OTAP and of the Elasticsearch sink, and the loop they end or
keep going is that of `process_item`.
-/
import FastForward.Output.Elasticsearch
import FastForward.Output.Otap
import FastForward.Runtime.WorkerPool

namespace FastForward.Output

/-- The kinds that `from_io_error` rejects. -/
def IoError.IsPermanent (e : IoError) : Prop := e.kind = .invalidInput ∨ e.kind = .invalidData

/-- What the worker makes of a result. -/
def SendResult.attempt : SendResult → Runtime.SendAttempt
  | .ok => .ok
  | .ioError _ => .ioError
  | .retryAfter _ => .retryAfter
  | .rejected reason => .rejected reason

-- == streamed requests

namespace Elasticsearch

/-- The server finds the request too large. -/
def Answer.isTooLarge : Answer → Bool
  | .transportError _ => false
  | .response status _ _ _ => status == 413

namespace Call

/-- The requests of a streamed call that are not sent again in halves: one
that is too large is split while it has two rows and the depth allows it. -/
def lastRequests (call : Call) : Nat → List Nat → List (List Nat)
  | 0, rows => [rows]
  | splitsLeft + 1, rows =>
    if (call.exchange rows).answer.isTooLarge = true ∧ 1 < rows.length then
      call.lastRequests splitsLeft (rows.take (rows.length / 2))
        ++ call.lastRequests splitsLeft (rows.drop (rows.length / 2))
    else [rows]

/-- The body of the streamed request is serialized and read to its end. -/
def Produced (call : Call) (rows : List Nat) : Prop :=
  (call.exchange rows).producer = .finished ∧ (call.serializeBatch rows).isOk = true

/-- The server accepts the rows of a streamed request. Of a body that was
cut off it only has to count as many items as there are rows. -/
def Accepts (call : Call) (rows : List Nat) : Prop :=
  ∃ status retryAfter text response,
    (call.exchange rows).answer = .response status retryAfter text (.ok response)
      ∧ IsSuccess status ∧ (call.Produced rows → attemptFromBody rows response = .ok)
      ∧ (¬ call.Produced rows → parseSuccessItemCount response = some rows.length)

/-- The server rejects rows of a streamed request and leaves none to be sent
again: by its status, or by the items of its response. -/
def Rejects (call : Call) (rows : List Nat) : Prop :=
  ∃ status retryAfter text body,
    (call.exchange rows).answer = .response status retryAfter text body
      ∧ (IsPermanent status ∧ status ≠ 413 ∨ IsSuccess status ∧ call.Produced rows
        ∧ ∃ response rejections accepted, body = .ok response
          ∧ attemptFromBody rows response = .rejected rejections accepted)

end Call

end Elasticsearch

-- == calls

/-- One call of `send_batch`. -/
inductive SinkCall
  | otap (call : Otap.Call)
  | elasticsearch (call : Elasticsearch.Call) (numRows : Nat)
      (sink : Elasticsearch.ElasticsearchSink)

namespace SinkCall

def result : SinkCall → SendResult
  | .otap call => call.sendBatch
  | .elasticsearch call numRows sink => (sink.sendBatch call numRows).1.2

/-- The worker leaves its retry loop. -/
def Leaves (c : SinkCall) : Prop := (Runtime.processItem c.result.attempt).isSome = true

/-- Encoding fails for good. -/
def EncodingFails : SinkCall → Prop
  | .otap call => ∃ e, call.encodeBatch = .error e ∧ e.IsPermanent
  | .elasticsearch call numRows sink => ∃ batch e,
      Elasticsearch.projectBatchRows numRows call.take (sink.rowIds numRows) = .ok batch
        ∧ call.serializeBatch batch = .error e ∧ e.IsPermanent

/-- The server answers 413 to a request with one row. -/
def SingleRowTooLarge : SinkCall → Prop
  | .otap call => call.numRows = 1
      ∧ (∃ protoBuf payload, call.encodeBatch = .ok protoBuf ∧ protoBuf ≠ []
        ∧ call.maybeCompress protoBuf = .ok payload)
      ∧ ∃ retryAfter text body, call.answer = .response 413 retryAfter text body
  | .elasticsearch call numRows sink => ∃ row retryAfter text body,
      .request [row] (.response 413 retryAfter text body) ∈ (sink.sendBatch call numRows).2

/-- The failure is permanent. -/
def Permanent (c : SinkCall) : Prop := c.EncodingFails ∨ c.SingleRowTooLarge

/-- The failure takes a path on which the call leaves nothing to be sent
again. The OTAP sink takes it with an answer 413 but not with an encoding
error; the Elasticsearch sink with an encoding error but not with an answer
413, and with a streamed body only if the server settles every request that
is not split. -/
def Settled : SinkCall → Prop
  | .otap call => ¬ EncodingFails (.otap call)
  | .elasticsearch call numRows sink =>
    match call.config.requestMode with
    | .buffered => ¬ SingleRowTooLarge (.elasticsearch call numRows sink)
    | .streaming => ∀ rows ∈ call.lastRequests Elasticsearch.maxSplitDepth (sink.rowIds numRows),
        call.Accepts rows ∨ call.Rejects rows

/-- Beyond that, the server has rejected rows that were streamed, in this
call or in an earlier one. -/
def Converted : SinkCall → Prop
  | .otap call => Settled (.otap call)
  | .elasticsearch call numRows sink => Settled (.elasticsearch call numRows sink)
      ∧ (call.config.requestMode = .streaming → sink.pendingRejections ≠ []
        ∨ ∃ rows ∈ call.lastRequests Elasticsearch.maxSplitDepth (sink.rowIds numRows),
          call.Rejects rows)

end SinkCall

end FastForward.Output
