/-
The Elasticsearch sink (`elasticsearch/`): bulk requests that are split
when they are too large, and the rows of a batch that are still to be
sent.

# Parameters

The server's answers are given with the call, for each list of rows a
request may hold (the requests of one call hold different lists). So are
the documents of the rows, the compressor and the outcome of
`compute::take`. The body of a response is what `serde_json` makes of
it.

# History

`Event` records what a call has done with rows: requests with their
answers, and rows that were settled without a request. No function reads
it.

Metrics and spans are left out; `accepted_rows`, which only they read,
is kept as the source has it.
-/
import FastForward.Core.Bytes
import FastForward.Output.Http

namespace FastForward.Output.Elasticsearch

open Core

-- == responses

/-- The error of an item. -/
structure ItemError where
  type : Option String
  reason : Option String
  deriving DecidableEq, Repr

/-- The value of an item's only member, if it is an object. -/
structure ItemAction where
  status : Option Nat
  error : Option ItemError
  deriving DecidableEq, Repr

/-- An item of a bulk response. -/
abbrev Item := Option ItemAction

/-- The body of a response, as far as it is looked at. -/
inductive Body
  | unparsable (error : String)
  | bulk (errors : Bool) (items : Option (List Item))
  deriving DecidableEq, Repr

/-- What comes of a request. The body of a response may be unreadable, as
text or as bytes. -/
inductive Answer
  | transportError (error : String)
  | response (status : Nat) (retryAfter : Option Duration) (text : Option String)
      (body : Except String Body)
  deriving DecidableEq

/-- The items of a response, sorted. -/
structure BulkItemResult where
  retryItems : List Nat := []
  permanentErrors : List String := []
  itemCount : Nat := 0
  deriving DecidableEq, Repr

/-- The statuses under which an item is sent again. -/
abbrev IsRetryable (status : Nat) : Prop := status = 429 ∨ 500 ≤ status ∧ status < 600

/-- An item is retried, rejected or counted. -/
def parseItem (idx : Nat) (item : Item) (result : BulkItemResult) :
    Except IoError BulkItemResult :=
  match item with
  | none => .ok result
  | some action =>
    match action.status with
    | none => .error ⟨.other, "ES bulk response item missing numeric status field"⟩
    | some status =>
      let retry := { result with retryItems := result.retryItems ++ [idx] }
      let permanent (message : String) :=
        { result with permanentErrors := result.permanentErrors ++ [message] }
      match action.error with
      | some error =>
        let errorType := error.type.getD "unknown"
        let reason := error.reason.getD "no reason provided"
        if IsRetryable status then .ok retry
        else .ok (permanent
          s!"item {idx}: ES bulk error (status {status}): {errorType}: {reason}")
      | none =>
        if IsRetryable status then .ok retry
        else if 400 ≤ status then .ok (permanent
          s!"item {idx}: ES bulk error (status {status}): missing item error details")
        else if 300 ≤ status then .ok (permanent
          s!"item {idx}: unexpected ES bulk item status {status}")
        else .ok result

/-- All items, by their index. -/
def parseItems : Nat → List Item → BulkItemResult → Except IoError BulkItemResult
  | _, [], result => .ok result
  | idx, item :: items, result =>
    match parseItem idx item result with
    | .error e => .error e
    | .ok result => parseItems (idx + 1) items result

/-- The items are parsed only if there are errors. -/
def parseBulkResponseDetailed : Body → Except IoError BulkItemResult
  | .unparsable error => .error ⟨.other, s!"failed to parse ES bulk response header: {error}"⟩
  | .bulk false _ => .ok {}
  | .bulk true none => .error ⟨.other, "ES bulk response missing 'items' array"⟩
  | .bulk true (some items) =>
    if items = [] then
      .error ⟨.other, "ES bulk response indicated errors but 'items' array is empty"⟩
    else
      match parseItems 0 items { itemCount := items.length } with
      | .error e => .error e
      | .ok result =>
        if result.retryItems = [] ∧ result.permanentErrors = [] then
          .error ⟨.invalidData,
            "ES bulk response indicated errors but no error details found in items"⟩
        else .ok result

/-- The number of items of a response without errors. -/
def parseSuccessItemCount : Body → Option Nat
  | .bulk false (some items) => some items.length
  | _ => none

-- == attempts

/-- What an attempt achieved, and which rows it leaves. -/
inductive SendAttempt
  | ok
  | rejected (rejections : List String) (acceptedRows : Nat)
  | retryAfter (pendingRows : List Nat) (rejections : List String) (acceptedRows : Nat)
      (delay : Duration)
  | ioError (pendingRows : List Nat) (rejections : List String) (error : IoError)
  deriving DecidableEq, Repr

/-- A quarter of a second. -/
def itemRetryDelay : Duration := 250 * 1000000

/-- What the items mean for the rows. -/
def bulkAttemptFromResult (rowIds : List Nat) (result : BulkItemResult) : SendAttempt :=
  if result.retryItems = [] ∧ result.permanentErrors = [] then .ok
  else if result.itemCount ≠ rowIds.length then
    .rejected [s!"ES bulk response item count mismatch: {result.itemCount} response items for "
      ++ s!"{rowIds.length} attempted rows"] 0
  else
    let failedRows := result.retryItems.length + result.permanentErrors.length
    let acceptedRows := result.itemCount - failedRows
    if result.retryItems = [] then .rejected result.permanentErrors acceptedRows
    else
      .retryAfter (result.retryItems.filterMap (rowIds[·]?)) result.permanentErrors acceptedRows
        itemRetryDelay

/-- A result that is about all rows. -/
def attemptFromSendResult (rowIds : List Nat) : SendResult → SendAttempt
  | .ok => .ok
  | .rejected reason => .rejected [reason] 0
  | .retryAfter delay => .retryAfter rowIds [] 0 delay
  | .ioError error => .ioError rowIds [] error

def prefixRejections (label : String) (rejections : List String) : List String :=
  rejections.map fun rejection => s!"{label}: {rejection}"

/-- Which half of a split rejections come from. -/
def labelAttemptRejections (label : String) : SendAttempt → SendAttempt
  | .rejected rejections acceptedRows =>
    .rejected (prefixRejections label rejections) acceptedRows
  | .retryAfter pendingRows rejections acceptedRows delay =>
    .retryAfter pendingRows (prefixRejections label rejections) acceptedRows delay
  | .ioError pendingRows rejections error =>
    .ioError pendingRows (prefixRejections label rejections) error
  | .ok => .ok

def combineIoErrors (left : IoError) (label : String) (right : IoError) : IoError :=
  ⟨left.kind, s!"{left.message}; {label}: {right.message}"⟩

/-- The two halves of a split batch. -/
def mergeSplitAttempts : SendAttempt → SendAttempt → SendAttempt
  | .ok, .ok => .ok
  | .rejected left accepted, .rejected right rightAccepted =>
    .rejected (left ++ right) (accepted + rightAccepted)
  | .rejected rejections accepted, .ok => .rejected rejections accepted
  | .ok, .rejected rejections accepted => .rejected rejections accepted
  | .retryAfter pending rejections accepted delay, .rejected right rightAccepted =>
    .retryAfter pending (rejections ++ right) (accepted + rightAccepted) delay
  | .rejected right rightAccepted, .retryAfter pending rejections accepted delay =>
    .retryAfter pending (rejections ++ right) (accepted + rightAccepted) delay
  | .retryAfter pending rejections accepted delay,
    .retryAfter rightPending right rightAccepted rightDelay =>
      .retryAfter (pending ++ rightPending) (rejections ++ right) (accepted + rightAccepted)
        (max delay rightDelay)
  | .ioError pending rejections error, .ioError rightPending right rightError =>
    .ioError (pending ++ rightPending) (rejections ++ right)
      (combineIoErrors error "right split IO error" rightError)
  | .ioError pending rejections error, .retryAfter rightPending right _ _ =>
    .ioError (pending ++ rightPending) (rejections ++ right) error
  | .retryAfter rightPending right _ _, .ioError pending rejections error =>
    .ioError (pending ++ rightPending) (rejections ++ right) error
  | .ioError pending rejections error, .rejected right _ =>
    .ioError pending (rejections ++ right) error
  | .rejected right _, .ioError pending rejections error =>
    .ioError pending (rejections ++ right) error
  | .ioError pending rejections error, .ok => .ioError pending rejections error
  | .ok, .ioError pending rejections error => .ioError pending rejections error
  | .retryAfter pending rejections accepted delay, .ok =>
    .retryAfter pending rejections accepted delay
  | .ok, .retryAfter pending rejections accepted delay =>
    .retryAfter pending rejections accepted delay

-- == sending

/-- A body is sent whole or as it is made. -/
inductive RequestMode
  | buffered
  | streaming
  deriving DecidableEq, Repr

/-- The part of the configuration that sending reads. -/
structure Config where
  requestMode : RequestMode
  compress : Bool
  maxBulkBytes : Nat
  /-- The index name as a JSON string. -/
  escapedIndex : Bytes

/-- The action line before a document. -/
def Config.actionBytes (config : Config) : Bytes :=
  "\x7b\"index\":\x7b\"_index\":".toUTF8.toList ++ config.escapedIndex
    ++ "\x7d\x7d\n".toUTF8.toList

/-- How the task that serializes a streamed body ends, but for the
serialization. -/
inductive Producer
  | finished
  | receiverDropped
  | joinError (error : String)
  deriving DecidableEq, Repr

/-- A request and how it goes. -/
structure Exchange where
  answer : Answer
  producer : Producer
  /-- The bytes of a streamed body that were passed on by the time of the
  answer. -/
  emitted : Nat

/-- What a call of `send_batch` meets. -/
structure Call where
  config : Config
  /-- The document of a row, with its newline. -/
  document : Nat → Except IoError Bytes
  gzip : Bytes → Except String Bytes
  take : Except String Unit
  exchange : List Nat → Exchange

/-- What a call has done with rows of the batch. -/
inductive Event
  | request (rows : List Nat) (answer : Answer)
  | rejected (rows : List Nat)
  deriving DecidableEq

/-- An action line and a document for each row. -/
def Call.serializeBatch (call : Call) : List Nat → Except IoError Bytes
  | [] => .ok []
  | row :: rows =>
    match call.document row with
    | .error e => .error e
    | .ok document =>
      match call.serializeBatch rows with
      | .error e => .error e
      | .ok rest => .ok (call.config.actionBytes ++ document ++ rest)

/-- An answer that is not a success; `what` is how a 413 names the body. -/
def attemptFromFailure (what : String) (rowIds : List Nat) (status : Nat)
    (retryAfter : Option Duration) (text : Option String) : SendAttempt :=
  if status = 413 then
    let detail := text.getD ""
    .ioError rowIds []
      ⟨.invalidInput, s!"ES returned 413 Payload Too Large ({what}): {detail}"⟩
  else
    let detail := text.getD "<unreadable>"
    match classifyHttpStatus status retryAfter s!"ES: {detail}" with
    | some result => attemptFromSendResult rowIds result
    | none => .ioError rowIds [] ⟨.other, s!"ES: HTTP {status}: {detail}"⟩

/-- A success is judged by its items. -/
def attemptFromBody (rowIds : List Nat) (body : Body) : SendAttempt :=
  match parseBulkResponseDetailed body with
  | .ok result => bulkAttemptFromResult rowIds result
  | .error e => attemptFromSendResult rowIds (.fromIoError e)

/-- A buffered request. -/
def doSend (rowIds : List Nat) (body : Bytes) (answer : Answer) : SendAttempt :=
  match answer with
  | .transportError error => .ioError rowIds [] ⟨.other, error⟩
  | .response status retryAfter text responseBody =>
    if IsSuccess status then
      match responseBody with
      | .error error => .ioError rowIds [] ⟨.other, error⟩
      | .ok responseBody => attemptFromBody rowIds responseBody
    else attemptFromFailure s!"body {body.length} bytes" rowIds status retryAfter text

/-- The error of a streamed body's producer. -/
def streamingProducerError (producer : Producer) (serialized : Except IoError Bytes) :
    Option IoError :=
  match producer, serialized with
  | .joinError error, _ => some ⟨.other,
      s!"ES streaming producer task failed: ES streaming producer task failed: {error}"⟩
  | .receiverDropped, _ => some ⟨.other, "ES streaming producer failed: ES body receiver dropped"⟩
  | .finished, .error e => some ⟨.other, s!"ES streaming producer failed: {e.message}"⟩
  | .finished, .ok _ => none

/-- A streamed request, whose producer may fail. -/
def doSendStreaming (rowIds : List Nat) (serialized : Except IoError Bytes) (exchange : Exchange) :
    SendAttempt :=
  match exchange.answer with
  | .transportError error => .ioError rowIds [] ⟨.other, error⟩
  | .response status retryAfter text responseBody =>
    if IsSuccess status then
      match responseBody, streamingProducerError exchange.producer serialized with
      | .error error, _ => .ioError rowIds [] ⟨.other, error⟩
      | .ok responseBody, some error =>
        if parseSuccessItemCount responseBody = some rowIds.length then .ok
        else .ioError rowIds [] error
      | .ok responseBody, none => attemptFromBody rowIds responseBody
    else
      attemptFromFailure s!"streamed body {exchange.emitted} bytes" rowIds status retryAfter text

/-- Both halves are always attempted. -/
def sendSplitHalves (sendInner : List Nat → List Nat → SendAttempt × List Event)
    (batch rowIds : List Nat) : SendAttempt × List Event :=
  let mid := rowIds.length / 2
  let (left, leftEvents) := sendInner (batch.take mid) (rowIds.take mid)
  let (right, rightEvents) := sendInner (batch.drop mid) (rowIds.drop mid)
  (mergeSplitAttempts (labelAttemptRejections "left split rejected" left)
      (labelAttemptRejections "right split rejected" right),
    leftEvents ++ rightEvents)

/-- A 413 is answered by splitting, while that is allowed. -/
def splitOn413 (split : Option (List Nat → List Nat → SendAttempt × List Event))
    (batch rowIds : List Nat) (attempt : SendAttempt) : SendAttempt × List Event :=
  match attempt, split with
  | .ioError _ _ error, some sendInner =>
    if error.kind = .invalidInput ∧ 1 < rowIds.length then
      sendSplitHalves sendInner batch rowIds
    else (attempt, [])
  | attempt, _ => (attempt, [])

/-- An attempt that ends before a request. -/
def unsent (batch : List Nat) (attempt : SendAttempt) : SendAttempt × List Event :=
  match attempt with
  | .rejected _ _ => (attempt, [.rejected batch])
  | attempt => (attempt, [])

/-- `send_batch_inner`, where `split` sends a half and is there as long as
the depth allows it. -/
def sendOrSplit (call : Call) (split : Option (List Nat → List Nat → SendAttempt × List Event))
    (batch rowIds : List Nat) : SendAttempt × List Event :=
  if rowIds = [] then (.ok, [])
  else
    let exchange := call.exchange rowIds
    let serialized := call.serializeBatch batch
    match call.config.requestMode with
    | .streaming =>
      let (attempt, events) :=
        splitOn413 split batch rowIds (doSendStreaming rowIds serialized exchange)
      (attempt, .request batch exchange.answer :: events)
    | .buffered =>
      match serialized with
      | .error e => unsent batch (attemptFromSendResult rowIds (.fromIoError e))
      | .ok payload =>
        if payload = [] then (.ok, [])
        else if call.config.maxBulkBytes < payload.length then
          match split with
          | some sendInner =>
            if 1 < rowIds.length then sendSplitHalves sendInner batch rowIds
            else unsent batch (tooLarge payload)
          | none => unsent batch (tooLarge payload)
        else
          match if call.config.compress then call.gzip payload else .ok payload with
          | .error error => (.ioError rowIds [] ⟨.other, error⟩, [])
          | .ok body =>
            let (attempt, events) :=
              splitOn413 split batch rowIds (doSend rowIds body exchange.answer)
            (attempt, .request batch exchange.answer :: events)
where
  tooLarge (payload : Bytes) : SendAttempt :=
    .rejected [s!"single-row batch ({payload.length} bytes) exceeds max_bulk_bytes "
      ++ s!"({call.config.maxBulkBytes})"] 0

/-- `MAX_SPLIT_DEPTH`. -/
def maxSplitDepth : Nat := 6

/-- `send_batch_inner` with `splitsLeft` for `MAX_SPLIT_DEPTH - depth`. -/
def sendBatchInner (call : Call) : Nat → List Nat → List Nat → SendAttempt × List Event
  | 0 => sendOrSplit call none
  | splitsLeft + 1 => sendOrSplit call (some (sendBatchInner call splitsLeft))

-- == sink

/-- The rows of a batch, by their number in the batch it is projected
from. -/
def projectBatchRows (numRows : Nat) (take : Except String Unit) (rowIds : List Nat) :
    Except IoError (List Nat) :=
  if rowIds = List.range numRows then .ok (List.range numRows)
  else
    match rowIds.find? (numRows ≤ ·) with
    | some rowId =>
      .error ⟨.invalidData, s!"projected Elasticsearch retry row id {rowId} out of bounds for "
        ++ s!"{numRows} rows"⟩
    | none =>
      match take with
      | .error error => .error ⟨.other, error⟩
      | .ok () => .ok rowIds

/-- What the sink keeps between the calls for a batch. -/
structure ElasticsearchSink where
  pendingRetryRows : Option (List Nat)
  pendingRejections : List String
  deriving DecidableEq, Repr

/-- Rejections are reported once nothing is left. -/
def finishSuccessOrReject (rejections : List String) : SendResult :=
  if rejections = [] then .ok else .rejected ("; ".intercalate rejections)

namespace ElasticsearchSink

/-- A new batch owes nothing to the last. -/
def beginBatch (_ : ElasticsearchSink) : ElasticsearchSink :=
  { pendingRetryRows := none, pendingRejections := [] }

/-- No rows are left to send. -/
def settle (rejections : List String) : ElasticsearchSink × SendResult :=
  ({ pendingRetryRows := none, pendingRejections := [] }, finishSuccessOrReject rejections)

/-- Row ids are 32-bit. -/
def rowIds (numRows : Nat) (s : ElasticsearchSink) : List Nat :=
  s.pendingRetryRows.getD (List.range (numRows % 2 ^ 32))

/-- Rows that are left are kept for the next call. -/
def finishAttempt (rejections : List String) : SendAttempt → ElasticsearchSink × SendResult
  | .ok => settle rejections
  | .rejected newRejections _ => settle (rejections ++ newRejections)
  | .retryAfter pendingRows newRejections _ delay =>
    ({ pendingRetryRows := some pendingRows, pendingRejections := rejections ++ newRejections },
      .retryAfter delay)
  | .ioError pendingRows newRejections error =>
    ({ pendingRetryRows := some pendingRows, pendingRejections := rejections ++ newRejections },
      .ioError error)

/-- Only the rows that are left are sent. -/
def sendBatch (call : Call) (numRows : Nat) (s : ElasticsearchSink) :
    (ElasticsearchSink × SendResult) × List Event :=
  let rowIds := s.rowIds numRows
  let rejections := s.pendingRejections
  if rowIds = [] then (settle rejections, [])
  else
    match projectBatchRows numRows call.take rowIds with
    | .error error =>
      match SendResult.fromIoError error with
      | .rejected reason => (settle (rejections ++ [reason]), [.rejected rowIds])
      | other =>
        (({ pendingRetryRows := some rowIds, pendingRejections := rejections }, other), [])
    | .ok batch =>
      let (attempt, events) := sendBatchInner call maxSplitDepth batch rowIds
      (finishAttempt rejections attempt, events)

end ElasticsearchSink

-- == accounting

/-- An error, or a status that is none of success. -/
def Item.isFailed : Item → Bool
  | none => false
  | some action => action.error.isSome || action.status.any (300 ≤ ·)

/-- An item that is sent again. -/
def Item.isRetryable : Item → Bool
  | none => false
  | some action => action.status.any fun status => IsRetryable status

/-- The rows whose items are such. -/
def selectRows (rows : List Nat) (items : List Item) (select : Item → Bool) : List Nat :=
  ((rows.zip items).filter fun p => select p.2).map Prod.fst

/-- The rows of a request that the server has accepted. -/
def Answer.accepted (rows : List Nat) : Answer → List Nat
  | .response status _ _ (.ok (.bulk _ (some items))) =>
    if IsSuccess status then selectRows rows items fun item => !item.isFailed else []
  | _ => []

/-- The rows of a request that the server has rejected for good. -/
def Answer.rejected (rows : List Nat) : Answer → List Nat
  | .response status _ _ body =>
    if IsSuccess status then
      match body with
      | .ok (.bulk _ (some items)) =>
        selectRows rows items fun item => item.isFailed && !item.isRetryable
      | _ => []
    else if IsPermanent status ∧ status ≠ 413 then rows
    else []
  | .transportError _ => []

/-- The rows of a request. -/
def Event.requested : Event → List Nat
  | .request rows _ => rows
  | .rejected _ => []

def Event.acceptedRows : Event → List Nat
  | .request rows answer => answer.accepted rows
  | .rejected _ => []

def Event.rejectedRows : Event → List Nat
  | .request rows answer => answer.rejected rows
  | .rejected rows => rows

/-- A bulk response has one item for each row, and its `errors` flag is
set when one of them failed. -/
def Answer.WellFormed (numRows : Nat) : Answer → Prop
  | .response status _ _ (.ok (.bulk errors items)) => IsSuccess status →
      ∃ items', items = some items' ∧ items'.length = numRows
        ∧ (∀ item ∈ items', ∃ status error, item = some { status := some status, error })
        ∧ errors = items'.any Item.isFailed
  | _ => True

/-- The calls for one batch since `begin_batch`. -/
structure Run where
  sink : ElasticsearchSink
  events : List Event
  /-- The result of the last call. -/
  result : Option SendResult

namespace Run

/-- After `begin_batch`. -/
def start : Run :=
  { sink := { pendingRetryRows := none, pendingRejections := [] }, events := [], result := none }

/-- With Ok or Rejected the batch is over: what drives the sink begins
another before it sends again. -/
def isOver (s : Run) : Bool :=
  match s.result with
  | some .ok | some (.rejected _) => true
  | _ => false

/-- Another call for the batch. -/
def step (numRows : Nat) (call : Call) (s : Run) : Option Run :=
  if s.isOver then none
  else
    let ((sink, result), events) := s.sink.sendBatch call numRows
    some { sink, events := s.events ++ events, result := some result }

/-- The rows accepted in all calls. -/
def accepted (s : Run) : List Nat := s.events.flatMap Event.acceptedRows

/-- The rows rejected in all calls. -/
def rejected (s : Run) : List Nat := s.events.flatMap Event.rejectedRows

/-- The rows still to send. -/
def pending (s : Run) : List Nat := s.sink.pendingRetryRows.getD []

end Run

/-- Every row of the batch is in one place, and stays there once it is
accepted or rejected. -/
structure AccountedFor (numRows : Nat) (s : Run) : Prop where
  partition : (s.accepted ++ s.rejected ++ s.pending).Perm (List.range numRows)
  settled : s.events.Pairwise fun e later =>
    ∀ row ∈ later.requested, row ∉ e.acceptedRows ∧ row ∉ e.rejectedRows
  ok_accepted : s.result = some .ok → ∀ row < numRows, row ∈ s.accepted
  rejected_settled : ∀ reason, s.result = some (.rejected reason) → s.pending = []

end FastForward.Output.Elasticsearch
