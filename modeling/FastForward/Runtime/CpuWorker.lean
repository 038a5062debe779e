/-
The CPU worker (`pipeline/cpu_worker.rs`): each item from the I/O worker
is scanned, given its metadata columns and transformed; an item that
fails on the way is dropped, and nothing of it reaches the pipeline, its
checkpoints included.

The stages are parameters, so that an item may fail at any of them. The
second half follows the chunks of one source through the worker, the
channel and the delivery seam, among whatever the pipeline's other
inputs submit: chunks are consecutive, non-empty ranges of the source,
and the ones that were dropped are history.
-/
import FastForward.Runtime.DeliveryRun
import FastForward.Runtime.IoWorker

namespace FastForward.Runtime

open Lib Pipeline Io

variable {α R : Type}

/-- What the worker runs an item through. -/
structure CpuStages (α R : Type) where
  scan : List α → Except String R
  sourceMetadataForBatch : R → List RowOriginSpan → BTreeMap SourceId String →
    Except String R
  criMetadataForBatch : R → Option CriMetadata → Except String R
  executeTransform : R → Except String R

/-- The checkpoint list as a map: the last offset of a source wins. -/
def checkpointMap (checkpoints : List (SourceId × Nat)) : BTreeMap SourceId Nat :=
  checkpoints.foldl (fun m p => m.insert p.1 p.2) ∅

/-- The record batch of an item, before the transform. -/
def itemBatch (stages : CpuStages α R) : IoWorkItem α R → Except String R
  | .rawBatch chunk => do
      let batch ← stages.scan chunk.bytes
      let batch ← stages.sourceMetadataForBatch batch chunk.rowOrigins chunk.sourcePaths
      stages.criMetadataForBatch batch chunk.criMetadata
  | .batch batch _ rowOrigins sourcePaths _ =>
    stages.sourceMetadataForBatch batch rowOrigins sourcePaths

def itemInputIndex : IoWorkItem α R → Nat
  | .rawBatch chunk => chunk.inputIndex
  | .batch _ _ _ _ inputIndex => inputIndex

/-- One turn of the worker loop: a processed batch, or the error for
which the item was dropped. -/
def cpuWorkerItem (stages : CpuStages α R) (item : IoWorkItem α R) :
    Except String (ProcessedBatch R) := do
  let batch ← itemBatch stages item
  let result ← stages.executeTransform batch
  pure
    { batch := result
      checkpoints := checkpointMap item.checkpoints
      inputIndex := itemInputIndex item }

-- == one source's chunks

/-- A range of the source that was dropped. -/
structure DroppedChunk where
  start : Nat
  stop : Nat
  deriving DecidableEq, Repr

/-- The worker's source followed through the pipeline. -/
structure SourceRun (R : Type) where
  delivery : DeliveryRun R
  /-- Processed batches in the channel to the pipeline, oldest first. -/
  channel : List (ProcessedBatch R)
  /-- End offset of the last chunk the worker took. -/
  stop : Nat
  dropped : List DroppedChunk

/-- A new pipeline whose source starts at offset `start`. -/
def SourceRun.init (hasStore : Bool) (start : Nat) : SourceRun R :=
  { delivery := .init hasStore, channel := [], stop := start, dropped := [] }

/-- What happens to a source's chunks. -/
inductive SourceOp (α R : Type)
  /-- The worker takes the next chunk, which holds `n + 1` more bytes. -/
  | chunk (stages : CpuStages α R) (io : IoChunk α) (n : Nat)
  /-- The pipeline takes the oldest batch of the channel. -/
  | receive (runProcessorStage : R → ProcessorStageResult R) (failpoint : Bool)
  /-- The pipeline does anything that submits nothing of this source. -/
  | other (op : DeliveryOp R)

/-- Does an operation submit a checkpoint of the source? -/
def DeliveryOp.names (source : SourceId) : DeliveryOp R → Bool
  | .submit entries _ _ _ => entries.any fun e => e.1 == source
  | .poolAck _ _ => false
  | .finish => false

/-- One operation on one source's run. -/
def SourceOp.apply (numRows : R → Nat) (source : SourceId) (op : SourceOp α R)
    (r : SourceRun R) : Option (SourceRun R) :=
  match op with
  | .chunk stages io n =>
    let stop := r.stop + n + 1
    match cpuWorkerItem stages
        (.rawBatch { io with checkpoints := [(source, stop)] }) with
    | .ok batch => some { r with channel := r.channel ++ [batch], stop }
    | .error _ => some { r with dropped := r.dropped ++ [⟨r.stop, stop⟩], stop }
  | .receive runProcessorStage failpoint =>
    match r.channel with
    | [] => none
    | msg :: rest =>
      (DeliveryOp.apply numRows (.submit msg.checkpoints.toList msg.batch
          runProcessorStage failpoint) r.delivery).map
        fun delivery => { r with delivery, channel := rest }
  | .other op =>
    if op.names source then none
    else (op.apply numRows r.delivery).map fun delivery => { r with delivery }

/-- The commit never passes the end of a dropped chunk. -/
def SourceRun.NotPassed (source : SourceId) (r : SourceRun R) : Prop :=
  ∀ d ∈ r.dropped, ∀ c, r.delivery.pipeline.committedCheckpoint source = some c →
    c ≤ d.stop

/-- A restart from the commit reads every dropped chunk again. -/
def SourceRun.Rereads (source : SourceId) (r : SourceRun R) : Prop :=
  ∀ d ∈ r.dropped, ∀ c, r.delivery.pipeline.committedCheckpoint source = some c →
    c ≤ d.start

/-- While the machine runs, every batch submitted from behind a dropped
chunk has a batch of its source at or before it that is neither acked nor
rejected. -/
def SourceRun.StuckBehindDrop (source : SourceId) (r : SourceRun R) : Prop :=
  r.delivery.pipeline.machine.isSome → ∀ d ∈ r.dropped, ∀ b ∈ r.delivery.sent,
    b.source = source → d.stop < b.checkpoint →
      ∃ b' ∈ r.delivery.sent, b'.source = source ∧ b'.id ≤ b.id
        ∧ b'.id ∉ r.delivery.applied

end FastForward.Runtime
