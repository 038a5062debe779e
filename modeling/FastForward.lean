import FastForward.Pipeline.Proofs.Confluence
import FastForward.Runtime.Proofs.IoBuffered
import FastForward.Runtime.Proofs.Dropped
import FastForward.Runtime.Proofs.PoolAcks
import FastForward.Core.Proofs.Isolation
import FastForward.Runtime.Proofs.CriRows
import FastForward.Runtime.Proofs.SidecarsFit
import FastForward.Io.Proofs.Recovery
import FastForward.Io.Tail.Proofs.Generations
import FastForward.Io.Tail.Proofs.Lifetimes
import FastForward.Output.Proofs.Fanout
import FastForward.Output.Proofs.Pipelined
import FastForward.Output.Proofs.Elasticsearch
import FastForward.Output.Proofs.Permanent
import FastForward.Output.Proofs.LokiDelivery
import FastForward.Arrow.Proofs.Cells
import FastForward.Arrow.Proofs.Scan
import FastForward.Arrow.Proofs.StarSchema
import FastForward.Io.Proofs.S3.UrlCoding
import FastForward.Io.Proofs.Udp
import FastForward.Io.Proofs.Decimal
import FastForward.Io.Proofs.Segment
import FastForward.Io.Proofs.OctetFrames
import FastForward.Io.Proofs.S3.Cursor
import FastForward.Io.Proofs.S3.Completions
import FastForward.Io.Proofs.S3.Messages
import FastForward.Io.Proofs.S3.Fetch
import FastForward.Core.Proofs.CheckpointTracker
import FastForward.Core.Proofs.Wire
import FastForward.Transform.Proofs.BoundedLru
import FastForward.Runtime.Proofs.Processors
import FastForward.Io.Proofs.Wrapping
