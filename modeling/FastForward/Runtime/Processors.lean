/-
The flush of a chain of processors (`ffwd-runtime/src/processor/mod.rs`).

A processor is whatever stands behind `dyn Processor`: a state with its
`process` and `flush`, for the metadata of the call. Each step of the
cascade flushes the processors behind it again. Those have nothing left by
then, so that all that is emitted comes of the first step, in which each
processor takes what the one before it emitted.
-/
import Mathlib.Logic.Relation

namespace FastForward.Runtime

/-- The trait, for one kind of batch. -/
structure Processor (σ β ε : Type) where
  process : σ → β → σ × Except ε (List β)
  flush : σ → σ × List β

namespace Processor

variable {σ β ε : Type} (p : Processor σ β ε)

/-- Batches go through a processor; one that fails is skipped. -/
def processEach (s : σ) : List β → σ × List β
  | [] => (s, [])
  | b :: batches =>
    let (s, result) := p.process s b
    let out := match result with
      | .ok out => out
      | .error _ => []
    let (s, next) := processEach s batches
    (s, out ++ next)

/-- The inner loop: through the remaining processors, each flushed. -/
def cascade (emitted : List β) : List σ → List σ × List β
  | [] => ([], emitted)
  | s :: remaining =>
    let (s, next) := p.processEach s emitted
    let (s, flushed) := p.flush s
    let (remaining, emitted) := cascade (next ++ flushed) remaining
    (s :: remaining, emitted)

/-- The outer loop, over the processors that are left. -/
def flushEach : Nat → List σ → List σ × List β
  | n + 1, s :: remaining =>
    let (s, emitted) := p.flush s
    let (remaining, emitted) := p.cascade emitted remaining
    let (remaining, more) := flushEach n remaining
    (s :: remaining, emitted ++ more)
  | _, chain => (chain, [])

/-- The processors after the flush, and all they emitted. -/
def cascadingFlush (chain : List σ) : List σ × List β := p.flushEach chain.length chain

/-- A flush emits all that is buffered and leaves nothing. -/
structure Buffers (buffered : σ → List β) : Prop where
  emits : ∀ s, (p.flush s).2 = buffered s
  empties : ∀ s, buffered (p.flush s).1 = []

/-- From one state to another by flushes alone. -/
def Reflushed : σ → σ → Prop := Relation.ReflTransGen fun s t => (p.flush s).1 = t

/-- Batches passed down a chain. Each processor takes the batches that come
down, each once and in order, and is then only flushed; what it returned
for them, and then what it held, goes on down, and out at the end. -/
def Passed (buffered : σ → List β) (taken : List β) :
    (before after : List σ) → (returned : List β) → Prop
  | [], [], returned => returned = taken
  | s :: before, t :: after, returned =>
    let fed := p.processEach s taken
    p.Reflushed (p.flush fed.1).1 t
      ∧ Passed buffered (fed.2 ++ buffered fed.1) before after returned
  | _, _, _ => False

end Processor
end FastForward.Runtime
