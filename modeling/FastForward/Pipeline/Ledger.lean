/-
What ordered acknowledgement is for: a ledger of the batches that were
sent and of the batch ids that have had a receipt applied.

A source's committed checkpoint should be the one of its greatest batch
up to which every sent batch has a receipt (`Ledger.IsCommit`). `Tracks`
says that the machine's three maps represent a ledger: in flight is what
was sent and has no receipt, pending is what has a receipt but is held
back by an in-flight batch below it, committed is the ledger's commit.
-/
import FastForward.Lib.Frontier
import FastForward.Pipeline.Lifecycle

namespace FastForward.Pipeline

open Lib Set

universe u

variable {C : Type u}

/-- A batch without its ticket's state. -/
structure Batch (C : Type u) where
  source : SourceId
  id : BatchId
  checkpoint : C
  deriving DecidableEq, Repr

def BatchTicket.batch {S : TicketState} (t : BatchTicket S C) : Batch C :=
  ⟨t.source, t.id, t.checkpoint⟩

/-- The batches sent and the ids acknowledged so far. -/
structure Ledger (C : Type u) where
  sent : Set (Batch C)
  applied : Set BatchId

namespace Ledger

/-- Nothing sent, nothing acknowledged. -/
def empty : Ledger C := ⟨∅, ∅⟩

/-- One more batch sent. -/
def send (L : Ledger C) (b : Batch C) : Ledger C :=
  { L with sent := insert b L.sent }

/-- One more receipt applied. -/
def apply (L : Ledger C) (k : BatchId) : Ledger C :=
  { L with applied := insert k L.applied }

-- A history kept as lists grows at the end.

theorem setOf_mem_concat {α : Type*} (xs : List α) (a : α) :
    {x | x ∈ xs ++ [a]} = insert a {x | x ∈ xs} := by
  ext x
  show x ∈ xs ++ [a] ↔ x = a ∨ x ∈ xs
  rw [List.mem_append, List.mem_singleton, or_comm]

theorem send_concat (sent : List (Batch C)) (A : Set BatchId) (b : Batch C) :
    (⟨{x | x ∈ sent ++ [b]}, A⟩ : Ledger C) = send ⟨{x | x ∈ sent}, A⟩ b := by
  rw [setOf_mem_concat]
  rfl

theorem apply_concat (S : Set (Batch C)) (applied : List BatchId) (k : BatchId) :
    (⟨S, {x | x ∈ applied ++ [k]}⟩ : Ledger C) = apply ⟨S, {x | x ∈ applied}⟩ k := by
  rw [setOf_mem_concat]
  rfl

/-- The ids of the batches of one source that were sent. -/
def ids (L : Ledger C) (s : SourceId) : Set BatchId :=
  {k | ∃ c, ⟨s, k, c⟩ ∈ L.sent}

/-- `c` is the checkpoint of the source's greatest batch up to which
everything sent has a receipt. -/
def IsCommit (L : Ledger C) (s : SourceId) (c : C) : Prop :=
  ∃ k, IsGreatest (committable (L.ids s) L.applied) k ∧ ⟨s, k, c⟩ ∈ L.sent

/-- An id names one batch. -/
def Functional (L : Ledger C) : Prop :=
  ∀ b ∈ L.sent, ∀ b' ∈ L.sent, b.id = b'.id → b = b'

variable {L : Ledger C}

/-- A batch that was sent is of its source. -/
theorem mem_ids {b : Batch C} (hb : b ∈ L.sent) :
    b.id ∈ L.ids b.source := ⟨b.checkpoint, hb⟩

/-- A source has one batch more when one is sent. -/
theorem ids_send_same (L : Ledger C) (b : Batch C) :
    (L.send b).ids b.source = insert b.id (L.ids b.source) := by
  ext k
  constructor
  · rintro ⟨c, hc⟩
    rcases mem_insert_iff.mp hc with h | h
    · rw [← h]
      exact mem_insert _ _
    · exact mem_insert_of_mem _ ⟨c, h⟩
  · intro hk
    rcases mem_insert_iff.mp hk with rfl | ⟨c, hc⟩
    · exact ⟨b.checkpoint, mem_insert _ _⟩
    · exact ⟨c, mem_insert_of_mem _ hc⟩

/-- The other sources have what they had. -/
theorem ids_send_other (L : Ledger C) (b : Batch C) {s : SourceId}
    (hs : s ≠ b.source) : (L.send b).ids s = L.ids s := by
  ext k
  constructor
  · rintro ⟨c, hc⟩
    rcases mem_insert_iff.mp hc with h | h
    · exact absurd (congrArg Batch.source h) hs
    · exact ⟨c, h⟩
  · rintro ⟨c, hc⟩
    exact ⟨c, mem_insert_of_mem _ hc⟩

/-- A new batch under a new id. -/
theorem Functional.send (hf : L.Functional) {b : Batch C}
    (hb : ∀ b' ∈ L.sent, b'.id = b.id → b' = b) : (L.send b).Functional := by
  intro x hx y hy hxy
  rcases mem_insert_iff.mp hx with rfl | hxL
  · rcases mem_insert_iff.mp hy with rfl | hyL
    · rfl
    · exact (hb y hyL hxy.symm).symm
  · rcases mem_insert_iff.mp hy with rfl | hyL
    · exact hb x hxL hxy
    · exact hf x hxL y hyL hxy

/-- In a functional ledger a source has at most one commit. -/
theorem IsCommit.unique (hf : L.Functional) {s : SourceId}
    {c c' : C} (h : L.IsCommit s c) (h' : L.IsCommit s c') : c = c' := by
  obtain ⟨k, hk, hc⟩ := h
  obtain ⟨k', hk', hc'⟩ := h'
  have hkk : k = k' := hk.unique hk'
  subst hkk
  exact congrArg Batch.checkpoint (hf _ hc _ hc' rfl)

end Ledger

/-- The machine's maps represent a ledger. -/
structure Tracks (t : Tracking C) (L : Ledger C) : Prop where
  inFlight : ∀ s k c, BTreeMap.lookup₂ t.inFlight s k = some c
    ↔ ⟨s, k, c⟩ ∈ L.sent ∧ k ∉ L.applied
  pending : ∀ s k c, BTreeMap.lookup₂ t.pendingAcks s k = some c
    ↔ ⟨s, k, c⟩ ∈ L.sent ∧ k ∈ L.applied
      ∧ k ∉ committable (L.ids s) L.applied
  committed : ∀ s c, t.committed[s]? = some c ↔ L.IsCommit s c
  inFlight_noEmpty : BTreeMap.NoEmpty t.inFlight
  pending_noEmpty : BTreeMap.NoEmpty t.pendingAcks

end FastForward.Pipeline
