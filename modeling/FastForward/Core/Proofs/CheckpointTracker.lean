/-
The offsets of a tracker over whole runs.

They stay in order, and the checkpoint only moves forward, whatever the
additions saturate at. That the remainder makes up the difference is kept
by every transition but one: a read without a newline adds its bytes to
the offset and to the remainder, and the two sums need not saturate
together.
-/
import FastForward.Core.CheckpointTracker
import FastForward.Lib.Run

namespace FastForward.Core.CheckpointTracker

open Lib List

/-- One transition; a failed assertion leaves the tracker as it is. -/
def step (t : CheckpointTracker) (op : TrackerOp) : CheckpointTracker :=
  (op.apply t).getD t

/-- The tracker after some transitions. -/
def run (t : CheckpointTracker) (ops : List TrackerOp) : CheckpointTracker :=
  ops.foldl step t

structure InOrder (t : CheckpointTracker) : Prop where
  checkpoint_le : t.checkpointOffset ≤ t.processedOffset
  processed_le : t.processedOffset ≤ t.readOffset
  read_le : t.readOffset ≤ u64Max

/-- The documented invariants of a state. -/
structure Invariants (t : CheckpointTracker) : Prop extends InOrder t where
  remainder : t.processedOffset + t.remainderLen = t.readOffset

/-- A read without a newline does not saturate the offset, or no line
has been processed at all. -/
def AddsUp (t : CheckpointTracker) : TrackerOp → Prop
  | .read nBytes none => t.readOffset + nBytes.toNat ≤ u64Max ∨ t.processedOffset = 0
  | _ => True

variable {t : CheckpointTracker}

theorem InOrder.step (h : InOrder t) (op : TrackerOp) :
    InOrder (t.step op) ∧ t.checkpointOffset ≤ (t.step op).checkpointOffset := by
  have ⟨hcheckpoint, hprocessed, hread⟩ := h
  unfold CheckpointTracker.step
  fun_cases TrackerOp.apply t op with
  | case1 | case2 => exact ⟨h, Nat.le_refl _⟩
  | case3 nBytes readOffset _ pos hinside newlineAbs =>
    have hfront : t.checkpointOffset ≤ newlineAbs ∧ newlineAbs ≤ readOffset
        ∧ readOffset ≤ u64Max := by
      unfold newlineAbs readOffset saturatingAdd
      omega
    exact ⟨⟨hfront.1, hfront.2.1, hfront.2.2⟩, Nat.le_refl _⟩
  | case4 nBytes readOffset =>
    have hfront : t.readOffset ≤ readOffset ∧ readOffset ≤ u64Max := by
      unfold readOffset saturatingAdd
      omega
    exact ⟨⟨hcheckpoint, Nat.le_trans hprocessed hfront.1, hfront.2⟩, Nat.le_refl _⟩
  | case5 => exact ⟨⟨Nat.le_refl _, hprocessed, hread⟩, hcheckpoint⟩
  | case6 =>
    have hle : t.checkpointOffset ≤ u64Max := by omega
    exact ⟨⟨Nat.le_refl _, Nat.le_refl _, hle⟩, Nat.le_refl _⟩
  | case7 => exact ⟨⟨Nat.le_trans hcheckpoint hprocessed, Nat.le_refl _, hread⟩, Nat.le_refl _⟩

/-- What is in order stays so, and a step keeps the remainder right
exactly if it adds up. -/
theorem Invariants.step_iff (h : Invariants t) (op : TrackerOp) :
    Invariants (t.step op) ↔ AddsUp t op := by
  have horder := (h.toInOrder.step op).1
  have ⟨⟨_, hprocessed, hread⟩, hremainder⟩ := h
  have hsum : Invariants (t.step op) ↔ (t.step op).processedOffset + (t.step op).remainderLen
      = (t.step op).readOffset := ⟨fun h => h.remainder, fun h => ⟨horder, h⟩⟩
  rw [hsum]
  have hle := horder.processed_le
  revert hle
  unfold step
  fun_cases TrackerOp.apply t op with
  | case1 nBytes lastNewlinePos hzero =>
    refine fun _ => iff_of_true hremainder ?_
    cases lastNewlinePos with
    | none => exact .inl (by omega)
    | some pos => trivial
  | case2 => exact fun _ => iff_of_true hremainder trivial
  | case3 nBytes readOffset _ pos hinside newlineAbs =>
    exact fun hle => iff_of_true (Nat.add_sub_cancel' hle) trivial
  | case4 nBytes readOffset =>
    intro _
    show t.processedOffset + min _ _ = min _ _
      ↔ t.readOffset + nBytes.toNat ≤ u64Max ∨ t.processedOffset = 0
    omega
  | case5 => exact fun _ => iff_of_true hremainder trivial
  | case6 | case7 => exact fun _ => iff_of_true rfl trivial

theorem new_invariants (resume : UInt64) : Invariants (new resume.toNat) :=
  ⟨⟨Nat.le_refl _, Nat.le_refl _, Nat.le_sub_one_of_lt resume.toNat_lt⟩, rfl⟩

theorem InOrder.run (h : InOrder t) (ops : List TrackerOp) : InOrder (t.run ops) := by
  induction ops generalizing t with
  | nil => exact h
  | cons op ops ih => exact ih (h.step op).1

/-- **The invariants of the tracker**, over every run from every resume
offset: the offsets are in order and the checkpoint never moves back, and
the remainder is right all along exactly if no read without a newline
saturates the offset behind a processed line. -/
theorem tracker_invariants (resume : UInt64) (ops : List TrackerOp) :
    (∀ front op, InOrder ((new resume.toNat).run front)
        ∧ ((new resume.toNat).run front).checkpointOffset
            ≤ ((new resume.toNat).run (front ++ [op])).checkpointOffset)
      ∧ ((∀ front, front <+: ops → Invariants ((new resume.toNat).run front))
          ↔ StepsMeet (fun op t => some (t.step op)) AddsUp (new resume.toNat) ops) := by
  have hnew := new_invariants resume
  refine ⟨fun front op => ?_, ?_⟩
  · have horder := hnew.toInOrder.run front
    refine ⟨horder, ?_⟩
    rw [run, run, foldl_append]
    exact (horder.step op).2
  · exact forall_states_iff_stepsMeet .step AddsUp Invariants
      (fun _ op h => h.step_iff op) hnew ops

/-- A read of `u64::MAX` bytes without a newline from offset 5 on leaves
a remainder that ends behind the offset. -/
theorem saturated_remainder_exceeds :
    let t := (new 5).run [.read 0xFFFFFFFFFFFFFFFF none]
    t.readOffset = u64Max ∧ t.processedOffset = 5 ∧ t.remainderLen = u64Max ∧ ¬ Invariants t := by
  refine ⟨by decide, by decide, by decide, ?_⟩
  intro h
  exact absurd h.remainder (by decide)

end FastForward.Core.CheckpointTracker
