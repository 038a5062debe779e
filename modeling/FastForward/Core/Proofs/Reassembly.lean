/-
What the CRI reassembler returns for whole messages.

While partial lines come in, the pending bytes are the first ones of all
that has arrived, and the mark says whether more has arrived than fits
(`Holds`). At the full line the same holds of the whole message, unless
nothing is pending: then only the last piece is looked at. With a maximum
of zero nothing ever is.
-/
import FastForward.Core.Cri

namespace FastForward.Core.CriReassembler

open List

variable (r : CriReassembler) (message : Bytes)

theorem pending_extend : (r.extend message).pending
    = r.pending ++ message.take (r.maxMessageSize - r.pending.length) := by
  show r.pending ++ message.take (min message.length _) = _
  rw [Nat.min_comm, ← take_take, take_of_length_le (Nat.le_refl _)]

/-- A full line completes the message with what still fits of it, and the
reassembler is reset then. -/
theorem feed_full :
    ((r.feed message true).1 = .complete (r.extend message).pending
        ∨ (r.feed message true).1 = .truncated (r.extend message).pending)
      ∧ (r.feed message true).2.reset = r.reset := by
  have hextend := pending_extend r message
  unfold feed
  by_cases h : r.pending = []
  · rw [h] at hextend
    rw [if_pos rfl, if_pos (by simp [h]), hextend]
    dsimp only
    rw [Nat.min_comm, ← take_take, take_of_length_le (Nat.le_refl message.length)]
    split
    · exact ⟨.inr rfl, rfl⟩
    · exact ⟨.inl rfl, rfl⟩
  · rw [if_pos rfl, if_neg (by simp [h])]
    dsimp only
    split
    · exact ⟨.inr rfl, rfl⟩
    · exact ⟨.inl rfl, rfl⟩

/-- The reassembler has taken in `arrived`. -/
structure Holds (r : CriReassembler) (arrived : Bytes) : Prop where
  pending : r.pending = arrived.take r.maxMessageSize
  truncated : r.truncated = decide (r.maxMessageSize < arrived.length)

variable {r : CriReassembler} {arrived : Bytes}

/-- One more piece. -/
theorem Holds.extend (h : Holds r arrived)
    (message : Bytes) : Holds (r.extend message) (arrived ++ message) := by
  have hroom : r.maxMessageSize - r.pending.length = r.maxMessageSize - arrived.length := by
    rw [h.pending, length_take]
    omega
  constructor
  · rw [pending_extend, hroom, h.pending]
    exact take_append.symm
  · show (if _ then true else r.truncated) = decide (r.maxMessageSize < _)
    rw [h.truncated, length_append]
    split
    next hcut => exact (decide_eq_true (by omega)).symm
    next hfits => exact decide_eq_decide.mpr (by omega)

/-- Feed the partial lines of a message. -/
def feedPartials (r : CriReassembler) (partials : List Bytes) : CriReassembler :=
  partials.foldl (fun r message => (r.feed message false).2) r

theorem Holds.feedPartials (h : Holds r arrived)
    (partials : List Bytes) : Holds (r.feedPartials partials) (arrived ++ partials.flatten)
      ∧ (r.feedPartials partials).maxMessageSize = r.maxMessageSize := by
  induction partials generalizing r arrived with
  | nil => exact ⟨by rw [flatten_nil, append_nil]; exact h, rfl⟩
  | cons message rest ih =>
    rw [flatten_cons, ← append_assoc]
    exact ih (h.extend message)

/-- The result for a message that has arrived as a whole. -/
def resultOf (maxMessageSize : Nat) (message : Bytes) : AggregateResult :=
  if maxMessageSize < message.length then .truncated (message.take maxMessageSize)
  else .complete (message.take maxMessageSize)

/-- A full line after some partial ones. Without anything pending the
pieces before it are forgotten. -/
theorem Holds.feed_full (h : Holds r arrived) (last : Bytes) : (r.feed last true).1
      = resultOf r.maxMessageSize (if r.pending.isEmpty then last else arrived ++ last) := by
  unfold feed resultOf
  by_cases hnone : r.pending.isEmpty
  · by_cases hlong : r.maxMessageSize < last.length
    · simp [hnone, hlong, Nat.min_eq_right (Nat.le_of_lt hlong)]
    · have hshort := Nat.le_of_not_lt hlong
      simp [hnone, hlong, Nat.min_eq_left hshort, take_of_length_le hshort]
  · have hwhole := h.extend last
    have hmax : (r.extend last).maxMessageSize = r.maxMessageSize := rfl
    simp only [hnone, ↓reduceIte, Bool.false_eq_true, hwhole.pending, hwhole.truncated, hmax,
      decide_eq_true_eq]
    split <;> rfl

/-- **Reassembly of a message.** Fed to a fresh or reset reassembler,
partial lines and a full one give the first bytes of the whole message,
marked as truncated if there are more; but not if the maximum is zero, the
last piece is empty and an earlier one is not. -/
theorem reassembles_iff (maxMessageSize : Nat) (start : CriReassembler)
    (hstart : start = .new maxMessageSize
      ∨ ∃ r : CriReassembler, r.maxMessageSize = maxMessageSize ∧ start = r.reset)
    (partials : List Bytes) (last : Bytes) :
    ((start.feedPartials partials).feed last true).1
        = resultOf maxMessageSize (partials.flatten ++ last)
      ↔ (maxMessageSize = 0 → last = [] → partials.flatten = []) := by
  have hfresh : Holds start [] ∧ start.maxMessageSize = maxMessageSize := by
    rcases hstart with rfl | ⟨r, rfl, rfl⟩
    · exact ⟨⟨by simp [new], by simp [new]⟩, rfl⟩
    · exact ⟨⟨by simp [reset], by simp [reset]⟩, rfl⟩
  obtain ⟨hholds, hmax⟩ := hfresh.1.feedPartials partials
  rw [hfresh.2] at hmax
  rw [hholds.feed_full, hholds.pending, hmax]
  generalize partials.flatten = arrived
  by_cases hempty : arrived = []
  · simp [hempty]
  · by_cases hzero : maxMessageSize = 0
    · subst hzero
      cases last with
      | nil => simp [resultOf]
      | cons b rest => simp [resultOf]
    · simp [hempty, hzero]

/-- Two partial lines and a full one, cut to three bytes. -/
theorem reassembles_truncated :
    (((new 3).feedPartials [[0x61], [0x62]]).feed [0x63, 0x64] true).1
      = resultOf 3 [0x61, 0x62, 0x63, 0x64] :=
  (reassembles_iff 3 (new 3) (.inl rfl) [[0x61], [0x62]] [0x63, 0x64]).mpr (by decide)

/-- With a maximum of zero a message that ends in an empty piece is
reported as complete. -/
theorem zero_maximum_hides_truncation :
    (((new 0).feedPartials [[0x61]]).feed [] true).1 = .complete []
      ∧ resultOf 0 ([[0x61]].flatten ++ []) = .truncated [] := by
  decide

end FastForward.Core.CriReassembler
