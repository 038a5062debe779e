/-
What is left of the batches that the segment log accepts.

A call that fails drops the batches of the open segment that it has not
sealed (`content_append`). So what is in the segments after a last flush
is what was accepted, less what calls have dropped when they failed.
-/
import FastForward.Io.Segment
import FastForward.Lib.Run
import FastForward.Lib.Transducer

namespace FastForward.Io.Segment

open Lib List

variable {ρ : Type}

namespace SegmentManager

variable (m : SegmentManager ρ) (c : Call ρ)

theorem sealed_flush : m.flush.sealed.flatten = m.content := by
  unfold flush content rotate
  cases m.current <;> simp

variable {c} in
theorem batches_append {w w' : SegmentWriter ρ} (h : w.append c = some w') :
    w'.batches = w.batches ++ [c.batch].filter (!·.isEmpty) := by
  unfold SegmentWriter.append at h
  grind

theorem content_writeTo (w : SegmentWriter ρ) :
    if (m.writeTo c w).2 then (m.writeTo c w).1.content
      = m.sealed.flatten ++ w.batches ++ [c.batch].filter (!·.isEmpty)
    else (m.writeTo c w).1.content = m.sealed.flatten := by
  unfold writeTo content
  cases h : w.append c with
  | none => simp
  | some w' => simp [batches_append h]

/-- A call that fails drops the batches it has not sealed. -/
theorem content_append :
    if (m.append c).2 then (m.append c).1.content = m.content ++ [c.batch].filter (!·.isEmpty)
    else m.content = (m.append c).1.content ++ m.unsealed c := by
  unfold append unsealed
  cases hcurrent : m.current with
  | none =>
    have hnew := m.content_writeTo c {}
    grind [write, content]
  | some w =>
    have hold := m.content_writeTo c w
    have hnew := (m.rotate w true).content_writeTo c {}
    grind [write, content, rotate]

end SegmentManager

open SegmentManager

/-- When a call fails, and over what. -/
theorem failsEmpty_iff (m : SegmentManager ρ) (c : Call ρ) :
    m.FailsEmpty c ↔ ((m.append c).2 = false → m.unsealed c = []) := by
  have hfails (m : SegmentManager ρ) (w : SegmentWriter ρ) :
      (m.writeTo c w).2 = false ↔ c.FailsOn w := by
    unfold writeTo SegmentWriter.append Call.FailsOn
    grind
  unfold FailsEmpty unsealed append
  cases hcurrent : m.current with
  | none => simp
  | some w =>
    have hwrite : (m.write c).2 = false ↔ c.FailsOn w := by
      rw [write, hcurrent]
      exact hfails m w
    simp only [Option.mem_some_iff, forall_eq', Option.elim_some]
    by_cases hdue : m.isDue c w
    · cases hsealed : c.isSealed <;> simp [hdue]
    · simp [hdue, hwrite]

theorem run_content (m : SegmentManager ρ) (calls : List (Call ρ)) :
    let r := Transducer.run accept m calls
    r.1.content.length ≤ (m.content ++ r.2.filter (!·.isEmpty)).length
      ∧ (r.1.content = m.content ++ r.2.filter (!·.isEmpty)
        ↔ StepsMeet (fun c m => some (m.append c).1) FailsEmpty m calls) := by
  induction calls generalizing m with
  | nil => simp [StepsMeet]
  | cons c calls ih =>
    have hstep := m.content_append c
    specialize ih (m.append c).1
    rw [Transducer.run_cons]
    simp only [StepsMeet, failsEmpty_iff, Option.some.injEq, forall_eq', accept] at ih ⊢
    rw [← ih.2]
    generalize Transducer.run accept (m.append c).1 calls = r at ih ⊢
    cases hok : (m.append c).2 with
    | true =>
      rw [hok, if_pos rfl] at hstep
      rw [if_pos rfl, filter_append, ← append_assoc, ← hstep]
      simpa using ih.1
    | false =>
      rw [hok, if_neg Bool.false_ne_true] at hstep
      rw [hstep, forall_prop_of_true rfl]
      simp only [length_append] at ih ⊢
      refine ⟨by simp; omega, fun h => ?_, ?_⟩
      · have hlen := congrArg length h
        simp at hlen
        have hnone : m.unsealed c = [] := length_eq_zero_iff.mp (by omega)
        simpa [hnone] using h
      · rintro ⟨hnone, h⟩
        simpa [hnone] using h

/-- After sealing, the segments contain every batch that was accepted, in
order, exactly when no call failed over batches in the open segment. -/
theorem accepted_batches_sealed_iff (maxBytes : Nat) (calls : List (Call ρ)) :
    let r := Transducer.run accept { maxBytes := maxBytes } calls
    r.2.filter (!·.isEmpty) <+ r.1.flush.sealed.flatten
      ↔ StepsMeet (fun c m => some (m.append c).1) FailsEmpty { maxBytes := maxBytes } calls := by
  obtain ⟨hle, hiff⟩ := run_content { maxBytes := maxBytes } calls
  intro r
  rw [sealed_flush, ← hiff]
  exact ⟨fun h => (h.eq_of_length_le hle).symm, fun h => h ▸ .refl _⟩

/-- The second call fails in the file system, and the batch of the first
is in no segment. -/
theorem failed_append_drops_accepted_batch :
    let r := Transducer.run accept { maxBytes := 256 * 1024 * 1024 }
      [⟨[1], false, true, true, some 512, true⟩, ⟨[2], false, true, true, some 512, false⟩]
    r.2 = [[1]] ∧ r.1.flush.sealed = [] := by
  decide

/-- Whatever fails, the segments contain accepted batches only, in order
and each once. -/
theorem sealed_sublist_accepted (maxBytes : Nat) (calls : List (Call ρ)) :
    let r := Transducer.run accept { maxBytes := maxBytes } calls
    r.1.flush.sealed.flatten <+ r.2 := by
  suffices h : ∀ m : SegmentManager ρ,
      (Transducer.run accept m calls).1.content
        <+ m.content ++ (Transducer.run accept m calls).2 by
    intro r
    rw [sealed_flush]
    exact h _
  induction calls with
  | nil => simp
  | cons c calls ih =>
    intro m
    have hstep := m.content_append c
    rw [Transducer.run_cons, ← append_assoc]
    refine (ih _).trans (.append_right ?_ _)
    unfold accept
    split at hstep
    next hok =>
      rw [hstep, if_pos hok]
      exact filter_sublist.append_left _
    next => simp [hstep]

end FastForward.Io.Segment
