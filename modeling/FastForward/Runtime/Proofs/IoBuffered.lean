/-
Checkpoints on the shared-buffer path. The buffer holds all that a poll
has read before anything of it is sent, so checkpoints do not run ahead of
their chunk, as they do where events carry their bytes
(`IoCheckpoints.lean`).
-/
import FastForward.Runtime.IoBuffered
import FastForward.Runtime.Proofs.IoCheckpoints

namespace FastForward.Runtime

open Lib Pipeline Io List

-- == one poll

variable (env : IoEnv SourceByte SourceBatch) (view : SourceView)
  (st : IoState SourceByte SourceBatch) (events : List FramedReadEvent)

/-- Attribution moves no bytes. -/
theorem foldl_noteBuffered :
    (events.foldl (noteBuffered env view) st).buf = st.buf
      ∧ (events.foldl (noteBuffered env view) st).tx = st.tx := by
  refine foldlRecOn (motive := fun s : IoState _ _ => s.buf = st.buf ∧ s.tx = st.tx) events _
    ⟨rfl, rfl⟩ fun s hs event _ => ?_
  cases event with
  | data start stop sourceId cri =>
    simp only [noteBuffered]
    split <;> exact hs
  | rotated sourceId | truncated sourceId => exact hs

/-- A poll keeps the buffer, or flushes it. -/
theorem processBufferedEvents_cases (now : Nat) (wasEmpty : Bool) :
    ∃ st' : IoState SourceByte SourceBatch, st'.buf = st.buf ∧ st'.tx = st.tx
      ∧ (processBufferedEvents env view now wasEmpty st events = (true, st')
        ∨ processBufferedEvents env view now wasEmpty st events
          = afterFlush (flushBuf env view st')) := by
  obtain ⟨hbuf, htx⟩ := foldl_noteBuffered env view st events
  simp only [processBufferedEvents]
  split
  · exact ⟨_, hbuf, htx, .inr rfl⟩
  · split
    · exact ⟨{ events.foldl _ st with bufferedSince := some now }, hbuf, htx, .inl rfl⟩
    · exact ⟨_, hbuf, htx, .inl rfl⟩

-- == runs

/-- What every operation keeps. -/
structure IoRun.Covering (base : SourceId → Nat) (r : IoRun) : Prop where
  settled : r.Settled
  covered : Consecutive base r.read → Covered base r.st.tx.sent

namespace IoRun.Covering

variable {env} {base : SourceId → Nat} {r : IoRun}

theorem flush (h : r.Covering base) (active : List SourceId)
    (paths : List (SourceId × String)) :
    (IoOp.step env base r (.flush active paths)).Covering base := by
  refine ⟨Settled.step h.settled _, fun hcons => ?_⟩
  have hread : (IoOp.step env base r (.flush active paths)).read = r.read := by
    unfold IoOp.step
    split <;> rfl
  rw [hread] at hcons
  refine (step_covered_iff h.settled (.flush active paths) (fun _ => ?_) trivial).mpr
    ⟨h.covered hcons, trivial⟩
  rwa [IoOp.bytes, append_nil]

theorem step (h : r.Covering base) (op : BufferedOp) : (op.step env base r).Covering base := by
  cases op with
  | flush active paths => exact h.flush active paths
  | pollInto bytes events isShutdown active paths now =>
    simp only [BufferedOp.step]
    by_cases hcl : r.closed
    · rwa [if_pos hcl]
    · -- the bytes of the poll are in the buffer before anything is sent
      have hr : itemsBytes r.st.tx.sent ++ (r.st.buf ++ bytes) = r.read ++ bytes := by
        rw [← h.settled (by simpa using hcl), append_assoc]
      rw [if_neg hcl]
      split
      · exact ⟨fun _ => hr, fun hcons => h.covered hcons.left⟩
      · obtain ⟨st', hbuf, htx, hres⟩ := processBufferedEvents_cases env
          (viewOf base (r.read ++ bytes) active paths) { r.st with buf := r.st.buf ++ bytes }
          events now r.st.buf.isEmpty
        have hpolled : IoRun.Covering base ⟨st', r.read ++ bytes, false⟩ := by
          refine ⟨fun _ => ?_, fun hcons => ?_⟩
          · rw [hbuf, htx]
            exact hr
          · rw [htx]
            exact h.covered hcons.left
        rcases hres with hres | hres
        · rw [hres]
          exact hpolled
        · rw [hres]
          exact hpolled.flush active paths

end IoRun.Covering

end FastForward.Runtime
