/-
How the sinks classify HTTP responses (`http_classify.rs`). What a
`Retry-After` header says is a parameter.
-/
import FastForward.Output.Sink

namespace FastForward.Output

def defaultRetryAfter : Duration := 5 * 1000000000

abbrev IsSuccess (status : Nat) : Prop := 200 ≤ status ∧ status < 300

/-- A success is left to the caller. -/
def classifyHttpStatus (status : Nat) (retryAfter : Option Duration) (detail : String) :
    Option SendResult :=
  if IsSuccess status then none
  else if status = 429 then some (.retryAfter (retryAfter.getD defaultRetryAfter))
  else if status = 408 then some (.retryAfter (retryAfter.getD defaultRetryAfter))
  else if 500 ≤ status ∧ status < 600 then
    match retryAfter with
    | some delay => some (.retryAfter delay)
    | none => some (.ioError ⟨.other, s!"server error (HTTP {status}): {detail}"⟩)
  else if 400 ≤ status ∧ status < 500 then some (.rejected s!"HTTP {status}: {detail}")
  else if 300 ≤ status ∧ status < 400 then some (.rejected s!"HTTP {status}: {detail}")
  else some (.ioError ⟨.other, s!"unexpected HTTP {status}: {detail}"⟩)

/-- Redirections, and client errors that say nothing of a later try. -/
abbrev IsPermanent (status : Nat) : Prop :=
  300 ≤ status ∧ status < 500 ∧ status ≠ 408 ∧ status ≠ 429

theorem classifyHttpStatus_of_isPermanent {status : Nat} (h : IsPermanent status)
    (retryAfter : Option Duration) (detail : String) :
    classifyHttpStatus status retryAfter detail = some (.rejected s!"HTTP {status}: {detail}") := by
  obtain ⟨hge, hlt, htimeout, hlimit⟩ := h
  have hsuccess : ¬ IsSuccess status := by omega
  have hserver : ¬ (500 ≤ status ∧ status < 600) := by omega
  unfold classifyHttpStatus
  rw [if_neg hsuccess, if_neg hlimit, if_neg htimeout, if_neg hserver]
  by_cases hclient : 400 ≤ status ∧ status < 500
  · rw [if_pos hclient]
  · have hredirect : 300 ≤ status ∧ status < 400 := by omega
    rw [if_neg hclient, if_pos hredirect]

/-- Any other failure is retried. -/
theorem classifyHttpStatus_of_not_isPermanent {status : Nat} (hsuccess : ¬ IsSuccess status)
    (h : ¬ IsPermanent status) (retryAfter : Option Duration) (detail : String) :
    (∃ delay, classifyHttpStatus status retryAfter detail = some (.retryAfter delay))
      ∨ ∃ e, classifyHttpStatus status retryAfter detail = some (.ioError e) ∧ e.kind = .other := by
  unfold classifyHttpStatus
  rw [if_neg hsuccess]
  by_cases hlimit : status = 429
  · rw [if_pos hlimit]
    exact Or.inl ⟨_, rfl⟩
  rw [if_neg hlimit]
  by_cases htimeout : status = 408
  · rw [if_pos htimeout]
    exact Or.inl ⟨_, rfl⟩
  rw [if_neg htimeout]
  by_cases hserver : 500 ≤ status ∧ status < 600
  · rw [if_pos hserver]
    cases retryAfter with
    | some delay => exact Or.inl ⟨delay, rfl⟩
    | none => exact Or.inr ⟨_, rfl, rfl⟩
  · have hclient : ¬ (400 ≤ status ∧ status < 500) := by omega
    have hredirect : ¬ (300 ≤ status ∧ status < 400) := by omega
    rw [if_neg hserver, if_neg hclient, if_neg hredirect]
    exact Or.inr ⟨_, rfl, rfl⟩

end FastForward.Output
