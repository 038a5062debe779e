/-
Which permanent failures end the worker's retry loop.

An answer 413 to a single row is an I/O error of the attempt, which is not
split further and outweighs every other outcome when halves are merged, so
`send_batch` returns it as it is. An encoding error of the OTAP sink is
returned without the conversion. The worker retries both for ever.
-/
import FastForward.Output.Permanent

namespace FastForward.Output

open Core List

-- == Elasticsearch

namespace Elasticsearch

/-- The attempt has failed on the way. -/
def SendAttempt.IsIoError (attempt : SendAttempt) : Prop :=
  ∃ pending rejections error, attempt = .ioError pending rejections error

theorem mergeSplitAttempts_isIoError {left right : SendAttempt}
    (h : left.IsIoError ∨ right.IsIoError) : (mergeSplitAttempts left right).IsIoError := by
  rcases h with ⟨_, _, _, rfl⟩ | ⟨_, _, _, rfl⟩
  · cases right <;> exact ⟨_, _, _, rfl⟩
  · cases left <;> exact ⟨_, _, _, rfl⟩

variable {attempt : SendAttempt}

theorem labelAttemptRejections_isIoError (h : attempt.IsIoError)
    (label : String) : (labelAttemptRejections label attempt).IsIoError := by
  obtain ⟨_, _, _, rfl⟩ := h
  exact ⟨_, _, _, rfl⟩

/-- An answer 413 to a request with one row. -/
def Event.IsSingleRowTooLarge (e : Event) : Prop :=
  ∃ row retryAfter text body, e = .request [row] (.response 413 retryAfter text body)

/-- With such an answer the attempt has failed. -/
def Keeps413 (out : SendAttempt × List Event) : Prop :=
  (∃ e ∈ out.2, e.IsSingleRowTooLarge) → out.1.IsIoError

theorem Keeps413.of_nil (attempt : SendAttempt) : Keeps413 (attempt, []) := by
  rintro ⟨_, he, -⟩
  cases he

theorem Keeps413.unsent (batch : List Nat) (attempt : SendAttempt) :
    Keeps413 (unsent batch attempt) := by
  cases attempt with
  | rejected rejections accepted =>
    rintro ⟨e, he, row, retryAfter, text, body, rfl⟩
    cases mem_singleton.mp he
  | ok | retryAfter _ _ _ _ | ioError _ _ _ => exact .of_nil _

theorem Keeps413.halves {sendInner : List Nat → List Nat → SendAttempt × List Event}
    (h : ∀ rowIds, Keeps413 (sendInner rowIds rowIds)) (rowIds : List Nat) :
    Keeps413 (sendSplitHalves sendInner rowIds rowIds) := by
  rintro ⟨e, he, htooLarge⟩
  refine mergeSplitAttempts_isIoError ?_
  rcases mem_append.mp he with he | he
  · exact .inl (labelAttemptRejections_isIoError (h _ ⟨e, he, htooLarge⟩) _)
  · exact .inr (labelAttemptRejections_isIoError (h _ ⟨e, he, htooLarge⟩) _)

variable {split : Option (List Nat → List Nat → SendAttempt × List Event)} {rowIds : List Nat}

theorem Keeps413.request
    (hsplit : ∀ sendInner, split = some sendInner → ∀ rowIds, Keeps413 (sendInner rowIds rowIds))
    {answer : Answer}
    (h : ∀ retryAfter text body, answer = .response 413 retryAfter text body → attempt.IsIoError) :
    Keeps413 ((splitOn413 split rowIds rowIds attempt).1,
      .request rowIds answer :: (splitOn413 split rowIds rowIds attempt).2) := by
  rintro ⟨e, he, htooLarge⟩
  rcases mem_cons.mp he with rfl | he
  · obtain ⟨row, retryAfter, text, body, heq⟩ := htooLarge
    cases heq
    obtain ⟨pending, rejections, error, rfl⟩ := h retryAfter text body rfl
    refine ⟨pending, rejections, error, ?_⟩
    cases split with
    | none => rfl
    | some sendInner =>
      have hone : ¬ (error.kind = .invalidInput ∧ 1 < [row].length) := fun h =>
        Nat.lt_irrefl 1 h.2
      rw [splitOn413, if_neg hone]
  · revert he
    unfold splitOn413
    split
    next pending rejections error sendInner =>
      split
      · exact fun he => Keeps413.halves (hsplit sendInner rfl) rowIds ⟨e, he, htooLarge⟩
      · exact fun he => absurd he not_mem_nil
    next => exact fun he => absurd he not_mem_nil

theorem attemptFromFailure_413 (what : String) (rowIds : List Nat) (retryAfter : Option Duration)
    (text : Option String) : (attemptFromFailure what rowIds 413 retryAfter text).IsIoError :=
  ⟨_, _, _, rfl⟩

theorem sendOrSplit_keeps413 (call : Call) (hsplit : ∀ sendInner, split = some sendInner →
      ∀ rowIds, Keeps413 (sendInner rowIds rowIds)) (rowIds : List Nat) :
    Keeps413 (sendOrSplit call split rowIds rowIds) := by
  have hnot : ¬ IsSuccess 413 := by decide
  unfold sendOrSplit
  by_cases hnil : rowIds = []
  · rw [if_pos hnil]
    exact .of_nil _
  · rw [if_neg hnil]
    cases call.config.requestMode with
    | streaming =>
      refine .request hsplit fun retryAfter text body hanswer => ?_
      rw [doSendStreaming, hanswer]
      dsimp only
      rw [if_neg hnot]
      exact attemptFromFailure_413 _ _ _ _
    | buffered =>
      cases call.serializeBatch rowIds with
      | error e => exact .unsent rowIds _
      | ok payload =>
        dsimp only
        split
        · exact .of_nil _
        split
        · cases hs : split with
          | none => exact .unsent rowIds _
          | some sendInner =>
            dsimp only
            split
            · exact .halves (hsplit sendInner hs) rowIds
            · exact .unsent rowIds _
        · cases if call.config.compress then call.gzip payload else .ok payload with
          | error error => exact .of_nil _
          | ok compressed =>
            refine .request hsplit fun retryAfter text body hanswer => ?_
            unfold doSend
            rw [hanswer]
            dsimp only
            rw [if_neg hnot]
            exact attemptFromFailure_413 _ _ _ _

/-- Whatever is split, a 413 is not lost. -/
theorem sendBatchInner_keeps413 (call : Call) (splitsLeft : Nat) (rowIds : List Nat) :
    Keeps413 (sendBatchInner call splitsLeft rowIds rowIds) := by
  induction splitsLeft generalizing rowIds with
  | zero => exact sendOrSplit_keeps413 call (fun _ heq => by cases heq) rowIds
  | succ splitsLeft ih =>
    refine sendOrSplit_keeps413 call (fun sendInner heq => ?_) rowIds
    cases heq
    exact ih

variable {numRows : Nat}

/-- A projection keeps the rows. -/
theorem projectBatchRows_ok {take : Except String Unit} {batch : List Nat}
    (h : projectBatchRows numRows take rowIds = .ok batch) : batch = rowIds := by
  unfold projectBatchRows at h
  by_cases hall : rowIds = range numRows
  · rw [if_pos hall] at h
    cases h
    exact hall.symm
  · rw [if_neg hall] at h
    cases hfind : rowIds.find? (numRows ≤ ·) with
    | some rowId =>
      rw [hfind] at h
      cases h
    | none =>
      rw [hfind] at h
      cases take <;> cases h
      rfl

variable {call : Call} {sink : ElasticsearchSink}

/-- A call that gets as far as a request. -/
theorem sendBatch_of_projected (hne : sink.rowIds numRows ≠ [])
    (h : projectBatchRows numRows call.take (sink.rowIds numRows) = .ok (sink.rowIds numRows)) :
    sink.sendBatch call numRows
      = (ElasticsearchSink.finishAttempt sink.pendingRejections
          (sendBatchInner call maxSplitDepth (sink.rowIds numRows) (sink.rowIds numRows)).1,
        (sendBatchInner call maxSplitDepth (sink.rowIds numRows) (sink.rowIds numRows)).2) := by
  unfold ElasticsearchSink.sendBatch
  rw [if_neg hne, h]

/-- A call that has made a request did get as far. -/
theorem projected_of_request {rows : List Nat} {answer : Answer}
    (h : .request rows answer ∈ (sink.sendBatch call numRows).2) :
    sink.rowIds numRows ≠ []
      ∧ projectBatchRows numRows call.take (sink.rowIds numRows) = .ok (sink.rowIds numRows) := by
  unfold ElasticsearchSink.sendBatch at h
  by_cases hnil : sink.rowIds numRows = []
  · rw [if_pos hnil] at h
    cases h
  · rw [if_neg hnil] at h
    refine ⟨hnil, ?_⟩
    cases hproject : projectBatchRows numRows call.take (sink.rowIds numRows) with
    | ok batch => rw [projectBatchRows_ok hproject]
    | error error =>
      rw [hproject] at h
      dsimp only at h
      split at h
      · cases mem_singleton.mp h
      · cases h

/-- `send_batch` returns an answer 413 to a single row as an I/O error. -/
theorem sendBatch_singleRowTooLarge
    (h : ∃ e ∈ (sink.sendBatch call numRows).2, e.IsSingleRowTooLarge) :
    ∃ error, (sink.sendBatch call numRows).1.2 = .ioError error := by
  obtain ⟨e, he, row, retryAfter, text, body, rfl⟩ := h
  obtain ⟨hne, hproject⟩ := projected_of_request he
  rw [sendBatch_of_projected hne hproject] at he ⊢
  obtain ⟨pending, rejections, error, hattempt⟩ :=
    sendBatchInner_keeps413 call maxSplitDepth _ ⟨_, he, row, retryAfter, text, body, rfl⟩
  refine ⟨error, ?_⟩
  rw [hattempt]
  rfl

theorem isRejected_settle {rejections : List String} (h : rejections ≠ []) :
    (ElasticsearchSink.settle rejections).2.isRejected := by
  unfold ElasticsearchSink.settle finishSuccessOrReject
  rw [if_neg h]
  rfl

theorem sendBatch_of_rejected (hne : sink.rowIds numRows ≠ [])
    (hproject : projectBatchRows numRows call.take (sink.rowIds numRows)
      = .ok (sink.rowIds numRows)) {rejection : String} {accepted : Nat}
    (h : (sendBatchInner call maxSplitDepth (sink.rowIds numRows) (sink.rowIds numRows)).1
      = .rejected [rejection] accepted) : (sink.sendBatch call numRows).1.2.isRejected := by
  rw [sendBatch_of_projected hne hproject, h]
  refine isRejected_settle fun hnil => ?_
  cases (append_eq_nil_iff.mp hnil).2

variable {e : IoError}

theorem fromIoError_of_isPermanent (h : e.IsPermanent) :
    SendResult.fromIoError e = .rejected e.message := by
  unfold SendResult.fromIoError
  rcases h with h | h <;> rw [h]

theorem ne_nil_of_serializeBatch (h : call.serializeBatch rowIds = .error e) : rowIds ≠ [] := by
  rintro rfl
  cases h

theorem sendBatchInner_encodingFails (hmode : call.config.requestMode = .buffered)
    (hne : rowIds ≠ [])
    (hserialized : call.serializeBatch rowIds = .error e) (he : e.IsPermanent) (splitsLeft : Nat) :
    (sendBatchInner call (splitsLeft + 1) rowIds rowIds).1 = .rejected [e.message] 0 := by
  unfold sendBatchInner sendOrSplit
  rw [if_neg hne]
  rw [hmode, hserialized]
  dsimp only
  rw [fromIoError_of_isPermanent he]
  rfl

-- === streamed bodies

/-- Whether an attempt that leaves nothing to be sent again has rejected
rows. -/
def SendAttempt.verdict : SendAttempt → Option Bool
  | .ok => some false
  | .rejected rejections _ => some !rejections.isEmpty
  | .retryAfter _ _ _ _ | .ioError _ _ _ => none

@[simp] theorem verdict_label (label : String) (attempt : SendAttempt) :
    (labelAttemptRejections label attempt).verdict = attempt.verdict := by
  cases attempt with
  | rejected rejections accepted => cases rejections <;> rfl
  | ok | retryAfter _ _ _ _ | ioError _ _ _ => rfl

/-- Both halves have to be settled. -/
theorem verdict_merge_isSome (left right : SendAttempt) :
    (mergeSplitAttempts left right).verdict.isSome = true
      ↔ left.verdict.isSome = true ∧ right.verdict.isSome = true := by
  cases left <;> cases right <;> simp [mergeSplitAttempts, SendAttempt.verdict]

theorem verdict_merge_eq_true (left right : SendAttempt) :
    (mergeSplitAttempts left right).verdict = some true
      ↔ (left.verdict.isSome = true ∧ right.verdict.isSome = true)
        ∧ (left.verdict = some true ∨ right.verdict = some true) := by
  cases left <;> cases right <;>
    simp [mergeSplitAttempts, SendAttempt.verdict, or_iff_not_imp_left]

/-- What comes of one streamed request. -/
def Call.streamed (call : Call) (rows : List Nat) : SendAttempt :=
  doSendStreaming rows (call.serializeBatch rows) (call.exchange rows)

theorem bulkAttemptFromResult_ne_ioError (rows : List Nat) (result : BulkItemResult)
    (pending : List Nat) (rejections : List String) (error : IoError) :
    bulkAttemptFromResult rows result ≠ .ioError pending rejections error := by
  unfold bulkAttemptFromResult
  split
  · exact nofun
  split
  · exact nofun
  dsimp only
  split <;> exact nofun

theorem kind_of_attemptFromBody {rows pending : List Nat} {response : Body}
    {rejections : List String} {error : IoError}
    (h : attemptFromBody rows response = .ioError pending rejections error) :
    error.kind ≠ .invalidInput := by
  unfold attemptFromBody at h
  split at h
  · exact absurd h (bulkAttemptFromResult_ne_ioError _ _ _ _ _)
  next e heq =>
    unfold SendResult.fromIoError at h
    split at h
    · cases h
    · cases h
    next hinput hdata =>
      cases h
      exact hinput

theorem kind_of_attemptFromFailure {what : String} {rows pending : List Nat} {status : Nat}
    {retryAfter : Option Duration} {text : Option String} {rejections : List String}
    {error : IoError} (hsuccess : ¬ IsSuccess status) (hlarge : status ≠ 413)
    (h : attemptFromFailure what rows status retryAfter text
      = .ioError pending rejections error) : error.kind ≠ .invalidInput := by
  unfold attemptFromFailure at h
  rw [if_neg hlarge] at h
  dsimp only at h
  generalize text.getD "<unreadable>" = detail at h
  by_cases hpermanent : IsPermanent status
  · rw [classifyHttpStatus_of_isPermanent hpermanent] at h
    cases h
  · rcases classifyHttpStatus_of_not_isPermanent hsuccess hpermanent retryAfter
      s!"ES: {detail}" with ⟨delay, hdelay⟩ | ⟨e, he, hkind⟩
    · rw [hdelay] at h
      cases h
    · rw [he] at h
      cases h
      rw [hkind]
      exact nofun

theorem not_isTooLarge {answer : Answer} (h : answer.isTooLarge = false) {status : Nat}
    {retryAfter : Option Duration} {text : Option String} {body : Except String Body}
    (heq : answer = .response status retryAfter text body) : status ≠ 413 := by
  rw [heq] at h
  exact ne_of_beq_false h

/-- Of the errors of a streamed request only a 413 asks for a split. -/
theorem kind_of_streamed {rows pending : List Nat} {rejections : List String} {error : IoError}
    (hlarge : (call.exchange rows).answer.isTooLarge = false)
    (h : call.streamed rows = .ioError pending rejections error) :
    error.kind ≠ .invalidInput := by
  unfold Call.streamed doSendStreaming at h
  cases hanswer : (call.exchange rows).answer with
  | transportError message =>
    rw [hanswer] at h
    cases h
    exact nofun
  | response status retryAfter text body =>
    rw [hanswer] at h
    dsimp only at h
    by_cases hsuccess : IsSuccess status
    · rw [if_pos hsuccess] at h
      split at h
      · cases h
        exact nofun
      next response producerError hproducer =>
        split at h
        · cases h
        · cases h
          unfold streamingProducerError at hproducer
          split at hproducer <;> cases hproducer <;> exact nofun
      · exact kind_of_attemptFromBody h
    · rw [if_neg hsuccess] at h
      exact kind_of_attemptFromFailure hsuccess (not_isTooLarge hlarge hanswer) h

theorem splitOn413_streamed (hlarge : ¬ ((call.exchange rowIds).answer.isTooLarge = true
      ∧ 1 < rowIds.length)) :
    splitOn413 split rowIds rowIds (call.streamed rowIds) = (call.streamed rowIds, []) := by
  unfold splitOn413
  split
  next pending rejections error sendInner heq =>
    refine if_neg fun ⟨hkind, hlength⟩ => ?_
    cases hanswer : (call.exchange rowIds).answer.isTooLarge with
    | true => exact hlarge ⟨hanswer, hlength⟩
    | false => exact kind_of_streamed hanswer heq hkind
  · rfl

theorem splitOn413_tooLarge (hlarge : (call.exchange rowIds).answer.isTooLarge = true)
    (hlength : 1 < rowIds.length) (sendInner : List Nat → List Nat → SendAttempt × List Event) :
    splitOn413 (some sendInner) rowIds rowIds (call.streamed rowIds)
      = sendSplitHalves sendInner rowIds rowIds := by
  have hnot : ¬ IsSuccess 413 := by decide
  unfold Call.streamed doSendStreaming
  cases hanswer : (call.exchange rowIds).answer with
  | transportError message =>
    rw [hanswer] at hlarge
    cases hlarge
  | response status retryAfter text body =>
    rw [hanswer] at hlarge
    obtain rfl : status = 413 := eq_of_beq hlarge
    dsimp only
    rw [if_neg hnot]
    exact if_pos ⟨rfl, hlength⟩

theorem sendOrSplit_streaming (hmode : call.config.requestMode = .streaming) (hne : rowIds ≠ []) :
    (sendOrSplit call split rowIds rowIds).1
      = (splitOn413 split rowIds rowIds (call.streamed rowIds)).1 := by
  unfold sendOrSplit
  rw [if_neg hne, hmode]
  rfl

/-- The attempt is settled if each of the requests is, and has rejected rows
if one of them has. -/
def Call.SumsUp (call : Call) (requests : List (List Nat)) (attempt : SendAttempt) : Prop :=
  (attempt.verdict.isSome = true
      ↔ ∀ rows ∈ requests, (call.streamed rows).verdict.isSome = true)
    ∧ (attempt.verdict = some true
      ↔ (∀ rows ∈ requests, (call.streamed rows).verdict.isSome = true)
        ∧ ∃ rows ∈ requests, (call.streamed rows).verdict = some true)

theorem Call.SumsUp.single (call : Call) (rows : List Nat) :
    call.SumsUp [rows] (call.streamed rows) := by
  unfold SumsUp
  simp only [mem_singleton, forall_eq, exists_eq_left, iff_and_self, true_and]
  intro htrue
  rw [htrue]
  rfl

theorem Call.SumsUp.merge {left right : List (List Nat)} {leftAttempt rightAttempt : SendAttempt}
    (hleft : call.SumsUp left leftAttempt) (hright : call.SumsUp right rightAttempt)
    (leftLabel rightLabel : String) :
    call.SumsUp (left ++ right) (mergeSplitAttempts (labelAttemptRejections leftLabel leftAttempt)
      (labelAttemptRejections rightLabel rightAttempt)) := by
  unfold SumsUp
  rw [verdict_merge_isSome, verdict_merge_eq_true, verdict_label, verdict_label, hleft.1, hleft.2,
    hright.1, hright.2, forall_mem_append]
  refine ⟨Iff.rfl, and_congr_right fun ⟨hl, hr⟩ => ?_⟩
  rw [and_iff_right hl, and_iff_right hr]
  simp only [mem_append, or_and_right, exists_or]

/-- A split batch comes to what its last requests do. -/
theorem sendBatchInner_sumsUp (hmode : call.config.requestMode = .streaming) (splitsLeft : Nat)
    (hne : rowIds ≠ []) :
    call.SumsUp (call.lastRequests splitsLeft rowIds)
      (sendBatchInner call splitsLeft rowIds rowIds).1 := by
  induction splitsLeft generalizing rowIds with
  | zero =>
    have hsent : (sendBatchInner call 0 rowIds rowIds).1 = call.streamed rowIds := by
      rw [sendBatchInner, sendOrSplit_streaming hmode hne]
      cases call.streamed rowIds <;> rfl
    rw [hsent]
    exact .single call rowIds
  | succ splitsLeft ih =>
    rw [sendBatchInner, sendOrSplit_streaming hmode hne, Call.lastRequests]
    by_cases hsplit : (call.exchange rowIds).answer.isTooLarge = true ∧ 1 < rowIds.length
    · have hleft : rowIds.take (rowIds.length / 2) ≠ [] := by
        rw [← length_pos_iff, length_take]
        omega
      have hright : rowIds.drop (rowIds.length / 2) ≠ [] := by
        rw [← length_pos_iff, length_drop]
        omega
      rw [if_pos hsplit, splitOn413_tooLarge hsplit.1 hsplit.2]
      exact (ih hleft).merge (ih hright) _ _
    · rw [if_neg hsplit, splitOn413_streamed hsplit]
      exact .single call rowIds

/-- A rejection has a reason. -/
theorem attemptFromBody_ne_rejected_nil (rows : List Nat) (response : Body) (accepted : Nat) :
    attemptFromBody rows response ≠ .rejected [] accepted := by
  unfold attemptFromBody
  split
  next result _ =>
    unfold bulkAttemptFromResult
    split
    · exact nofun
    next hfailed =>
      split
      · exact nofun
      dsimp only
      split
      next hretry =>
        intro h
        injection h with hnil
        exact hfailed ⟨hretry, hnil⟩
      · exact nofun
  · unfold SendResult.fromIoError
    split <;> exact nofun

theorem verdict_eq_false_iff (h : ∀ accepted, attempt ≠ .rejected [] accepted) :
    attempt.verdict = some false ↔ attempt = .ok := by
  cases attempt with
  | rejected rejections accepted =>
    cases rejections with
    | nil => exact absurd rfl (h accepted)
    | cons => simp [SendAttempt.verdict]
  | ok | retryAfter _ _ _ _ | ioError _ _ _ => simp [SendAttempt.verdict]

theorem verdict_eq_true_iff (h : ∀ accepted, attempt ≠ .rejected [] accepted) :
    attempt.verdict = some true
      ↔ ∃ rejections accepted, attempt = .rejected rejections accepted := by
  cases attempt with
  | rejected rejections accepted =>
    cases rejections with
    | nil => exact absurd rfl (h accepted)
    | cons => simp [SendAttempt.verdict]
  | ok | retryAfter _ _ _ _ | ioError _ _ _ => simp [SendAttempt.verdict]

theorem streamingProducerError_eq_none_iff (rows : List Nat) :
    streamingProducerError (call.exchange rows).producer (call.serializeBatch rows) = none
      ↔ call.Produced rows := by
  unfold streamingProducerError Call.Produced
  cases (call.exchange rows).producer <;> cases call.serializeBatch rows <;>
    simp [Except.isOk, Except.toBool]

/-- A failure is settled by a permanent status other than 413. -/
theorem attemptFromFailure_verdict {status : Nat} (hsuccess : ¬ IsSuccess status) (what : String)
    (rows : List Nat) (retryAfter : Option Duration) (text : Option String) :
    (attemptFromFailure what rows status retryAfter text).verdict
      = if IsPermanent status ∧ status ≠ 413 then some true else none := by
  unfold attemptFromFailure
  generalize text.getD "<unreadable>" = detail
  by_cases hlarge : status = 413
  · rw [if_pos hlarge, if_neg fun h => h.2 hlarge]
    rfl
  rw [if_neg hlarge]
  dsimp only
  by_cases hpermanent : IsPermanent status
  · rw [classifyHttpStatus_of_isPermanent hpermanent, if_pos ⟨hpermanent, hlarge⟩]
    rfl
  · rw [if_neg fun h => hpermanent h.1]
    rcases classifyHttpStatus_of_not_isPermanent hsuccess hpermanent retryAfter
      s!"ES: {detail}" with ⟨delay, hdelay⟩ | ⟨e, he, -⟩
    · rw [hdelay]
      rfl
    · rw [he]
      rfl

/-- A request is accepted or rejected as its answer says. -/
theorem streamed_verdict (rows : List Nat) :
    ((call.streamed rows).verdict = some false ↔ call.Accepts rows)
      ∧ ((call.streamed rows).verdict = some true ↔ call.Rejects rows) := by
  unfold Call.streamed doSendStreaming Call.Accepts Call.Rejects
  cases hanswer : (call.exchange rows).answer with
  | transportError message => simp [SendAttempt.verdict]
  | response status retryAfter text body =>
    dsimp only
    by_cases hsuccess : IsSuccess status
    · have hpermanent : ¬ IsPermanent status := by omega
      rw [if_pos hsuccess]
      cases body with
      | error message => simp [SendAttempt.verdict, hpermanent]
      | ok response =>
        cases hproducer : streamingProducerError (call.exchange rows).producer
            (call.serializeBatch rows) with
        | some error =>
          have hcut : ¬ call.Produced rows := by
            rw [← streamingProducerError_eq_none_iff, hproducer]
            exact nofun
          dsimp only
          by_cases hcount : parseSuccessItemCount response = some rows.length
          · rw [if_pos hcount]
            simpa [SendAttempt.verdict, hpermanent, hcut, hcount] using hsuccess
          · rw [if_neg hcount]
            simp [SendAttempt.verdict, hpermanent, hcut, hcount]
        | none =>
          have hproduced : call.Produced rows :=
            (streamingProducerError_eq_none_iff rows).mp hproducer
          dsimp only
          rw [verdict_eq_false_iff (attemptFromBody_ne_rejected_nil rows response),
            verdict_eq_true_iff (attemptFromBody_ne_rejected_nil rows response)]
          simp [iff_true_intro hsuccess, hpermanent, hproduced]
    · rw [if_neg hsuccess, attemptFromFailure_verdict hsuccess]
      by_cases hrejected : IsPermanent status ∧ status ≠ 413
      · rw [if_pos hrejected]
        simpa [hsuccess, hrejected.2] using hrejected.1
      · rw [if_neg hrejected]
        simp [hsuccess, hrejected]

/-- The result tells whether the batch is settled. -/
theorem finishAttempt_settled (rejections : List String) (attempt : SendAttempt) :
    let result := (ElasticsearchSink.finishAttempt rejections attempt).2
    (result = .ok ∨ result.isRejected = true ↔ attempt.verdict.isSome = true)
      ∧ (result.isRejected = true
        ↔ attempt.verdict.isSome = true ∧ (rejections ≠ [] ∨ attempt.verdict = some true)) := by
  have hsettle : ∀ all, let result := (ElasticsearchSink.settle all).2
      (result = .ok ∨ result.isRejected = true) ∧ (result.isRejected = true ↔ all ≠ []) := by
    intro all
    unfold ElasticsearchSink.settle finishSuccessOrReject
    cases all <;> simp [SendResult.isRejected]
  cases attempt with
  | ok =>
    obtain ⟨hdone, hrejected⟩ := hsettle rejections
    exact ⟨iff_of_true hdone rfl, hrejected.trans (by simp [SendAttempt.verdict])⟩
  | rejected more accepted =>
    obtain ⟨hdone, hrejected⟩ := hsettle (rejections ++ more)
    refine ⟨iff_of_true hdone rfl, hrejected.trans ?_⟩
    simp [SendAttempt.verdict, or_iff_not_imp_left]
  | retryAfter _ _ _ _ | ioError _ _ _ =>
    simp [ElasticsearchSink.finishAttempt, SendResult.isRejected, SendAttempt.verdict]

/-- What comes of a call whose body is streamed. -/
theorem sendBatch_streaming (hmode : call.config.requestMode = .streaming)
    (hne : sink.rowIds numRows ≠ [])
    (hproject : projectBatchRows numRows call.take (sink.rowIds numRows)
      = .ok (sink.rowIds numRows)) :
    let settled := ∀ rows ∈ call.lastRequests maxSplitDepth (sink.rowIds numRows),
      call.Accepts rows ∨ call.Rejects rows
    let result := (sink.sendBatch call numRows).1.2
    (result = .ok ∨ result.isRejected = true ↔ settled)
      ∧ (result.isRejected = true ↔ settled ∧ (sink.pendingRejections ≠ []
        ∨ ∃ rows ∈ call.lastRequests maxSplitDepth (sink.rowIds numRows), call.Rejects rows)) := by
  have hsettled : ∀ rows, (call.streamed rows).verdict.isSome = true
      ↔ call.Accepts rows ∨ call.Rejects rows := by
    intro rows
    rw [← (streamed_verdict rows).1, ← (streamed_verdict rows).2]
    cases (call.streamed rows).verdict with
    | none => simp
    | some verdict => cases verdict <;> simp
  obtain ⟨hsome, htrue⟩ := sendBatchInner_sumsUp hmode maxSplitDepth hne
  simp only [hsettled, (streamed_verdict _).2] at hsome htrue
  obtain ⟨hdone, hrejected⟩ := finishAttempt_settled sink.pendingRejections
    (sendBatchInner call maxSplitDepth (sink.rowIds numRows) (sink.rowIds numRows)).1
  rw [sendBatch_of_projected hne hproject]
  refine ⟨hdone.trans hsome, hrejected.trans ?_⟩
  rw [htrue, hsome]
  exact and_congr_right fun hall => or_congr_right (and_iff_right hall)

end Elasticsearch

-- == sinks

namespace SinkCall

variable {call : Otap.Call}

theorem otap_encodingFails (h : EncodingFails (.otap call)) :
    ∃ error, (SinkCall.otap call).result = .ioError error := by
  obtain ⟨e, hencode, -⟩ := h
  refine ⟨e, ?_⟩
  show call.sendBatch = _
  unfold Otap.Call.sendBatch
  rw [hencode]

theorem otap_singleRowTooLarge (h : SingleRowTooLarge (.otap call)) :
    (SinkCall.otap call).result.isRejected := by
  obtain ⟨-, ⟨protoBuf, payload, hencode, hne, hcompress⟩, retryAfter, text, body, hanswer⟩ := h
  have hsend : ∃ reason, call.doSend = .ok (.rejected reason) := by
    unfold Otap.Call.doSend
    rw [hanswer]
    exact ⟨_, rfl⟩
  obtain ⟨reason, hsend⟩ := hsend
  show call.sendBatch.isRejected = true
  unfold Otap.Call.sendBatch
  rw [hencode]
  dsimp only
  rw [if_neg hne, hcompress, hsend]
  rfl

variable {c : SinkCall}

/-- A batch that cannot be encoded is rejected whole, before a request. -/
theorem buffered_encodingFails {call : Elasticsearch.Call} {numRows : Nat}
    {sink : Elasticsearch.ElasticsearchSink} (hmode : call.config.requestMode = .buffered)
    (h : EncodingFails (.elasticsearch call numRows sink)) :
    (SinkCall.elasticsearch call numRows sink).result.isRejected := by
  obtain ⟨batch, e, hproject, hserialized, he⟩ := h
  obtain rfl := Elasticsearch.projectBatchRows_ok hproject
  exact Elasticsearch.sendBatch_of_rejected (Elasticsearch.ne_nil_of_serializeBatch hserialized)
    hproject (Elasticsearch.sendBatchInner_encodingFails hmode
      (Elasticsearch.ne_nil_of_serializeBatch hserialized) hserialized he _)

/-- The worker is done with a settled failure and with no other, and a
settled failure is a rejection if it is converted. -/
theorem Permanent.outcome (h : c.Permanent) :
    (c.result = .ok ∨ c.result.isRejected = true ↔ c.Settled)
      ∧ (c.result.isRejected = true ↔ c.Converted) := by
  have hbroken : ∀ {p q : Prop}, (∃ error, c.result = .ioError error) → ¬ p → ¬ q →
      (c.result = .ok ∨ c.result.isRejected = true ↔ p) ∧ (c.result.isRejected = true ↔ q) := by
    rintro p q ⟨error, herror⟩ hp hq
    rw [herror]
    simp [hp, hq, SendResult.isRejected]
  have hdone : ∀ {p q : Prop}, c.result.isRejected = true → p → q →
      (c.result = .ok ∨ c.result.isRejected = true ↔ p) ∧ (c.result.isRejected = true ↔ q) :=
    fun hrejected hp hq => ⟨iff_of_true (.inr hrejected) hp, iff_of_true hrejected hq⟩
  cases c with
  | otap call =>
    by_cases hencoding : EncodingFails (.otap call)
    · exact hbroken (otap_encodingFails hencoding) (not_not_intro hencoding)
        (not_not_intro hencoding)
    · exact hdone (otap_singleRowTooLarge (h.resolve_left hencoding)) hencoding hencoding
  | elasticsearch call numRows sink =>
    rw [Converted, Settled]
    cases hmode : call.config.requestMode with
    | buffered =>
      by_cases htooLarge : SingleRowTooLarge (.elasticsearch call numRows sink)
      · obtain ⟨row, retryAfter, text, body, hmem⟩ := id htooLarge
        exact hbroken (Elasticsearch.sendBatch_singleRowTooLarge
          ⟨_, hmem, row, retryAfter, text, body, rfl⟩) (not_not_intro htooLarge)
          fun hnot => hnot.1 htooLarge
      · exact hdone (buffered_encodingFails hmode (h.resolve_right htooLarge)) htooLarge
          ⟨htooLarge, nofun⟩
    | streaming =>
      obtain ⟨hne, hproject⟩ : sink.rowIds numRows ≠ []
          ∧ Elasticsearch.projectBatchRows numRows call.take (sink.rowIds numRows)
            = .ok (sink.rowIds numRows) := by
        rcases h with ⟨batch, e, hproject, hserialized, -⟩ | ⟨row, retryAfter, text, body, hmem⟩
        · obtain rfl := Elasticsearch.projectBatchRows_ok hproject
          exact ⟨Elasticsearch.ne_nil_of_serializeBatch hserialized, hproject⟩
        · exact Elasticsearch.projected_of_request hmem
      obtain ⟨hsettled, hrejected⟩ := Elasticsearch.sendBatch_streaming hmode hne hproject
      exact ⟨hsettled, hrejected.trans (and_congr_right fun _ => ⟨fun h _ => h, fun h => h rfl⟩)⟩

/-- `process_item` leaves its loop with a result that settles the batch. -/
theorem leaves_iff : c.Leaves ↔ c.result = .ok ∨ c.result.isRejected = true := by
  unfold Leaves
  cases c.result with
  | ok => exact iff_of_true rfl (.inl rfl)
  | rejected reason => exact iff_of_true rfl (.inr rfl)
  | ioError _ | retryAfter _ =>
    simp [SendResult.attempt, Runtime.processItem, SendResult.isRejected]

/-- Attempts of one batch that all meet a permanent failure: an attempt
returns a rejection exactly on the converted paths, and the worker leaves
its loop exactly if an attempt takes a path that settles it. -/
theorem permanent_failure_ends_retries (attempts : Nat → SinkCall)
    (hpermanent : ∀ k, (attempts k).Permanent) :
    (∀ k, (attempts k).result.isRejected = true ↔ (attempts k).Converted)
      ∧ (∀ k, (attempts k).Leaves ↔ (attempts k).Settled)
      ∧ ((∃ k, (attempts k).Leaves) ↔ ∃ k, (attempts k).Settled) := by
  have hleaves : ∀ k, (attempts k).Leaves ↔ (attempts k).Settled :=
    fun k => leaves_iff.trans (hpermanent k).outcome.1
  exact ⟨fun k => (hpermanent k).outcome.2, hleaves, exists_congr hleaves⟩

/-- A batch that cannot be encoded, and a row that is too large for the
server. -/
theorem permanent_failure_is_retried :
    let otap : Otap.Call :=
      { numRows := 1, batchId := 1, flatToStar := .error "timestamp out of range"
        serializeIpc := .ok [], encodeBatchArrowRecords := fun _ _ => [], maybeCompress := .ok
        answer := .transportError "unused" }
    let call : Elasticsearch.Call :=
      { config :=
          { requestMode := .buffered, compress := false, maxBulkBytes := 5 * 1024 * 1024
            escapedIndex := [0x22, 0x6c, 0x22] }
        document := fun _ => .ok [0x7b, 0x7d, 0x0a], gzip := .ok, take := .ok ()
        exchange := fun _ =>
          { answer := .response 413 none (some "") (.error ""), producer := .finished
            emitted := 0 } }
    let sink : Elasticsearch.ElasticsearchSink :=
      { pendingRetryRows := none, pendingRejections := [] }
    (EncodingFails (.otap otap) ∧ (SinkCall.otap otap).result.isRejected = false
        ∧ ¬ (SinkCall.otap otap).Leaves)
      ∧ SingleRowTooLarge (.elasticsearch call 1 sink)
        ∧ (SinkCall.elasticsearch call 1 sink).result.isRejected = false
        ∧ ¬ (SinkCall.elasticsearch call 1 sink).Leaves := by
  intro otap call sink
  refine ⟨⟨⟨_, rfl, .inr rfl⟩, rfl, Bool.false_ne_true⟩, ⟨0, none, some "", .error "", ?_⟩, ?_⟩
  · decide +kernel
  · unfold Leaves
    decide +kernel

/-- A row that is too large for an OTAP server, and a streamed batch whose
first row cannot be encoded: its halves are answered 400 and 200. -/
theorem permanent_failures_rejected :
    let otap : Otap.Call :=
      { numRows := 1, batchId := 1, flatToStar := .ok (), serializeIpc := .ok []
        encodeBatchArrowRecords := fun _ _ => [0], maybeCompress := .ok
        answer := .response 413 none none .empty }
    let call : Elasticsearch.Call :=
      { config := { requestMode := .streaming, compress := false, maxBulkBytes := 0
                    escapedIndex := [] }
        document := fun row => if row = 0 then .error ⟨.invalidData, "no field"⟩ else .ok []
        gzip := .ok, take := .ok ()
        exchange := fun rows =>
          { answer := if rows = [1] then .response 200 none none (.ok (.bulk false none))
              else .response (if rows = [0] then 400 else 413) none none (.error "")
            producer := .finished, emitted := 0 } }
    let streamed : SinkCall :=
      .elasticsearch call 2 { pendingRetryRows := none, pendingRejections := [] }
    ((SinkCall.otap otap).Permanent ∧ (SinkCall.otap otap).result.isRejected = true
        ∧ (SinkCall.otap otap).Leaves)
      ∧ streamed.Permanent ∧ streamed.result.isRejected = true ∧ streamed.Leaves := by
  intro otap call streamed
  constructor
  · have hpermanent : (SinkCall.otap otap).Permanent :=
      .inr ⟨rfl, ⟨[0], [0], rfl, nofun, rfl⟩, none, none, .empty, rfl⟩
    have hsettled : (SinkCall.otap otap).Settled := by
      rintro ⟨e, hencode, -⟩
      cases hencode
    obtain ⟨hrejected, hleaves, -⟩ :=
      permanent_failure_ends_retries (fun _ => .otap otap) fun _ => hpermanent
    exact ⟨hpermanent, (hrejected 0).mpr hsettled, (hleaves 0).mpr hsettled⟩
  · have hpermanent : streamed.Permanent := .inl ⟨[0, 1], _, rfl, rfl, .inr rfl⟩
    have hrejects : call.Rejects [0] := ⟨400, none, none, .error "", rfl, .inl (by decide)⟩
    have haccepts : call.Accepts [1] :=
      ⟨200, none, none, .bulk false none, rfl, by decide, fun _ => rfl,
        fun h => absurd ⟨rfl, rfl⟩ h⟩
    have hrequests : call.lastRequests Elasticsearch.maxSplitDepth [0, 1] = [[0], [1]] := by
      decide +kernel
    have hsettled : streamed.Settled := by
      show ∀ rows ∈ call.lastRequests _ [0, 1], _
      rw [hrequests, forall_mem_cons, forall_mem_singleton]
      exact ⟨.inr hrejects, .inl haccepts⟩
    have hconverted : streamed.Converted :=
      ⟨hsettled, fun _ => .inr ⟨[0], hrequests ▸ mem_cons_self, hrejects⟩⟩
    obtain ⟨hrejected, hleaves, -⟩ :=
      permanent_failure_ends_retries (fun _ => streamed) fun _ => hpermanent
    exact ⟨hpermanent, (hrejected 0).mpr hconverted, (hleaves 0).mpr hsettled⟩

end SinkCall

end FastForward.Output
