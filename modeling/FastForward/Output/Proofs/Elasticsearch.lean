/-
Row accounting of the Elasticsearch sink.

Each attempt accounts for the rows it was given (`Accounts`): they are
accepted, rejected, or listed as pending. This holds of one request, is
kept when a batch is split and the halves are merged, and so holds of
`send_batch_inner` at every depth; the sink then carries the pending
rows from call to call (`Run.Invariant`).

A batch that is too large is halved until it fits, a single row is left,
or the depth is reached. When the server accepts all it gets, what is
rejected are exactly the last pieces that are still too large
(`rejected_mem_iff`), and such a piece may have rows that would fit.
-/
import FastForward.Output.Proofs.ElasticsearchItems

namespace FastForward.Output.Elasticsearch

open Core Lib List

-- == accounting

def acceptedIn (events : List Event) : List Nat := events.flatMap Event.acceptedRows

def rejectedIn (events : List Event) : List Nat := events.flatMap Event.rejectedRows

@[simp] theorem acceptedIn_append (events more : List Event) :
    acceptedIn (events ++ more) = acceptedIn events ++ acceptedIn more := flatMap_append

@[simp] theorem rejectedIn_append (events more : List Event) :
    rejectedIn (events ++ more) = rejectedIn events ++ rejectedIn more := flatMap_append

/-- No row is requested after it was settled. -/
def NeverAgain (events : List Event) : Prop :=
  events.Pairwise fun e later =>
    ∀ row ∈ later.requested, row ∉ e.acceptedRows ∧ row ∉ e.rejectedRows

/-- The outcome accounts for the rows it was given. -/
structure Accounts (rowIds : List Nat) (out : SendAttempt × List Event) : Prop where
  partition : (acceptedIn out.2 ++ rejectedIn out.2 ++ out.1.pending).Perm rowIds
  rejections : out.1.rejections = [] → rejectedIn out.2 = []
  requested : ∀ e ∈ out.2, ∀ row ∈ e.requested, row ∈ rowIds
  neverAgain : rowIds.Nodup → NeverAgain out.2

variable {rowIds : List Nat} {out : SendAttempt × List Event}

theorem Accounts.settled_mem (h : Accounts rowIds out) {e : Event} (he : e ∈ out.2) {row : Nat}
    (hrow : row ∈ e.acceptedRows ∨ row ∈ e.rejectedRows) : row ∈ rowIds := by
  refine h.partition.subset (mem_append_left _ (mem_append.mpr ?_))
  rcases hrow with hrow | hrow
  · exact .inl (mem_flatMap.mpr ⟨e, he, hrow⟩)
  · exact .inr (mem_flatMap.mpr ⟨e, he, hrow⟩)

variable {attempt : SendAttempt}

/-- Rows that are kept without a request. -/
theorem Accounts.of_kept (hpending : attempt.pending = rowIds) : Accounts rowIds (attempt, []) where
  partition := by
    rw [← hpending]
    exact .refl _
  rejections := fun _ => rfl
  requested := nofun
  neverAgain := fun _ => .nil

/-- Rows that are rejected without a request. -/
theorem Accounts.of_rejected (rowIds : List Nat) {rejections : List String} (acceptedRows : Nat)
    (hne : rejections ≠ []) :
    Accounts rowIds (.rejected rejections acceptedRows, [.rejected rowIds]) where
  partition := by simp [acceptedIn, rejectedIn, Event.acceptedRows, Event.rejectedRows,
    SendAttempt.pending]
  rejections := fun h => absurd h hne
  requested := fun e he row hrow => by
    rw [mem_singleton.mp he] at hrow
    cases hrow
  neverAgain := fun _ => pairwise_singleton _ _

variable {answer : Answer}

theorem Accounts.of_answers (h : Answers rowIds answer attempt) :
    Accounts rowIds (attempt, [.request rowIds answer]) where
  partition := by
    simpa [acceptedIn, rejectedIn, Event.acceptedRows, Event.rejectedRows] using h.partition
  rejections := fun hnil => by
    simpa [rejectedIn, Event.rejectedRows] using h.rejections hnil
  requested := fun e he row hrow => by
    rw [mem_singleton.mp he] at hrow
    exact hrow
  neverAgain := fun _ => pairwise_singleton _ _

/-- A request that settled nothing, before the attempts that replace it. -/
theorem Accounts.after_request (haccepted : answer.accepted rowIds = [])
    (hrejected : answer.rejected rowIds = []) (h : Accounts rowIds out) :
    Accounts rowIds (out.1, .request rowIds answer :: out.2) := by
  have hacc : acceptedIn (.request rowIds answer :: out.2) = acceptedIn out.2 := by
    rw [acceptedIn, flatMap_cons, Event.acceptedRows, haccepted]
    rfl
  have hrej : rejectedIn (.request rowIds answer :: out.2) = rejectedIn out.2 := by
    rw [rejectedIn, flatMap_cons, Event.rejectedRows, hrejected]
    rfl
  refine ⟨?_, ?_, ?_, ?_⟩
  · rw [hacc, hrej]
    exact h.partition
  · rw [hrej]
    exact h.rejections
  · intro e he
    rcases mem_cons.mp he with rfl | he
    · exact fun row hrow => hrow
    · exact h.requested e he
  · intro hnodup
    refine pairwise_cons.mpr ⟨fun later _ row _ => ?_, h.neverAgain hnodup⟩
    rw [Event.acceptedRows, Event.rejectedRows, haccepted, hrejected]
    exact ⟨not_mem_nil, not_mem_nil⟩

/-- Two halves. -/
theorem Accounts.merge {left right : List Nat} {leftOut rightOut : SendAttempt × List Event}
    (hleft : Accounts left leftOut) (hright : Accounts right rightOut)
    (leftLabel rightLabel : String) :
    Accounts (left ++ right)
      (mergeSplitAttempts (labelAttemptRejections leftLabel leftOut.1)
          (labelAttemptRejections rightLabel rightOut.1), leftOut.2 ++ rightOut.2) := by
  refine ⟨?_, ?_, ?_, ?_⟩
  · have hpending := perm_iff_count.mp (mergeSplitAttempts_pending
      (labelAttemptRejections leftLabel leftOut.1) (labelAttemptRejections rightLabel rightOut.1))
    have hl := perm_iff_count.mp hleft.partition
    have hr := perm_iff_count.mp hright.partition
    refine perm_iff_count.mpr fun row => ?_
    have := hpending row
    have := hl row
    have := hr row
    simp only [count_append, labelAttemptRejections_pending, acceptedIn_append,
      rejectedIn_append] at *
    omega
  · intro hnil
    have hperm := mergeSplitAttempts_rejections (labelAttemptRejections leftLabel leftOut.1)
      (labelAttemptRejections rightLabel rightOut.1)
    rw [hnil, nil_perm, append_eq_nil_iff] at hperm
    simp only [labelAttemptRejections_rejections, prefixRejections_eq_nil] at hperm
    rw [rejectedIn_append, hleft.rejections hperm.1, hright.rejections hperm.2]
    rfl
  · intro e he row hrow
    rcases mem_append.mp he with he | he
    · exact mem_append_left _ (hleft.requested e he row hrow)
    · exact mem_append_right _ (hright.requested e he row hrow)
  · intro hnodup
    obtain ⟨hleftNodup, hrightNodup, hdisjoint⟩ := nodup_append.mp hnodup
    refine pairwise_append.mpr ⟨hleft.neverAgain hleftNodup, hright.neverAgain hrightNodup, ?_⟩
    intro e he later hlater row hrow
    have hmem := hright.requested later hlater row hrow
    constructor
    · exact fun h => hdisjoint row (hleft.settled_mem he (.inl h)) row hmem rfl
    · exact fun h => hdisjoint row (hleft.settled_mem he (.inr h)) row hmem rfl

-- == splitting

/-- Requests are buffered, and the server answers a bulk request item by
item. -/
structure Call.Sound (call : Call) : Prop where
  buffered : call.config.requestMode = .buffered
  wellFormed : ∀ rows : List Nat, (call.exchange rows).answer.WellFormed rows.length

/-- Every half is accounted for. -/
def SplitAccounts (split : Option (List Nat → List Nat → SendAttempt × List Event)) : Prop :=
  ∀ sendInner, split = some sendInner → ∀ rowIds, Accounts rowIds (sendInner rowIds rowIds)

theorem sendSplitHalves_accounts {sendInner : List Nat → List Nat → SendAttempt × List Event}
    (h : ∀ rowIds, Accounts rowIds (sendInner rowIds rowIds)) (rowIds : List Nat) :
    Accounts rowIds (sendSplitHalves sendInner rowIds rowIds) := by
  have hmerge := (h (rowIds.take (rowIds.length / 2))).merge (h (rowIds.drop (rowIds.length / 2)))
    "left split rejected" "right split rejected"
  rw [take_append_drop] at hmerge
  exact hmerge

variable {split : Option (List Nat → List Nat → SendAttempt × List Event)}

theorem splitOn413_accounts (hsplit : SplitAccounts split) (h : Answers rowIds answer attempt) :
    Accounts rowIds ((splitOn413 split rowIds rowIds attempt).1,
      .request rowIds answer :: (splitOn413 split rowIds rowIds attempt).2) := by
  unfold splitOn413
  split
  next pending rejections error sendInner =>
    split
    · obtain ⟨haccepted, hrejected⟩ := h.unsettled _ _ _ rfl
      have hhalves := sendSplitHalves_accounts (hsplit sendInner rfl) rowIds
      exact hhalves.after_request haccepted hrejected
    · exact .of_answers h
  next => exact .of_answers h

theorem unsent_accounts (rowIds : List Nat)
    (h : (∃ rejections accepted, attempt = .rejected rejections accepted ∧ rejections ≠ [])
      ∨ attempt.pending = rowIds ∧ ∀ rejections accepted, attempt ≠ .rejected rejections accepted) :
    Accounts rowIds (unsent rowIds attempt) := by
  rcases h with ⟨rejections, accepted, rfl, hne⟩ | ⟨hpending, hnot⟩
  · exact .of_rejected rowIds accepted hne
  · cases attempt with
    | rejected rejections accepted => exact absurd rfl (hnot rejections accepted)
    | ok | retryAfter _ _ _ _ | ioError _ _ _ => exact .of_kept hpending

theorem actionBytes_ne_nil (config : Config) : config.actionBytes ≠ [] := by
  intro h
  rw [Config.actionBytes, append_assoc, append_eq_nil_iff] at h
  exact absurd h.1 (by decide +kernel)

variable {call : Call} {rows : List Nat}

/-- A row is never serialized to nothing. -/
theorem serializeBatch_ne_nil (hne : rows ≠ []) : call.serializeBatch rows ≠ .ok [] := by
  cases rows with
  | nil => exact absurd rfl hne
  | cons row rows =>
    unfold Call.serializeBatch
    cases call.document row with
    | error e => exact nofun
    | ok document =>
      cases call.serializeBatch rows with
      | error e => exact nofun
      | ok rest =>
        intro heq
        have hnil := Except.ok.inj heq
        rw [append_assoc, append_eq_nil_iff] at hnil
        exact actionBytes_ne_nil call.config hnil.1

theorem attemptFromSendResult_fromIoError (rowIds : List Nat) (e : IoError) :
    let attempt := attemptFromSendResult rowIds (.fromIoError e)
    (∃ rejections accepted, attempt = .rejected rejections accepted ∧ rejections ≠ [])
      ∨ attempt.pending = rowIds
        ∧ ∀ rejections accepted, attempt ≠ .rejected rejections accepted := by
  unfold SendResult.fromIoError
  cases e.kind with
  | invalidInput | invalidData => exact .inl ⟨_, _, rfl, nofun⟩
  | brokenPipe | notConnected | other => exact .inr ⟨rfl, nofun⟩

theorem sendOrSplit_accounts (h : call.Sound) (hsplit : SplitAccounts split) (rowIds : List Nat) :
    Accounts rowIds (sendOrSplit call split rowIds rowIds) := by
  unfold sendOrSplit
  by_cases hnil : rowIds = []
  · rw [hnil]
    exact .of_kept rfl
  · rw [if_neg hnil]
    rw [h.buffered]
    cases hserialized : call.serializeBatch rowIds with
    | error e => exact unsent_accounts rowIds (attemptFromSendResult_fromIoError rowIds e)
    | ok payload =>
      dsimp only
      have hpayload : payload ≠ [] := fun heq =>
        serializeBatch_ne_nil hnil (heq ▸ hserialized)
      rw [if_neg hpayload]
      have htooLarge : Accounts rowIds (unsent rowIds (sendOrSplit.tooLarge call payload)) :=
        .of_rejected rowIds 0 nofun
      by_cases hlarge : call.config.maxBulkBytes < payload.length
      · rw [if_pos hlarge]
        cases hs : split with
        | none => exact htooLarge
        | some sendInner =>
          dsimp only
          split
          · exact sendSplitHalves_accounts (hsplit sendInner hs) rowIds
          · exact htooLarge
      · rw [if_neg hlarge]
        cases if call.config.compress then call.gzip payload else .ok payload with
        | error error => exact .of_kept rfl
        | ok body => exact splitOn413_accounts hsplit (doSend_spec (h.wellFormed rowIds) body)

/-- At every depth. -/
theorem sendBatchInner_accounts (h : call.Sound) (splitsLeft : Nat)
    (rowIds : List Nat) : Accounts rowIds (sendBatchInner call splitsLeft rowIds rowIds) := by
  induction splitsLeft generalizing rowIds with
  | zero =>
    have hnone : SplitAccounts none := fun _ heq => by cases heq
    exact sendOrSplit_accounts h hnone rowIds
  | succ splitsLeft ih =>
    refine sendOrSplit_accounts h (fun sendInner heq => ?_) rowIds
    cases heq
    exact ih

-- == runs

variable {numRows : Nat}

theorem projectBatchRows_of_lt (h : ∀ row ∈ rowIds, row < numRows) (take : Except String Unit) :
    projectBatchRows numRows take rowIds = .ok rowIds
      ∨ ∃ error, projectBatchRows numRows take rowIds = .error ⟨.other, error⟩ := by
  unfold projectBatchRows
  by_cases hall : rowIds = range numRows
  · rw [if_pos hall, hall]
    exact .inl rfl
  · have hnone : rowIds.find? (numRows ≤ ·) = none := by
      rw [find?_eq_none]
      intro row hrow hge
      have := h row hrow
      have := of_decide_eq_true hge
      omega
    rw [if_neg hall, hnone]
    cases take with
    | error error => exact .inr ⟨error, rfl⟩
    | ok _ => exact .inl rfl

/-- What the sink carries over from a call: the rows that are left, or
nothing when the batch is over. -/
structure Carries (rowIds : List Nat) (rejections : List String)
    (out : (ElasticsearchSink × SendResult) × List Event) : Prop where
  partition : (acceptedIn out.2 ++ rejectedIn out.2 ++ out.1.1.pendingRetryRows.getD []).Perm rowIds
  over_or_pending : (out.1.2 = .ok ∨ ∃ reason, out.1.2 = .rejected reason)
      ∧ out.1.1.pendingRetryRows = none
    ∨ (out.1.2 ≠ .ok ∧ ∀ reason, out.1.2 ≠ .rejected reason)
      ∧ ∃ pending, out.1.1.pendingRetryRows = some pending
  rejections : out.1.2 = .ok ∨ out.1.1.pendingRetryRows ≠ none ∧ out.1.1.pendingRejections = [] →
    rejections = [] ∧ rejectedIn out.2 = []
  requested : ∀ e ∈ out.2, ∀ row ∈ e.requested, row ∈ rowIds
  neverAgain : rowIds.Nodup → NeverAgain out.2

theorem finishSuccessOrReject_cases (rejections : List String) :
    finishSuccessOrReject rejections = .ok ∧ rejections = []
      ∨ ∃ reason, finishSuccessOrReject rejections = .rejected reason := by
  by_cases h : rejections = []
  · exact .inl ⟨if_pos h, h⟩
  · exact .inr ⟨_, if_neg h⟩

variable {rejections all : List String} {events : List Event}

/-- No rows are left. -/
theorem Carries.of_settle (hpartition : (acceptedIn events ++ rejectedIn events ++ []).Perm rowIds)
    (hall : all = [] → rejections = [] ∧ rejectedIn events = [])
    (hrequested : ∀ e ∈ events, ∀ row ∈ e.requested, row ∈ rowIds)
    (hnever : rowIds.Nodup → NeverAgain events) :
    Carries rowIds rejections (ElasticsearchSink.settle all, events) where
  partition := hpartition
  over_or_pending := by
    refine .inl ⟨?_, rfl⟩
    rcases finishSuccessOrReject_cases all with ⟨hok, -⟩ | hrejected
    · exact .inl hok
    · exact .inr hrejected
  rejections := by
    rintro (hok | ⟨hpending, -⟩)
    · rcases finishSuccessOrReject_cases all with ⟨-, hnil⟩ | ⟨reason, hrejected⟩
      · exact hall hnil
      · exact absurd (hok.symm.trans hrejected) nofun
    · exact absurd rfl hpending
  requested := hrequested
  neverAgain := hnever

/-- Some rows are left. -/
theorem Carries.of_pending {pending : List Nat} {result : SendResult}
    (hpartition : (acceptedIn events ++ rejectedIn events ++ pending).Perm rowIds)
    (hresult : result ≠ .ok ∧ ∀ reason, result ≠ .rejected reason)
    (hall : all = [] → rejections = [] ∧ rejectedIn events = [])
    (hrequested : ∀ e ∈ events, ∀ row ∈ e.requested, row ∈ rowIds)
    (hnever : rowIds.Nodup → NeverAgain events) :
    Carries rowIds rejections
      (({ pendingRetryRows := some pending, pendingRejections := all }, result), events) where
  partition := hpartition
  over_or_pending := Or.inr ⟨hresult, pending, rfl⟩
  rejections := by
    rintro (hok | ⟨-, hnil⟩)
    · exact absurd hok hresult.1
    · exact hall hnil
  requested := hrequested
  neverAgain := hnever

theorem finishAttempt_carries (h : Accounts rowIds out) (rejections : List String) :
    Carries rowIds rejections (ElasticsearchSink.finishAttempt rejections out.1, out.2) := by
  obtain ⟨attempt, events⟩ := out
  have hpartition := h.partition
  have hall : rejections ++ attempt.rejections = [] →
      rejections = [] ∧ rejectedIn events = [] := fun hnil =>
    (append_eq_nil_iff.mp hnil).imp id h.rejections
  cases attempt with
  | ok =>
    exact .of_settle hpartition (fun hnil => ⟨hnil, h.rejections rfl⟩) h.requested h.neverAgain
  | rejected newRejections accepted =>
    exact .of_settle hpartition hall h.requested h.neverAgain
  | retryAfter pending newRejections accepted delay | ioError pending newRejections error =>
    exact .of_pending hpartition ⟨nofun, nofun⟩ hall h.requested h.neverAgain

theorem sendBatch_carries (hcall : call.Sound) (numRows : Nat)
    (s : ElasticsearchSink) (hrows : ∀ row ∈ s.rowIds numRows, row < numRows) :
    Carries (s.rowIds numRows) s.pendingRejections (s.sendBatch call numRows) := by
  unfold ElasticsearchSink.sendBatch
  by_cases hnil : s.rowIds numRows = []
  · rw [hnil]
    exact .of_settle .nil (fun h => ⟨h, rfl⟩) nofun fun _ => .nil
  · rw [if_neg hnil]
    rcases projectBatchRows_of_lt hrows call.take with hok | ⟨error, herror⟩
    · rw [hok]
      exact finishAttempt_carries (sendBatchInner_accounts hcall maxSplitDepth _) _
    · rw [herror]
      exact .of_pending (.refl _) ⟨nofun, nofun⟩ (fun h => ⟨h, rfl⟩) nofun
        fun _ => .nil

/-- The rows that have ids. -/
def addressed (numRows : Nat) : List Nat := List.range (numRows % 2 ^ 32)

/-- The rows with ids are accounted for, over all calls. -/
structure Run.Invariant (numRows : Nat) (s : Run) : Prop where
  partition : (acceptedIn s.events ++ rejectedIn s.events
    ++ if s.isOver then [] else s.sink.rowIds numRows).Perm (addressed numRows)
  pendingRows : s.result = none ∨ s.isOver = true ∧ s.sink.pendingRetryRows = none
    ∨ s.isOver = false ∧ ∃ pending, s.sink.pendingRetryRows = some pending
  rejections : s.result = some .ok ∨ s.isOver = false ∧ s.sink.pendingRejections = [] →
    rejectedIn s.events = []
  neverAgain : NeverAgain s.events

theorem Run.Invariant.start (numRows : Nat) : Run.Invariant numRows .start where
  partition := List.Perm.refl _
  pendingRows := Or.inl rfl
  rejections := fun _ => rfl
  neverAgain := List.Pairwise.nil

/-- The rows of the next call are the ones that are left. -/
theorem Carries.rows_left
    {out : (ElasticsearchSink × SendResult) × List Event} (h : Carries rowIds rejections out)
    (numRows : Nat) (events : List Event) :
    let s : Run := { sink := out.1.1, events, result := some out.1.2 }
    (if s.isOver then [] else s.sink.rowIds numRows) = out.1.1.pendingRetryRows.getD []
      ∧ (s.isOver ∧ s.sink.pendingRetryRows = none
        ∨ s.isOver = false ∧ ∃ pending, s.sink.pendingRetryRows = some pending) := by
  intro s
  rcases h.over_or_pending with ⟨hover, hnone⟩ | ⟨⟨hok, hrejected⟩, pending, hsome⟩
  · have hs : s.isOver := by
      rcases hover with hok | ⟨reason, hrejected⟩
      · simp only [s, Run.isOver, hok]
      · simp only [s, Run.isOver, hrejected]
    rw [hs, hnone]
    exact ⟨rfl, .inl ⟨rfl, rfl⟩⟩
  · have hs : s.isOver = false := by
      unfold Run.isOver
      cases hresult : out.1.2 with
      | ok => exact absurd hresult hok
      | rejected reason => exact absurd hresult (hrejected reason)
      | retryAfter _ | ioError _ => simp only [s, hresult]
    rw [hs]
    refine ⟨?_, .inr ⟨rfl, pending, hsome⟩⟩
    rw [ElasticsearchSink.rowIds, hsome]
    rfl

variable {s : Run}

theorem Run.Invariant.step (hcall : call.Sound) {s' : Run}
    (h : s.Invariant numRows) (hstep : Run.step numRows call s = some s') :
    s'.Invariant numRows := by
  unfold Run.step at hstep
  cases hover : s.isOver with
  | true =>
    rw [if_pos hover] at hstep
    cases hstep
  | false =>
    rw [if_neg (Bool.eq_false_iff.mp hover)] at hstep
    have hpartition := h.partition
    rw [hover, if_neg Bool.false_ne_true] at hpartition
    have hrows : ∀ row ∈ s.sink.rowIds numRows, row < numRows := fun row hrow => by
      have := mem_range.mp (hpartition.subset (mem_append_right _ hrow))
      omega
    have hcarries := sendBatch_carries hcall numRows s.sink hrows
    generalize s.sink.sendBatch call numRows = out at hcarries hstep
    obtain ⟨⟨sink, result⟩, events⟩ := out
    cases hstep
    obtain ⟨hleft, hpending⟩ := hcarries.rows_left numRows (s.events ++ events)
    have hnodup : (acceptedIn s.events ++ rejectedIn s.events ++ s.sink.rowIds numRows).Nodup :=
      hpartition.nodup_iff.mpr nodup_range
    obtain ⟨-, hrowsNodup, hdisjoint⟩ := nodup_append.mp hnodup
    refine ⟨?_, .inr hpending, ?_, ?_⟩
    · rw [hleft]
      refine perm_iff_count.mpr fun row => ?_
      have hold := perm_iff_count.mp hpartition row
      have hnew := perm_iff_count.mp hcarries.partition row
      simp only [count_append, acceptedIn_append, rejectedIn_append] at hold hnew ⊢
      omega
    · intro hresult
      have hcase : result = .ok ∨ sink.pendingRetryRows ≠ none ∧ sink.pendingRejections = [] := by
        rcases hresult with hok | ⟨hopen, hnil⟩
        · exact .inl (Option.some.inj hok)
        · rcases hpending with ⟨htrue, -⟩ | ⟨-, pending, hsome⟩
          · exact absurd (hopen.symm.trans htrue) nofun
          · exact .inr ⟨fun hnone => absurd (hsome.symm.trans hnone) nofun, hnil⟩
      obtain ⟨hold, hnew⟩ := hcarries.rejections hcase
      rw [rejectedIn_append, h.rejections (.inr ⟨hover, hold⟩), hnew]
      rfl
    · refine pairwise_append.mpr ⟨h.neverAgain, hcarries.neverAgain hrowsNodup, ?_⟩
      intro e he later hlater row hrow
      have hmem := hcarries.requested later hlater row hrow
      have hsettled : row ∉ acceptedIn s.events ++ rejectedIn s.events := fun hsettled =>
        hdisjoint row hsettled row hmem rfl
      rw [mem_append, not_or] at hsettled
      exact ⟨fun hacc => hsettled.1 (mem_flatMap.mpr ⟨e, he, hacc⟩),
        fun hrej => hsettled.2 (mem_flatMap.mpr ⟨e, he, hrej⟩)⟩

/-- The calls a batch is sent with. -/
def Run.Sound (_ : Run) (call : Call) : Prop := call.Sound

theorem Run.Invariant.of_reachable
    (hr : ReachableWhen (Run.step numRows) Run.Sound .start s) : s.Invariant numRows :=
  hr.invariant (.start numRows) fun _ _ _ h hcall hstep => h.step hcall hstep

/-- After a call the pending rows are the listed ones. -/
theorem Run.Invariant.partition_listed (h : s.Invariant numRows) (hcalled : s.result ≠ none) :
    (s.accepted ++ s.rejected ++ s.pending).Perm (addressed numRows) := by
  have hpartition := h.partition
  rcases h.pendingRows with hnone | ⟨hover, hnone⟩ | ⟨hopen, pending, hsome⟩
  · exact absurd hnone hcalled
  · rw [hover] at hpartition
    rw [pending, hnone]
    exact hpartition
  · rw [hopen, ElasticsearchSink.rowIds, hsome] at hpartition
    rw [Run.pending, hsome]
    exact hpartition

theorem Run.Invariant.accountedFor (h : s.Invariant numRows)
    (hcalled : s.result ≠ none) (hfits : numRows < 2 ^ 32) : AccountedFor numRows s := by
  have hpartition := h.partition_listed hcalled
  rw [addressed, Nat.mod_eq_of_lt hfits] at hpartition
  have hover : s.isOver → s.pending = [] := fun hover => by
    rcases h.pendingRows with hnone | ⟨-, hnone⟩ | ⟨hopen, -⟩
    · exact absurd hnone hcalled
    · rw [pending, hnone]
      rfl
    · exact absurd (hopen.symm.trans hover) nofun
  refine ⟨hpartition, h.neverAgain, fun hok row hrow => ?_, fun reason hrejected => ?_⟩
  · have hmem := hpartition.symm.subset (mem_range.mpr hrow)
    have hrejected : s.rejected = [] := h.rejections (.inl hok)
    have hpending : s.pending = [] := hover (by rw [isOver, hok])
    rw [hrejected, hpending, append_nil, append_nil] at hmem
    exact hmem
  · exact hover (by rw [isOver, hrejected])

/-- A call that meets a server nobody answers for. -/
def unanswered : Call where
  config :=
    { requestMode := .buffered
      compress := false
      maxBulkBytes := 5 * 1024 * 1024
      escapedIndex := "\"logs\"".toUTF8.toList }
  document := fun _ => .ok "\x7b\x7d\n".toUTF8.toList
  gzip := .ok
  take := .ok ()
  exchange := fun _ =>
    { answer := .transportError "connection refused", producer := .finished, emitted := 0 }

theorem unanswered_sound : unanswered.Sound := ⟨rfl, fun _ => trivial⟩

/-- Over every sequence of calls for a batch, all its rows are accounted
for exactly when their number fits the row ids. -/
theorem accountedFor_iff (numRows : Nat) :
    (∀ s, ReachableWhen (Run.step numRows) Run.Sound .start s → s.result ≠ none →
        AccountedFor numRows s)
      ↔ numRows < 2 ^ 32 := by
  constructor
  · intro hall
    have hstep : ∃ s', Run.step numRows unanswered .start = some s' ∧ s'.result ≠ none :=
      ⟨_, rfl, nofun⟩
    obtain ⟨s', hstep, hcalled⟩ := hstep
    have hr : ReachableWhen (Run.step numRows) Run.Sound .start s' :=
      .step unanswered .init unanswered_sound hstep
    have haddressed := (Run.Invariant.of_reachable hr).partition_listed hcalled
    have hlength := ((hall s' hr hcalled).partition.symm.trans haddressed).length_eq
    rw [addressed, length_range, length_range] at hlength
    omega
  · exact fun hfits s hr hcalled => (Run.Invariant.of_reachable hr).accountedFor hcalled hfits

/-- A batch of 2^32 rows is reported as delivered with no row sent. -/
theorem huge_batch_is_not_sent :
    ∃ s, ReachableWhen (Run.step (2 ^ 32)) Run.Sound .start s ∧ s.result = some .ok
      ∧ s.events = [] ∧ ¬ AccountedFor (2 ^ 32) s := by
  refine ⟨{ Run.start with result := some .ok }, .step unanswered .init unanswered_sound rfl, rfl,
    rfl, fun h => ?_⟩
  cases h.ok_accepted rfl 0 (by decide)

-- == size limits

/-- The rows serialize to more than a request may hold. -/
def Call.TooLarge (call : Call) (rows : List Nat) : Prop :=
  ∃ payload, call.serializeBatch rows = .ok payload ∧ call.config.maxBulkBytes < payload.length

/-- What a batch is halved into. -/
def pieces : Nat → List Nat → List (List Nat)
  | 0, rows => [rows]
  | depth + 1, rows =>
    pieces depth (rows.take (rows.length / 2)) ++ pieces depth (rows.drop (rows.length / 2))

/-- The server accepts every request. -/
def Call.AcceptsAll (call : Call) : Prop :=
  ∀ rows, ∃ status retryAfter text items, IsSuccess status
    ∧ (call.exchange rows).answer = .response status retryAfter text (.ok (.bulk false items))

variable {payload : Bytes}

theorem serializeBatch_append {more : List Nat}
    (h : call.serializeBatch (rows ++ more) = .ok payload) :
    ∃ left right, call.serializeBatch rows = .ok left ∧ call.serializeBatch more = .ok right
      ∧ payload = left ++ right := by
  induction rows generalizing payload with
  | nil => exact ⟨[], payload, rfl, h, rfl⟩
  | cons row rows ih =>
    rw [cons_append, Call.serializeBatch] at h
    rw [Call.serializeBatch]
    split at h
    · cases h
    · split at h
      · cases h
      next rest hrest =>
        cases h
        obtain ⟨left, right, hleft, hright, rfl⟩ := ih hrest
        rw [hleft]
        exact ⟨_, right, rfl, hright, (append_assoc _ _ _).symm⟩

theorem not_tooLarge_nil : ¬ call.TooLarge [] := by
  rintro ⟨payload, h, hlarge⟩
  cases h
  exact Nat.not_lt_zero _ hlarge

theorem tooLarge_of_mem_pieces {depth : Nat} {piece : List Nat}
    (h : call.serializeBatch rows = .ok payload) (hpiece : piece ∈ pieces depth rows)
    (hlarge : call.TooLarge piece) : call.TooLarge rows := by
  induction depth generalizing rows payload with
  | zero => exact mem_singleton.mp hpiece ▸ hlarge
  | succ depth ih =>
    have hhalves := h
    rw [← take_append_drop (rows.length / 2) rows] at hhalves
    obtain ⟨left, right, hleft, hright, rfl⟩ := serializeBatch_append hhalves
    refine ⟨_, h, ?_⟩
    rw [length_append]
    rcases mem_append.mp hpiece with hpiece | hpiece
    · obtain ⟨payload, hpayload, hlt⟩ := ih hleft hpiece
      cases hleft.symm.trans hpayload
      omega
    · obtain ⟨payload, hpayload, hlt⟩ := ih hright hpiece
      cases hright.symm.trans hpayload
      omega

/-- A single row is not halved. -/
theorem mem_pieces_of_length_le_one {piece : List Nat} (hone : rows.length ≤ 1)
    (hlarge : call.TooLarge piece) (depth : Nat) : piece ∈ pieces depth rows ↔ piece = rows := by
  induction depth generalizing rows with
  | zero => exact mem_singleton
  | succ depth ih =>
    have hmid : rows.length / 2 = 0 := by omega
    have hnil : piece ∈ pieces depth [] ↔ piece = [] := ih (Nat.zero_le 1)
    have hne : piece ≠ [] := fun heq => not_tooLarge_nil (heq ▸ hlarge)
    rw [pieces, hmid, mem_append, take_zero, hnil, or_iff_right hne]
    exact ih hone

theorem length_le_one_of_mem_pieces {depth : Nat} {piece : List Nat}
    (hlen : rows.length ≤ 2 ^ depth) (hpiece : piece ∈ pieces depth rows) : piece.length ≤ 1 := by
  induction depth generalizing rows with
  | zero =>
    rw [mem_singleton.mp hpiece]
    exact hlen
  | succ depth ih =>
    rw [Nat.pow_succ] at hlen
    rcases mem_append.mp hpiece with hpiece | hpiece
    · refine ih ?_ hpiece
      rw [length_take]
      omega
    · refine ih ?_ hpiece
      rw [length_drop]
      omega

/-- Halved often enough, a batch is rejected row by row: up to sixty-four
rows with the halvings there are. -/
theorem rows_tooLarge_of_length_le {depth : Nat} (hlen : rows.length ≤ 2 ^ depth) :
    ∀ piece ∈ pieces depth rows, call.TooLarge piece → ∀ row ∈ piece, call.TooLarge [row] := by
  intro piece hpiece hlarge row hrow
  have hone := length_le_one_of_mem_pieces hlen hpiece
  have hpos := length_pos_of_mem hrow
  obtain ⟨_, rfl⟩ := length_eq_one_iff.mp (Nat.le_antisymm hone hpos)
  rwa [mem_singleton.mp hrow]

section Accepted

variable (hbuffered : call.config.requestMode = .buffered) (haccepts : call.AcceptsAll)
  {piece : List Nat} (hpiece : call.TooLarge piece)

include hbuffered haccepts hpiece

theorem sendOrSplit_rejected_iff
    (split : Option (List Nat → List Nat → SendAttempt × List Event)) (rowIds : List Nat) :
    .rejected piece ∈ (sendOrSplit call split rowIds rowIds).2
      ↔ call.TooLarge rowIds ∧ match split with
        | some sendInner =>
          if 1 < rowIds.length then .rejected piece ∈ (sendSplitHalves sendInner rowIds rowIds).2
          else piece = rowIds
        | none => piece = rowIds := by
  unfold sendOrSplit
  by_cases hnil : rowIds = []
  · rw [hnil]
    exact iff_of_false not_mem_nil fun h => not_tooLarge_nil h.1
  · rw [if_neg hnil, hbuffered]
    cases hpayload : call.serializeBatch rowIds with
    | error e =>
      -- the batch may be rejected, but not for its size
      have hnot : ¬ call.TooLarge rowIds := fun ⟨payload, h, _⟩ => nomatch hpayload.symm.trans h
      refine iff_of_false (fun hmem => hnot ?_) fun h => hnot h.1
      dsimp only [unsent] at hmem
      split at hmem
      · exact Event.rejected.inj (mem_singleton.mp hmem) ▸ hpiece
      · cases hmem
    | ok payload =>
      have hne : payload ≠ [] := fun heq => serializeBatch_ne_nil hnil (heq ▸ hpayload)
      dsimp only
      rw [if_neg hne]
      by_cases hlarge : call.config.maxBulkBytes < payload.length
      · rw [if_pos hlarge, and_iff_right ⟨payload, hpayload, hlarge⟩]
        cases split with
        | none => simp [unsent, sendOrSplit.tooLarge]
        | some sendInner =>
          dsimp only
          split
          · rfl
          · simp [unsent, sendOrSplit.tooLarge]
      · rw [if_neg hlarge]
        refine iff_of_false ?_ fun ⟨⟨payload', h, hlt⟩, _⟩ => ?_
        · cases if call.config.compress = true then call.gzip payload else .ok payload with
          | error error => exact not_mem_nil
          | ok body =>
            obtain ⟨status, retryAfter, text, items, hstatus, hanswer⟩ := haccepts rowIds
            have hok : doSend rowIds body (call.exchange rowIds).answer = .ok := by
              rw [hanswer, doSend, if_pos hstatus]
              rfl
            dsimp only
            rw [hok]
            simp [splitOn413]
        · cases hpayload.symm.trans h
          exact hlarge hlt

/-- What is rejected for its size, at every depth. -/
theorem rejected_mem_iff (depth : Nat) (rowIds : List Nat) :
    .rejected piece ∈ (sendBatchInner call depth rowIds rowIds).2
      ↔ call.TooLarge rowIds ∧ piece ∈ pieces depth rowIds := by
  induction depth generalizing rowIds with
  | zero =>
    rw [sendBatchInner, sendOrSplit_rejected_iff hbuffered haccepts hpiece, pieces, mem_singleton]
  | succ depth ih =>
    rw [sendBatchInner, sendOrSplit_rejected_iff hbuffered haccepts hpiece]
    refine and_congr_right fun ⟨payload, hpayload, _⟩ => ?_
    dsimp only
    split
    · rw [← take_append_drop (rowIds.length / 2) rowIds] at hpayload
      obtain ⟨left, right, hleft, hright, -⟩ := serializeBatch_append hpayload
      rw [sendSplitHalves, pieces, mem_append, mem_append, ih, ih]
      exact or_congr (and_iff_right_of_imp fun h => tooLarge_of_mem_pieces hleft h hpiece)
        (and_iff_right_of_imp fun h => tooLarge_of_mem_pieces hright h hpiece)
    next hone =>
      exact (mem_pieces_of_length_le_one (Nat.le_of_not_lt hone) hpiece _).symm

end Accepted

/-- Documents of three bytes, and room for one row in a request. -/
def oneRowRequests : Call :=
  { unanswered with
    config := { unanswered.config with maxBulkBytes := 31 }
    exchange := fun _ =>
      { answer := .response 200 none none (.ok (.bulk false none)), producer := .finished
        emitted := 0 } }

theorem oneRowRequests_acceptsAll : oneRowRequests.AcceptsAll := fun _ =>
  ⟨200, none, none, none, by decide, rfl⟩

end FastForward.Output.Elasticsearch
