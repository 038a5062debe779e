/-
What the answer to one bulk request does to its rows.

The items of a response are retried, rejected or accepted by their status
and error, and the positions of the retried items give the rows that stay
pending. An attempt accounts for all rows of its request (`Answers`).
-/
import FastForward.Output.Elasticsearch

namespace FastForward.Output.Elasticsearch

open Core List Item

-- == attempts

/-- The rows an attempt leaves to be sent. -/
def SendAttempt.pending : SendAttempt → List Nat
  | .retryAfter pendingRows _ _ _ | .ioError pendingRows _ _ => pendingRows
  | .ok | .rejected _ _ => []

/-- What an attempt says was rejected. -/
def SendAttempt.rejections : SendAttempt → List String
  | .rejected rejections _ | .retryAfter _ rejections _ _ | .ioError _ rejections _ => rejections
  | .ok => []

@[simp] theorem labelAttemptRejections_pending (label : String) (attempt : SendAttempt) :
    (labelAttemptRejections label attempt).pending = attempt.pending := by
  cases attempt <;> rfl

@[simp] theorem labelAttemptRejections_rejections (label : String) (attempt : SendAttempt) :
    (labelAttemptRejections label attempt).rejections
      = prefixRejections label attempt.rejections := by
  cases attempt <;> rfl

@[simp] theorem prefixRejections_eq_nil (label : String) (rejections : List String) :
    prefixRejections label rejections = [] ↔ rejections = [] := by
  rw [prefixRejections, map_eq_nil_iff]

/-- Merging loses no row that is left. -/
theorem mergeSplitAttempts_pending (left right : SendAttempt) :
    (mergeSplitAttempts left right).pending.Perm (left.pending ++ right.pending) := by
  cases left <;> cases right <;>
    simp [mergeSplitAttempts, SendAttempt.pending, perm_append_comm]

/-- Nor a rejection. -/
theorem mergeSplitAttempts_rejections (left right : SendAttempt) :
    (mergeSplitAttempts left right).rejections.Perm (left.rejections ++ right.rejections) := by
  cases left <;> cases right <;>
    simp [mergeSplitAttempts, SendAttempt.rejections, perm_append_comm]

-- == items

/-- The numbers, from `idx` on, of the items that are to be retried. -/
def retryIndices (idx : Nat) (items : List Item) : List Nat :=
  ((items.zipIdx idx).filter fun p => p.1.isRetryable).map Prod.snd

theorem retryIndices_cons (idx : Nat) (item : Item) (items : List Item) :
    retryIndices idx (item :: items)
      = (if item.isRetryable then [idx] else []) ++ retryIndices (idx + 1) items := by
  rw [retryIndices, zipIdx_cons, filter_cons]
  cases item.isRetryable <;> rfl

theorem selectRows_cons (row : Nat) (rows : List Nat) (item : Item) (items : List Item)
    (select : Item → Bool) :
    selectRows (row :: rows) (item :: items) select
      = (if select item then [row] else []) ++ selectRows rows items select := by
  rw [selectRows, zip_cons_cons, filter_cons]
  cases select item <;> simp [selectRows]

/-- Item with a status, as a server sends them. -/
def Item.HasStatus (item : Item) : Prop :=
  ∃ status error, item = some { status := some status, error }

theorem Item.isFailed_of_isRetryable {item : Item} (h : item.isRetryable) :
    item.isFailed := by
  cases item with
  | none => cases h
  | some action =>
    obtain ⟨status, error⟩ := action
    cases status with
    | none => cases h
    | some status =>
      have hretry : IsRetryable status := of_decide_eq_true h
      have hge : 300 ≤ status := by omega
      simp [isFailed, hge]

/-- An item is retried, or adds an error, or is left alone. -/
theorem parseItem_spec {item : Item} (h : item.HasStatus) (idx : Nat) (result : BulkItemResult) :
    ∃ messages, parseItem idx item result = .ok
        { result with
          retryItems := result.retryItems ++ (if item.isRetryable then [idx] else [])
          permanentErrors := result.permanentErrors ++ messages }
      ∧ (messages = [] ↔ (item.isFailed && !item.isRetryable) = false) := by
  obtain ⟨status, error, rfl⟩ := h
  by_cases hretry : IsRetryable status
  · have hitem : isRetryable (some { status := some status, error }) :=
      decide_eq_true hretry
    refine ⟨[], ?_, by simp [hitem]⟩
    cases error <;> simp [parseItem, hretry, hitem]
  · have hitem : isRetryable (some { status := some status, error }) = false :=
      decide_eq_false hretry
    rw [hitem, if_neg Bool.false_ne_true, append_nil]
    cases error with
    | some e =>
      refine ⟨[?reason], ?parsed, by simp [isFailed]⟩
      case parsed =>
        simp only [parseItem, if_neg hretry]
        rfl
    | none =>
      by_cases hclient : 400 ≤ status
      · have hge : 300 ≤ status := by omega
        refine ⟨[?missing], ?parsed, by simp [isFailed, hge]⟩
        case parsed =>
          simp only [parseItem, if_neg hretry, if_pos hclient]
          rfl
      · by_cases hge : 300 ≤ status
        · refine ⟨[?unexpected], ?parsed, by simp [isFailed, hge]⟩
          case parsed =>
            simp only [parseItem, if_neg hretry, if_neg hclient, if_pos hge]
            rfl
        · refine ⟨[], ?_, by simp [isFailed, hge]⟩
          simp only [parseItem, if_neg hretry, if_neg hclient, if_neg hge, append_nil]

variable {items : List Item}

/-- The items of a response are sorted into retried and rejected. -/
theorem parseItems_spec (h : ∀ item ∈ items, item.HasStatus) (idx : Nat) (result : BulkItemResult) :
    ∃ messages, parseItems idx items result = .ok
        { result with
          retryItems := result.retryItems ++ retryIndices idx items
          permanentErrors := result.permanentErrors ++ messages }
      ∧ (messages = [] ↔ ∀ item ∈ items, (item.isFailed && !item.isRetryable) = false) := by
  induction items generalizing idx result with
  | nil => exact ⟨[], by simp [parseItems, retryIndices], by simp⟩
  | cons item items ih =>
    obtain ⟨hitem, hitems⟩ := forall_mem_cons.mp h
    obtain ⟨first, hfirst, hfirstNil⟩ := parseItem_spec hitem idx result
    rw [parseItems, hfirst]
    dsimp only
    obtain ⟨rest, hrest, hrestNil⟩ := ih hitems (idx + 1) _
    refine ⟨first ++ rest, ?_, ?_⟩
    · rw [hrest, retryIndices_cons]
      simp only [append_assoc]
    · rw [append_eq_nil_iff, hfirstNil, hrestNil, forall_mem_cons]

/-- The indices to retry name the rows of the items. -/
theorem filterMap_retryIndices (before rows : List Nat) (items : List Item)
    (h : items.length = rows.length) :
    (retryIndices before.length items).filterMap ((before ++ rows)[·]?)
      = selectRows rows items isRetryable := by
  induction rows generalizing before items with
  | nil =>
    rw [eq_nil_of_length_eq_zero h]
    rfl
  | cons row rows ih =>
    cases items with
    | nil => cases h
    | cons item items =>
      have hrest := ih (before ++ [row]) items (Nat.succ.inj h)
      rw [append_assoc, singleton_append, length_append, length_singleton] at hrest
      rw [retryIndices_cons, selectRows_cons, filterMap_append, hrest]
      cases item.isRetryable with
      | false => rfl
      | true => simp

/-- The rows of a request by what became of their items. -/
theorem selectRows_perm (rows : List Nat) (items : List Item) (h : items.length = rows.length) :
    (selectRows rows items (fun item => !item.isFailed)
      ++ selectRows rows items (fun item => item.isFailed && !item.isRetryable)
      ++ selectRows rows items isRetryable).Perm rows := by
  induction rows generalizing items with
  | nil =>
    exact .nil
  | cons row rows ih =>
    cases items with
    | nil => cases h
    | cons item items =>
      have hrest := perm_iff_count.mp (ih items (Nat.succ.inj h))
      refine perm_iff_count.mpr fun a => ?_
      have ha := hrest a
      simp only [selectRows_cons, count_append, count_cons] at ha ⊢
      cases hretry : item.isRetryable with
      | true =>
        simp [isFailed_of_isRetryable hretry, count_singleton]
        omega
      | false =>
        cases hfailed : item.isFailed <;> simp [count_singleton] <;> omega

-- == requests

/-- An attempt accounts for the rows of its request. One that failed on
the way has settled none of them. -/
structure Answers (rowIds : List Nat) (answer : Answer) (attempt : SendAttempt) : Prop where
  partition : (answer.accepted rowIds ++ answer.rejected rowIds ++ attempt.pending).Perm rowIds
  rejections : attempt.rejections = [] → answer.rejected rowIds = []
  unsettled : ∀ pending rejections error, attempt = .ioError pending rejections error →
    answer.accepted rowIds = [] ∧ answer.rejected rowIds = []

variable {rowIds : List Nat}

/-- All rows stay pending. -/
theorem Answers.of_kept {answer : Answer} {attempt : SendAttempt}
    (haccepted : answer.accepted rowIds = []) (hrejected : answer.rejected rowIds = [])
    (hpending : attempt.pending = rowIds) : Answers rowIds answer attempt where
  partition := by
    rw [haccepted, hrejected, hpending]
    exact .refl _
  rejections := fun _ => hrejected
  unsettled := fun _ _ _ _ => ⟨haccepted, hrejected⟩

/-- What the items of a response come to. -/
theorem bulkAttemptFromResult_spec (rowIds : List Nat) (items : List Item)
    (messages : List String) (hlength : items.length = rowIds.length) :
    let attempt := bulkAttemptFromResult rowIds
      { retryItems := retryIndices 0 items, permanentErrors := messages, itemCount := items.length }
    attempt.pending = selectRows rowIds items isRetryable ∧ attempt.rejections = messages
      ∧ ∀ pending rejections error, attempt ≠ .ioError pending rejections error := by
  have hrows : (retryIndices 0 items).filterMap (rowIds[·]?)
      = selectRows rowIds items isRetryable := filterMap_retryIndices [] rowIds items hlength
  unfold bulkAttemptFromResult
  by_cases hnone : retryIndices 0 items = [] ∧ messages = []
  · rw [← hrows, hnone.1, hnone.2]
    exact ⟨rfl, rfl, nofun⟩
  · rw [if_neg hnone, if_neg (not_not_intro hlength)]
    by_cases hretry : retryIndices 0 items = []
    · rw [← hrows, hretry]
      exact ⟨rfl, rfl, nofun⟩
    · rw [if_neg hretry, ← hrows]
      exact ⟨rfl, rfl, nofun⟩

theorem selectRows_eq_nil {rows : List Nat} {select : Item → Bool}
    (h : ∀ item ∈ items, select item = false) : selectRows rows items select = [] := by
  rw [selectRows, map_eq_nil_iff, filter_eq_nil_iff]
  intro p hp
  rw [h p.2 (of_mem_zip hp).2]
  exact Bool.false_ne_true

/-- A well-formed bulk response. -/
theorem attemptFromBody_bulk {errors : Bool}
    (hlength : items.length = rowIds.length) (hstatus : ∀ item ∈ items, item.HasStatus)
    (herrors : errors = items.any isFailed) :
    let attempt := attemptFromBody rowIds (.bulk errors (some items))
    attempt.pending = selectRows rowIds items isRetryable
      ∧ (attempt.rejections = [] ↔ ∀ item ∈ items, (item.isFailed && !item.isRetryable) = false)
      ∧ ∀ pending rejections error, attempt ≠ .ioError pending rejections error := by
  unfold attemptFromBody
  cases hflag : errors with
  | false =>
    have hnone : ∀ item ∈ items, item.isFailed = false := by
      rw [hflag] at herrors
      exact fun item hitem => Bool.eq_false_iff.mpr (any_eq_false.mp herrors.symm item hitem)
    have hretry : ∀ item ∈ items, item.isRetryable = false := fun item hitem =>
      Bool.eq_false_iff.mpr fun h =>
        Bool.eq_false_iff.mp (hnone item hitem) (isFailed_of_isRetryable h)
    rw [selectRows_eq_nil hretry]
    refine ⟨rfl, iff_of_true rfl fun item hitem => ?_, nofun⟩
    rw [hnone item hitem, Bool.false_and]
  | true =>
    rw [hflag] at herrors
    obtain ⟨failed, hfailed, hfails⟩ := any_eq_true.mp herrors.symm
    have hne : items ≠ [] := ne_nil_of_mem hfailed
    obtain ⟨messages, hparsed, hmessages⟩ :=
      parseItems_spec hstatus 0 { itemCount := items.length }
    simp only [nil_append] at hparsed
    -- the failed item is among the retried ones, or has left an error
    have hsome : ¬ (retryIndices 0 items = [] ∧ messages = []) := by
      rintro ⟨hretry, hnil⟩
      have hpermanent := hmessages.mp hnil failed hfailed
      rw [hfails, Bool.true_and, Bool.not_eq_false'] at hpermanent
      rw [retryIndices, map_eq_nil_iff, filter_eq_nil_iff] at hretry
      obtain ⟨i, hi, rfl⟩ := getElem_of_mem hfailed
      refine hretry (items[i], i) ?_ hpermanent
      rw [mk_mem_zipIdx_iff_getElem?]
      exact getElem?_eq_getElem hi
    rw [parseBulkResponseDetailed, if_neg hne, hparsed]
    dsimp only
    rw [if_neg hsome]
    obtain ⟨hpending, hrejections, hio⟩ :=
      bulkAttemptFromResult_spec rowIds items messages hlength
    exact ⟨hpending, by rw [hrejections]; exact hmessages, hio⟩

/-- A failed request concerns all of its rows. -/
theorem attemptFromFailure_spec {status : Nat} (hfailure : ¬ IsSuccess status) (what : String)
    (rowIds : List Nat) (retryAfter : Option Duration) (text : Option String)
    (body : Except String Body) :
    Answers rowIds (.response status retryAfter text body)
      (attemptFromFailure what rowIds status retryAfter text) := by
  have haccepted : Answer.accepted rowIds (.response status retryAfter text body) = [] := by
    unfold Answer.accepted
    split
    next heq =>
      cases heq
      exact if_neg hfailure
    next => rfl
  have hrejected : Answer.rejected rowIds (.response status retryAfter text body)
      = if IsPermanent status ∧ status ≠ 413 then rowIds else [] := if_neg hfailure
  unfold attemptFromFailure
  by_cases hlarge : status = 413
  · rw [if_pos hlarge]
    rw [if_neg fun h => h.2 hlarge] at hrejected
    exact .of_kept haccepted hrejected rfl
  · rw [if_neg hlarge]
    dsimp only
    by_cases hpermanent : IsPermanent status
    · rw [if_pos ⟨hpermanent, hlarge⟩] at hrejected
      rw [classifyHttpStatus_of_isPermanent hpermanent]
      refine ⟨?_, nofun, nofun⟩
      rw [haccepted, hrejected]
      exact .of_eq (append_nil _)
    · rw [if_neg fun h => hpermanent h.1] at hrejected
      rcases classifyHttpStatus_of_not_isPermanent hfailure hpermanent retryAfter _ with
        ⟨delay, hretry⟩ | ⟨e, hio, -⟩
      · rw [hretry]
        exact .of_kept haccepted hrejected rfl
      · rw [hio]
        exact .of_kept haccepted hrejected rfl

/-- An attempt answers for each row as the response does. -/
theorem doSend_spec {answer : Answer} (h : answer.WellFormed rowIds.length)
    (body : Bytes) : Answers rowIds answer (doSend rowIds body answer) := by
  cases answer with
  | transportError error => exact .of_kept rfl rfl rfl
  | response status retryAfter text responseBody =>
    unfold doSend
    dsimp only
    by_cases hsuccess : IsSuccess status
    · rw [if_pos hsuccess]
      cases responseBody with
      | error error => exact .of_kept rfl (if_pos hsuccess) rfl
      | ok parsed =>
        cases parsed with
        | unparsable error => exact .of_kept rfl (if_pos hsuccess) rfl
        | bulk errors items =>
          obtain ⟨items, rfl, hlength, hstatus, herrors⟩ := h hsuccess
          obtain ⟨hpending, hrejections, hio⟩ :=
            attemptFromBody_bulk hlength hstatus herrors
          refine ⟨?_, fun hnil => ?_, fun p r e heq => absurd heq (hio p r e)⟩
          · simp only [Answer.accepted, Answer.rejected, if_pos hsuccess, hpending]
            exact selectRows_perm rowIds items hlength
          · simp only [Answer.rejected, if_pos hsuccess]
            exact selectRows_eq_nil (hrejections.mp hnil)
    · rw [if_neg hsuccess]
      exact attemptFromFailure_spec hsuccess _ rowIds retryAfter text responseBody

end FastForward.Output.Elasticsearch
