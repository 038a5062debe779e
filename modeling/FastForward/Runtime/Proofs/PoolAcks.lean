/-
Which runs of the worker pool answer every submitted item exactly once.

Two quantities are followed through every transition. `custody` counts
where an item can be (acked, in the hands of the pool's task, with a
worker, dropped with a receiver): it grows by exactly what is submitted,
so nothing is ever acked twice. `stranded` counts the items dropped or
about to be dropped with the receiver of a worker that has decided to
exit: it never shrinks, and grows exactly in the steps that are not
`Safe`. At the end of a drain nothing is left but acks and stranded
items.

Nothing in the code excludes the unsafe runs: the pool sees an idle
worker's channel open for as long as its sink shuts down
(`slowShutdown_loses_item`).
-/
import Mathlib.Data.List.Perm.Subperm
import FastForward.Runtime.WorkerPool

namespace FastForward.Runtime

open Lib Pipeline List PoolTask Worker Option

variable {R : Type}

-- == counting

/-- How many of the items carry `c`. -/
def tally (c : Carried) (items : List (WorkItem R)) : Nat :=
  (items.map WorkItem.carried).count c

variable (c : Carried)

@[simp] theorem tally_nil : tally c ([] : List (WorkItem R)) = 0 := rfl

@[simp] theorem tally_append (l l' : List (WorkItem R)) :
    tally c (l ++ l') = tally c l + tally c l' := by
  simp [tally]

theorem tally_cons (item : WorkItem R) (l : List (WorkItem R)) :
    tally c (item :: l) = tally c [item] + tally c l :=
  tally_append c [item] l

/-- How many of the acks carry `c`. -/
def tallyAcks (c : Carried) (acks : List AckItem) : Nat :=
  (acks.map AckItem.carried).count c

@[simp] theorem tallyAcks_nil : tallyAcks c [] = 0 := rfl

@[simp] theorem tallyAcks_append (l l' : List AckItem) :
    tallyAcks c (l ++ l') = tallyAcks c l + tallyAcks c l' := by
  simp [tallyAcks]

@[simp] theorem tallyAcks_acked (item : WorkItem R)
    (outcome : DeliveryOutcome) : tallyAcks c [item.acked outcome] = tally c [item] :=
  rfl

/-- Replacing one element changes a sum by the difference of the two. -/
theorem sum_map_set {α : Type} (f : α → Nat) (b : α) :
    ∀ {l : List α} {i : Nat} {a : α}, l[i]? = some a →
      ((l.set i b).map f).sum + f a = (l.map f).sum + f b := by
  intro l
  induction l with
  | nil => intro i a h; simp at h
  | cons x l ih =>
    intro i a h
    cases i with
    | zero =>
      obtain rfl : x = a := by simpa using h
      simp only [set_cons_zero, map_cons, sum_cons]
      omega
    | succ i =>
      have hrest := ih (by simpa using h)
      simp only [set_cons_succ, map_cons, sum_cons]
      omega

-- == where an item can be

/-- The item a channel holds. -/
def queuedItems (queued : Option (WorkerMsg R)) : List (WorkItem R) :=
  (queued.bind WorkerMsg.item?).toList

def Worker.items : Worker R → List (WorkItem R)
  | .receiving queued => queuedItems queued
  | .processing item queued => item :: queuedItems queued
  | .exiting queued => queuedItems queued
  | .exited => []

/-- The items a worker has that it will never look at. -/
def Worker.unseen : Worker R → List (WorkItem R)
  | .exiting queued => queuedItems queued
  | .receiving _ => []
  | .processing _ _ => []
  | .exited => []

/-- The item the pool's task is submitting. -/
def PoolTask.items : PoolTask R → List (WorkItem R)
  | .trying item _ => [item]
  | .spawned item _ => [item]
  | .waiting item _ => [item]
  | .idle => []
  | .signalling _ => []
  | .joining => []

@[simp] theorem PoolTask.items_idle : (PoolTask.idle : PoolTask R).items = [] := rfl

variable (item : WorkItem R)

@[simp] theorem PoolTask.items_trying (i : Nat) :
    (PoolTask.trying item i).items = [item] := rfl

@[simp] theorem PoolTask.items_spawned (w : Nat) :
    (PoolTask.spawned item w).items = [item] := rfl

@[simp] theorem PoolTask.items_waiting (w : Nat) :
    (PoolTask.waiting item w).items = [item] := rfl

@[simp] theorem PoolTask.items_signalling (handles : List Nat) :
    (PoolTask.signalling handles : PoolTask R).items = [] := rfl

@[simp] theorem PoolTask.items_joining : (PoolTask.joining : PoolTask R).items = [] :=
  rfl

namespace OutputWorkerPool

/-- How many items that carry `c` are somewhere. -/
def custody (c : Carried) (p : OutputWorkerPool R) : Nat :=
  tallyAcks c p.acks + tally c p.task.items
    + (p.joinSet.map fun w => tally c w.items).sum + tally c p.lost

/-- How many items are lost or bound to be. -/
def stranded (p : OutputWorkerPool R) : Nat :=
  p.lost.length + (p.joinSet.map fun w => w.unseen.length).sum

theorem stranded_eq_zero (p : OutputWorkerPool R) : p.stranded = 0 ↔ p.NoneLeft := by
  rw [stranded, Nat.add_eq_zero_iff, length_eq_zero_iff,
    List.sum_eq_zero_iff_forall_eq_nat]
  refine and_congr_right fun _ => ?_
  constructor
  · intro h item hmem
    have := h _ (mem_map_of_mem hmem)
    simp [unseen, queuedItems, WorkerMsg.item?] at this
  · intro h n hn
    obtain ⟨w, hw, rfl⟩ := mem_map.mp hn
    rcases w with q | ⟨i, q⟩ | q | _
    · rfl
    · rfl
    · rcases q with _ | item | _
      · rfl
      · exact absurd hw (h item)
      · rfl
    · rfl

/-- Nothing is left to do: every worker has exited and no item is being
submitted. -/
structure AtRest (p : OutputWorkerPool R) : Prop where
  exited : ∀ worker ∈ p.joinSet, worker = .exited
  noItem : p.task.items = []

/-- What a step does to the two counts: `fresh` is submitted, `k` items
are stranded. A drain ends at rest only. -/
structure Moves (fresh : List (WorkItem R)) (k : Nat) (p p' : OutputWorkerPool R) :
    Prop where
  submitted : p'.submitted = p.submitted ++ fresh
  custody : ∀ c, p'.custody c = p.custody c + tally c fresh
  stranded : p'.stranded = p.stranded + k
  ended : p'.cancelled = p.cancelled ∨ p'.AtRest

end OutputWorkerPool

open OutputWorkerPool

-- == a worker's channel

theorem isExited_iff {worker : Worker R} : worker.isExited ↔ worker = .exited := by
  cases worker <;> simp [isExited]

/-- The step that strands a message: it goes to a worker in
`sink.shutdown()`. -/
def exitRisk (worker : Worker R) : Nat := if worker.isOpenExit then 1 else 0

variable {msg : WorkerMsg R} {worker' : Worker R}

/-- A message sent is one more item with the worker. -/
theorem trySend_items {worker : Worker R} (h : worker.trySend msg = .ok worker') (c : Carried) :
    tally c worker'.items = tally c worker.items + tally c (queuedItems (some msg)) := by
  rcases worker with (_ | m) | ⟨item, _ | m⟩ | (_ | m) | _
  all_goals cases h
  · simp [Worker.items, queuedItems]
  · rw [Worker.items, tally_cons, Worker.items]
    simp [queuedItems]
  · simp [Worker.items, queuedItems]

/-- It is stranded exactly when the worker is in `sink.shutdown()`. -/
theorem trySend_unseen {worker : Worker R} (h : worker.trySend msg = .ok worker') :
    worker'.unseen.length
      = worker.unseen.length + exitRisk worker * (queuedItems (some msg)).length := by
  rcases worker with (_ | m) | ⟨item, _ | m⟩ | (_ | m) | _
  all_goals cases h
  · simp [unseen, exitRisk, isOpenExit]
  · simp [unseen, exitRisk, isOpenExit]
  · simp [unseen, exitRisk, isOpenExit, queuedItems]

/-- A worker in `sink.shutdown()` with room never turns a message away. -/
theorem exitRisk_of_error {worker : Worker R} {e : TrySendError}
    (h : worker.trySend msg = .error e) : exitRisk worker = 0 := by
  rcases worker with (_ | m) | ⟨item, _ | m⟩ | (_ | m) | _
  all_goals first | rfl | cases h

-- == the pool's own steps

section PoolSteps

variable {p : OutputWorkerPool R} {item : WorkItem R} (ht : p.task.items = [item])

include ht

/-- An answer by the pool's task moves the item to the acks. -/
theorem reject_moves (outcome : DeliveryOutcome) :
    Moves [] 0 p (p.reject item outcome) where
  submitted := by simp [reject]
  custody := by
    intro c
    simp only [custody, reject, ht, tallyAcks_append, tallyAcks_acked, items_idle]
    omega
  stranded := rfl
  ended := .inl rfl

/-- A message accepted by a channel moves the item to the worker. -/
theorem sendTo_moves {w : Nat} {worker worker' : Worker R}
    (hw : p.joinSet[w]? = some worker) (hs : worker.trySend (.work item) = .ok worker') :
    Moves [] (exitRisk worker) p (p.sendTo w worker') where
  submitted := by simp [sendTo]
  custody := by
    intro c
    have hset := sum_map_set (fun w => tally c w.items) worker' hw
    have hone : tally c worker'.items = tally c worker.items + tally c [item] :=
      trySend_items hs c
    simp only [custody, sendTo, ht, items_idle]
    omega
  stranded := by
    have hset := sum_map_set (fun w => w.unseen.length) worker' hw
    have hone : worker'.unseen.length = worker.unseen.length + exitRisk worker * 1 :=
      trySend_unseen hs
    simp only [stranded, sendTo]
    omega
  ended := .inl rfl

/-- Handing the item to another place of the task moves nothing. -/
theorem keep_moves {task : PoolTask R} (ht' : task.items = [item]) (workers : List Nat) :
    Moves [] 0 p { p with task, workers } where
  submitted := by simp
  custody := by intro c; simp [custody, ht, ht']
  stranded := rfl
  ended := .inl rfl

theorem awaitFront_moves : Moves [] 0 p (p.awaitFront item) := by
  rw [awaitFront]
  split
  next front rest h => exact keep_moves ht rfl _
  next h => exact reject_moves ht _

theorem spawnOrWait_moves (factoryOk : Bool) :
    Moves [] 0 p (p.spawnOrWait item factoryOk) := by
  rw [spawnOrWait]
  split
  · exact
      { submitted := by simp
        custody := by
          intro c
          simp [custody, ht, Worker.items, queuedItems]
        stranded := by simp [stranded, unseen]
        ended := .inl rfl }
  · exact awaitFront_moves ht

variable {w : Nat} {worker : Worker R}

variable (hw : p.joinSet[w]? = some worker)

include hw

theorem tryHandle_moves (i : Nat) : Moves [] (exitRisk worker) p (p.tryHandle item i w worker) := by
  rw [tryHandle]
  split
  next worker' hs =>
    have h := sendTo_moves ht hw hs
    exact ⟨h.submitted, h.custody, h.stranded, .inl rfl⟩
  next hs => rw [exitRisk_of_error hs]; exact keep_moves ht rfl _
  next hs => rw [exitRisk_of_error hs]; exact keep_moves ht rfl _

theorem trySpawned_moves :
    Moves [] (exitRisk worker) p (p.trySpawned item w worker) := by
  rw [trySpawned]
  split
  next worker' hs =>
    have h := sendTo_moves ht hw hs
    exact ⟨h.submitted, h.custody, h.stranded, .inl rfl⟩
  next hs =>
    rw [exitRisk_of_error hs]
    have h := awaitFront_moves (p := { p with workers := w :: p.workers }) ht
    exact ⟨h.submitted, h.custody, h.stranded, h.ended⟩
  next hs => rw [exitRisk_of_error hs]; exact awaitFront_moves ht

theorem trySendFront_moves {p' : OutputWorkerPool R}
    (h : p.trySendFront item w worker = some p') :
    Moves [] (exitRisk worker) p p' := by
  rw [trySendFront] at h
  split at h
  next worker' hs =>
    cases h
    exact sendTo_moves ht hw hs
  next hs => cases h
  next hs =>
    cases h
    rw [exitRisk_of_error hs]
    exact reject_moves ht _

omit hw

omit ht

/-- A shutdown message is no item. -/
theorem signal_moves (ht : p.task.items = []) (hw : p.joinSet[w]? = some worker)
    (rest : List Nat) : Moves [] 0 p (p.signal w rest worker) := by
  rw [signal]
  split
  next worker' hs =>
    refine ⟨by simp, fun c => ?_, ?_, .inl rfl⟩
    · have hset := sum_map_set (fun w => tally c w.items) worker' hw
      have hone : tally c worker'.items = tally c worker.items + 0 := trySend_items hs c
      simp only [custody, ht, items_signalling, tally_nil]
      omega
    · have hset := sum_map_set (fun w => w.unseen.length) worker' hw
      have hone : worker'.unseen.length = worker.unseen.length + exitRisk worker * 0 :=
        trySend_unseen hs
      simp only [stranded]
      omega
  next => exact ⟨by simp, fun c => by simp [custody, ht], rfl, .inl rfl⟩

end PoolSteps

variable {p p' : OutputWorkerPool R}

/-- One step of the pool's task. -/
theorem step_moves {factoryOk : Bool} (h : p.step factoryOk = some p') :
    ∃ k, Moves [] k p p' ∧ (k = 0 ↔ PoolOp.Safe p (.step factoryOk)) := by
  rw [step] at h
  simp only [PoolOp.Safe, target]
  cases ht : p.task with
  | idle => rw [ht] at h; cases h
  | trying item i =>
    rw [ht] at h
    cases hi : p.workers[i]? with
    | none =>
      simp only [hi] at h
      cases h
      exact ⟨0, spawnOrWait_moves (by rw [ht]; rfl) _, by simp [hi]⟩
    | some w =>
      simp only [hi] at h
      obtain ⟨worker, hw, rfl⟩ := map_eq_some_iff.mp h
      exact ⟨_, tryHandle_moves (by rw [ht]; rfl) hw i, by simp [hi, hw, exitRisk]⟩
  | spawned item w =>
    simp only [ht] at h
    obtain ⟨worker, hw, rfl⟩ := map_eq_some_iff.mp h
    exact ⟨_, trySpawned_moves (by rw [ht]; rfl) hw, by simp [hw, exitRisk]⟩
  | waiting item w =>
    simp only [ht] at h
    obtain ⟨worker, hw, hsend⟩ := bind_eq_some_iff.mp h
    exact ⟨_, trySendFront_moves (by rw [ht]; rfl) hw hsend, by simp [hw, exitRisk]⟩
  | signalling handles =>
    refine ⟨0, ?_, by simp⟩
    cases handles with
    | nil =>
      simp only [ht] at h
      cases h
      exact ⟨by simp, fun c => by simp [custody, ht], rfl, .inl rfl⟩
    | cons w rest =>
      simp only [ht] at h
      obtain ⟨worker, hw, rfl⟩ := map_eq_some_iff.mp h
      exact signal_moves (by rw [ht]; rfl) hw rest
  | joining =>
    refine ⟨0, ?_, by simp⟩
    simp only [ht] at h
    split at h
    next hall =>
      cases h
      refine ⟨by simp, fun c => by simp [custody, ht], rfl, .inr ⟨?_, rfl⟩⟩
      intro worker hmem
      exact isExited_iff.mp (all_eq_true.mp hall worker hmem)
    next => cases h

-- == worker steps

/-- The worker step that strands an item: a panic with another queued. -/
def panicRisk (op : WorkerOp) (worker : Worker R) : Nat :=
  match op with
  | .attempt .panicked => if worker.hasBacklog then 1 else 0
  | _ => 0

theorem finishItem_spec (item : WorkItem R) (queued : Option (WorkerMsg R)) (result : SendAttempt) :
    let r := finishItem item queued result
    (∀ c, tally c (.processing item queued : Worker R).items
      = tally c r.worker.items + tallyAcks c r.ack.toList)
    ∧ r.dropped = none
    ∧ r.worker.unseen.length
      = panicRisk (.attempt result) (.processing item queued : Worker R) := by
  have hqueue : ∀ c, tally c (item :: queuedItems queued)
      = tally c (queuedItems queued) + tally c [item] := by
    intro c
    rw [tally_cons]
    omega
  cases result with
  | panicked =>
    refine ⟨fun c => ?_, rfl, ?_⟩
    · simp only [finishItem, processItem, Worker.items, hqueue, if_true,
        toList_some, tallyAcks_acked]
    · rcases queued with _ | _ | _ <;> rfl
  | _ =>
    refine ⟨fun c => ?_, rfl, rfl⟩
    simp [finishItem, processItem, Worker.items, hqueue]

variable {r : WorkerStep R}

/-- A worker's items are kept, acked or dropped, and an item becomes one
the worker will never look at in a panic only. -/
theorem workerTask_spec {op : WorkerOp} {worker : Worker R} (h : workerTask op worker = some r) :
    (∀ c, tally c worker.items = tally c r.worker.items + tallyAcks c r.ack.toList
      + tally c (queuedItems r.dropped))
    ∧ r.worker.unseen.length + (queuedItems r.dropped).length
      = worker.unseen.length + panicRisk op worker := by
  unfold workerTask at h
  split at h
  next item => cases h; exact ⟨fun c => rfl, rfl⟩
  next => cases h; exact ⟨fun c => rfl, rfl⟩
  next => cases h; exact ⟨fun c => rfl, rfl⟩
  next result item queued =>
    cases h
    obtain ⟨hitems, hdropped, hunseen⟩ := finishItem_spec item queued result
    refine ⟨fun c => ?_, ?_⟩
    · rw [hitems c, hdropped]
      rfl
    · rw [hdropped, hunseen]
      simp [queuedItems, unseen]
  next queued =>
    cases h
    refine ⟨fun c => ?_, ?_⟩
    · simp [Worker.items]
    · simp [unseen, panicRisk]
  next => cases h

theorem workerStep_moves {w : Nat} {op : WorkerOp}
    {worker : Worker R} (hw : p.joinSet[w]? = some worker)
    (h : workerTask op worker = some r) : Moves [] (panicRisk op worker) p (p.workerStep w r) := by
  obtain ⟨hitems, hunseen⟩ := workerTask_spec h
  have hlen : (p.lost ++ queuedItems r.dropped).length
      = p.lost.length + (queuedItems r.dropped).length := length_append
  refine ⟨by simp [workerStep], fun c => ?_, ?_, .inl rfl⟩
  · have hset := sum_map_set (fun w => tally c w.items) r.worker hw
    have hone := hitems c
    have hlost := tally_append c p.lost (queuedItems r.dropped)
    simp only [queuedItems] at hone hlost
    simp only [custody, workerStep, tallyAcks_append, tally_nil]
    omega
  · have hset := sum_map_set (fun w => w.unseen.length) r.worker hw
    simp only [queuedItems] at hlen hunseen
    simp only [stranded, workerStep]
    omega

-- == every step

variable {op : PoolOp R}

/-- What any transition does: it submits at most one item, and it strands
one exactly when it is not safe. -/
theorem apply_moves (h : op.apply p = some p') :
    ∃ fresh k, Moves fresh k p p' ∧ (k = 0 ↔ op.Safe p) := by
  cases op with
  | submit item =>
    refine ⟨[item], 0, ?_, by simp [PoolOp.Safe]⟩
    rw [PoolOp.apply] at h
    split at h
    next ht =>
      cases h
      rw [submit]
      split
      · refine ⟨rfl, fun c => ?_, rfl, .inl rfl⟩
        simp only [custody, reject, ht, tallyAcks_append, tallyAcks_acked]
        omega
      · refine ⟨rfl, fun c => ?_, rfl, .inl rfl⟩
        simp only [custody, ht, items_idle, items_trying, tally_nil]
        omega
    next => cases h
  | drain =>
    refine ⟨[], 0, ?_, by simp [PoolOp.Safe]⟩
    rw [PoolOp.apply] at h
    split at h
    next ht =>
      cases h
      exact ⟨by simp [drain], fun c => by simp [custody, drain, ht], rfl, .inl rfl⟩
    next => cases h
  | step factoryOk => exact ⟨[], step_moves h⟩
  | worker w op =>
    rw [PoolOp.apply] at h
    split at h
    next => cases h
    next task hw =>
      obtain ⟨r, hr, rfl⟩ := map_eq_some_iff.mp h
      refine ⟨[], _, workerStep_moves hw hr, ?_⟩
      rcases op with _ | _ | result | _
      · simp [panicRisk, PoolOp.Safe]
      · simp [panicRisk, PoolOp.Safe]
      · cases result <;> simp [panicRisk, PoolOp.Safe, hw]
      · simp [panicRisk, PoolOp.Safe]

-- == whole runs

/-- A pool at rest whose drain is over stays so, whatever is still
submitted to it. -/
theorem atRest_step
    (hc : p.cancelled) (hr : p.AtRest) (h : op.apply p = some p') : p'.AtRest := by
  have hexited : ∀ {w : Nat} {worker : Worker R}, p.joinSet[w]? = some worker →
      worker = .exited := fun hw => hr.exited _ (mem_of_getElem? hw)
  have hitem := hr.noItem
  cases op with
  | submit item =>
    rw [PoolOp.apply] at h
    split at h
    next ht =>
      cases h
      simp only [submit, hc]
      exact ⟨hr.exited, rfl⟩
    next => cases h
  | drain =>
    rw [PoolOp.apply] at h
    split at h
    next ht =>
      cases h
      exact ⟨hr.exited, rfl⟩
    next => cases h
  | step factoryOk =>
    rw [PoolOp.apply, step] at h
    cases ht : p.task with
    | idle => simp only [ht] at h; cases h
    | trying item i | spawned item w | waiting item w => simp [ht] at hitem
    | signalling handles =>
      cases handles with
      | nil =>
        simp only [ht] at h
        cases h
        exact ⟨hr.exited, rfl⟩
      | cons w rest =>
        simp only [ht] at h
        obtain ⟨worker, hw, rfl⟩ := map_eq_some_iff.mp h
        obtain rfl := hexited hw
        exact ⟨hr.exited, rfl⟩
    | joining =>
      simp only [ht] at h
      split at h
      next => cases h; exact ⟨hr.exited, rfl⟩
      next => cases h
  | worker w op =>
    rw [PoolOp.apply] at h
    split at h
    next => cases h
    next task hw =>
      obtain rfl := hexited hw
      obtain ⟨r, hr', _⟩ := map_eq_some_iff.mp h
      cases op <;> cases hr'

/-- In every state of every run: everything submitted is somewhere, and
after a drain the pool is at rest. -/
structure PoolInv (p : OutputWorkerPool R) : Prop where
  balanced : ∀ c, p.custody c = tally c p.submitted
  drained : p.Drained → p.AtRest

theorem PoolInv.step (hi : PoolInv p) (h : op.apply p = some p') : PoolInv p' := by
  obtain ⟨fresh, k, hm, _⟩ := apply_moves h
  refine ⟨fun c => ?_, fun hd => ?_⟩
  · rw [hm.custody c, hi.balanced c, hm.submitted, tally_append]
  · rcases hm.ended with hsame | hrest
    · have hc : p.cancelled = true := hsame ▸ hd
      exact atRest_step hc (hi.drained hc) h
    · exact hrest

variable {ops : List (PoolOp R)} {maxWorkers : Nat}

variable (hrun : runList PoolOp.apply (.new maxWorkers) ops = some p)

include hrun

theorem poolInv_run : PoolInv p := by
  have h0 : PoolInv (.new maxWorkers : OutputWorkerPool R) :=
    ⟨fun c => rfl, fun hd => nomatch hd⟩
  refine ReachableWhen.invariant h0 ?_ (runList_reachable ops .init hrun)
  intro op p p' hi _ h
  exact hi.step h

/-- No item is left with a worker that decided to exit exactly when every
step of the run was safe. -/
theorem noneLeft_iff_safe :
    p.NoneLeft ↔ StepsMeet PoolOp.apply (fun p op => op.Safe p) (.new maxWorkers) ops := by
  have hstep : ∀ (op : PoolOp R) (p p' : OutputWorkerPool R), op.apply p = some p' →
      (p'.stranded = 0 ↔ p.stranded = 0 ∧ op.Safe p) := by
    intro op p p' h
    obtain ⟨fresh, k, hm, hsafe⟩ := apply_moves h
    rw [hm.stranded, ← hsafe]
    omega
  have hiff := runList_iff_stepsMeet hstep ops hrun
  rw [← stranded_eq_zero, hiff]
  exact and_iff_right rfl

omit hrun

/-- Acks answer submitted items, each at most once. -/
theorem PoolInv.acks_subperm (hi : PoolInv p) :
    (p.acks.map AckItem.carried).Subperm (p.submitted.map WorkItem.carried) := by
  rw [subperm_ext_iff]
  intro c _
  have hb := hi.balanced c
  simp only [custody] at hb
  show tallyAcks c p.acks ≤ tally c p.submitted
  omega

/-- At rest what is not acked is lost. -/
theorem PoolInv.tally_drained (hi : PoolInv p)
    (hd : p.Drained) (c : Carried) : tally c p.submitted = tallyAcks c p.acks + tally c p.lost := by
  have hrest := hi.drained hd
  have hworkers : (p.joinSet.map fun w => tally c w.items).sum = 0 := by
    rw [List.sum_eq_zero_iff_forall_eq_nat]
    intro n hn
    obtain ⟨worker, hmem, rfl⟩ := mem_map.mp hn
    rw [hrest.exited worker hmem]
    rfl
  have hb := hi.balanced c
  simp only [custody, hrest.noItem, tally_nil] at hb
  omega

/-- After a drain every item is acked exactly once when none was left
with a worker that decided to exit, and only then. -/
theorem PoolInv.ackedOnce_iff (hi : PoolInv p) (hd : p.Drained) : p.AckedOnce ↔ p.NoneLeft := by
  have hexit : ∀ item, exiting (some (.work item)) ∉ p.joinSet := by
    intro item hmem
    cases (hi.drained hd).exited _ hmem
  rw [AckedOnce, NoneLeft, and_iff_left hexit, perm_iff_count]
  constructor
  · intro h
    rw [eq_nil_iff_forall_not_mem]
    intro item hmem
    have hacked : tallyAcks item.carried p.acks = tally item.carried p.submitted :=
      h item.carried
    have hsplit := hi.tally_drained hd item.carried
    have hpos : 0 < tally item.carried p.lost :=
      count_pos_iff.mpr (mem_map_of_mem hmem)
    omega
  · intro hlost c
    have hsplit := hi.tally_drained hd c
    rw [hlost] at hsplit
    exact hsplit.symm

/-- Every run of a pool with any number of workers, any sinks and any
timing: no submitted item is left in the channel of a worker that has
decided to exit if and only if every step was safe; no item is acked
twice in any run; and once a drain is over, each submitted item has
exactly one ack if and only if every step was safe. -/
theorem acked_once_iff_safe {maxWorkers : Nat} {ops : List (PoolOp R)}
    {p : OutputWorkerPool R}
    (hrun : runList PoolOp.apply (.new maxWorkers) ops = some p) :
    let safe := StepsMeet PoolOp.apply (fun p op => op.Safe p) (.new maxWorkers) ops
    (p.NoneLeft ↔ safe)
    ∧ (p.acks.map AckItem.carried).Subperm (p.submitted.map WorkItem.carried)
    ∧ (p.Drained → (p.AckedOnce ↔ safe)) := by
  have hi := poolInv_run hrun
  have hleft := noneLeft_iff_safe hrun
  exact ⟨hleft, hi.acks_subperm, fun hd => (hi.ackedOnce_iff hd).trans hleft⟩

-- == two schedules

/-- An item with one ticket, told apart by the ticket's id. -/
def oneTicketItem (id : Nat) : WorkItem Unit :=
  { batch := (), numRows := 1
    tickets := [{ id, source := 0, checkpoint := 10 * id, attempts := 0 }] }

/-- The first item goes to a fresh worker and is delivered. -/
def firstDelivered : List (PoolOp Unit) :=
  [.submit (oneTicketItem 0), .step true, .step true, .worker 0 .recv,
    .worker 0 (.attempt .ioError), .worker 0 (.attempt .ok)]

/-- The worker then times out, and the second item is submitted while its
sink is still shutting down. -/
def slowShutdown : List (PoolOp Unit) :=
  firstDelivered ++
    [.worker 0 .recvNone, .submit (oneTicketItem 1), .step true,
      .worker 0 .shutdownDone, .drain, .step true, .step true, .step true]

/-- The second item is submitted when the sink has shut down: its handle
is pruned and a new worker spawned. -/
def promptShutdown : List (PoolOp Unit) :=
  firstDelivered ++
    [.worker 0 .recvNone, .worker 0 .shutdownDone, .submit (oneTicketItem 1),
      .step true, .step true, .step true, .worker 1 .recv,
      .worker 1 (.attempt .panicked), .worker 1 .shutdownDone, .drain, .step true,
      .step true, .step true]

/-- With one worker allowed, the slow shutdown ends in a completed drain
in which the second item has no ack. -/
theorem slowShutdown_loses_item :
    ∃ p, runList PoolOp.apply (.new 1) slowShutdown = some p ∧ p.Drained
      ∧ ¬ p.AckedOnce := by
  have h : (runList PoolOp.apply (.new 1) slowShutdown).map
      (fun p => (p.cancelled, p.acks.length, p.submitted.length)) = some (true, 1, 2) := by
    decide +kernel
  obtain ⟨p, hrun, hp⟩ := map_eq_some_iff.mp h
  obtain ⟨hcancelled, hacks, hsubmitted⟩ : p.cancelled = true ∧ p.acks.length = 1
      ∧ p.submitted.length = 2 := by simpa using hp
  refine ⟨p, hrun, hcancelled, fun hperm => ?_⟩
  have hlen := hperm.length_eq
  simp only [length_map] at hlen
  omega

/-- The prompt shutdown is safe throughout, a panic at the end included. -/
theorem acked_once_iff_safe_promptShutdown :
    ∃ p, runList PoolOp.apply (.new 1) promptShutdown = some p ∧ p.Drained
      ∧ StepsMeet PoolOp.apply (fun p op => op.Safe p) (.new 1) promptShutdown := by
  have h : (runList PoolOp.apply (.new 1) promptShutdown).map
      (fun p => (p.cancelled, p.lost.length, p.joinSet.all isExited)) = some (true, 0, true) := by
    decide +kernel
  obtain ⟨p, hrun, hp⟩ := map_eq_some_iff.mp h
  obtain ⟨hcancelled, hlost, hexited⟩ : p.cancelled = true ∧ p.lost = []
      ∧ ∀ worker ∈ p.joinSet, worker.isExited = true := by simpa using hp
  refine ⟨p, hrun, hcancelled, (acked_once_iff_safe hrun).1.mp ⟨hlost, ?_⟩⟩
  intro item hmem
  cases hexited _ hmem

end FastForward.Runtime
