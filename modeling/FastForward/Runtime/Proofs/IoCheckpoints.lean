/-
When a chunk's checkpoints cover only delivered bytes.

The snapshot a chunk carries is taken when it is sent, and by then the
input has read the whole poll. So a send is harmless exactly when the
events of the poll that no chunk holds yet carry no source's bytes
(`checkpoints_le_iff`). Everything else is bookkeeping: sent items,
buffer and remaining events together are what was read, and one lemma
about a send (`Sends.covered_iff`) serves the direct flush, the buffer
flush and the batch item.
-/
import FastForward.Runtime.IoRun

namespace FastForward.Runtime

open Lib Pipeline Io List

variable {base : SourceId → Nat} {env : IoEnv SourceByte SourceBatch}

-- == offsets

theorem bytesOf_append (s : SourceId) (p q : List SourceByte) :
    bytesOf s (p ++ q) = bytesOf s p ++ bytesOf s q := by
  simp [bytesOf]

/-- Consecutive offsets: the running maximum is the count. -/
theorem foldl_max_offset (l : List SourceByte) :
    ∀ m, l.map (·.offset) = List.range' m l.length →
      l.foldl (fun m b => max m (b.offset + 1)) m = m + l.length := by
  induction l with
  | nil => intro m _; rfl
  | cons b l ih =>
    intro m h
    rw [map_cons] at h
    obtain ⟨hb, hl⟩ := cons.inj h
    rw [foldl_cons, hb, show max m (m + 1) = m + 1 by omega, ih _ hl,
      length_cons]
    omega

variable {p : List SourceByte}

theorem Consecutive.left {q : List SourceByte} (h : Consecutive base (p ++ q)) :
    Consecutive base p := by
  intro s
  have hs := h s
  rw [bytesOf_append, map_append, length_append, ← range'_append_1] at hs
  exact (append_inj hs (by simp)).1

theorem Consecutive.endOffset_eq (h : Consecutive base p)
    (s : SourceId) : endOffset base s p = base s + (bytesOf s p).length :=
  foldl_max_offset _ _ (h s)

/-- No source's bytes: no bytes of any source that is asked about. -/
theorem noSource_iff {bytes : List SourceByte} {active : List SourceId}
    (hactive : ∀ b ∈ bytes, ∀ s, b.source = some s → s ∈ active) :
    NoSource bytes ↔ ∀ s ∈ active, (bytesOf s bytes).length = 0 := by
  constructor
  · intro h s _
    rw [length_eq_zero_iff, bytesOf, filter_eq_nil_iff]
    intro b hb
    simp [h b hb]
  · intro h b hb
    cases hs : b.source with
    | none => rfl
    | some s =>
      have hnil := length_eq_zero_iff.mp (h s (hactive b hb s hs))
      have hmem : b ∈ bytesOf s bytes := by simp [bytesOf, hb, hs]
      rw [hnil] at hmem
      cases hmem

/-- A snapshot taken when `sent` has left and `unsent` has not: within
what has left exactly when no source's bytes are unsent. -/
theorem checkpoints_le_iff {sent unsent : List SourceByte} {active : List SourceId}
    {paths : List (SourceId × String)} (hcons : Consecutive base (sent ++ unsent))
    (hactive : ∀ b ∈ unsent, ∀ s, b.source = some s → s ∈ active) :
    (∀ p ∈ (viewOf base (sent ++ unsent) active paths).checkpointData,
        p.2 ≤ endOffset base p.1 sent)
      ↔ NoSource unsent := by
  rw [noSource_iff hactive]
  simp only [viewOf, forall_mem_map, hcons.left.endOffset_eq, readOffset,
    bytesOf_append, length_append]
  constructor
  · intro h s hs
    have := h s hs
    omega
  · intro h s hs
    have := h s hs
    omega

-- == items

theorem itemsBytes_concat (items : List Item) (item : Item) :
    itemsBytes (items ++ [item]) = itemsBytes items ++ itemBytes item := by
  simp [itemsBytes]

/-- One more item: its own checkpoints are to be covered too. -/
theorem covered_concat {items : List Item} {item : Item} :
    Covered base (items ++ [item])
      ↔ Covered base items ∧ ∀ p ∈ item.checkpoints,
          p.2 ≤ endOffset base p.1 (itemsBytes (items ++ [item])) := by
  constructor
  · intro h
    refine ⟨fun pre x hpre => h pre x ?_, h items item (prefix_refl _)⟩
    exact hpre.trans (prefix_append _ _)
  · intro h pre x hpre
    rcases prefix_concat_iff.mp hpre with heq | hpre
    · obtain ⟨hp, hx⟩ := append_inj' heq rfl
      cases hx
      rw [hp]
      exact h.2
    · exact h.1 pre x hpre

-- == sends

/-- What a send of `data` does: nothing on a closed channel, else one
more item that carries the data and the input's snapshot. -/
inductive Sends (view : SourceView) (tx : Tx SourceByte SourceBatch)
    (data : List SourceByte) : Bool → Tx SourceByte SourceBatch → Prop
  | closed (hroom : tx.room = some 0) : Sends view tx data false tx
  | sent (item : Item) (hroom : tx.room ≠ some 0)
      (hdata : itemBytes item = data)
      (hck : item.checkpoints = view.checkpointData) :
      Sends view tx data true
        { sent := tx.sent ++ [item], room := tx.room.map (· - 1) }

theorem Tx.sends {view : SourceView} (tx : Tx SourceByte SourceBatch) (item : Item)
    (hck : item.checkpoints = view.checkpointData) :
    Sends view tx (itemBytes item) (tx.send item).1 (tx.send item).2 := by
  obtain ⟨sent, room⟩ := tx
  match room with
  | some 0 => exact .closed rfl
  | some (n + 1) => exact .sent item (by simp) rfl hck
  | none => exact .sent item (by simp) rfl hck

variable {unsent : List SourceByte} {K : Option Nat → Prop} {room : Option Nat}

theorem safeSend_closed (h : room = some 0) : SafeSend room unsent K := by
  subst h
  trivial

theorem safeSend_open (h : room ≠ some 0) :
    SafeSend room unsent K ↔ NoSource unsent ∧ K (room.map (· - 1)) := by
  match room with
  | some 0 => exact absurd rfl h
  | some (n + 1) => rfl
  | none => rfl

/-- Where the worker is within a poll: items sent, bytes at hand and
bytes still to come are together what the input has read. -/
structure Conserves (base : SourceId → Nat) (active : List SourceId)
    (sent hand unsent read : List SourceByte) : Prop where
  read_eq : sent ++ hand ++ unsent = read
  consecutive : Consecutive base read
  active : ∀ b ∈ unsent, ∀ s, b.source = some s → s ∈ active

section Send

variable {active : List SourceId} {paths : List (SourceId × String)} {read : List SourceByte}
  {tx tx' : Tx SourceByte SourceBatch} {data : List SourceByte}

/-- The one fact about a send. `X` is the outcome of the rest of the
poll, known after the send. -/
theorem Sends.covered_iff {ok : Bool} (h : Sends (viewOf base read active paths) tx data ok tx')
    (hc : Conserves base active (itemsBytes tx.sent) data unsent read)
    {X : Prop}
    (hstop : ok = false → (X ↔ Covered base tx'.sent))
    (hgo : ok → (X ↔ Covered base tx'.sent ∧ K tx'.room)) :
    X ↔ Covered base tx.sent ∧ SafeSend tx.room unsent K := by
  cases h with
  | closed hroom =>
    rw [hstop rfl]
    exact ⟨fun h => ⟨h, safeSend_closed hroom⟩, fun h => h.1⟩
  | sent item hroom hdata hck =>
    have hitems : itemsBytes (tx.sent ++ [item]) = itemsBytes tx.sent ++ data := by
      rw [itemsBytes_concat, hdata]
    have hread := hc.read_eq
    have hcons := hc.consecutive
    subst hread
    rw [hgo rfl, safeSend_open hroom, covered_concat, hck, hitems,
      checkpoints_le_iff hcons hc.active, and_assoc]

section Flush

variable (r : Bool × IoState SourceByte SourceBatch)

theorem afterFlush_fst : (afterFlush r).1 = r.1 := by
  unfold afterFlush
  split
  · next h => exact h.symm
  · rfl

theorem afterFlush_buf : (afterFlush r).2.buf = r.2.buf := by
  unfold afterFlush
  split <;> rfl

theorem afterFlush_tx : (afterFlush r).2.tx = r.2.tx := by
  unfold afterFlush
  split <;> rfl

/-- What a flush does: it empties the buffer, with a send if there is
anything in it. -/
theorem flushBuf_cases (env : IoEnv SourceByte SourceBatch) (view : SourceView)
    (st : IoState SourceByte SourceBatch) :
    let r := afterFlush (flushBuf env view st)
    r.2.buf = [] ∧ ((st.buf = [] ∧ r.1 ∧ r.2.tx = st.tx)
      ∨ (st.buf ≠ [] ∧ Sends view st.tx st.buf r.1 r.2.tx)) := by
  simp only [afterFlush_fst, afterFlush_buf, afterFlush_tx]
  unfold flushBuf
  by_cases h : st.buf = []
  · rw [if_pos (by simp [h])]
    exact ⟨h, .inl ⟨h, rfl, rfl⟩⟩
  · rw [if_neg (by simp [h])]
    exact ⟨rfl, .inr ⟨h, Tx.sends st.tx (.rawBatch (st.chunk env view st.buf)) rfl⟩⟩

end Flush

variable {view : SourceView}

theorem Sends.itemsBytes_eq (h : Sends view tx data true tx') :
    itemsBytes tx'.sent = itemsBytes tx.sent ++ data := by
  cases h with
  | sent item hroom hdata hck => rw [itemsBytes_concat, hdata]

-- == events

variable {bytes : List SourceByte}

/-- Nothing buffered and a large event: it leaves alone, past the buffer. -/
theorem ingestData_direct (env : IoEnv SourceByte SourceBatch) (view : SourceView)
    (st : IoState SourceByte SourceBatch)
    (sourceId : Option SourceId) (cri : Option CriMetadata) (hbuf : st.buf = [])
    (hlen : minDirectFlushBytes ≤ bytes.length) :
    let r := ingestData env view st bytes sourceId cri
    Sends view st.tx (st.buf ++ bytes) r.1 r.2.tx ∧ r.2.buf = [] := by
  intro r
  have hr : r = afterFlush (flushBytesDirect env view
      (noteData env view st bytes sourceId cri) bytes) := by
    show ingestData env view st bytes sourceId cri = _
    unfold ingestData
    rw [if_pos]
    show (st.buf.isEmpty && decide (minDirectFlushBytes ≤ bytes.length)) = true
    simp [hbuf, hlen]
  rw [hr, afterFlush_fst, afterFlush_tx, afterFlush_buf, hbuf]
  exact ⟨Tx.sends st.tx
    (.rawBatch ((noteData env view st bytes sourceId cri).chunk env view bytes)) rfl, hbuf⟩

/-- Otherwise the event joins the buffer, which is flushed at the target. -/
theorem ingestData_buffered (env : IoEnv SourceByte SourceBatch) (view : SourceView)
    (st : IoState SourceByte SourceBatch)
    (sourceId : Option SourceId) (cri : Option CriMetadata)
    (hdirect : ¬ (st.buf = [] ∧ minDirectFlushBytes ≤ bytes.length)) :
    ingestData env view st bytes sourceId cri
      = if env.safeBatchTargetBytes ≤ st.buf.length + bytes.length then
          afterFlush (flushBuf env view
            { noteData env view st bytes sourceId cri with buf := st.buf ++ bytes })
        else (true,
          { noteData env view st bytes sourceId cri with buf := st.buf ++ bytes }) := by
  rw [← length_append]
  unfold ingestData
  rw [if_neg]
  · rfl
  · show ¬ (st.buf.isEmpty && decide (minDirectFlushBytes ≤ bytes.length)) = true
    simpa using hdirect

/-- What a data event does: it joins the buffer, or it and the buffer
leave together. -/
theorem ingestData_cases (env : IoEnv SourceByte SourceBatch) (view : SourceView)
    (st : IoState SourceByte SourceBatch) (bytes : List SourceByte)
    (sourceId : Option SourceId) (cri : Option CriMetadata) :
    let r := ingestData env view st bytes sourceId cri
    (¬ DataSends env.safeBatchTargetBytes st.buf.length bytes.length
        ∧ r.1 ∧ r.2.tx = st.tx ∧ r.2.buf = st.buf ++ bytes)
      ∨ (DataSends env.safeBatchTargetBytes st.buf.length bytes.length
        ∧ Sends view st.tx (st.buf ++ bytes) r.1 r.2.tx ∧ r.2.buf = []) := by
  intro r
  by_cases hdirect : st.buf = [] ∧ minDirectFlushBytes ≤ bytes.length
  · right
    obtain ⟨hbuf, hlen⟩ := hdirect
    exact ⟨.inl ⟨by simp [hbuf], hlen⟩, ingestData_direct env view st sourceId cri hbuf hlen⟩
  · have hr : r = _ := ingestData_buffered env view st sourceId cri hdirect
    have hlen0 : ¬ (st.buf.length = 0 ∧ minDirectFlushBytes ≤ bytes.length) := by
      rw [length_eq_zero_iff]
      exact hdirect
    split at hr
    · next htarget =>
        obtain ⟨hb, hflush⟩ := flushBuf_cases env view
          { noteData env view st bytes sourceId cri with buf := st.buf ++ bytes }
        rw [← hr] at hb hflush
        rcases hflush with ⟨hempty, hok, htx⟩ | ⟨hne, hsend⟩
        · -- a zero target with nothing to send
          left
          have hzero := congrArg length hempty
          rw [length_append, length_nil] at hzero
          refine ⟨?_, hok, htx, hb.trans hempty.symm⟩
          intro h
          rcases h with h | h
          · exact hlen0 h
          · omega
        · right
          have hpos := length_pos_iff.mpr hne
          rw [length_append] at hpos
          exact ⟨.inr ⟨htarget, hpos⟩, hsend, hb⟩
    · next htarget =>
        left
        refine ⟨?_, by rw [hr], by rw [hr]; rfl, by rw [hr]⟩
        intro h
        rcases h with h | h
        · exact hlen0 h
        · exact htarget h.1

/-- What a batch event does once the buffer is out of the way. -/
theorem ingestBatch_cases (env : IoEnv SourceByte SourceBatch) (view : SourceView)
    (st : IoState SourceByte SourceBatch) (batch : SourceBatch)
    (sourceId : Option SourceId) :
    let r := ingestBatch env view st batch sourceId
    (st.buf = [] ∧ Sends view st.tx batch.contents r.1 r.2.tx ∧ r.2.buf = [])
      ∨ (st.buf ≠ [] ∧ ∃ ok tx, Sends view st.tx st.buf ok tx
        ∧ (ok = false → r.1 = false ∧ r.2.tx = tx)
        ∧ (ok → Sends view tx batch.contents r.1 r.2.tx ∧ r.2.buf = [])) := by
  intro r
  obtain ⟨hb, hflush⟩ := flushBuf_cases env view st
  have hr : r = ingestBatch env view st batch sourceId := rfl
  unfold ingestBatch at hr
  have hgo : (afterFlush (flushBuf env view st)).1 →
      Sends view (afterFlush (flushBuf env view st)).2.tx batch.contents r.1 r.2.tx
        ∧ r.2.buf = [] := by
    intro hok
    simp only [hok] at hr
    rw [hr]
    exact ⟨Tx.sends _ (.batch batch view.checkpointData _ _ _) rfl, hb⟩
  rcases hflush with ⟨hbuf, hok, htx⟩ | ⟨hbuf, hsend⟩
  · left
    rw [htx] at hgo
    exact ⟨hbuf, hgo hok⟩
  · right
    refine ⟨hbuf, _, _, hsend, fun hfail => ?_, hgo⟩
    simp only [hfail] at hr
    rw [hr]
    exact ⟨hfail, rfl⟩

/-- After an event that succeeded, what it read is sent or buffered. -/
theorem ingestEvent_conserves {st : IoState SourceByte SourceBatch} (event : Event)
    (h : (ingestEvent env view st event).1) :
    itemsBytes (ingestEvent env view st event).2.tx.sent ++ (ingestEvent env view st event).2.buf
      = itemsBytes st.tx.sent ++ st.buf ++ eventBytes event := by
  cases event with
  | data bytes sourceId accounted cri =>
    show itemsBytes (ingestData env view st bytes sourceId cri).2.tx.sent
      ++ (ingestData env view st bytes sourceId cri).2.buf = _
    rcases ingestData_cases env view st bytes sourceId cri with ⟨-, -, htx, hbuf⟩ | ⟨-, hsend, hbuf⟩
    · rw [htx, hbuf, ← append_assoc]
      rfl
    · have h' : (ingestData env view st bytes sourceId cri).1 := h
      rw [h'] at hsend
      rw [hsend.itemsBytes_eq, hbuf, append_nil, ← append_assoc]
      rfl
  | batch batch sourceId accounted =>
    have h' : (ingestBatch env view st batch sourceId).1 := h
    show itemsBytes (ingestBatch env view st batch sourceId).2.tx.sent
      ++ (ingestBatch env view st batch sourceId).2.buf = _
    rcases ingestBatch_cases env view st batch sourceId with
      ⟨hnil, hsend, hbuf⟩ | ⟨-, ok, tx, hfirst, hfail, hgo⟩
    · rw [h'] at hsend
      rw [hsend.itemsBytes_eq, hbuf, hnil, append_nil, append_nil]
      rfl
    · cases ok with
      | false => exact absurd h' (by rw [(hfail rfl).1]; decide)
      | true =>
        obtain ⟨hsend, hbuf⟩ := hgo rfl
        rw [h'] at hsend
        rw [hsend.itemsBytes_eq, hbuf, hfirst.itemsBytes_eq, append_nil]
        rfl
  | rotated sourceId | truncated sourceId | endOfFile sourceId => simp [ingestEvent, eventBytes]

/-- What remains of a poll is active where the whole of it is. -/
theorem Conserves.active_rest {sent hand : List SourceByte} {event : Event}
    {rest : List Event} (hc : Conserves base active sent hand (eventsBytes (event :: rest)) read) :
    ∀ b ∈ eventsBytes rest, ∀ s, b.source = some s → s ∈ active := by
  intro b hb
  refine hc.active b ?_
  exact mem_append_right _ hb

/-- The rest of a poll after an event that succeeded. -/
theorem Conserves.event {st : IoState SourceByte SourceBatch} {event : Event} {rest : List Event}
    (hc : Conserves base active (itemsBytes st.tx.sent) st.buf
      (eventsBytes (event :: rest)) read) (h : (ingestEvent env view st event).1) :
    Conserves base active
      (itemsBytes (ingestEvent env view st event).2.tx.sent)
      (ingestEvent env view st event).2.buf (eventsBytes rest) read := by
  refine ⟨?_, hc.consecutive, hc.active_rest⟩
  rw [ingestEvent_conserves event h, ← hc.read_eq]
  simp [eventsBytes]

/-- The loop, one event at a time. -/
theorem ingestEvents_cons {st : IoState SourceByte SourceBatch}
    (event : Event) (rest : List Event) :
    ingestEvents env view st (event :: rest)
      = if (ingestEvent env view st event).1 then
          ingestEvents env view (ingestEvent env view st event).2 rest
        else ingestEvent env view st event := rfl

section Outcome

variable {st : IoState SourceByte SourceBatch} {rest : List Event} {X : Prop}

/-- What the result of an event says about the outcome `X` of the whole
poll: a failed send ends it, else the rest of the events decides. -/
structure Decides (base : SourceId → Nat) (target : Nat) (rest : List Event) (X : Prop)
    (r : Bool × IoState SourceByte SourceBatch) : Prop where
  stop : r.1 = false → (X ↔ Covered base r.2.tx.sent)
  go : r.1 = true →
    (X ↔ Covered base r.2.tx.sent ∧ SafeEvents target r.2.tx.room r.2.buf.length rest)

/-- An event whose last act is a send that leaves the buffer empty. -/
theorem Sends.decides {data : List SourceByte} {target : Nat}
    {r : Bool × IoState SourceByte SourceBatch}
    (h : Sends (viewOf base read active paths) tx data r.1 r.2.tx) (hbuf : r.2.buf = [])
    (hread : itemsBytes tx.sent ++ data ++ eventsBytes rest = read)
    (hcons : Consecutive base read)
    (hactive : ∀ b ∈ eventsBytes rest, ∀ s, b.source = some s → s ∈ active)
    (hd : Decides base target rest X r) :
    X ↔ Covered base tx.sent
      ∧ SafeSend tx.room (eventsBytes rest) fun room => SafeEvents target room 0 rest := by
  refine h.covered_iff ⟨hread, hcons, hactive⟩ hd.stop fun hok => ?_
  rw [hd.go hok, hbuf]
  rfl

variable {sourceId : Option SourceId} {accounted : Nat}

/-- A data event within a poll. -/
theorem ingestData_covered_iff {cri : Option CriMetadata}
    (hc : Conserves base active (itemsBytes st.tx.sent) st.buf
      (eventsBytes (.data bytes sourceId accounted cri :: rest)) read)
    (hd : Decides base env.safeBatchTargetBytes rest X
      (ingestData env (viewOf base read active paths) st bytes sourceId cri)) :
    X ↔ Covered base st.tx.sent ∧ SafeEvents env.safeBatchTargetBytes st.tx.room
      st.buf.length (.data bytes sourceId accounted cri :: rest) := by
  rcases ingestData_cases env (viewOf base read active paths) st bytes sourceId cri
    with ⟨hno, hok, htx, hbuf⟩ | ⟨hyes, hsend, hbuf⟩
  · rw [hd.go hok, htx, hbuf, length_append, SafeEvents]
    simp only [hno, false_imp_iff, not_false_eq_true, forall_const, true_and]
  · simp only [SafeEvents, hyes, forall_const, not_true_eq_false, false_imp_iff, and_true]
    refine hsend.decides hbuf ?_ hc.consecutive hc.active_rest hd
    rw [← hc.read_eq]
    simp [eventsBytes, eventBytes]

/-- A batch event within a poll: one send with an empty buffer, else the
buffer's send and then the batch's. -/
theorem ingestBatch_covered_iff {batch : SourceBatch}
    (hc : Conserves base active (itemsBytes st.tx.sent) st.buf
      (eventsBytes (.batch batch sourceId accounted :: rest)) read)
    (hd : Decides base env.safeBatchTargetBytes rest X
      (ingestBatch env (viewOf base read active paths) st batch sourceId)) :
    X ↔ Covered base st.tx.sent ∧ SafeEvents env.safeBatchTargetBytes st.tx.room
      st.buf.length (.batch batch sourceId accounted :: rest) := by
  have hsplit : eventsBytes (.batch batch sourceId accounted :: rest)
      = batch.contents ++ eventsBytes rest := by
    simp [eventsBytes, eventBytes]
  have hread := hc.read_eq
  have hactive := hc.active_rest
  rw [hsplit] at hc hread
  rcases ingestBatch_cases env (viewOf base read active paths) st batch sourceId
    with ⟨hnil, hsend, hbuf⟩ | ⟨hne, ok, tx, hfirst, hfail, hthen⟩
  · have hlen : st.buf.length = 0 := by rw [hnil]; rfl
    simp only [SafeEvents, hlen, forall_const, ne_eq, not_true_eq_false, false_imp_iff, and_true]
    refine hsend.decides hbuf ?_ hc.consecutive hactive hd
    rw [← hread, hnil]
    simp
  · have hlen : st.buf.length ≠ 0 := fun h => hne (length_eq_zero_iff.mp h)
    simp only [SafeEvents, hlen, ne_eq, not_false_eq_true, forall_const, false_imp_iff, true_and]
    refine hfirst.covered_iff hc (fun hno => ?_) fun hyes => ?_
    · obtain ⟨hf, htx⟩ := hfail hno
      rw [hd.stop hf, htx]
    · -- the buffer is out; the batch is a second send
      subst hyes
      obtain ⟨hsend, hbuf⟩ := hthen rfl
      refine hsend.decides hbuf ?_ hc.consecutive hactive hd
      rw [hfirst.itemsBytes_eq, ← hread]
      simp

end Outcome

/-- The events of a poll keep the sent items covered exactly when they
are safe. Induction on the events, with the rest of the poll as the
outcome after each. -/
theorem ingestEvents_covered_iff (events : List Event) :
    ∀ st : IoState SourceByte SourceBatch,
      Conserves base active (itemsBytes st.tx.sent) st.buf (eventsBytes events) read →
      (Covered base (ingestEvents env (viewOf base read active paths) st events).2.tx.sent
        ↔ Covered base st.tx.sent
          ∧ SafeEvents env.safeBatchTargetBytes st.tx.room st.buf.length events) := by
  induction events with
  | nil =>
    intro st _
    exact ⟨fun h => ⟨h, trivial⟩, fun h => h.1⟩
  | cons event rest ih =>
    intro st hc
    have hd : Decides base env.safeBatchTargetBytes rest
        (Covered base (ingestEvents env (viewOf base read active paths) st
          (event :: rest)).2.tx.sent)
        (ingestEvent env (viewOf base read active paths) st event) := by
      rw [ingestEvents_cons]
      constructor
      · intro hfail
        rw [if_neg (by rw [hfail]; decide)]
      · intro hok
        rw [if_pos hok, ih _ (hc.event hok)]
    cases event with
    | data bytes sourceId accounted cri => exact ingestData_covered_iff hc hd
    | batch batch sourceId accounted => exact ingestBatch_covered_iff hc hd
    | rotated sourceId | truncated sourceId | endOfFile sourceId => exact hd.go rfl

/-- A poll that succeeded leaves what was read sent or buffered. -/
theorem ingestEvents_conserves (events : List Event) :
    ∀ st : IoState SourceByte SourceBatch,
      (ingestEvents env view st events).1 →
      itemsBytes (ingestEvents env view st events).2.tx.sent
          ++ (ingestEvents env view st events).2.buf
        = itemsBytes st.tx.sent ++ st.buf ++ eventsBytes events := by
  induction events with
  | nil => intro st _; simp [ingestEvents, eventsBytes]
  | cons event rest ih =>
    intro st h
    rw [ingestEvents_cons] at h ⊢
    by_cases hok : (ingestEvent env view st event).1
    · rw [if_pos hok] at h ⊢
      rw [ih _ h, ingestEvent_conserves event hok]
      simp [eventsBytes]
    · rw [if_neg hok] at h
      exact absurd h hok

end Send

-- == runs

/-- Setting the timer at the end of a poll changes nothing else. -/
theorem processIngestEvents_eq (env : IoEnv SourceByte SourceBatch)
    (view : SourceView) (now : Nat) (st : IoState SourceByte SourceBatch) (events : List Event) :
    (processIngestEvents env view now st events).1 = (ingestEvents env view st events).1
    ∧ (processIngestEvents env view now st events).2.tx = (ingestEvents env view st events).2.tx
    ∧ (processIngestEvents env view now st events).2.buf
      = (ingestEvents env view st events).2.buf := by
  unfold processIngestEvents
  simp only []
  split
  · next h =>
      simp only [Bool.and_eq_true] at h
      exact ⟨h.1.1.symm, rfl, rfl⟩
  · exact ⟨rfl, rfl, rfl⟩

/-- Between polls: everything read is sent or buffered. -/
def IoRun.Settled (r : IoRun) : Prop :=
  r.closed = false → itemsBytes r.st.tx.sent ++ r.st.buf = r.read

variable {r : IoRun}

theorem Settled.step (h : r.Settled) (op : IoOp) : (op.step env base r).Settled := by
  intro hopen
  unfold IoOp.step at hopen ⊢
  by_cases hcl : r.closed
  · rw [if_pos hcl] at hopen ⊢
    exact h hopen
  · have hr := h (by simpa using hcl)
    rw [if_neg hcl] at hopen ⊢
    cases op with
    | poll events active paths now =>
      simp only [Bool.not_eq_false'] at hopen ⊢
      obtain ⟨hok, htx, hbuf⟩ := processIngestEvents_eq env
        (viewOf base (r.read ++ eventsBytes events) active paths) now r.st events
      rw [hok] at hopen
      rw [htx, hbuf, ingestEvents_conserves events r.st hopen, hr]
    | flush active paths =>
      simp only [Bool.not_eq_false'] at hopen ⊢
      obtain ⟨hb, ⟨hbuf, -, htx⟩ | ⟨-, hsend⟩⟩ := flushBuf_cases env
        (viewOf base r.read active paths) r.st
      · rw [htx, hb, ← hr, hbuf]
      · rw [hopen] at hsend
        rw [hsend.itemsBytes_eq, hb, append_nil, hr]

theorem step_read (op : IoOp) (hopen : (op.step env base r).closed = false) :
    (op.step env base r).read = r.read ++ op.bytes := by
  unfold IoOp.step at hopen ⊢
  split
  · next hcl =>
      rw [if_pos hcl] at hopen
      rw [hcl] at hopen
      cases hopen
  · cases op with
    | poll events active paths now => rfl
    | flush active paths => simp [IoOp.bytes]

/-- A flush between polls is harmless: nothing read is outstanding. -/
theorem flush_covered_iff {st : IoState SourceByte SourceBatch} {read : List SourceByte}
    {active : List SourceId} {paths : List (SourceId × String)}
    (hread : itemsBytes st.tx.sent ++ st.buf = read) (hc : Consecutive base read) :
    Covered base (afterFlush (flushBuf env (viewOf base read active paths) st)).2.tx.sent
      ↔ Covered base st.tx.sent := by
  obtain ⟨-, ⟨-, -, htx⟩ | ⟨-, hsend⟩⟩ := flushBuf_cases env (viewOf base read active paths) st
  · rw [htx]
  · have hconserves : Conserves base active (itemsBytes st.tx.sent) st.buf [] read :=
      ⟨by rw [append_nil, hread], hc, by simp⟩
    have hsafe : SafeSend st.tx.room [] fun _ => True := by
      by_cases hroom : st.tx.room = some 0
      · exact safeSend_closed hroom
      · rw [safeSend_open hroom]
        exact ⟨by simp [NoSource], trivial⟩
    have hiff := hsend.covered_iff hconserves (K := fun _ => True)
      (fun _ => .rfl) fun _ => (and_true _).symm ▸ .rfl
    rw [hiff]
    exact ⟨fun h => h.1, fun h => ⟨h, hsafe⟩⟩

/-- One operation keeps the sent items covered exactly when it is safe. -/
theorem step_covered_iff (h : r.Settled) (op : IoOp)
    (hcons : r.closed = false → Consecutive base (r.read ++ op.bytes)) (hactive : op.Active) :
    Covered base (op.step env base r).st.tx.sent
      ↔ Covered base r.st.tx.sent ∧ op.Safe env.safeBatchTargetBytes r := by
  by_cases hcl : r.closed
  · have hsafe : op.Safe env.safeBatchTargetBytes r := by
      cases op with
      | poll events active paths now =>
        intro hopen
        rw [hcl] at hopen
        cases hopen
      | flush active paths => trivial
    unfold IoOp.step
    rw [if_pos hcl]
    exact ⟨fun hc => ⟨hc, hsafe⟩, fun hc => hc.1⟩
  · have hopen : r.closed = false := by simpa using hcl
    have hr := h hopen
    have hc := hcons hopen
    unfold IoOp.step
    rw [if_neg hcl]
    cases op with
    | poll events active paths now =>
      have hconserves : Conserves base active (itemsBytes r.st.tx.sent) r.st.buf
          (eventsBytes events) (r.read ++ eventsBytes events) :=
        ⟨by rw [hr], hc, hactive⟩
      obtain ⟨-, htx, -⟩ := processIngestEvents_eq env
        (viewOf base (r.read ++ eventsBytes events) active paths) now r.st events
      simp only [htx, ingestEvents_covered_iff events r.st hconserves, IoOp.Safe,
        hopen, forall_const]
    | flush active paths =>
      simp only [IoOp.Safe, and_true]
      rw [show IoOp.bytes (.flush active paths) = [] from rfl, append_nil] at hc
      exact flush_covered_iff hr hc

theorem run_covered_iff (ops : List IoOp) :
    ∀ r : IoRun, r.Settled →
      (r.closed = false → Consecutive base (r.read ++ ops.flatMap IoOp.bytes)) →
      (∀ op ∈ ops, op.Active) →
      (Covered base (ops.foldl (IoOp.step env base) r).st.tx.sent
        ↔ Covered base r.st.tx.sent ∧ SafeRun env base r ops) := by
  induction ops with
  | nil =>
    intro r _ _ _
    exact ⟨fun h => ⟨h, trivial⟩, fun h => h.1⟩
  | cons op ops ih =>
    intro r hs hcons hactive
    have hop : r.closed = false → Consecutive base (r.read ++ op.bytes) := by
      intro hopen
      have hall := hcons hopen
      rw [flatMap_cons, ← append_assoc] at hall
      exact hall.left
    have hnext : (op.step env base r).closed = false →
        Consecutive base ((op.step env base r).read ++ ops.flatMap IoOp.bytes) := by
      intro hopen
      have hr : r.closed = false := by
        cases hcl : r.closed with
        | false => rfl
        | true =>
          unfold IoOp.step at hopen
          rw [if_pos hcl, hcl] at hopen
          cases hopen
      rw [step_read op hopen, append_assoc]
      exact hcons hr
    rw [foldl_cons, ih _ (Settled.step hs op) hnext fun o ho => hactive o (mem_cons_of_mem _ ho),
      step_covered_iff hs op hop (hactive op (mem_cons_self ..)), SafeRun,
      and_assoc]

/-- The chunks of a run carry checkpoints within what they and the
chunks before them contain exactly when, at every send within a poll,
the events of that poll no chunk holds yet carry no source's bytes. -/
theorem checkpoints_covered_iff (input : PolledInput)
    (env : IoEnv SourceByte SourceBatch) (room : Option Nat) :
    Covered input.base (input.run env room).st.tx.sent
      ↔ SafeRun env input.base (.init room) input.ops := by
  have hinit : Covered input.base (IoRun.init room).st.tx.sent := by
    intro pre item hpre
    have hlen := hpre.length_le
    simp [IoRun.init] at hlen
  unfold PolledInput.run
  rw [run_covered_iff input.ops (.init room) (fun _ => rfl)
    (fun _ => input.consecutive) input.active]
  exact ⟨fun h => h.2, fun h => ⟨hinit, h⟩⟩

/-- One poll of one source that returns two lines, with a batch target
the first one already reaches. -/
def twoLinePoll : PolledInput where
  base := fun _ => 0
  ops := [.poll
    [.data [⟨some 0, 0, 97⟩, ⟨some 0, 1, 10⟩] (some 0) 2 none,
     .data [⟨some 0, 2, 98⟩, ⟨some 0, 3, 10⟩] (some 0) 2 none] [0] [] 0]
  consecutive := by
    intro s
    by_cases hs : s = 0
    · subst hs
      decide
    · simp [bytesOf, IoOp.bytes, eventsBytes, eventBytes, Ne.symm hs]
  active := by
    intro op hop
    rw [mem_singleton] at hop
    subst hop
    intro b hb s hs
    simp only [eventsBytes, eventBytes, flatMap_cons, flatMap_nil,
      cons_append, nil_append, mem_cons, not_mem_nil,
      or_false] at hb
    rcases hb with rfl | rfl | rfl | rfl
    all_goals
      cases hs
      decide

/-- A worker with a two-byte batch target. -/
def twoByteTarget : IoEnv SourceByte SourceBatch where
  toByte := SourceByte.byte
  numRows := SourceBatch.numRows
  inputName := "in"
  inputIndex := 0
  safeBatchTargetBytes := 2
  sourceMetadataPlan := ⟨false, .none⟩

/-- The first chunk ends at offset 2 and carries checkpoint 4. -/
theorem twoLinePoll_not_covered :
    ¬ Covered twoLinePoll.base (twoLinePoll.run twoByteTarget none).st.tx.sent := by
  have hsent : ((twoLinePoll.run twoByteTarget none).st.tx.sent.map fun i =>
      (i.checkpoints, itemBytes i))
      = [([(0, 4)], [⟨some 0, 0, 97⟩, ⟨some 0, 1, 10⟩]),
         ([(0, 4)], [⟨some 0, 2, 98⟩, ⟨some 0, 3, 10⟩])] := by
    decide +kernel
  obtain ⟨item, rest, heq, hitem, -⟩ := map_eq_cons_iff.mp hsent
  obtain ⟨hck, hbytes⟩ := Prod.mk.inj hitem
  intro h
  have hle := h [] item (by rw [heq]; exact ⟨rest, rfl⟩) (0, 4) (by rw [hck]; decide)
  rw [nil_append, itemsBytes, flatMap_singleton, hbytes] at hle
  revert hle
  decide

end FastForward.Runtime
