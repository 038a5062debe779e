/-
Which datagrams the UDP input delivers.

The events of a poll are the datagrams it received, in blocks of one
source id (`Delivers`). The exit on an error of no known kind returns
none of them, so what the poll has received by then is lost.
-/
import FastForward.Io.Udp
import Mathlib.Algebra.Order.BigOperators.Group.List

namespace FastForward.Io.Udp

open Core Pipeline List

variable {Addr R : Type} (idOf : Addr → SourceId)

/-- The datagrams that are not empty, each with its sender's source id. -/
def datagrams (received : List (RecvResult Addr)) : List (SourceId × Bytes) :=
  received.filterMap fun
    | .datagram data sender => if data = [] then none else some (idOf sender, data)
    | _ => none

variable {idOf} {events events' : List (SourceEvent UInt8 R)}
  {ds ds' : List (SourceId × Bytes)} {d : Drain R}

/-- The event of some datagrams with one source id. -/
def eventOf (block : SourceId × List Bytes) : SourceEvent UInt8 R :=
  .data (block.2.flatMap terminated) (some block.1) (block.2.map length).sum none

/-- Every datagram is in one event of its source id, in order. -/
def Delivers (events : List (SourceEvent UInt8 R)) (ds : List (SourceId × Bytes)) : Prop :=
  ∃ blocks : List (SourceId × List Bytes),
    events = blocks.map eventOf ∧ ds = blocks.flatMap fun b => b.2.map (b.1, ·)

/-- Deliveries one after the other. -/
theorem Delivers.append (h : Delivers events ds) (h' : Delivers events' ds') :
    Delivers (events ++ events') (ds ++ ds') := by
  obtain ⟨blocks, rfl, rfl⟩ := h
  obtain ⟨blocks', rfl, rfl⟩ := h'
  exact ⟨blocks ++ blocks', map_append.symm, flatMap_append.symm⟩

theorem Delivers.nil : Delivers ([] : List (SourceEvent UInt8 R)) [] := ⟨[], rfl, rfl⟩

def eventBytes : SourceEvent UInt8 R → Bytes
  | .data bytes _ _ _ => bytes
  | _ => []

/-- No byte is lost or added but the newlines. -/
theorem Delivers.bytes_eq (h : Delivers events ds) :
    events.flatMap eventBytes = ds.flatMap fun p => terminated p.2 := by
  obtain ⟨blocks, rfl, rfl⟩ := h
  rw [flatMap_map, flatMap_assoc]
  simp only [flatMap_map]
  rfl

theorem terminated_ne_nil (data : Bytes) : terminated data ≠ [] := by
  rw [terminated]
  split
  next h =>
    rintro rfl
    cases h
  next => exact append_ne_nil_of_right_ne_nil _ (cons_ne_nil _ _)

/-- What the loop has collected: events, and a block for the current
source id. -/
def Collected (d : Drain R) (ds : List (SourceId × Bytes)) : Prop :=
  ∃ before id block, Delivers d.events before ∧ ds = before ++ block.map (id, ·)
    ∧ d.current = if block = [] then none
        else some (id, block.flatMap terminated, (block.map length).sum)

/-- At the end of the loop the block becomes the last event. -/
theorem Collected.flush (h : Collected d ds) :
    Delivers (flushCurrentSender d.events d.current) ds := by
  obtain ⟨before, id, block, hbefore, rfl, hcurrent⟩ := h
  rw [hcurrent]
  cases block with
  | nil => simpa [flushCurrentSender] using hbefore
  | cons data block =>
    have hne : (data :: block).flatMap terminated ≠ [] :=
      append_ne_nil_of_left_ne_nil (terminated_ne_nil data) _
    rw [if_neg (cons_ne_nil _ _), flushCurrentSender, if_neg hne]
    exact hbefore.append ⟨[(id, data :: block)], rfl, (append_nil _).symm⟩

/-- The next datagram opens a block, or joins the current one. -/
theorem Collected.append (h : Collected d ds) (id : SourceId) (data : Bytes) :
    Collected (d.append id data) (ds ++ [(id, data)]) := by
  have hflush := h.flush
  obtain ⟨before, id', block, hbefore, rfl, hcurrent⟩ := h
  by_cases hsame : id' = id ∧ block ≠ []
  · obtain ⟨rfl, hne⟩ := hsame
    rw [if_neg hne] at hcurrent
    have hfound : d.current.filter (fun c => c.1 = id') = d.current := by simp [hcurrent]
    rw [hcurrent] at hfound
    exact ⟨before, id', block ++ [data], by simpa [Drain.append, hcurrent, hfound] using hbefore,
      by simp, by simp [Drain.append, hcurrent, hfound]⟩
  · have hother : d.current.filter (fun c => c.1 = id) = none := by
      rw [hcurrent]
      split
      next => rfl
      next hne => simpa [Option.filter] using fun hid => hsame ⟨hid, hne⟩
    exact ⟨_, id, [data], by simpa [Drain.append, hother] using hflush, rfl,
      by simp [Drain.append, hother]⟩

variable {received : List (RecvResult Addr)}

theorem Collected.receive (h : Collected d (datagrams idOf received))
    (sender : Addr) (data : Bytes) :
    Collected (d.receive (idOf sender) data)
      (datagrams idOf (received ++ [.datagram data sender])) := by
  -- the number of datagrams read plays no part
  have hread : Collected { d with datagramsRead := d.datagramsRead + 1 }
    (datagrams idOf received) := h
  rw [Drain.receive, datagrams, filterMap_append, ← datagrams]
  by_cases hdata : data = []
  · simpa [hdata] using hread
  · simpa [hdata] using hread.append _ data

/-- A poll that does not fail returns what it has received. -/
theorem delivers_of_drain (h : Collected d (datagrams idOf received))
    (results : List (RecvResult Addr)) :
    let poll := (drain idOf d received results).1
    poll.returned = some events → Delivers events (datagrams idOf poll.received) := by
  induction results generalizing d received with
  | nil =>
    rintro poll ⟨⟩
    exact h.flush
  | cons result rest ih =>
    cases result with
    | noBuffers | wouldBlock | connectionRefused =>
      rintro poll ⟨⟩
      simpa [datagrams, drain, poll] using h.flush
    | otherError => exact nofun
    | datagram data sender =>
      have hnext := h.receive sender data
      rw [drain]
      dsimp only
      split
      next =>
        rintro ⟨⟩
        exact hnext.flush
      next => exact ih hnext

/-- Only an error of no known kind makes a poll fail, and it ends the
poll. -/
theorem drain_returned_eq_none (h : RecvResult.otherError ∉ received)
    (results : List (RecvResult Addr)) :
    let poll := (drain idOf d received results).1
    poll.returned = none ↔ RecvResult.otherError ∈ poll.received := by
  induction results generalizing d received with
  | nil => exact iff_of_false nofun h
  | cons result rest ih =>
    cases result with
    | noBuffers | wouldBlock | connectionRefused =>
      exact iff_of_false nofun (by simpa [drain] using h)
    | otherError => exact iff_of_true rfl (mem_append_right _ (mem_singleton_self _))
    | datagram data sender =>
      have hnext : RecvResult.otherError ∉ received ++ [.datagram data sender] := by simpa using h
      rw [drain]
      dsimp only
      split
      next => exact iff_of_false nofun hnext
      next => exact ih hnext

/-- A poll of a run, as the loop run on some results. -/
theorem exists_poll_of_mem {n : Nat} {results : List (RecvResult Addr)} {p : Poll Addr R}
    (hp : p ∈ polls idOf n results) : ∃ results, p = (poll idOf results).1 := by
  induction n generalizing results with
  | zero => cases hp
  | succ n ih =>
    rcases mem_cons.mp hp with rfl | hp
    · exact ⟨results, rfl⟩
    · exact ih hp

/-- All datagrams received are delivered exactly when no poll receives an
error of no known kind and a datagram before it. -/
theorem polls_deliver_iff (idOf : Addr → SourceId) (n : Nat)
    (results : List (RecvResult Addr)) :
    let ps : List (Poll Addr R) := polls idOf n results
    Delivers (ps.flatMap fun p => p.returned.getD [])
        (ps.flatMap fun p => datagrams idOf p.received)
      ↔ ∀ p ∈ ps, RecvResult.otherError ∈ p.received → datagrams idOf p.received = [] := by
  intro ps
  have hall : ∀ p ∈ ps, (p.returned = none ↔ RecvResult.otherError ∈ p.received)
      ∧ ∀ events, p.returned = some events → Delivers events (datagrams idOf p.received) := by
    intro p hp
    obtain ⟨results, rfl⟩ := exists_poll_of_mem hp
    exact ⟨drain_returned_eq_none not_mem_nil results,
      fun _ => delivers_of_drain ⟨[], 0, [], .nil, rfl, rfl⟩ results⟩
  generalize ps = ps at hall ⊢
  constructor
  · intro h p hp herror
    have hfailed := (hall p hp).1.mpr herror
    have hbytes := congrArg length h.bytes_eq
    rw [flatMap_assoc, flatMap_assoc, length_flatMap, length_flatMap] at hbytes
    by_contra hne
    -- no poll returns more bytes than it received, this one returns fewer
    refine absurd hbytes (Nat.ne_of_lt (sum_lt_sum _ _ (fun q hq => ?_) ⟨p, hp, ?_⟩))
    · cases hq' : q.returned with
      | none => exact Nat.zero_le _
      | some events => rw [Option.getD_some, ((hall q hq).2 events hq').bytes_eq]
    · obtain ⟨d, ds, hds⟩ := exists_cons_of_ne_nil hne
      rw [hfailed, hds]
      exact length_pos_iff.mpr (append_ne_nil_of_left_ne_nil (terminated_ne_nil d.2) _)
  · intro hfailed
    induction ps with
    | nil => exact .nil
    | cons p ps ih =>
      obtain ⟨hp, hrest⟩ := forall_mem_cons.mp hfailed
      obtain ⟨⟨hnone, hdelivers⟩, hall⟩ := forall_mem_cons.mp hall
      rw [flatMap_cons, flatMap_cons]
      refine Delivers.append ?_ (ih hall hrest)
      cases hreturned : p.returned with
      | none =>
        rw [hp (hnone.mp hreturned)]
        exact .nil
      | some events => exact hdelivers events hreturned

/-- A datagram and then an error: the first poll returns only the error,
the second nothing. -/
theorem datagram_before_error_is_lost :
    let ps : List (Poll Nat Unit) := polls id 2 [.datagram [97] 1, .otherError]
    ¬ Delivers (ps.flatMap fun p => p.returned.getD [])
        (ps.flatMap fun p => datagrams id p.received) := by
  rintro ps ⟨blocks, hevents, hds⟩
  cases map_eq_nil_iff.mp hevents.symm
  cases hds

end FastForward.Io.Udp
