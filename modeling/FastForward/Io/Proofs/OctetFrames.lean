/-
What the extraction makes of a stream of octet-counted frames.

The loop delivers the settled frames one by one and comes to the first
that is not settled (`Follows.leadsTo`). If what is held of it is quiet
the loop leaves there, and the output together with the records of the
frames still to come has not changed (`Follows`). If it holds a newline,
the loop makes a line of the length and the front of the payload
(`Follows.breaksLine`), and no later read can mend that.
-/
import FastForward.Io.Proofs.Tcp
import FastForward.Core.Proofs.Newlines

namespace FastForward.Io.Tcp

open Core List Frame
open Lib (Pass Ends)

-- == one pass

theorem mem_digitsText_ne {ds : List (Fin 10)} {b : UInt8} (hb : isAsciiDigit b = false) :
    b ∉ digitsText ds := by
  intro hmem
  obtain ⟨d, _, rfl⟩ := mem_map.mp hmem
  rw [isAsciiDigit_digitByte d] at hb
  cases hb

/-- A frame starts with a digit, so never with a newline. -/
theorem Frame.dropDelimiter_core (f : Frame) {held future rest : Bytes}
    (h : held ++ future = f.core ++ rest) : dropDelimiter held = held := by
  have hne : held.head? ≠ some Ascii.newline := by
    intro hhead
    obtain ⟨d, ds, hds⟩ := exists_cons_of_ne_nil f.digits_ne_nil
    have hfirst : (held ++ future).head? = some (digitByte d) := by
      rw [h, core, head, hds]
      rfl
    rw [head?_append, hhead] at hfirst
    have hmem : Ascii.newline ∉ digitsText [d] := mem_digitsText_ne (by decide)
    exact hmem (mem_singleton.mpr (Option.some.inj hfirst))
  unfold dropDelimiter
  rw [if_neg hne]

/-- What is received of a stream that starts with a frame: some digits
of its length, or the complete length and more. -/
theorem Frame.received_cases (f : Frame) {held future rest : Bytes}
    (h : held ++ future = f.core ++ rest) :
    (∃ ds, held = digitsText ds ∧ ds.length ≤ f.digits.length)
      ∨ ∃ body, held = f.head ++ body ∧ body ++ future = f.payload ++ rest := by
  have hsplit : held ++ future = digitsText f.digits ++ (Ascii.space :: (f.payload ++ rest)) := by
    rw [h, core, head]
    simp only [append_assoc, cons_append, nil_append]
  rcases append_eq_append_iff.mp hsplit with ⟨more, hdigits, _⟩ | ⟨more, hheld, hmore⟩
  · obtain ⟨ds, ds', hall, hds, _⟩ := map_eq_append_iff.mp hdigits
    refine .inl ⟨ds, hds.symm, ?_⟩
    rw [hall, length_append]
    exact Nat.le_add_right _ _
  · cases more with
    | nil => exact .inl ⟨f.digits, by rw [hheld, append_nil], Nat.le_refl _⟩
    | cons b body =>
      obtain ⟨rfl, hbody⟩ := cons.inj hmore
      refine .inr ⟨body, ?_, hbody.symm⟩
      rw [hheld, head, append_assoc]
      rfl

/-- The front frame is settled by the received bytes. -/
def Frame.IsSettledBy (f : Frame) (held : Bytes) : Prop :=
  (f.core.isPrefixOf held && boundaryIsPlausible (held.drop f.core.length)) = true

variable {held : Bytes}

theorem Frame.isSettledBy_append (f : Frame) {after : Bytes} (hafter : boundaryIsPlausible after) :
    f.IsSettledBy (f.core ++ after) := by
  unfold IsSettledBy
  rw [drop_left, hafter, Bool.and_true, isPrefixOf_iff_prefix]
  exact prefix_append _ _

/-- A settled frame stands whole at the front. -/
theorem Frame.IsSettledBy.exists_after {f : Frame} (h : f.IsSettledBy held) :
    ∃ after, held = f.core ++ after ∧ held.drop f.core.length = after
      ∧ boundaryIsPlausible after := by
  obtain ⟨hcore, hafter⟩ := Bool.and_eq_true_iff.mp h
  obtain ⟨after, rfl⟩ := isPrefixOf_iff_prefix.mp hcore
  rw [drop_left] at hafter
  exact ⟨after, rfl, drop_left, hafter⟩

/-- The code commits to a settled frame. -/
theorem Frame.readyFrame_core (f : Frame) (hsize : f.core.length < usizeLimit) {after : Bytes}
    (hafter : boundaryIsPlausible after) :
    readyFrame (f.core ++ after) = some (f.payload.length, f.digits.length + 1) := by
  rw [core, append_assoc, f.readyFrame_head hsize, drop_left, length_append,
    if_pos ⟨Nat.le_add_right _ _, hafter⟩]

/-- The code commits to no frame that is not settled. -/
theorem Frame.readyFrame_of_not_settled (f : Frame) (hsize : f.core.length < usizeLimit)
    {held future rest : Bytes} (h : held ++ future = f.core ++ rest)
    (hnot : ¬ f.IsSettledBy held) : readyFrame held = none := by
  rcases f.received_cases h with ⟨ds, rfl, _⟩ | ⟨body, rfl, hbody⟩
  · unfold readyFrame
    rw [parseOctetPrefix_digitsText]
  · rw [f.readyFrame_head hsize, if_neg]
    intro hready
    apply hnot
    have hpayload : f.payload <+: body :=
      prefix_of_prefix_length_le ⟨rest, hbody.symm⟩ ⟨future, rfl⟩ hready.1
    obtain ⟨after, rfl⟩ := hpayload
    rw [drop_left] at hready
    rw [← append_assoc]
    exact f.isSettledBy_append hready.2

-- == following frames

/-- The client has `frames` left to deliver, of which `future` is still
to be received; with their records the output is `total`. A newline in
front of them is the delimiter of the frame before. -/
structure Follows (s : Extraction) (frames : List Frame) (future total : Bytes) : Prop where
  noDiscard : s.1.discardOctetBytes = 0
  noSkip : s.1.discardUntilNewline = false
  aligned : s.1.pending ++ future = streamText frames
    ∨ (s.1.shouldConsumeOctetDelimiterNewline = true
        ∧ s.1.pending ++ future = Ascii.newline :: streamText frames)
  output : s.2 ++ records frames = total

variable {s : Extraction} {f : Frame} {frames fs : List Frame} {future total after : Bytes}

/-- The loop ends in `t` from the first state if it does from the
second. -/
def LeadsTo (s s₁ : Extraction) : Prop :=
  ∀ t, Ends extractPass s₁ t → Ends extractPass s t

theorem LeadsTo.of_pass {s s₁ : Extraction} (h : extractPass s = .again s₁) : LeadsTo s s₁ :=
  fun _ ht => .again h ht

theorem streamText_cons (f : Frame) (fs : List Frame) :
    streamText (f :: fs) = f.core ++ (f.delimiter ++ streamText fs) := by
  rw [streamText, flatMap_cons, text, append_assoc]
  rfl

theorem dropDelimiter_of_aligned (h : held ++ future = streamText frames) :
    dropDelimiter held = held := by
  cases frames with
  | nil =>
    rw [(append_eq_nil_iff.mp h).1]
    rfl
  | cons f fs => exact f.dropDelimiter_core (h.trans (streamText_cons f fs))

/-- The pass over the delimiter. -/
theorem Follows.skipDelimiter (h : Follows s frames future total) (hne : s.1.pending ≠ []) :
    ∃ s₁, LeadsTo s s₁ ∧ Follows s₁ frames future total
      ∧ s₁.1.shouldConsumeOctetDelimiterNewline = false
      ∧ s₁.1.pending = dropDelimiter s.1.pending
      ∧ s₁.1.pending ++ future = streamText frames := by
  obtain ⟨c, out⟩ := s
  have hdrop : dropDelimiter c.pending ++ future = streamText frames := by
    rcases h.aligned with haligned | ⟨_, haligned⟩
    · rw [dropDelimiter_of_aligned haligned]
      exact haligned
    · obtain ⟨b, rest, hpending⟩ := exists_cons_of_ne_nil hne
      rw [hpending] at haligned ⊢
      obtain ⟨rfl, hrest⟩ := cons.inj haligned
      exact hrest
  by_cases hflag : c.shouldConsumeOctetDelimiterNewline
  · have hpass : extractPass (c, out) = .again
        ({ c with pending := dropDelimiter c.pending
                  shouldConsumeOctetDelimiterNewline := false }, out) := by
      have hempty : c.pending.isEmpty = false := by simpa using hne
      have hconsumed : c.pending.drop (if c.pending.head? = some Ascii.newline then 1 else 0)
          = dropDelimiter c.pending := by
        unfold dropDelimiter
        split <;> rfl
      have hdiscard : ¬ 0 < c.discardOctetBytes := by
        have h0 : c.discardOctetBytes = 0 := h.noDiscard
        omega
      simp only [extractPass, hempty, Bool.false_eq_true, if_false, hdiscard, hflag, if_true,
        Client.advancePending, hconsumed]
    exact ⟨_, .of_pass hpass, ⟨h.noDiscard, h.noSkip, .inl hdrop, h.output⟩, rfl, rfl, hdrop⟩
  · have haligned : c.pending ++ future = streamText frames := by
      rcases h.aligned with haligned | ⟨hset, _⟩
      · exact haligned
      · exact absurd hset hflag
    refine ⟨(c, out), fun _ ht => ht, h, by simpa using hflag, ?_, haligned⟩
    exact (dropDelimiter_of_aligned haligned).symm

theorem Frame.core_ne_nil (f : Frame) : f.core ≠ [] := by
  rw [← length_pos_iff, f.length_core]
  omega

/-- The pass that looks for a frame. -/
theorem Follows.extractPass_eq {c : Client} {out : Bytes} (h : Follows (c, out) frames future total)
    (hflag : c.shouldConsumeOctetDelimiterNewline = false) (hne : c.pending ≠ []) :
    extractPass (c, out) = match readyFrame c.pending with
      | some (len, prefixLen) => .again (Tcp.takeFrame c out len prefixLen)
      | none => takeLine c out := by
  have hdiscard : c.discardOctetBytes = 0 := h.noDiscard
  have hskip : c.discardUntilNewline = false := h.noSkip
  have hempty : c.pending.isEmpty = false := isEmpty_eq_false_iff.mpr hne
  simp only [extractPass, hempty, hdiscard, hflag,
    hskip]
  rfl

variable (h : Follows s (f :: fs) future total) (hsize : f.core.length < usizeLimit)
  (hflag : s.1.shouldConsumeOctetDelimiterNewline = false)
  (haligned : s.1.pending ++ future = streamText (f :: fs))

include h hsize hflag haligned

/-- The pass, or the two passes if the frame is too long, over a settled
frame. -/
theorem Follows.takeFrame
    (hpending : s.1.pending = f.core ++ after) (hafter : boundaryIsPlausible after) :
    ∃ s₁, LeadsTo s s₁ ∧ Follows s₁ fs future total ∧ s₁.1.pending = after := by
  obtain ⟨c, out⟩ := s
  have hne : c.pending ≠ [] := by
    rw [hpending]
    exact append_ne_nil_of_left_ne_nil f.core_ne_nil _
  have hpass := h.extractPass_eq hflag hne
  rw [hpending, f.readyFrame_core hsize hafter] at hpass
  have hbehind : c.pending.drop (f.digits.length + 1 + f.payload.length) = after := by
    rw [hpending, ← f.length_core, drop_left]
  have hbody : c.pending.drop (f.digits.length + 1) = f.payload ++ after := by
    rw [hpending, ← f.length_head, core, append_assoc, drop_left]
  have hrest : after ++ future = f.delimiter ++ streamText fs := by
    rw [hpending, streamText_cons, append_assoc] at haligned
    exact append_cancel_left haligned
  -- the flag is up if the delimiter is still to be dropped
  have hnext : after ++ future = streamText fs
      ∨ (endsAtDelimiter after ∧ after ++ future = Ascii.newline :: streamText fs) := by
    unfold delimiter at hrest
    split at hrest
    · refine .inr ⟨?_, hrest⟩
      cases after with
      | nil => rfl
      | cons b rest =>
        obtain ⟨rfl, _⟩ := cons.inj hrest
        rfl
    · exact .inl hrest
  have houtput : out ++ (f.record ++ records fs) = total := h.output
  dsimp only [takeFrame] at hpass
  rw [hbehind] at hpass
  by_cases hlong : maxLineLength < f.payload.length
  · rw [if_pos hlong] at hpass
    have hpos : 0 < f.payload.length := Nat.zero_lt_of_lt hlong
    have hbodyEmpty : (f.payload ++ after).isEmpty = false := by
      rw [isEmpty_eq_false_iff, ← length_pos_iff, length_append]
      omega
    have hmin : min f.payload.length (f.payload ++ after).length = f.payload.length := by
      rw [length_append]
      omega
    refine ⟨({ c with
        pending := after
        octetCountingMode := true
        discardOctetBytes := 0
        shouldConsumeOctetDelimiterNewline := endsAtDelimiter after }, out),
      fun t ht => .again hpass (.again ?_ ht), ⟨rfl, h.noSkip, hnext, ?_⟩, rfl⟩
    · simp only [extractPass, Client.advancePending, hbody, hbodyEmpty, Bool.false_eq_true,
        if_false, hpos, if_true, hmin, drop_left, Nat.sub_self, Nat.lt_irrefl]
    · rw [record, if_neg (by omega)] at houtput
      exact houtput
  · rw [if_neg hlong, hbody, take_left] at hpass
    refine ⟨_, .of_pass hpass, ⟨h.noDiscard, h.noSkip, ?_, ?_⟩, hbehind⟩
    · rcases hnext with heq | ⟨hset, heq⟩
      · exact .inl (hbehind.symm ▸ heq)
      · exact .inr ⟨hset, hbehind.symm ▸ heq⟩
    · rw [record, if_pos (by omega)] at houtput
      rw [← houtput]
      simp only [append_assoc]

/-- The last pass: no frame to commit to, and no line in sight. -/
theorem Follows.stop
    (hnot : ¬ f.IsSettledBy s.1.pending) (hquiet : Quiet s.1.pending) : Ends extractPass s s := by
  obtain ⟨c, out⟩ := s
  replace hflag : c.shouldConsumeOctetDelimiterNewline = false := hflag
  have hdiscard : c.discardOctetBytes = 0 := h.noDiscard
  have hskip : c.discardUntilNewline = false := h.noSkip
  have hready : readyFrame c.pending = none :=
    f.readyFrame_of_not_settled hsize (haligned.trans (streamText_cons f fs)) hnot
  have hline : takeLine c out = .done (c, out) := by
    have hnone : memchr Ascii.newline c.pending = none := memchr_eq_none.mpr hquiet.1
    have hshort : ¬ maxLineLength < c.pending.length := Nat.not_lt.mpr hquiet.2
    simp only [takeLine, hnone, hshort, if_false]
  apply Ends.done
  simp only [extractPass, hdiscard, Nat.lt_irrefl, if_false, hflag, Bool.false_eq_true, hskip,
    hready, hline, ite_self]

omit h hsize hflag haligned

-- == one read

theorem settle_of_settled (h : f.IsSettledBy (dropDelimiter held)) :
    settle (f :: fs) held = settle fs ((dropDelimiter held).drop f.core.length) :=
  if_pos h

theorem settle_of_not_settled (h : ¬ f.IsSettledBy (dropDelimiter held)) :
    settle (f :: fs) held = (f :: fs, dropDelimiter held) :=
  if_neg h

theorem settle_nil_right (frames : List Frame) : settle frames [] = (frames, []) := by
  cases frames with
  | nil => rfl
  | cons f fs =>
    apply settle_of_not_settled
    intro hset
    obtain ⟨after, hnil, _⟩ := hset.exists_after
    exact f.core_ne_nil (append_eq_nil_iff.mp hnil.symm).1

/-- The client is left with nothing, or with a frame that is not
settled at the front. -/
def AtFront (s : Extraction) (frames : List Frame) (future : Bytes) : Prop :=
  s.1.pending = [] ∨ ∃ f fs, frames = f :: fs
    ∧ s.1.shouldConsumeOctetDelimiterNewline = false
    ∧ s.1.pending ++ future = streamText (f :: fs) ∧ ¬ f.IsSettledBy s.1.pending

/-- The loop delivers the settled frames and comes to the rest. -/
theorem Follows.leadsTo (h : Follows s frames future total)
    (hsize : ∀ f ∈ frames, f.core.length < usizeLimit) :
    ∃ s₁, LeadsTo s s₁ ∧ Follows s₁ (settle frames s.1.pending).1 future total
      ∧ s₁.1.pending = (settle frames s.1.pending).2
      ∧ AtFront s₁ (settle frames s.1.pending).1 future := by
  induction frames generalizing s with
  | nil =>
    by_cases hne : s.1.pending = []
    · exact ⟨s, fun _ ht => ht, h, hne, .inl hne⟩
    · obtain ⟨s₁, hlead, hfollows, _, _, haligned⟩ := h.skipDelimiter hne
      have hnil : s₁.1.pending = [] := (append_eq_nil_iff.mp haligned).1
      exact ⟨s₁, hlead, hfollows, hnil, .inl hnil⟩
  | cons f fs ih =>
    by_cases hne : s.1.pending = []
    · rw [hne, settle_nil_right]
      exact ⟨s, fun _ ht => ht, h, hne, .inl hne⟩
    · obtain ⟨s₁, hlead, hfollows, hflag, hpending, haligned⟩ := h.skipDelimiter hne
      by_cases hset : f.IsSettledBy (dropDelimiter s.1.pending)
      · rw [settle_of_settled hset]
        obtain ⟨after, hfront, hdrop, hafter⟩ := hset.exists_after
        obtain ⟨s₂, hlead₂, hfollows₂, hpending₂⟩ := hfollows.takeFrame
          (hsize f mem_cons_self) hflag haligned (hpending.trans hfront) hafter
        rw [hdrop, ← hpending₂]
        obtain ⟨s₃, hlead₃, hrest⟩ :=
          ih hfollows₂ (fun g hg => hsize g (mem_cons_of_mem _ hg))
        exact ⟨s₃, fun t ht => hlead _ (hlead₂ _ (hlead₃ t ht)), hrest⟩
      · rw [settle_of_not_settled hset]
        rw [← hpending] at hset
        exact ⟨s₁, hlead, hfollows, hpending, .inr ⟨f, fs, rfl, hflag, haligned, hset⟩⟩

theorem settle_mem {g : Frame} (h : g ∈ (settle frames held).1) : g ∈ frames := by
  induction frames generalizing held with
  | nil => exact h
  | cons f fs ih =>
    by_cases hset : f.IsSettledBy (dropDelimiter held)
    · rw [settle_of_settled hset] at h
      exact mem_cons_of_mem _ (ih h)
    · rw [settle_of_not_settled hset] at h
      exact h

/-- There it stays as long as the rest is quiet. -/
theorem Follows.ends (h : Follows s frames future total)
    (hsize : ∀ f ∈ frames, f.core.length < usizeLimit)
    (hquiet : Quiet (settle frames s.1.pending).2) :
    ∃ t, Ends extractPass s t ∧ Follows t (settle frames s.1.pending).1 future total
      ∧ t.1.pending = (settle frames s.1.pending).2 := by
  obtain ⟨s₁, hlead, hfollows, hpending, hfront⟩ := h.leadsTo hsize
  refine ⟨s₁, hlead _ ?_, hfollows, hpending⟩
  rcases hfront with hnil | ⟨f, fs, hframes, hflag, haligned, hnot⟩
  · exact .done (by simp [extractPass, hnil])
  · have hf : f ∈ (settle frames s.1.pending).1 := by
      rw [hframes]
      exact mem_cons_self
    rw [hframes] at hfollows
    rw [← hpending] at hquiet
    exact hfollows.stop (hsize f (settle_mem hf)) hflag haligned hnot hquiet

/-- The delimiter of a frame and the frames behind it settle it. -/
theorem boundaryIsPlausible_rest (hsize : ∀ g ∈ fs, g.core.length < usizeLimit) (f : Frame) :
    boundaryIsPlausible (f.delimiter ++ streamText fs) := by
  unfold delimiter
  split
  · rfl
  · cases fs with
    | nil => rfl
    | cons g gs =>
      have hg := hsize g mem_cons_self
      have hlen : g.payload.length < usizeLimit := by
        rw [g.length_core] at hg
        omega
      show boundaryIsPlausible (streamText (g :: gs))
      unfold boundaryIsPlausible
      rw [streamText_cons, core, append_assoc, g.parseOctetPrefix_head hlen,
        Option.isSome_some, Bool.or_true]

/-- Frames received to their end are settled, all of them. -/
theorem settle_streamText (hsize : ∀ f ∈ frames, f.core.length < usizeLimit)
    (h : dropDelimiter held = streamText frames) : settle frames held = ([], []) := by
  induction frames generalizing held with
  | nil => rfl
  | cons f fs ih =>
    have hfs : ∀ g ∈ fs, g.core.length < usizeLimit :=
      fun g hg => hsize g (mem_cons_of_mem _ hg)
    rw [streamText_cons] at h
    have hset : f.IsSettledBy (dropDelimiter held) := by
      rw [h]
      exact f.isSettledBy_append (boundaryIsPlausible_rest hfs f)
    rw [settle_of_settled hset, h, drop_left]
    apply ih hfs
    unfold delimiter
    split
    · rfl
    · exact dropDelimiter_of_aligned (append_nil _)

/-- Nothing more is settled without further bytes. -/
theorem settle_settle (hquiet : Quiet (settle frames held).2) :
    settle (settle frames held).1 (settle frames held).2 = settle frames held := by
  induction frames generalizing held with
  | nil => rfl
  | cons f fs ih =>
    by_cases hset : f.IsSettledBy (dropDelimiter held)
    · rw [settle_of_settled hset] at hquiet ⊢
      exact ih hquiet
    · rw [settle_of_not_settled hset] at hquiet ⊢
      have hfixed : dropDelimiter (dropDelimiter held) = dropDelimiter held := by
        unfold dropDelimiter at hquiet ⊢
        rw [if_neg]
        intro hhead
        exact hquiet.1 (mem_of_mem_head? hhead)
      rw [settle_of_not_settled (by rw [hfixed]; exact hset), hfixed]

-- == the runs

variable {chunk : Bytes}

/-- The bytes of a read, before the loop. -/
theorem Follows.receive (h : Follows s frames (chunk ++ future) total) :
    Follows ({ s.1 with pending := s.1.pending ++ chunk }, s.2) frames future total := by
  refine ⟨h.noDiscard, h.noSkip, ?_, h.output⟩
  simp only [append_assoc]
  exact h.aligned

theorem Follows.read (h : Follows s frames (chunk ++ future) total)
    (hsize : ∀ f ∈ frames, f.core.length < usizeLimit)
    (hquiet : Quiet (settle frames (s.1.pending ++ chunk)).2) :
    Follows (read s chunk) (settle frames (s.1.pending ++ chunk)).1 future total
      ∧ (read s chunk).1.pending = (settle frames (s.1.pending ++ chunk)).2 := by
  obtain ⟨t, hends, hfollows, hpending⟩ := h.receive.ends hsize hquiet
  rw [Tcp.read, extractCompleteRecords_of_ends hends]
  exact ⟨hfollows, hpending⟩

theorem Follows.readAll {reads : List Bytes} (h : Follows s frames reads.flatten total)
    (hsize : ∀ f ∈ frames, f.core.length < usizeLimit)
    (hsettled : settle frames s.1.pending = (frames, s.1.pending))
    (harrives : Arrives frames s.1.pending reads) : (readAll s reads).2 = total := by
  induction reads generalizing s frames with
  | nil =>
    have hpending : dropDelimiter s.1.pending = streamText frames := by
      rcases h.aligned with haligned | ⟨_, haligned⟩
      · rw [dropDelimiter_of_aligned haligned, ← haligned, flatten_nil, append_nil]
      · rw [flatten_nil, append_nil] at haligned
        rw [haligned]
        rfl
    -- everything has arrived, so nothing is left to deliver
    have hnil : frames = [] := by
      have hall := settle_streamText hsize hpending
      rw [hsettled] at hall
      exact congrArg Prod.fst hall
    have houtput := h.output
    rw [hnil, records, flatMap_nil, append_nil] at houtput
    exact houtput
  | cons chunk reads ih =>
    obtain ⟨hquiet, hlater⟩ := harrives
    obtain ⟨hfollows, hpending⟩ := h.read hsize hquiet
    apply ih hfollows (fun g hg => hsize g (settle_mem hg))
    · rw [hpending, settle_settle hquiet]
    · rw [hpending]
      exact hlater

-- == a newline in sight

/-- A line that starts at a length never is the payload behind it: the
first newline comes too late. -/
theorem line_ne_payload {head front back payload more more' : Bytes}
    (hhead : Ascii.newline ∉ head) (hne : head ≠ [])
    (hbody : front ++ Ascii.newline :: back = payload ++ more) :
    head ++ front ++ [Ascii.newline] ++ more' ≠ payload ++ [Ascii.newline] ++ records fs := by
  intro heq
  have hfirst := congrArg (idxOf Ascii.newline) hbody
  have hlate := congrArg (idxOf Ascii.newline) heq
  have hpos := length_pos_iff.mpr hne
  simp only [append_assoc, singleton_append, idxOf_append, hhead, if_false,
    idxOf_cons_self] at hfirst hlate
  by_cases hmem : Ascii.newline ∈ payload
  · rw [if_pos hmem] at hfirst hlate
    omega
  · rw [if_neg hmem] at hfirst hlate
    omega

/-- Frames so short that two of them never look like too long a line. -/
def Short (frames : List Frame) : Prop :=
  ∀ f ∈ frames, 2 * f.core.length ≤ maxLineLength

/-- Behind a complete frame that is not settled stand some digits of the
next one. -/
theorem exists_digits_behind (hsize : ∀ g ∈ fs, g.core.length < usizeLimit)
    (hplain : boundaryIsPlausible after = false)
    (h : after ++ future = f.delimiter ++ streamText fs) :
    ∃ g ∈ fs, ∃ ds, after = digitsText ds ∧ ds.length ≤ g.digits.length := by
  cases after with
  | nil => cases hplain
  | cons b rest =>
    unfold delimiter at h
    split at h
    · obtain ⟨rfl, _⟩ := cons.inj h
      cases hplain
    · cases fs with
      | nil => cases h
      | cons g gs =>
        have hg := hsize g mem_cons_self
        refine ⟨g, mem_cons_self, ?_⟩
        rcases g.received_cases (h.trans (streamText_cons g gs)) with hdigits | ⟨body, heq, _⟩
        · exact hdigits
        · rw [g.length_core] at hg
          unfold boundaryIsPlausible at hplain
          rw [heq, g.parseOctetPrefix_head (by omega), Option.isSome_some, Bool.or_true] at hplain
          cases hplain

/-- What is held of short frames is at most one of them and the digits
of the next. -/
theorem length_le_of_short (hshort : Short (f :: fs)) (hsize : ∀ g ∈ fs, g.core.length < usizeLimit)
    (haligned : held ++ future = streamText (f :: fs)) (hnot : ¬ f.IsSettledBy held) :
    held.length ≤ maxLineLength := by
  have hf := hshort f mem_cons_self
  have hcore := f.length_core
  rw [streamText_cons] at haligned
  rcases f.received_cases haligned with ⟨ds, rfl, hds⟩ | ⟨body, rfl, hbody⟩
  · rw [digitsText, length_map]
    omega
  · rw [length_append, f.length_head]
    rcases append_eq_append_iff.mp hbody with ⟨more, hpayload, _⟩ | ⟨after, rfl, hafter⟩
    · have hlen := congrArg length hpayload
      rw [length_append] at hlen
      omega
    · have hplain : boundaryIsPlausible after = false := by
        rw [← append_assoc] at hnot
        exact Bool.eq_false_iff.mpr fun hplausible => hnot (f.isSettledBy_append hplausible)
      obtain ⟨g, hg, ds, rfl, hds⟩ := exists_digits_behind hsize hplain hafter.symm
      have hgcore := g.length_core
      have hgshort := hshort g (mem_cons_of_mem _ hg)
      rw [length_append, digitsText, length_map]
      omega

/-- The pass that takes a newline of an unsettled frame for the end of a
line. -/
theorem Follows.breaksLine (h : Follows s (f :: fs) future total)
    (hsize : ∀ g ∈ f :: fs, g.core.length < usizeLimit) (hshort : Short (f :: fs))
    (hflag : s.1.shouldConsumeOctetDelimiterNewline = false)
    (haligned : s.1.pending ++ future = streamText (f :: fs))
    (hnot : ¬ f.IsSettledBy s.1.pending) (hmem : Ascii.newline ∈ s.1.pending) :
    ∃ s₁, LeadsTo s s₁ ∧ ∀ more, s₁.2 ++ more ≠ total := by
  obtain ⟨c, out⟩ := s
  have hready : readyFrame c.pending = none := f.readyFrame_of_not_settled
    (hsize f mem_cons_self) (haligned.trans (streamText_cons f fs)) hnot
  have hlen := length_le_of_short hshort (fun g hg => hsize g (mem_cons_of_mem _ hg)) haligned hnot
  -- the newline stands in the body, so the line has the length in front
  have hheadFree : Ascii.newline ∉ f.head := by
    unfold Frame.head
    rw [mem_append, not_or]
    exact ⟨mem_digitsText_ne (by decide), by decide⟩
  rcases f.received_cases (haligned.trans (streamText_cons f fs)) with
    ⟨ds, hds, _⟩ | ⟨body, hpending, hbody⟩
  · rw [hds] at hmem
    exact absurd hmem (mem_digitsText_ne (by decide))
  · have hmemBody : Ascii.newline ∈ body := by
      rw [hpending, mem_append] at hmem
      exact hmem.resolve_left hheadFree
    obtain ⟨front, back, rfl, hfront⟩ := eq_append_cons_of_mem hmemBody
    have hline : c.pending = (f.head ++ front) ++ Ascii.newline :: back := by
      rw [hpending, append_assoc]
    have hnoNewline : Ascii.newline ∉ f.head ++ front := by
      rw [mem_append, not_or]
      exact ⟨hheadFree, hfront⟩
    have hpos : memchr Ascii.newline c.pending = some (f.head ++ front).length := by
      rw [hline]
      exact memchr_append_cons hnoNewline
    have hle : ¬ maxLineLength < (f.head ++ front).length := by
      rw [hline, length_append] at hlen
      omega
    have hpass : extractPass (c, out) = .again (c.advancePending ((f.head ++ front).length + 1),
          out ++ c.pending.take ((f.head ++ front).length + 1)) := by
      rw [h.extractPass_eq hflag (ne_nil_of_mem hmem), hready]
      simp only [takeLine, hpos, hle, if_false]
    have htake : c.pending.take ((f.head ++ front).length + 1)
        = f.head ++ front ++ [Ascii.newline] := by
      rw [hline, take_length_add_append]
      rfl
    refine ⟨_, .of_pass hpass, ?_⟩
    intro more heq
    have hrecord : f.record = f.payload ++ [Ascii.newline] := by
      have hf := hshort f mem_cons_self
      rw [f.length_core] at hf
      exact if_pos (by omega)
    have houtput : out ++ (f.record ++ records fs) = total := h.output
    rw [htake, ← houtput, hrecord, append_assoc] at heq
    have hheadNe : f.head ≠ [] := by
      rw [← length_pos_iff, f.length_head]
      omega
    rw [append_assoc front] at hbody
    exact line_ne_payload hheadFree hheadNe hbody (append_cancel_left heq)

-- == short frames

theorem output_readAll (s : Extraction) (reads : List Bytes) : s.2 <+: (readAll s reads).2 := by
  induction reads generalizing s with
  | nil => exact prefix_rfl
  | cons chunk reads ih =>
    have hends := ends_extractCompleteRecords { s.1 with pending := s.1.pending ++ chunk } s.2
    have hread := output_of_ends hends
    exact hread.trans (ih (read s chunk))

/-- A read after which short frames are not quiet spoils the output for
good. -/
theorem Follows.quiet_of_output (h : Follows s frames (chunk ++ future) total)
    (hsize : ∀ f ∈ frames, f.core.length < usizeLimit) (hshort : Short frames)
    (hright : (Tcp.read s chunk).2 <+: total) : Quiet (settle frames (s.1.pending ++ chunk)).2 := by
  obtain ⟨s₁, hlead, hfollows, hpending, hfront⟩ := h.receive.leadsTo hsize
  rw [← hpending]
  rcases hfront with hnil | ⟨f, fs, hframes, hflag, haligned, hnot⟩
  · rw [hnil]
    exact ⟨not_mem_nil, Nat.zero_le _⟩
  · have hmem : ∀ g ∈ f :: fs, g ∈ frames := by
      intro g hg
      rw [← hframes] at hg
      exact settle_mem hg
    have hsizeRest : ∀ g ∈ f :: fs, g.core.length < usizeLimit :=
      fun g hg => hsize g (hmem g hg)
    have hshortRest : Short (f :: fs) := fun g hg => hshort g (hmem g hg)
    refine ⟨?_, length_le_of_short hshortRest
      (fun g hg => hsizeRest g (mem_cons_of_mem _ hg)) haligned hnot⟩
    intro hnewline
    rw [hframes] at hfollows
    obtain ⟨s₂, hlead₂, hspoilt⟩ :=
      hfollows.breaksLine hsizeRest hshortRest hflag haligned hnot hnewline
    have hends := ends_extractCompleteRecords s₂.1 s₂.2
    have heq : Tcp.read s chunk = extractCompleteRecords s₂.1 s₂.2 :=
      extractCompleteRecords_of_ends (hlead _ (hlead₂ _ hends))
    obtain ⟨more, hmore⟩ := (output_of_ends hends).trans (heq ▸ hright)
    exact hspoilt more hmore

/-- Short frames come out right only if they arrive quietly. -/
theorem Follows.arrives {reads : List Bytes} (h : Follows s frames reads.flatten total)
    (hsize : ∀ f ∈ frames, f.core.length < usizeLimit) (hshort : Short frames)
    (hright : (Tcp.readAll s reads).2 = total) : Arrives frames s.1.pending reads := by
  induction reads generalizing s frames with
  | nil => exact .intro
  | cons chunk reads ih =>
    have hquiet : Quiet (settle frames (s.1.pending ++ chunk)).2 := by
      apply h.quiet_of_output hsize hshort
      rw [← hright]
      exact output_readAll (Tcp.read s chunk) reads
    obtain ⟨hfollows, hpending⟩ := h.read hsize hquiet
    have hlater := ih hfollows (fun g hg => hsize g (settle_mem hg))
      (fun g hg => hshort g (settle_mem hg)) hright
    rw [hpending] at hlater
    exact ⟨hquiet, hlater⟩

-- == the law

theorem follows_new (frames : List Frame) :
    Follows (Client.new, []) frames (streamText frames) (records frames) :=
  ⟨rfl, rfl, Or.inl rfl, rfl⟩

/-- Octet-counted frames, however they are cut into reads, come out as
their records if after every read the received bytes of the first
unsettled frame hold no newline and are at most `MAX_LINE_LENGTH`; for
frames of at most half that length, only then. -/
theorem octet_frames_extracted (frames : List Frame) (reads : List Bytes)
    (hsize : ∀ f ∈ frames, f.core.length < usizeLimit)
    (hsent : reads.flatten = streamText frames) :
    (Arrives frames [] reads → (readAll (Client.new, []) reads).2 = records frames)
      ∧ (Short frames →
          ((readAll (Client.new, []) reads).2 = records frames ↔ Arrives frames [] reads)) := by
  have hfollows := follows_new frames
  rw [← hsent] at hfollows
  have hright : Arrives frames [] reads → (readAll (.new, []) reads).2 = records frames :=
    hfollows.readAll hsize (settle_nil_right frames)
  exact ⟨hright, fun hshort => ⟨hfollows.arrives hsize hshort, hright⟩⟩

/-- `11 hello⏎world`, as one frame. -/
def twoLineFrame (newline : Bool) : Frame where
  digits := [⟨1, by decide⟩, ⟨1, by decide⟩]
  payload := "hello\nworld".toUTF8.toList
  newline := newline
  digits_ne_nil := by decide
  counted := by decide +kernel

/-- Two frames in three reads, cut inside the frames: the first cut is
before the newline, the second behind the first frame. -/
theorem two_line_frame_extracted :
    (readAll (Client.new, []) ["11 hel".toUTF8.toList, "lo\nworld\n11 he".toUTF8.toList,
        "llo\nworld".toUTF8.toList]).2
      = records [twoLineFrame true, twoLineFrame false] :=
  (octet_frames_extracted [twoLineFrame true, twoLineFrame false] _ (by decide +kernel)
    (by decide +kernel)).1 (by decide +kernel)

/-- A read that ends behind the newline in the payload makes a line of
the length and the first half of the frame. -/
theorem cut_behind_newline_splits_frame :
    ["11 hello\n".toUTF8.toList, "world".toUTF8.toList].flatten = streamText [twoLineFrame false]
      ∧ (readAll (Client.new, []) ["11 hello\n".toUTF8.toList, "world".toUTF8.toList]).2
          = "11 hello\n".toUTF8.toList
      ∧ (readAll (Client.new, []) ["11 hello\n".toUTF8.toList, "world".toUTF8.toList]).2
          ≠ records [twoLineFrame false] := by
  decide +kernel

end FastForward.Io.Tcp
