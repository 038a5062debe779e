/-
The octet prefix and the loop of `extract_complete_records`.

Every pass of the loop that goes around again lowers `passesLeft`, so
the loop leaves from every state (`ends_extractCompleteRecords`), and it
never takes back what it has put out (`output_of_ends`).
-/
import FastForward.Io.OctetFrames

namespace FastForward.Io.Tcp

open Core List
open Lib (Pass Ends)

-- == the octet prefix

theorem pushDigit_digitByte {n : Nat} {d : Fin 10} (h : n * 10 + d.val < usizeLimit) :
    pushDigit n (digitByte d) = some (n * 10 + d.val) := by
  unfold pushDigit
  rw [digitByte_sub, if_neg (by omega), if_neg (by omega)]

/-- The digit loop over the digits of a number that fits. -/
theorem countDigits_digitsText {ds : List (Fin 10)} {i n : Nat}
    (h : digitsFrom n ds < usizeLimit) (rest : Bytes) :
    countDigits i n (digitsText ds ++ rest)
      = countDigits (i + ds.length) (digitsFrom n ds) rest := by
  induction ds generalizing i n with
  | nil => rfl
  | cons d ds ih =>
    have hle := le_digitsFrom (n * 10 + d.val) ds
    have hlt : n * 10 + d.val < usizeLimit := Nat.lt_of_le_of_lt hle h
    show countDigits i n (digitByte d :: (digitsText ds ++ rest)) = _
    rw [countDigits, if_pos (isAsciiDigit_digitByte d), pushDigit_digitByte hlt]
    show countDigits (i + 1) (n * 10 + d.val) (digitsText ds ++ rest) = _
    rw [ih h, Nat.add_right_comm]
    rfl

/-- Digits only: the loop runs to their end. -/
theorem countDigits_digitsText_end {ds : List (Fin 10)} {i n j m : Nat}
    (h : countDigits i n (digitsText ds) = some (j, m)) : j = i + ds.length := by
  induction ds generalizing i n with
  | nil =>
    cases h
    rfl
  | cons d ds ih =>
    replace h : countDigits i n (digitByte d :: digitsText ds) = some (j, m) := h
    rw [countDigits, if_pos (isAsciiDigit_digitByte d)] at h
    cases hpush : pushDigit n (digitByte d) with
    | none =>
      rw [hpush] at h
      cases h
    | some n' =>
      rw [hpush] at h
      have hj := ih h
      rw [length_cons]
      omega

/-- Digits that nothing follows are no octet prefix yet. -/
theorem parseOctetPrefix_digitsText (ds : List (Fin 10)) :
    parseOctetPrefix (digitsText ds) = none := by
  unfold parseOctetPrefix
  cases hcount : countDigits 0 0 (digitsText ds) with
  | none => rfl
  | some p =>
    obtain ⟨j, m⟩ := p
    have hj := countDigits_digitsText_end hcount
    have hend : (digitsText ds)[j]? = none := by
      rw [getElem?_eq_none_iff, digitsText, length_map]
      omega
    show (if j = 0 ∨ (digitsText ds)[j]? ≠ some Ascii.space then none else some (m, j + 1)) = none
    rw [if_pos (.inr (by rw [hend]; simp))]

variable (f : Frame)

theorem Frame.length_head : f.head.length = f.digits.length + 1 := by
  simp only [head, digitsText, length_append, length_map, length_singleton]

theorem Frame.length_core : f.core.length = f.digits.length + 1 + f.payload.length := by
  rw [core, length_append, f.length_head]

/-- A complete length is read as what it says. -/
theorem Frame.parseOctetPrefix_head (h : f.payload.length < usizeLimit) (rest : Bytes) :
    parseOctetPrefix (f.head ++ rest) = some (f.payload.length, f.digits.length + 1) := by
  have hassoc : f.head ++ rest = digitsText f.digits ++ (Ascii.space :: rest) := by
    rw [head, append_assoc]
    rfl
  have hcount : countDigits 0 0 (f.head ++ rest) = some (f.digits.length, f.payload.length) := by
    rw [hassoc, countDigits_digitsText (by rw [f.counted]; exact h), f.counted, Nat.zero_add]
    rfl
  have hspace : (f.head ++ rest)[f.digits.length]? = some Ascii.space := by
    rw [hassoc]
    simp [digitsText]
  have hne : f.digits.length ≠ 0 := by
    rw [Ne, length_eq_zero_iff]
    exact f.digits_ne_nil
  unfold parseOctetPrefix
  rw [hcount]
  show (if f.digits.length = 0 ∨ (f.head ++ rest)[f.digits.length]? ≠ some Ascii.space then none
    else some (f.payload.length, f.digits.length + 1)) = _
  rw [if_neg]
  intro hor
  rcases hor with h0 | hs
  · exact hne h0
  · exact hs hspace

/-- Which frame the code commits to once a length is complete. -/
theorem Frame.readyFrame_head (h : f.core.length < usizeLimit) (rest : Bytes) :
    readyFrame (f.head ++ rest)
      = if f.payload.length ≤ rest.length
            ∧ boundaryIsPlausible (rest.drop f.payload.length) then
          some (f.payload.length, f.digits.length + 1)
        else none := by
  rw [f.length_core] at h
  have hdrop : (f.head ++ rest).drop (f.digits.length + 1 + f.payload.length)
      = rest.drop f.payload.length := by
    rw [← f.length_head, ← drop_drop, drop_left]
  unfold readyFrame
  rw [f.parseOctetPrefix_head (by omega)]
  show (if usizeLimit ≤ f.digits.length + 1 + f.payload.length then none else _) = _
  rw [if_neg (by omega), hdrop, length_append, f.length_head]
  simp only [Nat.add_le_add_iff_left]

-- == the loop comes to an end

/-- What every further pass lowers: a pass that takes no byte only moves
a flag, and only in one direction. -/
def passesLeft (c : Client) : Nat :=
  3 * c.pending.length + (if c.shouldConsumeOctetDelimiterNewline then 1 else 0)
    + (if c.discardUntilNewline then 0 else 1)

/-- A frame the code commits to has a prefix and is all there. -/
theorem readyFrame_some {pending : Bytes} {len prefixLen : Nat}
    (h : readyFrame pending = some (len, prefixLen)) :
    0 < prefixLen ∧ prefixLen + len ≤ pending.length := by
  unfold readyFrame at h
  cases hparse : parseOctetPrefix pending with
  | none =>
    rw [hparse] at h
    cases h
  | some p =>
    obtain ⟨n, k⟩ := p
    have hk : 0 < k := by
      unfold parseOctetPrefix at hparse
      split at hparse
      · cases hparse
      · split at hparse
        · cases hparse
        · cases hparse
          omega
    rw [hparse] at h
    simp only at h
    split at h
    · cases h
    · split at h
      · next hready =>
        cases h
        exact ⟨hk, hready.1⟩
      · cases h

/-- A pass that takes a byte lowers it whatever the flags do. -/
theorem passesLeft_lt {c c' : Client} (h : c'.pending.length < c.pending.length) :
    passesLeft c' < passesLeft c := by
  have hone : ∀ b : Bool, (if b then 1 else 0) ≤ 1 := by decide
  have hskip : ∀ b : Bool, (if b then 0 else 1) ≤ 1 := by decide
  have h₁ := hone c'.shouldConsumeOctetDelimiterNewline
  have h₂ := hskip c'.discardUntilNewline
  unfold passesLeft
  omega

/-- A pass that goes around again has less left to do, and has only
added to the output. -/
theorem extractPass_again {s s₁ : Extraction} (h : extractPass s = .again s₁) :
    passesLeft s₁.1 < passesLeft s.1 ∧ ∃ emitted, s₁.2 = s.2 ++ emitted := by
  obtain ⟨c, out⟩ := s
  have hnothing : ∃ emitted, out = out ++ emitted := ⟨[], (append_nil out).symm⟩
  simp only [extractPass] at h
  split at h
  · cases h
  · next hne =>
    have hlen : 0 < c.pending.length := by
      rw [length_pos_iff]
      intro hnil
      exact hne (by rw [hnil]; rfl)
    have hdrop : ∀ n, 0 < n → (c.pending.drop n).length < c.pending.length := by
      intro n hn
      rw [length_drop]
      omega
    split at h
    · -- bytes of a frame that is too long
      next hdiscard =>
      split at h
      · cases h
      · cases h
        exact ⟨passesLeft_lt (hdrop _ (by omega)), hnothing⟩
    · split at h
      · -- the delimiter
        next hflag =>
        cases h
        refine ⟨?_, hnothing⟩
        simp only [passesLeft, Client.advancePending, length_drop, hflag, if_true,
          Bool.false_eq_true, if_false]
        omega
      · split at h
        · -- up to the next newline
          split at h
          · cases h
            exact ⟨passesLeft_lt (hdrop _ (Nat.succ_pos _)), hnothing⟩
          · split at h <;> cases h
        · next hskip =>
          split at h
          · -- a frame
            next len prefixLen hready =>
            have hpos := (readyFrame_some hready).1
            cases h
            unfold takeFrame
            split
            · exact ⟨passesLeft_lt (hdrop _ hpos), hnothing⟩
            · exact ⟨passesLeft_lt (hdrop _ (by omega)), _, append_assoc _ _ _⟩
          · -- a line
            unfold takeLine at h
            have hflip : passesLeft { c with discardUntilNewline := true } < passesLeft c := by
              simp only [passesLeft, hskip, if_true, Bool.false_eq_true, if_false]
              omega
            split at h
            · split at h
              · cases h
                exact ⟨hflip, hnothing⟩
              · cases h
                exact ⟨passesLeft_lt (hdrop _ (Nat.succ_pos _)), _, rfl⟩
            · split at h
              · cases h
                exact ⟨hflip, hnothing⟩
              · cases h

/-- The last pass leaves the output alone. -/
theorem extractPass_done {s t : Extraction} (h : extractPass s = .done t) : t.2 = s.2 := by
  simp only [extractPass, takeLine] at h
  split at h
  · rw [← Pass.done.inj h]
  · split at h
    · split at h
      · rw [← Pass.done.inj h]
      · cases h
    · split at h
      · cases h
      · split at h
        · split at h
          · cases h
          · split at h <;> rw [← Pass.done.inj h]
        · split at h
          · cases h
          · split at h
            · split at h <;> cases h
            · split at h
              · cases h
              · rw [← Pass.done.inj h]

theorem passesLeft_lt_passBound (c : Client) : passesLeft c < passBound c := by
  unfold passesLeft passBound
  split <;> split <;> omega

/-- The loop always leaves, and where it does is the result. -/
theorem ends_extractCompleteRecords (c : Client) (out : Bytes) :
    Ends extractPass (c, out) (extractCompleteRecords c out) := by
  have hμ : ∀ s s' : Extraction, extractPass s = .again s' → passesLeft s'.1 < passesLeft s.1 :=
    fun _ _ h => (extractPass_again h).1
  obtain ⟨t, ht⟩ := Lib.exists_ends hμ (c, out)
  have heq : extractCompleteRecords c out = t :=
    Lib.loop_eq_of_ends hμ ht (passesLeft_lt_passBound c)
  rw [heq]
  exact ht

theorem extractCompleteRecords_of_ends {c : Client} {out : Bytes} {t : Extraction}
    (h : Ends extractPass (c, out) t) : extractCompleteRecords c out = t :=
  Lib.loop_eq_of_ends (fun _ _ hpass => (extractPass_again hpass).1) h
    (passesLeft_lt_passBound c)

theorem output_of_ends {s t : Extraction} (h : Ends extractPass s t) : s.2 <+: t.2 := by
  induction h with
  | done hpass => simp [extractPass_done hpass]
  | again hpass _ ih =>
    obtain ⟨emitted, hout⟩ := (extractPass_again hpass).2
    rw [hout] at ih
    exact (prefix_append _ emitted).trans ih

end FastForward.Io.Tcp
