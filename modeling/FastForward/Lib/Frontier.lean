/-
The commit frontier of an ordered acknowledgement protocol: a set `S` of
positions handed out, a set `A` of positions acknowledged, and the
positions that may be committed because nothing handed out at or below
them is still open.

`committable S A` is downward closed inside `S` (`committable_lt`), so
its greatest element, when there is one, is a watermark. The three facts
a machine needs to keep it are here: handing out a position above every
acknowledged one leaves the committable set alone, acknowledging can
only enlarge it, and whatever an acknowledgement adds lies above
whatever was committable before.
-/
import Mathlib.Data.Set.Finite.Lemmas

namespace FastForward.Lib

variable {ι : Type*} [LinearOrder ι]

/-- Every handed-out position up to and including `b` is acknowledged. -/
def Settled (S A : Set ι) (b : ι) : Prop :=
  ∀ x ∈ S, x ≤ b → x ∈ A

/-- The positions a commit may name: handed out, with nothing open at or
below them. -/
def committable (S A : Set ι) : Set ι :=
  {b | b ∈ S ∧ Settled S A b}

variable {S A : Set ι} {b : ι}

theorem mem_committable :
    b ∈ committable S A ↔ b ∈ S ∧ Settled S A b := Iff.rfl

/-- Settled positions sit strictly below every open one. -/
theorem settled_iff_lt_open : Settled S A b ↔ ∀ x ∈ S, x ∉ A → b < x := by
  constructor
  · intro h x hx hxA
    by_contra hle
    exact hxA (h x hx (not_lt.mp hle))
  · intro h x hx hxb
    by_contra hxA
    exact absurd (h x hx hxA) (not_lt.mpr hxb)

theorem committable_mem_acked (hb : b ∈ committable S A) : b ∈ A :=
  hb.2 b hb.1 le_rfl

/-- The committable positions form an initial segment of `S`. -/
theorem committable_lt {c k : ι} (hc : c ∈ committable S A)
    (hk : k ∈ S) (hkn : k ∉ committable S A) : c < k := by
  by_contra hle
  refine hkn ⟨hk, fun x hx hxk => ?_⟩
  exact hc.2 x hx (le_trans hxk (not_lt.mp hle))

variable {A' : Set ι}

theorem committable_mono (h : A ⊆ A') : committable S A ⊆ committable S A' := by
  intro b hb
  exact ⟨hb.1, fun x hx hxb => h (hb.2 x hx hxb)⟩

/-- Handing out a position above every acknowledged one changes nothing
a commit may name. -/
theorem committable_insert_top {n : ι} (hnA : n ∉ A) (htop : ∀ a ∈ S, a ∈ A → a < n) :
    committable (insert n S) A = committable S A := by
  ext b
  constructor
  · rintro ⟨hbS, hset⟩
    have hbA : b ∈ A := hset b hbS le_rfl
    refine ⟨?_, fun x hx hxb => hset x (Set.mem_insert_of_mem n hx) hxb⟩
    rcases Set.mem_insert_iff.mp hbS with rfl | h
    · exact absurd hbA hnA
    · exact h
  · intro hb
    refine ⟨Set.mem_insert_of_mem n hb.1, fun x hx hxb => ?_⟩
    rcases Set.mem_insert_iff.mp hx with rfl | hx
    · have hlt := htop b hb.1 (committable_mem_acked hb)
      exact absurd hxb (not_le.mpr hlt)
    · exact hb.2 x hx hxb

/-- Only the acknowledgements inside `S` matter. -/
theorem committable_congr (h : ∀ x ∈ S, x ∈ A ↔ x ∈ A') : committable S A = committable S A' := by
  ext b
  constructor
  · rintro ⟨hb, hset⟩
    exact ⟨hb, fun x hx hxb => (h x hx).mp (hset x hx hxb)⟩
  · rintro ⟨hb, hset⟩
    exact ⟨hb, fun x hx hxb => (h x hx).mpr (hset x hx hxb)⟩

/-- When finitely many positions were handed out and something is
committable, there is a watermark at or above it. -/
theorem exists_isGreatest_committable (hfin : S.Finite)
    (hb : b ∈ committable S A) : ∃ k, IsGreatest (committable S A) k ∧ b ≤ k := by
  have hsub : (committable S A).Finite := hfin.subset fun x hx => hx.1
  obtain ⟨k, hk, hmax⟩ := Set.exists_max_image _ id hsub ⟨b, hb⟩
  exact ⟨k, ⟨hk, fun x hx => hmax x hx⟩, hmax b hb⟩

end FastForward.Lib
