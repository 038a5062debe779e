/-
The first step of a cascading flush empties the chain; the later ones
flush empty processors and pass nothing on.
-/
import Mathlib.Data.List.Forall2
import FastForward.Runtime.Processors

namespace FastForward.Runtime.Processor

open List

variable {σ β ε : Type} {p : Processor σ β ε} {buffered : σ → List β} {chain before after : List σ}

/-- Flushes keep an empty processor empty. -/
theorem Buffers.reflushed (h : p.Buffers buffered) {s t : σ} (ht : p.Reflushed s t)
    (hs : buffered s = []) : buffered t = [] := by
  induction ht with
  | refl => exact hs
  | tail _ hstep _ => exact hstep ▸ h.empties _

theorem Buffers.forall_reflushed (h : p.Buffers buffered)
    (hlater : Forall₂ p.Reflushed before after) (hempty : ∀ s ∈ before, buffered s = []) :
    ∀ s ∈ after, buffered s = [] := by
  induction hlater with
  | nil => exact hempty
  | cons ht _ ih =>
    obtain ⟨hs, hrest⟩ := forall_mem_cons.mp hempty
    exact forall_mem_cons.mpr ⟨h.reflushed ht hs, ih hrest⟩

theorem reflushed_trans (h : Forall₂ p.Reflushed before chain)
    (h' : Forall₂ p.Reflushed chain after) : Forall₂ p.Reflushed before after := by
  induction h generalizing after with
  | nil => exact h'
  | cons hs _ ih =>
    cases h' with
    | cons ht h' => exact .cons (hs.trans ht) (ih h')

/-- Flushing the processors again does not change what passed. -/
theorem Passed.reflushed {taken returned : List β} {later : List σ}
    (h : p.Passed buffered taken before after returned)
    (hlater : Forall₂ p.Reflushed after later) :
    p.Passed buffered taken before later returned := by
  induction before generalizing taken after later with
  | nil => cases hlater <;> exact h
  | cons s before ih =>
    cases hlater with
    | nil => exact h
    | cons ht hlater => exact ⟨h.1.trans ht, ih h.2 hlater⟩

/-- What goes into a cascade passes down the chain and leaves it empty. -/
theorem cascade_passed (h : p.Buffers buffered) (taken : List β) (chain : List σ) :
    p.Passed buffered taken chain (p.cascade taken chain).1 (p.cascade taken chain).2
      ∧ ∀ s ∈ (p.cascade taken chain).1, buffered s = [] := by
  induction chain generalizing taken with
  | nil => exact ⟨rfl, forall_mem_nil _⟩
  | cons s chain ih =>
    obtain ⟨hpassed, hempty⟩ :=
      ih ((p.processEach s taken).2 ++ (p.flush (p.processEach s taken).1).2)
    refine ⟨⟨.refl, ?_⟩, forall_mem_cons.mpr ⟨h.empties _, hempty⟩⟩
    rw [← h.emits]
    exact hpassed

/-- With nothing to pass on, a cascade over empty processors flushes each. -/
theorem cascade_empty (h : p.Buffers buffered) (hempty : ∀ s ∈ chain, buffered s = []) :
    Forall₂ p.Reflushed chain (p.cascade [] chain).1 ∧ (p.cascade [] chain).2 = [] := by
  induction chain with
  | nil => exact ⟨.nil, rfl⟩
  | cons s chain ih =>
    obtain ⟨hs, hchain⟩ := forall_mem_cons.mp hempty
    rw [cascade]
    simp only [processEach, nil_append, h.emits, hs]
    exact ⟨.cons (.single rfl) (ih hchain).1, (ih hchain).2⟩

/-- The steps after the first: nothing is emitted, nobody holds anything. -/
theorem flushEach_empty (h : p.Buffers buffered) (n : Nat)
    (hempty : ∀ s ∈ chain, buffered s = []) :
    Forall₂ p.Reflushed chain (p.flushEach n chain).1 ∧ (p.flushEach n chain).2 = [] := by
  induction n generalizing chain with
  | zero => exact ⟨forall₂_same.mpr fun _ _ => .refl, rfl⟩
  | succ n ih =>
    cases chain with
    | nil => exact ⟨.nil, rfl⟩
    | cons s chain =>
      obtain ⟨hs, hchain⟩ := forall_mem_cons.mp hempty
      obtain ⟨hflushed, hnone⟩ := cascade_empty h hchain
      obtain ⟨hlater, hmore⟩ := ih (h.forall_reflushed hflushed hchain)
      rw [flushEach]
      simp only [h.emits, hs, hnone, hmore, nil_append, and_true]
      exact .cons (.single rfl) (reflushed_trans hflushed hlater)

end FastForward.Runtime.Processor
