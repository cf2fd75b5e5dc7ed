/-
Dominance, by paths: what has been executed on every path to a point.

A point is a block together with what the block executes before it. A path
is listed from its last block back to the entry.
-/
import Mathlib.Data.List.Basic

namespace Dominance

variable {ι α β : Type}

inductive Path (succ : ι → List ι) (entry : ι) : List ι → Prop
  | entry : Path succ entry [entry]
  | step {b b' : ι} {π : List ι} : Path succ entry (b :: π) → b' ∈ succ b → Path succ entry (b' :: b :: π)

/-- On every path to the block `b`, `x` is executed before the point that
comes after `pre`. -/
def Dominates (succ : ι → List ι) (entry : ι) (code : ι → List α) (x : α) (b : ι) (pre : List α) : Prop :=
  ∀ π, Path succ entry (b :: π) → x ∈ π.flatMap code ∨ x ∈ pre

variable {succ : ι → List ι} {entry b : ι} {code code' : ι → List α} {x : α} {pre pre' : List α}

theorem Path.eq_or_mem {π : List ι} (h : Path succ entry (b :: π)) : b = entry ∧ π = [] ∨ entry ∈ π := by
  generalize hp : b :: π = p at h
  induction h generalizing b π with
  | entry =>
    obtain ⟨rfl, rfl⟩ := List.cons.inj hp
    exact .inl ⟨rfl, rfl⟩
  | step hpath _ ih =>
    obtain ⟨rfl, rfl⟩ := List.cons.inj hp
    rcases ih rfl with ⟨rfl, rfl⟩ | hmem
    · exact .inr List.mem_cons_self
    · exact .inr (List.mem_cons_of_mem _ hmem)

/-- A path starts at the entry, and if nothing leads there it does not come
back. -/
theorem Path.exists_concat {π : List ι} (h : Path succ entry π) :
    ∃ ρ, π = ρ ++ [entry] ∧ ((∀ i, entry ∉ succ i) → entry ∉ ρ) := by
  induction h with
  | entry => exact ⟨[], rfl, fun _ => List.not_mem_nil⟩
  | @step b b' _ _ hsucc ih =>
    obtain ⟨ρ, heq, hback⟩ := ih
    refine ⟨b' :: ρ, by rw [heq]; rfl, fun hnone hmem => ?_⟩
    rcases List.mem_cons.1 hmem with rfl | hmem
    · exact hnone b hsucc
    · exact hback hnone hmem

theorem Dominates.of_mem (h : x ∈ pre) : Dominates succ entry code x b pre := fun _ _ => .inr h

/-- More code never undoes dominance. -/
theorem Dominates.mono (h : Dominates succ entry code x b pre) (hc : ∀ i, code i ⊆ code' i) (hp : pre ⊆ pre') :
    Dominates succ entry code' x b pre' := by
  intro π hπ
  rcases h π hπ with hx | hx
  · obtain ⟨i, hi, hxi⟩ := List.mem_flatMap.1 hx
    exact .inl (List.mem_flatMap.2 ⟨i, hi, hc i hxi⟩)
  · exact .inr (hp hx)

theorem Dominates.map (f : α → β) (h : Dominates succ entry code x b pre) :
    Dominates succ entry (fun i => (code i).map f) (f x) b (pre.map f) := by
  intro π hπ
  rcases h π hπ with hx | hx
  · obtain ⟨i, hi, hxi⟩ := List.mem_flatMap.1 hx
    exact .inl (List.mem_flatMap.2 ⟨i, hi, List.mem_map_of_mem hxi⟩)
  · exact .inr (List.mem_map_of_mem hx)

/-- The entry block's code is executed before any point of another block. -/
theorem Dominates.of_entry (hx : x ∈ code entry) (hp : b = entry → x ∈ pre) :
    Dominates succ entry code x b pre := by
  intro π hπ
  rcases hπ.eq_or_mem with ⟨hb, -⟩ | hmem
  · exact .inr (hp hb)
  · exact .inl (List.mem_flatMap.2 ⟨entry, hmem, hx⟩)

end Dominance
