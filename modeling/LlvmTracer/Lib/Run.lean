/-
Runs of steps that may fail: `foldlM` in `Except`.

`foldlM_cons_ok` takes the first step off a run that returns; `foldlM_invariant` carries an
invariant along one.
-/
import Mathlib.Data.List.Basic

namespace Run

variable {ε α β σ : Type}

theorem ok_bind {a : α} {f : α → Except ε β} : (Except.ok a >>= f) = f a := rfl

theorem error_bind {e : ε} {f : α → Except ε β} : (Except.error e >>= f) = .error e := rfl

theorem bind_eq_ok {x : Except ε α} {f : α → Except ε β} {b : β} :
    (x >>= f) = .ok b ↔ ∃ a, x = .ok a ∧ f a = .ok b := by
  cases x with
  | error e => simp [bind, Except.bind]
  | ok a => simp [bind, Except.bind]

theorem map_eq_ok {x : Except ε α} {f : α → β} {b : β} :
    x.map f = .ok b ↔ ∃ a, x = .ok a ∧ f a = b := by
  cases x with
  | error e => simp [Except.map]
  | ok a => simp [Except.map]

theorem map_eq_error {x : Except ε α} {f : α → β} {e : ε} : x.map f = .error e ↔ x = .error e := by
  cases x with
  | error e' => simp [Except.map]
  | ok a => simp [Except.map]

theorem bind_eq_error {x : Except ε α} {f : α → Except ε β} {e : ε} :
    (x >>= f) = .error e ↔ x = .error e ∨ ∃ a, x = .ok a ∧ f a = .error e := by
  cases x with
  | error e => simp [bind, Except.bind]
  | ok a => simp [bind, Except.bind]

theorem foldlM_cons_ok {f : σ → α → Except ε σ} {a : α} {l : List α} {s r : σ} :
    (a :: l).foldlM f s = .ok r ↔ ∃ s', f s a = .ok s' ∧ l.foldlM f s' = .ok r := by
  rw [List.foldlM_cons, bind_eq_ok]

theorem foldlM_invariant {f : σ → α → Except ε σ} (I : σ → Prop)
    (hs : ∀ s a s', I s → f s a = .ok s' → I s') :
    ∀ {l : List α} {s r : σ}, I s → l.foldlM f s = .ok r → I r
  | [], s, r, hi, h => by
    simp only [List.foldlM_nil, pure, Except.pure, Except.ok.injEq] at h
    exact h ▸ hi
  | a :: l, s, r, hi, h => by
    obtain ⟨s', h₁, h₂⟩ := foldlM_cons_ok.1 h
    exact foldlM_invariant I hs (hs s a s' hi h₁) h₂

/-- When whether a step returns is up to what it is given, a run returns just
when each of its steps does. -/
theorem exists_foldlM_ok {f : σ → α → Except ε σ} {P : α → Prop} (hs : ∀ s a, (∃ s', f s a = .ok s') ↔ P a) :
    ∀ {l : List α} {s : σ}, (∃ r, l.foldlM f s = .ok r) ↔ ∀ a ∈ l, P a
  | [], s => iff_of_true ⟨s, rfl⟩ fun _ h => nomatch h
  | a :: l, s => by
    rw [List.forall_mem_cons]
    constructor
    · rintro ⟨r, h⟩
      obtain ⟨s', h₁, h₂⟩ := foldlM_cons_ok.1 h
      exact ⟨(hs s a).1 ⟨s', h₁⟩, (exists_foldlM_ok hs).1 ⟨r, h₂⟩⟩
    · rintro ⟨ha, hl⟩
      obtain ⟨s', h₁⟩ := (hs s a).2 ha
      obtain ⟨r, h₂⟩ := (exists_foldlM_ok hs).2 hl
      exact ⟨r, foldlM_cons_ok.2 ⟨s', h₁, h₂⟩⟩

/-! ## Errors that never come -/

/-- A computation that fails does so with an error other than these. -/
def Avoids (bad : ε → Prop) (x : Except ε α) : Prop := ∀ e, x = .error e → ¬ bad e

section Avoids

variable {bad : ε → Prop}

theorem Avoids.ok (a : α) : Avoids bad (.ok a : Except ε α) := fun _ h => nomatch h

theorem Avoids.error {e : ε} (h : ¬ bad e) : Avoids bad (.error e : Except ε α) := by
  intro e' he
  cases he
  exact h

theorem Avoids.bind {x : Except ε α} {f : α → Except ε β} (hx : Avoids bad x) (hf : ∀ a, Avoids bad (f a)) :
    Avoids bad (x >>= f) := by
  intro e he
  rcases bind_eq_error.1 he with h | ⟨a, -, h⟩
  · exact hx e h
  · exact hf a e h

theorem Avoids.map {x : Except ε α} {f : α → β} (hx : Avoids bad x) : Avoids bad (x.map f) := by
  intro e he
  cases x with
  | error e' =>
    cases he
    exact hx e rfl
  | ok a => cases he

theorem Avoids.foldlM {f : σ → α → Except ε σ} (hf : ∀ s a, Avoids bad (f s a)) :
    ∀ {l : List α} {s : σ}, Avoids bad (l.foldlM f s)
  | [], _ => .ok _
  | a :: l, s => by
    rw [List.foldlM_cons]
    exact (hf s a).bind fun _ => foldlM hf

end Avoids

/-! ## Which computations return -/

/-- Where `P` holds the computation fails with none of the bad errors, and it
returns nowhere else. -/
structure Decides (bad : ε → Prop) (P : Prop) (x : Except ε α) : Prop where
  avoids : P → Avoids bad x
  needs : ∀ a, x = .ok a → P

section Decides

variable {bad : ε → Prop} {P Q : Prop}

theorem Decides.of_avoids {x : Except ε α} (h : Avoids bad x) (hP : P) : Decides bad P x := ⟨fun _ => h, fun _ _ => hP⟩

theorem Decides.ok {a : α} (hP : P) : Decides bad P (.ok a : Except ε α) := .of_avoids (.ok a) hP

theorem Decides.error {e : ε} (hP : ¬ P) : Decides bad P (.error e : Except ε α) :=
  ⟨fun h => absurd h hP, fun _ h => nomatch h⟩

theorem Decides.self {x : Except ε α} : Decides bad (∃ a, x = .ok a) x := by
  refine ⟨?_, fun a h => ⟨a, h⟩⟩
  rintro ⟨a, rfl⟩
  exact .ok a

theorem Decides.congr {x : Except ε α} (h : Decides bad P x) (hiff : P ↔ Q) : Decides bad Q x :=
  ⟨fun hQ => h.avoids (hiff.2 hQ), fun a ha => hiff.1 (h.needs a ha)⟩

theorem Decides.bind {x : Except ε α} {f : α → Except ε β} (hx : Decides bad P x)
    (hf : ∀ a, x = .ok a → Decides bad Q (f a)) : Decides bad (P ∧ Q) (x >>= f) := by
  refine ⟨?_, fun b h => ?_⟩
  · rintro ⟨hP, hQ⟩ e he
    rcases bind_eq_error.1 he with h | ⟨a, ha, h⟩
    · exact hx.avoids hP e h
    · exact (hf a ha).avoids hQ e h
  · obtain ⟨a, ha, hb⟩ := bind_eq_ok.1 h
    exact ⟨hx.needs a ha, (hf a ha).needs b hb⟩

/-- Nothing is up to the first part. -/
theorem Decides.after {x : Except ε α} {f : α → Except ε β} (hx : Avoids bad x)
    (hf : ∀ a, x = .ok a → Decides bad Q (f a)) : Decides bad Q (x >>= f) :=
  ((Decides.of_avoids hx trivial).bind hf).congr (and_iff_right trivial)

/-- Nothing is up to the rest. -/
theorem Decides.before {x : Except ε α} {f : α → Except ε β} (hx : Decides bad P x) (hf : ∀ a, Avoids bad (f a)) :
    Decides bad P (x >>= f) :=
  (hx.bind fun a _ => .of_avoids (hf a) trivial).congr (and_iff_left trivial)

theorem Decides.map {x : Except ε α} {f : α → β} (hx : Decides bad P x) : Decides bad P (x.map f) := by
  refine ⟨fun hP => (hx.avoids hP).map, fun b h => ?_⟩
  obtain ⟨a, ha, -⟩ := map_eq_ok.1 h
  exact hx.needs a ha

theorem Decides.foldlM {f : σ → α → Except ε σ} {P : α → Prop} (hf : ∀ s a, Decides bad (P a) (f s a)) :
    ∀ {l : List α} {s : σ}, Decides bad (∀ a ∈ l, P a) (l.foldlM f s)
  | [], _ => .ok (by simp)
  | a :: l, s => by
    rw [List.foldlM_cons]
    exact ((hf s a).bind fun _ _ => Decides.foldlM hf).congr List.forall_mem_cons.symm

end Decides

end Run
