/-
Threads that step by a relation on what they share, and what they show.

The configurations are those of `Lib.Interleave`; a step here may be one of
several, and shows events. What a thread has shown, it may show by itself when
the shared state becomes anything between its steps (`Interleaves.own`). Where a
thread's steps are another's with some in between, so is every schedule of all
of them (`Interleaves.erase`, `Interleaves.lift`).
-/
import LlvmTracer.Lib.Interleave

namespace Interleave

/-- A thread's step: the shared state and its own, what is shown, and both
states after it. -/
abbrev Acts (ι S L O : Type*) := ι → S → L → List O → S → L → Prop

variable {ι S L L' O O' : Type*}

/-- Steps of one thread, the others at rest. -/
inductive Turn (act : Acts ι S L O) (t : ι) (s : S) (l : L) : List O → S → L → Prop
  | refl : Turn act t s l [] s l
  | snoc {os o : List O} {s' s'' : S} {l' l'' : L} : Turn act t s l os s' l' → act t s' l' o s'' l'' →
      Turn act t s l (os ++ o) s'' l''

/-- Steps of one thread, where the others may do anything to the shared state
before each. -/
inductive Alone (act : Acts ι S L O) (t : ι) (l : L) : List O → L → Prop
  | refl : Alone act t l [] l
  | snoc {os o : List O} {s s' : S} {l' l'' : L} : Alone act t l os l' → act t s l' o s' l'' →
      Alone act t l (os ++ o) l''

theorem Turn.single {act : Acts ι S L O} {t : ι} {s s' : S} {l l' : L} {o : List O} (h : act t s l o s' l') :
    Turn act t s l o s' l' := .snoc .refl h

theorem Turn.trans {act : Acts ι S L O} {t : ι} {s s' s'' : S} {l l' l'' : L} {o o' : List O}
    (h : Turn act t s l o s' l') (h' : Turn act t s' l' o' s'' l'') : Turn act t s l (o ++ o') s'' l'' := by
  induction h' with
  | refl => rwa [List.append_nil]
  | snoc _ hstep ih =>
    rw [← List.append_assoc]
    exact ih.snoc hstep

/-- The events some of which another system does not have. -/
def keepShown (keep : O' → Option O) (os : List (ι × O')) : List (ι × O) :=
  os.filterMap fun x => (keep x.2).map (Prod.mk x.1)

theorem keepShown_append (keep : O' → Option O) (os os' : List (ι × O')) :
    keepShown keep (os ++ os') = keepShown keep os ++ keepShown keep os' := List.filterMap_append

theorem keepShown_map (keep : O' → Option O) (t : ι) (o : List O') :
    keepShown keep (o.map (Prod.mk t)) = (o.filterMap keep).map (Prod.mk t) := by
  rw [keepShown, List.filterMap_map, List.map_filterMap]
  rfl

variable [DecidableEq ι]

/-- What some order of the threads' steps leads to, and what is shown on the
way, and by whom. -/
inductive Interleaves (act : Acts ι S L O) (c₀ : Conf ι S L) : List (ι × O) → Conf ι S L → Prop
  | start : Interleaves act c₀ [] c₀
  | snoc {os : List (ι × O)} {c : Conf ι S L} {t : ι} {o : List O} {s : S} {l : L} : Interleaves act c₀ os c →
      act t c.shared (c.own t) o s l → Interleaves act c₀ (os ++ o.map (Prod.mk t)) ⟨s, Function.update c.own t l⟩

/-- What one thread shows. -/
def shownBy (t : ι) (os : List (ι × O)) : List O := (os.filter (·.1 = t)).map Prod.snd

@[simp] theorem shownBy_nil (t : ι) : shownBy t ([] : List (ι × O)) = [] := rfl

@[simp] theorem shownBy_append (t : ι) (os os' : List (ι × O)) :
    shownBy t (os ++ os') = shownBy t os ++ shownBy t os' := by
  simp [shownBy]

@[simp] theorem shownBy_self (t : ι) (o : List O) : shownBy t (o.map (Prod.mk t)) = o := by
  simp [shownBy, List.filter_map, Function.comp_def]

theorem shownBy_other {t u : ι} (h : t ≠ u) (o : List O) : shownBy u (o.map (Prod.mk t)) = [] := by
  simp [shownBy, List.filter_map, Function.comp_def, h]

theorem shownBy_keepShown (keep : O' → Option O) (t : ι) (os : List (ι × O')) :
    shownBy t (keepShown keep os) = (shownBy t os).filterMap keep := by
  induction os with
  | nil => rfl
  | cons x os ih =>
    obtain ⟨u, x⟩ := x
    rw [← List.singleton_append, keepShown_append, shownBy_append, shownBy_append, List.filterMap_append, ih]
    congr 1
    by_cases hu : u = t <;> cases hx : keep x <;> simp [keepShown, shownBy, hu, hx]

variable {act : Acts ι S L O} {act' : Acts ι S L' O'}

theorem Interleaves.turn {c₀ c : Conf ι S L} {os : List (ι × O)} {t : ι} {o : List O} {s : S} {l : L}
    (h : Interleaves act c₀ os c) (hturn : Turn act t c.shared (c.own t) o s l) :
    Interleaves act c₀ (os ++ o.map (Prod.mk t)) ⟨s, Function.update c.own t l⟩ := by
  induction hturn with
  | refl => simpa using h
  | snoc _ hstep ih =>
    rw [List.map_append, ← List.append_assoc]
    have hnext := ih.snoc (t := t) (by simpa using hstep)
    simpa using hnext

/-- A thread among others is a thread by itself. -/
theorem Interleaves.own {c₀ c : Conf ι S L} {os : List (ι × O)} (h : Interleaves act c₀ os c) (t : ι) :
    Alone act t (c₀.own t) (shownBy t os) (c.own t) := by
  induction h with
  | start => exact .refl
  | @snoc os c u o s l _ hstep ih =>
    by_cases hu : u = t
    · subst hu
      simpa using ih.snoc hstep
    · simpa [shownBy_other hu, Function.update_of_ne (Ne.symm hu)] using ih

/-- Threads, and the same with more steps, which the others do not see: `abs`
shows what a thread of theirs is at. -/
structure Refines (act : Acts ι S L O) (act' : Acts ι S L' O') (l₀ : ι → L') (abs : L' → L) (keep : O' → Option O) :
    Prop where
  erase : ∀ {t s l o s' l'}, act' t s l o s' l' →
    act t s (abs l) (o.filterMap keep) s' (abs l') ∨ s' = s ∧ abs l' = abs l ∧ o.filterMap keep = []
  lift : ∀ {t os s l o s' x}, Alone act' t (l₀ t) os l → act t s (abs l) o s' x →
    ∃ o' l', Turn act' t s l o' s' l' ∧ o'.filterMap keep = o ∧ abs l' = x

def Conf.abs (f : L' → L) (c : Conf ι S L') : Conf ι S L := ⟨c.shared, fun t => f (c.own t)⟩

theorem Conf.abs_update (f : L' → L) (c : Conf ι S L') (t : ι) (s : S) (l : L') :
    Conf.abs f ⟨s, Function.update c.own t l⟩ = ⟨s, Function.update (c.abs f).own t (f l)⟩ := by
  simp only [Conf.abs, Conf.mk.injEq, true_and]
  funext u
  by_cases hu : u = t
  · subst hu
    simp
  · simp [Function.update_of_ne hu]

variable {l₀ : ι → L'} {f : L' → L} {keep : O' → Option O} (href : Refines act act' l₀ f keep) {s₀ : S}
include href

theorem Interleaves.erase {os : List (ι × O')} {c : Conf ι S L'} (h : Interleaves act' ⟨s₀, l₀⟩ os c) :
    Interleaves act (Conf.abs f ⟨s₀, l₀⟩) (keepShown keep os) (c.abs f) := by
  induction h with
  | start => exact .start
  | @snoc os c t o s l _ hstep ih =>
    rw [keepShown_append, keepShown_map, Conf.abs_update]
    rcases href.erase hstep with hone | ⟨rfl, hsame, hnone⟩
    · exact ih.snoc hone
    · rw [hnone, hsame, List.map_nil, List.append_nil]
      have hid : Function.update (c.abs f).own t (f (c.own t)) = (c.abs f).own := Function.update_eq_self t _
      rw [hid]
      exact ih

theorem Interleaves.lift {os : List (ι × O)} {c : Conf ι S L} (h : Interleaves act (Conf.abs f ⟨s₀, l₀⟩) os c) :
    ∃ os' c', Interleaves act' ⟨s₀, l₀⟩ os' c' ∧ keepShown keep os' = os ∧ c'.abs f = c := by
  induction h with
  | start => exact ⟨[], _, .start, rfl, rfl⟩
  | @snoc os c t o s l _ hstep ih =>
    obtain ⟨os', c', hshows, rfl, rfl⟩ := ih
    obtain ⟨o', l', hturn, rfl, rfl⟩ := href.lift (hshows.own t) hstep
    exact ⟨_, _, hshows.turn hturn, by rw [keepShown_append, keepShown_map], Conf.abs_update f c' t s l'⟩

end Interleave
