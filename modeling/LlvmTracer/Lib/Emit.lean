/-
Computations over a state that may fail and that emit a list as they go.

`Runs m s a o s'` says that `m` started in `s` returns `a` and leaves `s'`,
having emitted `o`. The rules `runs_*` take a computation apart; a relation
between the two states and what was emitted that composes (`Composes`) is
carried along it.
-/
import LlvmTracer.Lib.Run

/-- A computation over states `σ` that may fail with an `ε` and emits a list of `ω`. -/
def Emit (ε σ ω α : Type) : Type := σ → Except ε (α × List ω × σ)

namespace Emit

variable {ε σ ω α β : Type}

instance : Monad (Emit ε σ ω) where
  pure a := fun s => .ok (a, [], s)
  bind m f := fun s =>
    match m s with
    | .error e => .error e
    | .ok (a, o, s') =>
      match f a s' with
      | .error e => .error e
      | .ok (b, o', s'') => .ok (b, o ++ o', s'')

def lift (x : Except ε α) : Emit ε σ ω α := fun s => x.map fun a => (a, [], s)

def get : Emit ε σ ω σ := fun s => .ok (s, [], s)

def modify (f : σ → σ) : Emit ε σ ω Unit := fun s => .ok ((), [], f s)

def tell (x : ω) : Emit ε σ ω Unit := fun s => .ok ((), [x], s)

def Runs (m : Emit ε σ ω α) (s : σ) (a : α) (o : List ω) (s' : σ) : Prop := m s = .ok (a, o, s')

theorem bind_eq_of_ok {m : Emit ε σ ω α} {f : α → Emit ε σ ω β} {s s' : σ} {a : α} {o : List ω}
    (h : m s = .ok (a, o, s')) : (m >>= f) s = (f a s').map fun r => (r.1, o ++ r.2.1, r.2.2) := by
  simp only [bind, h]
  cases f a s' <;> rfl

theorem bind_eq_of_error {m : Emit ε σ ω α} {f : α → Emit ε σ ω β} {s : σ} {e : ε} (h : m s = .error e) :
    (m >>= f) s = .error e := by
  simp only [bind, h]

/-! ## Taking a computation apart -/

@[simp] theorem runs_pure {a b : α} {s s' : σ} {o : List ω} :
    Runs (pure a : Emit ε σ ω α) s b o s' ↔ b = a ∧ o = [] ∧ s' = s := by
  simp only [Runs, pure, Except.ok.injEq, Prod.mk.injEq]
  constructor
  · rintro ⟨rfl, rfl, rfl⟩; exact ⟨rfl, rfl, rfl⟩
  · rintro ⟨rfl, rfl, rfl⟩; exact ⟨rfl, rfl, rfl⟩

theorem runs_bind {m : Emit ε σ ω α} {f : α → Emit ε σ ω β} {s s' : σ} {b : β} {o : List ω} :
    Runs (m >>= f) s b o s' ↔
      ∃ a o₁ s₁ o₂, Runs m s a o₁ s₁ ∧ Runs (f a) s₁ b o₂ s' ∧ o = o₁ ++ o₂ := by
  simp only [Runs, bind]
  constructor
  · intro h
    split at h
    · cases h
    · rename_i a o₁ s₁ hm
      split at h
      · cases h
      · rename_i b' o₂ s₂ hf
        simp only [Except.ok.injEq, Prod.mk.injEq] at h
        obtain ⟨rfl, rfl, rfl⟩ := h
        exact ⟨a, o₁, s₁, o₂, hm, hf, rfl⟩
  · rintro ⟨a, o₁, s₁, o₂, hm, hf, rfl⟩
    simp only [hm, hf]

@[simp] theorem runs_lift {x : Except ε α} {a : α} {s s' : σ} {o : List ω} :
    Runs (lift x) s a o s' ↔ x = .ok a ∧ o = [] ∧ s' = s := by
  cases x with
  | error e => simp [Runs, lift, Except.map]
  | ok b =>
    simp only [Runs, lift, Except.map, Except.ok.injEq, Prod.mk.injEq]
    constructor
    · rintro ⟨rfl, rfl, rfl⟩; exact ⟨rfl, rfl, rfl⟩
    · rintro ⟨rfl, rfl, rfl⟩; exact ⟨rfl, rfl, rfl⟩

@[simp] theorem runs_get {s s' t : σ} {o : List ω} :
    Runs (get : Emit ε σ ω σ) s t o s' ↔ t = s ∧ o = [] ∧ s' = s := by
  simp only [Runs, get, Except.ok.injEq, Prod.mk.injEq]
  constructor
  · rintro ⟨rfl, rfl, rfl⟩; exact ⟨rfl, rfl, rfl⟩
  · rintro ⟨rfl, rfl, rfl⟩; exact ⟨rfl, rfl, rfl⟩

@[simp] theorem runs_modify {f : σ → σ} {s s' : σ} {u : Unit} {o : List ω} :
    Runs (modify f : Emit ε σ ω Unit) s u o s' ↔ o = [] ∧ s' = f s := by
  simp only [Runs, modify, Except.ok.injEq, Prod.mk.injEq, true_and]
  constructor
  · rintro ⟨rfl, rfl⟩; exact ⟨rfl, rfl⟩
  · rintro ⟨rfl, rfl⟩; exact ⟨rfl, rfl⟩

@[simp] theorem runs_tell {x : ω} {s s' : σ} {u : Unit} {o : List ω} :
    Runs (tell x : Emit ε σ ω Unit) s u o s' ↔ o = [x] ∧ s' = s := by
  simp only [Runs, tell, Except.ok.injEq, Prod.mk.injEq, true_and]
  constructor
  · rintro ⟨rfl, rfl⟩; exact ⟨rfl, rfl⟩
  · rintro ⟨rfl, rfl⟩; exact ⟨rfl, rfl⟩

theorem runs_forM_nil {f : α → Emit ε σ ω PUnit} {s s' : σ} {u : PUnit} {o : List ω} :
    Runs (forM ([] : List α) f) s u o s' ↔ o = [] ∧ s' = s := by
  rw [List.forM_nil, runs_pure]
  simp

theorem runs_forM_cons {f : α → Emit ε σ ω PUnit} {x : α} {l : List α} {s s' : σ} {u : PUnit} {o : List ω} :
    Runs (forM (x :: l) f) s u o s' ↔
      ∃ o₁ s₁ o₂, Runs (f x) s ⟨⟩ o₁ s₁ ∧ Runs (forM l f) s₁ u o₂ s' ∧ o = o₁ ++ o₂ := by
  rw [List.forM_cons, runs_bind]
  constructor
  · rintro ⟨_, o₁, s₁, o₂, h⟩; exact ⟨o₁, s₁, o₂, h⟩
  · rintro ⟨o₁, s₁, o₂, h⟩; exact ⟨⟨⟩, o₁, s₁, o₂, h⟩

theorem runs_foldlM_nil {f : β → α → Emit ε σ ω β} {b r : β} {s s' : σ} {o : List ω} :
    Runs (([] : List α).foldlM f b) s r o s' ↔ r = b ∧ o = [] ∧ s' = s := by
  rw [List.foldlM_nil, runs_pure]

theorem runs_foldlM_cons {f : β → α → Emit ε σ ω β} {x : α} {l : List α} {b r : β} {s s' : σ} {o : List ω} :
    Runs ((x :: l).foldlM f b) s r o s' ↔
      ∃ b₁ o₁ s₁ o₂, Runs (f b x) s b₁ o₁ s₁ ∧ Runs (l.foldlM f b₁) s₁ r o₂ s' ∧ o = o₁ ++ o₂ := by
  rw [List.foldlM_cons, runs_bind]

/-! ## Relations along a computation -/

/-- Holds of doing nothing, and of one stretch after another. -/
structure Composes (R : σ → List ω → σ → Prop) : Prop where
  nil : ∀ s, R s [] s
  append : ∀ {s s₁ s₂ o₁ o₂}, R s o₁ s₁ → R s₁ o₂ s₂ → R s (o₁ ++ o₂) s₂

/-- What each emitted element satisfies. -/
theorem composes_forall (P : ω → Prop) : Composes fun (_ : σ) o (_ : σ) => ∀ x ∈ o, P x where
  nil _ := by simp
  append h₁ h₂ := by
    intro x hx
    rcases List.mem_append.1 hx with hx | hx
    · exact h₁ x hx
    · exact h₂ x hx

/-! ## Errors that never come -/

def Avoids (bad : ε → Prop) (m : Emit ε σ ω α) : Prop := ∀ s, Run.Avoids bad (m s)

section Avoids

variable {bad : ε → Prop}

theorem Avoids.pure (a : α) : Avoids bad (pure a : Emit ε σ ω α) := fun _ => .ok _

theorem Avoids.get : Avoids bad (get : Emit ε σ ω σ) := fun _ => .ok _

theorem Avoids.modify (f : σ → σ) : Avoids bad (modify f : Emit ε σ ω Unit) := fun _ => .ok _

theorem Avoids.tell (x : ω) : Avoids bad (tell x : Emit ε σ ω Unit) := fun _ => .ok _

theorem Avoids.lift {x : Except ε α} (h : Run.Avoids bad x) : Avoids bad (lift x : Emit ε σ ω α) := fun _ => h.map

theorem Avoids.bind {m : Emit ε σ ω α} {f : α → Emit ε σ ω β} (hm : Avoids bad m) (hf : ∀ a, Avoids bad (f a)) :
    Avoids bad (m >>= f) := by
  intro s
  cases h : m s with
  | error e =>
    rw [bind_eq_of_error h]
    exact .error (hm s e h)
  | ok r =>
    rw [bind_eq_of_ok h]
    exact (hf r.1 r.2.2).map

theorem Avoids.forM {f : α → Emit ε σ ω PUnit} (hf : ∀ x, Avoids bad (f x)) : ∀ {l : List α}, Avoids bad (forM l f)
  | [] => by
    rw [List.forM_nil]
    exact .pure _
  | x :: l => by
    rw [List.forM_cons]
    exact (hf x).bind fun _ => forM hf

theorem Avoids.foldlM {f : β → α → Emit ε σ ω β} (hf : ∀ b x, Avoids bad (f b x)) :
    ∀ {l : List α} {b : β}, Avoids bad (l.foldlM f b)
  | [], b => by
    rw [List.foldlM_nil]
    exact .pure b
  | x :: l, b => by
    rw [List.foldlM_cons]
    exact (hf b x).bind fun _ => foldlM hf

end Avoids

/-! ## What comes after -/

/-- What `f` lists of the value and the state that `m` leaves, where it returns. -/
def listAfter {τ : Type} (m : Emit ε σ ω α) (f : α → σ → List τ) (s : σ) : List τ :=
  match m s with
  | .ok (a, _, s') => f a s'
  | .error _ => []

theorem mem_listAfter {τ : Type} {m : Emit ε σ ω α} {f : α → σ → List τ} {s : σ} {x : τ} :
    x ∈ listAfter m f s ↔ ∃ a o s', Runs m s a o s' ∧ x ∈ f a s' := by
  unfold listAfter Runs
  cases m s with
  | error e => simp
  | ok r =>
    constructor
    · exact fun hx => ⟨r.1, r.2.1, r.2.2, rfl, hx⟩
    · rintro ⟨a, o, s', h, hx⟩
      cases h
      exact hx

/-- Errors that do not come from a state on. -/
theorem avoids_bind {bad : ε → Prop} {m : Emit ε σ ω α} {f : α → Emit ε σ ω β} {s : σ} (hm : Run.Avoids bad (m s))
    (hf : ∀ a o s', Runs m s a o s' → Run.Avoids bad (f a s')) : Run.Avoids bad ((m >>= f) s) := by
  cases h : m s with
  | error e =>
    rw [bind_eq_of_error h]
    exact .error (hm e h)
  | ok r =>
    rw [bind_eq_of_ok h]
    exact (hf r.1 r.2.1 r.2.2 h).map

theorem avoids_get_bind {bad : ε → Prop} {f : σ → Emit ε σ ω β} {s : σ} (h : Run.Avoids bad (f s s)) :
    Run.Avoids bad ((get >>= f) s) := by
  refine avoids_bind (.ok _) fun t o s' hrun => ?_
  obtain ⟨ht, -, hs⟩ := runs_get.1 hrun
  rwa [ht, hs]

theorem avoids_lift_bind {bad : ε → Prop} {x : Except ε α} {f : α → Emit ε σ ω β} {s : σ} (hx : Run.Avoids bad x)
    (hf : ∀ a, x = .ok a → Run.Avoids bad (f a s)) : Run.Avoids bad ((lift x >>= f) s) := by
  refine avoids_bind hx.map fun a o s' hrun => ?_
  obtain ⟨ha, -, hs⟩ := runs_lift.1 hrun
  rw [hs]
  exact hf a ha

/-! ## Which computations return -/

/-- From an `I`, where `P` holds the computation fails with none of the bad
errors and leaves an `I`. Where it leaves an `I`, it started from one, and `P`
holds. -/
structure Decides (I : σ → Prop) (bad : ε → Prop) (P : Prop) (m : Emit ε σ ω α) : Prop where
  avoids : ∀ s, I s → P → Run.Avoids bad (m s)
  keeps : ∀ s a o s', I s → P → Runs m s a o s' → I s'
  needs : ∀ s a o s', Runs m s a o s' → I s' → I s ∧ P

section Decides

variable {I : σ → Prop} {bad : ε → Prop} {P Q : Prop}

theorem Decides.congr {m : Emit ε σ ω α} (h : Decides I bad P m) (hiff : P ↔ Q) : Decides I bad Q m where
  avoids s hs hQ := h.avoids s hs (hiff.2 hQ)
  keeps s a o s' hs hQ := h.keeps s a o s' hs (hiff.2 hQ)
  needs s a o s' hrun hs' := (h.needs s a o s' hrun hs').imp_right hiff.1

/-- It changes nothing that `I` is about. -/
theorem Decides.of_avoids {m : Emit ε σ ω α} (h : Avoids bad m) (hI : ∀ s a o s', Runs m s a o s' → (I s' ↔ I s)) :
    Decides I bad True m where
  avoids s _ _ := h s
  keeps s a o s' hs _ hrun := (hI s a o s' hrun).2 hs
  needs s a o s' hrun hs' := ⟨(hI s a o s' hrun).1 hs', trivial⟩

theorem Decides.of_true {m : Emit ε σ ω α} (h : Decides I bad True m) (hP : P) : Decides I bad P m :=
  h.congr (iff_of_true trivial hP)

theorem Decides.pure {a : α} (hP : P) : Decides I bad P (pure a : Emit ε σ ω α) :=
  .of_true (.of_avoids (.pure a) fun s b o s' hrun => by rw [(runs_pure.1 hrun).2.2]) hP

theorem Decides.modify {f : σ → σ} (h : ∀ s, I (f s) ↔ I s) : Decides I bad True (modify f : Emit ε σ ω Unit) :=
  .of_avoids (.modify f) fun s u o s' hrun => by rw [(runs_modify.1 hrun).2, h]

theorem Decides.lift {x : Except ε α} (h : Run.Decides bad P x) : Decides I bad P (lift x : Emit ε σ ω α) where
  avoids s _ hP := (h.avoids hP).map
  keeps s a o s' hs _ hrun := by rwa [(runs_lift.1 hrun).2.2]
  needs s a o s' hrun hs' := by
    obtain ⟨hx, -, rfl⟩ := runs_lift.1 hrun
    exact ⟨hs', h.needs a hx⟩

theorem Decides.bind {m : Emit ε σ ω α} {f : α → Emit ε σ ω β} (hm : Decides I bad P m)
    (hf : ∀ s a o s', Runs m s a o s' → Decides I bad Q (f a)) : Decides I bad (P ∧ Q) (m >>= f) where
  avoids s hs h := avoids_bind (hm.avoids s hs h.1) fun a o s₁ hrun =>
    (hf s a o s₁ hrun).avoids s₁ (hm.keeps s a o s₁ hs h.1 hrun) h.2
  keeps s b o s' hs h hrun := by
    obtain ⟨a, o₁, s₁, o₂, h₁, h₂, -⟩ := runs_bind.1 hrun
    exact (hf s a o₁ s₁ h₁).keeps s₁ b o₂ s' (hm.keeps s a o₁ s₁ hs h.1 h₁) h.2 h₂
  needs s b o s' hrun hs' := by
    obtain ⟨a, o₁, s₁, o₂, h₁, h₂, -⟩ := runs_bind.1 hrun
    obtain ⟨hs₁, hQ⟩ := (hf s a o₁ s₁ h₁).needs s₁ b o₂ s' h₂ hs'
    exact (hm.needs s a o₁ s₁ h₁ hs₁).imp_right fun hP => ⟨hP, hQ⟩

/-- Nothing is up to the first part. -/
theorem Decides.after {m : Emit ε σ ω α} {f : α → Emit ε σ ω β} (hm : Decides I bad True m)
    (hf : ∀ s a o s', Runs m s a o s' → Decides I bad Q (f a)) : Decides I bad Q (m >>= f) :=
  (hm.bind hf).congr (and_iff_right trivial)

/-- Nothing is up to the rest. -/
theorem Decides.before {m : Emit ε σ ω α} {f : α → Emit ε σ ω β} (hm : Decides I bad P m)
    (hf : ∀ a, Decides I bad True (f a)) : Decides I bad P (m >>= f) :=
  (hm.bind fun _ a _ _ _ => hf a).congr (and_iff_left trivial)

theorem Decides.get_bind {f : σ → Emit ε σ ω β} (hf : ∀ s, Decides I bad Q (f s)) : Decides I bad Q (get >>= f) :=
  Decides.after (.of_avoids .get fun s a o s' hrun => by rw [(runs_get.1 hrun).2.2]) fun _ a _ _ _ => hf a

theorem Decides.lift_bind {x : Except ε α} {f : α → Emit ε σ ω β} (hx : Run.Decides bad P x)
    (hf : ∀ a, x = .ok a → Decides I bad Q (f a)) : Decides I bad (P ∧ Q) (Emit.lift x >>= f) :=
  (Decides.lift hx).bind fun _ a _ _ hrun => hf a (runs_lift.1 hrun).1

theorem Decides.forM {f : α → Emit ε σ ω PUnit} {P : α → Prop} :
    ∀ {l : List α}, (∀ x ∈ l, Decides I bad (P x) (f x)) → Decides I bad (∀ x ∈ l, P x) (forM l f)
  | [], _ => by
    rw [List.forM_nil]
    exact .pure (by simp)
  | x :: l, hf => by
    rw [List.forM_cons]
    exact ((hf x List.mem_cons_self).bind fun _ _ _ _ _ => Decides.forM fun y hy =>
      hf y (List.mem_cons_of_mem x hy)).congr List.forall_mem_cons.symm

theorem Decides.foldlM {f : β → α → Emit ε σ ω β} {P : α → Prop} :
    ∀ {l : List α} {b : β}, (∀ x ∈ l, ∀ b, Decides I bad (P x) (f b x)) → Decides I bad (∀ x ∈ l, P x) (l.foldlM f b)
  | [], b, _ => by
    rw [List.foldlM_nil]
    exact .pure (by simp)
  | x :: l, b, hf => by
    rw [List.foldlM_cons]
    exact ((hf x List.mem_cons_self b).bind fun _ _ _ _ _ => Decides.foldlM fun y hy =>
      hf y (List.mem_cons_of_mem x hy)).congr List.forall_mem_cons.symm

end Decides

/-! ## What is emitted and returned -/

/-- Where the computation returns, everything it emitted is a `P` and its
value a `Q`. -/
def Yields (P : ω → Prop) (Q : α → Prop) (m : Emit ε σ ω α) : Prop :=
  ∀ s a o s', Runs m s a o s' → (∀ x ∈ o, P x) ∧ Q a

section Yields

variable {P : ω → Prop} {Q : α → Prop} {R : β → Prop}

theorem Yields.pure {a : α} (h : Q a) : Yields P Q (pure a : Emit ε σ ω α) := by
  intro s b o s' hrun
  obtain ⟨rfl, rfl, rfl⟩ := runs_pure.1 hrun
  exact ⟨by simp, h⟩

theorem Yields.get : Yields P (fun _ => True) (get : Emit ε σ ω σ) := by
  intro s t o s' hrun
  obtain ⟨rfl, rfl, rfl⟩ := runs_get.1 hrun
  exact ⟨by simp, trivial⟩

theorem Yields.modify {f : σ → σ} : Yields P (fun _ => True) (modify f : Emit ε σ ω Unit) := by
  intro s u o s' hrun
  obtain ⟨rfl, rfl⟩ := runs_modify.1 hrun
  exact ⟨by simp, trivial⟩

theorem Yields.lift {x : Except ε α} (h : ∀ a, x = .ok a → Q a) : Yields P Q (lift x : Emit ε σ ω α) := by
  intro s a o s' hrun
  obtain ⟨hx, rfl, rfl⟩ := runs_lift.1 hrun
  exact ⟨by simp, h a hx⟩

theorem Yields.bind {m : Emit ε σ ω α} {f : α → Emit ε σ ω β} (hm : Yields P Q m) (hf : ∀ a, Q a → Yields P R (f a)) :
    Yields P R (m >>= f) := by
  intro s b o s' hrun
  obtain ⟨a, o₁, s₁, o₂, h₁, h₂, rfl⟩ := runs_bind.1 hrun
  obtain ⟨hfirst, ha⟩ := hm s a o₁ s₁ h₁
  obtain ⟨hrest, hb⟩ := hf a ha s₁ b o₂ s' h₂
  exact ⟨fun x hx => (List.mem_append.1 hx).elim (hfirst x) (hrest x), hb⟩

theorem Yields.mono {P' : ω → Prop} {Q' : α → Prop} {m : Emit ε σ ω α} (h : Yields P Q m) (hP : ∀ x, P x → P' x)
    (hQ : ∀ a, Q a → Q' a) : Yields P' Q' m := by
  intro s a o s' hrun
  obtain ⟨hemit, ha⟩ := h s a o s' hrun
  exact ⟨fun x hx => hP x (hemit x hx), hQ a ha⟩

theorem Yields.forM {f : α → Emit ε σ ω PUnit} : ∀ {l : List α}, (∀ x ∈ l, Yields P (fun _ => True) (f x)) →
    Yields P (fun _ => True) (forM l f)
  | [], _ => by
    rw [List.forM_nil]
    exact .pure trivial
  | x :: l, hf => by
    rw [List.forM_cons]
    exact (hf x List.mem_cons_self).bind fun _ _ => forM fun y hy => hf y (List.mem_cons_of_mem x hy)

theorem Yields.foldlM {f : β → α → Emit ε σ ω β} : ∀ {l : List α} {b : β}, R b →
    (∀ x ∈ l, ∀ b, R b → Yields P R (f b x)) → Yields P R (l.foldlM f b)
  | [], b, hb, _ => by
    rw [List.foldlM_nil]
    exact .pure hb
  | x :: l, b, hb, hf => by
    rw [List.foldlM_cons]
    exact (hf x List.mem_cons_self b hb).bind fun b' hb' =>
      foldlM hb' fun y hy => hf y (List.mem_cons_of_mem x hy)

end Yields

/-! ## What is kept -/

/-- Where the computation returns from an `I`, it leaves one, everything it
emitted is a `P` and its value a `Q`. -/
def Keeps (I : σ → Prop) (P : ω → Prop) (Q : α → Prop) (m : Emit ε σ ω α) : Prop :=
  ∀ s a o s', I s → Runs m s a o s' → I s' ∧ (∀ x ∈ o, P x) ∧ Q a

section Keeps

variable {I : σ → Prop} {P : ω → Prop} {Q : α → Prop} {R : β → Prop}

theorem Keeps.pure {a : α} (h : Q a) : Keeps I P Q (pure a : Emit ε σ ω α) := by
  intro s b o s' hs hrun
  obtain ⟨rfl, rfl, rfl⟩ := runs_pure.1 hrun
  exact ⟨hs, by simp, h⟩

theorem Keeps.get : Keeps I P I (get : Emit ε σ ω σ) := by
  intro s t o s' hs hrun
  obtain ⟨rfl, rfl, rfl⟩ := runs_get.1 hrun
  exact ⟨hs, by simp, hs⟩

theorem Keeps.modify {f : σ → σ} (h : ∀ s, I s → I (f s)) : Keeps I P (fun _ => True) (modify f : Emit ε σ ω Unit) := by
  intro s u o s' hs hrun
  obtain ⟨rfl, rfl⟩ := runs_modify.1 hrun
  exact ⟨h s hs, by simp, trivial⟩

theorem Keeps.tell {x : ω} (h : P x) : Keeps I P (fun _ => True) (tell x : Emit ε σ ω Unit) := by
  intro s u o s' hs hrun
  obtain ⟨rfl, rfl⟩ := runs_tell.1 hrun
  exact ⟨hs, by simpa using h, trivial⟩

theorem Keeps.lift {x : Except ε α} (h : ∀ a, x = .ok a → Q a) : Keeps I P Q (lift x : Emit ε σ ω α) := by
  intro s a o s' hs hrun
  obtain ⟨hx, rfl, rfl⟩ := runs_lift.1 hrun
  exact ⟨hs, by simp, h a hx⟩

theorem Keeps.bind {m : Emit ε σ ω α} {f : α → Emit ε σ ω β} (hm : Keeps I P Q m) (hf : ∀ a, Q a → Keeps I P R (f a)) :
    Keeps I P R (m >>= f) := by
  intro s b o s' hs hrun
  obtain ⟨a, o₁, s₁, o₂, h₁, h₂, rfl⟩ := runs_bind.1 hrun
  obtain ⟨hs₁, hfirst, ha⟩ := hm s a o₁ s₁ hs h₁
  obtain ⟨hs', hrest, hb⟩ := hf a ha s₁ b o₂ s' hs₁ h₂
  exact ⟨hs', fun x hx => (List.mem_append.1 hx).elim (hfirst x) (hrest x), hb⟩

theorem Keeps.mono {Q' : α → Prop} {m : Emit ε σ ω α} (h : Keeps I P Q m) (hQ : ∀ a, Q a → Q' a) : Keeps I P Q' m := by
  intro s a o s' hs hrun
  obtain ⟨hs', hemit, ha⟩ := h s a o s' hs hrun
  exact ⟨hs', hemit, hQ a ha⟩

theorem Keeps.forM {f : α → Emit ε σ ω PUnit} : ∀ {l : List α}, (∀ x ∈ l, Keeps I P (fun _ => True) (f x)) →
    Keeps I P (fun _ => True) (forM l f)
  | [], _ => by
    rw [List.forM_nil]
    exact .pure trivial
  | x :: l, hf => by
    rw [List.forM_cons]
    exact (hf x List.mem_cons_self).bind fun _ _ => forM fun y hy => hf y (List.mem_cons_of_mem x hy)

theorem Keeps.foldlM {f : β → α → Emit ε σ ω β} : ∀ {l : List α} {b : β}, R b →
    (∀ x ∈ l, ∀ b, R b → Keeps I P R (f b x)) → Keeps I P R (l.foldlM f b)
  | [], b, hb, _ => by
    rw [List.foldlM_nil]
    exact .pure hb
  | x :: l, b, hb, hf => by
    rw [List.foldlM_cons]
    exact (hf x List.mem_cons_self b hb).bind fun b' hb' =>
      foldlM hb' fun y hy => hf y (List.mem_cons_of_mem x hy)

end Keeps

end Emit
