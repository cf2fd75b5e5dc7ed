/-
Procedures that call each other, and a Hoare logic for the actions they take.

A piece of code is a list of items: one that takes an action, one that calls
other procedures, or one of no interest. An activation takes its items'
actions in order, with those of the activations it calls in between, and may
be left at any point. `Derives.sound` says that what is derived of the code
of every procedure holds of all runs.
-/
import Mathlib.Data.List.Basic

namespace Activation

variable {ε κ σ ω : Type}

/-! ## Triples -/

section

variable (step : σ → ω → Except ε σ) (bad : ε → Prop)

/-- From a state with `P`, the actions lead to one with `Q`, or to an error
that is not bad. -/
def Triple (P : σ → Prop) (ws : List ω) (Q : σ → Prop) : Prop :=
  ∀ s, P s → (∀ s', ws.foldlM step s = .ok s' → Q s') ∧ ∀ e, ws.foldlM step s = .error e → ¬ bad e

variable {step bad} {P P' Q Q' R : σ → Prop} {ws ws' : List ω}

theorem Triple.nil : Triple step bad P [] P := fun _ hs => ⟨fun _ h => by cases h; exact hs, fun _ h => nomatch h⟩

theorem Triple.append (h : Triple step bad P ws Q) (h' : Triple step bad Q ws' R) :
    Triple step bad P (ws ++ ws') R := by
  intro s hs
  rw [List.foldlM_append]
  cases hr : ws.foldlM step s with
  | error e => exact ⟨fun _ h => (nomatch h), fun e' he => by cases he; exact (h s hs).2 e hr⟩
  | ok s' => exact h' s' ((h s hs).1 s' hr)

theorem Triple.conseq (hP : ∀ s, P' s → P s) (h : Triple step bad P ws Q) (hQ : ∀ s, Q s → Q' s) :
    Triple step bad P' ws Q' :=
  fun s hs => ⟨fun s' h' => hQ s' ((h s (hP s hs)).1 s' h'), (h s (hP s hs)).2⟩

end

/-! ## Activations -/

inductive Item (ω : Type)
  | silent
  | act (p : ω → Prop)
  | call

section

-- `proc k k' code`: where the context is `k`, a procedure can be called that
-- runs this code, in the context `k'`.
variable (proc : κ → κ → List (Item ω) → Prop)

mutual

/-- The actions of a piece of code. -/
inductive Executes : κ → List (Item ω) → List ω → Prop
  | nil {k : κ} : Executes k [] []
  | silent {k : κ} {code : List (Item ω)} {ws : List ω} : Executes k code ws → Executes k (.silent :: code) ws
  | act {k : κ} {p : ω → Prop} {w : ω} {code : List (Item ω)} {ws : List ω} : p w → Executes k code ws →
      Executes k (.act p :: code) (w :: ws)
  | call {k : κ} {code : List (Item ω)} {ws ws' : List ω} : Activations k ws → Executes k code ws' →
      Executes k (.call :: code) (ws ++ ws')

/-- The actions of activations, one after the other. -/
inductive Activations : κ → List ω → Prop
  | nil {k : κ} : Activations k []
  | cons {k k' : κ} {done left : List (Item ω)} {ws ws' : List ω} : proc k k' (done ++ left) →
      Executes k' done ws → Activations k ws' → Activations k (ws ++ ws')

end

end

/-! ## Derivations -/

section

variable (step : σ → ω → Except ε σ) (bad : ε → Prop) (Inv : (σ → Prop) → Prop)

/-- What holds along a piece of code, where calls keep the assertions `Inv`. -/
inductive Derives : (σ → Prop) → List (Item ω) → (σ → Prop) → Prop
  | nil {P : σ → Prop} : Derives P [] P
  | silent {P Q : σ → Prop} {code : List (Item ω)} : Derives P code Q → Derives P (.silent :: code) Q
  | act {P R Q : σ → Prop} {p : ω → Prop} {code : List (Item ω)} : (∀ w, p w → Triple step bad P [w] R) →
      Derives R code Q → Derives P (.act p :: code) Q
  | call {P Q : σ → Prop} {code : List (Item ω)} : Inv P → Derives P code Q → Derives P (.call :: code) Q

variable {step bad Inv} {P Q R : σ → Prop} {code code' : List (Item ω)}

theorem Derives.append (h : Derives step bad Inv P code Q) (h' : Derives step bad Inv Q code' R) :
    Derives step bad Inv P (code ++ code') R := by
  induction h with
  | nil => exact h'
  | silent _ ih => exact .silent (ih h')
  | act hp _ ih => exact .act hp (ih h')
  | call hP _ ih => exact .call hP (ih h')

/-- A first part of code that was derived is derived, as far as it goes. -/
theorem Derives.left : ∀ {code : List (Item ω)} {P : σ → Prop}, Derives step bad Inv P (code ++ code') R →
    ∃ Q, Derives step bad Inv P code Q
  | [], P, _ => ⟨P, .nil⟩
  | _ :: _, _, .silent h => (Derives.left h).imp fun _ => .silent
  | _ :: _, _, .act hp h => (Derives.left h).imp fun _ => .act hp
  | _ :: _, _, .call hP h => (Derives.left h).imp fun _ => .call hP

/-- Code all of whose items keep an assertion. -/
theorem Derives.keeps (hcall : .call ∈ code → Inv P)
    (hact : ∀ p, .act p ∈ code → ∀ w, p w → Triple step bad P [w] P) : Derives step bad Inv P code P := by
  induction code with
  | nil => exact .nil
  | cons x code ih =>
    have hrest : Derives step bad Inv P code P :=
      ih (fun h => hcall (List.mem_cons_of_mem x h)) fun p hp => hact p (List.mem_cons_of_mem x hp)
    cases x with
    | silent => exact .silent hrest
    | act p => exact .act (hact p List.mem_cons_self) hrest
    | call => exact .call (hcall List.mem_cons_self) hrest

end

/-! ## Soundness -/

section

variable {proc : κ → κ → List (Item ω) → Prop} {step : σ → ω → Except ε σ} {bad : ε → Prop}
  {Inv : κ → (σ → Prop) → Prop}

/-- However far an activation goes, the assertions its caller relies on
hold behind it. -/
def Sound (proc : κ → κ → List (Item ω) → Prop) (step : σ → ω → Except ε σ) (bad : ε → Prop)
    (Inv : κ → (σ → Prop) → Prop) : Prop :=
  ∀ k k' done left, proc k k' (done ++ left) → ∀ P, Inv k P →
    ∃ Q, Derives step bad (Inv k') P done Q ∧ ∀ s, Q s → P s

mutual

theorem Executes.triple (hproc : Sound proc step bad Inv) {k : κ} {code : List (Item ω)} {ws : List ω}
    {P Q : σ → Prop} : Executes proc k code ws → Derives step bad (Inv k) P code Q → Triple step bad P ws Q
  | .nil, .nil => .nil
  | .silent h, .silent hd => h.triple hproc hd
  | .act hw h, .act hp hd => (hp _ hw).append (h.triple hproc hd)
  | .call ha h, .call hP hd => (ha.triple hproc hP).append (h.triple hproc hd)

theorem Activations.triple (hproc : Sound proc step bad Inv) {k : κ} {ws : List ω} {P : σ → Prop} :
    Activations proc k ws → Inv k P → Triple step bad P ws P
  | .nil, _ => .nil
  | .cons hp h ha, hP => by
    obtain ⟨Q, hd, hQ⟩ := hproc _ _ _ _ hp _ hP
    exact ((h.triple hproc hd).conseq (fun _ hs => hs) hQ).append (ha.triple hproc hP)

end

end

end Activation
