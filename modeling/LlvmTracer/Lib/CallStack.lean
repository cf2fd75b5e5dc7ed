/-
Programs of procedures that call each other, and the stack of their activations.

An activation runs its procedure's blocks as `Machine.Run` does, until an
instruction calls another procedure; the caller goes on when that has
returned. `Reaches.erase` and `Reaches.lift` are the two halves of a
simulation, by a program whose procedures have more instructions than
another's. Each procedure needs to be looked at alone only: an activation is
always one that a run of its procedure by itself comes to (`Reaches.alone`).
-/
import LlvmTracer.Lib.Machine

namespace CallStack

open Machine

variable {κ ι α β σ τ ρ ω ω' : Type}

/-- The procedures, each known by what activates it. -/
structure Program (κ ι α σ ρ ω : Type) where
  entry : κ → ι
  code : κ → ι → List α
  exec : κ → Exec ι α σ ρ ω
  /-- The events of a call itself, and of a return. -/
  onCall : κ → List ω
  onReturn : κ → List ω
  /-- An instruction may call a procedure, which starts with some data. -/
  call : κ → α → σ → κ → σ → Prop
  /-- Behind a call, with the result and the last data of what was called:
  the caller's data, and where its control goes. -/
  resume : κ → ι → α → σ → ρ → σ → σ → Exit ι ρ → Prop

/-- An activation: the instruction it is at, with those behind it in its block. -/
structure Frame (κ ι α σ : Type) where
  proc : κ
  block : ι
  todo : List α
  data : σ

/-- An activation is running, or has just returned; its caller, the caller's
caller and so on are each at the call. -/
inductive State (κ ι α σ ρ : Type)
  | running (top : Frame κ ι α σ) (callers : List (Frame κ ι α σ))
  | returning (r : ρ) (s : σ) (callers : List (Frame κ ι α σ))

def State.callers : State κ ι α σ ρ → List (Frame κ ι α σ)
  | running _ callers | returning _ _ callers => callers

def State.frames : State κ ι α σ ρ → List (Frame κ ι α σ)
  | running top callers => top :: callers
  | returning _ _ callers => callers

namespace Program

variable (P : Program κ ι α σ ρ ω)

def start (a : κ) (s : σ) : Frame κ ι α σ := ⟨a, P.entry a, P.code a (P.entry a), s⟩

/-- Where an activation is behind an instruction. -/
inductive Leaves (a : κ) (b : ι) (todo : List α) (s : σ) (callers : List (Frame κ ι α σ)) :
    Exit ι ρ → List ω → State κ ι α σ ρ → Prop
  | next : Leaves a b todo s callers .next [] (.running ⟨a, b, todo, s⟩ callers)
  | jump {b' : ι} : todo = [] → Leaves a b todo s callers (.jump b') [] (.running ⟨a, b', P.code a b', s⟩ callers)
  | halt {r : ρ} : Leaves a b todo s callers (.halt r) (P.onReturn a) (.returning r s callers)

inductive Step : State κ ι α σ ρ → List ω → State κ ι α σ ρ → Prop
  | exec {a : κ} {b : ι} {x : α} {todo : List α} {s s' : σ} {callers : List (Frame κ ι α σ)}
      {o o' : List ω} {e : Exit ι ρ} {st : State κ ι α σ ρ} : P.exec a b x s o s' e →
      P.Leaves a b todo s' callers e o' st → Step (.running ⟨a, b, x :: todo, s⟩ callers) (o ++ o') st
  | call {a a' : κ} {b : ι} {x : α} {todo : List α} {s s' : σ} {callers : List (Frame κ ι α σ)} :
      P.call a x s a' s' →
      Step (.running ⟨a, b, x :: todo, s⟩ callers) (P.onCall a')
        (.running (P.start a' s') (⟨a, b, x :: todo, s⟩ :: callers))
  | resume {a : κ} {b : ι} {x : α} {todo : List α} {s s' u : σ} {r : ρ} {callers : List (Frame κ ι α σ)}
      {o : List ω} {e : Exit ι ρ} {st : State κ ι α σ ρ} : P.resume a b x s r u s' e →
      P.Leaves a b todo s' callers e o st → Step (.returning r u (⟨a, b, x :: todo, s⟩ :: callers)) o st

/-- The states a program comes to that starts with a procedure, and the
events on the way. -/
inductive Reaches (a : κ) (s : σ) : List ω → State κ ι α σ ρ → Prop
  | start : Reaches a s [] (.running (P.start a s) [])
  | snoc {os o : List ω} {st st' : State κ ι α σ ρ} : Reaches a s os st → P.Step st o st' → Reaches a s (os ++ o) st'

/-! ## One activation by itself -/

/-- What an activation's instructions do when its calls may return anything. -/
def opened (a : κ) : Exec ι α σ ρ ω := fun b x s o s' e =>
  P.exec a b x s o s' e ∨ o = [] ∧ ∃ r u, P.resume a b x s r u s' e

/-- The activation is one that a run of its procedure by itself comes to. -/
def Alone (Init : κ → σ → Prop) (f : Frame κ ι α σ) : Prop :=
  ∃ s₀ v vs, Init f.proc s₀ ∧ v.block = f.block ∧
    Run (P.opened f.proc) (P.entry f.proc) (P.code f.proc) s₀ (v :: vs) (.running f.todo f.data)

variable {P} {Init : κ → σ → Prop}

theorem Alone.start {a : κ} {s : σ} (h : Init a s) : P.Alone Init (P.start a s) := ⟨s, _, _, h, rfl, .start⟩

theorem Leaves.alone {a : κ} {b : ι} {x : α} {todo : List α} {s s' : σ} {callers : List (Frame κ ι α σ)}
    {o o' : List ω} {e : Exit ι ρ} {st : State κ ι α σ ρ} (h : P.Leaves a b todo s' callers e o' st)
    (hexec : P.opened a b x s o s' e)
    (hframes : ∀ f ∈ (⟨a, b, x :: todo, s⟩ : Frame κ ι α σ) :: callers, P.Alone Init f) :
    ∀ f ∈ st.frames, P.Alone Init f := by
  obtain ⟨⟨s₀, v, vs, hinit, rfl, hrun⟩, hcallers⟩ := List.forall_mem_cons.1 hframes
  cases h with
  | next => exact List.forall_mem_cons.2 ⟨⟨s₀, ⟨v.block, _⟩, vs, hinit, rfl, hrun.next hexec⟩, hcallers⟩
  | jump htodo =>
    subst htodo
    exact List.forall_mem_cons.2 ⟨⟨s₀, ⟨_, []⟩, _, hinit, rfl, hrun.jump hexec⟩, hcallers⟩
  | halt => exact hcallers

theorem Leaves.callers_eq {a : κ} {b : ι} {todo : List α} {s : σ} {callers : List (Frame κ ι α σ)} {o : List ω}
    {e : Exit ι ρ} {st : State κ ι α σ ρ} (h : P.Leaves a b todo s callers e o st) : st.callers = callers := by
  cases h <;> rfl

variable {a₀ : κ} {s₀ : σ} {os : List ω} {st : State κ ι α σ ρ}

/-- Every activation is one that its procedure by itself comes to. -/
theorem Reaches.alone (hcall : ∀ {a x s a' s'}, P.call a x s a' s' → Init a' s') (hinit : Init a₀ s₀)
    (h : P.Reaches a₀ s₀ os st) : ∀ f ∈ st.frames, P.Alone Init f := by
  induction h with
  | start => exact List.forall_mem_singleton.2 (.start hinit)
  | snoc _ hstep ih =>
    cases hstep with
    | exec hexec hleaves => exact hleaves.alone (.inl hexec) ih
    | call hc => exact List.forall_mem_cons.2 ⟨.start (hcall hc), ih⟩
    | resume hresume hleaves => exact hleaves.alone (.inr ⟨rfl, _, _, hresume⟩) ih

/-- What holds of an activation as it calls another holds of all callers. -/
theorem Reaches.callers {Q : Frame κ ι α σ → Prop}
    (hQ : ∀ {a b x todo s a' s'}, P.call a x s a' s' → Q ⟨a, b, x :: todo, s⟩) (h : P.Reaches a₀ s₀ os st) :
    ∀ f ∈ st.callers, Q f := by
  induction h with
  | start => exact List.forall_mem_nil _
  | snoc _ hstep ih =>
    cases hstep with
    | exec _ hleaves =>
      rw [hleaves.callers_eq]
      exact ih
    | call hcall => exact List.forall_mem_cons.2 ⟨hQ hcall, ih⟩
    | resume _ hleaves =>
      rw [hleaves.callers_eq]
      exact (List.forall_mem_cons.1 ih).2

end Program

/-! ## A program with more instructions -/

def Frame.erase (orig : β → Option α) (abs : τ → σ) (f : Frame κ ι β τ) : Frame κ ι α σ :=
  ⟨f.proc, f.block, f.todo.filterMap orig, abs f.data⟩

def State.erase (orig : β → Option α) (abs : τ → σ) : State κ ι β τ ρ → State κ ι α σ ρ
  | running top callers => running (top.erase orig abs) (callers.map (Frame.erase orig abs))
  | returning r t callers => returning r (abs t) (callers.map (Frame.erase orig abs))

/-- A program `P'` whose procedures are those of `P` with more instructions:
the new ones call nothing, and calls and returns do to the data `abs` shows
what they do in `P`. -/
structure Simulates (P : Program κ ι α σ ρ ω) (P' : Program κ ι β τ ρ ω') (orig : β → Option α) (abs : τ → σ)
    (keep : ω' → Option ω) : Prop where
  entry : ∀ a, P'.entry a = P.entry a
  onCall : ∀ a, (P'.onCall a).filterMap keep = P.onCall a
  onReturn : ∀ a, (P'.onReturn a).filterMap keep = P.onReturn a
  proc : ∀ a, Machine.Simulates (P.exec a) (P'.exec a) (P.code a) (P'.code a) orig abs keep
  call : ∀ {a y t a' t'}, P'.call a y t a' t' → ∃ x, orig y = some x ∧ P.call a x (abs t) a' (abs t')
  call_lift : ∀ {a y x t a' s'}, orig y = some x → P.call a x (abs t) a' s' → ∃ t', P'.call a y t a' t' ∧ abs t' = s'
  resume : ∀ {a b y t r u t' e}, P'.resume a b y t r u t' e →
    ∃ x, orig y = some x ∧ P.resume a b x (abs t) r (abs u) (abs t') e
  resume_lift : ∀ {a b y x t r u s' e}, orig y = some x → P.resume a b x (abs t) r (abs u) s' e →
    ∃ t', P'.resume a b y t r u t' e ∧ abs t' = s'

section

variable {P : Program κ ι α σ ρ ω} {P' : Program κ ι β τ ρ ω'} {orig : β → Option α} {abs : τ → σ}
  {keep : ω' → Option ω} (hsim : Simulates P P' orig abs keep)
include hsim

theorem Simulates.erase_start (a : κ) (t : τ) : (P'.start a t).erase orig abs = P.start a (abs t) := by
  simp only [Program.start, Frame.erase, hsim.entry, (hsim.proc a).code]

theorem Simulates.erase_leaves {a : κ} {b : ι} {todo : List β} {t : τ} {callers : List (Frame κ ι β τ)} {o : List ω'}
    {e : Exit ι ρ} {st : State κ ι β τ ρ} (h : P'.Leaves a b todo t callers e o st) :
    P.Leaves a b (todo.filterMap orig) (abs t) (callers.map (Frame.erase orig abs)) e (o.filterMap keep)
      (st.erase orig abs) := by
  cases h with
  | next => exact .next
  | @jump b' htodo =>
    subst htodo
    have hjump : P.Leaves a b [] (abs t) (callers.map (Frame.erase orig abs)) (.jump b') [] _ := .jump rfl
    simpa [State.erase, Frame.erase, (hsim.proc a).code] using hjump
  | halt =>
    rw [hsim.onReturn]
    exact .halt

/-- A step is one of the smaller program, or one it does not see. -/
theorem Simulates.erase_step {st st' : State κ ι β τ ρ} {o : List ω'} (h : P'.Step st o st') :
    P.Step (st.erase orig abs) (o.filterMap keep) (st'.erase orig abs) ∨
      st'.erase orig abs = st.erase orig abs ∧ o.filterMap keep = [] := by
  cases h with
  | @exec a b y todo t t' callers o o' e st hexec hleaves =>
    rw [List.filterMap_append]
    cases hy : orig y with
    | none =>
      obtain ⟨rfl, habs, ho⟩ := (hsim.proc a).new hy hexec
      cases hleaves
      exact .inr ⟨by simp [State.erase, Frame.erase, List.filterMap_cons_none hy, habs], by simp [ho]⟩
    | some x =>
      refine .inl ?_
      simp only [State.erase, Frame.erase, List.filterMap_cons_some hy]
      exact .exec ((hsim.proc a).old hy hexec) (hsim.erase_leaves hleaves)
  | call hcall =>
    obtain ⟨x, hy, hcall'⟩ := hsim.call hcall
    refine .inl ?_
    simp only [State.erase, List.map_cons, hsim.erase_start, hsim.onCall]
    simp only [Frame.erase, List.filterMap_cons_some hy]
    exact .call hcall'
  | resume hresume hleaves =>
    obtain ⟨x, hy, hresume'⟩ := hsim.resume hresume
    refine .inl ?_
    simp only [State.erase, List.map_cons, Frame.erase, List.filterMap_cons_some hy]
    exact .resume hresume' (hsim.erase_leaves hleaves)

/-- Every run is one of the smaller program. -/
theorem Program.Reaches.erase {a₀ : κ} {t₀ : τ} {st : State κ ι β τ ρ} {os : List ω'} (h : P'.Reaches a₀ t₀ os st) :
    P.Reaches a₀ (abs t₀) (os.filterMap keep) (st.erase orig abs) := by
  induction h with
  | start =>
    rw [State.erase, hsim.erase_start]
    exact .start
  | snoc _ hstep ih =>
    rw [List.filterMap_append]
    rcases hsim.erase_step hstep with hone | ⟨hsame, hnone⟩
    · exact .snoc ih hone
    · rw [hsame, hnone, List.append_nil]
      exact ih

/-- Nothing is left behind a block's last instruction. -/
theorem Simulates.eq_nil_of_alone {Init : κ → τ → Prop} {a : κ} {b : ι} {y : β} {rest : List β} {t : τ}
    (h : P'.Alone Init ⟨a, b, y :: rest, t⟩) (hrest : rest.filterMap orig = []) : rest = [] := by
  obtain ⟨_, _, _, -, -, hrun⟩ := h
  obtain ⟨v, _, pre, -, hpre⟩ := hrun.position
  rcases List.eq_nil_or_concat rest with hnil | ⟨front, z, rfl⟩
  · exact hnil
  · have hz := (hsim.proc a).last v.block (pre ++ y :: front) z (by rw [hpre]; simp [Conf.todo])
    exact absurd (List.filterMap_eq_nil_iff.1 hrest z (by simp)) hz

theorem Simulates.lift_leaves {a : κ} {b : ι} {rest : List β} {t : τ} {callers : List (Frame κ ι β τ)} {o : List ω}
    {e : Exit ι ρ} {st : State κ ι α σ ρ} (hnil : rest.filterMap orig = [] → rest = [])
    (h : P.Leaves a b (rest.filterMap orig) (abs t) (callers.map (Frame.erase orig abs)) e o st) :
    ∃ o' st', P'.Leaves a b rest t callers e o' st' ∧ o'.filterMap keep = o ∧ st'.erase orig abs = st := by
  cases h with
  | next => exact ⟨_, _, .next, rfl, rfl⟩
  | jump htodo => exact ⟨_, _, .jump (hnil htodo), rfl, by simp [State.erase, Frame.erase, (hsim.proc a).code]⟩
  | halt => exact ⟨_, _, .halt, hsim.onReturn a, rfl⟩

end

/-- From here new instructions are executed. -/
inductive Inserted (P : Program κ ι α σ ρ ω) (orig : α → Option β) : State κ ι α σ ρ → List ω → State κ ι α σ ρ → Prop
  | refl {st : State κ ι α σ ρ} : Inserted P orig st [] st
  | step {a : κ} {b : ι} {x : α} {todo : List α} {s s' : σ} {callers : List (Frame κ ι α σ)} {o os : List ω}
      {st : State κ ι α σ ρ} : orig x = none → P.exec a b x s o s' .next →
      Inserted P orig (.running ⟨a, b, todo, s'⟩ callers) os st →
      Inserted P orig (.running ⟨a, b, x :: todo, s⟩ callers) (o ++ os) st

theorem Program.Reaches.inserted {P : Program κ ι α σ ρ ω} {orig : α → Option β} {a₀ : κ} {s₀ : σ} {os o : List ω}
    {st st' : State κ ι α σ ρ} (h : P.Reaches a₀ s₀ os st) (hins : Inserted P orig st o st') :
    P.Reaches a₀ s₀ (os ++ o) st' := by
  induction hins generalizing os with
  | refl => rwa [List.append_nil]
  | step _ hexec _ ih =>
    have hnext := ih (h.snoc (.exec hexec .next))
    rwa [List.append_nil, List.append_assoc] at hnext

/-- What makes each step of the smaller program one of the larger: no new
instruction is stuck, and none is left behind a block's last. -/
structure Ready (P' : Program κ ι β τ ρ ω') (orig : β → Option α) (good : State κ ι β τ ρ → Prop) : Prop where
  step : ∀ {st o st'}, good st → P'.Step st o st' → good st'
  go : ∀ {a b y todo t callers}, good (.running ⟨a, b, y :: todo, t⟩ callers) → orig y = none →
    ∃ o t', P'.exec a b y t o t' .next
  ends : ∀ {st a b y rest t}, good st → ⟨a, b, y :: rest, t⟩ ∈ st.frames → rest.filterMap orig = [] → rest = []
  calls : ∀ {st f}, good st → f ∈ st.callers → ∃ y rest, f.todo = y :: rest ∧ orig y ≠ none

section

variable {P : Program κ ι α σ ρ ω} {P' : Program κ ι β τ ρ ω'} {orig : β → Option α} {abs : τ → σ}
  {keep : ω' → Option ω} (hsim : Simulates P P' orig abs keep) {good : State κ ι β τ ρ → Prop}
  (hready : Ready P' orig good)
include hsim hready

/-- Execution comes to the next instruction the smaller program has. -/
theorem Simulates.advance {a : κ} {b : ι} {x : α} {todo : List α} {callers : List (Frame κ ι β τ)} :
    ∀ {todo' : List β} {t : τ}, todo'.filterMap orig = x :: todo → good (.running ⟨a, b, todo', t⟩ callers) →
    ∃ o y rest t', Inserted P' orig (.running ⟨a, b, todo', t⟩ callers) o (.running ⟨a, b, y :: rest, t'⟩ callers) ∧
      good (.running ⟨a, b, y :: rest, t'⟩ callers) ∧ orig y = some x ∧ rest.filterMap orig = todo ∧ abs t' = abs t ∧
      o.filterMap keep = []
  | [], _, htodo, _ => by cases htodo
  | y :: rest, t, htodo, h => by
    cases hy : orig y with
    | some x' =>
      rw [List.filterMap_cons_some hy] at htodo
      obtain ⟨rfl, rfl⟩ := List.cons.inj htodo
      exact ⟨[], y, rest, t, .refl, h, hy, rfl, rfl, rfl⟩
    | none =>
      rw [List.filterMap_cons_none hy] at htodo
      obtain ⟨o₁, t₁, hexec⟩ := hready.go h hy
      obtain ⟨-, habs₁, ho₁⟩ := (hsim.proc a).new hy hexec
      obtain ⟨o, z, rest', t', hins, hgood, hz, hrest, habs, ho⟩ :=
        Simulates.advance htodo (hready.step h (.exec hexec .next))
      exact ⟨o₁ ++ o, z, rest', t', .step hy hexec hins, hgood, hz, hrest, habs.trans habs₁,
        by rw [List.filterMap_append, ho₁, ho, List.nil_append]⟩

/-- A step of the smaller program is one of the larger, behind new ones. -/
theorem Simulates.lift_step {st : State κ ι β τ ρ} {o : List ω} {st' : State κ ι α σ ρ} (h : good st)
    (hstep : P.Step (st.erase orig abs) o st') :
    ∃ o₁ st₁ o₂ st₂, Inserted P' orig st o₁ st₁ ∧ P'.Step st₁ o₂ st₂ ∧ (o₁ ++ o₂).filterMap keep = o ∧
      st₂.erase orig abs = st' := by
  cases st with
  | running top callers =>
    obtain ⟨a, b, todo', t⟩ := top
    simp only [State.erase, Frame.erase] at hstep
    generalize htodo : todo'.filterMap orig = todo at hstep
    cases hstep with
    | exec hexec hleaves =>
      obtain ⟨o₁, y, rest, t₁, hins, hgood, hy, rfl, habs, ho₁⟩ := hsim.advance hready htodo h
      rw [← habs] at hexec
      obtain ⟨o₂, t₂, hexec', rfl, rfl⟩ := (hsim.proc a).lift hy hexec
      obtain ⟨o₃, st'', hleaves', rfl, rfl⟩ := hsim.lift_leaves (hready.ends hgood List.mem_cons_self) hleaves
      exact ⟨o₁, _, o₂ ++ o₃, st'', hins, .exec hexec' hleaves',
        by simp only [List.filterMap_append, ho₁, List.nil_append], rfl⟩
    | call hc =>
      obtain ⟨o₁, y, rest, t₁, hins, hgood, hy, rfl, habs, ho₁⟩ := hsim.advance hready htodo h
      rw [← habs] at hc ⊢
      obtain ⟨t₂, hcall', rfl⟩ := hsim.call_lift hy hc
      refine ⟨o₁, _, _, _, hins, .call hcall', by rw [List.filterMap_append, ho₁, hsim.onCall, List.nil_append], ?_⟩
      simp only [State.erase, List.map_cons, hsim.erase_start]
      simp only [Frame.erase, List.filterMap_cons_some hy]
  | returning r u callers =>
    simp only [State.erase] at hstep
    generalize hcallers : callers.map (Frame.erase orig abs) = callers' at hstep
    cases hstep with
    | @resume a b x rest s _ _ _ _ _ _ _ hresume hleaves =>
      obtain ⟨f, callers, rfl, hf, rfl⟩ := List.map_eq_cons_iff.1 hcallers
      -- The caller is at its call, and that is not new.
      obtain ⟨y, rest', htodo, hy⟩ := hready.calls h (show f ∈ State.callers _ from List.mem_cons_self)
      obtain ⟨x', hy⟩ := Option.ne_none_iff_exists'.1 hy
      obtain ⟨a', b', todo', t⟩ := f
      subst htodo
      simp only [Frame.erase, List.filterMap_cons_some hy, Frame.mk.injEq] at hf
      obtain ⟨rfl, rfl, htodo, rfl⟩ := hf
      obtain ⟨rfl, rfl⟩ := List.cons.inj htodo
      obtain ⟨t', hresume', rfl⟩ := hsim.resume_lift hy hresume
      obtain ⟨o', st'', hleaves', rfl, rfl⟩ := hsim.lift_leaves (hready.ends h List.mem_cons_self) hleaves
      exact ⟨[], _, o', st'', .refl, .resume hresume' hleaves', rfl, rfl⟩

end

section

variable {P : Program κ ι α σ ρ ω} {P' : Program κ ι β τ ρ ω'} {orig : β → Option α} {abs : τ → σ}
  {keep : ω' → Option ω} (hsim : Simulates P P' orig abs keep) {Init : κ → τ → Prop}
  (hcall : ∀ {a y t a' t'}, P'.call a y t a' t' → Init a' t')
  (hgo : ∀ {a t₀ v vs y todo t}, Init a t₀ →
    Run (P'.opened a) (P'.entry a) (P'.code a) t₀ (v :: vs) (.running (y :: todo) t) → orig y = none →
    ∃ o t', P'.exec a v.block y t o t' .next)
  {a₀ : κ} {t₀ : τ} (hinit : Init a₀ t₀)
include hcall hgo hinit

/-- What the smaller program does not have goes on. -/
theorem exists_exec {a : κ} {b : ι} {y : β} {todo : List β} {t : τ} {callers : List (Frame κ ι β τ)} {os : List ω'}
    (h : P'.Reaches a₀ t₀ os (.running ⟨a, b, y :: todo, t⟩ callers)) (hy : orig y = none) :
    ∃ o t', P'.exec a b y t o t' .next := by
  obtain ⟨_, v, vs, hinit', rfl, hrun⟩ := h.alone hcall hinit _ List.mem_cons_self
  exact hgo hinit' hrun hy

include hsim

theorem Simulates.ready : Ready P' orig fun st => ∃ os, P'.Reaches a₀ t₀ os st where
  step := fun ⟨_, h⟩ hstep => ⟨_, h.snoc hstep⟩
  go := fun ⟨_, h⟩ hy => exists_exec hcall hgo hinit h hy
  ends := fun ⟨_, h⟩ hf => hsim.eq_nil_of_alone (h.alone hcall hinit _ hf)
  calls := by
    rintro st f ⟨os, h⟩ hf
    refine h.callers (Q := fun f => ∃ y rest, f.todo = y :: rest ∧ orig y ≠ none) ?_ f hf
    intro a b y todo t a' t' hc
    obtain ⟨x, hx, -⟩ := hsim.call hc
    exact ⟨y, todo, rfl, by simp [hx]⟩

/-- Every run of the smaller program is one of the larger. -/
theorem Program.Reaches.lift {os : List ω} {st : State κ ι α σ ρ} (h : P.Reaches a₀ (abs t₀) os st) :
    ∃ os' st', P'.Reaches a₀ t₀ os' st' ∧ os'.filterMap keep = os ∧ st'.erase orig abs = st := by
  induction h with
  | start => exact ⟨[], _, .start, rfl, by rw [State.erase, hsim.erase_start]; rfl⟩
  | snoc _ hstep ih =>
    obtain ⟨os', st', hrun, rfl, rfl⟩ := ih
    obtain ⟨o₁, st₁, o₂, st₂, hins, hstep', rfl, rfl⟩ := hsim.lift_step (hsim.ready hcall hgo hinit) ⟨_, hrun⟩ hstep
    exact ⟨_, st₂, (hrun.inserted hins).snoc hstep', by rw [List.append_assoc, List.filterMap_append], rfl⟩

end

end CallStack
