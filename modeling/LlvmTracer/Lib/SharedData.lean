/-
Threads of one program, which share a part of the data.

A thread's step is one of the program's, on its own data and what the shared
part is then (`Program.Share`). A program with more instructions that leave
the shared part alone is, with any number of threads, the smaller program's
threads with steps in between (`Simulates.shares`). For that a thread needs to
be looked at by itself only, and without the shared part: `Hides` is what its
procedures do when that may be anything.
-/
import LlvmTracer.Lib.CallStack
import LlvmTracer.Lib.Threads

namespace CallStack

open Machine Interleave

variable {κ ι α β σ τ θ η μ ρ ω ω' ν : Type}

/-- Data of which a part is shared. -/
structure Split (σ θ μ : Type) where
  own : σ → θ
  shared : σ → μ
  join : θ → μ → σ
  own_join : ∀ l m, own (join l m) = l
  shared_join : ∀ l m, shared (join l m) = m
  join_own : ∀ s, join (own s) (shared s) = s

def Frame.map (f : σ → τ) (x : Frame κ ι α σ) : Frame κ ι α τ := ⟨x.proc, x.block, x.todo, f x.data⟩

def State.map (f : σ → τ) : State κ ι α σ ρ → State κ ι α τ ρ
  | running top callers => running (top.map f) (callers.map (Frame.map f))
  | returning r s callers => returning r (f s) (callers.map (Frame.map f))

/-- The data of what runs, or has just returned. -/
def State.data : State κ ι α σ ρ → σ
  | running top _ => top.data
  | returning _ s _ => s

theorem State.frames_map (f : σ → τ) (st : State κ ι α σ ρ) : (st.map f).frames = st.frames.map (Frame.map f) := by
  cases st <;> rfl

theorem State.callers_map (f : σ → τ) (st : State κ ι α σ ρ) : (st.map f).callers = st.callers.map (Frame.map f) := by
  cases st <;> rfl

theorem State.map_map (f : σ → τ) (g : τ → θ) (st : State κ ι α σ ρ) : (st.map f).map g = st.map (g ∘ f) := by
  cases st <;> simp [State.map, Frame.map, Function.comp_def]

theorem State.map_id (st : State κ ι α σ ρ) : st.map id = st := by
  have hframe : Frame.map (κ := κ) (ι := ι) (α := α) (id : σ → σ) = id := rfl
  cases st <;> simp [State.map, hframe]

namespace Split

variable (sp : Split σ θ μ)

theorem map_own_join (st : State κ ι α θ ρ) (m : μ) : (st.map (sp.join · m)).map sp.own = st := by
  rw [State.map_map, show sp.own ∘ (sp.join · m) = id from funext fun l => sp.own_join l m, State.map_id]

theorem frame_own_join (callers : List (Frame κ ι α θ)) (m : μ) :
    (callers.map (Frame.map (sp.join · m))).map (Frame.map sp.own) = callers := by
  rw [List.map_map]
  refine (List.map_congr_left fun f _ => ?_).trans (List.map_id _)
  rw [Function.comp_apply, Frame.map, Frame.map, sp.own_join]
  rfl

end Split

/-- A step of a thread, the shared part as it is then. -/
inductive Program.Share (P : Program κ ι α σ ρ ω) (sp : Split σ θ μ) (m : μ) (st : State κ ι α θ ρ) :
    List ω → μ → State κ ι α θ ρ → Prop
  | mk {o : List ω} {st' : State κ ι α σ ρ} : P.Step (st.map (sp.join · m)) o st' →
      Share P sp m st o (sp.shared st'.data) (st'.map sp.own)

/-- The threads' steps. -/
def Program.shares (P : Program κ ι α σ ρ ω) (sp : Split σ θ μ) (ν : Type) : Acts ν μ (State κ ι α θ ρ) ω :=
  fun _ m st o m' st' => P.Share sp m st o m' st'

/-! ## A thread without the shared part -/

/-- What the procedures of `P` do, seen without the shared part, those of `Q` do. -/
structure Hides (P : Program κ ι α σ ρ ω) (Q : Program κ ι α θ ρ ω) (own : σ → θ) : Prop where
  entry : ∀ a, Q.entry a = P.entry a
  code : ∀ a, Q.code a = P.code a
  onCall : ∀ a, Q.onCall a = P.onCall a
  onReturn : ∀ a, Q.onReturn a = P.onReturn a
  exec : ∀ {a b x s o s' e}, P.exec a b x s o s' e → Q.exec a b x (own s) o (own s') e
  call : ∀ {a x s a' s'}, P.call a x s a' s' → Q.call a x (own s) a' (own s')
  resume : ∀ {a b x s r u s' e}, P.resume a b x s r u s' e → Q.resume a b x (own s) r (own u) (own s') e

section

variable {P : Program κ ι α σ ρ ω} {Q : Program κ ι α θ ρ ω} {own : σ → θ} (hhides : Hides P Q own)
include hhides

theorem Hides.leaves {a : κ} {b : ι} {todo : List α} {s : σ} {callers : List (Frame κ ι α σ)} {o : List ω}
    {e : Exit ι ρ} {st : State κ ι α σ ρ} (h : P.Leaves a b todo s callers e o st) :
    Q.Leaves a b todo (own s) (callers.map (Frame.map own)) e o (st.map own) := by
  cases h with
  | next => exact .next
  | jump htodo =>
    rw [State.map, Frame.map, ← hhides.code]
    exact .jump htodo
  | halt =>
    rw [← hhides.onReturn]
    exact .halt

theorem Hides.step {st st' : State κ ι α σ ρ} {o : List ω} (h : P.Step st o st') :
    Q.Step (st.map own) o (st'.map own) := by
  cases h with
  | exec hexec hleaves => exact .exec (hhides.exec hexec) (hhides.leaves hleaves)
  | @call a a' b x todo s s' callers hcall =>
    have hstart : (P.start a' s').map own = Q.start a' (own s') := by
      simp only [Program.start, Frame.map, hhides.entry, hhides.code]
    simp only [State.map, List.map_cons, hstart, ← hhides.onCall]
    exact .call (hhides.call hcall)
  | resume hresume hleaves => exact .resume (hhides.resume hresume) (hhides.leaves hleaves)

theorem Hides.share {sp : Split σ θ μ} (hown : sp.own = own) {m m' : μ} {st st' : State κ ι α θ ρ} {o : List ω}
    (h : P.Share sp m st o m' st') : Q.Step st o st' := by
  obtain ⟨hstep⟩ := h
  subst hown
  have hstep' := hhides.step hstep
  rwa [sp.map_own_join] at hstep'

/-- A thread by itself is a run of `Q`. -/
theorem Hides.reaches {sp : Split σ θ μ} (hown : sp.own = own) {t : ν} {a₀ : κ} {l₀ : θ} {os : List ω}
    {st : State κ ι α θ ρ} (h : Alone (P.shares sp ν) t (.running (Q.start a₀ l₀) []) os st) : Q.Reaches a₀ l₀ os st := by
  induction h with
  | refl => exact .start
  | snoc _ hshare ih => exact ih.snoc (hhides.share hown hshare)

/-- Nothing of a thread is stuck, whatever is shared, if new instructions do
not read it. -/
theorem Ready.hides {orig : α → Option β} {good : State κ ι α θ ρ → Prop} (h : Ready Q orig good)
    (hnew : ∀ {a b y s o l}, orig y = none → Q.exec a b y (own s) o l .next → ∃ o' s', P.exec a b y s o' s' .next) :
    Ready P orig fun st => good (st.map own) where
  step hgood hstep := h.step hgood (hhides.step hstep)
  go hgood hy := by
    obtain ⟨_, _, hexec⟩ := h.go hgood hy
    exact hnew hy hexec
  ends hgood hf hrest := by
    have hmem := List.mem_map_of_mem (f := Frame.map own) hf
    rw [← State.frames_map] at hmem
    exact h.ends hgood hmem hrest
  calls hgood hf := by
    have hmem := List.mem_map_of_mem (f := Frame.map own) hf
    rw [← State.callers_map] at hmem
    exact h.calls hgood hmem

end

/-! ## A program with more instructions -/

section

variable {P : Program κ ι α σ ρ ω} {P' : Program κ ι β τ ρ ω'} {orig : β → Option α} {abs : τ → σ}
  {keep : ω' → Option ω} (hsim : Simulates P P' orig abs keep) (sp : Split σ θ μ) (sp' : Split τ η μ) {absOwn : η → θ}
  (habs : ∀ l m, abs (sp'.join l m) = sp.join (absOwn l) m)
include habs

theorem own_abs (t : τ) : sp.own (abs t) = absOwn (sp'.own t) := by
  conv_lhs => rw [← sp'.join_own t, habs, sp.own_join]

theorem shared_abs (t : τ) : sp.shared (abs t) = sp'.shared t := by
  conv_lhs => rw [← sp'.join_own t, habs, sp.shared_join]

theorem State.erase_map_join (st : State κ ι β η ρ) (m : μ) :
    (st.map (sp'.join · m)).erase orig abs = (st.erase orig absOwn).map (sp.join · m) := by
  cases st <;> simp [State.map, State.erase, Frame.map, Frame.erase, habs, Function.comp_def]

theorem State.erase_map_own (st : State κ ι β τ ρ) :
    (st.erase orig abs).map sp.own = (st.map sp'.own).erase orig absOwn := by
  cases st <;> simp [State.map, State.erase, Frame.map, Frame.erase, own_abs sp sp' habs, Function.comp_def]

omit habs in
theorem State.data_erase (orig : β → Option α) (abs : τ → σ) (st : State κ ι β τ ρ) :
    (st.erase orig abs).data = abs st.data := by
  cases st <;> rfl

include hsim

theorem Simulates.erase_share {m m' : μ} {st st' : State κ ι β η ρ} {o : List ω'} (h : P'.Share sp' m st o m' st') :
    P.Share sp m (st.erase orig absOwn) (o.filterMap keep) m' (st'.erase orig absOwn) ∨
      m' = m ∧ st'.erase orig absOwn = st.erase orig absOwn ∧ o.filterMap keep = [] := by
  obtain ⟨hstep⟩ := h
  rename_i st₁
  rw [← shared_abs sp sp' habs, ← State.erase_map_own sp sp' habs, ← State.data_erase orig abs]
  rcases hsim.erase_step hstep with hone | ⟨hsame, hnone⟩
  · rw [State.erase_map_join sp sp' habs] at hone
    exact .inl (.mk hone)
  · rw [hsame, State.erase_map_join sp sp' habs]
    refine .inr ⟨?_, sp.map_own_join _ m, hnone⟩
    cases st <;> exact sp.shared_join _ m

/-- New instructions are executed in one turn, the shared part left alone. -/
theorem Simulates.turn_inserted {st st' : State κ ι β τ ρ} {o : List ω'} (h : Inserted P' orig st o st') (t : ν) (m : μ) :
    ∀ {l : State κ ι β η ρ}, st = l.map (sp'.join · m) →
    Turn (P'.shares sp' ν) t m l o m (st'.map sp'.own) ∧ st' = (st'.map sp'.own).map (sp'.join · m) := by
  induction h with
  | refl =>
    rintro l rfl
    rw [sp'.map_own_join]
    exact ⟨.refl, rfl⟩
  | @step a b y todo s s' callers o os st' hy hexec _ ih =>
    intro l hl
    obtain ⟨-, hsame, -⟩ := (hsim.proc a).new hy hexec
    cases l with
    | returning => cases hl
    | running top cl =>
      have hs : sp'.shared s = m := (congrArg sp'.shared (congrArg State.data hl)).trans (sp'.shared_join _ m)
      obtain ⟨-, rfl⟩ := State.running.inj hl
      have hshared : sp'.shared s' = m := by
        rw [← shared_abs sp sp' habs, hsame, shared_abs sp sp' habs, hs]
      have hfirst : P'.shares sp' ν t m (.running top cl) o m (.running ⟨a, b, todo, sp'.own s'⟩ cl) := by
        have hstep : P'.Step _ (o ++ []) (.running ⟨a, b, todo, s'⟩ (cl.map (Frame.map (sp'.join · m)))) := .exec hexec .next
        rw [hl, List.append_nil] at hstep
        have hshare : P'.shares sp' ν t m _ _ _ _ := .mk hstep
        simpa only [State.data, hshared, State.map, Frame.map, sp'.frame_own_join] using hshare
      obtain ⟨hturn, hend⟩ := ih (l := .running ⟨a, b, todo, sp'.own s'⟩ cl) (by
        rw [State.map, Frame.map, ← hshared, sp'.join_own])
      exact ⟨(Turn.single hfirst).trans hturn, hend⟩

/-- The threads of the larger program are those of the smaller with steps in
between. -/
theorem Simulates.shares {Q : Program κ ι β η ρ ω'} (hhides : Hides P' Q sp'.own)
    (hnew : ∀ {a b y s o l}, orig y = none → Q.exec a b y (sp'.own s) o l .next → ∃ o' s', P'.exec a b y s o' s' .next)
    {a₀ : ν → κ} {l₀ : ν → η} (hready : ∀ t, Ready Q orig fun st => ∃ os, Q.Reaches (a₀ t) (l₀ t) os st) :
    Refines (P.shares sp ν) (P'.shares sp' ν) (fun t => .running (Q.start (a₀ t) (l₀ t)) []) (State.erase orig absOwn)
      keep where
  erase h := hsim.erase_share sp sp' habs h
  lift := by
    rintro t os m st o m' x halone ⟨hstep⟩
    have hgood : Q.Reaches (a₀ t) (l₀ t) os ((st.map (sp'.join · m)).map sp'.own) := by
      rw [sp'.map_own_join]
      exact hhides.reaches rfl halone
    rw [← State.erase_map_join sp sp' habs] at hstep
    obtain ⟨o₁, st₁, o₂, st₂, hins, hstep', rfl, rfl⟩ :=
      hsim.lift_step ((hready t).hides hhides hnew) ⟨os, hgood⟩ hstep
    obtain ⟨hturn, hst₁⟩ := hsim.turn_inserted sp sp' habs hins t m rfl
    refine ⟨o₁ ++ o₂, _, hturn.snoc ?_, rfl, (State.erase_map_own sp sp' habs st₂).symm⟩
    rw [State.data_erase, shared_abs sp sp' habs]
    exact .mk (hst₁ ▸ hstep')

end

end CallStack
