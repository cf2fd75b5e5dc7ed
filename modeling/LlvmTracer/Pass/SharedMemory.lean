/-
Programs of several threads, and what the pass makes of them.

Each thread runs functions of the module, with results, buffers and a stack of
its own, on the one memory; the threads' steps come in any order. What the
pass inserts reads no memory. So for any number of threads the instrumented
ones do what the program's do, with calls of the logger in between
(`Module.threads_observe`).
-/
import LlvmTracer.Lib.SharedData
import LlvmTracer.Pass.Program

namespace LlvmTracer.Pass

open Ir Machine CallStack Interleave

variable {V M ε : Type}

/-! ## What is shared -/

def Data.own (d : Data V M) : Data V Unit := ⟨d.regs, d.edge, d.source, ()⟩

def Data.on (d : Data V Unit) (m : M) : Data V M := ⟨d.regs, d.edge, d.source, m⟩

/-- The memory is shared, the results are not. -/
def memory : Split (Data V M) (Data V Unit) M where
  own := Data.own
  shared := Data.mem
  join := Data.on
  own_join _ _ := rfl
  shared_join _ _ := rfl
  join_own _ := rfl

/-- Nor are the buffers. -/
def memoryTemps : Split (Data V M × Temps V) (Data V Unit × Temps V) M where
  own s := (s.1.own, s.2)
  shared s := s.1.mem
  join l m := (l.1.on m, l.2)
  own_join _ _ := rfl
  shared_join _ _ := rfl
  join_own _ := rfl

theorem Data.own_after (d : Data V M) (b : Nat) (I : Inst) (x : V) (m : M) (e : Exit Nat V) :
    (d.after b I x m e).own = d.own.after b I x () e := by
  cases e <;> rfl

namespace World

/-- What a thread's instructions may do, whatever the others made of the memory. -/
def anyMemory (W : World V M ε) : World V Unit ε where
  sem xs :=
    { const := (W.sem xs).const
      exec := fun I b operands _ o x _ e => ∃ m m', (W.sem xs).exec I b operands m o x m' e
      jumps := fun ⟨_, _, h⟩ => (W.sem xs).jumps h
      quiet := fun ⟨_, _, h⟩ => (W.sem xs).quiet h
      cast := (W.sem xs).cast
      string := (W.sem xs).string
      zero := (W.sem xs).zero
      undef := (W.sem xs).undef
      address := (W.sem xs).address }
  display := W.display
  callee := W.callee
  callee_isCall := W.callee_isCall
  resume := W.resume
  resume_jumps := W.resume_jumps

variable (W : World V M ε) (functions : List Function)

theorem operand_anyMemory (xs : List V) : (W.anyMemory.sem xs).operand = (W.sem xs).operand := by
  funext regs v
  cases v <;> rfl

theorem operands_anyMemory (xs : List V) (d : Data V M) (I : Inst) :
    (W.anyMemory.sem xs).operands d.own I = (W.sem xs).operands d I := by
  rw [Semantics.operands, operand_anyMemory]
  rfl

theorem enters_anyMemory (xs : List V) (I : Inst) (d : Data V M) :
    W.anyMemory.enters functions xs I d.own = W.enters functions xs I d := by
  rw [enters, operands_anyMemory]
  rfl

theorem logValue_anyMemory (xs : List V) (d : Data V M) (t : Temps V) (v : LogValue) :
    (W.anyMemory.sem xs).logValue d.own t v = (W.sem xs).logValue d t v := by
  cases v with
  | value v => rw [Semantics.logValue, operand_anyMemory]; rfl
  | folded op v => rw [Semantics.logValue, operand_anyMemory]; rfl
  | _ => rfl

theorem made_anyMemory (xs : List V) (d : Data V M) (t : Temps V) (n : NewInst) :
    n.made (W.anyMemory.sem xs) W.display d.own t = n.made (W.sem xs) W.display d t := by
  have hmade : LogCall.made (W.anyMemory.sem xs) W.display d.own t = LogCall.made (W.sem xs) W.display d t := by
    funext k
    cases k with
    | param logger num size value isReg regId isPhi prevBbid => rw [LogCall.made, logValue_anyMemory]; rfl
    | _ => rfl
  rw [NewInst.made, hmade, NewInst.made]

variable {W functions}

theorem step_anyMemory {xs : List V} {b : Nat} {I : Inst} {d d' : Data V M} {o : List ε} {e : Exit Nat V}
    (h : (W.sem xs).Step b I d o d' e) : (W.anyMemory.sem xs).Step b I d.own o d'.own e := by
  obtain ⟨hexec⟩ := h
  rw [Data.own_after]
  rw [← operands_anyMemory] at hexec
  exact .mk ⟨d.mem, _, hexec⟩

/-- What is inserted does not read the memory. -/
theorem stepNew_anyMemory {xs : List V} {d : Data V M} {n : NewInst} {t t' : Temps V} {o : List (Event ε)} :
    (W.anyMemory.sem xs).StepNew d.own n t o t' ↔ (W.sem xs).StepNew d n t o t' := by
  constructor
  · intro h
    cases h with
    | cast hx => exact .cast (by rwa [operand_anyMemory] at hx)
    | alloca => exact .alloca
    | store hx hb => exact .store (by rwa [operand_anyMemory] at hx) hb
    | pointerCast hb => exact .pointerCast hb
    | call hx => exact .call fun x hk => by rw [← logValue_anyMemory]; exact hx x hk
  · intro h
    cases h with
    | cast hx => exact .cast (by rwa [operand_anyMemory])
    | alloca => exact .alloca
    | store hx hb => exact .store (by rwa [operand_anyMemory]) hb
    | pointerCast hb => exact .pointerCast hb
    | call hx => exact .call fun x hk => by rw [logValue_anyMemory]; exact hx x hk

theorem stepNode_anyMemory {xs : List V} {b : Nat} {n : Node} {s s' : Data V M × Temps V} {o : List (Output ε)}
    {e : Exit Nat V} (h : W.StepNode functions xs b n s o s' e) :
    W.anyMemory.StepNode functions xs b n (memoryTemps.own s) o (memoryTemps.own s') e := by
  cases h with
  | orig henter hstep => exact .orig (by rwa [enters_anyMemory]) (step_anyMemory hstep)
  | new hnew =>
    rw [← made_anyMemory]
    exact .new (stepNew_anyMemory.2 hnew)

variable {cfg : Config} {m : Module cfg}

theorem hides_memory : Hides (W.instrumented m) (W.anyMemory.instrumented m) memoryTemps.own where
  entry _ := rfl
  code _ := rfl
  onCall _ := rfl
  onReturn _ := rfl
  exec h := stepNode_anyMemory h
  call := by
    rintro a n s a' s' ⟨henter⟩
    exact .mk (by rwa [enters_anyMemory])
  resume := by
    rintro a b n s r u s' e ⟨hresume⟩
    simp only [memoryTemps, Data.own_after]
    exact .mk hresume

end World

/-! ## The threads -/

section

variable {cfg : Config} {ι : Type} [DecidableEq ι]

/-- A thread as it starts with an activation. -/
def threadStart {functions : List Function} (a : Activation functions V) :
    State (Activation functions V) Nat Inst (Data V Unit) V := .running ⟨a, 0, a.func.code 0, .enter ()⟩ []

def threadStartInstrumented (m : Module cfg) (a : Activation m.functions V) :
    State (Activation m.functions V) Nat Node (Data V Unit × Temps V) V :=
  .running ⟨a, 0, (m.body a.func).block 0, (.enter (), .init)⟩ []

/-- The steps of the program's threads, in any order. -/
def World.ThreadsRun (W : World V M ε) (functions : List Function) (as : ι → Activation functions V) (mem : M) :
    List (ι × Output ε) → Interleave.Conf ι M (State (Activation functions V) Nat Inst (Data V Unit) V) → Prop :=
  Interleaves ((W.original functions).shares memory ι) ⟨mem, fun t => threadStart (as t)⟩

def World.ThreadsRunInstrumented (W : World V M ε) (m : Module cfg) (as : ι → Activation m.functions V) (mem : M) :
    List (ι × Output ε) →
      Interleave.Conf ι M (State (Activation m.functions V) Nat Node (Data V Unit × Temps V) V) → Prop :=
  Interleaves ((W.instrumented m).shares memoryTemps ι) ⟨mem, fun t => threadStartInstrumented m (as t)⟩

/-- The instrumented threads are the program's with calls of the logger. -/
structure ThreadsObserve (m : Module cfg) (W : World V M ε) (as : ι → Activation m.functions V) (mem : M) : Prop where
  /-- They come to what the program's threads come to, with the same memory,
  and show the same, in the same order. -/
  runs : ∀ os c, W.ThreadsRun m.functions as mem os c ↔
    ∃ os' c', W.ThreadsRunInstrumented m as mem os' c' ∧ keepShown Output.own? os' = os ∧
      c'.abs (State.erase Node.orig? Prod.fst) = c
  /-- A thread goes on from what was inserted, and the memory stays. -/
  goes : ∀ os c t f b n todo s callers, W.ThreadsRunInstrumented m as mem os c →
    c.own t = .running ⟨f, b, .new n :: todo, s⟩ callers →
    ∃ o s', (W.instrumented m).Share memoryTemps c.shared (c.own t) o c.shared (.running ⟨f, b, todo, s'⟩ callers)

variable {W : World V M ε} {m : Module cfg} {as : ι → Activation m.functions V} {mem : M} {os : List (ι × Output ε)}
  {c : Interleave.Conf ι M (State (Activation m.functions V) Nat Node (Data V Unit × Temps V) V)}

/-- A thread is a program by itself, on a memory that may become anything. -/
theorem World.ThreadsRunInstrumented.own (h : W.ThreadsRunInstrumented m as mem os c) (t : ι) :
    W.anyMemory.RunsInstrumented m (as t) () (shownBy t os) (c.own t) :=
  World.hides_memory.reaches rfl (Interleaves.own h t)

omit [DecidableEq ι] in
/-- Without what was inserted they start as the program's threads do. -/
theorem abs_threadStart (as : ι → Activation m.functions V) (mem : M) :
    Conf.abs (State.erase Node.orig? Prod.fst) ⟨mem, fun t => threadStartInstrumented m (as t)⟩ =
      ⟨mem, fun t => threadStart (as t)⟩ := by
  simp only [Conf.abs, threadStart, threadStartInstrumented, State.erase, Frame.erase, m.filterMap_body (as _).mem,
    List.map_nil]

/-- A thread executes what was inserted next. -/
theorem World.share_new {n : NewInst} {f : Activation m.functions V} {b : Nat} {todo : List Node} {d : Data V Unit}
    {t t' : Temps V} {o : List (Event ε)} {callers : List (Frame (Activation m.functions V) Nat Node (Data V Unit × Temps V))}
    (h : (W.anyMemory.sem f.args).StepNew d n t o t') (x : M) :
    (W.instrumented m).Share memoryTemps x (.running ⟨f, b, .new n :: todo, (d, t)⟩ callers)
      ((n.made (W.sem f.args) W.display (d.on x) t).map .log) x (.running ⟨f, b, todo, (d, t')⟩ callers) := by
  have hnew : (W.sem f.args).StepNew (d.on x) n t o t' := World.stepNew_anyMemory.1 h
  have hstep : (W.instrumented m).Step (.running ⟨f, b, .new n :: todo, (d.on x, t)⟩
      (callers.map (Frame.map (memoryTemps.join · x)))) _ _ := .exec (.new hnew) .next
  have hshare : (W.instrumented m).Share memoryTemps x (.running ⟨f, b, .new n :: todo, (d, t)⟩ callers) _ _ _ := .mk hstep
  rw [List.append_nil, State.map, memoryTemps.frame_own_join] at hshare
  exact hshare

omit [DecidableEq ι] in
theorem Module.refines (m : Module cfg) (W : World V M ε) (as : ι → Activation m.functions V) :
    Refines ((W.original m.functions).shares memory ι) ((W.instrumented m).shares memoryTemps ι)
      (fun t => threadStartInstrumented m (as t)) (State.erase Node.orig? Prod.fst) Output.own? := by
  have hready := fun t => (World.instrumented_simulates m W.anyMemory).ready (World.call_init m) (World.goes m)
    (show Fresh m (as t) (.enter (), .init) from rfl)
  have hnew : ∀ {a : Activation m.functions V} {b : Nat} {y : Node} {s : Data V M × Temps V} {o : List (Output ε)}
      {l : Data V Unit × Temps V}, y.orig? = none →
      (W.anyMemory.instrumented m).exec a b y (memoryTemps.own s) o l .next →
      ∃ o' s', (W.instrumented m).exec a b y s o' s' .next := by
    intro a b y s o l hy hexec
    cases y with
    | orig I => cases hy
    | new n =>
      cases hexec with
      | new hnew => exact ⟨_, _, .new (World.stepNew_anyMemory.1 hnew)⟩
  exact (World.instrumented_simulates m W).shares memory memoryTemps (fun _ _ => rfl) World.hides_memory hnew hready

theorem World.ThreadsRunInstrumented.erase (h : W.ThreadsRunInstrumented m as mem os c) :
    W.ThreadsRun m.functions as mem (keepShown Output.own? os) (c.abs (State.erase Node.orig? Prod.fst)) := by
  rw [World.ThreadsRun, ← abs_threadStart]
  exact Interleaves.erase (m.refines W as) h

theorem World.ThreadsRun.lift {os : List (ι × Output ε)}
    {c : Interleave.Conf ι M (State (Activation m.functions V) Nat Inst (Data V Unit) V)}
    (h : W.ThreadsRun m.functions as mem os c) :
    ∃ os' c', W.ThreadsRunInstrumented m as mem os' c' ∧ keepShown Output.own? os' = os ∧
      c'.abs (State.erase Node.orig? Prod.fst) = c := by
  rw [World.ThreadsRun, ← abs_threadStart] at h
  exact Interleaves.lift (m.refines W as) h

/-- **Threads.** The runs of an instrumented program's threads are those of
the program's threads, in every order of their steps on the shared memory,
with calls of the logger in between. -/
theorem Module.threads_observe (m : Module cfg) (W : World V M ε) (as : ι → Activation m.functions V) (mem : M) :
    ThreadsObserve m W as mem := by
  refine ⟨fun os c => ⟨World.ThreadsRun.lift, ?_⟩, fun os c t f b n todo s callers hrun ht => ?_⟩
  · rintro ⟨os', c', hrun, rfl, rfl⟩
    exact hrun.erase
  · have hown := hrun.own t
    rw [ht] at hown ⊢
    obtain ⟨o, s', hexec⟩ := exists_exec (World.call_init m) (World.goes m)
      (show Fresh m (as t) (.enter (), .init) from rfl) hown (show Node.orig? (.new n) = none from rfl)
    cases hexec with
    | new hnew => exact ⟨_, _, World.share_new hnew c.shared⟩

end

end LlvmTracer.Pass
