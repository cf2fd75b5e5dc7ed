/-
Whole programs, and what the pass makes of them.

A program's functions call each other (`Lib.CallStack`). What else its
instructions do is a parameter (`World`): what is called outside the module,
and how a caller goes on behind a call. The instrumented program makes the
calls of the logger as well, with the values as they are then; but for these
its runs are those of the program (`Module.program_observes`).
-/
import LlvmTracer.Lib.CallStack
import LlvmTracer.Pass.Activations
import LlvmTracer.Pass.Observer

namespace LlvmTracer.Pass

open Ir Machine CallStack

/-! ## Calls of the logger, with their values -/

/-- How the logger's functions find values. -/
structure Display (V : Type) where
  int : V → BitVec 64
  pointer : V → BitVec 64
  string : V → String
  double : V → Logger.Double
  /-- The bytes at an address, by what the buffers hold. -/
  bytes : (Nat → Option V) → V → List UInt8

section

variable {V M ε : Type}

def ParamLogger.call (view : Display V) (t : Temps V) (x : V) (a : Logger.ParamArgs) : ParamLogger → Logger.ParamCall
  | int => .logInt (view.int x) a
  | ptr => .logPtr (view.pointer x) a
  | string => .logString (view.string x) a
  | double => .logDouble (view.double x) a
  | vector => .logVector (view.bytes t.buffers x) a

/-- The call an inserted one makes, once its value is there. -/
def LogCall.made (S : Semantics V M ε) (view : Display V) (d : Data V M) (t : Temps V) : LogCall → Option Logger.Call
  | log0 line f bbid instid op tracked toplevel => some (.log0 ⟨line, f, bbid, instid, op, tracked, toplevel⟩)
  | logEntry f n => some (.logEntry f n)
  | updateStatus f op tracked toplevel => some (.updateStatus f op tracked toplevel)
  | param logger num size value isReg regId isPhi prevBbid =>
    (S.logValue d t value).map fun x =>
      .param (logger.call view t x ⟨num, size, isReg.toNat, regId, isPhi.toNat, prevBbid⟩)

/-- The calls of an inserted instruction. -/
def NewInst.made (S : Semantics V M ε) (view : Display V) (d : Data V M) (t : Temps V) (n : NewInst) : List Logger.Call :=
  (n.call?.bind (LogCall.made S view d t)).toList

/-- It is one of the calls the inserted one may make. -/
theorem LogCall.makes_of_made {S : Semantics V M ε} {view : Display V} {d : Data V M} {t : Temps V} {k : LogCall}
    {x : Logger.Call} (h : k.made S view d t = some x) : k.Makes x := by
  cases k with
  | param logger num size value isReg regId isPhi prevBbid =>
    obtain ⟨y, -, rfl⟩ := Option.map_eq_some_iff.1 h
    exact ⟨_, rfl, by cases logger <;> trivial, by cases logger <;> rfl⟩
  | _ => exact (Option.some.inj h).symm

end

/-! ## Programs -/

/-- What a run shows: calls of the logger, events of functions outside the
module, and activations of functions of the module. -/
inductive Output (ε : Type)
  | log (x : Logger.Call)
  | foreign (x : ε)
  | enter (f : String)
  | leave (f : String)

/-- What the program shows by itself. -/
def Output.own? {ε : Type} : Output ε → Option (Output ε)
  | log _ => none
  | x => some x

/-- Where a program runs. -/
structure World (V M ε : Type) where
  /-- What the instructions do of an activation with these arguments, if they
  call no function of the module. -/
  sem : List V → Semantics V M ε
  display : Display V
  /-- The function an instruction calls, and the arguments. -/
  callee : Inst → List (Option V) → Option (String × List V)
  callee_isCall : ∀ {I xs p}, callee I xs = some p → (I.isCall || I.isInvoke) = true
  /-- What the function called has returned gives the value of the call, and
  says where control goes. -/
  resume : Inst → V → V → Exit Nat V → Prop
  resume_jumps : ∀ {I r x b'}, resume I r x (.jump b') → I.isTerminator = true ∧ b' ∈ I.operands.filterMap blockIndex

/-- An activation of a function. -/
structure Activation (functions : List Function) (V : Type) where
  func : Function
  mem : func ∈ functions
  args : List V

section

variable {V M ε : Type}

/-- A function is called with no results of its own. -/
def Data.enter (m : M) : Data V M := ⟨fun _ => none, fun _ => none, 0, m⟩

namespace World

variable (W : World V M ε) (functions : List Function)

/-- What an instruction activates. -/
def enters (xs : List V) (I : Inst) (d : Data V M) : Option (Activation functions V) :=
  (W.callee I ((W.sem xs).operands d I)).bind fun p =>
    (functions.attach.find? fun G => G.1.name = p.1).map fun G => ⟨G.1, G.2, p.2⟩

/-- The program. -/
def original : CallStack.Program (Activation functions V) Nat Inst (Data V M) V (Output ε) where
  entry _ := 0
  code a := a.func.code
  exec a b I d o d' e := W.enters functions a.args I d = none ∧
    ∃ o', (W.sem a.args).Step b I d o' d' e ∧ o = o'.map .foreign
  onCall a := [.enter a.func.name]
  onReturn a := [.leave a.func.name]
  call a I d a' d' := W.enters functions a.args I d = some a' ∧ d' = .enter d.mem
  resume _ b I d r u d' e := ∃ x, W.resume I r x e ∧ d' = d.after b I x u.mem e

/-- What a node of the instrumented program does that calls no function of the module. -/
inductive StepNode (xs : List V) : Exec Nat Node (Data V M × Temps V) V (Output ε)
  | orig {b : Nat} {I : Inst} {d d' : Data V M} {t : Temps V} {o : List ε} {e : Exit Nat V} :
      W.enters functions xs I d = none → (W.sem xs).Step b I d o d' e →
      StepNode xs b (.orig I) (d, t) (o.map .foreign) (d', t) e
  | new {b : Nat} {n : NewInst} {d : Data V M} {t t' : Temps V} {o : List (Event ε)} :
      (W.sem xs).StepNew d n t o t' →
      StepNode xs b (.new n) (d, t) ((n.made (W.sem xs) W.display d t).map .log) (d, t') .next

inductive CallNode (xs : List V) : Node → Data V M × Temps V → Activation functions V → Data V M × Temps V → Prop
  | mk {I : Inst} {d : Data V M} {t : Temps V} {a : Activation functions V} : W.enters functions xs I d = some a →
      CallNode xs (.orig I) (d, t) a (.enter d.mem, .init)

/-- A caller has its own values and buffers back. -/
inductive ResumeNode (b : Nat) : Node → Data V M × Temps V → V → Data V M × Temps V → Data V M × Temps V →
    Exit Nat V → Prop
  | mk {I : Inst} {d : Data V M} {t : Temps V} {r x : V} {u : Data V M × Temps V} {e : Exit Nat V} :
      W.resume I r x e → ResumeNode b (.orig I) (d, t) r u (d.after b I x u.1.mem e, t) e

/-- The program, instrumented. -/
def instrumented {cfg : Config} (m : Module cfg) :
    CallStack.Program (Activation m.functions V) Nat Node (Data V M × Temps V) V (Output ε) where
  entry _ := 0
  code a := (m.body a.func).block
  exec a := W.StepNode m.functions a.args
  onCall a := [.enter a.func.name]
  onReturn a := [.leave a.func.name]
  call a := W.CallNode m.functions a.args
  resume _ := W.ResumeNode

/-- What an activation by itself may do: a call may return anything. -/
def opened (xs : List V) : Semantics V M ε where
  const := (W.sem xs).const
  exec I b operands m o x m' e :=
    (W.sem xs).exec I b operands m o x m' e ∨ o = [] ∧ ∃ r, W.resume I r x e
  jumps := by
    rintro I b operands m o x m' b' (h | ⟨-, r, h⟩)
    · exact (W.sem xs).jumps h
    · exact W.resume_jumps h
  quiet := by
    rintro I b operands m o x m' e (h | ⟨rfl, -⟩) hc hi
    · exact (W.sem xs).quiet h hc hi
    · rfl
  cast := (W.sem xs).cast
  string := (W.sem xs).string
  zero := (W.sem xs).zero
  undef := (W.sem xs).undef
  address := (W.sem xs).address

end World

/-! ## The functions of a module -/

/-- What the pass makes of a function, if anything. -/
theorem Module.body_cases {cfg : Config} (m : Module cfg) {F : Function} (hF : F ∈ m.functions) :
    (∃ c p, Planned cfg F c p ∧ m.body F = Pass.instrumented F p) ∨
      cfg.isCFunction F.name = false ∧ m.body F = .ofFunction F := by
  have hbody := m.instrumented F hF
  by_cases hC : cfg.isCFunction F.name = true
  · exact .inl (runOnFunction_ok (m.wf F hF) hC hbody)
  · rw [runOnFunction, if_neg hC] at hbody
    exact .inr ⟨by simpa using hC, (Except.ok.inj hbody).symm⟩

theorem block_ofFunction (F : Function) (b : Nat) : (Body.ofFunction F).block b = (F.code b).map .orig := by
  cases hb : F.blocks[b]? <;> simp [Body.block, Body.ofFunction, Function.code, hb]

section

variable {cfg : Config} (m : Module cfg) {F : Function} (hF : F ∈ m.functions)
include hF

theorem Module.filterMap_body (b : Nat) : ((m.body F).block b).filterMap Node.orig? = F.code b := by
  rcases m.body_cases hF with ⟨c, p, -, heq⟩ | ⟨-, heq⟩
  · rw [heq, filterMap_orig_block]
  · rw [heq, block_ofFunction, List.filterMap_map]
    exact List.filterMap_some

theorem Module.last_body {b : Nat} {pre : List Node} {n : Node} (h : (m.body F).block b = pre ++ [n]) :
    n.orig? ≠ none := by
  rcases m.body_cases hF with ⟨c, p, -, heq⟩ | ⟨-, heq⟩
  · rw [heq] at h
    exact orig?_ne_none_of_last (m.wf F hF) h
  · rw [heq, block_ofFunction] at h
    have hn : n ∈ (F.code b).map Node.orig := by
      rw [h]
      simp
    obtain ⟨I, -, rfl⟩ := List.mem_map.1 hn
    simp [Node.orig?]

/-- An inserted instruction of an activation does not get stuck. -/
theorem Module.exists_stepNew {S : Semantics V M ε} {d₀ d : Data V M} {v : Visit Nat (Event ε)}
    {vs : List (Visit Nat (Event ε))} {n : NewInst} {todo : List Node} {t : Temps V}
    (hrun : S.RunBody (m.body F) d₀ (v :: vs) (.running (.new n :: todo) (d, t))) : ∃ o t', S.StepNew d n t o t' := by
  rcases m.body_cases hF with ⟨c, p, hp, heq⟩ | ⟨-, heq⟩
  · rw [heq] at hrun
    exact Pass.exists_stepNew (m.wf F hF) hp hrun
  · obtain ⟨w, _, pre, -, hpre⟩ := hrun.position
    have hn : .new n ∈ (F.code w.block).map Node.orig := by
      rw [← block_ofFunction, ← heq, hpre]
      simp [Conf.todo]
    obtain ⟨_, -, hI⟩ := List.mem_map.1 hn
    cases hI

end

/-! ## The simulation -/

theorem filterMap_own_foreign (o : List ε) :
    (o.map Output.foreign).filterMap Output.own? = o.map Output.foreign := by
  rw [List.filterMap_map]
  induction o with
  | nil => rfl
  | cons x o ih => simp [Output.own?, ih]

theorem filterMap_own_log (xs : List Logger.Call) : (xs.map Output.log).filterMap (@Output.own? ε) = [] := by
  simp [List.filterMap_map, Output.own?, Function.comp_def]

variable {cfg : Config} (m : Module cfg) (W : World V M ε)

theorem World.instrumented_simulates :
    CallStack.Simulates (W.original m.functions) (W.instrumented m) Node.orig? Prod.fst Output.own? where
  entry _ := rfl
  onCall _ := rfl
  onReturn _ := rfl
  proc a :=
    { code := m.filterMap_body a.mem
      last := fun b pre y h => m.last_body a.mem h
      new := by
        intro b y t o t' e hy h
        cases h with
        | orig => cases hy
        | new hnew => exact ⟨rfl, rfl, filterMap_own_log _⟩
      old := by
        intro b y x t o t' e hy h
        cases h with
        | orig henter hstep =>
          cases hy
          exact ⟨henter, _, hstep, filterMap_own_foreign _⟩
        | new => cases hy
      lift := by
        rintro b y x t o s' e hy ⟨henter, o', hstep, rfl⟩
        cases y with
        | orig I =>
          cases hy
          exact ⟨_, (s', t.2), .orig henter hstep, rfl, filterMap_own_foreign o'⟩
        | new n => cases hy }
  call := by
    rintro a y t a' t' ⟨henter⟩
    exact ⟨_, rfl, henter, rfl⟩
  call_lift := by
    rintro a y x t a' s' hy ⟨henter, rfl⟩
    cases y with
    | orig I =>
      cases hy
      exact ⟨_, .mk henter, rfl⟩
    | new n => cases hy
  resume := by
    rintro a b y t r u t' e ⟨hresume⟩
    exact ⟨_, rfl, _, hresume, rfl⟩
  resume_lift := by
    rintro a b y x t r u s' e hy ⟨z, hresume, rfl⟩
    cases y with
    | orig I =>
      cases hy
      exact ⟨(_, t.2), .mk hresume, rfl⟩
    | new n => cases hy

/-! ## What is inserted goes on -/

variable {W} {d : Data V M} {xs : List V}

theorem World.stepNew_opened {n : NewInst} {t t' : Temps V} {o : List (Event ε)} :
    (W.opened xs).StepNew d n t o t' ↔ (W.sem xs).StepNew d n t o t' := by
  constructor
  · intro h
    cases h with
    | cast hx => exact .cast hx
    | alloca => exact .alloca
    | store hx hb => exact .store hx hb
    | pointerCast hb => exact .pointerCast hb
    | call hx => exact .call hx
  · intro h
    cases h with
    | cast hx => exact .cast hx
    | alloca => exact .alloca
    | store hx hb => exact .store hx hb
    | pointerCast hb => exact .pointerCast hb
    | call hx => exact .call hx

/-- An activation by itself executes its function. -/
theorem World.stepNode_of_opened {a : Activation m.functions V} {b : Nat} {n : Node} {s s' : Data V M × Temps V}
    {o : List (Output ε)} {e : Exit Nat V} (h : (W.instrumented m).opened a b n s o s' e) :
    ∃ o', (W.opened a.args).StepNode b n s o' s' e := by
  rcases h with hstep | ⟨-, r, u, hresume⟩
  · cases hstep with
    | orig _ hstep =>
      obtain ⟨hexec⟩ := hstep
      exact ⟨_, .orig (.mk (.inl hexec))⟩
    | new hnew => exact ⟨_, .new (stepNew_opened.2 hnew)⟩
  · obtain ⟨hresume⟩ := hresume
    exact ⟨_, .orig (.mk (.inr ⟨rfl, r, hresume⟩))⟩

/-- An activation starts with nothing in its buffers. -/
def Fresh (_ : Activation m.functions V) (t : Data V M × Temps V) : Prop := t.2 = .init

theorem World.goes {a : Activation m.functions V} {t₀ : Data V M × Temps V} {v : Visit Nat (Output ε)}
    {vs : List (Visit Nat (Output ε))} {n : Node} {todo : List Node} {t : Data V M × Temps V} (hinit : Fresh m a t₀)
    (hrun : Run ((W.instrumented m).opened a) ((W.instrumented m).entry a) ((W.instrumented m).code a) t₀ (v :: vs)
      (.running (n :: todo) t)) (hn : n.orig? = none) : ∃ o t', (W.instrumented m).exec a v.block n t o t' .next := by
  obtain ⟨d₀, _⟩ := t₀
  obtain rfl := hinit
  cases n with
  | orig I => cases hn
  | new n =>
    obtain ⟨vs', hblocks, hrun'⟩ := hrun.follow (World.stepNode_of_opened m)
    obtain ⟨_, _, rfl, -, -⟩ := List.map_eq_cons_iff.1 hblocks
    obtain ⟨o, t', hnew⟩ := m.exists_stepNew a.mem hrun'
    exact ⟨_, _, .new (stepNew_opened.1 hnew)⟩

/-! ## The whole program -/

/-- The program starts with an activation. -/
def World.Runs (W : World V M ε) (functions : List Function) (a : Activation functions V) (mem : M) :
    List (Output ε) → State (Activation functions V) Nat Inst (Data V M) V → Prop :=
  (W.original functions).Reaches a (.enter mem)

def World.RunsInstrumented (W : World V M ε) (a : Activation m.functions V) (mem : M) :
    List (Output ε) → State (Activation m.functions V) Nat Node (Data V M × Temps V) V → Prop :=
  (W.instrumented m).Reaches a (.enter mem, .init)

/-- The instrumented program is the program with calls of the logger. -/
structure ProgramObserves (W : World V M ε) (a : Activation m.functions V) (mem : M) : Prop where
  /-- It comes to what the program comes to, and shows what the program shows. -/
  runs : ∀ os st, W.Runs m.functions a mem os st ↔
    ∃ os' st', W.RunsInstrumented m a mem os' st' ∧ os'.filterMap Output.own? = os ∧
      st'.erase Node.orig? Prod.fst = st
  /-- It goes on from what was inserted. -/
  goes : ∀ os f b n todo t callers, W.RunsInstrumented m a mem os (.running ⟨f, b, .new n :: todo, t⟩ callers) →
    ∃ o t', (W.instrumented m).Step (.running ⟨f, b, .new n :: todo, t⟩ callers) o (.running ⟨f, b, todo, t'⟩ callers)
  /-- It returns what the program returns, and leaves the memory so. -/
  returns : ∀ os r mem', (∃ d, W.Runs m.functions a mem os (.returning r d []) ∧ d.mem = mem') ↔
    ∃ os' d t, W.RunsInstrumented m a mem os' (.returning r (d, t) []) ∧ os'.filterMap Output.own? = os ∧ d.mem = mem'

theorem World.call_init {a a' : Activation m.functions V} {n : Node} {s s' : Data V M × Temps V}
    (h : (W.instrumented m).call a n s a' s') : Fresh m a' s' := by
  obtain ⟨-⟩ := h
  rfl

/-- **Whole programs.** The runs of an instrumented program are the
program's, however its functions call each other, with calls of the logger in
between. -/
theorem Module.program_observes (m : Module cfg) (W : World V M ε) (a : Activation m.functions V) (mem : M) :
    ProgramObserves m W a mem := by
  have hsim := World.instrumented_simulates m W
  have hruns : ∀ os st, W.Runs m.functions a mem os st ↔
      ∃ os' st', W.RunsInstrumented m a mem os' st' ∧ os'.filterMap Output.own? = os ∧
        st'.erase Node.orig? Prod.fst = st := by
    intro os st
    constructor
    · intro hrun
      exact Program.Reaches.lift hsim (World.call_init m) (World.goes m) (show Fresh m a (.enter mem, .init) from rfl) hrun
    · rintro ⟨os', st', hrun, rfl, rfl⟩
      exact Program.Reaches.erase hsim hrun
  refine ⟨hruns, fun os f b n todo t callers hrun => ?_, fun os r mem' => ?_⟩
  · obtain ⟨o, t', hexec⟩ := exists_exec (World.call_init m) (World.goes m) (show Fresh m a (.enter mem, .init) from rfl) hrun
      (show Node.orig? (.new n) = none from rfl)
    exact ⟨_, t', .exec hexec .next⟩
  · constructor
    · rintro ⟨d, hrun, rfl⟩
      obtain ⟨os', st', hrun', hos, hst⟩ := (hruns os _).1 hrun
      cases st' with
      | running => cases hst
      | returning r' t' callers =>
        obtain ⟨d', t⟩ := t'
        simp only [State.erase, State.returning.injEq, List.map_eq_nil_iff] at hst
        obtain ⟨rfl, rfl, rfl⟩ := hst
        exact ⟨os', d', t, hrun', hos, rfl⟩
    · rintro ⟨os', d, t, hrun, hos, rfl⟩
      exact ⟨d, (hruns os _).2 ⟨os', _, hrun, hos, rfl⟩, rfl⟩

end

end LlvmTracer.Pass
