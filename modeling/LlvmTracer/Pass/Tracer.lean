/-
`Tracer::runOnFunction`: going through a function's blocks while inserting
into them.

The walk through a block is at an instruction, and finds the next one in the
block as it is then, before it inserts anything; `Pass.Plan` shows that it
never comes to an inserted one, and that it ends.
-/
import LlvmTracer.Pass.Lines

namespace LlvmTracer.Pass

open Ir

/-- A function being instrumented, and the pass's state. -/
structure Work where
  body : Body
  gen : Gen

def Work.run {α : Type} (w : Work) (m : Tracing α) : Except Refusal (α × Work) :=
  (m w.gen).map fun r => (r.1, ⟨w.body.applyAll r.2.1, r.2.2⟩)

/-- The rest of a block from the node `r` on. -/
def Body.after (body : Body) (b : Nat) (r : Ref) : List Node :=
  (body.block b).dropWhile fun n => n.ref ≠ r

/-- The instruction is an alloca the pass has inserted for a vector buffer. -/
def Gen.isVectorBuffer (g : Gen) : Node → Bool
  | .new ⟨serial, _, .alloca ty⟩ =>
    match createVecBufKey ty with
    | some key => (g.vectorBuffers.lookup key).map Buffer.serial = some serial
    | none => false
  | _ => false

namespace Ctx

variable (c : Ctx)

/-- The search of `processAllocaInstruction` through the instructions after
the alloca, for a debug declare of the value with its slot. -/
def findDeclare (allocaId : Int) (slotToVarName : List (Nat × String)) :
    List Node → Except Refusal (List (Nat × String))
  | [] => .ok slotToVarName
  | n :: rest =>
    match n.orig?.bind Inst.debug with
    | some ⟨.declare, none, _⟩ => .error .nullDebug
    | some ⟨.declare, some wrappingArg, var⟩ =>
      if wrappingArg.isUndef then findDeclare allocaId slotToVarName rest
      else
        c.getLocalSlot wrappingArg >>= fun id =>
        if id = allocaId then
          match var with
          | none => .error .nullDebug
          | some name => .ok ((slotKey id, name) :: slotToVarName)
        else findDeclare allocaId slotToVarName rest
    | _ => findDeclare allocaId slotToVarName rest

/-- `processAllocaInstruction`, on an instruction that may not be an alloca. -/
def processAllocaInstruction (I : Inst) (rest : List Node) : Tracing Unit :=
  if I.isAlloca ∧ c.getValueName I.value = none then
    Emit.get >>= fun g =>
    Emit.lift (c.findDeclare (c.func.localSlot I.value) g.slotToVarName rest) >>= fun slots =>
    Emit.modify fun g => { g with slotToVarName := slots }
  else pure ()

/-- The loop of `runOnBasicBlock`. -/
def walk (b : BlockRef) : Nat → Option Ref → InstEnv → Work → Except Refusal Work
  | _, none, _, w => .ok w
  | 0, some _, _, _ => .error .fuel
  | n + 1, some r, env, w =>
    match w.body.after b.index r with
    | .orig I :: rest =>
      let next := rest.head?.map Node.ref
      w.run (c.visit b I next env) >>= fun x =>
      x.2.run (c.processAllocaInstruction I (x.2.body.after b.index r).tail) >>= fun y =>
      walk b n next x.1 y.2
    | _ => .error .inserted

def runOnBasicBlock (w : Work) (b : BlockRef) : Except Refusal Work :=
  if c.cfg.tracesBlocks c.func.name then
    let nodes := w.body.block b.index
    let insertp := (firstInsertionPt nodes).head?.map Node.ref
    -- What is inserted for the phis comes behind them.
    match (nodes.takeWhile Node.isPhi).filterMap Node.orig?, insertp with
    | [], _ => c.walk b nodes.length insertp (.init c.func.name) w
    | _ :: _, none => .error .assertion
    | I :: phis, some r =>
      w.run (c.handlePhiNodes (.before r) b (I :: phis) (.init c.func.name)) >>= fun x =>
      c.walk b nodes.length insertp x.1 x.2
  else .ok w

def runOnFunctionEntry (w : Work) : Except Refusal Work :=
  match (firstInsertionPt (w.body.block 0)).dropWhile w.gen.isVectorBuffer with
  | [] => .error .assertion
  | n :: _ => (w.run (c.entryLines (.before n.ref))).map Prod.snd

end Ctx

/-- The context a function is instrumented in. -/
def collect (cfg : Config) (F : Function) : Except Refusal Ctx :=
  collectDebugInfos F >>= fun valueDebugName =>
  collectPreheaders F >>= fun preheaderLineNum => .ok ⟨cfg, F, valueDebugName, preheaderLineNum⟩

def runOnFunction (cfg : Config) (F : Function) : Except Refusal Body :=
  if cfg.isCFunction F.name then
    collect cfg F >>= fun c =>
    F.blockRefs.foldlM c.runOnBasicBlock ⟨.ofFunction F, .init⟩ >>= fun w =>
    (if F.name = "main" then .ok w else c.runOnFunctionEntry w) >>= fun w => .ok w.body
  else .ok (.ofFunction F)

end LlvmTracer.Pass
