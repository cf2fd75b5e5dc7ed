/-
The functions of `full_trace.cpp` that insert calls of the logger.

`Gen` is what of the pass's state they change. A function gives what it
inserts, in order, as edits; `Pass.Tracer` applies them to the function being
instrumented.
-/
import LlvmTracer.Lib.Emit
import LlvmTracer.Pass.Inserted

namespace LlvmTracer.Pass

open Ir

/-- The number of elements, the size of one in bytes, and its type id. -/
abbrev VecBufKey := Nat × Nat × TypeID

def createVecBufKey : Ty → Option VecBufKey
  | .vector n t => some (n, t.primitiveSizeInBits / 8, t.typeID)
  | _ => none

/-- A stack buffer the pass allocated. -/
structure Buffer where
  serial : Nat
  allocated : Ty
  deriving DecidableEq, Repr

structure Gen where
  /-- How many instructions were inserted so far. -/
  serial : Nat
  vectorBuffers : List (VecBufKey × Buffer)
  slotToVarName : List (Nat × String)
  deriving DecidableEq, Repr

def Gen.init : Gen where
  serial := 0
  vectorBuffers := []
  slotToVarName := []

abbrev Tracing := Emit Refusal Gen Edit

def refuse {α : Type} (r : Refusal) : Tracing α := Emit.lift (.error r)

/-- Insert an instruction. -/
def insert (pt : Point) (pu : Purpose) (op : Op) : Tracing Nat :=
  Emit.get >>= fun g =>
  Emit.tell ⟨pt, ⟨g.serial, pu, op⟩⟩ >>= fun _ =>
  Emit.modify (fun g => { g with serial := g.serial + 1 }) >>= fun _ =>
  pure g.serial

def insertCall (pt : Point) (pu : Purpose) (c : LogCall) : Tracing Unit := insert pt pu (.call c) >>= fun _ => pure ()

/-! ## Casts and vector buffers -/

/-- The types a cast may come from: an integer of at most 64 bits, a
floating-point type no wider than double, a pointer. -/
def CastOp.accepts : CastOp → Ty → Bool
  | .zext, .integer w => w ≤ 64
  | .fpext, .half | .fpext, .float | .fpext, .double => true
  | .ptrToInt, .pointer _ => true
  | _, _ => false

/-- The builder leaves out a cast to the type the value has. -/
def CastOp.isIdentity : CastOp → Ty → Bool
  | .zext, .integer w => w = 64
  | .fpext, .double => true
  | _, _ => false

/-- `IRBuilder::CreateZExt` and so on: a constant is cast right away. -/
def createCast (pt : Point) (pu : Purpose) (op : CastOp) (v : Value) : Tracing LogValue :=
  if op.accepts v.ty = false then refuse .assertion
  else if op.isIdentity v.ty then pure (.value v)
  else if v.isConstant then pure (.folded op v)
  else insert pt pu (.cast op v) >>= fun serial => pure (.node serial)

/-- The buffer for a vector type; a new one is allocated at the entry
block's front. -/
def vectorBuffer (pu : Purpose) (ty : Ty) (key : VecBufKey) : Tracing Buffer :=
  Emit.get >>= fun g =>
  match g.vectorBuffers.lookup key with
  | some buffer => pure buffer
  | none =>
    insert .front pu (.alloca ty) >>= fun serial =>
    Emit.modify (fun g => { g with vectorBuffers := (key, ⟨serial, ty⟩) :: g.vectorBuffers }) >>= fun _ =>
    pure ⟨serial, ty⟩

/-- What `StoreInst::setAlignment` takes: a power of two, or none. -/
def isAlignment (alignment : Nat) : Bool := alignment &&& (alignment - 1) = 0

def createVectorArg (pt : Point) (pu : Purpose) (vector : Value) : Tracing LogValue :=
  match createVecBufKey vector.ty with
  | none => refuse .assertion
  | some key =>
    vectorBuffer pu vector.ty key >>= fun buffer =>
    -- A store's operand and its buffer's element type must agree.
    if buffer.allocated ≠ vector.ty then refuse .assertion
    else if isAlignment key.2.1 = false then refuse .misaligned
    else
      insert pt pu (.store vector buffer.serial key.2.1) >>= fun _ =>
      insert pt pu (.pointerCast buffer.serial) >>= fun serial =>
      pure (.node serial)

/-! ## Parameter lines -/

/-- `getAsCString`, up to the terminating NUL; it asserts that there is one,
and only one. -/
def getAsCString (data : List UInt8) : Except Refusal String :=
  if data.getLast? = some 0 ∧ 0 ∉ data.dropLast then
    .ok (String.ofList (data.dropLast.map fun b => Char.ofNat b.toNat))
  else .error .assertion

/-- The string a pointer operand is logged as, where it is. -/
def stringValue (v : Value) : Except Refusal (Option String) :=
  match v with
  | .constExpr (.pointer (.integer 8)) _ (some (gv, _)) =>
    match gv.initializer with
    | none => .error .assertion
    | some (.bytes data) => getAsCString data >>= fun s => .ok (some s)
    | some .dataArray => .error .assertion
    | some .other => .ok none
  | _ => .ok none

def InstOperandParams.call (p : InstOperandParams) (logger : ParamLogger) (value : LogValue) : LogCall :=
  .param logger p.paramNum p.datasize value p.isReg p.operandName (p.bbid = some phiText) p.prevBbid

def printPointerLine (pt : Point) (pu : Purpose) (p : InstOperandParams) (v : Value) : Tracing Unit :=
  if p.isIntrinsic then insertCall pt pu (p.call .ptr .zero)
  else
    createCast pt pu .ptrToInt v >>= fun x =>
    Emit.lift (stringValue v) >>= fun str =>
    match str with
    | some s => insertCall pt pu (p.call .string (.string s))
    | none => insertCall pt pu (p.call .ptr x)

def printParamLine (pt : Point) (pu : Purpose) (p : InstOperandParams) : Tracing Unit :=
  match p.value with
  | none => insertCall pt pu (p.call .int .zero)
  | some v =>
    if p.datatype = .integer then
      createCast pt pu .zext v >>= fun x => insertCall pt pu (p.call .int x)
    else if p.datatype.isFloatingPoint then
      createCast pt pu .fpext v >>= fun x => insertCall pt pu (p.call .double x)
    else if p.datatype = .pointer then printPointerLine pt pu p v
    else if p.datatype = .vector then
      createVectorArg pt pu v >>= fun x => insertCall pt pu (p.call .vector x)
    else pure ()  -- The warning about an unhandled datatype.

/-- A line for which the parameters are computed from the names known by then. -/
def printLine (pt : Point) (pu : Purpose) (params : List (Nat × String) → Except Refusal InstOperandParams) :
    Tracing Unit :=
  Emit.get >>= fun g => Emit.lift (params g.slotToVarName) >>= fun p => printParamLine pt pu p

/-! ## Other lines -/

namespace Ctx

variable (c : Ctx)

def printFirstLine (pt : Point) (I : Inst) (env : InstEnv) (opcode : Nat) : Tracing Unit :=
  let opcode := if env.toFxpt then opcodeToFixedPoint opcode else opcode
  Emit.lift (fit env.funcName) >>= fun funcName =>
  insertCall pt (.first I.id)
    (.log0 env.lineNumber funcName env.bbid env.instid opcode (c.cfg.isTrackedFunction funcName)
      c.cfg.isToplevelMode)

def printTopLevelEntryFirstLine (pt : Point) (funcName : String) (numParams : Nat) : Tracing Unit :=
  Emit.lift (fit funcName) >>= fun funcName => insertCall pt .entry (.logEntry funcName numParams)

def updateTracerStatus (pt : Point) (pu : Purpose) (funcName : String) (toFxpt : Bool) (opcode : Nat) :
    Tracing Unit :=
  let opcode := if toFxpt then opcodeToFixedPoint opcode else opcode
  Emit.lift (fit funcName) >>= fun funcName =>
  insertCall pt pu (.updateStatus funcName opcode (c.cfg.isTrackedFunction funcName) c.cfg.isToplevelMode)

/-! ## Instructions -/

def isReturn (I : Inst) : Bool := I.kind = .ret

/-- The operands in the order of their lines, each with its index. -/
def operandsDescending (I : Inst) : List (Value × Nat) := I.operands.zipIdx.reverse

/-- One round of the loop of `handlePhiNodes`, inserting at `pt`. -/
def handlePhiNode (pt : Point) (b : BlockRef) (env : InstEnv) (I : Inst) : Tracing InstEnv :=
  Emit.get >>= fun g =>
  Emit.lift (c.setEnv g.slotToVarName b I env) >>= fun env =>
  c.printFirstLine pt I env I.opcode >>= fun _ =>
  forM (operandsDescending I) (fun x =>
    printLine pt (.operand I.id x.2) fun slots =>
      match I.incoming[x.2]? with
      | none => .error .assertion
      | some source => c.phiOperand slots x.2 x.1 source) >>= fun _ =>
  (if I.ty = .void then pure ()
  else printLine pt (.result I.id) fun _ =>
    match I.incoming with
    | [] => .error .assertion
    -- `prev_bbid` is left from the operand printed last.
    | source :: _ => c.makeValueId (.block source) >>= fun prevBbid => resultParams I env.instid prevBbid) >>= fun _ =>
  pure env

def handlePhiNodes (pt : Point) (b : BlockRef) (phis : List Inst) (env : InstEnv) : Tracing InstEnv :=
  phis.foldlM (c.handlePhiNode pt b) env

def handleCallInstruction (I : Inst) (callee : Callee) (env : InstEnv) : Tracing Unit :=
  let pt := Point.before (.orig I.id)
  c.printFirstLine pt I env (callOpcode callee.name) >>= fun _ =>
  printLine pt (.operand I.id (I.operands.length - 1)) (fun _ => calleeParams callee.name I.operands.length) >>= fun _ =>
  forM (I.operands.take callee.numParams).zipIdx fun x =>
    printLine pt (.operand I.id x.2) fun slots => c.callOperand slots callee.name x.2 x.1

def handleNonPhiNonCallInstruction (I : Inst) (env : InstEnv) : Tracing Unit :=
  let pt := Point.before (.orig I.id)
  c.printFirstLine pt I env I.opcode >>= fun _ =>
  forM (operandsDescending I) (fun x =>
    printLine pt (.operand I.id x.2) fun slots => c.plainOperand slots x.2 x.1) >>= fun _ =>
  if isReturn I then c.updateTracerStatus pt (.ret I.id) env.funcName env.toFxpt I.opcode else pure ()

/-- A bitcast may take over its operand's name, from its result line on. -/
def renameBitcast (I : Inst) (instid : String) : Tracing String :=
  Emit.get >>= fun g =>
  match c.bitcastName g.slotToVarName I with
  | none => pure instid
  | some name =>
    Emit.lift (fit name) >>= fun name =>
    Emit.modify (fun g =>
      { g with slotToVarName := (slotKey (c.func.localSlot I.value), name) :: g.slotToVarName }) >>= fun _ =>
    pure name

def handleInstructionResult (I : Inst) (next : Option Ref) (env : InstEnv) : Tracing Unit :=
  match next with
  | none => refuse .assertion
  | some next =>
    c.renameBitcast I env.instid >>= fun instid =>
    printLine (.before next) (.result I.id) fun _ => resultParams I instid phiText

/-- The lines of a traced instruction. -/
def handleInstruction (I : Inst) (next : Option Ref) (env : InstEnv) : Tracing Unit :=
  (match I.calledFunction with
    | some callee => c.handleCallInstruction I callee env
    | none => c.handleNonPhiNonCallInstruction I env) >>= fun _ =>
  if I.ty = .void then pure () else c.handleInstructionResult I next env

/-- One round of the loop of `runOnBasicBlock`; `next` is the instruction
after this one. -/
def visit (b : BlockRef) (I : Inst) (next : Option Ref) (env : InstEnv) : Tracing InstEnv :=
  if I.isInvoke then pure env
  else
    Emit.get >>= fun g =>
    Emit.lift (c.setEnv g.slotToVarName b I env) >>= fun env =>
    (if c.cfg.traceCall I then c.handleInstruction I next env else pure ()) >>= fun _ =>
    pure env

/-! ## Function entry -/

/-- The lines at the entry of the function, inserted at `pt`. -/
def entryLines (pt : Point) : Tracing Unit :=
  let funcName := c.func.name
  let isEntryBlock := c.cfg.isTrackedFunction funcName && c.cfg.isToplevelMode
  (if isEntryBlock then
    c.updateTracerStatus pt .entryStatus funcName false 0 >>= fun _ =>
    printTopLevelEntryFirstLine pt funcName c.func.params.length
  else pure ()) >>= fun _ =>
  forM c.func.args fun a => printLine pt (.argument a.index) fun _ => c.argParams isEntryBlock a

end Ctx

end LlvmTracer.Pass
