/-
The texts and numbers `full_trace.cpp` computes for a trace line: sizes,
names, ids and line numbers. Nothing here inserts anything.

`slotToVarName` changes while the pass goes through a function, and so is an
argument; what is collected before, `Ctx` holds.
-/
import Mathlib.Algebra.Group.Nat.Defs
import Mathlib.Algebra.Ring.Int.Defs
import LlvmTracer.Pass.Select

namespace LlvmTracer.Pass

open Ir

/-- How instrumenting a function ends early. -/
inductive Refusal
  /-- An assertion of the source, or one of LLVM's: an ill-typed cast or
  store, a constant asked for its slot, a block with no place to insert at. -/
  | assertion
  /-- LLVM's assertion that a store's alignment is a power of two. -/
  | misaligned
  /-- A text of 256 characters or more in a buffer of that size. -/
  | overflow
  /-- A read through a null debug intrinsic, location or variable. -/
  | nullDebug
  /-- The walk through a block came to an inserted instruction. -/
  | inserted
  /-- The walk through a block did not end. -/
  | fuel
  deriving DecidableEq, Repr

/-- A text copied into a buffer of `InstEnv::BUF_SIZE` characters. -/
def fit (text : String) : Except Refusal String := if text.length < 256 then .ok text else .error .overflow

def cut (n : Nat) (text : String) : String := String.ofList (text.toList.take n)

/-! ## Sizes -/

mutual

/-- `getMemSize`, as the `unsigned` it is stored in. -/
def getMemSize : Ty → Except Refusal Nat
  | .pointer _ => .ok 64
  | .function | .label => .ok 0
  | .struct fields => getMemSizes fields
  | .named _ => .ok 0
  | .half => .ok 16
  | .float => .ok 32
  | .double => .ok 64
  | .x86FP80 => .ok 80
  | .fp128 => .ok 128
  | .ppcFP128 => .ok 128
  | .integer w => .ok w
  | .vector n t => .ok (n * t.primitiveSizeInBits % 2 ^ 32)
  | .array n t => .ok (n * t.primitiveSizeInBits % 2 ^ 32)
  | .void | .metadata | .x86MMX | .token => .error .assertion

/-- The loop over a struct's elements. -/
def getMemSizes : Fields → Except Refusal Nat
  | .nil => .ok 0
  | .cons t ts =>
    getMemSize t >>= fun size =>
    getMemSizes ts >>= fun rest => .ok ((size + rest) % 2 ^ 32)

end

/-! ## Collected before a function's blocks are gone through -/

/-- The names found so far are never replaced. -/
def collectDebugInfo (valueDebugName : List (Value × String)) (debug : DbgInfoIntrinsic) :
    Except Refusal (List (Value × String)) :=
  match debug.kind, debug.location, debug.varName with
  -- `dbgDeclare`, which is null here, is asked for the address.
  | .addr, _, _ => .error .nullDebug
  | _, none, _ => .error .nullDebug
  | _, some _, none => .ok valueDebugName
  | _, some arg, some var =>
    if arg.isUndef ∨ arg.isBitCast ∨ (valueDebugName.lookup arg).isSome then .ok valueDebugName
    else .ok (valueDebugName ++ [(arg, var)])

def collectDebugInfos (F : Function) : Except Refusal (List (Value × String)) :=
  (F.insts.filterMap Inst.debug).foldlM collectDebugInfo []

/-- The preheader's terminator gets the loop's line. -/
def collectPreheader (F : Function) (preheaderLineNum : List (Nat × Nat)) (b : Nat) :
    Except Refusal (List (Nat × Nat)) :=
  match (F.loops.preheader b).bind F.terminator with
  | none => .ok preheaderLineNum
  | some head =>
    match F.loops.startLine b with
    | none => .error .assertion
    | some line => .ok ((head.id, line) :: preheaderLineNum)

def collectPreheaders (F : Function) : Except Refusal (List (Nat × Nat)) :=
  (List.range F.blocks.length).foldlM (collectPreheader F) []

/-- What the pass looks names and line numbers up in. -/
structure Ctx where
  cfg : Config
  func : Function
  valueDebugName : List (Value × String)
  preheaderLineNum : List (Nat × Nat)

namespace Ctx

variable (c : Ctx)

def getValueName (value : Value) : Option String :=
  if value.hasName then some value.name else c.valueDebugName.lookup value

/-- `getLocalSlot` asserts that it is not asked for a constant. -/
def getLocalSlot (value : Value) : Except Refusal Int :=
  if value.isConstant then .error .assertion else .ok (c.func.localSlot value)

/-! ## Ids -/

def makeValueId (value : Value) : Except Refusal String :=
  c.getLocalSlot value >>= fun id =>
  match value, c.getValueName value with
  -- `snprintf` leaves room for the colon and two digits of the depth.
  | .block b, some name => fit (cut (name.length + 3) (name ++ ":" ++ toString (c.func.loops.depth b.index)))
  | .block b, none => fit (cut 6 (toString id ++ ":" ++ toString (c.func.loops.depth b.index)))
  | _, some name => fit name
  | _, none => if id = -1 then .error .assertion else fit (toString id)

/-- A slot as a key of `slotToVarName`: the key type is `unsigned`. -/
def slotKey (id : Int) : Nat := (id % 2 ^ 32).toNat

/-- `getInstId`. `place` is the block id and the instruction count, where the
caller has them; the result is the id, whether it names a register, and the
instruction count afterwards. -/
def getInstId (slotToVarName : List (Nat × String)) (I : InstRef) (place : Option (String × Nat)) :
    Except Refusal (String × Bool × Nat) :=
  let instc := (place.map Prod.snd).getD 0
  match c.getValueName (.inst I) with
  | some name => fit name >>= fun text => .ok (text, true, instc)
  | none =>
    let id := c.func.localSlot (.inst I)
    match slotToVarName.lookup (slotKey id), place with
    | some name, _ => .ok (name, true, instc)
    | none, some (bbid, instc) =>
      if 0 ≤ id then .ok (toString id, true, instc)
      else fit (bbid ++ "-" ++ toString instc) >>= fun text => .ok (text, true, instc + 1)
    | none, none => if 0 ≤ id then .ok (toString id, true, instc) else .error .assertion

def lineNumber (I : Inst) : Int :=
  match c.preheaderLineNum.lookup I.id, I.line with
  | some line, _ => line
  | none, some line => line
  | none, none => -1

end Ctx

/-! ## What a line is printed from -/

/-- `InstEnv` -/
structure InstEnv where
  funcName : String
  bbid : String
  instid : String
  lineNumber : Int
  instc : Nat
  toFxpt : Bool
  deriving DecidableEq, Repr

/-- The environment a block starts with. -/
def InstEnv.init (funcName : String) : InstEnv where
  funcName
  bbid := ""
  instid := ""
  lineNumber := -1
  instc := 0
  toFxpt := isFixedPoint funcName

/-- `InstOperandParams` -/
structure InstOperandParams where
  paramNum : Nat
  datatype : TypeID
  datasize : Nat
  value : Option Value
  isReg : Bool
  isIntrinsic : Bool
  operandName : String
  bbid : Option String
  prevBbid : String
  deriving DecidableEq, Repr

def resultLine : Nat := 19134
def forwardLine : Nat := 24601

/-- `s_phi` -/
def phiText : String := "phi"

namespace Ctx

variable (c : Ctx)

/-- Before an instruction's first line: its block's id, its own, and its line number. -/
def setEnv (slotToVarName : List (Nat × String)) (b : BlockRef) (I : Inst) (env : InstEnv) :
    Except Refusal InstEnv :=
  c.makeValueId (.block b) >>= fun bbid =>
  c.getInstId slotToVarName I.ref (some (bbid, env.instc)) >>= fun id =>
  .ok { env with bbid, instid := id.1, instc := id.2.2, lineNumber := c.lineNumber I }

/-- A phi's operand `k`, incoming from the block `from`. -/
def phiOperand (slotToVarName : List (Nat × String)) (k : Nat) (v : Value) (source : BlockRef) :
    Except Refusal InstOperandParams :=
  c.makeValueId (.block source) >>= fun prevBbid =>
  getMemSize v.ty >>= fun datasize =>
  match v with
  | .inst r =>
    c.getInstId slotToVarName r none >>= fun id =>
    .ok ⟨k + 1, v.ty.typeID, datasize, none, id.2.1, false, id.1, some phiText, prevBbid⟩
  | _ =>
    fit ((c.getValueName v).getD "") >>= fun name =>
    .ok ⟨k + 1, v.ty.typeID, datasize, some v, (c.getValueName v).isSome, false, name, some phiText, prevBbid⟩

/-- Operand `k` of an instruction that is neither a phi nor a call. -/
def plainOperand (slotToVarName : List (Nat × String)) (k : Nat) (v : Value) : Except Refusal InstOperandParams :=
  getMemSize v.ty >>= fun datasize =>
  fit ((c.getValueName v).getD "") >>= fun name =>
  let params (value : Option Value) (isReg : Bool) (operandName : String) : Except Refusal InstOperandParams :=
    .ok ⟨k + 1, v.ty.typeID, datasize, value, isReg, false, operandName, none, phiText⟩
  match v with
  | .inst r => c.getInstId slotToVarName r none >>= fun id => params (some v) id.2.1 id.1
  | .function _ => params none (c.getValueName v).isSome name
  | _ =>
    if v.ty.typeID = .vector then params (some v) (c.getValueName v).isSome name
    else if v.ty.typeID = .label then c.makeValueId v >>= fun id => params none true id
    else params (some v) (c.getValueName v).isSome name

/-- The line that names the function being called. -/
def calleeParams (callee : String) (numOperands : Nat) : Except Refusal InstOperandParams :=
  fit callee >>= fun name =>
  let v := Value.function callee
  getMemSize v.ty >>= fun datasize =>
  if v.hasName then
    .ok ⟨numOperands, v.ty.typeID, datasize, some v, true, isIntrinsic callee, name, none, phiText⟩
  else .error .assertion

/-- The caller's side of a call's argument `k`. -/
def callOperand (slotToVarName : List (Nat × String)) (callee : String) (k : Nat) (v : Value) :
    Except Refusal InstOperandParams :=
  getMemSize v.ty >>= fun datasize =>
  fit ((c.getValueName v).getD "") >>= fun name =>
  let params (value : Option Value) (isReg : Bool) (operandName : String) : Except Refusal InstOperandParams :=
    .ok ⟨k + 1, v.ty.typeID, datasize, value, isReg, isIntrinsic callee, operandName, none, phiText⟩
  match v with
  | .inst r => c.getInstId slotToVarName r none >>= fun id => params (some v) id.2.1 id.1
  | .function _ => params none (c.getValueName v).isSome name
  | _ =>
    if v.ty.typeID = .label then c.makeValueId v >>= fun id => params none true id
    else params (some v) (c.getValueName v).isSome name

/-- The result line of an instruction. A phi's still has the `prev_bbid` of
the operand printed last. -/
def resultParams (I : Inst) (instid prevBbid : String) : Except Refusal InstOperandParams :=
  getMemSize I.ty >>= fun datasize =>
  if I.isTerminator ∧ I.ty.typeID ≠ .vector then .error .assertion
  else .ok ⟨resultLine, I.ty.typeID, datasize, some I.value, true, false, instid, none, prevBbid⟩

/-- The name a bitcast's result takes over from a pointer operand. -/
def bitcastName (slotToVarName : List (Nat × String)) (I : Inst) : Option String :=
  match I.kind, I.operands with
  | .bitcast, v :: _ =>
    if (slotToVarName.lookup (slotKey (c.func.localSlot I.value))).isNone ∧ v.ty.typeID = .pointer then
      c.getValueName v
    else none
  | _, _ => none

/-- An argument's line at the function's entry. Here a long name is cut. -/
def argParams (isEntryBlock : Bool) (a : Argument) : Except Refusal InstOperandParams :=
  let v := Value.arg a
  getMemSize v.ty >>= fun datasize =>
  let paramNum := if isEntryBlock then a.index + 1 else forwardLine
  if v.ty.typeID = .label then
    c.makeValueId v >>= fun id =>
    .ok ⟨paramNum, v.ty.typeID, datasize, none, true, false, id, none, phiText⟩
  else
    .ok ⟨paramNum, v.ty.typeID, datasize, some v, (c.getValueName v).isSome, false,
      cut 255 ((c.getValueName v).getD ""), none, phiText⟩

end Ctx

end LlvmTracer.Pass
