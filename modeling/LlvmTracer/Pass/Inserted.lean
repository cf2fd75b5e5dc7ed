/-
The instructions `full_trace.cpp` inserts, and a function's body with them in.

An inserted instruction is known by its serial number, as an original one is
by its id. It also says which print of the source it is there for
(`Purpose`), so that a result can speak of, say, the line of an operand.

Strings are not numbered: an argument that is a global string is the string.
-/
import LlvmTracer.Pass.Names

namespace LlvmTracer.Pass

open Ir

/-! ## Inserted instructions -/

inductive CastOp
  | zext | fpext | ptrToInt
  deriving DecidableEq, Repr

/-- An argument of a call of the logger that is not known to the pass: a
zero, the result of an inserted instruction, a value of the function, a
constant cast, or a string. -/
inductive LogValue
  | zero
  | node (serial : Nat)
  | value (v : Value)
  | folded (op : CastOp) (v : Value)
  | string (s : String)
  deriving DecidableEq, Repr

/-- `trace_logger_log_int` and so on. -/
inductive ParamLogger
  | int | ptr | string | double | vector
  deriving DecidableEq, Repr

/-- A call of the logger, with its arguments. -/
inductive LogCall
  | log0 (lineNumber : Int) (funcName bbid instid : String) (opcode : Nat) (isTrackedFunction isToplevelMode : Bool)
  | logEntry (funcName : String) (numParams : Nat)
  | updateStatus (funcName : String) (opcode : Nat) (isTrackedFunction isToplevelMode : Bool)
  | param (logger : ParamLogger) (paramNum size : Nat) (value : LogValue) (isReg : Bool) (regId : String)
      (isPhi : Bool) (prevBbid : String)
  deriving DecidableEq, Repr

/-- The argument that is computed, if the call has one. -/
def LogCall.value? : LogCall → Option LogValue
  | param _ _ _ value _ _ _ _ => some value
  | log0 _ _ _ _ _ _ _ | logEntry _ _ | updateStatus _ _ _ _ => none

inductive Op
  | cast (op : CastOp) (v : Value)
  | alloca (allocated : Ty)
  | store (v : Value) (buffer align : Nat)
  | pointerCast (buffer : Nat)
  | call (c : LogCall)
  deriving DecidableEq, Repr

/-- What is printed: the first line of an instruction, its operand `k`, its
result, the status update at a return or at the entry, the entry line, or
argument `k`. -/
inductive Purpose
  | first (id : Nat)
  | operand (id k : Nat)
  | result (id : Nat)
  | ret (id : Nat)
  | entryStatus
  | entry
  | argument (k : Nat)
  deriving DecidableEq, Repr

structure NewInst where
  serial : Nat
  purpose : Purpose
  op : Op
  deriving DecidableEq, Repr

def NewInst.call? (n : NewInst) : Option LogCall :=
  match n.op with
  | .call c => some c
  | _ => none

/-- The logger called with a value, and that value. -/
def NewInst.logs? (n : NewInst) : Option (ParamLogger × LogValue) :=
  match n.op with
  | .call (.param logger _ _ value _ _ _ _) => some (logger, value)
  | _ => none

def NewInst.isAlloca (n : NewInst) : Bool :=
  match n.op with
  | .alloca _ => true
  | _ => false

/-! ## Bodies -/

/-- The address of an instruction. -/
inductive Ref
  | orig (id : Nat)
  | new (serial : Nat)
  deriving DecidableEq, Repr

inductive Node
  | orig (I : Inst)
  | new (n : NewInst)
  deriving DecidableEq, Repr

def Node.ref : Node → Ref
  | orig I => .orig I.id
  | new n => .new n.serial

def Node.isPhi : Node → Bool
  | orig I => I.isPhi
  | new _ => false

def Node.isEHPad : Node → Bool
  | orig I => I.isEHPad
  | new _ => false

def Node.orig? : Node → Option Inst
  | orig I => some I
  | new _ => none

def Node.new? : Node → Option NewInst
  | orig _ => none
  | new n => some n

/-- A function's blocks, while it is being instrumented. -/
abbrev Body := List (List Node)

def Body.ofFunction (F : Function) : Body := F.blocks.map fun b => b.insts.map .orig

def Body.block (body : Body) (b : Nat) : List Node := body[b]?.getD []

/-- `getFirstInsertionPt`: a block from there on. -/
def firstInsertionPt (nodes : List Node) : List Node :=
  match nodes.dropWhile Node.isPhi with
  | [] => []
  | n :: rest => if n.isEHPad then rest else n :: rest

/-! ## Edits -/

/-- Where a builder inserts: before an instruction, or at the entry block's
first insertion point. -/
inductive Point
  | before (r : Ref)
  | front
  deriving DecidableEq, Repr

structure Edit where
  point : Point
  inst : NewInst
  deriving DecidableEq, Repr

def insertBefore (r : Ref) (n : NewInst) : List Node → List Node
  | [] => []
  | x :: rest => if x.ref = r then .new n :: x :: rest else x :: insertBefore r n rest

def insertAtFirstInsertionPt (n : NewInst) (nodes : List Node) : List Node :=
  nodes.take (nodes.length - (firstInsertionPt nodes).length) ++ .new n :: firstInsertionPt nodes

def Body.apply (body : Body) (e : Edit) : Body :=
  match e.point, body with
  | .before r, _ => body.map (insertBefore r e.inst)
  | .front, [] => []
  | .front, entry :: rest => insertAtFirstInsertionPt e.inst entry :: rest

def Body.applyAll (body : Body) (es : List Edit) : Body := es.foldl Body.apply body

end LlvmTracer.Pass
