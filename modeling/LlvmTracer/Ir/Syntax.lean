/-
LLVM functions, as far as the passes look at them.

A value carries what LLVM's `Value` object carries of it: an instruction's
result has its instruction's name and type. `Function.WF` says that these
agree with the instruction, and the rest of what the IR verifier ensures.

Loop information is an analysis of LLVM's own, and comes with the function.
-/
import LlvmTracer.Ir.Ty

namespace LlvmTracer.Ir

/-! ## Values -/

/-- The result of an instruction. -/
structure InstRef where
  id : Nat
  name : String
  ty : Ty
  isBitCast : Bool
  deriving DecidableEq, Repr

structure Argument where
  index : Nat
  name : String
  ty : Ty
  deriving DecidableEq, Repr

structure BlockRef where
  index : Nat
  name : String
  deriving DecidableEq, Repr

/-- A global variable's initializer: an array of bytes, another
`ConstantDataArray`, or any other constant. -/
inductive Initializer
  | bytes (data : List UInt8)
  | dataArray
  | other
  deriving DecidableEq, Repr

structure GlobalVariable where
  name : String
  valueType : Ty
  initializer : Option Initializer
  deriving DecidableEq, Repr

/-- A value. The text of a constant tells it from others of its type; a
constant expression shows whether its first operand is a global variable, and
how many bytes behind that variable's start it points. -/
inductive Value
  | inst (r : InstRef)
  | arg (a : Argument)
  | block (b : BlockRef)
  | function (name : String)
  | global (g : GlobalVariable)
  | constExpr (ty : Ty) (text : String) (operand0 : Option (GlobalVariable × Int))
  | constant (ty : Ty) (text : String)
  | undef (ty : Ty)
  | metadata
  deriving DecidableEq, Repr

def Value.ty : Value → Ty
  | inst r => r.ty
  | arg a => a.ty
  | block _ => .label
  | function _ => .pointer .function
  | global g => .pointer g.valueType
  | constExpr ty _ _ | constant ty _ | undef ty => ty
  | metadata => .metadata

/-- `Value::getName`; a constant has none. -/
def Value.name : Value → String
  | inst r => r.name
  | arg a => a.name
  | block b => b.name
  | function name => name
  | global g => g.name
  | constExpr _ _ _ | constant _ _ | undef _ | metadata => ""

def Value.hasName (v : Value) : Bool := v.name ≠ ""

theorem Value.hasName_eq_false {v : Value} : v.hasName = false ↔ v.name = "" := by
  simp [hasName]

/-- `isa<Constant>` -/
def Value.isConstant : Value → Bool
  | function _ | global _ | constExpr _ _ _ | constant _ _ | undef _ => true
  | inst _ | arg _ | block _ | metadata => false

def Value.isBitCast : Value → Bool
  | inst r => r.isBitCast
  | _ => false

def Value.isUndef : Value → Bool
  | undef _ => true
  | _ => false

/-! ## Instructions -/

inductive DbgKind
  | declare | value | addr
  deriving DecidableEq, Repr

/-- A debug intrinsic: the address or value it locates and the local
variable's name, where they are present. -/
structure DbgInfoIntrinsic where
  kind : DbgKind
  location : Option Value
  varName : Option String
  deriving DecidableEq, Repr

/-- A function called directly, with its number of formal parameters. -/
structure Callee where
  name : String
  numParams : Nat
  deriving DecidableEq, Repr

inductive Kind
  | phi (incoming : List BlockRef)
  | call (callee : Option Callee)
  | dbg (d : DbgInfoIntrinsic)
  | invoke
  | alloca (allocated : Ty)
  | bitcast
  | ret
  | other (opcode : Nat)
  deriving DecidableEq, Repr

/-- An instruction. `id` stands for its address. A direct call's last
operand is the function. -/
structure Inst where
  id : Nat
  name : String
  ty : Ty
  kind : Kind
  operands : List Value
  line : Option Nat
  deriving DecidableEq, Repr

/-- The opcode numbers of LLVM 6. -/
def Inst.opcode (i : Inst) : Nat :=
  match i.kind with
  | .ret => 1
  | .invoke => 5
  | .alloca _ => 29
  | .bitcast => 47
  | .phi _ => 53
  | .call _ | .dbg _ => 54
  | .other op => op

def Inst.isPhi (i : Inst) : Bool :=
  match i.kind with
  | .phi _ => true
  | _ => false

/-- A phi's incoming blocks. -/
def Inst.incoming (i : Inst) : List BlockRef :=
  match i.kind with
  | .phi incoming => incoming
  | _ => []

def Inst.isInvoke (i : Inst) : Bool := i.kind = .invoke

/-- `isa<CallInst>`: debug intrinsics are calls too. -/
def Inst.isCall (i : Inst) : Bool :=
  match i.kind with
  | .call _ | .dbg _ => true
  | _ => false

def Inst.isAlloca (i : Inst) : Bool :=
  match i.kind with
  | .alloca _ => true
  | _ => false

def Inst.debug (i : Inst) : Option DbgInfoIntrinsic :=
  match i.kind with
  | .dbg d => some d
  | _ => none

def DbgKind.intrinsic : DbgKind → Callee
  | .declare => ⟨"llvm.dbg.declare", 3⟩
  | .value => ⟨"llvm.dbg.value", 3⟩
  | .addr => ⟨"llvm.dbg.addr", 3⟩

/-- `CallInst::getCalledFunction` -/
def Inst.calledFunction (i : Inst) : Option Callee :=
  match i.kind with
  | .call callee => callee
  | .dbg d => some d.kind.intrinsic
  | _ => none

def Inst.isTerminator (i : Inst) : Bool := 1 ≤ i.opcode ∧ i.opcode ≤ 10

/-- `catchswitch`, `cleanuppad`, `catchpad` and `landingpad`. -/
def Inst.isEHPad (i : Inst) : Bool := i.opcode = 10 ∨ i.opcode = 49 ∨ i.opcode = 50 ∨ i.opcode = 64

def Inst.ref (i : Inst) : InstRef := ⟨i.id, i.name, i.ty, i.kind = .bitcast⟩

/-- The instruction as an operand. -/
def Inst.value (i : Inst) : Value := .inst i.ref

/-! ## Functions -/

structure Block where
  name : String
  insts : List Inst
  deriving DecidableEq, Repr

/-- Of each block: its loop depth, and its innermost loop's preheader and
the line of the loop's start location, where there are such. -/
structure LoopInfo where
  depth : Nat → Nat
  preheader : Nat → Option Nat
  startLine : Nat → Option Nat

structure Function where
  name : String
  params : List (String × Ty)
  blocks : List Block
  loops : LoopInfo

def Function.insts (F : Function) : List Inst := F.blocks.flatMap Block.insts

/-- The formal arguments. -/
def Function.args (F : Function) : List Argument := F.params.mapIdx fun i p => ⟨i, p.1, p.2⟩

def Function.blockRefs (F : Function) : List BlockRef := F.blocks.mapIdx fun i b => ⟨i, b.name⟩

/-- `BasicBlock::getTerminator` -/
def Block.terminator (b : Block) : Option Inst := b.insts.getLast?.filter Inst.isTerminator

def Function.terminator (F : Function) (b : Nat) : Option Inst := F.blocks[b]?.bind Block.terminator

/-! ## Local slots -/

/-- The values of a block that have a slot: the block if unnamed, and its
unnamed results. -/
def slotsOfBlock (i : Nat) (b : Block) : List Value :=
  (if b.name = "" then [.block ⟨i, b.name⟩] else []) ++
    (b.insts.filter fun I => I.ty ≠ .void ∧ I.name = "").map Inst.value

/-- The values with a local slot, in the order of their numbers: unnamed
arguments, and then block by block. -/
def Function.slots (F : Function) : List Value :=
  (F.args.filter fun a => a.name = "").map .arg ++ (F.blocks.mapIdx slotsOfBlock).flatten

/-- `getLocalSlot`, on values that are not constants. -/
def Function.localSlot (F : Function) (v : Value) : Int :=
  match F.slots.idxOf? v with
  | some n => n
  | none => -1

end LlvmTracer.Ir
