/-
LLVM types, as far as the passes look at them: the type ids, and the sizes
`Type` computes.

A struct that is only pointed to may stand by its name, so that a type can
point to itself.
-/

namespace LlvmTracer.Ir

/-- `Type::TypeID`, in its order. -/
inductive TypeID
  | void | half | float | double | x86FP80 | fp128 | ppcFP128 | label | metadata | x86MMX | token
  | integer | function | struct | array | pointer | vector
  deriving DecidableEq, Repr

mutual

inductive Ty
  | void | half | float | double | x86FP80 | fp128 | ppcFP128 | label | metadata | x86MMX | token
  | integer (width : Nat)
  | function
  | struct (fields : Fields)
  | named (name : String)
  | array (n : Nat) (elem : Ty)
  | pointer (pointee : Ty)
  | vector (n : Nat) (elem : Ty)
  deriving DecidableEq, Repr

/-- The fields of a struct. -/
inductive Fields
  | nil
  | cons (t : Ty) (ts : Fields)
  deriving DecidableEq, Repr

end

def Ty.typeID : Ty → TypeID
  | void => .void
  | half => .half
  | float => .float
  | double => .double
  | x86FP80 => .x86FP80
  | fp128 => .fp128
  | ppcFP128 => .ppcFP128
  | label => .label
  | metadata => .metadata
  | x86MMX => .x86MMX
  | token => .token
  | integer _ => .integer
  | function => .function
  | struct _ | named _ => .struct
  | array _ _ => .array
  | pointer _ => .pointer
  | vector _ _ => .vector

/-- `HalfTyID <= id && id <= PPC_FP128TyID` -/
def TypeID.isFloatingPoint : TypeID → Bool
  | half | float | double | x86FP80 | fp128 | ppcFP128 => true
  | _ => false

/-- `Type::getPrimitiveSizeInBits`: zero for pointers and aggregates. -/
def Ty.primitiveSizeInBits : Ty → Nat
  | half => 16
  | float => 32
  | double => 64
  | x86FP80 => 80
  | fp128 => 128
  | ppcFP128 => 128
  | x86MMX => 64
  | integer w => w
  | vector n t => n * t.primitiveSizeInBits
  | _ => 0

abbrev i8 : Ty := .integer 8
abbrev i32 : Ty := .integer 32
abbrev i64 : Ty := .integer 64

end LlvmTracer.Ir
