/-
The size `getMemSize` computes for a type, beside the bits its scalar leaves
take.

A struct's elements are measured one by one. For arrays and vectors it is
LLVM's primitive size of an element that counts, which is zero for pointers,
arrays and structs.
-/
import LlvmTracer.Lib.Run
import LlvmTracer.Pass.Names

namespace LlvmTracer.Pass

open Ir

mutual

/-- Scalars, and what is built of them. A struct must show its fields. -/
def isSized : Ty → Bool
  | .half | .float | .double | .x86FP80 | .fp128 | .ppcFP128 | .integer _ | .pointer _ => true
  | .struct fields => areSized fields
  | .array _ t | .vector _ t => isSized t
  | .void | .label | .metadata | .x86MMX | .token | .function | .named _ => false

def areSized : Fields → Bool
  | .nil => true
  | .cons t ts => isSized t && areSized ts

end

mutual

/-- The bits of a type's scalar leaves. -/
def leafBits : Ty → Nat
  | .pointer _ => 64
  | .half => 16
  | .float => 32
  | .double => 64
  | .x86FP80 => 80
  | .fp128 | .ppcFP128 => 128
  | .integer w => w
  | .struct fields => leafBitsOf fields
  | .array n t | .vector n t => n * leafBits t
  | .void | .label | .metadata | .x86MMX | .token | .function | .named _ => 0

def leafBitsOf : Fields → Nat
  | .nil => 0
  | .cons t ts => leafBits t + leafBitsOf ts

end

/-- Numbers, and vectors of numbers. -/
def isFlat : Ty → Bool
  | .half | .float | .double | .x86FP80 | .fp128 | .ppcFP128 | .integer _ => true
  | .vector _ t => isFlat t
  | .void | .label | .metadata | .x86MMX | .token | .function | .named _ | .pointer _ | .struct _ | .array _ _ => false

mutual

/-- The arrays and vectors have flat elements, or no bits at all. What is only
pointed to does not matter. -/
def FlatArrays : Ty → Prop
  | .array n t | .vector n t => isFlat t = true ∨ n = 0 ∨ leafBits t = 0
  | .struct fields => FlatArraysOf fields
  | _ => True

def FlatArraysOf : Fields → Prop
  | .nil => True
  | .cons t ts => FlatArrays t ∧ FlatArraysOf ts

end

/-! ## Primitive sizes -/

theorem primitiveSizeInBits_of_isFlat : ∀ {t : Ty}, isFlat t = true → t.primitiveSizeInBits = leafBits t
  | .half, _ | .float, _ | .double, _ | .x86FP80, _ | .fp128, _ | .ppcFP128, _ | .integer _, _ => by
    simp [Ty.primitiveSizeInBits, leafBits]
  | .vector n t, h => by
    rw [isFlat] at h
    rw [Ty.primitiveSizeInBits, leafBits, primitiveSizeInBits_of_isFlat h]

theorem primitiveSizeInBits_of_not_isFlat :
    ∀ {t : Ty}, isSized t = true → isFlat t = false → t.primitiveSizeInBits = 0
  | .pointer _, _, _ | .struct _, _, _ | .array _ _, _, _ => by simp [Ty.primitiveSizeInBits]
  | .vector n t, hs, h => by
    rw [isSized] at hs
    rw [isFlat] at h
    rw [Ty.primitiveSizeInBits, primitiveSizeInBits_of_not_isFlat hs h, Nat.mul_zero]

/-- An array's or a vector's size, and when it is that of its leaves. -/
theorem elements_size {n : Nat} {t : Ty} (hs : isSized t = true) (hfits : n * leafBits t < 2 ^ 31) :
    n * t.primitiveSizeInBits % 2 ^ 32 ≤ n * leafBits t ∧
      (n * t.primitiveSizeInBits % 2 ^ 32 = n * leafBits t ↔ isFlat t = true ∨ n = 0 ∨ leafBits t = 0) := by
  cases hflat : isFlat t with
  | true =>
    rw [primitiveSizeInBits_of_isFlat hflat, Nat.mod_eq_of_lt (by omega)]
    exact ⟨Nat.le_refl _, iff_of_true rfl (.inl rfl)⟩
  | false =>
    rw [primitiveSizeInBits_of_not_isFlat hs hflat, Nat.mul_zero, Nat.zero_mod, eq_comm, Nat.mul_eq_zero]
    simp

/-! ## Sizes -/

mutual

/-- The size never exceeds that of the leaves, so no array's loss makes up for another's. -/
theorem getMemSize_le : ∀ {T : Ty}, isSized T = true → leafBits T < 2 ^ 31 →
    ∃ size, getMemSize T = .ok size ∧ size ≤ leafBits T ∧ (size = leafBits T ↔ FlatArrays T)
  | .half, _, _ | .float, _, _ | .double, _, _ | .x86FP80, _, _ | .fp128, _, _ | .ppcFP128, _, _
  | .integer _, _, _ | .pointer _, _, _ => by simp [getMemSize, leafBits, FlatArrays]
  | .array n t, hs, hfits | .vector n t, hs, hfits => by
    rw [isSized] at hs
    rw [leafBits] at hfits ⊢
    rw [FlatArrays]
    exact ⟨_, rfl, elements_size hs hfits⟩
  | .struct fields, hs, hfits => by
    rw [isSized] at hs
    rw [leafBits] at hfits ⊢
    rw [FlatArrays, getMemSize]
    exact getMemSizes_le hs hfits

theorem getMemSizes_le : ∀ {ts : Fields}, areSized ts = true → leafBitsOf ts < 2 ^ 31 →
    ∃ size, getMemSizes ts = .ok size ∧ size ≤ leafBitsOf ts ∧ (size = leafBitsOf ts ↔ FlatArraysOf ts)
  | .nil, _, _ => by simp [getMemSizes, leafBitsOf, FlatArraysOf]
  | .cons t ts, hs, hfits => by
    rw [areSized, Bool.and_eq_true] at hs
    rw [leafBitsOf] at hfits ⊢
    obtain ⟨size, hsize, hle, heq⟩ := getMemSize_le hs.1 (by omega)
    obtain ⟨rest, hrest, hle', heq'⟩ := getMemSizes_le hs.2 (by omega)
    refine ⟨size + rest, ?_, by omega, ?_⟩
    · rw [getMemSizes, hsize, Run.ok_bind, hrest, Run.ok_bind, Nat.mod_eq_of_lt (by omega)]
    · rw [FlatArraysOf, ← heq, ← heq']
      omega

end

/-- On a type whose leaves' bits fit an `int`. -/
theorem getMemSize_eq_leafBits_iff {T : Ty} (hsized : isSized T = true) (hfits : leafBits T < 2 ^ 31) :
    getMemSize T = .ok (leafBits T) ↔ FlatArrays T := by
  obtain ⟨size, hsize, -, heq⟩ := getMemSize_le hsized hfits
  rw [hsize, Except.ok.injEq, heq]

/-- A struct of a number, an array of numbers and a pointer. -/
theorem getMemSize_eq_leafBits_iff_struct :
    getMemSize (.struct (.cons i32 (.cons (.array 4 .float) (.cons (.pointer i8) .nil)))) = .ok 224 := by
  have hflat : FlatArrays (.struct (.cons i32 (.cons (.array 4 .float) (.cons (.pointer i8) .nil)))) := by
    simp [FlatArrays, FlatArraysOf, isFlat]
  exact (getMemSize_eq_leafBits_iff (by decide) (by decide)).2 hflat

/-- The pointers of an array count nothing. -/
theorem getMemSize_ne_leafBits_pointers :
    isSized (.array 2 (.pointer i32)) = true ∧ leafBits (.array 2 (.pointer i32)) = 128 ∧
      getMemSize (.array 2 (.pointer i32)) = .ok 0 := by decide

end LlvmTracer.Pass
