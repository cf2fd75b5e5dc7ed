/-
What the functions of `Pass.Lines` insert.

`LineEdits` is every way a parameter line comes out, `InstEdits` what is
inserted for an instruction: its first line, its operands' lines, a status
update if it is a return, and its result's line. `InstEdits.rel` takes a
relation that composes from single insertions to an instruction.
-/
import LlvmTracer.Lib.Run
import LlvmTracer.Pass.Tracer

namespace LlvmTracer.Pass

open Ir Emit

/-! ## One line -/

def Gen.next (g : Gen) (n : Nat) : Gen := { g with serial := g.serial + n }

@[simp] theorem Gen.next_serial (g : Gen) (n : Nat) : (g.next n).serial = g.serial + n := rfl
@[simp] theorem Gen.next_vectorBuffers (g : Gen) (n : Nat) : (g.next n).vectorBuffers = g.vectorBuffers := rfl
@[simp] theorem Gen.next_slotToVarName (g : Gen) (n : Nat) : (g.next n).slotToVarName = g.slotToVarName := rfl

/-- The types a line is printed for. -/
def isHandled (t : TypeID) : Bool :=
  t = .integer || t.isFloatingPoint || t = .pointer || t = .vector

/-- An argument that needs no inserted instruction. -/
def LogValue.IsDirect (value : Option Value) : LogValue → Prop
  | .value v | .folded _ v => value = some v
  | .node _ => False
  | .zero | .string _ => True

/-- The logger a value goes to, and the cast for it. A pointer of an intrinsic's
call is not cast. -/
def InstOperandParams.cast? (p : InstOperandParams) : Option (ParamLogger × CastOp) :=
  if p.datatype = .integer then some (.int, .zext)
  else if p.datatype.isFloatingPoint then some (.double, .fpext)
  else if p.datatype = .pointer ∧ p.isIntrinsic = false then some (.ptr, .ptrToInt)
  else none

/-- A value's logger and argument, where no instruction is inserted for it. -/
inductive PassedAs (p : InstOperandParams) (v : Value) : ParamLogger → LogValue → Prop
  | same {logger : ParamLogger} {op : CastOp} : p.cast? = some (logger, op) → op.isIdentity v.ty = true →
      PassedAs p v logger (.value v)
  | folded {logger : ParamLogger} {op : CastOp} : p.cast? = some (logger, op) → op.isIdentity v.ty = false →
      PassedAs p v logger (.folded op v)
  | intrinsic : p.datatype = .pointer → p.isIntrinsic = true → PassedAs p v .ptr .zero
  | string {s : String} : p.isIntrinsic = false → stringValue v = .ok (some s) → PassedAs p v .string (.string s)

/-- The store into a buffer, the cast of its address, and the call, from the
serial number `n` on. -/
def vectorEdits (pt : Point) (pu : Purpose) (p : InstOperandParams) (n : Nat) (buffer : Nat) (key : VecBufKey)
    (v : Value) : List Edit :=
  [⟨pt, n, pu, .store v buffer key.2.1⟩, ⟨pt, n + 1, pu, .pointerCast buffer⟩,
    ⟨pt, n + 2, pu, .call (p.call .vector (.node (n + 1)))⟩]

inductive LineEdits (pt : Point) (pu : Purpose) (p : InstOperandParams) (g : Gen) : List Edit → Gen → Prop
  | direct (logger : ParamLogger) (x : LogValue) : p.value = none ∨ isHandled p.datatype → x.IsDirect p.value →
      (∀ v, p.value = some v → PassedAs p v logger x) → LineEdits pt pu p g [⟨pt, g.serial, pu, .call (p.call logger x)⟩] (g.next 1)
  | cast (logger : ParamLogger) (op : CastOp) (v : Value) : p.value = some v → v.isConstant = false →
      isHandled p.datatype → p.cast? = some (logger, op) → op.isIdentity v.ty = false →
      LineEdits pt pu p g
        [⟨pt, g.serial, pu, .cast op v⟩, ⟨pt, g.serial + 1, pu, .call (p.call logger (.node g.serial))⟩] (g.next 2)
  | vector (v : Value) (key : VecBufKey) (buffer : Buffer) : p.value = some v → p.datatype = .vector →
      createVecBufKey v.ty = some key → g.vectorBuffers.lookup key = some buffer → buffer.allocated = v.ty →
      LineEdits pt pu p g (vectorEdits pt pu p g.serial buffer.serial key v) (g.next 3)
  | newVector (v : Value) (key : VecBufKey) : p.value = some v → p.datatype = .vector →
      createVecBufKey v.ty = some key → g.vectorBuffers.lookup key = none →
      LineEdits pt pu p g (⟨.front, g.serial, pu, .alloca v.ty⟩ :: vectorEdits pt pu p (g.serial + 1) g.serial key v)
        { g.next 4 with vectorBuffers := (key, ⟨g.serial, v.ty⟩) :: g.vectorBuffers }
  | unhandled : p.value ≠ none → isHandled p.datatype = false → LineEdits pt pu p g [] g

@[simp] theorem runs_refuse {α : Type} {r : Refusal} {g g' : Gen} {a : α} {es : List Edit} :
    Runs (refuse r : Tracing α) g a es g' ↔ False := by
  simp [refuse]

@[simp] theorem runs_insert {pt : Point} {pu : Purpose} {op : Op} {g g' : Gen} {n : Nat} {es : List Edit} :
    Runs (insert pt pu op) g n es g' ↔ n = g.serial ∧ es = [⟨pt, g.serial, pu, op⟩] ∧ g' = g.next 1 := by
  simp only [insert, runs_bind, runs_get, runs_tell, runs_modify, runs_pure]
  constructor
  · rintro ⟨_, _, _, _, ⟨rfl, rfl, rfl⟩, ⟨_, _, _, _, ⟨rfl, rfl⟩, ⟨_, _, _, _, ⟨rfl, rfl⟩, ⟨rfl, rfl, rfl⟩, rfl⟩, rfl⟩, rfl⟩
    exact ⟨rfl, rfl, rfl⟩
  · rintro ⟨rfl, rfl, rfl⟩
    exact ⟨g, [], g, _, ⟨rfl, rfl, rfl⟩,
      ⟨(), _, g, _, ⟨rfl, rfl⟩, ⟨(), _, _, _, ⟨rfl, rfl⟩, ⟨rfl, rfl, rfl⟩, rfl⟩, rfl⟩, rfl⟩

@[simp] theorem runs_insertCall {pt : Point} {pu : Purpose} {k : LogCall} {g g' : Gen} {u : Unit} {es : List Edit} :
    Runs (insertCall pt pu k) g u es g' ↔ es = [⟨pt, g.serial, pu, .call k⟩] ∧ g' = g.next 1 := by
  simp only [insertCall, runs_bind, runs_insert, runs_pure, true_and]
  constructor
  · rintro ⟨_, _, _, _, ⟨rfl, rfl, rfl⟩, ⟨rfl, rfl⟩, rfl⟩
    exact ⟨rfl, rfl⟩
  · rintro ⟨rfl, rfl⟩
    exact ⟨_, _, _, _, ⟨rfl, rfl, rfl⟩, ⟨rfl, rfl⟩, rfl⟩

theorem createCast_cases {pt : Point} {pu : Purpose} {op : CastOp} {v : Value} {g g' : Gen} {x : LogValue}
    {es : List Edit} (h : Runs (createCast pt pu op v) g x es g') :
    (op.isIdentity v.ty = true ∧ x = .value v ∨ op.isIdentity v.ty = false ∧ x = .folded op v) ∧ es = [] ∧ g' = g ∨
      op.isIdentity v.ty = false ∧ v.isConstant = false ∧ x = .node g.serial ∧ es = [⟨pt, g.serial, pu, .cast op v⟩] ∧
        g' = g.next 1 := by
  unfold createCast at h
  split at h
  · exact absurd h (by simp)
  · split at h
    · rename_i hid
      obtain ⟨rfl, rfl, rfl⟩ := runs_pure.1 h
      exact .inl ⟨.inl ⟨hid, rfl⟩, rfl, rfl⟩
    · rename_i hid
      have hid : op.isIdentity v.ty = false := by simpa using hid
      split at h
      · obtain ⟨rfl, rfl, rfl⟩ := runs_pure.1 h
        exact .inl ⟨.inr ⟨hid, rfl⟩, rfl, rfl⟩
      · rename_i hc
        simp only [runs_bind, runs_insert, runs_pure] at h
        obtain ⟨_, _, _, _, ⟨rfl, rfl, rfl⟩, ⟨rfl, rfl, rfl⟩, rfl⟩ := h
        exact .inr ⟨hid, by simpa using hc, rfl, rfl, rfl⟩

theorem exists_runs_createCast {pt : Point} {pu : Purpose} {op : CastOp} {v : Value} {g : Gen}
    (h : op.accepts v.ty = true) : ∃ x es g', Runs (createCast pt pu op v) g x es g' := by
  unfold createCast
  rw [if_neg (by simp [h])]
  split
  · exact ⟨_, _, _, runs_pure.2 ⟨rfl, rfl, rfl⟩⟩
  · split
    · exact ⟨_, _, _, runs_pure.2 ⟨rfl, rfl, rfl⟩⟩
    · exact ⟨_, _, _, runs_bind.2 ⟨_, _, _, _, runs_insert.2 ⟨rfl, rfl, rfl⟩, runs_pure.2 ⟨rfl, rfl, rfl⟩, rfl⟩⟩

/-- A line whose value is cast. -/
theorem castLine_edits {pt : Point} {pu : Purpose} {p : InstOperandParams} {op : CastOp} {v : Value}
    {logger : ParamLogger} {x : LogValue} {g g₁ : Gen} {es : List Edit} (hv : p.value = some v)
    (ht : isHandled p.datatype = true) (hcast : p.cast? = some (logger, op))
    (h : Runs (createCast pt pu op v) g x es g₁) :
    LineEdits pt pu p g (es ++ [⟨pt, g₁.serial, pu, .call (p.call logger x)⟩]) (g₁.next 1) := by
  rcases createCast_cases h with ⟨⟨hid, rfl⟩ | ⟨hid, rfl⟩, rfl, rfl⟩ | ⟨hid, hc, rfl, rfl, rfl⟩
  · refine .direct logger _ (.inr ht) hv fun w hw => ?_
    rw [hv] at hw
    cases hw
    exact .same hcast hid
  · refine .direct logger _ (.inr ht) hv fun w hw => ?_
    rw [hv] at hw
    cases hw
    exact .folded hcast hid
  · exact .cast logger op v hv hc ht hcast hid

theorem castAndCall_edits {pt : Point} {pu : Purpose} {p : InstOperandParams} {op : CastOp} {v : Value}
    {logger : ParamLogger} {g g' : Gen} {u : Unit} {es : List Edit} (hv : p.value = some v)
    (ht : isHandled p.datatype = true) (hcast : p.cast? = some (logger, op))
    (h : Runs (createCast pt pu op v >>= fun x => insertCall pt pu (p.call logger x)) g u es g') :
    LineEdits pt pu p g es g' := by
  obtain ⟨x, o₁, g₁, o₂, h₁, h₂, rfl⟩ := runs_bind.1 h
  obtain ⟨rfl, rfl⟩ := runs_insertCall.1 h₂
  exact castLine_edits hv ht hcast h₁

theorem isConstant_of_stringValue {v : Value} {s : String} (h : stringValue v = .ok (some s)) :
    v.isConstant = true := by
  unfold stringValue at h
  split at h
  · rfl
  · cases h

theorem pointerLine_edits {pt : Point} {pu : Purpose} {p : InstOperandParams} {v : Value} {g g' : Gen} {u : Unit}
    {es : List Edit} (hv : p.value = some v) (hptr : p.datatype = .pointer)
    (h : Runs (printPointerLine pt pu p v) g u es g') : LineEdits pt pu p g es g' := by
  have ht : isHandled p.datatype = true := by simp [isHandled, hptr]
  unfold printPointerLine at h
  split at h
  · rename_i hintr
    obtain ⟨rfl, rfl⟩ := runs_insertCall.1 h
    exact .direct .ptr .zero (.inr ht) trivial fun _ _ => .intrinsic hptr hintr
  · rename_i hintr
    have hcast : p.cast? = some (.ptr, .ptrToInt) := by
      simp [InstOperandParams.cast?, hptr, hintr, TypeID.isFloatingPoint]
    obtain ⟨x, o₁, g₁, o₂, h₁, h₂, rfl⟩ := runs_bind.1 h
    obtain ⟨str, o₃, g₂, o₄, h₃, h₄, rfl⟩ := runs_bind.1 h₂
    obtain ⟨hs, rfl, rfl⟩ := runs_lift.1 h₃
    split at h₄
    · obtain ⟨rfl, rfl⟩ := runs_insertCall.1 h₄
      rcases createCast_cases h₁ with ⟨-, rfl, rfl⟩ | ⟨-, hc, -⟩
      · refine .direct .string _ (.inr ht) trivial fun w hw => ?_
        rw [hv] at hw
        cases hw
        exact .string (by simpa using hintr) hs
      · exact absurd (isConstant_of_stringValue hs) (by simp [hc])
    · obtain ⟨rfl, rfl⟩ := runs_insertCall.1 h₄
      exact castLine_edits hv ht hcast h₁

theorem vectorBuffer_cases {pu : Purpose} {ty : Ty} {key : VecBufKey} {g g' : Gen} {buffer : Buffer} {es : List Edit}
    (h : Runs (vectorBuffer pu ty key) g buffer es g') :
    g.vectorBuffers.lookup key = some buffer ∧ es = [] ∧ g' = g ∨
      g.vectorBuffers.lookup key = none ∧ buffer = ⟨g.serial, ty⟩ ∧ es = [⟨.front, g.serial, pu, .alloca ty⟩] ∧
        g' = { g.next 1 with vectorBuffers := (key, ⟨g.serial, ty⟩) :: g.vectorBuffers } := by
  unfold vectorBuffer at h
  obtain ⟨s, o₁, g₁, o₂, h₁, h₂, rfl⟩ := runs_bind.1 h
  obtain ⟨rfl, rfl, rfl⟩ := runs_get.1 h₁
  split at h₂
  · rename_i b hb
    obtain ⟨rfl, rfl, rfl⟩ := runs_pure.1 h₂
    exact .inl ⟨hb, rfl, rfl⟩
  · rename_i hn
    simp only [runs_bind, runs_insert, runs_modify, runs_pure] at h₂
    obtain ⟨_, _, _, _, ⟨rfl, rfl, rfl⟩, ⟨_, _, _, _, ⟨rfl, rfl⟩, ⟨rfl, rfl, rfl⟩, rfl⟩, rfl⟩ := h₂
    exact .inr ⟨hn, rfl, rfl, rfl⟩

theorem vectorLine_edits {pt : Point} {pu : Purpose} {p : InstOperandParams} {v : Value} {g g' : Gen} {u : Unit}
    {es : List Edit} (hv : p.value = some v) (ht : p.datatype = .vector)
    (h : Runs (createVectorArg pt pu v >>= fun x => insertCall pt pu (p.call .vector x)) g u es g') :
    LineEdits pt pu p g es g' := by
  obtain ⟨x, o₁, g₁, o₂, h₁, h₂, rfl⟩ := runs_bind.1 h
  obtain ⟨rfl, rfl⟩ := runs_insertCall.1 h₂
  unfold createVectorArg at h₁
  split at h₁
  · exact absurd h₁ (by simp)
  · rename_i key hk
    obtain ⟨buffer, o₃, g₃, o₄, h₃, h₄, rfl⟩ := runs_bind.1 h₁
    split at h₄
    · exact absurd h₄ (by simp)
    · rename_i hty
      split at h₄
      · exact absurd h₄ (by simp)
      simp only [runs_bind, runs_insert, runs_pure] at h₄
      obtain ⟨_, _, _, _, ⟨rfl, rfl, rfl⟩, ⟨_, _, _, _, ⟨rfl, rfl, rfl⟩, ⟨rfl, rfl, rfl⟩, rfl⟩, rfl⟩ := h₄
      rcases vectorBuffer_cases h₃ with ⟨hb, rfl, rfl⟩ | ⟨hn, rfl, rfl, rfl⟩
      · exact .vector v key buffer hv ht hk hb (not_not.1 hty)
      · exact .newVector v key hv ht hk hn

theorem printParamLine_edits {pt : Point} {pu : Purpose} {p : InstOperandParams} {g g' : Gen} {u : Unit}
    {es : List Edit} (h : Runs (printParamLine pt pu p) g u es g') : LineEdits pt pu p g es g' := by
  unfold printParamLine at h
  split at h
  · rename_i hv
    obtain ⟨rfl, rfl⟩ := runs_insertCall.1 h
    refine .direct .int .zero (.inl hv) trivial fun v hv' => ?_
    rw [hv] at hv'
    cases hv'
  · rename_i v hv
    split at h
    · rename_i ht
      exact castAndCall_edits hv (by simp [isHandled, ht]) (by simp [InstOperandParams.cast?, ht]) h
    · split at h
      · rename_i hint ht
        exact castAndCall_edits hv (by simp [isHandled, ht]) (by simp [InstOperandParams.cast?, hint, ht]) h
      · split at h
        · rename_i ht
          exact pointerLine_edits hv ht h
        · split at h
          · rename_i ht
            exact vectorLine_edits hv ht h
          · rename_i h₁ h₂ h₃ h₄
            obtain ⟨-, rfl, rfl⟩ := runs_pure.1 h
            exact .unhandled (by simp [hv]) (by simp [isHandled, h₁, h₂, h₃, h₄])

theorem LineEdits.slotToVarName {pt : Point} {pu : Purpose} {p : InstOperandParams} {g g' : Gen} {es : List Edit}
    (h : LineEdits pt pu p g es g') : g'.slotToVarName = g.slotToVarName := by
  cases h <;> rfl

/-! ## What a line is about -/

/-- A line is printed about the operand `v` of `I`. A line without a value
is printed whatever the type: for a phi's operand that is an instruction, and
for other instructions' labels. -/
def printsOperand (I : Inst) (v : Value) : Bool :=
  match v with
  | .inst r => I.isPhi || isHandled r.ty.typeID
  | .function _ => true
  | _ => isHandled v.ty.typeID || (v.ty.typeID = .label && !I.isPhi)

/-- A call of an intrinsic. -/
def callsIntrinsic (I : Inst) : Bool := I.calledFunction.any fun callee => isIntrinsic callee.name

/-- A line about operand `k` of `I`, which is `v`. -/
structure OperandSpec (c : Ctx) (slots : List (Nat × String)) (I : Inst) (k : Nat) (v : Value)
    (p : InstOperandParams) : Prop where
  paramNum : p.paramNum = k + 1
  datatype : p.datatype = v.ty.typeID
  value : p.value = none ∨ p.value = some v
  /-- A value that comes into a phi is not read. -/
  incoming : I.isPhi = true → ∀ r, v = .inst r → p.value = none
  printed : (p.value = none ∨ isHandled p.datatype = true) ↔ printsOperand I v = true
  name : ∀ r, v = .inst r → ∃ n, c.getInstId slots r none = .ok (p.operandName, p.isReg, n)
  intrinsic : p.isIntrinsic = callsIntrinsic I
  /-- Labels and functions have no value. -/
  valued : I.isPhi = false → v.ty.typeID ≠ .label → (∀ name, v ≠ .function name) → p.value = some v
  datasize : getMemSize v.ty = .ok p.datasize

/-- The result line of `I`. -/
structure ResultSpec (I : Inst) (instid : String) (p : InstOperandParams) : Prop where
  paramNum : p.paramNum = resultLine
  datatype : p.datatype = I.ty.typeID
  value : p.value = some I.value
  name : p.operandName = instid
  intrinsic : p.isIntrinsic = false
  datasize : getMemSize I.ty = .ok p.datasize

section

variable {c : Ctx} {slots : List (Nat × String)} {I : Inst} {k : Nat} {v : Value} {p : InstOperandParams}

theorem calledFunction_of_isPhi (h : I.isPhi = true) : I.calledFunction = none := by
  unfold Inst.isPhi at h
  unfold Inst.calledFunction
  split at h <;> simp_all

theorem callsIntrinsic_of_none (h : I.calledFunction = none) : callsIntrinsic I = false := by
  simp [callsIntrinsic, h]

theorem callsIntrinsic_of_some {callee : Callee} (h : I.calledFunction = some callee) :
    callsIntrinsic I = isIntrinsic callee.name := by
  simp [callsIntrinsic, h]

theorem phiOperand_spec {source : BlockRef} (hI : I.isPhi = true) (h : c.phiOperand slots k v source = .ok p) :
    OperandSpec c slots I k v p := by
  have hintr := callsIntrinsic_of_none (calledFunction_of_isPhi hI)
  simp only [Ctx.phiOperand, Run.bind_eq_ok] at h
  obtain ⟨prevBbid, -, datasize, hsize, h⟩ := h
  split at h
  · obtain ⟨id, hid, h⟩ := Run.bind_eq_ok.1 h
    cases h
    exact ⟨rfl, rfl, .inl rfl, fun _ _ _ => rfl, by simp [printsOperand, hI],
      fun r hr => by cases hr; exact ⟨id.2.2, hid⟩, hintr.symm, by simp [hI], hsize⟩
  · rename_i hne
    obtain ⟨name, -, h⟩ := Run.bind_eq_ok.1 h
    cases h
    refine ⟨rfl, rfl, .inr rfl, fun _ r hr => absurd hr (hne r), ?_, fun r hr => absurd hr (hne r), hintr.symm,
      by simp [hI], hsize⟩
    cases v <;> simp_all [printsOperand, isHandled, Value.ty, Ty.typeID]

theorem plainOperand_spec (hI : I.isPhi = false) (hcall : I.calledFunction = none)
    (h : c.plainOperand slots k v = .ok p) : OperandSpec c slots I k v p := by
  have hintr := callsIntrinsic_of_none hcall
  simp only [Ctx.plainOperand, Run.bind_eq_ok] at h
  obtain ⟨datasize, hsize, name, -, h⟩ := h
  split at h
  · obtain ⟨id, hid, h⟩ := Run.bind_eq_ok.1 h
    cases h
    exact ⟨rfl, rfl, .inr rfl, by simp [hI], by simp [printsOperand, hI, Value.ty],
      fun r hr => by cases hr; exact ⟨id.2.2, hid⟩, hintr.symm, fun _ _ _ => rfl, hsize⟩
  · rename_i name'
    cases h
    exact ⟨rfl, rfl, .inl rfl, by simp [hI], by simp [printsOperand], fun r hr => (by cases hr), hintr.symm,
      fun _ _ hne => absurd rfl (hne name'), hsize⟩
  · rename_i hne hnf
    have hprints : printsOperand I v = (isHandled v.ty.typeID || v.ty.typeID = .label) := by
      cases v <;> simp_all [printsOperand]
    split at h
    · rename_i hty
      cases h
      exact ⟨rfl, rfl, .inr rfl, by simp [hI], by simp [hprints, hty, isHandled], fun r hr => absurd hr (hne r),
        hintr.symm, fun _ _ _ => rfl, hsize⟩
    · split at h
      · rename_i hty
        obtain ⟨id, -, h⟩ := Run.bind_eq_ok.1 h
        cases h
        exact ⟨rfl, rfl, .inl rfl, by simp [hI], by simp [hprints, hty], fun r hr => absurd hr (hne r), hintr.symm,
          fun _ hlabel _ => absurd hty hlabel, hsize⟩
      · rename_i hty
        cases h
        exact ⟨rfl, rfl, .inr rfl, by simp [hI], by simp [hprints, hty], fun r hr => absurd hr (hne r), hintr.symm,
          fun _ _ _ => rfl, hsize⟩

theorem callOperand_spec {callee : Callee} (hI : I.isPhi = false) (hcall : I.calledFunction = some callee)
    (h : c.callOperand slots callee.name k v = .ok p) : OperandSpec c slots I k v p := by
  have hintr := callsIntrinsic_of_some hcall
  simp only [Ctx.callOperand, Run.bind_eq_ok] at h
  obtain ⟨datasize, hsize, name, -, h⟩ := h
  split at h
  · obtain ⟨id, hid, h⟩ := Run.bind_eq_ok.1 h
    cases h
    exact ⟨rfl, rfl, .inr rfl, by simp [hI], by simp [printsOperand, hI, Value.ty],
      fun r hr => by cases hr; exact ⟨id.2.2, hid⟩, hintr.symm, fun _ _ _ => rfl, hsize⟩
  · rename_i name'
    cases h
    exact ⟨rfl, rfl, .inl rfl, by simp [hI], by simp [printsOperand], fun r hr => (by cases hr), hintr.symm,
      fun _ _ hne => absurd rfl (hne name'), hsize⟩
  · rename_i hne hnf
    have hprints : printsOperand I v = (isHandled v.ty.typeID || v.ty.typeID = .label) := by
      cases v <;> simp_all [printsOperand]
    split at h
    · rename_i hty
      obtain ⟨id, -, h⟩ := Run.bind_eq_ok.1 h
      cases h
      exact ⟨rfl, rfl, .inl rfl, by simp [hI], by simp [hprints, hty], fun r hr => absurd hr (hne r), hintr.symm,
        fun _ hlabel _ => absurd hty hlabel, hsize⟩
    · rename_i hty
      cases h
      exact ⟨rfl, rfl, .inr rfl, by simp [hI], by simp [hprints, hty], fun r hr => absurd hr (hne r), hintr.symm,
        fun _ _ _ => rfl, hsize⟩

theorem calleeParams_spec {callee : Callee} {n : Nat} (hcall : I.calledFunction = some callee)
    (h : Ctx.calleeParams callee.name (n + 1) = .ok p) : OperandSpec c slots I n (.function callee.name) p := by
  simp only [Ctx.calleeParams, Run.bind_eq_ok] at h
  obtain ⟨name, -, datasize, hsize, h⟩ := h
  split at h
  · cases h
    exact ⟨rfl, rfl, .inr rfl, by simp, by simp [printsOperand, Value.ty, Ty.typeID, isHandled],
      fun r hr => (by cases hr), (callsIntrinsic_of_some hcall).symm, fun _ _ _ => rfl, hsize⟩
  · cases h

theorem resultParams_spec {instid prevBbid : String} (h : Ctx.resultParams I instid prevBbid = .ok p) :
    ResultSpec I instid p := by
  obtain ⟨datasize, hsize, h⟩ := Run.bind_eq_ok.1 h
  split at h
  · cases h
  · cases h
    exact ⟨rfl, rfl, rfl, rfl, rfl, hsize⟩

end

/-! ## The lines of an instruction -/

/-- The operands a line is printed for, in order, each with its index: a
call's callee and then its formal parameters' arguments, and any other
instruction's operands from the last to the first. -/
def printedOperands (I : Inst) : List (Value × Nat) :=
  match I.calledFunction with
  | some callee => (.function callee.name, I.operands.length - 1) :: (I.operands.take callee.numParams).zipIdx
  | none => Ctx.operandsDescending I

/-- Lines inserted at `pt`, for operands of `I`. -/
inductive OperandLines (c : Ctx) (pt : Point) (I : Inst) : List (Value × Nat) → Gen → List Edit → Gen → Prop
  | nil (g : Gen) : OperandLines c pt I [] g [] g
  | cons {v : Value} {k : Nat} {xs : List (Value × Nat)} {p : InstOperandParams} {g g₁ g' : Gen} {es es' : List Edit} :
      OperandSpec c g.slotToVarName I k v p → LineEdits pt (.operand I.id k) p g es g₁ →
      OperandLines c pt I xs g₁ es' g' → OperandLines c pt I ((v, k) :: xs) g (es ++ es') g'

/-- The slot names after the result line of `I`. -/
def Ctx.renamed (c : Ctx) (slots : List (Nat × String)) (I : Inst) : List (Nat × String) :=
  match c.bitcastName slots I with
  | none => slots
  | some name => (slotKey (c.func.localSlot I.value), name) :: slots

/-- The result line, inserted at `pt`. -/
inductive ResultLine (c : Ctx) (pt : Point) (I : Inst) (instid : String) (g : Gen) : List Edit → Gen → Prop
  | void : I.ty = .void → ResultLine c pt I instid g [] g
  | line {p : InstOperandParams} {es : List Edit} {g' : Gen} : I.ty ≠ .void →
      ResultSpec I ((c.bitcastName g.slotToVarName I).getD instid) p →
      LineEdits pt (.result I.id) p { g with slotToVarName := c.renamed g.slotToVarName I } es g' →
      ResultLine c pt I instid g es g'

def firstEdit (c : Ctx) (pt : Point) (I : Inst) (env : InstEnv) (opcode n : Nat) : Edit :=
  ⟨pt, n, .first I.id, .call (.log0 env.lineNumber env.funcName env.bbid env.instid
    (if env.toFxpt then opcodeToFixedPoint opcode else opcode) (c.cfg.isTrackedFunction env.funcName)
    c.cfg.isToplevelMode)⟩

/-- The status update before a return. -/
inductive StatusEdits (c : Ctx) (pt : Point) (I : Inst) (env : InstEnv) (g : Gen) : List Edit → Gen → Prop
  | none : I.kind ≠ .ret → StatusEdits c pt I env g [] g
  | ret : I.kind = .ret →
      StatusEdits c pt I env g [⟨pt, g.serial, .ret I.id, .call (.updateStatus env.funcName 1
        (c.cfg.isTrackedFunction env.funcName) c.cfg.isToplevelMode)⟩] (g.next 1)

/-- What is inserted for `I`: at `pt`, and its result line at `next`. -/
structure InstEdits (c : Ctx) (pt next : Point) (I : Inst) (env : InstEnv) (g : Gen) (es : List Edit) (g' : Gen) :
    Prop where
  parts : ∃ opcode ops g₁ status g₂ result,
    es = firstEdit c pt I env opcode g.serial :: (ops ++ (status ++ result)) ∧
    OperandLines c pt I (printedOperands I) (g.next 1) ops g₁ ∧
    StatusEdits c pt I env g₁ status g₂ ∧
    ResultLine c next I env.instid g₂ result g'

section

variable {c : Ctx} {I : Inst} {pt : Point} {g g' : Gen} {es : List Edit}

theorem printLine_cases {pu : Purpose} {params : List (Nat × String) → Except Refusal InstOperandParams} {u : Unit}
    (h : Runs (printLine pt pu params) g u es g') :
    ∃ p, params g.slotToVarName = .ok p ∧ LineEdits pt pu p g es g' := by
  simp only [printLine, runs_bind, runs_get, runs_lift] at h
  obtain ⟨_, _, _, _, ⟨rfl, rfl, rfl⟩, ⟨p, _, _, es', ⟨hp, rfl, rfl⟩, hline, rfl⟩, rfl⟩ := h
  exact ⟨p, hp, printParamLine_edits hline⟩

theorem forM_operandLines {params : Value × Nat → List (Nat × String) → Except Refusal InstOperandParams} :
    ∀ {xs : List (Value × Nat)} {g : Gen} {es : List Edit} {u : Unit},
      (∀ x ∈ xs, ∀ slots p, params x slots = .ok p → OperandSpec c slots I x.2 x.1 p) →
      Runs (forM xs fun x => printLine pt (.operand I.id x.2) (params x)) g u es g' →
      OperandLines c pt I xs g es g'
  | [], _, _, _, _, h => by
    obtain ⟨rfl, rfl⟩ := runs_forM_nil.1 h
    exact .nil _
  | x :: xs, _, _, _, hspec, h => by
    obtain ⟨o₁, g₁, o₂, h₁, h₂, rfl⟩ := runs_forM_cons.1 h
    obtain ⟨p, hp, hline⟩ := printLine_cases h₁
    exact .cons (hspec x List.mem_cons_self _ p hp) hline
      (forM_operandLines (fun y hy => hspec y (List.mem_cons_of_mem x hy)) h₂)

theorem fit_eq {text name : String} (h : fit text = .ok name) : name = text := by
  unfold fit at h
  split at h
  · exact (Except.ok.inj h).symm
  · cases h

theorem printFirstLine_cases {env : InstEnv} {opcode : Nat} {u : Unit}
    (h : Runs (c.printFirstLine pt I env opcode) g u es g') :
    es = [firstEdit c pt I env opcode g.serial] ∧ g' = g.next 1 := by
  simp only [Ctx.printFirstLine, runs_bind, runs_lift, runs_insertCall] at h
  obtain ⟨name, _, _, _, ⟨hname, rfl, rfl⟩, ⟨rfl, rfl⟩, rfl⟩ := h
  rw [fit_eq hname]
  exact ⟨rfl, rfl⟩

theorem updateTracerStatus_cases {pu : Purpose} {funcName : String} {toFxpt : Bool} {opcode : Nat} {u : Unit}
    (h : Runs (c.updateTracerStatus pt pu funcName toFxpt opcode) g u es g') :
    es = [⟨pt, g.serial, pu, .call (.updateStatus funcName
      (if toFxpt then opcodeToFixedPoint opcode else opcode) (c.cfg.isTrackedFunction funcName)
      c.cfg.isToplevelMode)⟩] ∧ g' = g.next 1 := by
  simp only [Ctx.updateTracerStatus, runs_bind, runs_lift, runs_insertCall] at h
  obtain ⟨name, _, _, _, ⟨hname, rfl, rfl⟩, ⟨rfl, rfl⟩, rfl⟩ := h
  rw [fit_eq hname]
  exact ⟨rfl, rfl⟩

theorem renameBitcast_cases {instid name : String}
    (h : Runs (c.renameBitcast I instid) g name es g') :
    name = (c.bitcastName g.slotToVarName I).getD instid ∧ es = [] ∧
      g' = { g with slotToVarName := c.renamed g.slotToVarName I } := by
  unfold Ctx.renameBitcast at h
  obtain ⟨g₀, _, _, o₂, h₁, h₂, rfl⟩ := runs_bind.1 h
  obtain ⟨rfl, rfl, rfl⟩ := runs_get.1 h₁
  split at h₂
  · rename_i hn
    obtain ⟨rfl, rfl, rfl⟩ := runs_pure.1 h₂
    simp [Ctx.renamed, hn]
  · rename_i name' hn
    simp only [runs_bind, runs_lift, runs_modify, runs_pure] at h₂
    obtain ⟨_, _, _, _, ⟨hfit, rfl, rfl⟩, ⟨_, _, _, _, ⟨rfl, rfl⟩, ⟨rfl, rfl, rfl⟩, rfl⟩, rfl⟩ := h₂
    rw [fit_eq hfit]
    simp [Ctx.renamed, hn]

/-- Where the result line goes. -/
def nextPoint (I : Inst) (next : Option Ref) : Point := .before (next.getD (.orig I.id))

theorem handleInstructionResult_cases {next : Option Ref} {env : InstEnv} {u : Unit} (hty : I.ty ≠ .void)
    (h : Runs (c.handleInstructionResult I next env) g u es g') :
    next ≠ none ∧ ResultLine c (nextPoint I next) I env.instid g es g' := by
  unfold Ctx.handleInstructionResult at h
  split at h
  · exact absurd h (by simp)
  · rename_i r
    obtain ⟨name, o₁, g₁, o₂, h₁, h₂, rfl⟩ := runs_bind.1 h
    obtain ⟨rfl, rfl, rfl⟩ := renameBitcast_cases h₁
    obtain ⟨p, hp, hline⟩ := printLine_cases h₂
    exact ⟨by simp, .line hty (resultParams_spec hp) hline⟩

theorem handleNonPhiNonCallInstruction_cases {env : InstEnv} {u : Unit} (hphi : I.isPhi = false)
    (hI : I.calledFunction = none)
    (h : Runs (c.handleNonPhiNonCallInstruction I env) g u es g') :
    ∃ opcode ops g₁ status, es = firstEdit c (.before (.orig I.id)) I env opcode g.serial :: (ops ++ status) ∧
      OperandLines c (.before (.orig I.id)) I (printedOperands I) (g.next 1) ops g₁ ∧
      StatusEdits c (.before (.orig I.id)) I env g₁ status g' := by
  unfold Ctx.handleNonPhiNonCallInstruction at h
  obtain ⟨_, o₁, g₁, o₂, h₁, h₂, rfl⟩ := runs_bind.1 h
  obtain ⟨rfl, rfl⟩ := printFirstLine_cases h₁
  obtain ⟨_, o₃, g₃, o₄, h₃, h₄, rfl⟩ := runs_bind.1 h₂
  refine ⟨I.opcode, o₃, g₃, o₄, rfl, ?_, ?_⟩
  · rw [printedOperands, hI]
    exact forM_operandLines (fun x _ slots p hp => plainOperand_spec hphi hI hp) h₃
  · split at h₄
    · rename_i hret
      have hret : I.kind = .ret := by simpa [Ctx.isReturn] using hret
      obtain ⟨rfl, rfl⟩ := updateTracerStatus_cases h₄
      have hopcode : (if env.toFxpt then opcodeToFixedPoint I.opcode else I.opcode) = 1 := by
        have hop : I.opcode = 1 := by simp [Inst.opcode, hret]
        rw [hop]
        split <;> rfl
      rw [hopcode]
      exact .ret hret
    · rename_i hret
      obtain ⟨-, rfl, rfl⟩ := runs_pure.1 h₄
      exact .none (by simpa [Ctx.isReturn] using hret)

theorem handleCallInstruction_cases {env : InstEnv} {callee : Callee} {u : Unit} (hphi : I.isPhi = false)
    (hI : I.calledFunction = some callee) (hop : I.operands ≠ [])
    (h : Runs (c.handleCallInstruction I callee env) g u es g') :
    ∃ opcode ops, es = firstEdit c (.before (.orig I.id)) I env opcode g.serial :: ops ∧
      OperandLines c (.before (.orig I.id)) I (printedOperands I) (g.next 1) ops g' := by
  unfold Ctx.handleCallInstruction at h
  obtain ⟨_, o₁, g₁, o₂, h₁, h₂, rfl⟩ := runs_bind.1 h
  obtain ⟨rfl, rfl⟩ := printFirstLine_cases h₁
  obtain ⟨_, o₃, g₃, o₄, h₃, h₄, rfl⟩ := runs_bind.1 h₂
  obtain ⟨p, hp, hline⟩ := printLine_cases h₃
  have hlen : I.operands.length - 1 + 1 = I.operands.length := by
    have := List.length_pos_iff.2 hop
    omega
  refine ⟨_, o₃ ++ o₄, rfl, ?_⟩
  rw [printedOperands, hI]
  exact .cons (calleeParams_spec hI (by rw [hlen]; exact hp)) hline
    (forM_operandLines (fun x _ slots p hp => callOperand_spec hphi hI hp) h₄)

/-- What is inserted for a traced instruction that is not a phi. -/
theorem handleInstruction_edits {next : Option Ref} {env : InstEnv} {u : Unit} (hphi : I.isPhi = false)
    (hop : I.calledFunction ≠ none → I.operands ≠ []) (h : Runs (c.handleInstruction I next env) g u es g') :
    (I.ty ≠ .void → next ≠ none) ∧ InstEdits c (.before (.orig I.id)) (nextPoint I next) I env g es g' := by
  unfold Ctx.handleInstruction at h
  obtain ⟨_, o₁, g₁, o₂, h₁, h₂, rfl⟩ := runs_bind.1 h
  have hlines : ∃ opcode ops g₂ status, o₁ = firstEdit c (.before (.orig I.id)) I env opcode g.serial :: (ops ++ status) ∧
      OperandLines c (.before (.orig I.id)) I (printedOperands I) (g.next 1) ops g₂ ∧
      StatusEdits c (.before (.orig I.id)) I env g₂ status g₁ := by
    split at h₁
    · rename_i callee hc
      obtain ⟨opcode, ops, rfl, hops⟩ := handleCallInstruction_cases hphi hc (hop (by simp [hc])) h₁
      have hret : I.kind ≠ .ret := by
        intro hk
        simp [Inst.calledFunction, hk] at hc
      exact ⟨opcode, ops, g₁, [], by simp, hops, .none hret⟩
    · rename_i hc
      exact handleNonPhiNonCallInstruction_cases hphi hc h₁
  obtain ⟨opcode, ops, g₂, status, rfl, hops, hstatus⟩ := hlines
  split at h₂
  · rename_i hty
    obtain ⟨-, rfl, rfl⟩ := runs_pure.1 h₂
    exact ⟨fun hne => absurd hty hne, ⟨opcode, ops, g₂, status, _, [], by simp, hops, hstatus, .void hty⟩⟩
  · rename_i hty
    obtain ⟨hnext, hres⟩ := handleInstructionResult_cases hty h₂
    exact ⟨fun _ => hnext, ⟨opcode, ops, g₂, status, g₁, o₂, by simp, hops, hstatus, hres⟩⟩

theorem bitcastName_of_ne {slots : List (Nat × String)} (h : I.kind ≠ .bitcast) : c.bitcastName slots I = none := by
  unfold Ctx.bitcastName
  split
  · rename_i hk _
    exact absurd hk h
  · rfl

theorem handlePhiNode_edits {b : BlockRef} {env env' : InstEnv} (hphi : I.isPhi = true)
    (h : Runs (c.handlePhiNode pt b env I) g env' es g') :
    c.setEnv g.slotToVarName b I env = .ok env' ∧ InstEdits c pt pt I env' g es g' := by
  have hret : I.kind ≠ .ret := by intro hk; simp [Inst.isPhi, hk] at hphi
  have hbit : I.kind ≠ .bitcast := by intro hk; simp [Inst.isPhi, hk] at hphi
  simp only [Ctx.handlePhiNode, runs_bind, runs_get, runs_lift, runs_pure] at h
  obtain ⟨_, _, _, _, ⟨rfl, rfl, rfl⟩, ⟨env₁, _, _, _, ⟨henv, rfl, rfl⟩, ⟨_, o₁, g₁, _, hfirst,
    ⟨_, o₂, g₂, _, hops, ⟨_, o₃, g₃, _, hres, ⟨rfl, rfl, rfl⟩, rfl⟩, rfl⟩, rfl⟩, rfl⟩, rfl⟩ := h
  obtain ⟨rfl, rfl⟩ := printFirstLine_cases hfirst
  refine ⟨henv, ⟨I.opcode, o₂, g₂, [], g₂, o₃, by simp, ?_, .none hret, ?_⟩⟩
  · rw [printedOperands, calledFunction_of_isPhi hphi]
    refine forM_operandLines (fun x _ slots p hp => ?_) hops
    split at hp
    · cases hp
    · exact phiOperand_spec hphi hp
  · split at hres
    · rename_i hty
      obtain ⟨-, rfl, rfl⟩ := runs_pure.1 hres
      exact .void hty
    · rename_i hty
      obtain ⟨p, hp, hline⟩ := printLine_cases hres
      have hspec : ResultSpec I env'.instid p := by
        split at hp
        · cases hp
        · obtain ⟨prevBbid, -, hp⟩ := Run.bind_eq_ok.1 hp
          exact resultParams_spec hp
      refine .line (p := p) hty ?_ ?_
      · rw [bitcastName_of_ne hbit]
        exact hspec
      · rw [Ctx.renamed, bitcastName_of_ne hbit]
        exact hline

/-- The walk prints lines for the instruction. -/
def Config.traces (cfg : Config) (I : Inst) : Bool := !I.isInvoke && cfg.traceCall I

/-- The environment behind an instruction: an invoke leaves it as it is. -/
def Ctx.stepEnv (c : Ctx) (slots : List (Nat × String)) (b : BlockRef) (I : Inst) (env : InstEnv) :
    Except Refusal InstEnv :=
  if I.isInvoke then .ok env else c.setEnv slots b I env

theorem visit_cases {b : BlockRef} {next : Option Ref} {env env' : InstEnv} (hphi : I.isPhi = false)
    (hop : I.calledFunction ≠ none → I.operands ≠ []) (h : Runs (c.visit b I next env) g env' es g') :
    c.cfg.traces I = false ∧ es = [] ∧ g' = g ∧ c.stepEnv g.slotToVarName b I env = .ok env' ∨
      c.cfg.traces I = true ∧ c.setEnv g.slotToVarName b I env = .ok env' ∧ (I.ty ≠ .void → next ≠ none) ∧
        InstEdits c (.before (.orig I.id)) (nextPoint I next) I env' g es g' := by
  unfold Ctx.visit at h
  split at h
  · rename_i hinv
    obtain ⟨rfl, rfl, rfl⟩ := runs_pure.1 h
    exact .inl ⟨by simp [Config.traces, hinv], rfl, rfl, by simp [Ctx.stepEnv, hinv]⟩
  · rename_i hinv
    simp only [runs_bind, runs_get, runs_lift, runs_pure] at h
    obtain ⟨_, _, _, _, ⟨rfl, rfl, rfl⟩, ⟨env₁, _, _, _, ⟨henv, rfl, rfl⟩, ⟨_, o₁, g₁, _, hinst,
      ⟨rfl, rfl, rfl⟩, rfl⟩, rfl⟩, rfl⟩ := h
    split at hinst
    · rename_i htr
      obtain ⟨hnext, hedits⟩ := handleInstruction_edits hphi hop hinst
      exact .inr ⟨by simp [Config.traces, hinv, htr], henv, hnext, by simpa using hedits⟩
    · rename_i htr
      obtain ⟨-, rfl, rfl⟩ := runs_pure.1 hinst
      exact .inl ⟨by simp [Config.traces, htr], by simp, rfl, by simpa [Ctx.stepEnv, hinv] using henv⟩

end

/-! ## From lines to instructions -/

section

variable {R : Gen → List Edit → Gen → Prop} {c : Ctx} {I : Inst} {pt next : Point}

theorem OperandLines.rel (hR : Composes R) {xs : List (Value × Nat)} {g g' : Gen} {es : List Edit}
    (hop : ∀ g es g' k v p, (v, k) ∈ xs → OperandSpec c g.slotToVarName I k v p →
      LineEdits pt (.operand I.id k) p g es g' → R g es g')
    (h : OperandLines c pt I xs g es g') : R g es g' := by
  induction h with
  | nil g => exact hR.nil g
  | cons hspec hline _ ih =>
    exact hR.append (hop _ _ _ _ _ _ List.mem_cons_self hspec hline)
      (ih fun g es g' k v p hmem => hop g es g' k v p (List.mem_cons_of_mem _ hmem))

/-- A relation that composes, and holds of each line, holds of an instruction's lines. -/
theorem InstEdits.rel (hR : Composes R) {env : InstEnv} {g g' : Gen} {es : List Edit}
    (hcall : ∀ g pu k, k.value? = none → R g [⟨pt, g.serial, pu, .call k⟩] (g.next 1))
    (hop : ∀ g es g' k v p, (v, k) ∈ printedOperands I → OperandSpec c g.slotToVarName I k v p →
      LineEdits pt (.operand I.id k) p g es g' → R g es g')
    (hres : ∀ g es g' instid p, I.ty ≠ .void → ResultSpec I instid p →
      LineEdits next (.result I.id) p g es g' → R g es g')
    (hslots : ∀ g slots, R g [] { g with slotToVarName := slots })
    (h : InstEdits c pt next I env g es g') : R g es g' := by
  obtain ⟨opcode, ops, g₁, status, g₂, result, rfl, hops, hstatus, hresult⟩ := h.parts
  have hfirst : R g [firstEdit c pt I env opcode g.serial] (g.next 1) := hcall _ _ _ rfl
  have hstatus' : R g₁ status g₂ := by
    cases hstatus with
    | none => exact hR.nil _
    | ret => exact hcall _ _ _ rfl
  have hresult' : R g₂ result g' := by
    cases hresult with
    | void => exact hR.nil _
    | line hty hspec hline => exact hR.append (hslots _ _) (hres _ _ _ _ _ hty hspec hline)
  exact hR.append hfirst (hR.append (hops.rel hR hop) (hR.append hstatus' hresult'))

end

theorem LineEdits.points {pt : Point} {pu : Purpose} {p : InstOperandParams} {g g' : Gen} {es : List Edit}
    (h : LineEdits pt pu p g es g') : ∀ e ∈ es, e.point = pt ∨ e.point = .front := by
  cases h <;> simp [vectorEdits]

theorem InstEdits.points {c : Ctx} {I : Inst} {pt next : Point} {env : InstEnv} {g g' : Gen} {es : List Edit}
    (h : InstEdits c pt next I env g es g') : ∀ e ∈ es, e.point = pt ∨ e.point = next ∨ e.point = .front := by
  refine h.rel (composes_forall fun e => e.point = pt ∨ e.point = next ∨ e.point = .front) ?_ ?_ ?_ ?_
  · intro g pu k _ e he
    rw [List.mem_singleton.1 he]
    exact .inl rfl
  · intro g es g' k v p _ _ hline e he
    rcases hline.points e he with hp | hp
    · exact .inl hp
    · exact .inr (.inr hp)
  · intro g es g' instid p _ _ hline e he
    exact .inr (hline.points e he)
  · intro g slots e he
    cases he

end LlvmTracer.Pass
