/-
Where a line can be printed.

Whether it can is up to its value, but for the buffers of the vectors: `Holds`
says what those allocated so far are of. A line goes through, from such buffers
to such, just where its value is `Loggable` and finds a buffer of its own.
-/
import LlvmTracer.Pass.TextBounds
import LlvmTracer.Pass.Typing

namespace LlvmTracer.Pass

open Ir Emit

/-! ## What can be logged -/

/-- What stops the pass, other than a text that runs over its buffer. -/
def Refusal.IsAbort (r : Refusal) : Prop := r ≠ .overflow

/-- A logger has room for the value, and where it is to be logged as a string,
it is one. -/
structure Castable (intrinsic : Bool) (v : Value) : Prop where
  integer : ∀ w, v.ty = .integer w → w ≤ 64
  floating : v.ty ≠ .x86FP80 ∧ v.ty ≠ .fp128 ∧ v.ty ≠ .ppcFP128
  /-- A vector's store has the bytes of an element for its alignment. -/
  vector : ∀ key, createVecBufKey v.ty = some key → isAlignment key.2.1 = true
  string : intrinsic = false → ∃ str, stringValue v = .ok str

/-- A line can be printed about the value. -/
structure Loggable (intrinsic : Bool) (v : Value) : Prop extends Castable intrinsic v where
  sized : ∃ size, getMemSize v.ty = .ok size
  label : v.ty.typeID = .label → v.isConstant = false

/-! ## By type -/

section

variable {intrinsic : Bool} {v : Value}

/-- The types of which nothing is asked. -/
def isUnchecked (t : Ty) : Bool :=
  t.typeID ≠ .integer && !t.typeID.isFloatingPoint && t.typeID ≠ .pointer && t.typeID ≠ .vector

theorem createVecBufKey_eq_none {t : Ty} (h : t.typeID ≠ .vector) : createVecBufKey t = none := by
  cases t with
  | vector n t => exact absurd rfl h
  | _ => rfl

theorem castable_of_isUnchecked {t : Ty} (hty : v.ty = t) (h : isUnchecked t = true) : Castable intrinsic v := by
  subst hty
  simp only [isUnchecked, Bool.and_eq_true, decide_eq_true_eq, Bool.not_eq_true'] at h
  obtain ⟨⟨⟨hinteger, hfloating⟩, hpointer⟩, hvector⟩ := h
  constructor
  · intro w hw
    rw [hw] at hinteger
    exact absurd rfl hinteger
  · refine ⟨?_, ?_, ?_⟩ <;> intro hw <;> rw [hw] at hfloating <;> cases hfloating
  · simp [createVecBufKey_eq_none hvector]
  · exact fun _ => ⟨none, stringValue_of_ne_pointer hpointer⟩

/-- A value that is no bad string is logged for any call. -/
theorem Castable.of_string {intrinsic' : Bool} (hstr : ∃ str, stringValue v = .ok str) (h : Castable intrinsic v) :
    Castable intrinsic' v :=
  ⟨h.integer, h.floating, h.vector, fun _ => hstr⟩

theorem castable_of_label (h : v.ty.typeID = .label) : Castable intrinsic v :=
  castable_of_isUnchecked rfl (by rw [isUnchecked, h]; rfl)

theorem castable_integer {w : Nat} (hty : v.ty = .integer w) : Castable intrinsic v ↔ w ≤ 64 := by
  constructor
  · exact fun h => h.integer w hty
  · intro hw
    have hpointer : v.ty.typeID ≠ .pointer := by simp [hty, Ty.typeID]
    refine ⟨fun w' hw' => ?_, by simp [hty], by simp [hty, createVecBufKey],
      fun _ => ⟨none, stringValue_of_ne_pointer hpointer⟩⟩
    rw [hty] at hw'
    cases hw'
    exact hw

theorem castable_floating (hfloating : v.ty.typeID.isFloatingPoint = true)
    (hwide : v.ty ≠ .x86FP80 ∧ v.ty ≠ .fp128 ∧ v.ty ≠ .ppcFP128) : Castable intrinsic v := by
  have hvector : v.ty.typeID ≠ .vector := fun h => by
    rw [h] at hfloating
    cases hfloating
  refine ⟨fun w hw => ?_, hwide, by simp [createVecBufKey_eq_none hvector],
    fun _ => ⟨none, stringValue_of_ne_pointer fun h => ?_⟩⟩
  · rw [hw] at hfloating
    cases hfloating
  · rw [h] at hfloating
    cases hfloating

theorem castable_pointer {t : Ty} (hty : v.ty = .pointer t) :
    Castable intrinsic v ↔ (intrinsic = false → ∃ str, stringValue v = .ok str) :=
  ⟨Castable.string, fun h => ⟨by simp [hty], by simp [hty], by simp [hty, createVecBufKey], h⟩⟩

/-- Of a vector it is the elements' whole bytes that count. -/
theorem castable_vector {n : Nat} {t : Ty} (hty : v.ty = .vector n t) :
    Castable intrinsic v ↔ isAlignment (t.primitiveSizeInBits / 8) = true := by
  have hkey : createVecBufKey v.ty = some (n, t.primitiveSizeInBits / 8, t.typeID) := by rw [hty]; rfl
  constructor
  · exact fun h => h.vector _ hkey
  · intro h
    refine ⟨by simp [hty], by simp [hty], fun key hkey' => ?_, fun _ => ⟨none, stringValue_of_ne_pointer ?_⟩⟩
    · rw [hkey, Option.some.injEq] at hkey'
      rw [← hkey']
      exact h
    · simp [hty, Ty.typeID]

theorem castable_function (name : String) : Castable intrinsic (.function name) :=
  (castable_pointer rfl).2 fun _ => ⟨none, rfl⟩

end

/-! ## The buffers -/

/-- The buffers allocated so far are of the types `T` has for their keys. -/
def Holds (T : VecBufKey → Ty) (g : Gen) : Prop := ∀ key b, g.vectorBuffers.lookup key = some b → b.allocated = T key

/-- A vector of the type finds a buffer of its own. -/
def Served (T : VecBufKey → Ty) (ty : Ty) : Prop := ∀ key, createVecBufKey ty = some key → T key = ty

theorem served_of_none {T : VecBufKey → Ty} {ty : Ty} (h : createVecBufKey ty = none) : Served T ty := by
  intro key hkey
  rw [h] at hkey
  cases hkey

theorem served_of_label {T : VecBufKey → Ty} {ty : Ty} (h : ty.typeID = .label) : Served T ty := by
  refine served_of_none ?_
  cases ty with
  | vector n t => cases h
  | _ => rfl

section

variable {T : VecBufKey → Ty} {c : Ctx} {pt : Point} {pu : Purpose} {v : Value} {P Q : Prop}

theorem holds_congr {g g' : Gen} (h : g'.vectorBuffers = g.vectorBuffers) : Holds T g' ↔ Holds T g := by
  unfold Holds
  rw [h]

theorem insert_decides (op : Op) : Decides (Holds T) Refusal.IsAbort True (insert pt pu op) :=
  .of_avoids (insert_avoids pt pu op) fun _ _ _ _ hrun => holds_congr (by rw [(runs_insert.1 hrun).2.2]; rfl)

theorem insertCall_decides (k : LogCall) : Decides (Holds T) Refusal.IsAbort True (insertCall pt pu k) :=
  (insert_decides _).before fun _ => .pure trivial

theorem refuse_decides {α : Type} {r : Refusal} (hP : ¬ P) : Decides (Holds T) Refusal.IsAbort P (refuse r : Tracing α) :=
  .lift (.error hP)

theorem createCast_decides (op : CastOp) :
    Decides (Holds T) Refusal.IsAbort (op.accepts v.ty = true) (createCast pt pu op v) := by
  unfold createCast
  split
  · rename_i hno
    exact refuse_decides (by simpa using hno)
  · rename_i haccepts
    refine Decides.of_true ?_ (by simpa using haccepts)
    split
    · exact .pure trivial
    · split
      · exact .pure trivial
      · exact (insert_decides _).before fun _ => .pure trivial

theorem castLine_decides (op : CastOp) (k : LogValue → LogCall) :
    Decides (Holds T) Refusal.IsAbort (op.accepts v.ty = true)
      (createCast pt pu op v >>= fun x => insertCall pt pu (k x)) :=
  (createCast_decides op).before fun _ => insertCall_decides _

/-- The buffers behind a vector, and what was there. -/
theorem holds_createVectorArg {key : VecBufKey} (hkey : createVecBufKey v.ty = some key) {g g' : Gen} {x : LogValue}
    {es : List Edit} (h : Runs (createVectorArg pt pu v) g x es g') : Holds T g' ↔ Holds T g ∧ T key = v.ty := by
  unfold createVectorArg at h
  rw [hkey] at h
  obtain ⟨b, o₁, g₁, o₂, h₁, h₂, -⟩ := runs_bind.1 h
  split at h₂
  · exact absurd h₂ (by simp)
  · rename_i hty
    have hty : b.allocated = v.ty := not_not.1 hty
    split at h₂
    · exact absurd h₂ (by simp)
    simp only [runs_bind, runs_insert, runs_pure] at h₂
    obtain ⟨_, _, _, _, ⟨-, -, rfl⟩, ⟨_, _, _, _, ⟨-, -, rfl⟩, ⟨-, -, rfl⟩, -⟩, -⟩ := h₂
    have hbuffers : Holds T ((g₁.next 1).next 1) ↔ Holds T g₁ := holds_congr rfl
    rw [hbuffers]
    -- The key's buffer was there, or it is new and of the vector's own type.
    rcases vectorBuffer_cases h₁ with ⟨hb, -, rfl⟩ | ⟨hnone, rfl, -, rfl⟩
    · exact ⟨fun hT => ⟨hT, (hT key b hb).symm.trans hty⟩, And.left⟩
    · constructor
      · intro hT
        refine ⟨fun k b hb => hT k b ?_, (hT key ⟨g.serial, v.ty⟩ (by simp)).symm⟩
        have hne : (k == key) = false := by
          rw [beq_eq_false_iff_ne]
          rintro rfl
          rw [hnone] at hb
          cases hb
        rw [List.lookup_cons, hne]
        exact hb
      · rintro ⟨hT, hserved⟩ k b hb
        rcases Keyed.lookup_cons_some hb with ⟨rfl, rfl⟩ | ⟨-, hb⟩
        · exact hserved.symm
        · exact hT k b hb

theorem createVectorArg_decides {key : VecBufKey} (hkey : createVecBufKey v.ty = some key) :
    Decides (Holds T) Refusal.IsAbort (isAlignment key.2.1 = true ∧ T key = v.ty) (createVectorArg pt pu v) where
  avoids g hg hserved := by
    have hfits : BufferFits g v.ty := by
      intro key' b hkey' hb
      rw [hkey, Option.some.injEq] at hkey'
      rw [← hkey'] at hb
      exact (hg key b hb).trans hserved.2
    have hcases := createVectorArg_cases pt pu g hkey
    rcases hcases with ⟨x, es, g', h, -⟩ | ⟨-, hno⟩ | ⟨-, -, hno⟩
    · exact fun e he => absurd he (ne_error_of_runs h)
    · exact absurd hfits hno
    · rw [hserved.1] at hno
      cases hno
  keeps g x es g' hg hserved h := (holds_createVectorArg hkey h).2 ⟨hg, hserved.2⟩
  needs g x es g' h hg' := by
    obtain ⟨hg, hserved⟩ := (holds_createVectorArg hkey h).1 hg'
    have hcases := createVectorArg_cases pt pu g hkey
    rcases hcases with ⟨-, -, -, -, -, halign⟩ | ⟨herr, -⟩ | ⟨herr, -⟩
    · exact ⟨hg, halign, hserved⟩
    · exact absurd herr (ne_error_of_runs h)
    · exact absurd herr (ne_error_of_runs h)

theorem printPointerLine_decides {p : InstOperandParams} {t : Ty} (hty : v.ty = .pointer t) :
    Decides (Holds T) Refusal.IsAbort (p.isIntrinsic = false → ∃ str, stringValue v = .ok str)
      (printPointerLine pt pu p v) := by
  unfold printPointerLine
  split
  · rename_i hintr
    exact (insertCall_decides _).congr (by simp [hintr])
  · rename_i hintr
    have haccepts : CastOp.accepts .ptrToInt v.ty = true := by rw [hty]; rfl
    refine Decides.congr ((createCast_decides .ptrToInt).bind fun _ x _ _ _ => Decides.lift_bind .self fun str _ => ?_)
      (by simp [haccepts, hintr] : _ ∧ _ ∧ True ↔ _)
    split <;> exact insertCall_decides _

/-- A line goes through where its value has room, and its buffer is its own. -/
theorem printParamLine_decides {p : InstOperandParams} (hv : p.value = some v) (hdatatype : p.datatype = v.ty.typeID) :
    Decides (Holds T) Refusal.IsAbort (Castable p.isIntrinsic v ∧ Served T v.ty) (printParamLine pt pu p) := by
  rw [printParamLine_eq hv hdatatype]
  cases hty : v.ty with
  | integer w =>
    refine (castLine_decides .zext _).congr ?_
    rw [castable_integer hty, and_iff_left (served_of_none rfl), hty]
    simp [CastOp.accepts]
  | half | float | double =>
    refine (castLine_decides .fpext _).congr (iff_of_true (by rw [hty]; rfl) ⟨castable_floating ?_ ?_, served_of_none rfl⟩)
    · rw [hty]
      rfl
    · simp [hty]
  | x86FP80 | fp128 | ppcFP128 =>
    refine (castLine_decides .fpext _).congr (iff_of_false (by simp [hty, CastOp.accepts]) fun h => ?_)
    simpa [hty] using h.1.floating
  | pointer t =>
    refine (printPointerLine_decides hty).congr ?_
    rw [castable_pointer hty, and_iff_left (served_of_none rfl)]
  | vector n t =>
    have hkey : createVecBufKey v.ty = some (n, t.primitiveSizeInBits / 8, t.typeID) := by rw [hty]; rfl
    refine ((createVectorArg_decides hkey).before fun x => insertCall_decides (p.call .vector x)).congr ?_
    rw [castable_vector hty, hty]
    exact and_congr_right' ⟨fun h key hkey' => by cases hkey'; exact h, fun h => h _ rfl⟩
  | struct _ | array _ _ | function | label | named _ | void | metadata | x86MMX | token =>
    exact .pure ⟨castable_of_isUnchecked hty rfl, served_of_none rfl⟩

end

/-! ## Texts and ids -/

section

open Run

variable {c : Ctx} {v : Value}

theorem fit_avoids_abort (text : String) : Avoids Refusal.IsAbort (fit text) := by
  unfold fit
  split
  · exact .ok _
  · exact .error (by simp [Refusal.IsAbort])

theorem makeValueId_block_avoids (b : BlockRef) : Avoids Refusal.IsAbort (c.makeValueId (.block b)) := by
  unfold Ctx.makeValueId
  refine Avoids.bind (.ok _) fun id => ?_
  cases c.getValueName (.block b) <;> exact fit_avoids_abort _

theorem localSlot_arg_nonneg {F : Function} {a : Argument} (ha : a ∈ F.args) (hname : a.name = "") :
    0 ≤ F.localSlot (.arg a) :=
  Function.localSlot_nonneg (List.mem_append_left _ (List.mem_map_of_mem (List.mem_filter.2 ⟨ha, by simp [hname]⟩)))

theorem getValueName_eq_none (h : c.getValueName v = none) : v.name = "" := by
  unfold Ctx.getValueName at h
  split at h
  · cases h
  · rename_i hname
    exact Value.hasName_eq_false.1 (by simpa using hname)

/-- Only a constant has no id. -/
theorem makeValueId_decides (hv : c.func.Has v) (hlabel : v.ty.typeID = .label) (hinst : ∀ r, v ≠ .inst r) :
    Run.Decides Refusal.IsAbort (v.isConstant = false) (c.makeValueId v) := by
  cases v with
  | inst r => exact absurd rfl (hinst r)
  | block b => exact .of_avoids (makeValueId_block_avoids b) rfl
  | arg a =>
    refine .of_avoids ?_ rfl
    have hid : c.getLocalSlot (.arg a) = .ok (c.func.localSlot (.arg a)) := rfl
    rw [Ctx.makeValueId_of_ne (fun b h => Value.noConfusion h), hid, ok_bind]
    cases hname : c.getValueName (.arg a) with
    | some name => exact fit_avoids_abort _
    | none =>
      have hslot : 0 ≤ c.func.localSlot (.arg a) := localSlot_arg_nonneg hv (getValueName_eq_none hname)
      have hne : c.func.localSlot (.arg a) ≠ -1 := by omega
      rw [if_neg hne]
      exact fit_avoids_abort _
  | function name => cases hlabel
  | global g => cases hlabel
  | metadata => cases hlabel
  | constExpr _ _ _ | constant _ _ | undef _ => exact .error (by simp [Value.isConstant])

/-- Only without a place does an id need a name or a slot. -/
theorem getInstId_avoids_abort {slots : List (Nat × String)} {r : InstRef} {place : Option (String × Nat)}
    (h : place = none → c.getValueName (.inst r) = none → 0 ≤ c.func.localSlot (.inst r)) :
    Avoids Refusal.IsAbort (c.getInstId slots r place) := by
  unfold Ctx.getInstId
  split
  · exact (fit_avoids_abort _).bind fun _ => .ok _
  · rename_i hname
    dsimp only
    split
    · exact .ok _
    · split
      · exact .ok _
      · exact (fit_avoids_abort _).bind fun _ => .ok _
    · rw [if_pos (h rfl hname)]
      exact .ok _

theorem setEnv_avoids_abort (slots : List (Nat × String)) (b : BlockRef) (I : Inst) (env : InstEnv) :
    Avoids Refusal.IsAbort (c.setEnv slots b I env) :=
  (makeValueId_block_avoids b).bind fun _ => (getInstId_avoids_abort fun h => by cases h).bind fun _ => .ok _

end

/-! ## Parameters -/

/-- What the parameters of an operand's line ask of it. -/
def Described (v : Value) : Prop := (∃ size, getMemSize v.ty = .ok size) ∧ (v.ty.typeID = .label → v.isConstant = false)

theorem loggable_iff {intrinsic : Bool} {v : Value} : Loggable intrinsic v ↔ Described v ∧ Castable intrinsic v :=
  ⟨fun h => ⟨⟨h.sized, h.label⟩, h.toCastable⟩, fun h => ⟨h.2, h.1.1, h.1.2⟩⟩

theorem Described.of_not_isConstant {v : Value} (h : v.isConstant = false) :
    Described v ↔ ∃ size, getMemSize v.ty = .ok size :=
  and_iff_left fun _ => h

section

open Run

variable {c : Ctx} {slots : List (Nat × String)} {k : Nat} {v : Value} (hv : c.func.Has v)
include hv

theorem instId_avoids {r : InstRef} (hr : v = .inst r) : Avoids Refusal.IsAbort (c.getInstId slots r none) := by
  subst hr
  obtain ⟨J, hJ, rfl, hty⟩ := hv
  exact getInstId_avoids_abort fun _ hname =>
    Function.localSlot_nonneg (Function.mem_slots hJ hty (getValueName_eq_none hname))

/-- A label's id, or what is known already. -/
theorem labelOperand_decides (hinst : ∀ r, v ≠ .inst r) (ofId : String → InstOperandParams) (p : InstOperandParams) :
    Run.Decides Refusal.IsAbort (v.ty.typeID = .label → v.isConstant = false)
      (if v.ty.typeID = .label then c.makeValueId v >>= fun id => .ok (ofId id) else .ok p) := by
  split
  · rename_i hlabel
    exact ((makeValueId_decides hv hlabel hinst).before fun _ => .ok _).congr (by simp [hlabel])
  · rename_i hlabel
    exact .ok fun h => absurd h hlabel

theorem plainOperand_decides : Run.Decides Refusal.IsAbort (Described v) (c.plainOperand slots k v) := by
  refine Decides.bind .self fun size _ => Decides.after (fit_avoids_abort _) fun name _ => ?_
  dsimp only
  split
  · exact .of_avoids ((instId_avoids hv rfl).bind fun _ => .ok _) fun _ => rfl
  · exact .ok fun h => by cases h
  · rename_i hinst _
    split
    · rename_i hvector
      exact .ok fun h => by simp [hvector] at h
    · exact labelOperand_decides hv hinst _ _

theorem callOperand_decides {callee : String} :
    Run.Decides Refusal.IsAbort (Described v) (c.callOperand slots callee k v) := by
  refine Decides.bind .self fun size _ => Decides.after (fit_avoids_abort _) fun name _ => ?_
  dsimp only
  split
  · exact .of_avoids ((instId_avoids hv rfl).bind fun _ => .ok _) fun _ => rfl
  · exact .ok fun h => by cases h
  · rename_i hinst _
    exact labelOperand_decides hv hinst _ _

theorem phiOperand_decides {source : BlockRef} :
    Run.Decides Refusal.IsAbort (∃ size, getMemSize v.ty = .ok size) (c.phiOperand slots k v source) := by
  refine Decides.after (makeValueId_block_avoids source) fun prevBbid _ => Decides.before .self fun size => ?_
  split
  · exact (instId_avoids hv rfl).bind fun _ => .ok _
  · exact (fit_avoids_abort _).bind fun _ => .ok _

omit hv in
theorem calleeParams_decides {callee : String} {n : Nat} :
    Run.Decides Refusal.IsAbort (callee ≠ "") (Ctx.calleeParams callee n) := by
  refine Decides.after (fit_avoids_abort _) fun name _ => Decides.after (.ok _) fun size _ => ?_
  split
  · rename_i hname
    exact .ok (of_decide_eq_true hname)
  · rename_i hname
    exact .error fun h => hname (decide_eq_true h)

omit hv in
theorem argParams_decides {isEntryBlock : Bool} {a : Argument} (ha : a ∈ c.func.args) :
    Run.Decides Refusal.IsAbort (Described (.arg a)) (c.argParams isEntryBlock a) := by
  refine Decides.congr (Decides.before .self fun size => ?_) (Described.of_not_isConstant (v := .arg a) rfl).symm
  dsimp only
  split
  · rename_i hlabel
    exact ((makeValueId_decides (v := .arg a) ha hlabel fun _ h => by cases h).avoids rfl).bind fun _ => .ok _
  · exact .ok _

omit hv in
theorem resultParams_decides {I : Inst} {instid prevBbid : String} :
    Run.Decides Refusal.IsAbort ((∃ size, getMemSize I.ty = .ok size) ∧ ¬ (I.isTerminator = true ∧ I.ty.typeID ≠ .vector))
      (Ctx.resultParams I instid prevBbid) := by
  refine Decides.bind .self fun size _ => ?_
  split
  · rename_i hterm
    exact .error fun h => h hterm
  · rename_i hterm
    exact .ok hterm

end

/-! ## Lines -/

/-- A line about the value goes through. -/
def Logs (T : VecBufKey → Ty) (intrinsic : Bool) (v : Value) : Prop := Loggable intrinsic v ∧ Served T v.ty

/-- The lines of an instruction go through. -/
structure InstLogs (T : VecBufKey → Ty) (I : Inst) : Prop where
  operands : ∀ x ∈ printedOperands I, Logs T (callsIntrinsic I) x.1
  callee : ∀ callee, I.calledFunction = some callee → callee.name ≠ ""
  result : I.ty ≠ .void → I.isTerminator = false ∧ Logs T false I.value

theorem logs_iff {T : VecBufKey → Ty} {intrinsic : Bool} {v : Value} :
    Logs T intrinsic v ↔ Described v ∧ Castable intrinsic v ∧ Served T v.ty := by
  rw [Logs, loggable_iff, and_assoc]

/-- Of two results it is the type that counts. -/
theorem castable_inst {intrinsic : Bool} {r r' : InstRef} (hty : r.ty = r'.ty) (h : Castable intrinsic (.inst r)) :
    Castable intrinsic (.inst r') := by
  have hvty : (Value.inst r).ty = (Value.inst r').ty := hty
  exact ⟨hvty ▸ h.integer, hvty ▸ h.floating, hvty ▸ h.vector, fun _ => ⟨none, rfl⟩⟩

section

variable {T : VecBufKey → Ty} {c : Ctx} {pt : Point} {pu : Purpose} {I : Inst} {v : Value} {k : Nat}

theorem printLine_decides {params : List (Nat × String) → Except Refusal InstOperandParams} {P Q : Prop}
    (hparams : ∀ slots, Run.Decides Refusal.IsAbort P (params slots))
    (hline : ∀ slots p, params slots = .ok p → Decides (Holds T) Refusal.IsAbort Q (printParamLine pt pu p)) :
    Decides (Holds T) Refusal.IsAbort (P ∧ Q) (printLine pt pu params) :=
  Decides.get_bind fun _ => Decides.lift_bind (hparams _) fun p hp => hline _ p hp

theorem printParamLine_none {p : InstOperandParams} (hv : p.value = none) :
    Decides (Holds T) Refusal.IsAbort True (printParamLine pt pu p) := by
  unfold printParamLine
  rw [hv]
  exact insertCall_decides _

/-- Labels and functions have room anywhere. -/
theorem operandLine_decides {slots : List (Nat × String)} {p : InstOperandParams} (hphi : I.isPhi = false)
    (hspec : OperandSpec c slots I k v p) :
    Decides (Holds T) Refusal.IsAbort (Castable (callsIntrinsic I) v ∧ Served T v.ty) (printParamLine pt pu p) := by
  rcases hspec.value with hnone | hsome
  · refine (printParamLine_none hnone).of_true ?_
    by_cases hlabel : v.ty.typeID = .label
    · exact ⟨castable_of_label hlabel, served_of_label hlabel⟩
    · by_cases hname : ∃ name, v = .function name
      · obtain ⟨name, rfl⟩ := hname
        exact ⟨castable_function name, served_of_none rfl⟩
      · rw [hspec.valued hphi hlabel fun name h => hname ⟨name, h⟩] at hnone
        cases hnone
  · exact hspec.intrinsic ▸ printParamLine_decides hsome hspec.datatype

theorem plainLine_decides (hv : c.func.Has v) (hphi : I.isPhi = false) (hcall : I.calledFunction = none) :
    Decides (Holds T) Refusal.IsAbort (Logs T (callsIntrinsic I) v) (c.plainLine pt I (v, k)) :=
  (printLine_decides (fun _ => plainOperand_decides hv) fun _ _ hp =>
    operandLine_decides hphi (plainOperand_spec hphi hcall hp)).congr logs_iff.symm

theorem callLine_decides {callee : Callee} (hv : c.func.Has v) (hphi : I.isPhi = false)
    (hcall : I.calledFunction = some callee) :
    Decides (Holds T) Refusal.IsAbort (Logs T (callsIntrinsic I) v) (c.callLine pt I callee (v, k)) :=
  (printLine_decides (fun _ => callOperand_decides hv) fun _ _ hp =>
    operandLine_decides hphi (callOperand_spec hphi hcall hp)).congr logs_iff.symm

theorem logs_function (intrinsic : Bool) (name : String) : Logs T intrinsic (.function name) :=
  logs_iff.2 ⟨⟨⟨64, rfl⟩, fun h => by cases h⟩, castable_function name, served_of_none rfl⟩

theorem calleeParams_value {callee : String} {n : Nat} {p : InstOperandParams} (h : Ctx.calleeParams callee n = .ok p) :
    p.value = some (.function callee) ∧ p.datatype = (Value.function callee).ty.typeID := by
  obtain ⟨name, -, h⟩ := Run.bind_eq_ok.1 h
  obtain ⟨datasize, -, h⟩ := Run.bind_eq_ok.1 h
  split at h
  · cases h
    exact ⟨rfl, rfl⟩
  · cases h

theorem calleeLine_decides (callee : Callee) :
    Decides (Holds T) Refusal.IsAbort (callee.name ≠ "") (Ctx.calleeLine pt I callee) := by
  refine (printLine_decides (fun _ => calleeParams_decides) fun slots p hp => ?_).congr (and_iff_left trivial)
  obtain ⟨hv, hdatatype⟩ := calleeParams_value hp
  exact (printParamLine_decides hv hdatatype).congr
    (iff_of_true ⟨castable_function callee.name, served_of_none rfl⟩ trivial)

theorem phiOperand_value {slots : List (Nat × String)} {source : BlockRef} {p : InstOperandParams}
    (hv : ∀ r, v ≠ .inst r) (h : c.phiOperand slots k v source = .ok p) : p.value = some v := by
  obtain ⟨prevBbid, -, h⟩ := Run.bind_eq_ok.1 h
  obtain ⟨datasize, -, h⟩ := Run.bind_eq_ok.1 h
  split at h
  · exact absurd rfl (hv _)
  · obtain ⟨name, -, h⟩ := Run.bind_eq_ok.1 h
    cases h
    rfl

/-- What the line of a phi's operand asks of it: nothing is read of an instruction. -/
def PhiLogs (T : VecBufKey → Ty) (v : Value) : Prop :=
  (∃ size, getMemSize v.ty = .ok size) ∧ ((∀ r, v ≠ .inst r) → Castable false v ∧ Served T v.ty)

theorem phiLine_decides (hv : c.func.Has v) (hphi : I.isPhi = true) (hsource : k < I.incoming.length) :
    Decides (Holds T) Refusal.IsAbort (PhiLogs T v) (c.phiLine pt I (v, k)) := by
  refine printLine_decides (fun slots => ?_) fun slots p hp => ?_
  · rw [List.getElem?_eq_getElem hsource]
    exact phiOperand_decides hv
  · rw [List.getElem?_eq_getElem hsource] at hp
    have hspec := phiOperand_spec hphi hp
    by_cases hinst : ∀ r, v ≠ .inst r
    · have hintr : p.isIntrinsic = false := by
        rw [hspec.intrinsic, callsIntrinsic_of_none (calledFunction_of_isPhi hphi)]
      have hline : Decides (Holds T) Refusal.IsAbort (Castable p.isIntrinsic v ∧ Served T v.ty)
          (printParamLine pt (.operand I.id k) p) := printParamLine_decides (phiOperand_value hinst hp) hspec.datatype
      rw [hintr] at hline
      exact hline.congr ⟨fun h _ => h, fun h => h hinst⟩
    · obtain ⟨r, hr⟩ := not_forall.1 hinst
      exact (printParamLine_none (hspec.incoming hphi r (not_not.1 hr))).of_true fun h => absurd h hinst

theorem resultParam_decides {instid : String} {p : InstOperandParams} (hspec : ResultSpec I instid p) :
    Decides (Holds T) Refusal.IsAbort (Castable false I.value ∧ Served T I.value.ty) (printParamLine pt pu p) :=
  hspec.intrinsic ▸ printParamLine_decides hspec.value hspec.datatype

theorem resultLine_decides {params : List (Nat × String) → Except Refusal InstOperandParams}
    (hparams : ∀ slots, Run.Decides Refusal.IsAbort
      ((∃ size, getMemSize I.ty = .ok size) ∧ ¬ (I.isTerminator = true ∧ I.ty.typeID ≠ .vector)) (params slots))
    (hspec : ∀ slots p, params slots = .ok p → ∃ instid, ResultSpec I instid p) :
    Decides (Holds T) Refusal.IsAbort (¬ (I.isTerminator = true ∧ I.ty.typeID ≠ .vector) ∧ Logs T false I.value)
      (printLine pt pu params) := by
  have hline : ∀ slots p, params slots = .ok p →
      Decides (Holds T) Refusal.IsAbort (Castable false I.value ∧ Served T I.value.ty) (printParamLine pt pu p) := by
    intro slots p hp
    obtain ⟨instid, hspec⟩ := hspec slots p hp
    exact resultParam_decides hspec
  refine (printLine_decides hparams hline).congr ?_
  rw [logs_iff, Described.of_not_isConstant rfl]
  exact ⟨fun h => ⟨h.1.2, h.1.1, h.2⟩, fun h => ⟨⟨h.2.1, h.1⟩, h.2.2⟩⟩

end

end LlvmTracer.Pass
