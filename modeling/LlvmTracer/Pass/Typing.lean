/-
The types of what `printParamLine` inserts.

The types of the loggers' parameters are written out in `doInitialization`,
and the arguments are cast to them by the operand's type id alone: an integer
wider than 64 bits, or a floating-point format wider than double, has no such
cast.
-/
import LlvmTracer.Pass.Strings
import LlvmTracer.Pass.VectorBuffers

namespace LlvmTracer.Pass

open Ir Emit

/-! ## Declarations -/

abbrev i1 : Ty := .integer 1
abbrev i8Ptr : Ty := .pointer i8

def ParamLogger.declared : ParamLogger → List Ty
  | .int => [i64, i64, i64, i64, i8Ptr, i64, i8Ptr]
  | .ptr => [i64, i64, i64, i64, i8Ptr, i64, i8Ptr]
  | .string => [i64, i64, i8Ptr, i64, i8Ptr, i64, i8Ptr]
  | .double => [i64, i64, .double, i64, i8Ptr, i64, i8Ptr]
  | .vector => [i64, i64, i8Ptr, i64, i8Ptr, i64, i8Ptr]

/-- The parameters of the called function, as `doInitialization` declares it. -/
def LogCall.declared : LogCall → List Ty
  | .log0 _ _ _ _ _ _ _ => [i64, i8Ptr, i8Ptr, i8Ptr, i64, i1, i1]
  | .logEntry _ _ => [i8Ptr, i64]
  | .updateStatus _ _ _ _ => [i8Ptr, i64, i1, i1]
  | .param logger _ _ _ _ _ _ _ => logger.declared

/-! ## Typing -/

/-- `CastInst::castIsValid`, to the type the operation is used with. -/
def CastOp.IsValid : CastOp → Ty → Prop
  | .zext, .integer w => w < 64
  | .fpext, .half | .fpext, .float => True
  | .ptrToInt, .pointer _ => True
  | _, _ => False

def CastOp.target : CastOp → Ty
  | .zext | .ptrToInt => i64
  | .fpext => .double

def Op.resultTy : Op → Option Ty
  | .cast op _ => some op.target
  | .alloca ty => some (.pointer ty)
  | .pointerCast _ => some i8Ptr
  | .store _ _ _ | .call _ => none

/-- The types of inserted instructions: of the buffers there are, and of the
insertions `es`. -/
inductive HasType (g : Gen) (es : List Edit) : Nat → Ty → Prop
  | buffer {key : VecBufKey} {b : Buffer} : g.vectorBuffers.lookup key = some b →
      HasType g es b.serial (.pointer b.allocated)
  | result {e : Edit} {ty : Ty} : e ∈ es → e.inst.op.resultTy = some ty → HasType g es e.inst.serial ty

def LogValue.HasTypeIn (Γ : Nat → Ty → Prop) (ty : Ty) : LogValue → Prop
  | .zero => ty = i64
  | .node serial => Γ serial ty
  | .value v => v.ty = ty
  | .folded op v => op.IsValid v.ty ∧ op.target = ty
  | .string _ => ty = i8Ptr

/-- The arguments have these types. -/
def LogCall.Takes (Γ : Nat → Ty → Prop) (tys : List Ty) : LogCall → Prop
  | .log0 _ _ _ _ _ _ _ => tys = [i64, i8Ptr, i8Ptr, i8Ptr, i64, i1, i1]
  | .logEntry _ _ => tys = [i8Ptr, i64]
  | .updateStatus _ _ _ _ => tys = [i8Ptr, i64, i1, i1]
  | .param _ _ _ value _ _ _ _ =>
    ∃ ty, value.HasTypeIn Γ ty ∧ tys = [i64, i64, ty, i64, i8Ptr, i64, i8Ptr]

def Op.WellTyped (Γ : Nat → Ty → Prop) : Op → Prop
  | .cast op v => op.IsValid v.ty
  | .alloca _ => True
  | .store v buffer _ => Γ buffer (.pointer v.ty)
  | .pointerCast buffer => ∃ ty, Γ buffer (.pointer ty)
  | .call c => c.Takes Γ c.declared

/-- A vector for whose store the pass asks no power of two as alignment. -/
def Misaligned (v : Value) : Prop := ∃ key, createVecBufKey v.ty = some key ∧ isAlignment key.2.1 = false

/-- A line is inserted, unless it is not found out whether there is a string to
log or the store of a vector is refused for its alignment, and what is inserted
is well typed. -/
structure LineTyped (pt : Point) (pu : Purpose) (p : InstOperandParams) (v : Value) (g : Gen) : Prop where
  inserted : (∃ str, stringValue v = .ok str) → (∃ u es g', Runs (printParamLine pt pu p) g u es g') ∨
    Misaligned v ∧ printParamLine pt pu p g = .error .misaligned
  typed : ∀ u es g', Runs (printParamLine pt pu p) g u es g' → ∀ e ∈ es, e.inst.op.WellTyped (HasType g es)

section

variable {pt : Point} {pu : Purpose} {p : InstOperandParams} {v : Value} {g g' : Gen} {u : Unit} {es es' : List Edit}
  {t t' : Ty} {n : Nat}

theorem HasType.mono (h : HasType g es n t) (hes : es ⊆ es') : HasType g es' n t := by
  cases h with
  | buffer hb => exact .buffer hb
  | result he ht => exact .result (hes he) ht

/-- No instruction has two types, where the buffers are the pass's own. -/
theorem HasType.unique (hbuffers : Keyed.Kept bufferKind g.vectorBuffers g.serial)
    (hserials : es.map (fun e => e.inst.serial) = List.range' g.serial es.length)
    (h : HasType g es n t) (h' : HasType g es n t') : t = t' := by
  have hle : ∀ e ∈ es, g.serial ≤ e.inst.serial := fun e he => by
    have hmem : e.inst.serial ∈ es.map fun e => e.inst.serial := List.mem_map_of_mem he
    rw [hserials, List.mem_range'_1] at hmem
    exact hmem.1
  have hlt : ∀ {key : VecBufKey} {b : Buffer}, g.vectorBuffers.lookup key = some b → b.serial < g.serial :=
    fun hb => hbuffers.lt _ _ hb
  cases h with
  | buffer hb =>
    generalize hn : Buffer.serial _ = n at h'
    cases h' with
    | buffer hb' =>
      have hkey := hbuffers.inj _ _ _ _ hb hb' hn
      subst hkey
      rw [Option.some.inj (hb.symm.trans hb')]
    | result he =>
      have h₁ := hlt hb
      have h₂ := hle _ he
      omega
  | result he ht =>
    generalize hn : NewInst.serial _ = n at h'
    cases h' with
    | buffer hb' =>
      have h₁ := hlt hb'
      have h₂ := hle _ he
      omega
    | result he' ht' =>
      have hnodup : (es.map fun e => e.inst.serial).Nodup := hserials ▸ List.nodup_range'
      have heq := List.inj_on_of_nodup_map hnodup he he' hn
      rw [heq, ht'] at ht
      exact (Option.some.inj ht).symm

theorem LogValue.HasTypeIn.mono {Γ Γ' : Nat → Ty → Prop} {x : LogValue} (h : x.HasTypeIn Γ t)
    (hΓ : ∀ n t, Γ n t → Γ' n t) : x.HasTypeIn Γ' t := by
  cases x with
  | node serial => exact hΓ _ _ h
  | zero | value | folded | string => exact h

theorem Op.WellTyped.mono {Γ Γ' : Nat → Ty → Prop} {op : Op} (h : op.WellTyped Γ) (hΓ : ∀ n t, Γ n t → Γ' n t) :
    op.WellTyped Γ' := by
  cases op with
  | cast | alloca => exact h
  | store v buffer => exact hΓ _ _ h
  | pointerCast buffer => exact h.imp fun t ht => hΓ _ _ ht
  | call c =>
    cases c with
    | log0 | logEntry | updateStatus => exact h
    | param =>
      obtain ⟨t, ht, htys⟩ := h
      exact ⟨t, ht.mono hΓ, htys⟩

/-- A call after well-typed insertions, with what they give. -/
theorem append_call_typed {logger : ParamLogger} {x : LogValue} (hes : ∀ e ∈ es, e.inst.op.WellTyped (HasType g es))
    (hx : x.HasTypeIn (HasType g es) t) (hlogger : logger.declared = [i64, i64, t, i64, i8Ptr, i64, i8Ptr]) :
    ∀ e ∈ es ++ [⟨pt, n, pu, .call (p.call logger x)⟩],
      e.inst.op.WellTyped (HasType g (es ++ [⟨pt, n, pu, .call (p.call logger x)⟩])) := by
  have hmono : ∀ k t, HasType g es k t → HasType g (es ++ [⟨pt, n, pu, .call (p.call logger x)⟩]) k t :=
    fun _ _ h => h.mono (List.subset_append_left _ _)
  intro e he
  rcases List.mem_append.1 he with he | he
  · exact (hes e he).mono hmono
  · rw [List.mem_singleton.1 he]
    exact ⟨t, hx.mono hmono, hlogger⟩

/-! ## Casts -/

theorem CastOp.isValid_of_accepts {op : CastOp} (h : op.accepts t = true) (hid : op.isIdentity t = false) :
    op.IsValid t := by
  cases op <;> cases t <;> simp_all [CastOp.accepts, CastOp.isIdentity, CastOp.IsValid]
  omega

theorem CastOp.eq_target_of_isIdentity {op : CastOp} (h : op.isIdentity t = true) : t = op.target := by
  cases op <;> cases t <;> simp_all [CastOp.isIdentity, CastOp.target]

theorem accepts_of_runs {op : CastOp} {x : LogValue} (h : Runs (createCast pt pu op v) g x es g') :
    op.accepts v.ty = true := by
  by_contra hno
  rw [createCast, if_pos (by simpa using hno)] at h
  exact runs_refuse.1 h

/-- A cast is well typed, and gives the type it is for. -/
theorem createCast_typed {op : CastOp} {x : LogValue} (h : Runs (createCast pt pu op v) g x es g') :
    (∀ e ∈ es, e.inst.op.WellTyped (HasType g es)) ∧ x.HasTypeIn (HasType g es) op.target := by
  have haccepts := accepts_of_runs h
  rcases createCast_cases h with ⟨⟨hid, rfl⟩ | ⟨hid, rfl⟩, rfl, rfl⟩ | ⟨hid, -, rfl, rfl, rfl⟩
  · exact ⟨by simp, CastOp.eq_target_of_isIdentity hid⟩
  · exact ⟨by simp, CastOp.isValid_of_accepts haccepts hid, rfl⟩
  · refine ⟨fun e he => ?_, .result (List.mem_singleton_self _) rfl⟩
    rw [List.mem_singleton.1 he]
    exact CastOp.isValid_of_accepts haccepts hid

theorem castLine_typed {op : CastOp} {logger : ParamLogger}
    (hlogger : logger.declared = [i64, i64, op.target, i64, i8Ptr, i64, i8Ptr])
    (h : Runs (createCast pt pu op v >>= fun x => insertCall pt pu (p.call logger x)) g u es g') :
    ∀ e ∈ es, e.inst.op.WellTyped (HasType g es) := by
  obtain ⟨x, o, g₁, o', h₁, h₂, rfl⟩ := runs_bind.1 h
  obtain ⟨rfl, rfl⟩ := runs_insertCall.1 h₂
  obtain ⟨hes, hx⟩ := createCast_typed h₁
  exact append_call_typed hes hx hlogger

/-- What runs is not refused. -/
theorem ne_error_of_runs {α : Type} {m : Tracing α} {a : α} {r : Refusal} (h : Runs m g a es g') : m g ≠ .error r := by
  intro hr
  rw [Runs, hr] at h
  cases h

/-- The call behind it is always inserted. -/
theorem exists_runs_call {m : Tracing LogValue} {x : LogValue} (h : Runs m g x es g') (k : LogValue → LogCall) :
    ∃ u es g', Runs (m >>= fun x => insertCall pt pu (k x)) g u es g' :=
  ⟨(), _, _, runs_bind.2 ⟨x, es, g', _, h, runs_insertCall.2 ⟨rfl, rfl⟩, rfl⟩⟩

/-- A line whose value is cast is inserted just when the cast accepts the value. -/
theorem exists_runs_castLine {op : CastOp} {logger : ParamLogger} :
    (∃ u es g', Runs (createCast pt pu op v >>= fun x => insertCall pt pu (p.call logger x)) g u es g') ↔
      op.accepts v.ty = true := by
  constructor
  · rintro ⟨u, es, g', h⟩
    obtain ⟨x, o, g₁, o', h₁, -, -⟩ := runs_bind.1 h
    exact accepts_of_runs h₁
  · intro h
    obtain ⟨x, o, g₁, h₁⟩ : ∃ x o g₁, Runs (createCast pt pu op v) g x o g₁ := exists_runs_createCast h
    exact exists_runs_call h₁ _

/-! ## Pointers and vectors -/

theorem pointerLine_typed (h : Runs (printPointerLine pt pu p v) g u es g') :
    ∀ e ∈ es, e.inst.op.WellTyped (HasType g es) := by
  unfold printPointerLine at h
  split at h
  · obtain ⟨rfl, rfl⟩ := runs_insertCall.1 h
    intro e he
    rw [List.mem_singleton.1 he]
    exact ⟨i64, rfl, rfl⟩
  · obtain ⟨x, o₁, g₁, o₂, h₁, h₂, rfl⟩ := runs_bind.1 h
    obtain ⟨str, o₃, g₂, o₄, h₃, h₄, rfl⟩ := runs_bind.1 h₂
    obtain ⟨-, rfl, rfl⟩ := runs_lift.1 h₃
    obtain ⟨hes, hx⟩ := createCast_typed h₁
    cases str with
    | some s =>
      obtain ⟨rfl, rfl⟩ := runs_insertCall.1 h₄
      exact append_call_typed (t := i8Ptr) hes rfl rfl
    | none =>
      obtain ⟨rfl, rfl⟩ := runs_insertCall.1 h₄
      exact append_call_typed hes hx rfl

/-- The buffer under the key of a vector's type, if there is one, is of that type. -/
def BufferFits (g : Gen) (ty : Ty) : Prop :=
  ∀ key buffer, createVecBufKey ty = some key → g.vectorBuffers.lookup key = some buffer → buffer.allocated = ty

/-- A store of the buffer's type, and its address. -/
theorem store_typed {b : Buffer} {m : Nat} (hb : HasType g es b.serial (.pointer v.ty)) :
    ∀ e ∈ es ++ [⟨pt, n, pu, .store v b.serial m⟩, ⟨pt, n + 1, pu, .pointerCast b.serial⟩],
      e ∈ es ∨ e.inst.op.WellTyped
        (HasType g (es ++ [⟨pt, n, pu, .store v b.serial m⟩, ⟨pt, n + 1, pu, .pointerCast b.serial⟩])) := by
  intro e he
  rcases List.mem_append.1 he with he | he
  · exact .inl he
  · right
    have hb' := hb.mono (List.subset_append_left es
      [⟨pt, n, pu, .store v b.serial m⟩, ⟨pt, n + 1, pu, .pointerCast b.serial⟩])
    simp only [List.mem_cons, List.not_mem_nil, or_false] at he
    rcases he with rfl | rfl
    · exact hb'
    · exact ⟨v.ty, hb'⟩

theorem createVectorArg_typed {x : LogValue} (h : Runs (createVectorArg pt pu v) g x es g') :
    (∀ e ∈ es, e.inst.op.WellTyped (HasType g es)) ∧ x.HasTypeIn (HasType g es) i8Ptr ∧ BufferFits g v.ty := by
  unfold createVectorArg at h
  split at h
  · exact absurd h (by simp)
  · rename_i key hkey
    obtain ⟨b, o₁, g₁, o₂, h₁, h₂, rfl⟩ := runs_bind.1 h
    split at h₂
    · exact absurd h₂ (by simp)
    · rename_i hty
      have hty : b.allocated = v.ty := not_not.1 hty
      split at h₂
      · exact absurd h₂ (by simp)
      simp only [runs_bind, runs_insert, runs_pure] at h₂
      obtain ⟨_, _, _, _, ⟨rfl, rfl, rfl⟩, ⟨_, _, _, _, ⟨rfl, rfl, rfl⟩, ⟨rfl, rfl, rfl⟩, rfl⟩, rfl⟩ := h₂
      have hbuffer : HasType g o₁ b.serial (.pointer v.ty) ∧ (∀ e ∈ o₁, e.inst.op.WellTyped fun _ _ => False) ∧
          BufferFits g v.ty := by
        rcases vectorBuffer_cases h₁ with ⟨hb, rfl, rfl⟩ | ⟨hnone, rfl, rfl, rfl⟩
        · refine ⟨hty ▸ .buffer hb, by simp, fun key' b' hkey' hb' => ?_⟩
          rw [hkey, Option.some.injEq] at hkey'
          rw [← hkey', hb, Option.some.injEq] at hb'
          rw [← hb', hty]
        · refine ⟨.result (List.mem_singleton_self _) rfl, fun e he => ?_, fun key' b' hkey' hb' => ?_⟩
          · rw [List.mem_singleton.1 he]
            trivial
          · rw [hkey, Option.some.injEq] at hkey'
            rw [← hkey', hnone] at hb'
            cases hb'
      obtain ⟨hb, halloca, hfits⟩ := hbuffer
      refine ⟨fun e he => ?_, ?_, hfits⟩
      · rcases store_typed hb e he with he | he
        · exact (halloca e he).mono fun _ _ h => h.elim
        · exact he
      · exact .result (List.mem_append_right _ (List.mem_cons_of_mem _ (List.mem_singleton_self _))) rfl

/-- The buffer a vector is stored into is of its type just when it fits. -/
theorem exists_runs_vectorBuffer {key : VecBufKey} {ty : Ty} (hkey : createVecBufKey ty = some key) :
    ∃ b o g', Runs (vectorBuffer pu ty key) g b o g' ∧ (b.allocated = ty ↔ BufferFits g ty) := by
  unfold vectorBuffer
  cases hlookup : g.vectorBuffers.lookup key with
  | some b =>
    refine ⟨b, [], g, runs_bind.2 ⟨g, [], g, [], runs_get.2 ⟨rfl, rfl, rfl⟩, ?_, rfl⟩, fun hty key' b' hkey' hb' => ?_,
      fun hfits => hfits key b hkey hlookup⟩
    · rw [hlookup]
      exact runs_pure.2 ⟨rfl, rfl, rfl⟩
    · rw [hkey, Option.some.injEq] at hkey'
      rw [← hkey', hlookup, Option.some.injEq] at hb'
      rw [← hb', hty]
  | none =>
    let es : List Edit := [⟨.front, g.serial, pu, .alloca ty⟩]
    let g' : Gen := { g.next 1 with vectorBuffers := (key, ⟨g.serial, ty⟩) :: g.vectorBuffers }
    refine ⟨⟨g.serial, ty⟩, es, g', runs_bind.2 ⟨g, [], g, es, runs_get.2 ⟨rfl, rfl, rfl⟩, ?_, rfl⟩,
      iff_of_true rfl fun key' b' hkey' hb' => ?_⟩
    · rw [hlookup]
      rfl
    · rw [hkey, Option.some.injEq] at hkey'
      rw [← hkey', hlookup] at hb'
      cases hb'

variable (pt pu g) in
/-- `createVectorArg` goes through, or its buffer is another type's, or the
store's alignment is refused. -/
theorem createVectorArg_cases {key : VecBufKey} (hkey : createVecBufKey v.ty = some key) :
    (∃ x es g', Runs (createVectorArg pt pu v) g x es g' ∧ BufferFits g v.ty ∧ isAlignment key.2.1 = true) ∨
      (createVectorArg pt pu v g = .error .assertion ∧ ¬ BufferFits g v.ty) ∨
      (createVectorArg pt pu v g = .error .misaligned ∧ BufferFits g v.ty ∧ isAlignment key.2.1 = false) := by
  obtain ⟨b, o, g₁, hb, hfits⟩ : ∃ b o g₁, Runs (vectorBuffer pu v.ty key) g b o g₁ ∧
      (b.allocated = v.ty ↔ BufferFits g v.ty) := exists_runs_vectorBuffer hkey
  unfold createVectorArg
  rw [hkey, ← hfits]
  dsimp only
  by_cases hty : b.allocated = v.ty
  · cases halign : isAlignment key.2.1 with
    | true =>
      refine .inl ⟨.node (g₁.serial + 1), _, g₁.next 2, runs_bind.2 ⟨b, o, g₁,
        [⟨pt, g₁.serial, pu, .store v b.serial key.2.1⟩, ⟨pt, g₁.serial + 1, pu, .pointerCast b.serial⟩], hb, ?_, rfl⟩,
        hty, rfl⟩
      rw [if_neg (not_not.2 hty), if_neg (by simp)]
      rfl
    | false =>
      refine .inr (.inr ⟨?_, hty, rfl⟩)
      rw [bind_eq_of_ok hb, if_neg (not_not.2 hty), if_pos rfl]
      rfl
  · refine .inr (.inl ⟨?_, hty⟩)
    rw [bind_eq_of_ok hb, if_pos hty]
    rfl

/-! ## Lines -/

/-- What the loggers have room for: integers of 64 bits and floating-point
numbers no wider than a double. A vector must get a buffer of its own type. -/
def FitsLogger (g : Gen) : Ty → Prop
  | .integer w => w ≤ 64
  | .x86FP80 | .fp128 | .ppcFP128 => False
  | .vector n t => BufferFits g (.vector n t)
  | _ => True

/-- In a function's run so far, with each vector in a buffer of its own type:
none of them may clash with the vector to come. -/
theorem bufferFits_iff {l : List (Ty × Buffer)} (h : VectorCalls Gen.init l g) (hown : ∀ x ∈ l, x.2.allocated = x.1)
    (hvec : ∀ x ∈ l, isVectorTy x.1 = true) (hty : isVectorTy t = true) : BufferFits g t ↔ ∀ x ∈ l, ¬Clash x.1 t := by
  have hserves := h.serves
  constructor
  · intro hfits x hx hclash
    obtain ⟨key, hkey, hlookup⟩ := hserves.found x hx
    have hkeys := (createVecBufKey_eq_iff (hvec x hx) hty).2 (.inr hclash)
    have halloc := hfits key x.2 (hkeys.symm.trans hkey) hlookup
    exact hclash.ne ((hown x hx).symm.trans halloc)
  · intro hno key b hkey hlookup
    rcases hserves.origin hlookup with hnil | hmem
    · cases hnil
    · have hkeys : createVecBufKey b.allocated = createVecBufKey t :=
        ((hserves.kept (.nil _)).key key b hlookup).trans hkey.symm
      exact ((createVecBufKey_eq_iff (hvec _ hmem) hty).1 hkeys).resolve_right (hno _ hmem)

/-- How a handled type's line is printed. -/
theorem printParamLine_eq (hv : p.value = some v) (hdatatype : p.datatype = v.ty.typeID) :
    printParamLine pt pu p =
      match v.ty with
      | .integer _ => createCast pt pu .zext v >>= fun x => insertCall pt pu (p.call .int x)
      | .half | .float | .double | .x86FP80 | .fp128 | .ppcFP128 =>
        createCast pt pu .fpext v >>= fun x => insertCall pt pu (p.call .double x)
      | .pointer _ => printPointerLine pt pu p v
      | .vector _ _ => createVectorArg pt pu v >>= fun x => insertCall pt pu (p.call .vector x)
      | _ => pure () := by
  unfold printParamLine
  rw [hv, hdatatype]
  cases v.ty <;> rfl

/-- Only a pointer may be a string. -/
theorem stringValue_of_ne_pointer (hty : v.ty.typeID ≠ .pointer) : stringValue v = .ok none := by
  unfold stringValue
  split
  · exact absurd rfl hty
  · rfl

/-- A line is typed when what it inserts is, and inserted just when it fits. -/
theorem lineTyped_iff_of {P : Prop} (hstr : ∃ str, stringValue v = .ok str)
    (hruns : (∃ u es g', Runs (printParamLine pt pu p) g u es g') ∨
      Misaligned v ∧ printParamLine pt pu p g = .error .misaligned ↔ P)
    (htyped : ∀ u es g', Runs (printParamLine pt pu p) g u es g' → ∀ e ∈ es, e.inst.op.WellTyped (HasType g es)) :
    LineTyped pt pu p v g ↔ P :=
  ⟨fun h => hruns.1 (h.inserted hstr), fun h => ⟨fun _ => hruns.2 h, htyped⟩⟩

theorem lineTyped_castLine {op : CastOp} {logger : ParamLogger} (hty : v.ty.typeID ≠ .pointer)
    (hkey : createVecBufKey v.ty = none)
    (hlogger : logger.declared = [i64, i64, op.target, i64, i8Ptr, i64, i8Ptr])
    (heq : printParamLine pt pu p = createCast pt pu op v >>= fun x => insertCall pt pu (p.call logger x)) :
    LineTyped pt pu p v g ↔ op.accepts v.ty = true := by
  refine lineTyped_iff_of ⟨none, stringValue_of_ne_pointer hty⟩ ?_ fun u es g' h => ?_
  · have hno : ¬ Misaligned v := fun ⟨key, hkey', _⟩ => by rw [hkey] at hkey'; cases hkey'
    rw [heq, or_iff_left fun h => hno h.1]
    exact exists_runs_castLine
  · rw [heq] at h
    exact castLine_typed hlogger h

theorem lineTyped_pointerLine (hty : v.ty.typeID = .pointer)
    (heq : printParamLine pt pu p = printPointerLine pt pu p v) : LineTyped pt pu p v g := by
  refine ⟨fun hstr => .inl ?_, fun u es g' h => ?_⟩
  · rw [heq]
    exact exists_runs_printPointerLine hty (.inr hstr)
  · rw [heq] at h
    exact pointerLine_typed h

theorem lineTyped_vectorLine {key : VecBufKey} (hty : v.ty.typeID ≠ .pointer) (hkey : createVecBufKey v.ty = some key)
    (heq : printParamLine pt pu p = createVectorArg pt pu v >>= fun x => insertCall pt pu (p.call .vector x)) :
    LineTyped pt pu p v g ↔ BufferFits g v.ty := by
  refine lineTyped_iff_of ⟨none, stringValue_of_ne_pointer hty⟩ ?_ fun u es g' h => ?_
  · rw [heq]
    rcases createVectorArg_cases pt pu g hkey with ⟨x, o, g₁, h₁, hfits, -⟩ | ⟨herr, hno⟩ | ⟨herr, hfits, halign⟩
    · exact iff_of_true (.inl (exists_runs_call h₁ _)) hfits
    · refine iff_of_false ?_ hno
      rintro (⟨u, es, g', h⟩ | ⟨-, h⟩)
      · exact ne_error_of_runs h (bind_eq_of_error herr)
      · rw [bind_eq_of_error herr] at h
        cases h
    · exact iff_of_true (.inr ⟨⟨key, hkey, halign⟩, bind_eq_of_error herr⟩) hfits
  · rw [heq] at h
    obtain ⟨x, o, g₁, o', h₁, h₂, rfl⟩ := runs_bind.1 h
    obtain ⟨rfl, rfl⟩ := runs_insertCall.1 h₂
    obtain ⟨hes, hx, -⟩ := createVectorArg_typed h₁
    exact append_call_typed hes hx rfl

/-- On any operand or result of a handled type, at any state of the pass. -/
theorem lineTyped_iff (hv : p.value = some v) (hdatatype : p.datatype = v.ty.typeID)
    (hhandled : isHandled v.ty.typeID = true) : LineTyped pt pu p v g ↔ FitsLogger g v.ty := by
  have heq : printParamLine pt pu p = _ := printParamLine_eq hv hdatatype
  cases hty : v.ty with
  | integer w =>
    rw [hty] at heq
    rw [lineTyped_castLine (by simp [hty, Ty.typeID]) (by rw [hty]; rfl) rfl heq, hty]
    simp [CastOp.accepts, FitsLogger]
  | half | float | double | x86FP80 | fp128 | ppcFP128 =>
    rw [hty] at heq
    rw [lineTyped_castLine (by simp [hty, Ty.typeID]) (by rw [hty]; rfl) rfl heq, hty]
    simp [CastOp.accepts, FitsLogger]
  | pointer t =>
    rw [hty] at heq
    exact iff_of_true (lineTyped_pointerLine (by simp [hty, Ty.typeID]) heq) trivial
  | vector n t =>
    rw [hty] at heq
    have hkey : createVecBufKey v.ty = some (n, t.primitiveSizeInBits / 8, t.typeID) := by rw [hty, createVecBufKey]
    rw [lineTyped_vectorLine (by simp [hty, Ty.typeID]) hkey heq, hty, FitsLogger]
  | void | label | metadata | x86MMX | token | function | struct | named | array =>
    simp [hty, isHandled, Ty.typeID, TypeID.isFloatingPoint] at hhandled

end

/-- The line of a number of the width `w`. -/
def number (w : Nat) : Value := .arg ⟨0, "x", .integer w⟩

def numberOperand (w : Nat) : InstOperandParams :=
  ⟨1, .integer, w, some (number w), true, false, "x", none, phiText⟩

theorem lineTyped_iff_number : LineTyped .front .entry (numberOperand 32) (number 32) Gen.init := by
  have hfits : FitsLogger Gen.init (number 32).ty := by simp [FitsLogger, number, Value.ty]
  exact (lineTyped_iff rfl rfl rfl).2 hfits

theorem not_lineTyped_number : ¬LineTyped .front .entry (numberOperand 128) (number 128) Gen.init := by
  intro h
  rcases h.inserted ⟨none, rfl⟩ with ⟨u, es, g', hrun⟩ | ⟨-, herr⟩
  · cases hrun
  · cases herr

end LlvmTracer.Pass
