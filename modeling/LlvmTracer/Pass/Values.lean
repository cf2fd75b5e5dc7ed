/-
The values the logger is handed.

A value's line passes it on as it is, as a constant cast, or from a cast just
before the call (`Hands`). So when the call is executed the logger gets what
the operand is at its instruction (`LogsValues`), but for the pointers an
intrinsic is called with: for these it gets a zero.
-/
import LlvmTracer.Pass.DefUse
import LlvmTracer.Pass.Observer

namespace LlvmTracer.Pass

open Ir Emit Machine

/-! ## What a line passes on -/

def isFunction : Value → Bool
  | .function _ => true
  | _ => false

/-- The value is logged as a string. -/
def isString (v : Value) : Bool :=
  match stringValue v with
  | .ok (some _) => true
  | _ => false

/-- How a value is logged that is an integer of at most 64 bits, or a pointer
that is neither a function nor logged as a string. -/
def logging (v : Value) : Option (ParamLogger × CastOp) :=
  match v.ty with
  | .integer w => if w ≤ 64 then some (.int, .zext) else none
  | .pointer _ => if isFunction v || isString v then none else some (.ptr, .ptrToInt)
  | _ => none

theorem isPointer_of_stringValue {v : Value} {s : String} (h : stringValue v = .ok (some s)) :
    v.ty.typeID = .pointer := by
  unfold stringValue at h
  split at h
  · rfl
  · cases h

theorem logging_cases {v : Value} {logger : ParamLogger} {op : CastOp} (h : logging v = some (logger, op)) :
    (∀ name, v ≠ .function name) ∧ (∀ s, stringValue v ≠ .ok (some s)) ∧
      (v.ty.typeID = .integer ∧ logger = .int ∧ op = .zext ∨ v.ty.typeID = .pointer ∧ logger = .ptr ∧ op = .ptrToInt) := by
  unfold logging at h
  split at h
  · rename_i w hty
    have hint : v.ty.typeID = .integer := by rw [hty]; rfl
    split at h
    · cases h
      refine ⟨?_, fun s hs => ?_, .inl ⟨hint, rfl, rfl⟩⟩
      · rintro name rfl
        cases hty
      · have hptr := isPointer_of_stringValue hs
        rw [hint] at hptr
        cases hptr
    · cases h
  · rename_i t hty
    split at h
    · cases h
    · rename_i hplain
      simp only [Bool.or_eq_true, not_or, Bool.not_eq_true] at hplain
      cases h
      refine ⟨?_, fun s hs => ?_, .inr ⟨by rw [hty]; rfl, rfl, rfl⟩⟩
      · rintro name rfl
        cases hplain.1
      · simp [isString, hs] at hplain
  · cases h

/-- The argument of the call `e` is `v` under `op`. -/
inductive Hands (es : List Edit) (e : Edit) (op : CastOp) (v : Value) : LogValue → Prop
  | same : op.isIdentity v.ty = true → Hands es e op v (.value v)
  | folded : op.isIdentity v.ty = false → Hands es e op v (.folded op v)
  | cast (l₁ l₂ : List Edit) (n : Nat) : op.isIdentity v.ty = false →
      es = l₁ ++ ⟨e.point, n, e.inst.purpose, .cast op v⟩ :: e :: l₂ → Hands es e op v (.node n)

theorem Hands.append {es : List Edit} {e : Edit} {op : CastOp} {v : Value} {x : LogValue} (h : Hands es e op v x)
    (pre post : List Edit) : Hands (pre ++ (es ++ post)) e op v x := by
  cases h with
  | same hid => exact .same hid
  | folded hid => exact .folded hid
  | cast l₁ l₂ n hid hes =>
    refine .cast (pre ++ l₁) (l₂ ++ post) n hid ?_
    rw [hes]
    simp

/-- A pointer of an intrinsic's call is not passed on. -/
def isHidden (intrinsic : Bool) (v : Value) : Bool := intrinsic && v.ty.typeID = .pointer

/-- The call `e` passes `v` on to its logger. -/
def Passes (es : List Edit) (e : Edit) (intrinsic : Bool) (v : Value) : Prop :=
  ∀ logger op, logging v = some (logger, op) → ∀ logger' x, e.inst.logs? = some (logger', x) →
    logger' = logger ∧ if isHidden intrinsic v then x = .zero else Hands es e op v x

theorem Passes.append {es : List Edit} {e : Edit} {intrinsic : Bool} {v : Value} (h : Passes es e intrinsic v)
    (pre post : List Edit) : Passes (pre ++ (es ++ post)) e intrinsic v := by
  intro logger op hlogging logger' x hx
  obtain ⟨hlogger, hhands⟩ := h logger op hlogging logger' x hx
  refine ⟨hlogger, ?_⟩
  split
  · rename_i hhidden
    rwa [if_pos hhidden] at hhands
  · rename_i hhidden
    rw [if_neg hhidden] at hhands
    exact hhands.append pre post

section

variable {p : InstOperandParams} {v : Value} {logger : ParamLogger} {op : CastOp}

/-- The cast a value that is not hidden is logged with. -/
theorem cast?_of_logging (hty : p.datatype = v.ty.typeID) (h : logging v = some (logger, op)) :
    p.cast? = if isHidden p.isIntrinsic v then none else some (logger, op) := by
  obtain ⟨-, -, ⟨hint, rfl, rfl⟩ | ⟨hptr, rfl, rfl⟩⟩ := logging_cases h
  · simp [InstOperandParams.cast?, isHidden, hty, hint]
  · cases hintr : p.isIntrinsic <;> simp [InstOperandParams.cast?, isHidden, hty, hptr, hintr, TypeID.isFloatingPoint]

theorem PassedAs.cases {x : LogValue} {logger' : ParamLogger} (hty : p.datatype = v.ty.typeID)
    (hlogging : logging v = some (logger, op)) (h : PassedAs p v logger' x) :
    logger' = logger ∧ if isHidden p.isIntrinsic v then x = .zero else
      op.isIdentity v.ty = true ∧ x = .value v ∨ op.isIdentity v.ty = false ∧ x = .folded op v := by
  have hcast := cast?_of_logging hty hlogging
  obtain ⟨-, hstring, htype⟩ := logging_cases hlogging
  cases h with
  | same h hid =>
    rw [hcast] at h
    split at h
    · cases h
    · rename_i hhidden
      cases h
      exact ⟨rfl, by rw [if_neg hhidden]; exact .inl ⟨hid, rfl⟩⟩
  | folded h hid =>
    rw [hcast] at h
    split at h
    · cases h
    · rename_i hhidden
      cases h
      exact ⟨rfl, by rw [if_neg hhidden]; exact .inr ⟨hid, rfl⟩⟩
  | intrinsic hptr hintr =>
    rw [hty] at hptr
    obtain ⟨hint, -⟩ | ⟨-, rfl, rfl⟩ := htype
    · rw [hptr] at hint
      cases hint
    · exact ⟨rfl, by simp [isHidden, hintr, hptr]⟩
  | string _ hs => exact absurd hs (hstring _)

theorem LineEdits.passes {pt : Point} {pu : Purpose} {g g' : Gen} {es : List Edit} (h : LineEdits pt pu p g es g')
    (hv : p.value = some v) (hty : p.datatype = v.ty.typeID) : ∀ e ∈ es, Passes es e p.isIntrinsic v := by
  intro e he logger op hlogging logger' x hx
  obtain ⟨-, -, htype⟩ := logging_cases hlogging
  have hvector : p.datatype ≠ .vector := by
    intro hvec
    rw [hty] at hvec
    rw [hvec] at htype
    simp at htype
  cases h with
  | direct logger₀ x₀ _ _ hpassed =>
    obtain rfl := List.mem_singleton.1 he
    cases hx
    obtain ⟨hlogger, hx⟩ := (hpassed v hv).cases hty hlogging
    refine ⟨hlogger, ?_⟩
    split
    · rename_i hhidden
      rwa [if_pos hhidden] at hx
    · rename_i hhidden
      rw [if_neg hhidden] at hx
      rcases hx with ⟨hid, rfl⟩ | ⟨hid, rfl⟩
      · exact .same hid
      · exact .folded hid
  | cast logger₀ op₀ w hw _ _ hcast hid =>
    rw [hv] at hw
    cases hw
    rw [cast?_of_logging hty hlogging] at hcast
    split at hcast
    · cases hcast
    · rename_i hhidden
      cases hcast
      simp only [List.mem_cons, List.not_mem_nil, or_false] at he
      rcases he with rfl | rfl
      · cases hx
      · cases hx
        exact ⟨rfl, by rw [if_neg hhidden]; exact .cast [] [] _ hid rfl⟩
  | vector w key buffer _ hvec => exact absurd hvec hvector
  | newVector w key _ hvec => exact absurd hvec hvector
  | unhandled => cases he

end

/-- Of a pointer of an intrinsic's call the logger gets a zero, of a string
too. -/
theorem LineEdits.zero {pt : Point} {pu : Purpose} {p : InstOperandParams} {v : Value} {g g' : Gen} {es : List Edit}
    (h : LineEdits pt pu p g es g') (hv : p.value = some v) (hptr : p.datatype = .pointer)
    (hintr : p.isIntrinsic = true) : ∀ e ∈ es, ∀ y, e.inst.logs? = some y → y = (.ptr, .zero) := by
  have hcast : p.cast? = none := by simp [InstOperandParams.cast?, hptr, hintr, TypeID.isFloatingPoint]
  intro e he y hy
  cases h with
  | direct logger x _ _ hpassed =>
    obtain rfl := List.mem_singleton.1 he
    cases hy
    cases hpassed v hv with
    | same h => simp [hcast] at h
    | folded h => simp [hcast] at h
    | intrinsic => rfl
    | string hno => simp [hintr] at hno
  | cast _ _ _ _ _ _ h => simp [hcast] at h
  | vector _ _ _ _ hvec => simp [hptr] at hvec
  | newVector _ _ _ hvec => simp [hptr] at hvec
  | unhandled => cases he

theorem LineEdits.point_of_logs {pt : Point} {pu : Purpose} {p : InstOperandParams} {g g' : Gen} {es : List Edit}
    (h : LineEdits pt pu p g es g') : ∀ e ∈ es, e.inst.logs? ≠ none → e.point = pt := by
  cases h <;> simp [vectorEdits, NewInst.logs?]

/-! ## In the plan -/

/-- A pointer an intrinsic is called with. -/
def hiddenPointer (I : Inst) (v : Value) : Bool := isHidden (callsIntrinsic I) v

/-- The calls for operands and results pass these on, an operand's before its
instruction. -/
structure PassesValues (F : Function) (g : Gen) (es : List Edit) (g' : Gen) : Prop where
  operand : ∀ e ∈ es, e.inst.logs? ≠ none → ∀ I ∈ F.insts, I.isPhi = false → ∀ k v, I.operands[k]? = some v →
    e.inst.purpose = .operand I.id k → e.point = .before (.orig I.id) ∧ Passes es e (callsIntrinsic I) v
  zero : ∀ e ∈ es, ∀ I ∈ F.insts, I.isPhi = false → ∀ k v, I.operands[k]? = some v →
    e.inst.purpose = .operand I.id k → hiddenPointer I v = true → isFunction v = false →
    ∀ y, e.inst.logs? = some y → y = (.ptr, .zero)
  result : ∀ e ∈ es, ∀ I ∈ F.insts, e.inst.purpose = .result I.id → Passes es e false I.value

theorem passesValues_composes (F : Function) : Composes (PassesValues F) where
  nil _ := ⟨by simp, by simp, by simp⟩
  append := by
    intro g g₁ g' es es' h h'
    constructor
    · intro e he hlogs I hI hphi k v hv hpu
      rcases List.mem_append.1 he with he | he
      · obtain ⟨hpt, hpasses⟩ := h.operand e he hlogs I hI hphi k v hv hpu
        exact ⟨hpt, hpasses.append [] es'⟩
      · obtain ⟨hpt, hpasses⟩ := h'.operand e he hlogs I hI hphi k v hv hpu
        have happ := hpasses.append es []
        rw [List.append_nil] at happ
        exact ⟨hpt, happ⟩
    · intro e he
      rcases List.mem_append.1 he with he | he
      · exact h.zero e he
      · exact h'.zero e he
    · intro e he I hI hpu
      rcases List.mem_append.1 he with he | he
      · exact (h.result e he I hI hpu).append [] es'
      · have happ := (h'.result e he I hI hpu).append es []
        rwa [List.append_nil] at happ

theorem passesValues_of_forall {F : Function} {g g' : Gen} {es : List Edit} (h : ∀ e ∈ es, e.inst.logs? = none) :
    PassesValues F g es g' where
  operand e he hlogs := absurd (h e he) hlogs
  zero e he _ _ _ _ _ _ _ _ _ y hy := by
    rw [h e he] at hy
    cases hy
  result e he _ _ _ logger op _ logger' x hx := by
    rw [h e he] at hx
    cases hx

theorem InstEdits.passesValues {F : Function} (hF : F.WF) {c : Ctx} {I : Inst} (hI : I ∈ F.insts) {pt next : Point}
    {env : InstEnv} {g g' : Gen} {es : List Edit} (hpt : I.isPhi = false → pt = .before (.orig I.id))
    (h : InstEdits c pt next I env g es g') : PassesValues F g es g' := by
  refine h.rel (passesValues_composes F) ?_ ?_ ?_ ?_
  · intro g pu k hk
    refine passesValues_of_forall fun e he => ?_
    rw [List.mem_singleton.1 he]
    cases k <;> simp_all [NewInst.logs?, LogCall.value?]
  · intro g es g' k v p hmem hspec hline
    constructor
    · intro e he hlogs J hJ hphi k' w hw hpu
      rw [hline.purpose e he] at hpu
      obtain ⟨hid, rfl⟩ := Purpose.operand.inj hpu
      obtain rfl := hF.eq_of_id hI hJ hid
      rw [mem_printedOperands hF hI hmem] at hw
      obtain rfl := Option.some.inj hw
      refine ⟨(hline.point_of_logs e he hlogs).trans (hpt hphi), fun logger op hlogging => ?_⟩
      obtain ⟨hne, -, htype⟩ := logging_cases hlogging
      have hlabel : v.ty.typeID ≠ .label := by
        intro hlabel
        rw [hlabel] at htype
        simp at htype
      have hpasses := hline.passes (hspec.valued hphi hlabel hne) hspec.datatype e he
      rw [hspec.intrinsic] at hpasses
      exact hpasses logger op hlogging
    · intro e he J hJ hphi k' w hw hpu hhidden hfun
      rw [hline.purpose e he] at hpu
      obtain ⟨hid, rfl⟩ := Purpose.operand.inj hpu
      obtain rfl := hF.eq_of_id hI hJ hid
      rw [mem_printedOperands hF hI hmem] at hw
      obtain rfl := Option.some.inj hw
      rw [hiddenPointer, isHidden, Bool.and_eq_true, decide_eq_true_eq] at hhidden
      have hlabel : v.ty.typeID ≠ .label := by simp [hhidden.2]
      have hne : ∀ name, v ≠ .function name := by
        rintro name rfl
        cases hfun
      exact hline.zero (hspec.valued hphi hlabel hne) (hspec.datatype.trans hhidden.2)
        (hspec.intrinsic.trans hhidden.1) e he
    · intro e he J hJ hpu
      rw [hline.purpose e he] at hpu
      cases hpu
  · intro g es g' instid p hty hspec hline
    constructor
    · intro e he hlogs J hJ hphi k' w hw hpu
      rw [hline.purpose e he] at hpu
      cases hpu
    · intro e he J hJ hphi k' w hw hpu
      rw [hline.purpose e he] at hpu
      cases hpu
    · intro e he J hJ hpu
      rw [hline.purpose e he] at hpu
      obtain rfl := hF.eq_of_id hI hJ (Purpose.result.inj hpu)
      have hpasses := hline.passes hspec.value hspec.datatype e he
      rwa [hspec.intrinsic] at hpasses
  · intro g slots
    exact passesValues_of_forall (by simp)

section

variable {cfg : Config} {F : Function} {c : Ctx} {p : Plan} (hp : Planned cfg F c p)
include hp

theorem Planned.passesValues (hF : F.WF) : ∃ g, PassesValues F .init p.blocks g := by
  obtain ⟨g, hblocks, -⟩ := hp.parts
  have hfunc := hp.func
  subst hfunc
  exact ⟨g, hblocks.rel (passesValues_composes c.func) fun I hI _ _ _ _ _ _ _ _ hpt h => h.passesValues hF hI hpt⟩

/-- An inserted call about an instruction is before an original one, behind
other insertions. -/
theorem Planned.place {b : Nat} {pre todo : List Node} {n : NewInst}
    (h : (instrumented F p).block b = pre ++ .new n :: todo) (hlogs : n.logs? ≠ none) {id : Nat}
    (hpu : n.purpose.inst? = some id) :
    ∃ front K rest l₁ l₂, K ∈ F.insts ∧ editsBefore p.blocks K.id = l₁ ++ n :: l₂ ∧ pre = front ++ l₁.map .new ∧
      todo = l₂.map .new ++ .orig K :: rest := by
  have hb : b < F.blocks.length := by
    by_contra hge
    simp [instrumented, render, Body.block, Nat.le_of_not_lt hge] at h
  rw [block_instrumented hb] at h
  rcases append_eq_split h with ⟨post, hfront, -⟩ | ⟨pre', rfl, hrest⟩
  · have hn : .new n ∈ (if b = 0 then (p.buffers ++ entryGroup p.entry).map Node.new else []) := by
      rw [hfront]
      simp
    split at hn
    · obtain ⟨m, hm, heq⟩ := List.mem_map.1 hn
      cases heq
      rcases List.mem_append.1 hm with hm | hm
      · have halloca := hp.isAlloca_of_mem_buffers hm
        obtain ⟨serial, pu, op⟩ := n
        cases op <;> simp_all [NewInst.isAlloca, NewInst.logs?]
      · -- The entry's lines are about no instruction.
        obtain ⟨e, he, -, rfl⟩ := mem_entryGroup.1 hm
        obtain ⟨g, -, hentry⟩ := hp.parts
        rcases hentry with ⟨-, hnil⟩ | ⟨-, g', hentry⟩
        · rw [hnil] at he
          cases he
        · rw [hentry.purpose e he] at hpu
          cases hpu
    · cases hn
  · obtain ⟨before, K, after, l₁, l₂, hcode, hgroup, rfl, rfl⟩ := split_renderInsts hrest
    have hK : K ∈ F.insts := Function.mem_insts_of_mem_code (b := b) (by rw [hcode]; simp)
    exact ⟨_, K, _, l₁, l₂, hK, hgroup, (List.append_assoc _ _ _).symm, rfl⟩

theorem Planned.editsBefore_nodup (id : Nat) : (editsBefore p.blocks id).Nodup := by
  obtain ⟨g, g', hmade, -⟩ := hp.made
  have hsorted : (editsBefore p.blocks id).Pairwise fun m n => m.serial < n.serial := by
    refine hmade.sorted_filterMap fun e n h => ?_
    split at h
    · exact (Option.some.inj h).symm
    · cases h
  exact hsorted.imp fun hlt heq => absurd (heq ▸ hlt) (Nat.lt_irrefl _)

/-- The insertion a run is at, of those about an instruction. -/
theorem Planned.edit_of_run {V M ε : Type} {S : Semantics V M ε} {d₀ : Data V M} {vs : List (Visit Nat (Event ε))}
    {n : NewInst} {todo : List Node} {s : Data V M × Temps V}
    (hrun : S.RunBody (instrumented F p) d₀ vs (.running (.new n :: todo) s)) {id : Nat} (hpu : n.purpose.inst? = some id) :
    ∃ v vs' pre, vs = v :: vs' ∧ (instrumented F p).block v.block = pre ++ .new n :: todo ∧
      ∃ e ∈ p.blocks, e.inst = n := by
  obtain ⟨v, vs', pre, rfl, hpre⟩ := hrun.position
  have hmem : .new n ∈ (instrumented F p).block v.block := by
    rw [hpre]
    exact List.mem_append_right _ List.mem_cons_self
  exact ⟨v, vs', pre, rfl, hpre, hp.exists_edit hmem hpu⟩

end

/-! ## In a run -/

section

variable {V M ε : Type} (S : Semantics V M ε)

/-- What the logger gets for a value of a type. -/
def Semantics.handed (op : CastOp) (ty : Ty) (x : V) : V := if op.isIdentity ty then x else S.cast op x

/-- The call `n` hands over what `v` is here. -/
def Semantics.HandsOver (d : Data V M) (t : Temps V) (n : NewInst) (v : Value) : Prop :=
  ∀ logger op, logging v = some (logger, op) → ∃ x y, n.logs? = some (logger, x) ∧ S.operand d.regs v = some y ∧
    S.logValue d t x = some (S.handed op v.ty y)

variable {S} {cfg : Config} {F : Function} {c : Ctx} {p : Plan} (hp : Planned cfg F c p)
  {d₀ : Data V M} {v : Visit Nat (Event ε)} {vs : List (Visit Nat (Event ε))} {e : Edit} {todo : List Node}
  {d : Data V M} {t : Temps V}
  (hrun : S.RunBody (instrumented F p) d₀ (v :: vs) (.running (.new e.inst :: todo) (d, t)))
include hp hrun

/-- The value of the cast just before. -/
theorem cast_before {op : CastOp} {w : Value} {l₁ l₂ : List Edit} {n : Nat}
    (hes : p.blocks = l₁ ++ ⟨e.point, n, e.inst.purpose, .cast op w⟩ :: e :: l₂) (hlogs : e.inst.logs? ≠ none) {id : Nat}
    (hpu : e.inst.purpose.inst? = some id) :
    ∃ y, S.operand d.regs w = some y ∧ t.values n = some (S.cast op y) := by
  obtain ⟨_, _, pre, hvs, hpre⟩ := hrun.position
  obtain ⟨rfl, rfl⟩ := List.cons.inj hvs
  obtain ⟨front, K, rest, m₁, m₂, hK, hgroup, rfl, -⟩ := hp.place hpre hlogs hpu
  have he : e ∈ p.blocks := by rw [hes]; simp
  have hpt : e.point = .before (.orig K.id) := by
    have hmem := mem_editsBefore.1 (show e.inst ∈ editsBefore p.blocks K.id by rw [hgroup]; simp)
    obtain ⟨g, g', hmade, -⟩ := hp.made
    rw [hmade.serial_inj he hmem rfl]
  -- The cast and the call are neighbours.
  have hcast : m₁ = editsBefore l₁ K.id ++ [⟨n, e.inst.purpose, .cast op w⟩] := by
    have hsplit : editsBefore p.blocks K.id =
        (editsBefore l₁ K.id ++ [⟨n, e.inst.purpose, .cast op w⟩]) ++ e.inst :: editsBefore l₂ K.id := by
      rw [hes, editsBefore_append]
      simp [editsBefore, hpt]
    have hnd := hp.editsBefore_nodup K.id
    rw [hgroup] at hsplit hnd
    rw [List.nodup_middle, List.nodup_cons, List.mem_append, not_or] at hnd
    exact ((List.append_cons_inj_of_notMem hnd.1.1 hnd.1.2).1 hsplit).1
  subst hcast
  have hcode : (instrumented F p).block v.block = (front ++ (editsBefore l₁ K.id).map .new) ++
      .new ⟨n, e.inst.purpose, .cast op w⟩ :: .new e.inst :: todo := by
    rw [hpre]
    simp [Conf.todo]
  obtain ⟨events, ⟨d', t'⟩, o, -, hstep⟩ := hrun.back hcode
  cases hstep with
  | new hnew =>
    cases hnew with
    | cast hy => exact ⟨_, hy, by simp [Temps.setValue]⟩

theorem handed_of_hands (hF : F.WF) {op : CastOp} {w : Value} {logger : ParamLogger} {x : LogValue} (he : e ∈ p.blocks)
    (hx : e.inst.logs? = some (logger, x)) {id : Nat} (hpu : e.inst.purpose.inst? = some id)
    (h : Hands p.blocks e op w x) :
    ∃ y, S.operand d.regs w = some y ∧ S.logValue d t x = some (S.handed op w.ty y) := by
  have hvalues : ∀ u ∈ x.values, u ∈ e.inst.values := by
    obtain ⟨pt, serial, pu, op⟩ := e
    cases op with
    | call k => cases k <;> simp_all [NewInst.logs?, NewInst.values, LogCall.value?]
    | _ => cases hx
  cases h with
  | same hid =>
    obtain ⟨y, hy⟩ := Option.ne_none_iff_exists'.1 (operand_ne_none hF hp hrun (hvalues w List.mem_cons_self))
    exact ⟨y, hy, by rw [Semantics.logValue, hy, Semantics.handed, if_pos hid]⟩
  | folded hid =>
    obtain ⟨y, hy⟩ := Option.ne_none_iff_exists'.1 (operand_ne_none hF hp hrun (hvalues w List.mem_cons_self))
    exact ⟨y, hy, by simp [Semantics.logValue, hy, Semantics.handed, hid]⟩
  | cast _ _ _ hid hes =>
    obtain ⟨y, hy, ht⟩ := cast_before hp hrun hes (by simp [hx]) hpu
    exact ⟨y, hy, by rw [Semantics.logValue, ht]; simp [Semantics.handed, hid]⟩

end

/-! ## Logged values -/

/-- In every execution, whenever the call of an operand's line is next, its
instruction is the next original one, and the logger is handed the operand's
value, if that is not hidden; and so for a result's line. -/
structure LogsValues (F : Function) (body : Body) (hidden : Inst → Value → Bool) : Prop where
  operand : ∀ {V M ε : Type} (S : Semantics V M ε) d₀ vs n todo d t,
    S.RunBody body d₀ vs (.running (.new n :: todo) (d, t)) → n.logs? ≠ none →
    ∀ I ∈ F.insts, I.isPhi = false → ∀ k v, I.operands[k]? = some v → n.purpose = .operand I.id k →
      (∃ (news : List NewInst) (rest : List Node), todo = news.map .new ++ .orig I :: rest) ∧
        (hidden I v = false → S.HandsOver d t n v)
  result : ∀ {V M ε : Type} (S : Semantics V M ε) d₀ vs n todo d t,
    S.RunBody body d₀ vs (.running (.new n :: todo) (d, t)) → n.logs? ≠ none →
    ∀ I ∈ F.insts, n.purpose = .result I.id → S.HandsOver d t n I.value

structure LogsOpenValues (cfg : Config) (F : Function) (body : Body) : Prop where
  values : LogsValues F body hiddenPointer
  /-- For a hidden pointer the logger gets a zero, for one to a string too. -/
  zero : ∀ b n, .new n ∈ body.block b → ∀ I ∈ F.insts, I.isPhi = false → ∀ k v, I.operands[k]? = some v →
    n.purpose = .operand I.id k → hiddenPointer I v = true → isFunction v = false →
    ∀ y, n.logs? = some y → y = (.ptr, .zero)
  /-- The operands of what is traced have their lines, and so have the results. -/
  operandLine : cfg.tracesBlocks F.name = true → ∀ I ∈ F.insts, cfg.covers I = true → ∀ k v,
    (v, k) ∈ printedOperands I → logging v ≠ none ∨ hiddenPointer I v = true →
    ∃ b n, .new n ∈ body.block b ∧ n.purpose = .operand I.id k ∧ n.logs? ≠ none
  resultLine : cfg.tracesBlocks F.name = true → ∀ I ∈ F.insts, cfg.covers I = true → logging I.value ≠ none →
    ∃ b n, .new n ∈ body.block b ∧ n.purpose = .result I.id ∧ n.logs? ≠ none

theorem isHandled_of_logging {v : Value} (h : logging v ≠ none) : isHandled v.ty.typeID = true := by
  obtain ⟨⟨logger, op⟩, hlogging⟩ := Option.ne_none_iff_exists'.1 h
  obtain ⟨-, -, ⟨hty, -⟩ | ⟨hty, -⟩⟩ := logging_cases hlogging <;> simp [isHandled, hty]

theorem printsOperand_of_isHandled {I : Inst} {v : Value} (h : isHandled v.ty.typeID = true) :
    printsOperand I v = true := by
  cases v <;> simp_all [printsOperand, Value.ty]

section

variable {cfg : Config} {F : Function} {c : Ctx} {p : Plan} (hp : Planned cfg F c p) (hF : F.WF)
include hp hF

/-- A line with a name is a call of the logger in some block. -/
theorem Planned.exists_call {e : Edit} (he : e ∈ p.blocks) (hname : e.inst.regName? ≠ none) :
    ∃ b n, .new n ∈ (instrumented F p).block b ∧ n.purpose = e.inst.purpose ∧ n.logs? ≠ none := by
  have hcall : e.inst.isAlloca = false ∧ e.inst.logs? ≠ none := by
    obtain ⟨pt, serial, pu, op⟩ := e
    cases op with
    | call k => cases k <;> simp_all [NewInst.regName?, NewInst.isAlloca, NewInst.logs?]
    | _ => exact absurd rfl hname
  obtain ⟨b, hb⟩ := hp.mem_block_of_edit hF he hcall.1
  exact ⟨b, e.inst, hb, rfl, hcall.2⟩

theorem Planned.logsValues : LogsValues F (instrumented F p) hiddenPointer := by
  obtain ⟨g, hvalues⟩ := hp.passesValues hF
  constructor
  · intro V M ε S d₀ vs n todo d t hrun hlogs I hI hphi k v hv hpu
    have hinst : n.purpose.inst? = some I.id := by rw [hpu]; rfl
    obtain ⟨_, _, pre, rfl, hpre, e, he, rfl⟩ := hp.edit_of_run hrun hinst
    obtain ⟨hpt, hpasses⟩ := hvalues.operand e he hlogs I hI hphi k v hv hpu
    constructor
    · obtain ⟨front, K, rest, l₁, l₂, hK, hgroup, -, htodo⟩ := hp.place hpre hlogs hinst
      have hbefore := mem_editsBefore.1 (show e.inst ∈ editsBefore p.blocks K.id by rw [hgroup]; simp)
      obtain ⟨g, g', hmade, -⟩ := hp.made
      have heq := hmade.serial_inj he hbefore rfl
      rw [heq] at hpt
      have hid : K.id = I.id := by simpa using hpt
      obtain rfl := hF.eq_of_id hK hI hid
      exact ⟨l₂, rest, htodo⟩
    · intro hhidden logger op hlogging
      obtain ⟨⟨logger', x⟩, hx⟩ := Option.ne_none_iff_exists'.1 hlogs
      obtain ⟨rfl, hhands⟩ := hpasses logger op hlogging logger' x hx
      rw [hiddenPointer] at hhidden
      rw [if_neg (by simp [hhidden])] at hhands
      obtain ⟨y, hy, hlog⟩ := handed_of_hands hp hrun hF he hx hinst hhands
      exact ⟨x, y, hx, hy, hlog⟩
  · intro V M ε S d₀ vs n todo d t hrun hlogs I hI hpu logger op hlogging
    have hinst : n.purpose.inst? = some I.id := by rw [hpu]; rfl
    obtain ⟨_, _, pre, rfl, hpre, e, he, rfl⟩ := hp.edit_of_run hrun hinst
    obtain ⟨⟨logger', x⟩, hx⟩ := Option.ne_none_iff_exists'.1 hlogs
    obtain ⟨rfl, hhands⟩ := hvalues.result e he I hI hpu logger op hlogging logger' x hx
    rw [if_neg (by simp [isHidden])] at hhands
    obtain ⟨y, hy, hlog⟩ := handed_of_hands hp hrun hF he hx hinst hhands
    exact ⟨x, y, hx, hy, hlog⟩

theorem Planned.logsOpenValues : LogsOpenValues cfg F (instrumented F p) where
  values := hp.logsValues hF
  zero := by
    intro b n hn I hI hphi k v hv hpu
    obtain ⟨g, hvalues⟩ := hp.passesValues hF
    have hinst : n.purpose.inst? = some I.id := by rw [hpu]; rfl
    obtain ⟨e, he, rfl⟩ := hp.exists_edit hn hinst
    exact hvalues.zero e he I hI hphi k v hv hpu
  operandLine := by
    intro htr I hI hcovers k v hmem hlogging
    obtain ⟨es, hes, hsub⟩ := hp.handled hF htr hI hcovers
    have hhandled : isHandled v.ty.typeID = true := by
      rcases hlogging with hlogging | hhidden
      · exact isHandled_of_logging hlogging
      · rw [hiddenPointer, isHidden, Bool.and_eq_true, decide_eq_true_eq] at hhidden
        simp [isHandled, hhidden.2]
    obtain ⟨e, he, hpu, hname⟩ := hes.exists_line hmem (printsOperand_of_isHandled hhandled)
    rw [← hpu]
    exact hp.exists_call hF (hsub e he) hname
  resultLine := by
    intro htr I hI hcovers hlogging
    obtain ⟨es, hes, hsub⟩ := hp.handled hF htr hI hcovers
    obtain ⟨e, he, hpu, hname⟩ := hes.exists_result hp.func hI (isHandled_of_logging hlogging)
    rw [← hpu]
    exact hp.exists_call hF (hsub e he) (by simp [hname])

end

/-- **Logged values.** The logger is handed the operands' and the results'
values, but for the pointers of an intrinsic's call. -/
theorem runOnFunction_logsOpenValues {cfg : Config} {F : Function} {body : Body} (hF : F.WF)
    (hC : cfg.isCFunction F.name = true) (h : runOnFunction cfg F = .ok body) : LogsOpenValues cfg F body := by
  obtain ⟨c, p, hp, rfl⟩ := runOnFunction_ok hF hC h
  exact hp.logsOpenValues hF

theorem runOnFunction_logsOpenValues_addOne : LogsOpenValues topConfig addOne addOneBody :=
  runOnFunction_logsOpenValues addOne_wf (by decide) runOnFunction_addOne

def bytePointer : Value := .arg ⟨0, "p", .pointer (.integer 8)⟩

def memcpyInst : Inst where
  id := 0
  name := ""
  ty := .void
  kind := .call (some ⟨"llvm.memcpy.p0i8.p0i8.i64", 5⟩)
  operands := [bytePointer, bytePointer, .constant (.integer 64) "4", .constant i32 "1", .constant (.integer 1) "false",
    .function "llvm.memcpy.p0i8.p0i8.i64"]
  line := some 1

/-- `void top(char *p) { memcpy(p, p, 4); }` -/
def copySelf : Function where
  name := "top"
  params := [("p", .pointer (.integer 8))]
  blocks := [⟨"entry", [memcpyInst, ⟨1, "", .void, .ret, [], some 1⟩]⟩]
  loops := ⟨fun _ => 0, fun _ => none, fun _ => none⟩

def pointerLine (serial : Nat) (pu : Purpose) (num : Nat) (value : LogValue) (name : String) : Node :=
  .new ⟨serial, pu, .call (.param .ptr num 64 value true name false phiText)⟩

def sizeLine (serial k size : Nat) (value : LogValue) : Node :=
  .new ⟨serial, .operand 0 k, .call (.param .int (k + 1) size value false "" false phiText)⟩

def copySelfBody : Body :=
  [[.new ⟨9, .entryStatus, .call (.updateStatus "top" 0 true true)⟩,
    .new ⟨10, .entry, .call (.logEntry "top" 1)⟩,
    .new ⟨11, .argument 0, .cast .ptrToInt bytePointer⟩,
    pointerLine 12 (.argument 0) 1 (.node 11) "p",
    .new ⟨0, .first 0, .call (.log0 1 "top" "entry:0" "entry:0-0" 104 true true)⟩,
    pointerLine 1 (.operand 0 5) 6 .zero "llvm.memcpy.p0i8.p0i8.i64",
    pointerLine 2 (.operand 0 0) 1 .zero "p",
    pointerLine 3 (.operand 0 1) 2 .zero "p",
    sizeLine 4 2 64 (.value (.constant (.integer 64) "4")),
    sizeLine 5 3 32 (.folded .zext (.constant i32 "1")),
    sizeLine 6 4 1 (.folded .zext (.constant (.integer 1) "false")),
    .orig memcpyInst,
    .new ⟨7, .first 1, .call (.log0 1 "top" "entry:0" "entry:0-1" 1 true true)⟩,
    .new ⟨8, .ret 1, .call (.updateStatus "top" 1 true true)⟩,
    .orig ⟨1, "", .void, .ret, [], some 1⟩]]

/-- Of the pointers `memcpy` is called with the logger gets zeros. -/
theorem not_logsValues_copySelf : copySelf.WF ∧ topConfig.isCFunction copySelf.name = true ∧
    runOnFunction topConfig copySelf = .ok copySelfBody ∧ ¬ LogsValues copySelf copySelfBody fun _ _ => false := by
  refine ⟨Function.wf_of_isLocal (by decide), by decide, rfl, fun hlogs => ?_⟩
  have h₀ : addSemantics.RunBody copySelfBody calledData _ _ := .start
  have h₁ := h₀.next (.new (.call (by intro x hx; cases hx)))
  have h₂ := h₁.next (.new (.call (by intro x hx; cases hx)))
  have h₃ := h₂.next (.new (.cast rfl))
  have h₄ := h₃.next (.new (.call (by intro x hx; cases hx; simp [Semantics.logValue, Temps.setValue])))
  have h₅ := h₄.next (.new (.call (by intro x hx; cases hx)))
  have h₆ := h₅.next (.new (.call (by intro x hx; cases hx; simp [Semantics.logValue])))
  have hhands := (hlogs.operand addSemantics _ _ _ _ _ _ h₆ (by decide) memcpyInst (by decide) rfl 0 bytePointer rfl rfl).2 rfl
  obtain ⟨x, y, hx, hy, hvalue⟩ := hhands .ptr .ptrToInt rfl
  cases hx
  cases hy
  exact absurd hvalue (by decide)

end LlvmTracer.Pass
