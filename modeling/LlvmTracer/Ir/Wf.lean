/-
Well-formed functions: what LLVM's verifier ensures, as far as the passes
depend on it.
-/
import Mathlib.Data.List.Nodup
import Mathlib.Data.List.TakeWhile
import LlvmTracer.Ir.Syntax
import LlvmTracer.Lib.Dominance

namespace LlvmTracer.Ir

/-- The phis come first, then perhaps one pad, and the block's only
terminator is its last instruction. -/
structure Block.WF (b : Block) : Prop where
  phis : ∀ I ∈ b.insts.dropWhile Inst.isPhi, I.isPhi = false
  pads : ∀ I ∈ (b.insts.dropWhile Inst.isPhi).tail, I.isEHPad = false
  terminated : b.terminator ≠ none
  terminators : ∀ I ∈ b.insts.dropLast, I.isTerminator = false

def blockIndex : Value → Option Nat
  | .block b => some b.index
  | _ => none

/-- The blocks a block's terminator has among its operands. -/
def Function.succs (F : Function) (b : Nat) : List Nat :=
  match F.terminator b with
  | none => []
  | some I => I.operands.filterMap blockIndex

/-- A block's instructions. -/
def Function.code (F : Function) (b : Nat) : List Inst := (F.blocks[b]?.map Block.insts).getD []

/-- `J` is executed on every path to the point of block `b` after `pre`. -/
def Function.Dominates (F : Function) (J : Inst) (b : Nat) (pre : List Inst) : Prop :=
  Dominance.Dominates F.succs 0 F.code J b pre

/-- An operand is of the function: an instruction's result, an argument or a
block of it. -/
def Function.Has (F : Function) : Value → Prop
  | .inst r => ∃ J ∈ F.insts, J.ref = r ∧ J.ty ≠ .void
  | .arg a => a ∈ F.args
  | .block b => b ∈ F.blockRefs
  | _ => True

structure Function.WF (F : Function) : Prop where
  ids : (F.insts.map Inst.id).Nodup
  blocks : ∀ b ∈ F.blocks, b.WF
  /-- The entry block has no predecessors: no phis and no pad. -/
  entry : ∃ I rest, F.code 0 = I :: rest ∧ I.isPhi = false ∧ I.isEHPad = false
  operands : ∀ I ∈ F.insts, ∀ v ∈ I.operands, F.Has v
  phis : ∀ I ∈ F.insts, I.isPhi →
    I.ty ≠ .void ∧ I.incoming ≠ [] ∧ I.incoming.length = I.operands.length ∧ (∀ b ∈ I.incoming, b ∈ F.blockRefs) ∧
      ∀ v ∈ I.operands, v.ty = I.ty
  calls : ∀ I ∈ F.insts, ∀ callee, I.calledFunction = some callee →
    callee.numParams < I.operands.length ∧ I.operands.getLast? = some (.function callee.name)
  allocas : ∀ I ∈ F.insts, I.isAlloca → I.ty ≠ .void
  /-- No instruction produces a label. -/
  labels : ∀ I ∈ F.insts, I.ty ≠ .label
  bitcasts : ∀ I ∈ F.insts, I.kind = .bitcast → I.ty ≠ .void ∧ I.operands.length = 1
  dominance : ∀ b pre I post, F.code b = pre ++ I :: post → I.isPhi = false →
    ∀ J ∈ F.insts, J.value ∈ I.operands → F.Dominates J b pre
  /-- A phi's operand is executed on every path through the block it comes from. -/
  phiDominance : ∀ I ∈ F.insts, ∀ (k : Nat) (source : BlockRef) (J : Inst), I.isPhi → I.incoming[k]? = some source →
    I.operands[k]? = some J.value → J ∈ F.insts → F.Dominates J source.index (F.code source.index)

/-- The instructions from a block's first insertion point on. -/
def pastPhis (insts : List Inst) : List Inst :=
  match insts.dropWhile Inst.isPhi with
  | [] => []
  | I :: rest => if I.isEHPad then rest else I :: rest

theorem pastPhis_suffix (insts : List Inst) : pastPhis insts <:+ insts := by
  have hdrop : insts.dropWhile Inst.isPhi <:+ insts := List.dropWhile_suffix _
  unfold pastPhis
  split
  · exact List.nil_suffix
  · rename_i I rest heq
    rw [heq] at hdrop
    split
    · exact (List.suffix_cons I rest).trans hdrop
    · exact hdrop

/-- A block's phis, perhaps a pad, and the rest. -/
theorem exists_pads (insts : List Inst) : ∃ pads, insts.takeWhile Inst.isPhi ++ pads ++ pastPhis insts = insts ∧
    ∀ I ∈ pads, I.isPhi = false ∧ I.isEHPad = true := by
  have hsplit : insts.takeWhile Inst.isPhi ++ insts.dropWhile Inst.isPhi = insts := List.takeWhile_append_dropWhile
  unfold pastPhis
  split
  · rename_i hdrop
    rw [hdrop] at hsplit
    exact ⟨[], by simpa using hsplit, by simp⟩
  · rename_i J rest hdrop
    have hJ : J.isPhi = false := by
      have hhead := List.head?_dropWhile_not Inst.isPhi insts
      rw [hdrop] at hhead
      simpa using hhead
    rw [hdrop] at hsplit
    split
    · rename_i hpad
      exact ⟨[J], by simpa using hsplit, by simpa using ⟨hJ, hpad⟩⟩
    · exact ⟨[], by simpa using hsplit, by simp⟩

/-- What comes before the first insertion point. -/
theorem isPhi_or_isEHPad {insts before : List Inst} (h : before ++ pastPhis insts = insts) {I : Inst} (hI : I ∈ before) :
    I.isPhi = true ∨ I.isEHPad = true := by
  obtain ⟨pads, hsplit, hpads⟩ := exists_pads insts
  rw [List.append_cancel_right (h.trans hsplit.symm)] at hI
  rcases List.mem_append.1 hI with hI | hI
  · exact .inl (List.mem_takeWhile_imp hI)
  · exact .inr (hpads I hI).2

theorem not_isCall_of_isPhi_or_isEHPad {I : Inst} (h : I.isPhi = true ∨ I.isEHPad = true) :
    I.isCall = false ∧ I.isInvoke = false := by
  cases hk : I.kind <;> simp_all [Inst.isPhi, Inst.isEHPad, Inst.isCall, Inst.isInvoke, Inst.opcode]

namespace Function

variable {F : Function} {I J : Inst} {b : Nat}

theorem mem_insts_of_mem_code (h : I ∈ F.code b) : I ∈ F.insts := by
  unfold code at h
  cases hb : F.blocks[b]? with
  | none => simp [hb] at h
  | some blk =>
    rw [hb] at h
    exact List.mem_flatMap.2 ⟨blk, List.mem_of_getElem? hb, h⟩

theorem exists_code_of_mem_insts (h : I ∈ F.insts) : ∃ b < F.blocks.length, I ∈ F.code b := by
  obtain ⟨blk, hblk, hI⟩ := List.mem_flatMap.1 h
  obtain ⟨b, hb, rfl⟩ := List.getElem_of_mem hblk
  exact ⟨b, hb, by simp [code, hb, hI]⟩

theorem code_eq_insts (hb : b < F.blocks.length) : F.code b = F.blocks[b].insts := by
  simp [code, hb]

theorem lt_length_of_mem_code (h : I ∈ F.code b) : b < F.blocks.length := by
  by_contra hge
  simp [code, List.getElem?_eq_none (Nat.le_of_not_lt hge)] at h

/-! ## Local slots -/

theorem localSlot_nonneg {v : Value} (h : v ∈ F.slots) : 0 ≤ F.localSlot v := by
  obtain ⟨n, hn⟩ := Option.isSome_iff_exists.1 (List.isSome_idxOf?.2 h)
  simp [localSlot, hn]

theorem localSlot_of_neg {v : Value} (h : F.localSlot v < 0) : F.localSlot v = -1 := by
  unfold localSlot at h ⊢
  split
  · next heq =>
    rw [heq] at h
    exact absurd h (Int.not_lt.2 (Int.natCast_nonneg _))
  · rfl

theorem localSlot_inj {v w : Value} (hv : 0 ≤ F.localSlot v) (h : F.localSlot v = F.localSlot w) : v = w := by
  unfold localSlot at hv h
  cases hn : F.slots.idxOf? v with
  | none =>
    rw [hn] at hv
    exact absurd hv (by decide)
  | some n =>
    cases hm : F.slots.idxOf? w with
    | none =>
      rw [hn, hm] at h
      exact absurd h (by simp)
    | some m =>
      rw [hn, hm] at h
      obtain ⟨hlt, hv', -⟩ := List.idxOf?_eq_some_iff.1 hn
      obtain ⟨_, hw', -⟩ := List.idxOf?_eq_some_iff.1 hm
      have hnm : n = m := Int.ofNat.inj h
      subst hnm
      exact hv'.symm.trans hw'

theorem mem_slots (h : I ∈ F.insts) (hty : I.ty ≠ .void) (hname : I.name = "") : I.value ∈ F.slots := by
  obtain ⟨b, hb, hI⟩ := exists_code_of_mem_insts h
  refine List.mem_append_right _ (List.mem_flatten.2 ⟨slotsOfBlock b F.blocks[b], ?_, ?_⟩)
  · exact List.mem_mapIdx.2 ⟨b, hb, rfl⟩
  · rw [code_eq_insts hb] at hI
    exact List.mem_append_right _ (List.mem_map_of_mem (List.mem_filter.2 ⟨hI, by simp [hty, hname]⟩))

/-- An instruction without a result has no slot. -/
theorem localSlot_of_void (hty : I.ty = .void) : F.localSlot I.value = -1 := by
  have hslots : I.value ∉ F.slots := by
    intro hmem
    rcases List.mem_append.1 hmem with hmem | hmem
    · obtain ⟨a, -, ha⟩ := List.mem_map.1 hmem
      cases ha
    · obtain ⟨vs, hvs, hmem⟩ := List.mem_flatten.1 hmem
      obtain ⟨b, hb, rfl⟩ := List.mem_mapIdx.1 hvs
      rcases List.mem_append.1 hmem with hmem | hmem
      · split at hmem
        · cases List.mem_singleton.1 hmem
        · cases hmem
      · obtain ⟨J, hJ, heq⟩ := List.mem_map.1 hmem
        have hJty : J.ty ≠ .void ∧ J.name = "" := by simpa using (List.mem_filter.1 hJ).2
        have href : J.ref = I.ref := Value.inst.inj heq
        exact hJty.1 ((congrArg InstRef.ty href).trans hty)
  rw [localSlot, List.idxOf?_eq_none_iff.2 hslots]

namespace WF

variable (hF : F.WF)
include hF

theorem code_ids_nodup (b : Nat) : ((F.code b).map Inst.id).Nodup := by
  unfold code
  cases hb : F.blocks[b]? with
  | none => simp
  | some blk =>
    have := hF.ids
    rw [insts, List.map_flatMap] at this
    exact (List.nodup_flatMap.1 this).1 blk (List.mem_of_getElem? hb)

theorem eq_of_id (hI : I ∈ F.insts) (hJ : J ∈ F.insts) (h : I.id = J.id) : I = J :=
  List.inj_on_of_nodup_map hF.ids hI hJ h

theorem operands_ne_nil (hI : I ∈ F.insts) (hcall : I.calledFunction ≠ none) : I.operands ≠ [] := by
  obtain ⟨callee, hcallee⟩ := Option.ne_none_iff_exists'.1 hcall
  exact List.ne_nil_of_length_pos (Nat.zero_lt_of_lt (hF.calls I hI callee hcallee).1)

theorem block_wf (hb : b < F.blocks.length) : F.blocks[b].WF := hF.blocks _ (List.getElem_mem hb)

theorem isPhi_of_mem_pastPhis (h : I ∈ pastPhis (F.code b)) : I.isPhi = false := by
  have hmem : I ∈ (F.code b).dropWhile Inst.isPhi := by
    unfold pastPhis at h
    split at h
    · cases h
    · rename_i J rest heq
      rw [heq]
      split at h
      · exact List.mem_cons_of_mem _ h
      · exact h
  have hb : b < F.blocks.length := lt_length_of_mem_code ((List.dropWhile_suffix _).subset hmem)
  rw [code_eq_insts hb] at hmem
  exact (hF.block_wf hb).phis I hmem

/-- An instruction is in one block. -/
theorem block_unique {i j : Nat} (hI : I ∈ F.code i) (hJ : I ∈ F.code j) : i = j := by
  have hdisj : ∀ {i j : Nat}, i < j → I ∈ F.code i → I ∈ F.code j → False := by
    intro i j hij hI hJ
    have hnd := hF.ids
    rw [insts, List.map_flatMap] at hnd
    have hj : j < F.blocks.length := lt_length_of_mem_code hJ
    have hi : i < F.blocks.length := Nat.lt_trans hij hj
    rw [code_eq_insts hi] at hI
    rw [code_eq_insts hj] at hJ
    have := List.pairwise_iff_getElem.1 (List.nodup_flatMap.1 hnd).2 i j hi hj hij
    exact this (List.mem_map_of_mem hI) (List.mem_map_of_mem hJ)
  rcases Nat.lt_trichotomy i j with h | h | h
  · exact (hdisj h hI hJ).elim
  · exact h
  · exact (hdisj h hJ hI).elim

end WF

theorem mem_blockRefs {r : BlockRef} (h : r ∈ F.blockRefs) : r.index < F.blocks.length := by
  obtain ⟨i, hi, rfl⟩ := List.mem_mapIdx.1 h
  exact hi

theorem blockRefs_inj {r r' : BlockRef} (h : r ∈ F.blockRefs) (h' : r' ∈ F.blockRefs) (hi : r.index = r'.index) :
    r = r' := by
  obtain ⟨i, hlt, rfl⟩ := List.mem_mapIdx.1 h
  obtain ⟨j, hlt', rfl⟩ := List.mem_mapIdx.1 h'
  have hij : i = j := hi
  subst hij
  rfl

theorem blockRefs_pairwise (F : Function) : F.blockRefs.Pairwise fun a b => a.index < b.index := by
  rw [List.pairwise_iff_getElem]
  intro i j hi hj hij
  simpa [blockRefs] using hij

/-! ## Control flow -/

/-- Nothing goes back to the entry block, and control leaves the function at
a return. -/
structure Flow (F : Function) : Prop where
  entry : ∀ b, 0 ∉ F.succs b
  rets : ∀ I ∈ F.insts, I.kind = .ret → I.operands.filterMap blockIndex = []

theorem mem_insts_of_terminator (h : F.terminator b = some I) : I ∈ F.insts := by
  obtain ⟨blk, hblk, hterm⟩ := Option.bind_eq_some_iff.1 h
  have hlast := (Option.filter_eq_some_iff.1 hterm).1
  exact List.mem_flatMap.2 ⟨blk, List.mem_of_getElem? hblk, List.mem_of_getLast? hlast⟩

/-- Control never leaves the entry block. -/
theorem Flow.of_no_block (h : ∀ I ∈ F.insts, I.operands.filterMap blockIndex = []) : F.Flow := by
  refine ⟨fun b hb => ?_, fun I hI _ => h I hI⟩
  unfold succs at hb
  split at hb
  · cases hb
  · rename_i I hterm
    rw [h I (mem_insts_of_terminator hterm)] at hb
    cases hb

/-- A path to the return `R`, listed from the return's block back. -/
structure ReturnPath (F : Function) (π : List Nat) (R : Inst) : Prop where
  path : Dominance.Path F.succs 0 π
  ret : R.kind = .ret
  last : ∃ b rest pre, π = b :: rest ∧ F.code b = pre ++ [R]

theorem isTerminator_of_ret (h : I.kind = .ret) : I.isTerminator = true := by
  simp [Inst.isTerminator, Inst.opcode, h]

/-- A block's terminator is its last instruction. -/
theorem WF.terminator_eq (hF : F.WF) (hI : I ∈ F.code b) (hterm : I.isTerminator = true) : F.terminator b = some I := by
  have hb : b < F.blocks.length := lt_length_of_mem_code hI
  rw [code_eq_insts hb] at hI
  have hlast : F.blocks[b].insts.getLast? = some I := by
    rcases List.eq_nil_or_concat F.blocks[b].insts with hnil | ⟨pre, J, hsplit⟩
    · rw [hnil] at hI
      cases hI
    · rw [List.concat_eq_append] at hsplit
      rw [hsplit] at hI ⊢
      rcases List.mem_append.1 hI with hpre | hJ
      · rw [(hF.block_wf hb).terminators I (by rw [hsplit, List.dropLast_concat]; exact hpre)] at hterm
        cases hterm
      · simp [List.mem_singleton.1 hJ]
  simp [terminator, hb, Block.terminator, hlast, hterm]

theorem WF.eq_last_of_ret (hF : F.WF) (hI : I ∈ F.code b) (hret : I.kind = .ret) : F.terminator b = some I :=
  hF.terminator_eq hI (isTerminator_of_ret hret)

theorem WF.not_ret_of_append (hF : F.WF) {pre : List Inst} (hcode : F.code b = pre ++ [I]) {J : Inst} (hJ : J ∈ pre) :
    J.kind ≠ .ret := by
  intro hret
  have hb : b < F.blocks.length := lt_length_of_mem_code (hcode ▸ List.mem_append_left [I] hJ)
  rw [code_eq_insts hb] at hcode
  have hterm := (hF.block_wf hb).terminators J (by rw [hcode, List.dropLast_concat]; exact hJ)
  rw [isTerminator_of_ret hret] at hterm
  cases hterm

/-- A block that control goes on from has no return. -/
theorem Flow.not_ret (h : F.Flow) (hF : F.WF) {b' : Nat} (hb : b' ∈ F.succs b) (hI : I ∈ F.code b) :
    I.kind ≠ .ret := by
  intro hret
  rw [succs, hF.eq_last_of_ret hI hret] at hb
  have hnil := h.rets I (mem_insts_of_mem_code hI) hret
  simp only [hnil] at hb
  cases hb

theorem Flow.not_ret_of_path (h : F.Flow) (hF : F.WF) {π : List Nat} (hπ : Dominance.Path F.succs 0 (b :: π)) :
    ∀ b' ∈ π, ∀ I ∈ F.code b', I.kind ≠ .ret := by
  generalize hp : b :: π = p at hπ
  induction hπ generalizing b π with
  | entry =>
    obtain ⟨-, rfl⟩ := List.cons.inj hp
    simp
  | @step b₁ b₂ ρ _ hsucc ih =>
    obtain ⟨-, rfl⟩ := List.cons.inj hp
    intro b' hb' I hI
    rcases List.mem_cons.1 hb' with rfl | hb'
    · exact h.not_ret hF hsucc hI
    · exact ih rfl b' hb' I hI

/-- A path starts at the entry block, and does not come back there. -/
theorem Flow.path_entry (h : F.Flow) {π : List Nat} (hπ : Dominance.Path F.succs 0 π) :
    ∃ ρ, π = ρ ++ [0] ∧ 0 ∉ ρ := by
  obtain ⟨ρ, heq, hback⟩ := hπ.exists_concat
  exact ⟨ρ, heq, hback h.entry⟩

/-- A return on a path is at its end. -/
theorem Flow.returnPath (h : F.Flow) (hF : F.WF) {π : List Nat} (hπ : Dominance.Path F.succs 0 π) (hb : b ∈ π)
    (hI : I ∈ F.code b) (hret : I.kind = .ret) : F.ReturnPath π I := by
  refine ⟨hπ, hret, ?_⟩
  cases π with
  | nil => cases hb
  | cons b₀ rest =>
    rcases List.mem_cons.1 hb with rfl | hb
    · obtain ⟨pre, J, hsplit⟩ : ∃ pre J, F.code b = pre ++ [J] := by
        rcases List.eq_nil_or_concat (F.code b) with hnil | ⟨pre, J, hsplit⟩
        · rw [hnil] at hI
          cases hI
        · exact ⟨pre, J, by rw [hsplit, List.concat_eq_append]⟩
      rw [hsplit] at hI
      rcases List.mem_append.1 hI with hpre | hJ
      · exact absurd hret (hF.not_ret_of_append hsplit hpre)
      · exact ⟨b, rest, pre, rfl, by rw [hsplit, List.mem_singleton.1 hJ]⟩
    · exact absurd hret (h.not_ret_of_path hF hπ b hb I hI)

/-! ## Layout order -/

/-- The instructions laid out before `I`. -/
def before (F : Function) (I : Inst) : List Inst := F.insts.takeWhile fun J => J ≠ I

theorem before_prefix (F : Function) (I : Inst) : F.before I <+: F.insts := List.takeWhile_prefix _

theorem not_mem_before (F : Function) (I : Inst) : I ∉ F.before I := fun h => by
  simpa using List.mem_takeWhile_imp h

/-- What comes before an element. -/
theorem takeWhile_ne {l l' : List Inst} (h : I ∉ l) : (l ++ I :: l').takeWhile (fun J => J ≠ I) = l := by
  have hl : ∀ J ∈ l, decide (J ≠ I) = true := by
    intro J hJ
    have hne : J ≠ I := fun heq => h (heq ▸ hJ)
    simpa using hne
  rw [List.takeWhile_append_of_pos hl, List.takeWhile_cons_of_neg (by simp), List.append_nil]

theorem WF.not_mem_of_split (hF : F.WF) {l l' : List Inst} (h : F.insts = l ++ I :: l') : I ∉ l := by
  have hnd := hF.ids.of_map
  rw [h, List.nodup_middle, List.nodup_cons, List.mem_append, not_or] at hnd
  exact hnd.1.1

theorem WF.before_eq (hF : F.WF) {l l' : List Inst} (h : F.insts = l ++ I :: l') : F.before I = l := by
  rw [before, h, takeWhile_ne (hF.not_mem_of_split h)]

theorem WF.before_split (hF : F.WF) (hI : I ∈ F.insts) : ∃ l', F.insts = F.before I ++ I :: l' := by
  obtain ⟨l, l', hsplit⟩ := List.append_of_mem hI
  exact ⟨l', by rw [hF.before_eq hsplit, hsplit]⟩

/-! ## Functions whose results stay in their blocks -/

/-- An operand is there before its use. -/
def defines (F : Function) (before : List Inst) : Value → Bool
  | .inst r => before.any fun J => J.ref = r ∧ J.ty ≠ .void
  | .arg a => F.args.contains a
  | .block b => F.blockRefs.contains b
  | _ => true

/-- A phi's operands are there at the end of the blocks they come from. -/
def checkPhi (F : Function) (I : Inst) : Bool :=
  (I.ty ≠ .void ∧ I.incoming ≠ [] ∧ I.incoming.length = I.operands.length) &&
    I.incoming.all F.blockRefs.contains && I.operands.all (fun v => v.ty = I.ty) &&
    (I.incoming.zip I.operands).all fun x => F.defines (F.code x.1.index) x.2

def checkInst (F : Function) (before : List Inst) (I : Inst) : Bool :=
  (if I.isPhi then F.checkPhi I else I.operands.all (F.defines before)) && !I.isEHPad &&
    (match I.calledFunction with
    | none => true
    | some callee => callee.numParams < I.operands.length ∧ I.operands.getLast? = some (.function callee.name)) &&
    ((I.isAlloca ∨ I.kind = .bitcast → I.ty ≠ .void) ∧ I.ty ≠ .label ∧ (I.kind = .bitcast → I.operands.length = 1))

def checkInsts (F : Function) (before : List Inst) : List Inst → Bool
  | [] => true
  | I :: rest => F.checkInst before I && checkInsts F (before ++ [I]) rest

def checkBlock (F : Function) (b : Block) : Bool :=
  (b.insts.dropWhile Inst.isPhi).all (fun I => !I.isPhi) && b.terminator.isSome &&
    b.insts.dropLast.all (fun I => !I.isTerminator) && F.checkInsts [] b.insts

/-- A function without pads whose operands that are results are of the
user's own block, or of the block a phi's operand comes from. -/
def isLocal (F : Function) : Bool :=
  (F.insts.map Inst.id).Nodup && F.blocks.all F.checkBlock && (F.code 0).head?.any fun I => !I.isPhi

theorem checkInst_of_split {before insts pre post : List Inst} (h : F.checkInsts before insts = true)
    (hsplit : insts = pre ++ I :: post) : F.checkInst (before ++ pre) I = true := by
  induction pre generalizing before insts with
  | nil =>
    subst hsplit
    rw [List.append_nil]
    exact (Bool.and_eq_true_iff.1 h).1
  | cons J pre ih =>
    subst hsplit
    have hrest := ih (Bool.and_eq_true_iff.1 h).2 rfl
    rwa [List.append_assoc] at hrest

/-- What `checkPhi` makes sure of. -/
structure CheckedPhi (F : Function) (I : Inst) : Prop where
  result : I.ty ≠ .void
  nonempty : I.incoming ≠ []
  length : I.incoming.length = I.operands.length
  blocks : ∀ b ∈ I.incoming, b ∈ F.blockRefs
  types : ∀ v ∈ I.operands, v.ty = I.ty
  operands : ∀ (k : Nat) source v, I.incoming[k]? = some source → I.operands[k]? = some v →
    F.defines (F.code source.index) v = true

theorem checkedPhi_of_checkPhi (h : F.checkPhi I = true) : F.CheckedPhi I := by
  simp only [checkPhi, Bool.and_eq_true, List.all_eq_true, decide_eq_true_eq] at h
  obtain ⟨⟨⟨⟨hty, hne, hlen⟩, hblocks⟩, htypes⟩, hops⟩ := h
  refine ⟨hty, hne, hlen, fun b hb => by simpa using hblocks b hb, htypes, fun k source v hsource hv => ?_⟩
  exact hops (source, v) (List.mem_of_getElem? (List.getElem?_zip_eq_some.2 ⟨hsource, hv⟩))

/-- What `checkInst` makes sure of for an instruction after `pre`. -/
structure Checked (F : Function) (pre : List Inst) (I : Inst) : Prop where
  phi : I.isPhi = true → F.CheckedPhi I
  operands : I.isPhi = false → ∀ v ∈ I.operands, F.defines pre v = true
  pad : I.isEHPad = false
  call : ∀ callee, I.calledFunction = some callee →
    callee.numParams < I.operands.length ∧ I.operands.getLast? = some (.function callee.name)
  result : I.isAlloca = true ∨ I.kind = .bitcast → I.ty ≠ .void
  label : I.ty ≠ .label
  bitcast : I.kind = .bitcast → I.operands.length = 1

theorem checked_of_checkInst {pre : List Inst} (h : F.checkInst pre I = true) : F.Checked pre I := by
  simp only [checkInst, Bool.and_eq_true, Bool.not_eq_true', decide_eq_true_eq] at h
  obtain ⟨⟨⟨hops, hpad⟩, hcall⟩, hresult, hlabel, hbit⟩ := h
  refine ⟨fun hphi => checkedPhi_of_checkPhi ?_, fun hphi => ?_, hpad, fun callee hc => by simpa [hc] using hcall,
    hresult, hlabel, hbit⟩
  · rwa [if_pos hphi] at hops
  · rw [if_neg (by simp [hphi])] at hops
    exact List.all_eq_true.1 hops

/-- What `isLocal` makes sure of. -/
structure Local (F : Function) : Prop where
  ids : (F.insts.map Inst.id).Nodup
  blocks : ∀ b ∈ F.blocks, b.WF
  entry : ∃ I rest, F.code 0 = I :: rest ∧ I.isPhi = false
  checked : ∀ b pre I post, F.code b = pre ++ I :: post → F.Checked pre I

theorem checked_of_checkBlock {blk : Block} {pre post : List Inst} (h : F.checkBlock blk = true)
    (hsplit : blk.insts = pre ++ I :: post) : F.Checked pre I :=
  checked_of_checkInst (checkInst_of_split (Bool.and_eq_true_iff.1 h).2 hsplit)

theorem block_wf_of_checkBlock {blk : Block} (h : F.checkBlock blk = true) : blk.WF := by
  have hpad : ∀ I ∈ (blk.insts.dropWhile Inst.isPhi).tail, I.isEHPad = false := by
    intro I hI
    obtain ⟨pre, post, hsplit⟩ := List.append_of_mem ((List.dropWhile_suffix _).subset (List.mem_of_mem_tail hI))
    exact (checked_of_checkBlock h hsplit).pad
  simp only [checkBlock, Bool.and_eq_true, List.all_eq_true, Bool.not_eq_true'] at h
  obtain ⟨⟨⟨hphis, hterm⟩, hterms⟩, -⟩ := h
  exact ⟨hphis, hpad, Option.isSome_iff_ne_none.1 hterm, hterms⟩

theorem local_of_isLocal (h : F.isLocal = true) : F.Local := by
  simp only [isLocal, Bool.and_eq_true, decide_eq_true_eq, List.all_eq_true] at h
  obtain ⟨⟨hids, hblocks⟩, hentry⟩ := h
  refine ⟨hids, fun blk hblk => block_wf_of_checkBlock (hblocks blk hblk), ?_, fun b pre I post hsplit => ?_⟩
  · cases hcode : F.code 0 with
    | nil =>
      rw [hcode] at hentry
      cases hentry
    | cons I rest =>
      rw [hcode] at hentry
      exact ⟨I, rest, rfl, by simpa using hentry⟩
  · have hb : b < F.blocks.length := lt_length_of_mem_code (I := I) (by simp [hsplit])
    rw [code_eq_insts hb] at hsplit
    exact checked_of_checkBlock (hblocks _ (List.getElem_mem hb)) hsplit

namespace Local

variable (h : F.Local)
include h

theorem exists_checked (hI : I ∈ F.insts) : ∃ b pre post, F.code b = pre ++ I :: post ∧ F.Checked pre I := by
  obtain ⟨b, -, hcode⟩ := exists_code_of_mem_insts hI
  obtain ⟨pre, post, hsplit⟩ := List.append_of_mem hcode
  exact ⟨b, pre, post, hsplit, h.checked b pre I post hsplit⟩

theorem checkedPhi (hI : I ∈ F.insts) (hphi : I.isPhi = true) : F.CheckedPhi I := by
  obtain ⟨_, _, _, -, hcheck⟩ := h.exists_checked hI
  exact hcheck.phi hphi

omit h in
/-- What is there before its use is of the function. -/
theorem has_of_defines {before : List Inst} (hbefore : before ⊆ F.insts) {v : Value} (hdef : F.defines before v = true) :
    F.Has v := by
  cases v with
  | inst r =>
    simp only [defines, List.any_eq_true, decide_eq_true_eq] at hdef
    obtain ⟨J, hJ, href, hty⟩ := hdef
    exact ⟨J, hbefore hJ, href, hty⟩
  | arg a => simpa [defines, Has] using hdef
  | block r => simpa [defines, Has] using hdef
  | _ => trivial

theorem has_operand (hI : I ∈ F.insts) {v : Value} (hv : v ∈ I.operands) : F.Has v := by
  obtain ⟨b, pre, post, hsplit, hcheck⟩ := h.exists_checked hI
  cases hphi : I.isPhi with
  | true =>
    have hcheck := hcheck.phi hphi
    obtain ⟨k, hk, rfl⟩ := List.getElem_of_mem hv
    have hlt : k < I.incoming.length := hcheck.length ▸ hk
    exact has_of_defines (fun J hJ => mem_insts_of_mem_code hJ)
      (hcheck.operands k I.incoming[k] _ (List.getElem?_eq_getElem hlt) (List.getElem?_eq_getElem hk))
  | false =>
    refine has_of_defines (fun J hJ => ?_) (hcheck.operands hphi v hv)
    exact mem_insts_of_mem_code (b := b) (hsplit ▸ List.mem_append_left _ hJ)

/-- A result that is there before its use has been executed there. -/
theorem dominates {b : Nat} {before : List Inst} (hbefore : before ⊆ F.insts) (hJ : J ∈ F.insts)
    (hdef : F.defines before J.value = true) : F.Dominates J b before := by
  simp only [defines, Inst.value, List.any_eq_true, decide_eq_true_eq] at hdef
  obtain ⟨K, hK, href, -⟩ := hdef
  have hKJ : K = J := List.inj_on_of_nodup_map h.ids (hbefore hK) hJ (congrArg InstRef.id href)
  exact .of_mem (hKJ ▸ hK)

theorem wf : F.WF where
  ids := h.ids
  blocks := h.blocks
  entry := by
    obtain ⟨I, rest, hcode, hphi⟩ := h.entry
    exact ⟨I, rest, hcode, hphi, (h.checked 0 [] I rest hcode).pad⟩
  operands _ hI _ hv := h.has_operand hI hv
  phis I hI hphi := by
    have hcheck := h.checkedPhi hI hphi
    exact ⟨hcheck.result, hcheck.nonempty, hcheck.length, hcheck.blocks, hcheck.types⟩
  calls I hI := by
    obtain ⟨_, _, _, -, hcheck⟩ := h.exists_checked hI
    exact hcheck.call
  allocas I hI halloca := by
    obtain ⟨_, _, _, -, hcheck⟩ := h.exists_checked hI
    exact hcheck.result (.inl halloca)
  labels I hI := by
    obtain ⟨_, _, _, -, hcheck⟩ := h.exists_checked hI
    exact hcheck.label
  bitcasts I hI hbit := by
    obtain ⟨_, _, _, -, hcheck⟩ := h.exists_checked hI
    exact ⟨hcheck.result (.inr hbit), hcheck.bitcast hbit⟩
  dominance b pre I post hsplit hphi J hJ hop := by
    refine h.dominates (fun K hK => ?_) hJ ((h.checked b pre I post hsplit).operands hphi _ hop)
    exact mem_insts_of_mem_code (b := b) (hsplit ▸ List.mem_append_left _ hK)
  phiDominance I hI k source J hphi hsource hop hJ :=
    h.dominates (fun _ hK => mem_insts_of_mem_code hK) hJ ((h.checkedPhi hI hphi).operands k source _ hsource hop)

end Local

theorem wf_of_isLocal (h : F.isLocal = true) : F.WF := (local_of_isLocal h).wf

end Function

end LlvmTracer.Ir
