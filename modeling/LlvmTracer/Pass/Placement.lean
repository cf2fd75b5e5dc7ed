/-
Where inserted instructions find what they use.

The values of the function that an inserted instruction reads are available
at its point (`BlocksEdits.available`): an operand's definition dominates the
instruction the lines are for, and a result is logged behind its definition.
A cast's or an address's value is computed at the same point just before
(`Linked`), and the buffers are allocated at the entry block's front (`Made`).
-/
import LlvmTracer.Pass.RecordStream

namespace LlvmTracer.Pass

open Ir Emit

/-! ## What an inserted instruction uses -/

def LogValue.values : LogValue → List Value
  | value v | folded _ v => [v]
  | zero | node _ | string _ => []

def LogValue.temps : LogValue → List Nat
  | node serial => [serial]
  | zero | value _ | folded _ _ | string _ => []

/-- The values of the function an inserted instruction reads. -/
def NewInst.values (n : NewInst) : List Value :=
  match n.op with
  | .cast _ v | .store v _ _ => [v]
  | .call k => (k.value?.map LogValue.values).getD []
  | .alloca _ | .pointerCast _ => []

/-- The inserted instructions whose values it reads. -/
def NewInst.temps (n : NewInst) : List Nat :=
  match n.op with
  | .call k => (k.value?.map LogValue.temps).getD []
  | .cast _ _ | .store _ _ _ | .alloca _ | .pointerCast _ => []

/-- It has a value a call may read. -/
def NewInst.isTemp (n : NewInst) : Bool :=
  match n.op with
  | .cast _ _ | .pointerCast _ => true
  | .call _ | .store _ _ _ | .alloca _ => false

theorem NewInst.uses_of_isAlloca {n : NewInst} (h : n.isAlloca = true) :
    n.values = [] ∧ n.temps = [] ∧ n.buffer? = none := by
  obtain ⟨serial, pu, op⟩ := n
  cases op <;> simp_all [NewInst.isAlloca, NewInst.values, NewInst.temps, NewInst.buffer?]

theorem LineEdits.values {pt : Point} {pu : Purpose} {p : InstOperandParams} {g g' : Gen} {es : List Edit}
    (h : LineEdits pt pu p g es g') {e : Edit} (he : e ∈ es) {v : Value} (hv : v ∈ e.inst.values) :
    e.point = pt ∧ p.value = some v := by
  cases h with
  | direct logger x _ hx =>
    rw [List.mem_singleton.1 he] at hv ⊢
    refine ⟨rfl, ?_⟩
    cases x <;> simp_all [NewInst.values, InstOperandParams.call, LogCall.value?, LogValue.values, LogValue.IsDirect]
  | cast logger op w hw =>
    simp only [List.mem_cons, List.not_mem_nil, or_false] at he
    rcases he with rfl | rfl
    · exact ⟨rfl, List.mem_singleton.1 hv ▸ hw⟩
    · cases hv
  | vector w key buffer hw =>
    simp only [vectorEdits, List.mem_cons, List.not_mem_nil, or_false] at he
    rcases he with rfl | rfl | rfl
    · exact ⟨rfl, List.mem_singleton.1 hv ▸ hw⟩
    · cases hv
    · cases hv
  | newVector w key hw =>
    simp only [vectorEdits, List.mem_cons, List.not_mem_nil, or_false] at he
    rcases he with rfl | rfl | rfl | rfl
    · cases hv
    · exact ⟨rfl, List.mem_singleton.1 hv ▸ hw⟩
    · cases hv
    · cases hv
  | unhandled => cases he

/-- What an instruction's lines read: its operands, but for what comes into a
phi, and its result. -/
theorem InstEdits.values {F : Function} (hF : F.WF) {c : Ctx} {I : Inst} (hI : I ∈ F.insts) {pt next : Point}
    {env : InstEnv} {g g' : Gen} {es : List Edit} (h : InstEdits c pt next I env g es g') :
    ∀ e ∈ es, ∀ v ∈ e.inst.values,
      e.point = pt ∧ v ∈ I.operands ∧ (I.isPhi = true → ∀ r, v ≠ .inst r) ∨
        e.point = next ∧ I.ty ≠ .void ∧ v = I.value := by
  refine h.rel (composes_forall fun e => ∀ v ∈ e.inst.values,
    e.point = pt ∧ v ∈ I.operands ∧ (I.isPhi = true → ∀ r, v ≠ .inst r) ∨
      e.point = next ∧ I.ty ≠ .void ∧ v = I.value) ?_ ?_ ?_ ?_
  · intro g pu k hk e he v hv
    rw [List.mem_singleton.1 he] at hv
    simp [NewInst.values, hk] at hv
  · intro g es g' k w p hmem hspec hline e he v hv
    obtain ⟨hpt, hvalue⟩ := hline.values he hv
    have hw : w = v := by
      rcases hspec.value with hnone | hsome
      · rw [hnone] at hvalue
        cases hvalue
      · rw [hsome] at hvalue
        exact Option.some.inj hvalue
    subst hw
    refine .inl ⟨hpt, List.mem_of_getElem? (mem_printedOperands hF hI hmem), fun hphi r hr => ?_⟩
    rw [hspec.incoming hphi r hr] at hvalue
    cases hvalue
  · intro g es g' instid p hty hspec hline e he v hv
    obtain ⟨hpt, hvalue⟩ := hline.values he hv
    rw [hspec.value] at hvalue
    exact .inr ⟨hpt, hty, (Option.some.inj hvalue).symm⟩
  · intro g slots e he
    cases he

/-! ## Values of the function -/

/-- The value is there at the point of block `b` after `pre`. -/
def Available (F : Function) (b : Nat) (pre : List Inst) : Value → Prop
  | .inst r => ∃ J ∈ F.insts, J.ref = r ∧ J.ty ≠ .void ∧ F.Dominates J b pre
  | .arg a => a ∈ F.args
  | _ => True

/-- A result is there behind its instruction. -/
theorem available_of_mem {F : Function} {b : Nat} {pre : List Inst} {I : Inst} (hI : I ∈ F.insts) (hty : I.ty ≠ .void)
    (hmem : I ∈ pre) : Available F b pre I.value :=
  ⟨I, hI, rfl, hty, .of_mem hmem⟩

section

variable {F : Function} (hF : F.WF)
include hF

/-- An instruction's operands are there before it. -/
theorem available_of_operand {b : Nat} {pre post : List Inst} {I : Inst} (hcode : F.code b = pre ++ I :: post)
    (hphi : I.isPhi = false) {v : Value} (hv : v ∈ I.operands) : Available F b pre v := by
  have hI : I ∈ F.insts := Function.mem_insts_of_mem_code (by rw [hcode]; simp)
  have hhas := hF.operands I hI v hv
  cases v with
  | inst r =>
    obtain ⟨J, hJ, rfl, hty⟩ := hhas
    exact ⟨J, hJ, rfl, hty, hF.dominance b pre I post hcode hphi J hJ hv⟩
  | arg a => exact hhas
  | _ => trivial

theorem available_of_phi {b : Nat} {pre : List Inst} {I : Inst} (hI : I ∈ F.insts) {v : Value} (hv : v ∈ I.operands)
    (hne : ∀ r, v ≠ .inst r) : Available F b pre v := by
  have hhas := hF.operands I hI v hv
  cases v with
  | inst r => exact absurd rfl (hne r)
  | arg a => exact hhas
  | _ => trivial

end

/-- What an insertion reads of the function is available where it is. -/
def AvailableAt (F : Function) (b : Nat) (e : Edit) : Prop :=
  ∀ v ∈ e.inst.values, ∃ pre K post, F.code b = pre ++ K :: post ∧ e.point = .before (.orig K.id) ∧ Available F b pre v

theorem RestEdits.available {c : Ctx} (hF : c.func.WF) {b : BlockRef} {insts : List Inst} {env : InstEnv} {g g' : Gen}
    {es : List Edit} (h : RestEdits c b insts env g es g') :
    ∀ {pre : List Inst}, c.func.code b.index = pre ++ insts → (∀ I ∈ insts, I.isPhi = false) →
      ∀ e ∈ es, AvailableAt c.func b.index e := by
  induction h with
  | nil => simp
  | @skip I rest _ _ _ _ _ _ _ _ ih =>
    intro pre hcode hphi
    exact @ih (pre ++ [I]) (by rw [hcode]; simp) fun J hJ => hphi J (List.mem_cons_of_mem _ hJ)
  | @traced I rest _ _ _ _ _ _ _ _ _ hne hedits _ ih =>
    intro pre hcode hphi e he v hv
    have hI : I ∈ c.func.insts := Function.mem_insts_of_mem_code (b := b.index) (by rw [hcode]; simp)
    rcases List.mem_append.1 he with he | he
    · rcases hedits.values hF hI e he v hv with ⟨hpt, hop, -⟩ | ⟨hpt, hty, rfl⟩
      · exact ⟨pre, I, rest, hcode, hpt, available_of_operand hF hcode (hphi I List.mem_cons_self) hop⟩
      · -- The result's line is before the next instruction.
        cases rest with
        | nil => exact absurd rfl (hne hty)
        | cons J rest =>
          exact ⟨pre ++ [I], J, rest, by rw [hcode]; simp, hpt, available_of_mem hI hty (by simp)⟩
    · exact @ih (pre ++ [I]) (by rw [hcode]; simp) (fun J hJ => hphi J (List.mem_cons_of_mem _ hJ)) e he v hv

/-- The lines of the phis are behind all of them. -/
theorem PhiEdits.available {c : Ctx} (hF : c.func.WF) {pt : Point} {b : BlockRef} {phis : List Inst}
    {env env' : InstEnv} {g g' : Gen} {es : List Edit} (h : PhiEdits c pt b phis env g es env' g') {pre post : List Inst}
    {K : Inst} (hcode : c.func.code b.index = pre ++ K :: post) (hpt : pt = .before (.orig K.id)) :
    (∀ I ∈ phis, I.isPhi = true ∧ I ∈ pre) → ∀ e ∈ es, AvailableAt c.func b.index e := by
  induction h with
  | nil => simp
  | @cons I _ _ _ _ _ _ _ _ _ _ hedits _ ih =>
    intro hphi e he v hv
    obtain ⟨hI, hpre⟩ := hphi I List.mem_cons_self
    have hmem : I ∈ c.func.insts :=
      Function.mem_insts_of_mem_code (b := b.index) (by rw [hcode]; exact List.mem_append_left _ hpre)
    rcases List.mem_append.1 he with he | he
    · rcases hedits.values hF hmem e he v hv with ⟨hp, hop, hne⟩ | ⟨hp, hty, rfl⟩
      · exact ⟨pre, K, post, hcode, hp.trans hpt, available_of_phi hF hmem hop (hne hI)⟩
      · exact ⟨pre, K, post, hcode, hp.trans hpt, available_of_mem hmem hty hpre⟩
    · exact ih (fun J hJ => hphi J (List.mem_cons_of_mem _ hJ)) e he v hv

theorem BlockEdits.available {c : Ctx} (hF : c.func.WF) {b : BlockRef} {g g' : Gen} {es : List Edit}
    (h : BlockEdits c b g es g') : ∀ e ∈ es, AvailableAt c.func b.index e := by
  cases h with
  | untraced => simp
  | traced _ hne hphis hrest =>
    obtain ⟨pre, hpre⟩ := pastPhis_suffix (c.func.code b.index)
    intro e he
    rcases List.mem_append.1 he with he | he
    · cases hpast : pastPhis (c.func.code b.index) with
      | nil =>
        rw [hne hpast] at hphis
        cases hphis
        cases he
      | cons K rest =>
        rw [hpast] at hpre hphis
        refine hphis.available hF hpre.symm rfl (fun I hI => ?_) e he
        have hphi : I.isPhi = true := List.mem_takeWhile_imp hI
        have hmem : I ∈ pre ++ K :: rest := hpre ▸ (List.takeWhile_sublist _).subset hI
        refine ⟨hphi, (List.mem_append.1 hmem).resolve_right fun h => ?_⟩
        have hnot := hF.isPhi_of_mem_pastPhis (b := b.index) (hpast ▸ h)
        rw [hphi] at hnot
        cases hnot
    · exact hrest.available hF hpre.symm (fun I hI => hF.isPhi_of_mem_pastPhis hI) e he

/-- What the insertions before an instruction read of the function is there. -/
theorem BlocksEdits.available {c : Ctx} (hF : c.func.WF) {bs : List BlockRef} {g g' : Gen} {es : List Edit}
    (h : BlocksEdits c bs g es g') {b : Nat} {pre post : List Inst} {K : Inst}
    (hcode : c.func.code b = pre ++ K :: post) {e : Edit} (he : e ∈ es) (hpt : e.point = .before (.orig K.id)) {v : Value}
    (hv : v ∈ e.inst.values) : Available c.func b pre v := by
  induction h with
  | nil => cases he
  | @cons b' _ _ _ _ _ _ hblock _ ih =>
    rcases List.mem_append.1 he with he | he
    · obtain ⟨pre', K', post', hcode', hpt', hav⟩ := hblock.available hF e he v hv
      have hK' : K' ∈ c.func.code b'.index := by rw [hcode']; simp
      have hK : K ∈ c.func.code b := by rw [hcode]; simp
      have hid : K.id = K'.id := by
        rw [hpt] at hpt'
        simpa using hpt'
      have heq := hF.eq_of_id (Function.mem_insts_of_mem_code hK) (Function.mem_insts_of_mem_code hK') hid
      subst heq
      have hb : b = b'.index := hF.block_unique hK hK'
      subst hb
      have hnd := (hF.code_ids_nodup b'.index).of_map
      rw [hcode, List.nodup_middle, List.nodup_cons, List.mem_append, not_or] at hnd
      have hsplit := (List.append_cons_inj_of_notMem hnd.1.1 hnd.1.2).1 (hcode.symm.trans hcode')
      rwa [hsplit.1]
    · exact ih he

/-! ## Values of inserted instructions -/

/-- What a call reads is computed before it at the same point. -/
def Linked (_ : Gen) (es : List Edit) (_ : Gen) : Prop :=
  ∀ e ∈ es, ∀ s ∈ e.inst.temps, ∃ e' ∈ es,
    e'.point = e.point ∧ e'.inst.serial = s ∧ s < e.inst.serial ∧ e'.inst.isTemp = true

theorem linked_composes : Composes Linked where
  nil _ e he := by cases he
  append := by
    intro g g₁ g' es es' h₁ h₂ e he s hs
    rcases List.mem_append.1 he with he | he
    · obtain ⟨e', he', h⟩ := h₁ e he s hs
      exact ⟨e', List.mem_append_left _ he', h⟩
    · obtain ⟨e', he', h⟩ := h₂ e he s hs
      exact ⟨e', List.mem_append_right _ he', h⟩

theorem linked_of_forall {g g' : Gen} {es : List Edit} (h : ∀ e ∈ es, e.inst.temps = []) : Linked g es g' := by
  intro e he s hs
  rw [h e he] at hs
  cases hs

theorem vectorEdits_linked {pt : Point} {pu : Purpose} {p : InstOperandParams} {n buffer : Nat} {key : VecBufKey}
    {v : Value} {g g' : Gen} : Linked g (vectorEdits pt pu p n buffer key v) g' := by
  intro e he s hs
  simp only [vectorEdits, List.mem_cons, List.not_mem_nil, or_false] at he
  rcases he with rfl | rfl | rfl
  · cases hs
  · cases hs
  · obtain rfl := List.mem_singleton.1 hs
    exact ⟨⟨pt, n + 1, pu, .pointerCast buffer⟩, by simp [vectorEdits], rfl, rfl, Nat.lt_succ_self _, rfl⟩

theorem LineEdits.linked {pt : Point} {pu : Purpose} {p : InstOperandParams} {g g' : Gen} {es : List Edit}
    (h : LineEdits pt pu p g es g') : Linked g es g' := by
  cases h with
  | direct logger x _ hx =>
    refine linked_of_forall fun e he => ?_
    rw [List.mem_singleton.1 he]
    cases x with
    | node => cases hx
    | _ => rfl
  | cast logger op v =>
    intro e he s hs
    simp only [List.mem_cons, List.not_mem_nil, or_false] at he
    rcases he with rfl | rfl
    · cases hs
    · obtain rfl := List.mem_singleton.1 hs
      exact ⟨_, List.mem_cons_self, rfl, rfl, Nat.lt_succ_self _, rfl⟩
  | vector => exact vectorEdits_linked
  | newVector v =>
    have halloca : Linked g [⟨.front, g.serial, pu, .alloca v.ty⟩] g := by
      refine linked_of_forall fun e he => ?_
      rw [List.mem_singleton.1 he]
      rfl
    exact linked_composes.append halloca vectorEdits_linked
  | unhandled => exact linked_composes.nil _

theorem call_linked {pt : Point} {g : Gen} {pu : Purpose} {k : LogCall} (hk : k.value? = none) :
    Linked g [⟨pt, g.serial, pu, .call k⟩] (g.next 1) := by
  refine linked_of_forall fun e he => ?_
  rw [List.mem_singleton.1 he]
  simp [NewInst.temps, hk]

theorem BlocksEdits.linked {c : Ctx} {bs : List BlockRef} {g g' : Gen} {es : List Edit} (h : BlocksEdits c bs g es g') :
    Linked g es g' := by
  refine h.rel linked_composes fun I _ pt next env g es g' _ _ _ h => ?_
  exact h.rel linked_composes (fun _ _ _ hk => call_linked hk) (fun _ _ _ _ _ _ _ _ hline => hline.linked)
    (fun _ _ _ _ _ _ _ hline => hline.linked) fun g _ => linked_composes.nil g

theorem EntryEdits.linked {c : Ctx} {pt : Point} {g g' : Gen} {es : List Edit} (h : EntryEdits c pt g es g') :
    Linked g es g' :=
  h.rel linked_composes (fun _ _ _ hk => call_linked hk) fun _ _ _ _ _ _ _ hline => hline.linked

/-! ## Order -/

theorem Made.sorted {g g' : Gen} {es : List Edit} (h : Made g es g') :
    es.Pairwise fun e e' => e.inst.serial < e'.inst.serial := by
  have hlt : (es.map fun e => e.inst.serial).Pairwise (· < ·) := by
    rw [h.serials]
    exact List.pairwise_lt_range'
  exact List.pairwise_map.1 hlt

theorem Made.sorted_filterMap {g g' : Gen} {es : List Edit} (h : Made g es g') {f : Edit → Option NewInst}
    (hf : ∀ e n, f e = some n → n = e.inst) : (es.filterMap f).Pairwise fun m n => m.serial < n.serial := by
  refine h.sorted.filterMap f fun e e' hlt m hm n hn => ?_
  rw [hf e m hm, hf e' n hn]
  exact hlt

theorem mem_left_of_serial_lt {l₁ l₂ : List NewInst} {m n : NewInst}
    (hsorted : (l₁ ++ n :: l₂).Pairwise fun m n => m.serial < n.serial) (hm : m ∈ l₁ ++ n :: l₂)
    (hlt : m.serial < n.serial) : m ∈ l₁ := by
  rcases List.mem_append.1 hm with hm | hm
  · exact hm
  · have hright := (List.pairwise_append.1 hsorted).2.1
    rcases List.mem_cons.1 hm with rfl | hm
    · exact absurd hlt (Nat.lt_irrefl _)
    · have := List.rel_of_pairwise_cons hright hm
      omega

theorem append_eq_split {α : Type} {xs ys pre post : List α} {x : α} (h : xs ++ ys = pre ++ x :: post) :
    (∃ post', xs = pre ++ x :: post' ∧ post = post' ++ ys) ∨ ∃ pre', pre = xs ++ pre' ∧ ys = pre' ++ x :: post := by
  rcases List.append_eq_append_iff.1 h with ⟨as, hpre, hys⟩ | ⟨bs, hxs, hpost⟩
  · exact .inr ⟨as, hpre, hys⟩
  · cases bs with
    | nil => exact .inr ⟨[], by simpa using hxs.symm, hpost.symm⟩
    | cons y bs =>
      obtain ⟨rfl, rfl⟩ := List.cons.inj hpost
      exact .inl ⟨bs, hxs, rfl⟩

/-- Where an inserted instruction is among the original ones. -/
theorem split_renderInsts {es : List Edit} {n : NewInst} {post : List Node} : ∀ {insts : List Inst} {pre : List Node},
    renderInsts es insts = pre ++ .new n :: post →
    ∃ before K after l₁ l₂, insts = before ++ K :: after ∧ editsBefore es K.id = l₁ ++ n :: l₂ ∧
      pre = renderInsts es before ++ l₁.map .new ∧ post = l₂.map .new ++ .orig K :: renderInsts es after
  | [], pre, h => by simp at h
  | I :: insts, pre, h => by
    rw [renderInsts_cons] at h
    rcases append_eq_split h with ⟨post', hgroup, hpost⟩ | ⟨pre', hpre, hrest⟩
    · obtain ⟨l₁, l', hl, hl₁, hl'⟩ := List.map_eq_append_iff.1 hgroup
      obtain ⟨m, l₂, rfl, hm, hl₂⟩ := List.map_eq_cons_iff.1 hl'
      cases hm
      exact ⟨[], I, insts, l₁, l₂, rfl, hl, by rw [renderInsts_nil, List.nil_append, hl₁], by rw [hpost, hl₂]⟩
    · cases pre' with
      | nil => cases hrest
      | cons x pre' =>
        obtain ⟨rfl, htail⟩ := List.cons.inj hrest
        obtain ⟨before, K, after, l₁, l₂, rfl, hgroup, hpre', hpost⟩ := split_renderInsts htail
        refine ⟨I :: before, K, after, l₁, l₂, rfl, hgroup, ?_, hpost⟩
        rw [hpre, hpre', renderInsts_cons]
        simp

/-! ## In the instrumented function -/

/-- What the inserted instruction `n` of block `b` uses is defined by
instructions that dominate its place, after `pre`. -/
structure Uses (F : Function) (body : Body) (b : Nat) (pre : List Node) (n : NewInst) : Prop where
  values : ∀ r, .inst r ∈ n.values → ∃ J ∈ F.insts, J.ref = r ∧ J.ty ≠ .void ∧
    Dominance.Dominates F.succs 0 body.block (.orig J) b pre
  args : ∀ a, .arg a ∈ n.values → a ∈ F.args
  temps : ∀ s ∈ n.temps, ∃ m : NewInst, m.serial = s ∧ m.isTemp = true ∧
    Dominance.Dominates F.succs 0 body.block (.new m) b pre
  /-- A buffer is one the pass has allocated in the entry block, for the type
  of what is stored. -/
  buffers : ∀ s, n.buffer? = some s → ∃ (m : NewInst) (ty : Ty), m.serial = s ∧ m.op = .alloca ty ∧
    (∀ v align, n.op = .store v s align → ty = v.ty) ∧ .new m ∈ body.block 0 ∧
    Dominance.Dominates F.succs 0 body.block (.new m) b pre

theorem uses_of_nil {F : Function} {body : Body} {b : Nat} {pre : List Node} {n : NewInst} (hv : n.values = [])
    (ht : n.temps = []) (hb : n.buffer? = none) : Uses F body b pre n where
  values r h := by rw [hv] at h; cases h
  args a h := by rw [hv] at h; cases h
  temps s h := by rw [ht] at h; cases h
  buffers s h := by rw [hb] at h; cases h

/-- The buffers, at the front of the entry block. -/
def Plan.buffers (p : Plan) : List NewInst := editsAtFront p.entry ++ editsAtFront p.blocks

theorem block_instrumented {F : Function} {p : Plan} {b : Nat} (hb : b < F.blocks.length) :
    (instrumented F p).block b =
      (if b = 0 then (p.buffers ++ entryGroup p.entry).map .new else []) ++ renderInsts p.blocks (F.code b) := by
  rw [instrumented, block_render hb, Plan.buffers]

theorem mem_block_zero {F : Function} (hF : F.WF) {p : Plan} {m : NewInst} (hm : m ∈ p.buffers) :
    .new m ∈ (instrumented F p).block 0 := by
  rw [block_instrumented (List.length_pos_iff.2 (blocks_ne_nil hF)), if_pos rfl]
  exact List.mem_append_left _ (List.mem_map_of_mem (List.mem_append_left _ hm))

theorem orig_mem_block {F : Function} {p : Plan} {b : Nat} {I : Inst} (hI : I ∈ F.code b) :
    .orig I ∈ (instrumented F p).block b := by
  rw [← filterMap_orig_block F p b] at hI
  obtain ⟨n, hn, horig⟩ := List.mem_filterMap.1 hI
  cases n with
  | orig J =>
    cases horig
    exact hn
  | new m => cases horig

theorem mem_entryGroup {es : List Edit} {n : NewInst} : n ∈ entryGroup es ↔ ∃ e ∈ es, e.point ≠ .front ∧ e.inst = n := by
  simp only [entryGroup, List.mem_filterMap]
  constructor
  · rintro ⟨e, he, h⟩
    split at h
    · cases h
    · rename_i hp
      exact ⟨e, he, hp, Option.some.inj h⟩
  · rintro ⟨e, he, hp, rfl⟩
    exact ⟨e, he, if_neg hp⟩

/-- An inserted instruction is one of the plan. -/
theorem exists_edit_of_mem_block {F : Function} {p : Plan} {b : Nat} {n : NewInst}
    (h : .new n ∈ (instrumented F p).block b) : ∃ e ∈ p.blocks ++ p.entry, e.inst = n := by
  by_cases hb : b < F.blocks.length
  · rw [block_instrumented hb] at h
    rcases List.mem_append.1 h with h | h
    · split at h
      · obtain ⟨m, hm, heq⟩ := List.mem_map.1 h
        cases heq
        rcases List.mem_append.1 hm with hm | hm
        · rcases List.mem_append.1 hm with hm | hm
          · exact ⟨_, List.mem_append_right _ (mem_editsAtFront.1 hm), rfl⟩
          · exact ⟨_, List.mem_append_left _ (mem_editsAtFront.1 hm), rfl⟩
        · obtain ⟨e, he, -, heq⟩ := mem_entryGroup.1 hm
          exact ⟨e, List.mem_append_right _ he, heq⟩
      · cases h
    · rcases mem_renderInsts.1 h with ⟨I, -, heq⟩ | ⟨I, -, m, hm, heq⟩
      · cases heq
      · cases heq
        exact ⟨_, List.mem_append_left _ hm, rfl⟩
  · have hlen : F.blocks.length ≤ b := Nat.le_of_not_lt hb
    simp [instrumented, render, Body.block, hlen] at h

section

variable {cfg : Config} {F : Function} {c : Ctx} {p : Plan} (hp : Planned cfg F c p)
include hp

theorem Planned.made : ∃ g g', Made .init p.blocks g ∧ Made g p.entry g' ∧ Linked .init p.blocks g ∧
    Linked g p.entry g' := by
  obtain ⟨g, hblocks, hentry⟩ := hp.parts
  rcases hentry with ⟨-, hnil⟩ | ⟨-, g', hentry⟩
  · rw [hnil]
    exact ⟨g, g, hblocks.made, made_composes.nil g, hblocks.linked, linked_composes.nil g⟩
  · have hpt : (Point.before (entryRef F p.blocks)) ≠ .front := by simp
    have hmade : Made g p.entry g' :=
      hentry.rel made_composes (fun g pu k _ => call_made hpt g pu k) fun _ _ _ _ _ _ _ hline => hline.made hpt
    exact ⟨g, g', hblocks.made, hmade, hblocks.linked, hentry.linked⟩

theorem Planned.isAlloca_of_mem_buffers {n : NewInst} (hn : n ∈ p.buffers) : n.isAlloca = true := by
  obtain ⟨g, g', hblocks, hentry, -⟩ := hp.made
  rcases List.mem_append.1 hn with hn | hn
  · exact isVectorBuffer_alloca (hentry.front _ (mem_editsAtFront.1 hn) rfl)
  · exact isVectorBuffer_alloca (hblocks.front _ (mem_editsAtFront.1 hn) rfl)

/-- Every buffer that is used is allocated at the front, for the type stored. -/
theorem Planned.mem_buffers {e : Edit} (he : e ∈ p.blocks ∨ e ∈ p.entry) {s : Nat} (hs : e.inst.buffer? = some s) :
    ∃ m ∈ p.buffers, ∃ ty, m.serial = s ∧ m.op = .alloca ty ∧ ∀ v align, e.inst.op = .store v s align → ty = v.ty := by
  obtain ⟨g, g', hblocks, hentry, -⟩ := hp.made
  have hboth := made_composes.append hblocks hentry
  obtain ⟨key, buffer, hlookup, hserial, hty⟩ := hboth.uses e (List.mem_append.2 he) s hs
  rcases hboth.buffers key buffer hlookup with h | ⟨e', he', hfront, hserial', hop⟩
  · cases h
  · refine ⟨e'.inst, ?_, buffer.allocated, hserial'.trans hserial, hop, hty⟩
    have hmem : ∀ {es}, e' ∈ es → e'.inst ∈ editsAtFront es := fun h => mem_editsAtFront.2 (hfront ▸ h)
    rcases List.mem_append.1 he' with h | h
    · exact List.mem_append_right _ (hmem h)
    · exact List.mem_append_left _ (hmem h)

/-- The entry's lines read arguments only. -/
theorem Planned.entry_values {e : Edit} (he : e ∈ p.entry) {v : Value} (hv : v ∈ e.inst.values) :
    ∃ a ∈ F.args, v = .arg a := by
  have hfunc := hp.func
  subst hfunc
  obtain ⟨g, -, hentry⟩ := hp.parts
  rcases hentry with ⟨-, hnil⟩ | ⟨-, g', hentry⟩
  · rw [hnil] at he
    cases he
  · refine hentry.rel (composes_forall fun e => ∀ v ∈ e.inst.values, ∃ a ∈ c.func.args, v = .arg a) ?_ ?_ e he v hv
    · intro g pu k hk e he v hv
      rw [List.mem_singleton.1 he] at hv
      simp [NewInst.values, hk] at hv
    · intro g es g' a q ha hspec hline e he v hv
      have hvalue := (hline.values he hv).2
      rw [hspec.value] at hvalue
      split at hvalue
      · cases hvalue
      · exact ⟨a, ha, (Option.some.inj hvalue).symm⟩

/-- At the head of the entry block. -/
theorem Planned.uses_entry (hF : F.WF) {l₁ l₂ : List NewInst} {n : NewInst} (h : p.buffers ++ entryGroup p.entry = l₁ ++ n :: l₂) :
    Uses F (instrumented F p) 0 (l₁.map .new) n := by
  rcases append_eq_split h with ⟨l, hbuffers, -⟩ | ⟨l, hl₁, hgroup⟩
  · have hn : n ∈ p.buffers := by rw [hbuffers]; simp
    obtain ⟨hv, ht, hb⟩ := NewInst.uses_of_isAlloca (hp.isAlloca_of_mem_buffers hn)
    exact uses_of_nil hv ht hb
  · have hn : n ∈ entryGroup p.entry := by rw [hgroup]; simp
    obtain ⟨e, he, hpt, rfl⟩ := mem_entryGroup.1 hn
    obtain ⟨g, g', -, hmade, -, hlinked⟩ := hp.made
    refine ⟨fun r hr => ?_, fun a ha => ?_, fun s hs => ?_, fun s hs => ?_⟩
    · obtain ⟨a, -, hv⟩ := hp.entry_values he hr
      cases hv
    · obtain ⟨a', ha', hv⟩ := hp.entry_values he ha
      cases hv
      exact ha'
    · obtain ⟨e', he', hpt', rfl, hlt, htemp⟩ := hlinked e he s hs
      have hmem : e'.inst ∈ entryGroup p.entry := mem_entryGroup.2 ⟨e', he', hpt' ▸ hpt, rfl⟩
      have hsorted : (entryGroup p.entry).Pairwise fun m n => m.serial < n.serial := by
        refine hmade.sorted_filterMap fun e n h => ?_
        split at h
        · cases h
        · exact (Option.some.inj h).symm
      rw [hgroup] at hmem hsorted
      have hl : e'.inst ∈ l := mem_left_of_serial_lt hsorted hmem hlt
      refine ⟨e'.inst, rfl, htemp, .of_mem (List.mem_map_of_mem ?_)⟩
      rw [hl₁]
      exact List.mem_append_right _ hl
    · obtain ⟨m, hm, ty, hserial, hop, hty⟩ := hp.mem_buffers (.inr he) hs
      have hmem : m ∈ l₁ := by
        rw [hl₁]
        exact List.mem_append_left _ hm
      exact ⟨m, ty, hserial, hop, hty, mem_block_zero hF hm, .of_mem (List.mem_map_of_mem hmem)⟩

/-- Before the original instruction `K`. -/
theorem Planned.uses_group (hF : F.WF) {b : Nat} {before after : List Inst} {K : Inst} {l₁ l₂ : List NewInst} {n : NewInst}
    {front : List Node} (hcode : F.code b = before ++ K :: after) (hgroup : editsBefore p.blocks K.id = l₁ ++ n :: l₂)
    (hfront : b = 0 → front = (p.buffers ++ entryGroup p.entry).map .new) :
    Uses F (instrumented F p) b (front ++ (renderInsts p.blocks before ++ l₁.map .new)) n := by
  have hn : n ∈ editsBefore p.blocks K.id := by rw [hgroup]; simp
  have he := mem_editsBefore.1 hn
  obtain ⟨g, g', hmade, -, hlinked, -⟩ := hp.made
  have hvalues : ∀ v ∈ n.values, Available F b before v := by
    intro v hv
    obtain ⟨g₁, hblocks, -⟩ := hp.parts
    have hfunc := hp.func
    subst hfunc
    exact hblocks.available hF hcode he rfl hv
  refine ⟨fun r hr => ?_, fun a ha => hvalues _ ha, fun s hs => ?_, fun s hs => ?_⟩
  · obtain ⟨J, hJ, href, hty, hdom⟩ := hvalues _ hr
    refine ⟨J, hJ, href, hty, (hdom.map Node.orig).mono (fun i => ?_) fun x hx => ?_⟩
    · intro x hx
      obtain ⟨I, hI, rfl⟩ := List.mem_map.1 hx
      exact orig_mem_block hI
    · obtain ⟨I, hI, rfl⟩ := List.mem_map.1 hx
      exact List.mem_append_right _ (List.mem_append_left _ (mem_renderInsts.2 (.inl ⟨I, hI, rfl⟩)))
  · obtain ⟨⟨pt, m⟩, he', rfl, rfl, hlt, htemp⟩ := hlinked _ he s hs
    have hmem : m ∈ editsBefore p.blocks K.id := mem_editsBefore.2 he'
    have hsorted : (editsBefore p.blocks K.id).Pairwise fun m n => m.serial < n.serial := by
      refine hmade.sorted_filterMap fun e n h => ?_
      split at h
      · exact (Option.some.inj h).symm
      · cases h
    rw [hgroup] at hmem hsorted
    have hl₁ : m ∈ l₁ := mem_left_of_serial_lt hsorted hmem hlt
    exact ⟨m, rfl, htemp, .of_mem (List.mem_append_right _ (List.mem_append_right _ (List.mem_map_of_mem hl₁)))⟩
  · obtain ⟨m, hm, ty, hserial, hop, hty⟩ := hp.mem_buffers (.inl he) hs
    refine ⟨m, ty, hserial, hop, hty, mem_block_zero hF hm, .of_entry (mem_block_zero hF hm) fun hb => ?_⟩
    rw [hfront hb]
    exact List.mem_append_left _ (List.mem_map_of_mem (List.mem_append_left _ hm))

/-- **Dominance.** What an inserted instruction uses is defined at its place. -/
theorem Planned.uses (hF : F.WF) {b : Nat} {pre post : List Node} {n : NewInst}
    (h : (instrumented F p).block b = pre ++ .new n :: post) : Uses F (instrumented F p) b pre n := by
  by_cases hb : b < F.blocks.length
  · rw [block_instrumented hb] at h
    rcases append_eq_split h with ⟨post', hfront, -⟩ | ⟨pre', rfl, hrest⟩
    · by_cases h0 : b = 0
      · subst h0
        rw [if_pos rfl] at hfront
        obtain ⟨l₁, l, hl, rfl, hl'⟩ := List.map_eq_append_iff.1 hfront
        obtain ⟨m, l₂, rfl, hm, -⟩ := List.map_eq_cons_iff.1 hl'
        cases hm
        exact hp.uses_entry hF hl
      · rw [if_neg h0] at hfront
        simp at hfront
    · obtain ⟨before, K, after, l₁, l₂, hcode, hgroup, rfl, -⟩ := split_renderInsts hrest
      exact hp.uses_group hF hcode hgroup fun h0 => if_pos h0
  · have hlen : F.blocks.length ≤ b := Nat.le_of_not_lt hb
    simp [instrumented, render, Body.block, hlen] at h

end

end LlvmTracer.Pass
