/-
The walk does what is planned: `runOnFunction_eq`.

The walk is at an original instruction in the block as it is then. Nothing is
inserted further on yet, so the next instruction is an original one, and the
walk neither comes to an inserted instruction nor runs on.
-/
import LlvmTracer.Pass.Buffers
import LlvmTracer.Pass.Layout
import LlvmTracer.Pass.Plan

namespace LlvmTracer.Pass

open Ir Emit

/-! ## The walk does what is planned -/

theorem plain_of_nextPoint {I : Inst} {rest : List Inst} : (nextPoint I (nextRef rest)).Plain := by
  cases rest with
  | nil => exact .inr ⟨I.id, rfl⟩
  | cons J rest => exact .inr ⟨J.id, rfl⟩

theorem nextPoint_ne {I J : Inst} {rest : List Inst} (hnd : ((I :: rest).map Inst.id).Nodup) (hJ : J ∈ rest.tail) :
    nextPoint I (nextRef rest) ≠ .before (.orig J.id) ∧ I.id ≠ J.id := by
  obtain ⟨hI, hnd⟩ := List.nodup_cons.1 hnd
  cases rest with
  | nil => cases hJ
  | cons K rest =>
    obtain ⟨hK, -⟩ := List.nodup_cons.1 hnd
    have hKJ : K.id ≠ J.id := fun h => hK (h ▸ List.mem_map_of_mem hJ)
    have hIJ : I.id ≠ J.id := fun h => hI (h ▸ List.mem_map_of_mem (List.mem_cons_of_mem K hJ))
    exact ⟨by simpa [nextPoint, nextRef] using hKJ, hIJ⟩

theorem processAllocaInstruction_filterMap {c : Ctx} {I : Inst} {nodes : List Node} :
    c.processAllocaInstruction I nodes = c.processAllocaInstruction I ((nodes.filterMap Node.orig?).map .orig) := by
  unfold Ctx.processAllocaInstruction
  have hfind : ∀ id slots, c.findDeclare id slots nodes =
      c.findDeclare id slots ((nodes.filterMap Node.orig?).map .orig) := fun _ _ => findDeclare_filterMap
  simp only [hfind]

/-- Nothing is before `J` yet if nothing new goes there. -/
theorem fresh_append {es o : List Edit} {J : Inst} {pts : List Point} (hes : editsBefore es J.id = [])
    (hpoints : ∀ e ∈ o, e.point ∈ pts) (hJ : Point.before (.orig J.id) ∉ pts) : editsBefore (es ++ o) J.id = [] := by
  rw [editsBefore_append, hes, List.nil_append]
  exact editsBefore_eq_nil fun e he h => hJ (h ▸ hpoints e he)

section

variable {cfg : Config} {F : Function} {c : Ctx} (hF : F.WF)
include hF

theorem after_layout {es : List Edit} {b : Nat} {before rest : List Inst} {I : Inst}
    (hb : b < F.blocks.length) (hcode : F.code b = before ++ I :: rest) :
    (layout F es).after b (.orig I.id) = .orig I :: renderInsts es rest := by
  have hnd := hF.code_ids_nodup b
  rw [hcode, List.map_append, List.map_cons] at hnd
  have hne : ∀ J ∈ before, J.id ≠ I.id := by
    intro J hJ h
    have := List.disjoint_of_nodup_append hnd (List.mem_map_of_mem hJ)
    exact this (h ▸ List.mem_cons_self)
  have hnew : ∀ (ns : List NewInst) (l : List Node),
      (ns.map Node.new ++ l).dropWhile (fun n => n.ref ≠ .orig I.id) = l.dropWhile (fun n => n.ref ≠ .orig I.id) := by
    intro ns l
    induction ns with
    | nil => rfl
    | cons n ns ih => rw [List.map_cons, List.cons_append, List.dropWhile_cons_of_pos (by simp [Node.ref]), ih]
  have hold : ∀ l : List Node, ∀ Js : List Inst, (∀ J ∈ Js, J.id ≠ I.id) →
      (renderInsts es Js ++ l).dropWhile (fun n => n.ref ≠ .orig I.id) = l.dropWhile (fun n => n.ref ≠ .orig I.id) := by
    intro l Js
    induction Js with
    | nil => intro _; rfl
    | cons J Js ih =>
      intro h
      rw [renderInsts_cons, List.append_assoc, hnew, List.cons_append,
        List.dropWhile_cons_of_pos (by simpa [Node.ref] using h J List.mem_cons_self),
        ih fun K hK => h K (List.mem_cons_of_mem J hK)]
  rw [Body.after, layout, block_render hb, hcode, renderInsts_append, renderInsts_cons]
  have hdrop : ∀ l : List Node, (renderInsts es before ++ ((editsBefore es I.id).map Node.new ++ Node.orig I :: l)).dropWhile
      (fun n => n.ref ≠ .orig I.id) = Node.orig I :: l := by
    intro l
    rw [hold _ _ hne, hnew, List.dropWhile_cons_of_neg (by simp [Node.ref])]
  split
  · rw [hnew, hdrop]
  · exact hdrop _

/-- Inserting what `m` plans, and going on with `k` as planned. -/
theorem run_bind_eq {α : Type} {m : Tracing α} {k : α → Tracing PUnit} {next : α × Work → Except Refusal Work}
    {es : List Edit} {g : Gen} (hplain : ∀ a o g', m g = .ok (a, o, g') → ∀ e ∈ o, e.point.Plain)
    (hnext : ∀ a o g', m g = .ok (a, o, g') →
      next (a, ⟨layout F (es ++ o), g'⟩) = (k a g').map fun r => ⟨layout F (es ++ o ++ r.2.1), r.2.2⟩) :
    (Work.run ⟨layout F es, g⟩ m >>= next) = ((m >>= k) g).map fun r => ⟨layout F (es ++ r.2.1), r.2.2⟩ := by
  cases hm : m g with
  | error e =>
    have hrun : Work.run ⟨layout F es, g⟩ m = .error e := by
      simp only [Work.run, hm, Except.map]
    rw [bind_eq_of_error hm, hrun, Run.error_bind]
    rfl
  | ok r =>
    obtain ⟨a, o, g'⟩ := r
    have hrun : Work.run ⟨layout F es, g⟩ m = .ok (a, ⟨layout F (es ++ o), g'⟩) := by
      simp only [Work.run, hm, Except.map, layout_applyAll hF (hplain a o g' hm)]
    rw [bind_eq_of_ok hm, hrun, Run.ok_bind, hnext a o g' hm]
    cases k a g' with
    | error e => rfl
    | ok r => simp [Except.map]

theorem visit_points {b : BlockRef} {I : Inst} {rest : List Inst} {env env' : InstEnv} {g g' : Gen} {o : List Edit}
    (hI : I ∈ F.insts) (hphi : I.isPhi = false) (h : c.visit b I (nextRef rest) env g = .ok (env', o, g')) :
    ∀ e ∈ o, e.point ∈ [.before (.orig I.id), nextPoint I (nextRef rest), .front] := by
  intro e he
  rcases visit_cases hphi (hF.operands_ne_nil hI) h with ⟨-, rfl, -⟩ | ⟨-, -, -, hedits⟩
  · cases he
  · simpa using hedits.points e he

theorem walk_eq (hc : collect cfg F = .ok c) {b : BlockRef} (hb : b.index < F.blocks.length) :
    ∀ {todo before : List Inst} {n : Nat} {env : InstEnv} {g : Gen} {es : List Edit},
      F.code b.index = before ++ todo → (∀ J ∈ todo, J.isPhi = false) → todo.length ≤ n →
      (∀ J ∈ todo.tail, editsBefore es J.id = []) →
      c.walk b n (nextRef todo) env ⟨layout F es, g⟩ =
        (c.planInsts b todo env g).map fun r => ⟨layout F (es ++ r.2.1), r.2.2⟩
  | [], _, n, env, g, es, _, _, _, _ => by
    simp [nextRef, Ctx.walk, Ctx.planInsts, pure, Except.map]
  | I :: rest, before, 0, _, _, _, _, _, hn, _ => by simp at hn
  | I :: rest, before, n + 1, env, g, es, hcode, hphi, hn, hfresh => by
    have hnd : ((I :: rest).map Inst.id).Nodup := by
      have := hF.code_ids_nodup b.index
      rw [hcode, List.map_append] at this
      exact this.of_append_right
    have hinsts : ∀ J ∈ I :: rest, J ∈ F.insts := fun J hJ =>
      Function.mem_insts_of_mem_code (hcode ▸ List.mem_append_right before hJ)
    have hfresh : ∀ J ∈ rest, editsBefore es J.id = [] := hfresh
    have hnext : (renderInsts es rest).head?.map Node.ref = nextRef rest := by
      rw [renderInsts_eq_map hfresh, List.head?_map, Option.map_map]
      rfl
    simp only [nextRef, List.head?_cons, Option.map_some, Ctx.walk]
    rw [after_layout hF hb hcode]
    simp only [hnext, Ctx.planInsts]
    refine run_bind_eq hF (fun env' o₁ g₁ hvisit e he => ?_) fun env' o₁ g₁ hvisit => ?_
    · have hp := visit_points hF (hinsts I List.mem_cons_self) (hphi I List.mem_cons_self) hvisit e he
      simp only [List.mem_cons, List.not_mem_nil, or_false] at hp
      rcases hp with hp | hp | hp
      · exact .inr ⟨I.id, hp⟩
      · rw [hp]
        exact plain_of_nextPoint
      · exact .inl hp
    have hpoints := visit_points hF (hinsts I List.mem_cons_self) (hphi I List.mem_cons_self) hvisit
    have hfresh' : ∀ J ∈ rest.tail, editsBefore (es ++ o₁) J.id = [] := by
      intro J hJ
      obtain ⟨hne, hid⟩ := nextPoint_ne hnd hJ
      refine fresh_append (hfresh J (List.mem_of_mem_tail hJ)) hpoints ?_
      simpa [hne.symm] using fun h => hid h.symm
    simp only [after_layout hF hb hcode, List.tail_cons]
    rw [processAllocaInstruction_filterMap, filterMap_orig_renderInsts]
    have halloca : ∀ u o₂ g₂, c.processAllocaInstruction I (rest.map .orig) g₁ = .ok (u, o₂, g₂) →
        o₂ = [] ∧ g₂ = g₁ := fun u o₂ g₂ h =>
      processAllocaInstruction_eq hF hc (hinsts I List.mem_cons_self)
        (mem_insts_of_orig fun J hJ => hinsts J (List.mem_cons_of_mem I hJ)) h
    refine run_bind_eq hF (fun u o₂ g₂ h e he => ?_) fun u o₂ g₂ h => ?_
    · rw [(halloca u o₂ g₂ h).1] at he
      cases he
    · obtain ⟨rfl, rfl⟩ := halloca u o₂ g₂ h
      simp only [List.append_nil]
      have hcode' : F.code b.index = (before ++ [I]) ++ rest := by simpa using hcode
      exact walk_eq hc hb hcode' (fun J hJ => hphi J (List.mem_cons_of_mem I hJ)) (by simpa using hn) hfresh'

end

/-! ## Blocks -/

theorem takeWhile_orig (insts : List Inst) :
    ((insts.map Node.orig).takeWhile Node.isPhi).filterMap Node.orig? = insts.takeWhile Inst.isPhi := by
  induction insts with
  | nil => rfl
  | cons I insts ih =>
    cases hphi : I.isPhi with
    | true =>
      rw [List.map_cons, List.takeWhile_cons_of_pos (by simpa [Node.isPhi] using hphi),
        List.takeWhile_cons_of_pos hphi, List.filterMap_cons_some (f := Node.orig?) rfl, ih]
    | false =>
      rw [List.map_cons, List.takeWhile_cons_of_neg (by simp [Node.isPhi, hphi]),
        List.takeWhile_cons_of_neg (by simp [hphi])]
      rfl

theorem firstInsertionPt_orig (insts : List Inst) :
    firstInsertionPt (insts.map .orig) = (pastPhis insts).map .orig := by
  have hdrop : (insts.map Node.orig).dropWhile Node.isPhi = (insts.dropWhile Inst.isPhi).map .orig := by
    rw [List.dropWhile_map]
    rfl
  rw [firstInsertionPt, hdrop, pastPhis]
  cases insts.dropWhile Inst.isPhi with
  | nil => rfl
  | cons I rest =>
    cases hpad : I.isEHPad with
    | true => simp [Node.isEHPad, hpad]
    | false => simp [Node.isEHPad, hpad]

/-- Before a block is walked its instructions are the original ones. -/
theorem block_layout {F : Function} {b : BlockRef} (hb : b.index < F.blocks.length) {es : List Edit}
    (hfresh : ∀ I ∈ F.code b.index, editsBefore es I.id = []) (hfront : b.index = 0 → es = []) :
    (layout F es).block b.index = (F.code b.index).map .orig := by
  rw [layout, block_render hb, renderInsts_eq_map hfresh]
  split
  · rename_i h0
    rw [hfront h0]
    rfl
  · rfl

section

variable {cfg : Config} {F : Function} {c : Ctx} (hF : F.WF) (hc : collect cfg F = .ok c)
include hF hc

theorem runOnBasicBlock_eq {b : BlockRef} (hb : b.index < F.blocks.length) {g : Gen} {es : List Edit}
    (hfresh : ∀ I ∈ F.code b.index, editsBefore es I.id = []) (hfront : b.index = 0 → es = []) :
    c.runOnBasicBlock ⟨layout F es, g⟩ b =
      (c.planBlock b g).map fun r => ⟨layout F (es ++ r.2.1), r.2.2⟩ := by
  have hsuffix := pastPhis_suffix (F.code b.index)
  have hfresh' : ∀ J ∈ pastPhis (F.code b.index), editsBefore es J.id = [] := fun J hJ => hfresh J (hsuffix.subset hJ)
  have hlen : (pastPhis (F.code b.index)).length ≤ ((F.code b.index).map Node.orig).length := by
    rw [List.length_map]
    exact hsuffix.length_le
  have hnphi : ∀ J ∈ pastPhis (F.code b.index), J.isPhi = false := fun J hJ => hF.isPhi_of_mem_pastPhis hJ
  have hinsertp : ((pastPhis (F.code b.index)).map Node.orig).head?.map Node.ref = nextRef (pastPhis (F.code b.index)) := by
    rw [List.head?_map, Option.map_map]
    rfl
  obtain ⟨before, hcode⟩ := hsuffix
  unfold Ctx.runOnBasicBlock Ctx.planBlock
  rw [(collect_cases hc).2.1]
  split
  · simp only [block_layout hb hfresh hfront, takeWhile_orig, firstInsertionPt_orig, hinsertp]
    cases hphis : (F.code b.index).takeWhile Inst.isPhi with
    | nil =>
      exact walk_eq hF hc hb hcode.symm hnphi hlen fun J hJ => hfresh' J (List.mem_of_mem_tail hJ)
    | cons I phis =>
      have hphi : ∀ K ∈ I :: phis, K.isPhi = true := fun K hK => List.mem_takeWhile_imp (hphis ▸ hK)
      cases hrest : pastPhis (F.code b.index) with
      | nil => rfl
      | cons J rest =>
        have hnd : ((J :: rest).map Inst.id).Nodup := by
          have := hF.code_ids_nodup b.index
          rw [← hcode, hrest, List.map_append] at this
          exact this.of_append_right
        have hpoints : ∀ {env o g₁}, c.handlePhiNodes (.before (.orig J.id)) b (I :: phis) (.init F.name) g = .ok (env, o, g₁) →
            ∀ e ∈ o, e.point ∈ [.before (.orig J.id), .front] := fun hrun e he => by
          simpa using (handlePhiNodes_edits hphi hrun).points e he
        simp only [nextRef, List.head?_cons, Option.map_some]
        refine run_bind_eq hF (fun env o g₁ hrun e he => ?_) fun env o g₁ hrun => ?_
        · have hp := hpoints hrun e he
          simp only [List.mem_cons, List.not_mem_nil, or_false] at hp
          rcases hp with hp | hp
          · exact .inr ⟨J.id, hp⟩
          · exact .inl hp
        · refine walk_eq hF hc hb (hrest ▸ hcode.symm) (hrest ▸ hnphi) (hrest ▸ hlen) fun K hK => ?_
          have hne : J.id ≠ K.id := fun h => (List.nodup_cons.1 hnd).1 (h ▸ List.mem_map_of_mem hK)
          refine fresh_append (hfresh' K (hrest ▸ List.mem_cons_of_mem J hK)) (hpoints hrun) ?_
          simpa using fun h => hne h.symm
  · simp [pure, Except.map]

end

section

variable {cfg : Config} {F : Function} {c : Ctx} (hF : F.WF) (hc : collect cfg F = .ok c)
include hF hc

theorem foldlM_runOnBasicBlock_eq : ∀ {bs : List BlockRef} {g : Gen} {es : List Edit},
    (∀ b ∈ bs, b.index < F.blocks.length) → bs.Pairwise (fun a b => a.index < b.index) →
    (∀ b ∈ bs, ∀ I ∈ F.code b.index, editsBefore es I.id = []) → (∀ b ∈ bs, b.index = 0 → es = []) →
    bs.foldlM c.runOnBasicBlock ⟨layout F es, g⟩ =
      ((forM bs c.planBlock : Tracing PUnit) g).map fun r => ⟨layout F (es ++ r.2.1), r.2.2⟩
  | [], g, es, _, _, _, _ => by
    rw [List.forM_nil]
    simp [pure, Except.map, Except.pure]
  | b :: bs, g, es, hlt, hpair, hfresh, hfront => by
    obtain ⟨hb, hpair⟩ := List.pairwise_cons.1 hpair
    have hstep := runOnBasicBlock_eq hF hc (hlt b List.mem_cons_self) (g := g) (hfresh b List.mem_cons_self)
      (hfront b List.mem_cons_self)
    rw [List.foldlM_cons, List.forM_cons, hstep]
    cases hrun : c.planBlock b g with
    | error e =>
      rw [bind_eq_of_error hrun]
      rfl
    | ok r =>
      obtain ⟨u, o, g₁⟩ := r
      have hpoints := (planBlock_edits hF hc hrun).points
      rw [(collect_cases hc).2.1] at hpoints
      have hfresh' : ∀ b' ∈ bs, ∀ I ∈ F.code b'.index, editsBefore (es ++ o) I.id = [] := by
        intro b' hb' I hI
        rw [editsBefore_append, hfresh b' (List.mem_cons_of_mem b hb') I hI, List.nil_append]
        refine editsBefore_eq_nil fun e he h => ?_
        rcases hpoints e he with hp | ⟨J, hJ, hp⟩
        · rw [hp] at h
          cases h
        · rw [hp] at h
          have hid : J.id = I.id := by simpa using h
          have := hF.eq_of_id (Function.mem_insts_of_mem_code hJ) (Function.mem_insts_of_mem_code hI) hid
          subst this
          exact absurd (hF.block_unique hJ hI) (Nat.ne_of_lt (hb b' hb'))
      have hfront' : ∀ b' ∈ bs, b'.index = 0 → es ++ o = [] := by
        intro b' hb' h0
        have := hb b' hb'
        omega
      have ih := @foldlM_runOnBasicBlock_eq bs g₁ (es ++ o) (fun b' hb' => hlt b' (List.mem_cons_of_mem b hb'))
        hpair hfresh' hfront'
      rw [bind_eq_of_ok hrun]
      refine ih.trans ?_
      cases (forM bs c.planBlock : Tracing PUnit) g₁ with
      | error e => rfl
      | ok r => simp [Except.map]

end

/-! ## The entry -/

structure Plan where
  blocks : List Edit
  entry : List Edit

/-- The first instruction of the entry block behind the vector buffers. -/
def entryRef (F : Function) (es : List Edit) : Ref :=
  ((renderInsts es (F.code 0)).head?.map Node.ref).getD (.orig 0)

def Ctx.plan (c : Ctx) : Except Refusal Plan :=
  (forM c.func.blockRefs c.planBlock : Tracing PUnit) .init >>= fun r =>
  if c.func.name = "main" then .ok ⟨r.2.1, []⟩
  else (c.entryLines (.before (entryRef c.func r.2.1)) r.2.2).map fun r' => ⟨r.2.1, r'.2.1⟩

/-- What of the entry's insertions does not go to the front. -/
def entryGroup (es : List Edit) : List NewInst :=
  es.filterMap fun e => if e.point = .front then none else some e.inst

/-- The instrumented function: the vector buffers, the entry's lines, and
the original instructions with theirs. -/
def instrumented (F : Function) (p : Plan) : Body :=
  render F (editsAtFront p.entry ++ editsAtFront p.blocks ++ entryGroup p.entry) p.blocks

theorem BlocksEdits.made {c : Ctx} {bs : List BlockRef} {g g' : Gen} {es : List Edit} (h : BlocksEdits c bs g es g') :
    Made g es g' := by
  refine h.rel made_composes fun I _ pt next env g es g' hpt hnext _ h => ?_
  obtain ⟨_, rfl⟩ := hpt
  obtain ⟨_, rfl⟩ := hnext
  exact h.made (by simp) (by simp)

theorem mem_editsBefore {es : List Edit} {id : Nat} {n : NewInst} :
    n ∈ editsBefore es id ↔ ⟨.before (.orig id), n⟩ ∈ es := by
  simp only [editsBefore, List.mem_filterMap]
  constructor
  · rintro ⟨⟨pt, m⟩, he, h⟩
    split at h
    · rename_i hp
      cases h
      cases hp
      exact he
    · cases h
  · intro he
    exact ⟨_, he, if_pos rfl⟩

theorem mem_editsAtFront {es : List Edit} {n : NewInst} : n ∈ editsAtFront es ↔ ⟨.front, n⟩ ∈ es := by
  simp only [editsAtFront, List.mem_reverse, List.mem_filterMap]
  constructor
  · rintro ⟨⟨pt, m⟩, he, h⟩
    split at h
    · rename_i hp
      cases h
      cases hp
      exact he
    · cases h
  · intro he
    exact ⟨_, he, if_pos rfl⟩

theorem mem_renderInsts {es : List Edit} {insts : List Inst} {n : Node} :
    n ∈ renderInsts es insts ↔
      (∃ I ∈ insts, n = .orig I) ∨ ∃ I ∈ insts, ∃ m, ⟨.before (.orig I.id), m⟩ ∈ es ∧ n = .new m := by
  simp only [renderInsts, List.mem_flatMap, List.mem_append, List.mem_map, List.mem_singleton, mem_editsBefore]
  constructor
  · rintro ⟨I, hI, ⟨m, hm, rfl⟩ | rfl⟩
    · exact .inr ⟨I, hI, m, hm, rfl⟩
    · exact .inl ⟨I, hI, rfl⟩
  · rintro (⟨I, hI, rfl⟩ | ⟨I, hI, m, hm, rfl⟩)
    · exact ⟨I, hI, .inr rfl⟩
    · exact ⟨I, hI, .inl ⟨m, hm, rfl⟩⟩

theorem Made.serial_inj {g g' : Gen} {es : List Edit} (h : Made g es g') {e e' : Edit} (he : e ∈ es) (he' : e' ∈ es)
    (hs : e.inst.serial = e'.inst.serial) : e = e' := by
  have hnd : (es.map fun e => e.inst.serial).Nodup := by
    rw [h.serials]
    exact List.nodup_range'
  exact List.inj_on_of_nodup_map hnd he he' hs

theorem Made.serial_lt {g g' : Gen} {es : List Edit} (h : Made g es g') {e : Edit} (he : e ∈ es) :
    g.serial ≤ e.inst.serial ∧ e.inst.serial < g'.serial := by
  have hmem : e.inst.serial ∈ es.map fun e => e.inst.serial := List.mem_map_of_mem he
  rw [h.serials, List.mem_range'_1] at hmem
  rw [h.serial]
  exact hmem

/-- Behind the vector buffers of the entry block is `entryRef`. -/
theorem dropWhile_isVectorBuffer {F : Function} {es : List Edit} {g : Gen} (hmade : Made .init es g) {n : Node} {rest : List Node}
    (hhead : renderInsts es (F.code 0) = n :: rest) :
    ((editsAtFront es).map Node.new ++ renderInsts es (F.code 0)).dropWhile g.isVectorBuffer = n :: rest := by
  have hfront : ∀ l : List NewInst, (∀ m ∈ l, g.isVectorBuffer (.new m) = true) →
      (l.map Node.new ++ n :: rest).dropWhile g.isVectorBuffer = (n :: rest).dropWhile g.isVectorBuffer := by
    intro l
    induction l with
    | nil => intro _; rfl
    | cons m l ih =>
      intro h
      rw [List.map_cons, List.cons_append, List.dropWhile_cons_of_pos (h m List.mem_cons_self)]
      exact ih fun k hk => h k (List.mem_cons_of_mem m hk)
  have hn : g.isVectorBuffer n = false := by
    have hmem : n ∈ renderInsts es (F.code 0) := hhead ▸ List.mem_cons_self
    rcases mem_renderInsts.1 hmem with ⟨I, _, rfl⟩ | ⟨I, _, m, hm, rfl⟩
    · rfl
    · by_contra h
      have halloca := isVectorBuffer_alloca (Bool.of_not_eq_false h)
      have hnot := hmade.notFront _ hm (by simp)
      exact absurd halloca (by simp [show m.isAlloca = false from hnot])
  rw [hhead, hfront _ fun m hm => hmade.front _ (mem_editsAtFront.1 hm) rfl,
    List.dropWhile_cons_of_neg (by simp [hn])]

/-- Inserting at the entry's insertion point, behind what was inserted there before. -/
theorem apply_entry {F : Function} {es : List Edit} {front : List NewInst} {n : Node} {rest : List Node} {m : NewInst}
    (hhead : renderInsts es (F.code 0) = n :: rest) (hfront : ∀ k ∈ front, (Node.new k).ref ≠ n.ref)
    (hother : ∀ b, b ≠ 0 → ∀ x ∈ renderInsts es (F.code b), x.ref ≠ n.ref) :
    (render F front es).apply ⟨.before n.ref, m⟩ = render F (front ++ [m]) es := by
  refine map_render fun b hb => ?_
  rw [← Function.code_eq_insts hb]
  by_cases h0 : b = 0
  · subst h0
    rw [if_pos rfl, if_pos rfl, insertBefore_append (by simpa using hfront), hhead, insertBefore_eq rfl]
    simp
  · rw [if_neg h0, if_neg h0]
    exact insertBefore_not_mem (hother b h0)

section

variable {cfg : Config} {F : Function} {c : Ctx} (hF : F.WF)
include hF

/-- The head of the entry block behind the vector buffers. -/
theorem exists_entry_head {es : List Edit} : ∃ n rest, renderInsts es (F.code 0) = n :: rest := by
  obtain ⟨I, rest, hcode, -⟩ := hF.entry
  rw [hcode, renderInsts_cons]
  cases editsBefore es I.id with
  | nil => exact ⟨_, _, rfl⟩
  | cons m ms => exact ⟨_, _, rfl⟩

/-- The entry's insertion point is in the entry block only, and none of the
buffers. -/
theorem ref_ne_of_entry {es : List Edit} {g : Gen} (hmade : Made .init es g) {n : Node} {rest : List Node}
    (hhead : renderInsts es (F.code 0) = n :: rest) :
    (∀ m ∈ editsAtFront es, (Node.new m).ref ≠ n.ref) ∧
    (∀ b, b ≠ 0 → ∀ x ∈ renderInsts es (F.code b), x.ref ≠ n.ref) ∧
    (∀ s, g.serial ≤ s → Ref.new s ≠ n.ref) := by
  have hn : n ∈ renderInsts es (F.code 0) := hhead ▸ List.mem_cons_self
  rcases mem_renderInsts.1 hn with ⟨I, hI, rfl⟩ | ⟨I, hI, m, hm, rfl⟩
  · refine ⟨fun m _ h => (by cases h), fun b hb x hx h => ?_, fun s _ h => (by cases h)⟩
    rcases mem_renderInsts.1 hx with ⟨J, hJ, rfl⟩ | ⟨J, _, k, _, rfl⟩
    · have := hF.eq_of_id (Function.mem_insts_of_mem_code hJ) (Function.mem_insts_of_mem_code hI) (by simpa [Node.ref] using h)
      subst this
      exact hb (hF.block_unique hJ hI)
    · cases h
  · refine ⟨fun k hk h => ?_, fun b hb x hx h => ?_, fun s hs h => ?_⟩
    · have := hmade.serial_inj (mem_editsAtFront.1 hk) hm (by simpa [Node.ref] using h)
      cases this
    · rcases mem_renderInsts.1 hx with ⟨J, _, rfl⟩ | ⟨J, hJ, k, hk, rfl⟩
      · cases h
      · have heq := hmade.serial_inj hk hm (by simpa [Node.ref] using h)
        have hid : J.id = I.id := by simpa using congrArg Edit.point heq
        have := hF.eq_of_id (Function.mem_insts_of_mem_code hJ) (Function.mem_insts_of_mem_code hI) hid
        subst this
        exact hb (hF.block_unique hJ hI)
    · have hlt : m.serial < g.serial := (hmade.serial_lt hm).2
      have heq : s = m.serial := by simpa [Node.ref] using h
      omega

theorem render_front {es : List Edit} {front : List NewInst} {m : NewInst} :
    (render F front es).apply ⟨.front, m⟩ = render F (m :: front) es := by
  rw [apply_front hF]
  refine List.ext_getElem (by simp [render]) fun b hb _ => ?_
  simp only [render, List.getElem_mapIdx]
  congr 1
  exact renderInsts_congr fun I _ => editsBefore_concat (by simp)

theorem applyAll_entry {es : List Edit} {n : Node} {rest : List Node}
    (hhead : renderInsts es (F.code 0) = n :: rest)
    (hother : ∀ b, b ≠ 0 → ∀ x ∈ renderInsts es (F.code b), x.ref ≠ n.ref) :
    ∀ {entry : List Edit} {front : List NewInst}, (∀ k ∈ front, (Node.new k).ref ≠ n.ref) →
      (∀ e ∈ entry, (e.point = .before n.ref ∨ e.point = .front) ∧ (Node.new e.inst).ref ≠ n.ref) →
      (render F front es).applyAll entry = render F (editsAtFront entry ++ front ++ entryGroup entry) es
  | [], front, _, _ => by simp [Body.applyAll, entryGroup]
  | ⟨pt, m⟩ :: entry, front, hfront, hentry => by
    obtain ⟨hp, hm⟩ := hentry _ List.mem_cons_self
    have hentry' : ∀ e ∈ entry, (e.point = .before n.ref ∨ e.point = .front) ∧ (Node.new e.inst).ref ≠ n.ref :=
      fun e he => hentry e (List.mem_cons_of_mem _ he)
    rw [Body.applyAll, List.foldl_cons]
    rcases hp with rfl | rfl
    · rw [apply_entry hhead hfront hother]
      have ih := @applyAll_entry es n rest hhead hother entry (front ++ [m])
        (by
          intro k hk
          rcases List.mem_append.1 hk with hk | hk
          · exact hfront k hk
          · rw [List.mem_singleton.1 hk]
            exact hm) hentry'
      rw [Body.applyAll] at ih
      rw [ih]
      simp [editsAtFront, entryGroup]
    · rw [render_front hF]
      have ih := @applyAll_entry es n rest hhead hother entry (m :: front)
        (by
          intro k hk
          rcases List.mem_cons.1 hk with rfl | hk
          · exact hm
          · exact hfront k hk) hentry'
      rw [Body.applyAll] at ih
      rw [ih]
      simp [editsAtFront, entryGroup]

theorem runOnFunctionEntry_eq {es : List Edit} {g : Gen} (hmade : Made .init es g) :
    c.runOnFunctionEntry ⟨layout F es, g⟩ =
      (c.entryLines (.before (entryRef F es)) g).map fun r =>
        ⟨render F (editsAtFront r.2.1 ++ editsAtFront es ++ entryGroup r.2.1) es, r.2.2⟩ := by
  obtain ⟨n, rest, hhead⟩ : ∃ n rest, renderInsts es (F.code 0) = n :: rest := exists_entry_head hF
  obtain ⟨hfront, hother, hnew⟩ := ref_ne_of_entry hF hmade hhead
  have hlen : 0 < F.blocks.length := List.length_pos_iff.2 (blocks_ne_nil hF)
  have hblock : (layout F es).block 0 = (editsAtFront es).map .new ++ renderInsts es (F.code 0) := by
    rw [layout, block_render hlen, if_pos rfl]
  have href : entryRef F es = n.ref := by rw [entryRef, hhead]; rfl
  have hpt : Point.before n.ref ≠ .front := by simp
  unfold Ctx.runOnFunctionEntry
  simp only [hblock, firstInsertionPt_entry hF, dropWhile_isVectorBuffer hmade hhead, href]
  cases hrun : c.entryLines (.before n.ref) g with
  | error e => simp [Work.run, hrun, Except.map]
  | ok r =>
    obtain ⟨u, entry, g'⟩ := r
    have hedits := entryLines_edits hrun
    have hmade' : Made g entry g' :=
      hedits.rel made_composes (fun g pu k _ => call_made hpt g pu k) fun _ _ _ _ _ _ _ hline => hline.made hpt
    have hpoints : ∀ e ∈ entry, e.point = .before n.ref ∨ e.point = .front :=
      hedits.rel (composes_forall fun e => e.point = .before n.ref ∨ e.point = .front)
        (fun g pu k _ e he => by rw [List.mem_singleton.1 he]; exact .inl rfl)
        fun _ _ _ _ _ _ _ hline => hline.points
    have happly := applyAll_entry hF hhead hother hfront fun e (he : e ∈ entry) =>
      ⟨hpoints e he, hnew _ (hmade'.serial_lt he).1⟩
    simp [Work.run, hrun, Except.map, layout, happly]

end

/-- **The pass computes the plan**: what it makes of a function is the
original with the planned instructions in their places, and it ends early
only where the plan does. -/
theorem runOnFunction_eq {cfg : Config} {F : Function} (hF : F.WF) (hC : cfg.isCFunction F.name = true) :
    runOnFunction cfg F = collect cfg F >>= fun c => c.plan.map (instrumented F) := by
  unfold runOnFunction
  rw [if_pos hC]
  cases hc : collect cfg F with
  | error e => rfl
  | ok c =>
    obtain ⟨-, hfunc, -⟩ := collect_cases hc
    rw [Run.ok_bind, Run.ok_bind, ← layout_nil,
      foldlM_runOnBasicBlock_eq hF hc (fun b hb => Function.mem_blockRefs hb) (Function.blockRefs_pairwise F)
        (fun _ _ _ _ => rfl) fun _ _ _ => rfl, Ctx.plan, hfunc]
    cases hrun : (forM F.blockRefs c.planBlock : Tracing PUnit) .init with
    | error e => rfl
    | ok r =>
      obtain ⟨u, es, g⟩ := r
      have hmade : Made .init es g := (planBlocks_edits hF hc hrun).made
      simp only [Except.map, List.nil_append, Run.ok_bind]
      by_cases hmain : F.name = "main"
      · rw [if_pos hmain, if_pos hmain, Run.ok_bind]
        simp [instrumented, layout, entryGroup]
      · rw [if_neg hmain, if_neg hmain, runOnFunctionEntry_eq hF hmade]
        cases c.entryLines (.before (entryRef F es)) g with
        | error e => rfl
        | ok r => rfl

/-- What a run of the pass that returns has done. -/
structure Planned (cfg : Config) (F : Function) (c : Ctx) (p : Plan) : Prop where
  collected : collect cfg F = .ok c
  parts : ∃ g, BlocksEdits c F.blockRefs .init p.blocks g ∧
    (F.name = "main" ∧ p.entry = [] ∨
      F.name ≠ "main" ∧ ∃ g', EntryEdits c (.before (entryRef F p.blocks)) g p.entry g')

theorem Planned.cfg {cfg : Config} {F : Function} {c : Ctx} {p : Plan} (h : Planned cfg F c p) : c.cfg = cfg :=
  (collect_cases h.collected).1

theorem Planned.func {cfg : Config} {F : Function} {c : Ctx} {p : Plan} (h : Planned cfg F c p) : c.func = F :=
  (collect_cases h.collected).2.1

theorem plan_edits {cfg : Config} {F : Function} {c : Ctx} {p : Plan} (hF : F.WF) (hc : collect cfg F = .ok c)
    (h : c.plan = .ok p) : Planned cfg F c p := by
  have hfunc := (collect_cases hc).2.1
  refine ⟨hc, ?_⟩
  unfold Ctx.plan at h
  rw [hfunc] at h
  obtain ⟨⟨u, es, g⟩, hrun, h⟩ := Run.bind_eq_ok.1 h
  have hblocks := planBlocks_edits hF hc hrun
  split at h
  · rename_i hmain
    cases h
    exact ⟨g, hblocks, .inl ⟨hmain, rfl⟩⟩
  · rename_i hmain
    obtain ⟨⟨u', es', g'⟩, hentry, rfl⟩ := Run.map_eq_ok.1 h
    exact ⟨g, hblocks, .inr ⟨hmain, g', entryLines_edits hentry⟩⟩

theorem runOnFunction_ok {cfg : Config} {F : Function} {body : Body} (hF : F.WF) (hC : cfg.isCFunction F.name = true)
    (h : runOnFunction cfg F = .ok body) : ∃ c p, Planned cfg F c p ∧ body = instrumented F p := by
  rw [runOnFunction_eq hF hC] at h
  obtain ⟨c, hc, h⟩ := Run.bind_eq_ok.1 h
  obtain ⟨p, hp, rfl⟩ := Run.map_eq_ok.1 h
  exact ⟨c, p, plan_edits hF hc hp, rfl⟩

end LlvmTracer.Pass
