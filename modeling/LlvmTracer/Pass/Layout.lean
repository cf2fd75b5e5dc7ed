/-
The instrumented function as a function of the edits.

`layout F es` is the original function with what `es` inserts in place: the
front of the entry block, and before each original instruction what was
inserted there, in order. Every edit of the walk keeps this form
(`layout_applyAll`).
-/
import LlvmTracer.Ir.Wf
import LlvmTracer.Pass.Inserted

namespace LlvmTracer.Pass

open Ir

/-! ## The instrumented function -/

/-- What is inserted before the instruction `id`. -/
def editsBefore (es : List Edit) (id : Nat) : List NewInst :=
  es.filterMap fun e => if e.point = .before (.orig id) then some e.inst else none

/-- What is inserted at the entry block's front: each in front of the earlier ones. -/
def editsAtFront (es : List Edit) : List NewInst :=
  (es.filterMap fun e => if e.point = .front then some e.inst else none).reverse

def renderInsts (es : List Edit) (insts : List Inst) : List Node :=
  insts.flatMap fun I => (editsBefore es I.id).map .new ++ [.orig I]

/-- A function's blocks, with `front` at the head of the entry block. -/
def render (F : Function) (front : List NewInst) (es : List Edit) : Body :=
  F.blocks.mapIdx fun b blk => (if b = 0 then front.map .new else []) ++ renderInsts es blk.insts

@[simp] theorem editsBefore_nil (id : Nat) : editsBefore [] id = [] := rfl
@[simp] theorem editsAtFront_nil : editsAtFront [] = [] := rfl

theorem editsBefore_append (es es' : List Edit) (id : Nat) :
    editsBefore (es ++ es') id = editsBefore es id ++ editsBefore es' id := List.filterMap_append

theorem editsAtFront_append (es es' : List Edit) : editsAtFront (es ++ es') = editsAtFront es' ++ editsAtFront es := by
  simp [editsAtFront]

theorem editsBefore_eq_nil {es : List Edit} {id : Nat} (h : ∀ e ∈ es, e.point ≠ .before (.orig id)) :
    editsBefore es id = [] := by
  rw [editsBefore, List.filterMap_eq_nil_iff]
  intro e he
  rw [if_neg (h e he)]

@[simp] theorem renderInsts_nil (es : List Edit) : renderInsts es [] = [] := rfl

theorem editsBefore_concat {es : List Edit} {e : Edit} {id : Nat} (h : e.point ≠ .before (.orig id)) :
    editsBefore (es ++ [e]) id = editsBefore es id := by
  have hnil : editsBefore [e] id = [] := editsBefore_eq_nil fun e' he' => by
    rw [List.mem_singleton.1 he']
    exact h
  rw [editsBefore_append, hnil, List.append_nil]

theorem renderInsts_cons (es : List Edit) (I : Inst) (insts : List Inst) :
    renderInsts es (I :: insts) = (editsBefore es I.id).map .new ++ .orig I :: renderInsts es insts := by
  simp [renderInsts]

theorem renderInsts_append (es : List Edit) (l l' : List Inst) :
    renderInsts es (l ++ l') = renderInsts es l ++ renderInsts es l' := List.flatMap_append

theorem renderInsts_congr {es es' : List Edit} : ∀ {insts : List Inst},
    (∀ I ∈ insts, editsBefore es I.id = editsBefore es' I.id) → renderInsts es insts = renderInsts es' insts
  | [], _ => rfl
  | I :: insts, h => by
    rw [renderInsts_cons, renderInsts_cons, h I List.mem_cons_self,
      renderInsts_congr fun J hJ => h J (List.mem_cons_of_mem I hJ)]

/-- Nothing is inserted before these yet. -/
theorem renderInsts_eq_map {es : List Edit} : ∀ {insts : List Inst}, (∀ I ∈ insts, editsBefore es I.id = []) →
    renderInsts es insts = insts.map .orig
  | [], _ => rfl
  | I :: insts, h => by
    rw [renderInsts_cons, h I List.mem_cons_self, renderInsts_eq_map fun J hJ => h J (List.mem_cons_of_mem I hJ)]
    rfl

theorem filterMap_orig_new (l : List NewInst) : (l.map Node.new).filterMap Node.orig? = [] := by
  rw [List.filterMap_map, List.filterMap_eq_nil_iff]
  intro n _
  rfl

theorem filterMap_orig_renderInsts (es : List Edit) : ∀ insts : List Inst,
    (renderInsts es insts).filterMap Node.orig? = insts
  | [] => rfl
  | I :: insts => by
    rw [renderInsts_cons, List.filterMap_append, filterMap_orig_new, List.nil_append, List.filterMap_cons]
    simp only [Node.orig?]
    rw [filterMap_orig_renderInsts es insts]

theorem block_render {F : Function} {front : List NewInst} {es : List Edit} {b : Nat} (hb : b < F.blocks.length) :
    (render F front es).block b = (if b = 0 then front.map .new else []) ++ renderInsts es (F.code b) := by
  simp [Body.block, render, Function.code, hb]

/-! ## Insertions keep that form -/

theorem insertBefore_eq {r : Ref} {n : NewInst} {x : Node} {l : List Node} (h : x.ref = r) :
    insertBefore r n (x :: l) = .new n :: x :: l := if_pos h

theorem insertBefore_ne {r : Ref} {n : NewInst} {x : Node} {l : List Node} (h : x.ref ≠ r) :
    insertBefore r n (x :: l) = x :: insertBefore r n l := if_neg h

theorem insertBefore_not_mem {r : Ref} {n : NewInst} : ∀ {l : List Node}, (∀ x ∈ l, x.ref ≠ r) → insertBefore r n l = l
  | [], _ => rfl
  | x :: l, h => by
    rw [insertBefore_ne (h x List.mem_cons_self), insertBefore_not_mem fun y hy => h y (List.mem_cons_of_mem x hy)]

theorem insertBefore_append {r : Ref} {n : NewInst} : ∀ {l l' : List Node}, (∀ x ∈ l, x.ref ≠ r) →
    insertBefore r n (l ++ l') = l ++ insertBefore r n l'
  | [], _, _ => rfl
  | x :: l, l', h => by
    rw [List.cons_append, insertBefore_ne (h x List.mem_cons_self),
      insertBefore_append fun y hy => h y (List.mem_cons_of_mem x hy), List.cons_append]

theorem insertBefore_new {id : Nat} {n : NewInst} : ∀ {ns : List NewInst} {l : List Node},
    insertBefore (.orig id) n (ns.map .new ++ l) = ns.map .new ++ insertBefore (.orig id) n l
  | [], _ => rfl
  | m :: ns, l => by
    rw [List.map_cons, List.cons_append, insertBefore_ne (by simp [Node.ref]), insertBefore_new, List.cons_append]

theorem insertBefore_renderInsts {es : List Edit} {id : Nat} {n : NewInst} :
    ∀ {insts : List Inst}, (insts.map Inst.id).Nodup →
      insertBefore (.orig id) n (renderInsts es insts) = renderInsts (es ++ [⟨.before (.orig id), n⟩]) insts
  | [], _ => rfl
  | I :: insts, hnd => by
    obtain ⟨hnotin, hnd⟩ := List.nodup_cons.1 hnd
    rw [renderInsts_cons, renderInsts_cons, insertBefore_new, editsBefore_append]
    by_cases hid : I.id = id
    · have hrest : renderInsts (es ++ [⟨.before (.orig id), n⟩]) insts = renderInsts es insts := by
        refine renderInsts_congr fun J hJ => ?_
        have hne : J.id ≠ id := fun h => hnotin (List.mem_map.2 ⟨J, hJ, h.trans hid.symm⟩)
        exact editsBefore_concat (by simpa using hne.symm)
      have hone : editsBefore [⟨.before (.orig id), n⟩] I.id = [n] := by simp [editsBefore, hid]
      rw [hrest, hone, insertBefore_eq (by simp [Node.ref, hid])]
      simp
    · have hone : editsBefore [⟨.before (.orig id), n⟩] I.id = [] := by
        refine editsBefore_eq_nil fun e he => ?_
        rw [List.mem_singleton.1 he]
        simpa using fun h => hid h.symm
      rw [hone, List.append_nil, ← insertBefore_renderInsts hnd, insertBefore_ne (by simpa [Node.ref] using hid)]

/-- The function with what was inserted so far. -/
def layout (F : Function) (es : List Edit) : Body := render F (editsAtFront es) es

theorem layout_nil (F : Function) : layout F [] = .ofFunction F := by
  refine List.ext_getElem (by simp [layout, render, Body.ofFunction]) fun b hb _ => ?_
  simp only [layout, render, Body.ofFunction, List.getElem_mapIdx, List.getElem_map]
  rw [renderInsts_eq_map fun _ _ => rfl]
  split <;> rfl

theorem map_render {F : Function} {front front' : List NewInst} {es es' : List Edit} {f : List Node → List Node}
    (h : ∀ b (hb : b < F.blocks.length), f ((if b = 0 then front.map .new else []) ++ renderInsts es F.blocks[b].insts) =
      (if b = 0 then front'.map .new else []) ++ renderInsts es' F.blocks[b].insts) :
    (render F front es).map f = render F front' es' := by
  refine List.ext_getElem (by simp [render]) fun b hb _ => ?_
  simp only [render, List.getElem_map, List.getElem_mapIdx]
  exact h b (by simpa [render] using hb)

/-- What the walk inserts goes before an original instruction, or to the front. -/
def Point.Plain (pt : Point) : Prop := pt = .front ∨ ∃ id, pt = .before (.orig id)

section

variable {F : Function} (hF : F.WF)
include hF

theorem apply_before {front : List NewInst} {es : List Edit} {id : Nat} {n : NewInst} :
    (render F front es).apply ⟨.before (.orig id), n⟩ = render F front (es ++ [⟨.before (.orig id), n⟩]) := by
  refine map_render fun b hb => ?_
  have hnd := hF.code_ids_nodup b
  rw [Function.code_eq_insts hb] at hnd
  rw [← insertBefore_renderInsts hnd]
  split
  · rw [insertBefore_new]
  · rfl

/-- The entry block has nothing its first insertion point is behind of. -/
theorem firstInsertionPt_entry {front : List NewInst} {es : List Edit} :
    firstInsertionPt (front.map .new ++ renderInsts es (F.code 0)) = front.map .new ++ renderInsts es (F.code 0) := by
  obtain ⟨I, rest, hcode, hphi, hpad⟩ := hF.entry
  have hhead : ∃ n l, front.map .new ++ renderInsts es (F.code 0) = n :: l ∧ n.isPhi = false ∧ n.isEHPad = false := by
    rw [hcode, renderInsts_cons]
    cases front with
    | cons m ms => exact ⟨.new m, _, rfl, rfl, rfl⟩
    | nil =>
      cases editsBefore es I.id with
      | cons m ms => exact ⟨.new m, _, rfl, rfl, rfl⟩
      | nil => exact ⟨.orig I, _, rfl, hphi, hpad⟩
  obtain ⟨n, l, heq, hnphi, hnpad⟩ := hhead
  rw [heq, firstInsertionPt, List.dropWhile_cons_of_neg (by simp [hnphi])]
  simp [hnpad]

theorem insertAtFirstInsertionPt_entry {front : List NewInst} {es : List Edit} {n : NewInst} :
    insertAtFirstInsertionPt n (front.map .new ++ renderInsts es (F.code 0)) =
      (n :: front).map .new ++ renderInsts es (F.code 0) := by
  rw [insertAtFirstInsertionPt, firstInsertionPt_entry hF]
  simp

theorem blocks_ne_nil : F.blocks ≠ [] := by
  obtain ⟨I, rest, hcode, -⟩ := hF.entry
  intro h
  simp [Function.code, h] at hcode

theorem apply_front {front : List NewInst} {es : List Edit} {n : NewInst} :
    (render F front es).apply ⟨.front, n⟩ = render F (n :: front) (es ++ [⟨.front, n⟩]) := by
  have hsame : ∀ insts, renderInsts (es ++ [⟨.front, n⟩]) insts = renderInsts es insts := by
    intro insts
    exact renderInsts_congr fun I _ => editsBefore_concat (by simp)
  have hentry : insertAtFirstInsertionPt n (front.map .new ++ renderInsts es (F.code 0)) =
      (n :: front).map .new ++ renderInsts es (F.code 0) := insertAtFirstInsertionPt_entry hF
  have hne := blocks_ne_nil hF
  cases hb : F.blocks with
  | nil => exact absurd hb hne
  | cons blk blks =>
    have hcode : F.code 0 = blk.insts := by simp [Function.code, hb]
    rw [hcode] at hentry
    simp [render, hb, Body.apply, hsame, hentry]

theorem layout_apply {es : List Edit} {e : Edit} (he : e.point.Plain) : (layout F es).apply e = layout F (es ++ [e]) := by
  obtain ⟨pt, n⟩ := e
  rcases he with rfl | ⟨id, rfl⟩
  · rw [layout, apply_front hF, layout, editsAtFront_append]
    rfl
  · rw [layout, apply_before hF, layout, editsAtFront_append]
    rfl

theorem layout_applyAll : ∀ {es' es : List Edit}, (∀ e ∈ es', e.point.Plain) →
    (layout F es).applyAll es' = layout F (es ++ es')
  | [], es, _ => by simp [Body.applyAll]
  | e :: es', es, h => by
    have ih : (layout F (es ++ [e])).applyAll es' = layout F (es ++ [e] ++ es') :=
      layout_applyAll fun e' he' => h e' (List.mem_cons_of_mem e he')
    rw [Body.applyAll, List.foldl_cons, layout_apply hF (h e List.mem_cons_self)]
    rw [Body.applyAll] at ih
    rw [ih, List.append_assoc]
    rfl

end

end LlvmTracer.Pass
