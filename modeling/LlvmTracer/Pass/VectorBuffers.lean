/-
Which buffer a vector is stored into.

`createVectorArg` keeps its buffers under a key that says less than the type:
pointers have no primitive size, and of an integer's bits only whole bytes
count (`Ty.Clash`). So a buffer may be another type's (`buffersMatch_iff`).
-/
import LlvmTracer.Lib.Keyed
import LlvmTracer.Pass.Walk

namespace LlvmTracer.Pass

open Ir Emit

/-! ## Keys -/

/-- What a vector may have as its elements: integers, floating-point numbers
and pointers. -/
def isElement (t : Ty) : Bool := t.typeID = .integer || t.typeID.isFloatingPoint || t.typeID = .pointer

def isVectorTy : Ty → Bool
  | .vector _ t => isElement t
  | _ => false

/-- Different vectors of as many elements: pointers, or integers of as many
whole bytes. -/
def Clash : Ty → Ty → Prop
  | .vector n (.pointer t), .vector m (.pointer u) => n = m ∧ t ≠ u
  | .vector n (.integer w), .vector m (.integer w') => n = m ∧ w / 8 = w' / 8 ∧ w ≠ w'
  | _, _ => False

theorem Clash.ne {t u : Ty} (h : Clash t u) : t ≠ u := by
  rintro rfl
  unfold Clash at h
  split at h <;> simp_all

/-- The key tells all others apart. -/
theorem createVecBufKey_eq_iff {t u : Ty} (ht : isVectorTy t = true) (hu : isVectorTy u = true) :
    createVecBufKey t = createVecBufKey u ↔ t = u ∨ Clash t u := by
  cases t with
  | vector n a =>
    cases u with
    | vector m b =>
      cases a <;> cases b <;>
        simp_all [isVectorTy, isElement, createVecBufKey, Ty.typeID, Ty.primitiveSizeInBits, TypeID.isFloatingPoint, Clash] <;>
        grind
    | _ => simp [isVectorTy] at hu
  | _ => simp [isVectorTy] at ht

/-! ## Calls -/

/-- A stretch of insertions: the types of the vectors `createVectorArg` is
called for, in order, and the buffers it takes. -/
inductive VectorCalls : Gen → List (Ty × Buffer) → Gen → Prop
  | nil (g : Gen) : VectorCalls g [] g
  | other {g g₁ g' : Gen} {l : List (Ty × Buffer)} : g₁.vectorBuffers = g.vectorBuffers → g.serial ≤ g₁.serial →
      VectorCalls g₁ l g' → VectorCalls g l g'
  | call {g g₁ g' : Gen} {l : List (Ty × Buffer)} {pu : Purpose} {ty : Ty} {key : VecBufKey} {buffer : Buffer}
      {es : List Edit} : createVecBufKey ty = some key → Runs (vectorBuffer pu ty key) g buffer es g₁ →
      VectorCalls g₁ l g' → VectorCalls g ((ty, buffer) :: l) g'

theorem VectorCalls.append {g g₁ g' : Gen} {l l' : List (Ty × Buffer)} (h : VectorCalls g l g₁)
    (h' : VectorCalls g₁ l' g') : VectorCalls g (l ++ l') g' := by
  induction h with
  | nil => exact h'
  | other hbuffers hserial _ ih => exact .other hbuffers hserial (ih h')
  | call hkey hrun _ ih => exact .call hkey hrun (ih h')

theorem VectorCalls.rest {g g' : Gen} (hbuffers : g'.vectorBuffers = g.vectorBuffers) (hserial : g.serial ≤ g'.serial) :
    VectorCalls g [] g' :=
  .other hbuffers hserial (.nil g')

/-- The keys of vector types, and what a buffer was allocated as. -/
def bufferKind : Keyed.Kind VecBufKey Ty Buffer := ⟨createVecBufKey, Buffer.serial, Buffer.allocated⟩

theorem VectorCalls.serves {g g' : Gen} {l : List (Ty × Buffer)} (h : VectorCalls g l g') :
    Keyed.Serves bufferKind g.vectorBuffers g.serial l g'.vectorBuffers g'.serial := by
  induction h with
  | nil g => exact .nil _ _
  | other hbuffers hserial _ ih =>
    rw [hbuffers] at ih
    exact .skip hserial ih
  | call hkey hrun _ ih =>
    rcases vectorBuffer_cases hrun with ⟨hb, -, rfl⟩ | ⟨hnone, rfl, -, rfl⟩
    · exact .hit hkey hb ih
    · exact .miss hkey hnone rfl rfl ih

/-! ## The calls of the pass -/

/-- A store into a buffer: the vector's type, and the buffer's number. -/
def NewInst.store? (n : NewInst) : Option (Ty × Nat) :=
  match n.op with
  | .store v buffer _ => some (v.ty, buffer)
  | _ => none

/-- The stores are those of the calls, in order. -/
def StoresOf (g : Gen) (es : List Edit) (g' : Gen) : Prop :=
  ∃ l, VectorCalls g l g' ∧ (es.filterMap fun e => e.inst.store?) = l.map fun x => (x.1, x.2.serial)

theorem storesOf_composes : Composes StoresOf where
  nil g := ⟨[], .nil g, rfl⟩
  append := by
    rintro g g₁ g' es es' ⟨l, hl, hes⟩ ⟨l', hl', hes'⟩
    exact ⟨l ++ l', hl.append hl', by rw [List.filterMap_append, hes, hes', List.map_append]⟩

/-- Insertions that leave the buffers as they are, and store into none. -/
theorem storesOf_of_plain {g g' : Gen} {es : List Edit} (hbuffers : g'.vectorBuffers = g.vectorBuffers)
    (hserial : g.serial ≤ g'.serial) (hes : ∀ e ∈ es, e.inst.store? = none) : StoresOf g es g' :=
  ⟨[], .rest hbuffers hserial, List.filterMap_eq_nil_iff.2 hes⟩

theorem runs_vectorBuffer_hit (pu : Purpose) {ty : Ty} {key : VecBufKey} {g : Gen} {buffer : Buffer}
    (h : g.vectorBuffers.lookup key = some buffer) : Runs (vectorBuffer pu ty key) g buffer [] g := by
  unfold vectorBuffer
  refine runs_bind.2 ⟨g, [], g, [], runs_get.2 ⟨rfl, rfl, rfl⟩, ?_, rfl⟩
  rw [h]
  exact runs_pure.2 ⟨rfl, rfl, rfl⟩

theorem runs_vectorBuffer_miss (pu : Purpose) {ty : Ty} {key : VecBufKey} {g : Gen}
    (h : g.vectorBuffers.lookup key = none) :
    Runs (vectorBuffer pu ty key) g ⟨g.serial, ty⟩ [⟨.front, g.serial, pu, .alloca ty⟩]
      { g.next 1 with vectorBuffers := (key, ⟨g.serial, ty⟩) :: g.vectorBuffers } := by
  unfold vectorBuffer
  refine runs_bind.2 ⟨g, [], g, _, runs_get.2 ⟨rfl, rfl, rfl⟩, ?_, rfl⟩
  rw [h]
  simp only [runs_bind, runs_insert, runs_modify, runs_pure]
  exact ⟨_, _, _, _, ⟨rfl, rfl, rfl⟩, ⟨(), _, _, _, ⟨rfl, rfl⟩, ⟨rfl, rfl, rfl⟩, rfl⟩, rfl⟩

theorem LineEdits.storesOf {pt : Point} {pu : Purpose} {p : InstOperandParams} {g g' : Gen} {es : List Edit}
    (h : LineEdits pt pu p g es g') : StoresOf g es g' := by
  cases h with
  | direct logger x => exact storesOf_of_plain rfl (Nat.le_add_right _ _) (by simp [NewInst.store?])
  | cast logger op v => exact storesOf_of_plain rfl (Nat.le_add_right _ _) (by simp [NewInst.store?])
  | vector v key buffer _ _ hkey hb =>
    have hrest : VectorCalls g [] (g.next 3) := .rest rfl (Nat.le_add_right _ _)
    exact ⟨[(v.ty, buffer)], .call hkey (runs_vectorBuffer_hit pu hb) hrest, by simp [vectorEdits, NewInst.store?]⟩
  | newVector v key _ _ hkey hnone =>
    have hrest : VectorCalls { g.next 1 with vectorBuffers := (key, ⟨g.serial, v.ty⟩) :: g.vectorBuffers } []
        { g.next 4 with vectorBuffers := (key, ⟨g.serial, v.ty⟩) :: g.vectorBuffers } :=
      .rest rfl (Nat.add_le_add_left (by decide) _)
    exact ⟨[(v.ty, ⟨g.serial, v.ty⟩)], .call hkey (runs_vectorBuffer_miss pu hnone) hrest,
      by simp [vectorEdits, NewInst.store?]⟩
  | unhandled => exact storesOf_composes.nil _

theorem call_storesOf {pt : Point} (g : Gen) (pu : Purpose) (k : LogCall) :
    StoresOf g [⟨pt, g.serial, pu, .call k⟩] (g.next 1) :=
  storesOf_of_plain rfl (Nat.le_add_right _ _) (by simp [NewInst.store?])

/-- Every store of an instrumented function is of one sequence of calls. -/
theorem Planned.storesOf {cfg : Config} {F : Function} {c : Ctx} {p : Plan} (h : Planned cfg F c p) :
    ∃ g', StoresOf .init (p.blocks ++ p.entry) g' := by
  obtain ⟨g, hblocks, hentry⟩ := h.parts
  have hfirst : StoresOf .init p.blocks g := by
    refine hblocks.rel storesOf_composes fun I _ pt next env g es g' _ _ _ hedits => ?_
    exact hedits.rel storesOf_composes (fun g pu k _ => call_storesOf g pu k) (fun _ _ _ _ _ _ _ _ hline => hline.storesOf)
      (fun _ _ _ _ _ _ _ hline => hline.storesOf) (fun g slots => storesOf_of_plain rfl (Nat.le_refl _) (by simp))
  rcases hentry with ⟨-, hnil⟩ | ⟨-, g', hentry⟩
  · exact ⟨g, by rwa [hnil, List.append_nil]⟩
  · exact ⟨g', storesOf_composes.append hfirst (hentry.rel storesOf_composes (fun g pu k _ => call_storesOf g pu k)
      fun _ _ _ _ _ _ _ hline => hline.storesOf)⟩

/-! ## Buffers and vectors -/

/-- Each vector goes into a buffer of its type, vectors share one just when
their types are equal, and no two buffers are of one type. -/
structure BuffersMatch (l : List (Ty × Buffer)) : Prop where
  typed : ∀ x ∈ l, x.2.allocated = x.1
  shared : ∀ x ∈ l, ∀ y ∈ l, x.2.serial = y.2.serial ↔ x.1 = y.1
  single : ∀ x ∈ l, ∀ y ∈ l, x.2.allocated = y.2.allocated → x.2.serial = y.2.serial

/-- **Vector buffers.** They match just when no two of the vectors' types clash. -/
theorem buffersMatch_iff {g g' : Gen} {l : List (Ty × Buffer)} (hg : g.vectorBuffers = []) (h : VectorCalls g l g')
    (hty : ∀ x ∈ l, isVectorTy x.1 = true) : BuffersMatch l ↔ ∀ x ∈ l, ∀ y ∈ l, ¬ Clash x.1 y.1 := by
  have hserves := h.serves
  rw [hg] at hserves
  have hkeys : (∀ x ∈ l, ∀ y ∈ l, createVecBufKey x.1 = createVecBufKey y.1 → x.1 = y.1) ↔
      ∀ x ∈ l, ∀ y ∈ l, ¬ Clash x.1 y.1 := by
    refine forall₂_congr fun x hx => forall₂_congr fun y hy => ?_
    rw [createVecBufKey_eq_iff (hty x hx) (hty y hy), or_imp]
    exact ⟨fun h hclash => hclash.ne (h.2 hclash), fun h => ⟨id, fun hclash => absurd hclash h⟩⟩
  rw [← hkeys]
  constructor
  · exact fun hmatch => hserves.madeFor_iff.1 hmatch.typed
  · intro hinj
    refine ⟨hserves.madeFor_iff.2 hinj, fun x hx y hy => ?_, fun x hx y hy => hserves.number_eq_of_madeFor hx hy⟩
    exact (hserves.number_eq_iff hx hy).trans ⟨hinj x hx y hy, fun heq => congrArg createVecBufKey heq⟩

/-- Three vectors, of two types. -/
theorem buffersMatch_threeVectors : BuffersMatch [(.vector 4 i32, ⟨0, .vector 4 i32⟩), (.vector 4 .float, ⟨1, .vector 4 .float⟩),
    (.vector 4 i32, ⟨0, .vector 4 i32⟩)] := by
  refine (buffersMatch_iff (g := .init) rfl (.call rfl (runs_vectorBuffer_miss .entry rfl) (.call rfl
    (runs_vectorBuffer_miss .entry rfl) (.call rfl (runs_vectorBuffer_hit .entry rfl) (.nil _)))) (by decide)).2 ?_
  simp [Clash]

/-- Vectors of pointers to different types go into one buffer. -/
theorem not_buffersMatch_pointers :
    (∃ g', VectorCalls .init [(.vector 2 (.pointer i32), ⟨0, .vector 2 (.pointer i32)⟩),
      (.vector 2 (.pointer .float), ⟨0, .vector 2 (.pointer i32)⟩)] g') ∧
    ¬ BuffersMatch [(.vector 2 (.pointer i32), ⟨0, .vector 2 (.pointer i32)⟩),
      (.vector 2 (.pointer .float), ⟨0, .vector 2 (.pointer i32)⟩)] := by
  constructor
  · exact ⟨_, .call rfl (runs_vectorBuffer_miss .entry rfl) (.call rfl (runs_vectorBuffer_hit .entry rfl) (.nil _))⟩
  · intro hmatch
    have htyped := hmatch.typed (.vector 2 (.pointer .float), ⟨0, .vector 2 (.pointer i32)⟩) (by simp)
    exact absurd htyped (by decide)

end LlvmTracer.Pass
