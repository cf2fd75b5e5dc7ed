/-
Serial numbers and vector buffers, over any stretch of insertions.

What goes to the front is exactly a buffer's allocation, the map of buffers
keeps it, and what is stored into or read is a buffer of the map.
-/
import LlvmTracer.Pass.Edits

namespace LlvmTracer.Pass

open Ir Emit

/-- The buffer an inserted instruction stores into, or takes the address of. -/
def NewInst.buffer? (n : NewInst) : Option Nat :=
  match n.op with
  | .store _ buffer _ | .pointerCast buffer => some buffer
  | _ => none

/-- The map has the buffer, for the type of what `n` may store into it. -/
def Gen.HasBuffer (g : Gen) (serial : Nat) (n : NewInst) : Prop :=
  ∃ key buffer, g.vectorBuffers.lookup key = some buffer ∧ buffer.serial = serial ∧
    ∀ v align, n.op = .store v serial align → buffer.allocated = v.ty

structure Made (g : Gen) (es : List Edit) (g' : Gen) : Prop where
  serials : es.map (fun e => e.inst.serial) = List.range' g.serial es.length
  serial : g'.serial = g.serial + es.length
  kept : ∀ key buffer, g.vectorBuffers.lookup key = some buffer → g'.vectorBuffers.lookup key = some buffer
  front : ∀ e ∈ es, e.point = .front → g'.isVectorBuffer (.new e.inst) = true
  notFront : ∀ e ∈ es, e.point ≠ .front → e.inst.isAlloca = false
  uses : ∀ e ∈ es, ∀ buffer, e.inst.buffer? = some buffer → g'.HasBuffer buffer e.inst
  buffers : ∀ key buffer, g'.vectorBuffers.lookup key = some buffer →
    g.vectorBuffers.lookup key = some buffer ∨
      ∃ e ∈ es, e.point = .front ∧ e.inst.serial = buffer.serial ∧ e.inst.op = .alloca buffer.allocated

theorem isVectorBuffer_alloca {g : Gen} {n : NewInst} (h : g.isVectorBuffer (.new n) = true) : n.isAlloca = true := by
  obtain ⟨serial, pu, op⟩ := n
  cases op <;> simp_all [Gen.isVectorBuffer, NewInst.isAlloca]

theorem isVectorBuffer_mono {g g' : Gen}
    (hkept : ∀ key buffer, g.vectorBuffers.lookup key = some buffer → g'.vectorBuffers.lookup key = some buffer)
    {n : NewInst} (h : g.isVectorBuffer (.new n) = true) : g'.isVectorBuffer (.new n) = true := by
  obtain ⟨serial, pu, op⟩ := n
  cases op with
  | alloca ty =>
    simp only [Gen.isVectorBuffer] at h ⊢
    cases hk : createVecBufKey ty with
    | none => simp [hk] at h
    | some key =>
      simp only [hk, decide_eq_true_eq, Option.map_eq_some_iff] at h ⊢
      obtain ⟨buffer, hb, hs⟩ := h
      exact ⟨buffer, hkept key buffer hb, hs⟩
  | _ => cases h

theorem made_composes : Composes Made where
  nil g := ⟨rfl, rfl, fun _ _ h => h, by simp, by simp, by simp, fun _ _ h => .inl h⟩
  append := by
    intro g g₁ g' es es' h₁ h₂
    refine ⟨?_, ?_, ?_, ?_, ?_, ?_, ?_⟩
    · rw [List.map_append, h₁.serials, h₂.serials, h₁.serial, List.length_append, List.range'_append_1]
    · rw [h₂.serial, h₁.serial, List.length_append, Nat.add_assoc]
    · exact fun key buffer h => h₂.kept _ _ (h₁.kept _ _ h)
    · intro e he hp
      rcases List.mem_append.1 he with he | he
      · exact isVectorBuffer_mono h₂.kept (h₁.front e he hp)
      · exact h₂.front e he hp
    · intro e he hp
      rcases List.mem_append.1 he with he | he
      · exact h₁.notFront e he hp
      · exact h₂.notFront e he hp
    · intro e he buffer hb
      rcases List.mem_append.1 he with he | he
      · obtain ⟨key, b, hk, hs⟩ := h₁.uses e he buffer hb
        exact ⟨key, b, h₂.kept _ _ hk, hs⟩
      · exact h₂.uses e he buffer hb
    · intro key buffer h
      rcases h₂.buffers key buffer h with h | ⟨e, he, h⟩
      · rcases h₁.buffers key buffer h with h | ⟨e, he, h⟩
        · exact .inl h
        · exact .inr ⟨e, List.mem_append_left _ he, h⟩
      · exact .inr ⟨e, List.mem_append_right _ he, h⟩

/-- Insertions before an instruction, with the buffers as they are. -/
theorem made_of_plain {g : Gen} {es : List Edit} (hs : es.map (fun e => e.inst.serial) = List.range' g.serial es.length)
    (hp : ∀ e ∈ es, e.point ≠ .front ∧ e.inst.isAlloca = false)
    (huses : ∀ e ∈ es, ∀ buffer, e.inst.buffer? = some buffer → g.HasBuffer buffer e.inst) : Made g es (g.next es.length) where
  serials := hs
  serial := rfl
  kept _ _ h := h
  front e he hf := absurd hf (hp e he).1
  notFront e he _ := (hp e he).2
  uses := huses
  buffers _ _ h := .inl h

/-- Using a buffer the map has. -/
theorem vectorEdits_made {pt : Point} {pu : Purpose} {p : InstOperandParams} {g : Gen} {buffer : Buffer}
    {key key' : VecBufKey} {v : Value} (hpt : pt ≠ .front) (hb : g.vectorBuffers.lookup key' = some buffer)
    (hty : buffer.allocated = v.ty) :
    Made g (vectorEdits pt pu p g.serial buffer.serial key v) (g.next 3) := by
  refine made_of_plain rfl ?_ ?_
  · intro e he
    simp only [vectorEdits, List.mem_cons, List.not_mem_nil, or_false] at he
    rcases he with rfl | rfl | rfl <;> exact ⟨hpt, rfl⟩
  · intro e he b heq
    simp only [vectorEdits, List.mem_cons, List.not_mem_nil, or_false] at he
    rcases he with rfl | rfl | rfl
    · cases heq
      exact ⟨key', buffer, hb, rfl, fun w align h => by cases h; exact hty⟩
    · cases heq
      exact ⟨key', buffer, hb, rfl, fun w align h => by cases h⟩
    · cases heq

/-- Allocating a buffer for a key that has none. -/
theorem alloca_made {pu : Purpose} {g : Gen} {ty : Ty} {key : VecBufKey} (hk : createVecBufKey ty = some key)
    (hnone : g.vectorBuffers.lookup key = none) :
    Made g [⟨.front, g.serial, pu, .alloca ty⟩]
      { g.next 1 with vectorBuffers := (key, ⟨g.serial, ty⟩) :: g.vectorBuffers } where
  serials := rfl
  serial := rfl
  kept key' buffer h := by
    have hne : (key' == key) = false := by
      rw [beq_eq_false_iff_ne]
      rintro rfl
      rw [hnone] at h
      cases h
    rw [List.lookup_cons, hne]
    exact h
  front e he _ := by
    rw [List.mem_singleton.1 he]
    simp [Gen.isVectorBuffer, hk]
  notFront e he hf := by
    rw [List.mem_singleton.1 he] at hf
    exact absurd rfl hf
  uses e he buffer h := by
    rw [List.mem_singleton.1 he] at h
    cases h
  buffers key' buffer h := by
    rw [List.lookup_cons] at h
    split at h
    · cases h
      exact .inr ⟨_, List.mem_singleton_self _, rfl, rfl, rfl⟩
    · exact .inl h

theorem LineEdits.made {pt : Point} {pu : Purpose} {p : InstOperandParams} {g g' : Gen} {es : List Edit}
    (hpt : pt ≠ .front) (h : LineEdits pt pu p g es g') : Made g es g' := by
  cases h with
  | direct logger x =>
    refine made_of_plain rfl ?_ ?_
    · intro e he
      rw [List.mem_singleton.1 he]
      exact ⟨hpt, rfl⟩
    · intro e he b heq
      rw [List.mem_singleton.1 he] at heq
      cases heq
  | cast logger op v =>
    refine made_of_plain rfl ?_ ?_
    · intro e he
      simp only [List.mem_cons, List.not_mem_nil, or_false] at he
      rcases he with rfl | rfl <;> exact ⟨hpt, rfl⟩
    · intro e he b heq
      simp only [List.mem_cons, List.not_mem_nil, or_false] at he
      rcases he with rfl | rfl <;> cases heq
  | vector v key buffer _ _ _ hb hty => exact vectorEdits_made hpt hb hty
  | newVector v key _ _ hk hnone =>
    let g₁ : Gen := { g.next 1 with vectorBuffers := (key, ⟨g.serial, v.ty⟩) :: g.vectorBuffers }
    have hlookup : g₁.vectorBuffers.lookup key = some ⟨g.serial, v.ty⟩ := List.lookup_cons_self
    have huse := @vectorEdits_made pt pu p g₁ _ key key v hpt hlookup rfl
    exact made_composes.append (alloca_made hk hnone) huse
  | unhandled => exact made_composes.nil _

theorem call_made {pt : Point} (hpt : pt ≠ .front) (g : Gen) (pu : Purpose) (k : LogCall) :
    Made g [⟨pt, g.serial, pu, .call k⟩] (g.next 1) := by
  refine made_of_plain rfl ?_ ?_
  · intro e he
    rw [List.mem_singleton.1 he]
    exact ⟨hpt, rfl⟩
  · intro e he b heq
    rw [List.mem_singleton.1 he] at heq
    cases heq

theorem slots_made (g : Gen) (slots : List (Nat × String)) : Made g [] { g with slotToVarName := slots } :=
  ⟨rfl, rfl, fun _ _ h => h, by simp, by simp, by simp, fun _ _ h => .inl h⟩

theorem InstEdits.made {c : Ctx} {I : Inst} {pt next : Point} {env : InstEnv} {g g' : Gen} {es : List Edit}
    (hpt : pt ≠ .front) (hnext : next ≠ .front) (h : InstEdits c pt next I env g es g') : Made g es g' :=
  h.rel made_composes (fun g pu k _ => call_made hpt g pu k) (fun _ _ _ _ _ _ _ _ hline => hline.made hpt)
    (fun _ _ _ _ _ _ _ hline => hline.made hnext) slots_made

end LlvmTracer.Pass
