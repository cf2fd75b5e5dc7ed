/-
Block ids: a block's name or slot, a colon and its loop depth.

`makeValueId` leaves room for two digits behind a name and the colon, and
for five digits in all where there is no name. `losslessIds_iff` says what
that is enough for.
-/
import Mathlib.Data.List.TakeDrop
import LlvmTracer.Pass.Stream

namespace LlvmTracer.Pass

open Ir Text

namespace Ctx

variable (c : Ctx)

/-- A block's name, or its slot. -/
def blockText (b : BlockRef) : String :=
  (c.getValueName (.block b)).getD (toString (c.func.localSlot (.block b)))

def depth (b : BlockRef) : Nat := c.func.loops.depth b.index

/-- The id with no character cut off. -/
def wholeId (b : BlockRef) : String := c.blockText b ++ ":" ++ toString (c.depth b)

/-- The characters there is room for. -/
def idRoom (b : BlockRef) : Nat :=
  match c.getValueName (.block b) with
  | some name => name.length + 3
  | none => 6

variable {c} {b : BlockRef}

theorem makeValueId_block : c.makeValueId (.block b) = fit (cut (c.idRoom b) (c.wholeId b)) := by
  have hslot : c.getLocalSlot (.block b) = .ok (c.func.localSlot (.block b)) := rfl
  unfold makeValueId idRoom wholeId blockText depth
  rw [hslot, Run.ok_bind]
  cases c.getValueName (.block b) with
  | some name => simp only [Option.getD_some]
  | none => simp only [Option.getD_none]

theorem cut_eq_self {n : Nat} {text : String} : cut n text = text ↔ text.length ≤ n := by
  rw [cut, ← String.toList_inj, String.toList_ofList, List.take_eq_self_iff, String.length_toList]

theorem makeValueId_eq_wholeId : c.makeValueId (.block b) = .ok (c.wholeId b) ↔
    (c.wholeId b).length ≤ c.idRoom b ∧ (c.wholeId b).length < 256 := by
  rw [makeValueId_block]
  constructor
  · intro h
    have hcut := cut_eq_self.1 (fit_eq h).symm
    refine ⟨hcut, ?_⟩
    rw [cut_eq_self.2 hcut, fit] at h
    split at h
    · assumption
    · cases h
  · rintro ⟨hroom, hbuf⟩
    rw [cut_eq_self.2 hroom, fit, if_pos hbuf]

variable (c) in
/-- There is room for the whole id. -/
def IdFits (b : BlockRef) : Prop :=
  match c.getValueName (.block b) with
  | some _ => c.depth b < 100 ∧ (c.wholeId b).length < 256
  | none => (toString (c.func.localSlot (.block b))).length + (toString (c.depth b)).length ≤ 5

instance : Decidable (c.IdFits b) :=
  match h : c.getValueName (.block b) with
  | some _ => decidable_of_iff (c.depth b < 100 ∧ (c.wholeId b).length < 256) (by rw [IdFits, h])
  | none => decidable_of_iff ((toString (c.func.localSlot (.block b))).length + (toString (c.depth b)).length ≤ 5)
      (by rw [IdFits, h])

theorem length_wholeId : (c.wholeId b).length = (c.blockText b).length + 1 + (toString (c.depth b)).length := by
  rw [wholeId, String.length_append, String.length_append]
  rfl

theorem makeValueId_iff : c.makeValueId (.block b) = .ok (c.wholeId b) ↔ c.IdFits b := by
  rw [makeValueId_eq_wholeId, length_wholeId, IdFits, idRoom]
  cases hname : c.getValueName (.block b) with
  | some name =>
    have hdigits : (toString (c.depth b)).length ≤ 2 ↔ c.depth b < 100 := Nat.length_repr_le_iff (by decide)
    simp only [length_wholeId, blockText, hname, Option.getD_some]
    omega
  | none =>
    simp only [blockText, hname, Option.getD_none]
    omega

/-! ## Ids apart -/

variable (c) in
/-- Different blocks have different names, and no name looks like a slot number. -/
def NamesPlain : Prop :=
  ∀ b ∈ c.func.blockRefs, ∀ name, c.getValueName (.block b) = some name →
    isNumeral name.toList = false ∧ ∀ b' ∈ c.func.blockRefs, c.getValueName (.block b') = some name → b' = b

theorem toList_wholeId (b : BlockRef) :
    (c.wholeId b).toList = (c.blockText b).toList ++ ':' :: Nat.toDigits 10 (c.depth b) := by
  simp [wholeId]

/-- A block without a name has a slot. -/
theorem blockText_of_none (hb : b ∈ c.func.blockRefs) (hname : c.getValueName (.block b) = none) :
    ∃ n : Nat, c.func.localSlot (.block b) = n ∧ c.blockText b = toString n := by
  have hslots : .block b ∈ c.func.slots := by
    obtain ⟨i, hi, rfl⟩ := List.mem_mapIdx.1 hb
    have hempty : (c.func.blocks[i]).name = "" := by
      by_contra hne
      simp [getValueName, Value.hasName, Value.name, hne] at hname
    refine List.mem_append_right _ (List.mem_flatten.2 ⟨_, List.mem_mapIdx.2 ⟨i, hi, rfl⟩, ?_⟩)
    simp [slotsOfBlock, hempty]
  obtain ⟨n, hn⟩ := Int.eq_ofNat_of_zero_le (Function.localSlot_nonneg hslots)
  refine ⟨n, hn, ?_⟩
  rw [blockText, hname, hn]
  rfl

theorem blockText_inj (hplain : c.NamesPlain) {b' : BlockRef} (hb : b ∈ c.func.blockRefs) (hb' : b' ∈ c.func.blockRefs)
    (h : c.blockText b = c.blockText b') : b = b' := by
  cases hname : c.getValueName (.block b) with
  | some name =>
    have htext : c.blockText b = name := by rw [blockText, hname]; rfl
    cases hname' : c.getValueName (.block b') with
    | some name' =>
      have htext' : c.blockText b' = name' := by rw [blockText, hname']; rfl
      rw [htext, htext'] at h
      exact (hplain b' hb' name' hname').2 b hb (h ▸ hname)
    | none =>
      obtain ⟨n, -, hn⟩ := blockText_of_none hb' hname'
      have hnum := (hplain b hb name hname).1
      rw [← htext, h, hn] at hnum
      simp [isNumeral_toDigits] at hnum
  | none =>
    obtain ⟨n, hslot, hn⟩ := blockText_of_none hb hname
    cases hname' : c.getValueName (.block b') with
    | some name' =>
      have htext' : c.blockText b' = name' := by rw [blockText, hname']; rfl
      have hnum := (hplain b' hb' name' hname').1
      rw [← htext', ← h, hn] at hnum
      simp [isNumeral_toDigits] at hnum
    | none =>
      obtain ⟨m, hslot', hm⟩ := blockText_of_none hb' hname'
      rw [hn, hm] at h
      have hnm : n = m := toDigits_injective (by simpa using congrArg String.toList h)
      refine Value.block.inj (Function.localSlot_inj (by rw [hslot]; exact Int.natCast_nonneg n) ?_)
      rw [hslot, hslot', hnm]

theorem wholeId_inj {b' : BlockRef} (h : c.wholeId b = c.wholeId b') :
    c.blockText b = c.blockText b' ∧ c.depth b = c.depth b' := by
  have htext : (c.wholeId b).toList = (c.wholeId b').toList := congrArg String.toList h
  rw [toList_wholeId, toList_wholeId] at htext
  obtain ⟨hname, hdepth⟩ := append_cons_inj (not_mem_toDigits (by decide)) (not_mem_toDigits (by decide)) htext
  exact ⟨String.toList_injective hname, toDigits_injective hdepth⟩

end Ctx

/-- The number after the last colon. -/
def readDepth (id : String) : Option Int := readDecimal (afterLast ':' id.toList)

theorem readDepth_wholeId (c : Ctx) (b : BlockRef) : readDepth (c.wholeId b) = some (c.depth b) := by
  rw [readDepth, Ctx.toList_wholeId, afterLast_append (not_mem_toDigits (by decide))]
  exact readDecimal_decimal (c.depth b)

/-- No character is cut off, so the ids of different blocks are different, and
a block's depth can be read in its id. -/
structure LosslessIds (c : Ctx) : Prop where
  whole : ∀ b ∈ c.func.blockRefs, c.depth b ≤ 999 → c.makeValueId (.block b) = .ok (c.wholeId b)
  distinct : c.NamesPlain → ∀ b ∈ c.func.blockRefs, ∀ b' ∈ c.func.blockRefs, c.depth b ≤ 999 → c.depth b' ≤ 999 →
    ∀ id, c.makeValueId (.block b) = .ok id → c.makeValueId (.block b') = .ok id → b = b'
  readBack : ∀ b ∈ c.func.blockRefs, c.depth b ≤ 999 → ∀ id, c.makeValueId (.block b) = .ok id →
    readDepth id = some (c.depth b)

/-- **Block ids.** They are lossless just where there is room for them. -/
theorem losslessIds_iff (c : Ctx) : LosslessIds c ↔ ∀ b ∈ c.func.blockRefs, c.depth b ≤ 999 → c.IdFits b := by
  constructor
  · exact fun h b hb hdepth => Ctx.makeValueId_iff.1 (h.whole b hb hdepth)
  · intro h
    have hwhole : ∀ b ∈ c.func.blockRefs, c.depth b ≤ 999 → ∀ id, c.makeValueId (.block b) = .ok id →
        id = c.wholeId b := by
      intro b hb hdepth id hid
      rw [Ctx.makeValueId_iff.2 (h b hb hdepth)] at hid
      exact (Except.ok.inj hid).symm
    constructor
    · exact fun b hb hdepth => Ctx.makeValueId_iff.2 (h b hb hdepth)
    · intro hplain b hb b' hb' hdepth hdepth' id hid hid'
      have heq := (hwhole b hb hdepth id hid).symm.trans (hwhole b' hb' hdepth' id hid')
      exact Ctx.blockText_inj hplain hb hb' (Ctx.wholeId_inj heq).1
    · intro b hb hdepth id hid
      rw [hwhole b hb hdepth id hid, readDepth_wholeId]

/-! ### Many unnamed values -/

/-- A function of `n` unnamed arguments, with its one block unnamed. -/
def manyParams (n : Nat) : Function where
  name := "top"
  params := List.replicate n ("", i32)
  blocks := [⟨"", [⟨0, "", .void, .ret, [], some 1⟩]⟩]
  loops := ⟨fun _ => 0, fun _ => none, fun _ => none⟩

/-- The arguments have the slots before the block's. -/
theorem localSlot_manyParams (n : Nat) : (manyParams n).localSlot (.block ⟨0, ""⟩) = n := by
  have hargs : ∀ a ∈ (manyParams n).args, a.name = "" := by
    intro a ha
    obtain ⟨i, hi, rfl⟩ := List.mem_mapIdx.1 ha
    simp [manyParams]
  have hslots : (manyParams n).slots = (manyParams n).args.map .arg ++ [.block ⟨0, ""⟩] := by
    rw [Function.slots, List.filter_eq_self.2 (by simpa using hargs)]
    rfl
  have hidx : (manyParams n).slots.idxOf? (.block ⟨0, ""⟩) = some n := by
    have hlen : ((manyParams n).args.map Value.arg).length = n := by simp [Function.args, manyParams]
    rw [hslots]
    refine List.idxOf?_eq_some_iff.2 ⟨by simp [hlen], ?_, fun j hj => ?_⟩
    · rw [List.getElem_append_right (Nat.le_of_eq hlen)]
      simp
    · have hj' : j < ((manyParams n).args.map Value.arg).length := by rw [hlen]; exact hj
      simp [List.getElem_append_left hj']
  rw [Function.localSlot, hidx]

def manyParamsCtx (n : Nat) : Ctx := ⟨⟨true, ["top"], [("top", "top")]⟩, manyParams n, [], []⟩

theorem wholeId_manyParams (n : Nat) : (manyParamsCtx n).wholeId ⟨0, ""⟩ = toString (n : Int) ++ ":0" := by
  have hname : (manyParamsCtx n).getValueName (.block ⟨0, ""⟩) = none := rfl
  have hslot : (manyParamsCtx n).func.localSlot (.block ⟨0, ""⟩) = n := localSlot_manyParams n
  have hdepth : (manyParamsCtx n).depth ⟨0, ""⟩ = 0 := rfl
  have hcolon : ":" ++ toString 0 = ":0" := by decide
  rw [Ctx.wholeId, Ctx.blockText, hname, Option.getD_none, hslot, hdepth, String.append_assoc, hcolon]

/-- With 10000 of them the block's id is `10000:`, without the depth. -/
theorem not_losslessIds_manyParams : (manyParams 10000).WF ∧ collect (manyParamsCtx 10000).cfg (manyParams 10000) =
    .ok (manyParamsCtx 10000) ∧ (manyParamsCtx 10000).makeValueId (.block ⟨0, ""⟩) = .ok "10000:" ∧
      ¬ LosslessIds (manyParamsCtx 10000) := by
  have hwf : ∀ n, (manyParams n).WF := fun n => Function.wf_of_isLocal rfl
  have hcollect : ∀ n, collect (manyParamsCtx n).cfg (manyParams n) = .ok (manyParamsCtx n) := fun _ => rfl
  have hmem : ∀ n, ⟨0, ""⟩ ∈ (manyParamsCtx n).func.blockRefs := fun _ => List.mem_cons_self
  have hdepth : ∀ n, (manyParamsCtx n).depth ⟨0, ""⟩ ≤ 999 := fun _ => by simp [Ctx.depth, manyParamsCtx, manyParams]
  have hroom : ∀ n, (manyParamsCtx n).idRoom ⟨0, ""⟩ = 6 := fun _ => rfl
  have hid : (manyParamsCtx 10000).makeValueId (.block ⟨0, ""⟩) = .ok "10000:" := by
    rw [Ctx.makeValueId_block, hroom, wholeId_manyParams]
    decide
  refine ⟨hwf _, hcollect _, hid, fun h => ?_⟩
  have hfull := h.whole ⟨0, ""⟩ (hmem _) (hdepth _)
  rw [hid, wholeId_manyParams] at hfull
  exact absurd hfull (by decide)

end LlvmTracer.Pass
