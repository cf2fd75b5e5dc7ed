/-
The names that debug intrinsics give to values (`collectDebugInfo`).

The branch for `dbg.addr` asks `dbgDeclare` for the address, which is null
there; and no branch asks whether there is a location.
-/
import LlvmTracer.Ir.Wf
import LlvmTracer.Lib.Run
import LlvmTracer.Pass.Names

namespace LlvmTracer.Pass

open Ir

/-- The name an intrinsic has for `v`: its variable's, if it locates `v`, and
`v` is neither undefined nor a bitcast. -/
def nameFor (v : Value) (d : DbgInfoIntrinsic) : Option String :=
  if d.location = some v ∧ v.isUndef = false ∧ v.isBitCast = false then d.varName else none

/-- The name that the first intrinsic with one has for `v`. -/
def debugName (F : Function) (v : Value) : Option String := (F.insts.filterMap Inst.debug).findSome? (nameFor v)

/-- The collection goes through, and finds these names and no others. -/
def CollectsNames (F : Function) : Prop :=
  ∃ valueDebugName, collectDebugInfos F = .ok valueDebugName ∧ ∀ v, valueDebugName.lookup v = debugName F v

/-! ## One intrinsic -/

theorem exists_collectDebugInfo (names : List (Value × String)) (d : DbgInfoIntrinsic) :
    (∃ names', collectDebugInfo names d = .ok names') ↔ d.kind ≠ .addr ∧ d.location ≠ none := by
  unfold collectDebugInfo
  split
  · rename_i hkind
    simp [hkind]
  · rename_i hloc _
    simp [hloc]
  · rename_i arg hloc _ hkind
    exact iff_of_true ⟨names, rfl⟩ ⟨hkind, by simp [hloc]⟩
  · rename_i arg var hloc hvar hkind
    refine iff_of_true ?_ ⟨hkind, by simp [hloc]⟩
    split <;> exact ⟨_, rfl⟩

/-- An intrinsic's name is added under its own location, unless there is one. -/
theorem lookup_collectDebugInfo {names names' : List (Value × String)} {d : DbgInfoIntrinsic}
    (h : collectDebugInfo names d = .ok names') (v : Value) :
    names'.lookup v = (names.lookup v).or (nameFor v d) := by
  unfold collectDebugInfo at h
  split at h
  · cases h
  · cases h
  · rename_i hvar _
    cases h
    simp [nameFor, hvar]
  · rename_i arg var hloc hvar _
    by_cases hv : arg = v
    · subst hv
      split at h <;> cases h
      · rename_i hskip
        rcases hskip with hundef | hbit | hnamed
        · simp [nameFor, hundef]
        · simp [nameFor, hbit]
        · rw [Option.or_of_isSome hnamed]
      · rename_i hskip
        simp only [not_or, Bool.not_eq_true] at hskip
        rw [List.lookup_append, List.lookup_cons_self, nameFor, if_pos ⟨hloc, hskip.1, hskip.2.1⟩, hvar]
    · have hname : nameFor v d = none := if_neg fun hd => hv (Option.some.inj (hloc.symm.trans hd.1))
      rw [hname, Option.or_none]
      split at h <;> cases h
      · rfl
      · rw [List.lookup_append, List.lookup_cons, beq_false_of_ne (Ne.symm hv)]
        simp

/-! ## A function's intrinsics -/

theorem lookup_foldlM_collectDebugInfo (v : Value) :
    ∀ {ds : List DbgInfoIntrinsic} {names names' : List (Value × String)},
      ds.foldlM collectDebugInfo names = .ok names' → names'.lookup v = (names.lookup v).or (ds.findSome? (nameFor v))
  | [], names, _, h => by
    cases h
    simp
  | d :: ds, _, _, h => by
    obtain ⟨names₁, h₁, h₂⟩ := Run.foldlM_cons_ok.1 h
    rw [lookup_foldlM_collectDebugInfo v h₂, lookup_collectDebugInfo h₁, Option.or_assoc, List.findSome?_cons]
    cases nameFor v d <;> rfl

/-- What the collection asks of a function: no `dbg.addr`, and a location in
every intrinsic. -/
theorem collectsNames_iff {F : Function} :
    CollectsNames F ↔ ∀ I ∈ F.insts, ∀ d, I.debug = some d → d.kind ≠ .addr ∧ d.location ≠ none := by
  have hrun : CollectsNames F ↔ ∃ names, collectDebugInfos F = .ok names := by
    refine ⟨fun ⟨names, h, _⟩ => ⟨names, h⟩, fun ⟨names, h⟩ => ⟨names, h, fun v => ?_⟩⟩
    rw [lookup_foldlM_collectDebugInfo v h, List.lookup_nil, Option.none_or, debugName]
  rw [hrun, collectDebugInfos, Run.exists_foldlM_ok exists_collectDebugInfo]
  simp only [List.mem_filterMap]
  exact ⟨fun h I hI d hd => h d ⟨I, hI, hd⟩, fun h d ⟨I, hI, hd⟩ => h I hI d hd⟩

/-- A local variable located by `dbg.addr`. -/
def locatedByAddr : Function where
  name := "top"
  params := []
  blocks := [⟨"entry",
    [⟨0, "x.addr", .pointer i32, .alloca i32, [], none⟩,
      ⟨1, "", .void, .dbg ⟨.addr, some (.inst ⟨0, "x.addr", .pointer i32, false⟩), some "x"⟩,
        [.metadata, .metadata, .metadata, .function "llvm.dbg.addr"], none⟩,
      ⟨2, "", .void, .ret, [], none⟩]⟩]
  loops := ⟨fun _ => 0, fun _ => none, fun _ => none⟩

theorem not_collectsNames_locatedByAddr : locatedByAddr.WF ∧ ¬CollectsNames locatedByAddr := by
  refine ⟨Function.wf_of_isLocal rfl, ?_⟩
  rintro ⟨names, h, -⟩
  cases h

end LlvmTracer.Pass
