/-
The pass only observes.

`Observes` is what that means of an instrumented function: without what was
inserted it is the function as it was, what is inserted finds what it uses,
stores go to the pass's own buffers, and the executions are the function's,
with records in between.
-/
import LlvmTracer.Pass.Placement

namespace LlvmTracer.Pass

open Ir Machine

/-! ## Inserted instructions do not get stuck -/

section

variable {V M ε : Type} {S : Semantics V M ε}

/-- What executing a node leaves behind: a result, a value, or a buffer. -/
def Did (n : Node) (s : Data V M × Temps V) : Prop :=
  match n with
  | .orig J => J.ty ≠ .void → s.1.regs J.id ≠ none
  | .new m => (m.isTemp = true → s.2.values m.serial ≠ none) ∧ (m.isAlloca = true → s.2.buffers m.serial ≠ none)

theorem update_ne_none {f : Nat → Option V} {i j : Nat} {x : V} (h : f j ≠ none) :
    Function.update f i (some x) j ≠ none := by
  by_cases hij : j = i
  · simp [hij]
  · rwa [Function.update_of_ne hij]

theorem Semantics.StepNode.did {b : Nat} {n : Node} {s s' : Data V M × Temps V} {o : List (Event ε)} {e : Exit Nat V}
    (h : S.StepNode b n s o s' e) : Did n s' := by
  cases h with
  | orig hstep =>
    obtain ⟨-⟩ := hstep
    intro hty
    simp [Data.result, hty]
  | new hnew => cases hnew <;> simp [Did, NewInst.isTemp, NewInst.isAlloca, Temps.setValue, Temps.setBuffer]

theorem Semantics.StepNode.keeps {b : Nat} {n m : Node} {s s' : Data V M × Temps V} {o : List (Event ε)}
    {e : Exit Nat V} (h : S.StepNode b n s o s' e) (hm : Did m s) : Did m s' := by
  cases h with
  | orig hstep =>
    obtain ⟨-⟩ := hstep
    cases m with
    | new m => exact hm
    | orig J =>
      intro hty
      have hJ := hm hty
      rw [Data.after_regs, Data.result]
      split
      · exact hJ
      · exact update_ne_none hJ
  | new hnew =>
    cases m with
    | orig J => exact hm
    | new m =>
      obtain ⟨htemp, halloca⟩ := hm
      cases hnew with
      | cast _ | pointerCast _ => exact ⟨fun h => update_ne_none (htemp h), halloca⟩
      | alloca | store _ _ => exact ⟨htemp, fun h => update_ne_none (halloca h)⟩
      | call => exact ⟨htemp, halloca⟩

end

section

variable {V M ε : Type} {S : Semantics V M ε} {cfg : Config} {F : Function} {c : Ctx} {p : Plan} (hF : F.WF)
  (hp : Planned cfg F c p) {d₀ : Data V M} {v : Visit Nat (Event ε)} {vs : List (Visit Nat (Event ε))} {n : NewInst}
  {todo : List Node} {d : Data V M} {t : Temps V}
  (hrun : S.RunBody (instrumented F p) d₀ (v :: vs) (.running (.new n :: todo) (d, t)))
include hF hp hrun

theorem exists_uses : ∃ pre, Uses F (instrumented F p) v.block pre n ∧
    ∀ m, Dominance.Dominates F.succs 0 (instrumented F p).block m v.block pre → Did m (d, t) := by
  obtain ⟨_, _, pre, hvs, hpre⟩ := hrun.position
  obtain ⟨rfl, rfl⟩ := List.cons.inj hvs
  refine ⟨pre, hp.uses hF hpre, fun m hm => ?_⟩
  exact hrun.did_of_dominates hpre hm (fun hcode hstep => hstep.jump_mem hcode) (fun hstep => hstep.did)
    fun hstep => hstep.keeps

theorem operand_ne_none {w : Value} (hw : w ∈ n.values) : S.operand d.regs w ≠ none := by
  obtain ⟨pre, huses, hdid⟩ := exists_uses hF hp hrun
  cases w with
  | inst r =>
    obtain ⟨J, -, rfl, hty, hdom⟩ := huses.values r hw
    exact hdid _ hdom hty
  | _ => simp [Semantics.operand]

theorem buffer_ne_none {s : Nat} (hs : n.buffer? = some s) : t.buffers s ≠ none := by
  obtain ⟨pre, huses, hdid⟩ := exists_uses hF hp hrun
  obtain ⟨m, ty, rfl, hop, -, -, hdom⟩ := huses.buffers s hs
  exact (hdid _ hdom).2 (by simp [NewInst.isAlloca, hop])

theorem temp_ne_none {s : Nat} (hs : s ∈ n.temps) : t.values s ≠ none := by
  obtain ⟨pre, huses, hdid⟩ := exists_uses hF hp hrun
  obtain ⟨m, rfl, htemp, hdom⟩ := huses.temps s hs
  exact (hdid _ hdom).1 htemp

theorem exists_stepNew : ∃ o t', S.StepNew d n t o t' := by
  have hop := fun w (hw : w ∈ n.values) => Option.ne_none_iff_exists'.1 (operand_ne_none hF hp hrun hw)
  have hbuffer := fun s (hs : n.buffer? = some s) => buffer_ne_none hF hp hrun hs
  have htemp := fun s (hs : s ∈ n.temps) => temp_ne_none hF hp hrun hs
  obtain ⟨serial, pu, op⟩ := n
  cases op with
  | cast op w =>
    obtain ⟨x, hx⟩ := hop w List.mem_cons_self
    exact ⟨_, _, .cast hx⟩
  | alloca ty => exact ⟨_, _, .alloca⟩
  | store w buffer align =>
    obtain ⟨x, hx⟩ := hop w List.mem_cons_self
    exact ⟨_, _, .store hx (hbuffer buffer rfl)⟩
  | pointerCast buffer => exact ⟨_, _, .pointerCast (hbuffer buffer rfl)⟩
  | call k =>
    refine ⟨_, _, .call fun x hx => ?_⟩
    cases x with
    | zero => simp [Semantics.logValue]
    | string => simp [Semantics.logValue]
    | node s => exact htemp s (by simp [NewInst.temps, hx, LogValue.temps])
    | value w =>
      obtain ⟨y, hy⟩ := hop w (by simp [NewInst.values, hx, LogValue.values])
      simp [Semantics.logValue, hy]
    | folded op w =>
      obtain ⟨y, hy⟩ := hop w (by simp [NewInst.values, hx, LogValue.values])
      simp [Semantics.logValue, hy]

end

/-! ## The simulation -/

def Event.foreign? {ε : Type} : Event ε → Option ε
  | record _ => none
  | foreign x => some x

theorem filterMap_foreign {ε : Type} (o : List ε) : (o.map Event.foreign).filterMap Event.foreign? = o := by
  induction o with
  | nil => rfl
  | cons x o ih =>
    rw [List.map_cons, List.filterMap_cons_some (show Event.foreign? (.foreign x) = some x from rfl), ih]

/-- A block's last instruction is an original one. -/
theorem orig?_ne_none_of_last {F : Function} {p : Plan} (hF : F.WF) {b : Nat} {pre : List Node} {n : Node}
    (h : (instrumented F p).block b = pre ++ [n]) : n.orig? ≠ none := by
  cases n with
  | orig I => simp [Node.orig?]
  | new m =>
    exfalso
    by_cases hb : b < F.blocks.length
    · have hcode : F.code b ≠ [] := by
        intro hnil
        have hterm := (hF.block_wf hb).terminated
        rw [Function.code_eq_insts hb] at hnil
        simp [Block.terminator, hnil] at hterm
      rw [block_instrumented hb] at h
      rcases append_eq_split h with ⟨post, -, hpost⟩ | ⟨pre', -, hrest⟩
      · obtain ⟨I, insts, hI⟩ := List.exists_cons_of_ne_nil hcode
        rw [hI, renderInsts_cons] at hpost
        simp at hpost
      · obtain ⟨_, _, _, _, _, -, -, -, hpost⟩ := split_renderInsts hrest
        simp at hpost
    · have hlen : F.blocks.length ≤ b := Nat.le_of_not_lt hb
      simp [instrumented, render, Body.block, hlen] at h

theorem instrumented_simulates {V M ε : Type} {F : Function} (hF : F.WF) (p : Plan) (S : Semantics V M ε) :
    Simulates S.Step S.StepNode F.code (instrumented F p).block Node.orig? Prod.fst Event.foreign? where
  code := filterMap_orig_block F p
  last _ _ _ h := orig?_ne_none_of_last hF h
  new := by
    intro b y t o t' e hy h
    cases h with
    | orig => cases hy
    | new hnew => cases hnew <;> exact ⟨rfl, rfl, rfl⟩
  old := by
    intro b y x t o t' e hy h
    cases h with
    | orig hstep =>
      cases hy
      rwa [filterMap_foreign]
    | new => cases hy
  lift := by
    intro b y x t o s' e hy h
    cases y with
    | orig I =>
      cases hy
      exact ⟨_, (s', t.2), .orig h, rfl, filterMap_foreign o⟩
    | new m => cases hy

/-! ## The observer -/

/-- The function returns `r`, and leaves the memory `m`. -/
def Semantics.Returns {V M ε : Type} (S : Semantics V M ε) (F : Function) (d₀ : Data V M) (r : V) (m : M) : Prop :=
  ∃ vs todo d, S.RunFunction F d₀ vs (.halted todo r d) ∧ d.mem = m

def Semantics.BodyReturns {V M ε : Type} (S : Semantics V M ε) (body : Body) (d₀ : Data V M) (r : V) (m : M) : Prop :=
  ∃ vs todo d t, S.RunBody body d₀ vs (.halted todo r (d, t)) ∧ d.mem = m

structure Observes (F : Function) (body : Body) : Prop where
  length : body.length = F.blocks.length
  /-- Without the inserted instructions the blocks are as they were. -/
  erased : ∀ b, (body.block b).filterMap Node.orig? = F.code b
  /-- An inserted instruction is known by its serial number. -/
  serials : ∀ b b' m n, .new m ∈ body.block b → .new n ∈ body.block b' → m.serial = n.serial → m = n
  uses : ∀ b pre n post, body.block b = pre ++ .new n :: post → Uses F body b pre n
  /-- An inserted instruction does not get stuck. -/
  goes : ∀ {V M ε : Type} (S : Semantics V M ε) d₀ v vs n todo s,
    S.RunBody body d₀ (v :: vs) (.running (.new n :: todo) s) → ∃ o s', S.StepNode v.block (.new n) s o s' .next
  /-- The executions are those of the function. -/
  runs : ∀ {V M ε : Type} (S : Semantics V M ε) d₀ vs conf, S.RunFunction F d₀ vs conf ↔
    ∃ vs' conf', S.RunBody body d₀ vs' conf' ∧ vs'.map (Visit.keep Event.foreign?) = vs ∧
      conf'.erase Node.orig? Prod.fst = conf
  returns : ∀ {V M ε : Type} (S : Semantics V M ε) d₀ r m, S.Returns F d₀ r m ↔ S.BodyReturns body d₀ r m

/-- **The pass only observes.** -/
theorem runOnFunction_observes {cfg : Config} {F : Function} {body : Body} (hF : F.WF)
    (hC : cfg.isCFunction F.name = true) (h : runOnFunction cfg F = .ok body) : Observes F body := by
  obtain ⟨c, p, hp, rfl⟩ := runOnFunction_ok hF hC h
  have hgoes : ∀ {V M ε : Type} (S : Semantics V M ε) d₀ v vs n todo s,
      S.RunBody (instrumented F p) d₀ (v :: vs) (.running (.new n :: todo) s) →
        ∃ o s', S.StepNode v.block (.new n) s o s' .next := by
    intro V M ε S d₀ v vs n todo s hrun
    obtain ⟨o, t', hnew⟩ := exists_stepNew hF hp hrun
    exact ⟨o, _, .new hnew⟩
  have hruns : ∀ {V M ε : Type} (S : Semantics V M ε) d₀ vs conf, S.RunFunction F d₀ vs conf ↔
      ∃ vs' conf', S.RunBody (instrumented F p) d₀ vs' conf' ∧ vs'.map (Visit.keep Event.foreign?) = vs ∧
        conf'.erase Node.orig? Prod.fst = conf := by
    intro V M ε S d₀ vs conf
    have hsim := instrumented_simulates hF p S
    constructor
    · intro hrun
      have hstart : S.RunFunction F (Prod.fst (d₀, (Temps.init : Temps V))) vs conf := hrun
      refine Run.lift hsim ?_ hstart
      intro v vs y todo t hrun' hy
      cases y with
      | orig I => cases hy
      | new n => exact hgoes S d₀ v vs n todo t hrun'
    · rintro ⟨vs', conf', hrun, rfl, rfl⟩
      exact hrun.erase hsim
  refine ⟨by simp [instrumented, render], filterMap_orig_block F p, ?_, fun b pre n post => hp.uses hF, hgoes, hruns, ?_⟩
  · intro b b' m n hm hn hserial
    obtain ⟨e, he, rfl⟩ := exists_edit_of_mem_block hm
    obtain ⟨e', he', rfl⟩ := exists_edit_of_mem_block hn
    obtain ⟨g, g', hblocks, hentry, -⟩ := hp.made
    rw [(made_composes.append hblocks hentry).serial_inj he he' hserial]
  · intro V M ε S d₀ r m
    constructor
    · rintro ⟨vs, todo, d, hrun, rfl⟩
      obtain ⟨vs', conf', hrun', -, hconf⟩ := (hruns S d₀ _ _).1 hrun
      cases conf' with
      | running => cases hconf
      | halted todo' r' s =>
        cases hconf
        exact ⟨vs', todo', s.1, s.2, hrun', rfl⟩
    · rintro ⟨vs', todo', d, t, hrun, rfl⟩
      exact ⟨_, _, _, (hruns S d₀ _ _).2 ⟨_, _, hrun, rfl, rfl⟩, rfl⟩

theorem runOnFunction_observes_addOne : Observes addOne addOneBody ∧ addSemantics.Returns addOne calledData 6 () := by
  have hobserves := runOnFunction_observes addOne_wf (by decide) runOnFunction_addOne
  obtain ⟨t, hrun⟩ := addOneBody_returns
  exact ⟨hobserves, (hobserves.returns addSemantics calledData 6 ()).2 ⟨_, _, _, _, hrun, rfl⟩⟩

end LlvmTracer.Pass
