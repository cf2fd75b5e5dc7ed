/-
How the entry block is laid out.

The buffers come first, however late they were allocated; then what
`runOnFunctionEntry` inserts, the status update and the entry line and a
group for each argument; then the original instructions with theirs
(`EntryLayout`). So the entry's lines are the first an execution emits
(`entryFirst`).
-/
import LlvmTracer.Pass.Coverage
import LlvmTracer.Pass.DefUse

namespace LlvmTracer.Pass

open Ir Emit Machine

/-! ## Groups -/

theorem entryGroup_append (es es' : List Edit) : entryGroup (es ++ es') = entryGroup es ++ entryGroup es' :=
  List.filterMap_append

/-- The instructions inserted for an argument. A type without a line has
none that logs. -/
structure ArgGroup (isEntryBlock : Bool) (a : Argument) (group : List NewInst) : Prop where
  purpose : ∀ n ∈ group, n.purpose = .argument a.index
  records : group.filterMap NewInst.record? = argRecords isEntryBlock a

theorem ArgLines.groups {pt : Point} (hpt : pt ≠ .front) {isEntryBlock : Bool} {as : List Argument} {g g' : Gen}
    {es : List Edit} (h : ArgLines pt isEntryBlock as g es g') :
    ∃ groups, entryGroup es = groups.flatten ∧ List.Forall₂ (ArgGroup isEntryBlock) as groups := by
  induction h with
  | nil => exact ⟨[], rfl, .nil⟩
  | @cons a _ p g g₁ _ es es' hspec hline _ ih =>
    obtain ⟨groups, hgroups, hall⟩ := ih
    refine ⟨entryGroup es :: groups, by rw [entryGroup_append, hgroups, List.flatten_cons], .cons ⟨fun n hn => ?_, ?_⟩ hall⟩
    · obtain ⟨e, he, -, rfl⟩ := mem_entryGroup.1 hn
      exact hline.purpose e he
    · have hone := (ArgLines.cons hspec hline (.nil g₁)).records.2
      rw [List.append_nil, List.flatMap_cons, List.flatMap_nil, List.append_nil] at hone
      rw [records_entryGroup hpt hline.atPoint, hone]

theorem BlocksEdits.purpose {c : Ctx} {bs : List BlockRef} {g g' : Gen} {es : List Edit} (h : BlocksEdits c bs g es g') :
    ∀ e ∈ es, e.inst.purpose.inst? ≠ none := by
  have hlines := composes_forall (σ := Gen) fun e : Edit => e.inst.purpose.inst? ≠ none
  refine h.rel hlines fun I _ pt next env g es g' _ _ _ hedits => ?_
  obtain ⟨opcode, ops, g₁, status, g₂, result, rfl, hops, hstatus, hresult⟩ := hedits.parts
  have hoperands : ∀ e ∈ ops, e.inst.purpose.inst? ≠ none :=
    hops.rel hlines fun _ _ _ k _ p _ _ hline e he => by
      rw [hline.purpose e he]
      exact Option.some_ne_none _
  intro e he
  rcases List.mem_cons.1 he with rfl | he
  · exact Option.some_ne_none _
  · rcases List.mem_append.1 he with he | he
    · exact hoperands e he
    · rcases List.mem_append.1 he with he | he
      · cases hstatus with
        | none => cases he
        | ret =>
          rw [List.mem_singleton.1 he]
          exact Option.some_ne_none _
      · cases hresult with
        | void => cases he
        | line _ _ hline =>
          rw [hline.purpose e he]
          exact Option.some_ne_none _

/-! ## The entry block -/

/-- The entry block is these parts, one behind the other. -/
structure EntryLayout (cfg : Config) (F : Function) (body : Body) (buffers head : List NewInst)
    (groups : List (List NewInst)) (rest : List Node) : Prop where
  block : body.block 0 = (buffers ++ (head ++ groups.flatten)).map .new ++ rest
  allocas : ∀ n ∈ buffers, n.isAlloca = true
  /-- These are all the pass has allocated. -/
  allocated : ∀ b n, .new n ∈ body.block b → n.isAlloca = true → n ∈ buffers
  /-- A buffer is allocated on every path to a store into it. -/
  stored : ∀ b pre n post s, body.block b = pre ++ .new n :: post → n.buffer? = some s →
    ∃ m ∈ buffers, m.serial = s ∧ Dominance.Dominates F.succs 0 body.block (.new m) b pre
  entered : head.map NewInst.op =
    if cfg.isTrackedFunction F.name && cfg.isToplevelMode then
      [.call (.updateStatus F.name 0 true true), .call (.logEntry F.name F.params.length)]
    else []
  args : List.Forall₂ (ArgGroup (cfg.isTrackedFunction F.name && cfg.isToplevelMode)) F.args groups
  original : rest.filterMap Node.orig? = F.code 0
  /-- Everything else that is inserted is about an instruction. -/
  inserted : ∀ n, .new n ∈ rest → n.purpose.inst? ≠ none
  others : ∀ b n, b ≠ 0 → .new n ∈ body.block b → n.purpose.inst? ≠ none

section

variable {cfg : Config} {F : Function} {c : Ctx} {p : Plan} (hp : Planned cfg F c p)
include hp

theorem Planned.mem_buffers_of_isAlloca {b : Nat} {n : NewInst} (hn : .new n ∈ (instrumented F p).block b)
    (halloca : n.isAlloca = true) : n ∈ p.buffers := by
  obtain ⟨e, he, rfl⟩ := exists_edit_of_mem_block hn
  obtain ⟨g, g', hblocks, hentry, -⟩ := hp.made
  have hfront {g g' : Gen} {es : List Edit} (hmade : Made g es g') (he : e ∈ es) : e.inst ∈ editsAtFront es := by
    refine mem_editsAtFront.2 ?_
    by_cases hpt : e.point = .front
    · rwa [← hpt]
    · rw [hmade.notFront e he hpt] at halloca
      cases halloca
  rcases List.mem_append.1 he with he | he
  · exact List.mem_append_right _ (hfront hblocks he)
  · exact List.mem_append_left _ (hfront hentry he)

theorem Planned.stored (hF : F.WF) {b : Nat} {pre post : List Node} {n : NewInst} {s : Nat}
    (h : (instrumented F p).block b = pre ++ .new n :: post) (hs : n.buffer? = some s) :
    ∃ m ∈ p.buffers, m.serial = s ∧ Dominance.Dominates F.succs 0 (instrumented F p).block (.new m) b pre := by
  obtain ⟨m, ty, hserial, hop, -, hm, hdom⟩ := (hp.uses hF h).buffers s hs
  exact ⟨m, hp.mem_buffers_of_isAlloca hm (by simp [NewInst.isAlloca, hop]), hserial, hdom⟩

/-- What `runOnFunctionEntry` inserts behind the buffers. -/
theorem Planned.entryGroup_eq (hmain : F.name ≠ "main") :
    ∃ head groups, entryGroup p.entry = head ++ groups.flatten ∧
      head.map NewInst.op = (if cfg.isTrackedFunction F.name && cfg.isToplevelMode then
        [.call (.updateStatus F.name 0 true true), .call (.logEntry F.name F.params.length)] else []) ∧
      List.Forall₂ (ArgGroup (cfg.isTrackedFunction F.name && cfg.isToplevelMode)) F.args groups := by
  have hcfg := hp.cfg
  have hfunc := hp.func
  subst hcfg hfunc
  obtain ⟨g, -, hentry⟩ := hp.parts
  rcases hentry with ⟨heq, -⟩ | ⟨-, g', hentry⟩
  · exact absurd heq hmain
  · obtain ⟨args, hes, hargs⟩ := hentry.parts
    obtain ⟨groups, hgroups, hall⟩ := hargs.groups (by simp)
    refine ⟨entryGroup (entryHead c _ g.serial), groups, by rw [hes, entryGroup_append, hgroups], ?_, hall⟩
    unfold entryHead
    split
    · next hblock =>
      have htracked : c.cfg.isTrackedFunction c.func.name = true ∧ c.cfg.isToplevelMode = true := by
        simpa [Ctx.isEntryBlock] using hblock
      simp [entryGroup, htracked.1, htracked.2]
    · next hblock =>
      have hnot : ¬ (c.cfg.isTrackedFunction c.func.name && c.cfg.isToplevelMode) = true := hblock
      rw [if_neg hnot]
      rfl

theorem Planned.inst?_of_mem_renderInsts {insts : List Inst} {n : NewInst} (hn : .new n ∈ renderInsts p.blocks insts) :
    n.purpose.inst? ≠ none := by
  obtain ⟨g, hblocks, -⟩ := hp.parts
  rcases mem_renderInsts.1 hn with ⟨I, -, heq⟩ | ⟨I, -, m, hm, heq⟩
  · cases heq
  · cases heq
    exact hblocks.purpose _ hm

theorem Planned.entryLayout (hF : F.WF) (hmain : F.name ≠ "main") :
    ∃ head groups, EntryLayout cfg F (instrumented F p) p.buffers head groups (renderInsts p.blocks (F.code 0)) := by
  obtain ⟨head, groups, hgroup, hhead, hargs⟩ := hp.entryGroup_eq hmain
  refine ⟨head, groups, ?_, fun _ => hp.isAlloca_of_mem_buffers, fun _ _ => hp.mem_buffers_of_isAlloca,
    fun _ _ _ _ _ => hp.stored hF, hhead, hargs, filterMap_orig_renderInsts _ _, fun _ => hp.inst?_of_mem_renderInsts,
    fun b n hb hn => ?_⟩
  · rw [block_instrumented (List.length_pos_iff.2 (blocks_ne_nil hF)), if_pos rfl, hgroup]
  · by_cases hlt : b < F.blocks.length
    · rw [block_instrumented hlt, if_neg hb, List.nil_append] at hn
      exact hp.inst?_of_mem_renderInsts hn
    · have hlen : F.blocks.length ≤ b := Nat.le_of_not_lt hlt
      simp [instrumented, render, Body.block, hlen] at hn

end

/-! ## Executions -/

/-- The events start with the entry's records, as far as they go; and after
these come no more of them, unless control comes back to the entry block. -/
def EntryFirst {ε : Type} (F : Function) (entry : List Record) (es : List (Event ε)) : Prop :=
  es <+: toEvents entry ∨ ∃ rest, es = toEvents entry ++ rest ∧
    ((∀ b, 0 ∉ F.succs b) → ∀ r, .record r ∈ rest → r.purpose.inst? ≠ none)

theorem exists_new_of_record {ε : Type} {κ : Nat → List ε} {nodes : List Node} {r : Record}
    (h : .record r ∈ events κ nodes) : ∃ n, .new n ∈ nodes ∧ n.purpose = r.purpose := by
  obtain ⟨node, hnode, hr⟩ := List.mem_flatMap.1 h
  cases node with
  | orig I =>
    simp only [nodeEvents, calleeEvents] at hr
    split at hr
    · simp at hr
    · cases hr
  | new n =>
    refine ⟨n, hnode, ?_⟩
    simp only [nodeEvents, Option.mem_toList, Option.map_eq_some_iff] at hr
    obtain ⟨r', hrecord, heq⟩ := hr
    cases heq
    obtain ⟨k, -, rfl⟩ := Option.map_eq_some_iff.1 hrecord
    rfl

/-- Buffers log nothing. -/
theorem record?_of_isAlloca {n : NewInst} (h : n.isAlloca = true) : n.record? = none := by
  obtain ⟨serial, pu, op⟩ := n
  cases op <;> simp_all [NewInst.isAlloca, NewInst.record?, NewInst.call?]

section

variable {cfg : Config} {F : Function} {body : Body} {buffers head : List NewInst} {groups : List (List NewInst)}
  {rest : List Node} (h : EntryLayout cfg F body buffers head groups rest)
include h

theorem EntryLayout.events_block {ε : Type} (κ : Nat → List ε) :
    events κ (body.block 0) = toEvents ((head ++ groups.flatten).filterMap NewInst.record?) ++ events κ rest := by
  have hbuffers : buffers.filterMap NewInst.record? = [] :=
    List.filterMap_eq_nil_iff.2 fun n hn => record?_of_isAlloca (h.allocas n hn)
  rw [h.block, events_append, events_new, List.filterMap_append, hbuffers, List.nil_append]

theorem EntryLayout.inst?_of_record {ε : Type} {κ : Nat → List ε} {r : Record} (hr : .record r ∈ events κ rest) :
    r.purpose.inst? ≠ none := by
  obtain ⟨n, hn, hpu⟩ := exists_new_of_record hr
  rw [← hpu]
  exact h.inserted n hn

theorem EntryLayout.inst?_of_other {ε : Type} {κ : Nat → List ε} {b : Nat} (hb : b ≠ 0) {r : Record}
    (hr : .record r ∈ events κ (body.block b)) : r.purpose.inst? ≠ none := by
  obtain ⟨n, hn, hpu⟩ := exists_new_of_record hr
  rw [← hpu]
  exact h.others b n hb hn

/-- What visits of other blocks than the entry log is an instruction's. -/
theorem EntryLayout.inst?_of_later {ε : Type} {v : Visit Nat (Event ε)} {later : List (Visit Nat (Event ε))}
    {todo : List Node} (hlast : ∃ κ : Nat → List ε, v.events ++ events κ todo = events κ (body.block v.block))
    (hlater : ∀ w ∈ later, ∃ κ : Nat → List ε, w.events = events κ (body.block w.block))
    (hne : ∀ w ∈ v :: later, w.block ≠ 0) {r : Record}
    (hr : .record r ∈ (v :: later).reverse.flatMap Visit.events) : r.purpose.inst? ≠ none := by
  obtain ⟨w, hw, hrecord⟩ := List.mem_flatMap.1 hr
  have hw := List.mem_reverse.1 hw
  rcases List.mem_cons.1 hw with rfl | hmem
  · obtain ⟨κ, hκ⟩ := hlast
    refine h.inst?_of_other (hne w hw) (κ := κ) ?_
    rw [← hκ]
    exact List.mem_append_left _ hrecord
  · obtain ⟨κ, hκ⟩ := hlater w hmem
    refine h.inst?_of_other (hne w hw) (κ := κ) ?_
    rwa [← hκ]

/-- From what each visit emits to what the execution does. -/
theorem EntryLayout.entryFirst {ε : Type} {v : Visit Nat (Event ε)} {ended : List (Visit Nat (Event ε))} {todo : List Node}
    (hpath : Dominance.Path F.succs 0 ((v :: ended).map Visit.block))
    (hlast : ∃ κ : Nat → List ε, v.events ++ events κ todo = events κ (body.block v.block))
    (hended : ∀ w ∈ ended, ∃ κ : Nat → List ε, w.events = events κ (body.block w.block)) :
    EntryFirst F ((head ++ groups.flatten).filterMap NewInst.record?) ((v :: ended).reverse.flatMap Visit.events) := by
  obtain ⟨κ, hκ⟩ := hlast
  obtain ⟨ρ, hρ, hback⟩ := hpath.exists_concat
  rcases List.eq_nil_or_concat ended with rfl | ⟨later, first, rfl⟩
  · -- The entry block is still being executed.
    have hpath : [v.block] = ρ ++ [0] := by simpa using hρ
    have hv : v.block = 0 := by
      cases ρ with
      | nil => simpa using hpath
      | cons b ρ => simp at hpath
    rw [hv, h.events_block] at hκ
    have hes : [v].reverse.flatMap Visit.events = v.events := by simp
    rw [hes]
    rcases List.append_eq_append_iff.1 hκ with ⟨m, hentry, -⟩ | ⟨m, hevents, hrest⟩
    · exact .inl ⟨m, hentry.symm⟩
    · refine .inr ⟨m, hevents, fun _ r hr => h.inst?_of_record (κ := κ) ?_⟩
      rw [hrest]
      exact List.mem_append_left _ hr
  · have hsplit : (v :: later).map Visit.block = ρ ∧ first.block = 0 := by
      rw [List.concat_eq_append, ← List.cons_append, List.map_append] at hρ
      obtain ⟨h₁, h₂⟩ := List.append_inj' hρ rfl
      exact ⟨h₁, by simpa using h₂⟩
    obtain ⟨κ₀, hfirst⟩ := hended first (by simp)
    rw [hsplit.2, h.events_block] at hfirst
    refine .inr ⟨events κ₀ rest ++ (v :: later).reverse.flatMap Visit.events, ?_, fun hnone r hr => ?_⟩
    · rw [List.concat_eq_append, ← List.cons_append, List.reverse_append, List.reverse_singleton, List.singleton_append,
        List.flatMap_cons, hfirst, List.append_assoc]
    · have hne : ∀ w ∈ v :: later, w.block ≠ 0 := fun w hw h0 =>
        hback hnone (hsplit.1 ▸ List.mem_map.2 ⟨w, hw, h0⟩)
      rcases List.mem_append.1 hr with hr | hr
      · exact h.inst?_of_record hr
      · exact h.inst?_of_later ⟨κ, hκ⟩ (fun w hw => hended w (by simp [hw])) hne hr

end

theorem Planned.emitted {V M ε : Type} {cfg : Config} {F : Function} {c : Ctx} {p : Plan} (hF : F.WF)
    (hp : Planned cfg F c p) {S : Semantics V M ε} {d₀ : Data V M} {vs : List (Visit Nat (Event ε))}
    {conf : Conf Node (Data V M × Temps V) V} (hrun : S.RunBody (instrumented F p) d₀ vs conf) :
    ∃ v ended, vs = v :: ended ∧
      (∃ κ : Nat → List ε, v.events ++ events κ conf.todo = events κ ((instrumented F p).block v.block)) ∧
      ∀ w ∈ ended, ∃ κ : Nat → List ε, w.events = events κ ((instrumented F p).block w.block) := by
  obtain ⟨v, ended, hvs, ⟨b, hb, hindex, κ, hκ⟩, hended⟩ := emitted_blockStream hF hp hrun
  refine ⟨v, ended, hvs, ⟨κ, by rw [← hindex, hp.events_block κ hF hb]; exact hκ⟩, fun w hw => ?_⟩
  obtain ⟨b', hb', hindex', κ', hκ'⟩ := hended w hw
  exact ⟨κ', by rw [← hindex', hp.events_block κ' hF hb']; exact hκ'⟩

/-- **The entry block.** It starts with the buffers, then the entry's
instrumentation, then the original instructions with theirs; and whatever is
executed, the entry's lines come first. -/
theorem runOnFunction_entryLayout {cfg : Config} {F : Function} {body : Body} (hF : F.WF)
    (hC : cfg.isCFunction F.name = true) (hmain : F.name ≠ "main") (h : runOnFunction cfg F = .ok body) :
    ∃ buffers head groups rest, EntryLayout cfg F body buffers head groups rest ∧
      ∀ {V M ε : Type} (S : Semantics V M ε) (d₀ : Data V M) (vs : List (Visit Nat (Event ε)))
        (conf : Conf Node (Data V M × Temps V) V), S.RunBody body d₀ vs conf →
        EntryFirst F ((head ++ groups.flatten).filterMap NewInst.record?) (vs.reverse.flatMap Visit.events) := by
  obtain ⟨c, p, hp, rfl⟩ := runOnFunction_ok hF hC h
  obtain ⟨head, groups, hlayout⟩ := hp.entryLayout hF hmain
  refine ⟨p.buffers, head, groups, _, hlayout, fun S d₀ vs conf hrun => ?_⟩
  have hpath : Dominance.Path F.succs 0 (vs.map Visit.block) := hrun.path fun hcode hstep => hstep.jump_mem hcode
  obtain ⟨v, ended, rfl, hlast, hended⟩ := hp.emitted hF hrun
  exact hlayout.entryFirst hpath hlast hended

/-! ### Two vectors -/

def vecTy : Ty := .vector 4 i32

def floatsTy : Ty := .vector 2 .float

def lanesInst : Inst := ⟨0, "y", vecTy, .other 11, [.arg ⟨0, "a", vecTy⟩, .arg ⟨0, "a", vecTy⟩], some 1⟩

def lanesRet : Inst := ⟨1, "", .void, .ret, [lanesInst.value], some 1⟩

/-- A function of two vectors that doubles the first. -/
def doubleLanes : Function where
  name := "top"
  params := [("a", vecTy), ("b", floatsTy)]
  blocks := [⟨"entry", [lanesInst, lanesRet]⟩]
  loops := ⟨fun _ => 0, fun _ => none, fun _ => none⟩

/-- A vector is stored, and its buffer handed over. -/
def vectorLine (serial : Nat) (pu : Purpose) (v : Value) (buffer num size : Nat) (name : String) : List Node :=
  [.new ⟨serial, pu, .store v buffer 4⟩, .new ⟨serial + 1, pu, .pointerCast buffer⟩,
    .new ⟨serial + 2, pu, .call (.param .vector num size (.node (serial + 1)) true name false phiText)⟩]

def doubleLanesBody : Body :=
  [[.new ⟨21, .argument 1, .alloca floatsTy⟩, .new ⟨1, .operand 0 1, .alloca vecTy⟩,
      .new ⟨16, .entryStatus, .call (.updateStatus "top" 0 true true)⟩, .new ⟨17, .entry, .call (.logEntry "top" 2)⟩] ++
    (vectorLine 18 (.argument 0) (.arg ⟨0, "a", vecTy⟩) 1 1 128 "a" ++
    (vectorLine 22 (.argument 1) (.arg ⟨1, "b", floatsTy⟩) 21 2 64 "b" ++
    (.new ⟨0, .first 0, .call (.log0 1 "top" "entry:0" "y" 11 true true)⟩ ::
    (vectorLine 2 (.operand 0 1) (.arg ⟨0, "a", vecTy⟩) 1 2 128 "a" ++
    (vectorLine 5 (.operand 0 0) (.arg ⟨0, "a", vecTy⟩) 1 1 128 "a" ++
    (.orig lanesInst ::
    (vectorLine 8 (.result 0) lanesInst.value 1 resultLine 128 "y" ++
    (.new ⟨11, .first 1, .call (.log0 1 "top" "entry:0" "entry:0-0" 1 true true)⟩ ::
    (vectorLine 12 (.operand 1 0) lanesInst.value 1 1 128 "y" ++
    [.new ⟨15, .ret 1, .call (.updateStatus "top" 1 true true)⟩, .orig lanesRet])))))))))]

theorem runOnFunction_doubleLanes : runOnFunction topConfig doubleLanes = .ok doubleLanesBody := rfl

/-- A vector's line is executed where the value and its buffer are there. -/
theorem run_vectorLine {V M ε : Type} {S : Semantics V M ε} {body : Body} {d₀ d : Data V M} {t : Temps V}
    {w : Visit Nat (Event ε)} {vs : List (Visit Nat (Event ε))} {serial buffer num size : Nat} {pu : Purpose} {v : Value}
    {name : String} {todo : List Node}
    (h : S.RunBody body d₀ (w :: vs) (.running (vectorLine serial pu v buffer num size name ++ todo) (d, t))) {x : V}
    (hx : S.operand d.regs v = some x) (hbuffer : t.buffers buffer ≠ none) :
    ∃ es t', S.RunBody body d₀ (⟨w.block, es⟩ :: vs) (.running todo (d, t')) ∧
      ∀ b, t.buffers b ≠ none → t'.buffers b ≠ none := by
  have hstored : (t.setBuffer buffer x).buffers buffer ≠ none := by simp [Temps.setBuffer]
  have h₁ := h.next (.new (.store hx hbuffer))
  have h₂ := h₁.next (.new (.pointerCast hstored))
  have h₃ := h₂.next (.new (.call (by intro y hy; cases hy; simp [Semantics.logValue, Temps.setValue])))
  refine ⟨_, _, h₃, fun b hb => ?_⟩
  by_cases hbb : b = buffer
  · rw [hbb]
    exact hstored
  · simpa [Temps.setBuffer, Temps.setValue, hbb] using hb

theorem doubleLanesBody_returns :
    ∃ es t, addSemantics.RunBody doubleLanesBody calledData [⟨0, es⟩] (.halted [] 10 t) := by
  have h₀ : addSemantics.RunBody doubleLanesBody calledData _ _ := .start
  have h₁ := h₀.next (.new .alloca)
  have h₂ := h₁.next (.new .alloca)
  have h₃ := h₂.next (.new (.call (by intro x hx; cases hx)))
  have h₄ := h₃.next (.new (.call (by intro x hx; cases hx)))
  obtain ⟨_, t₅, h₅, hb₅⟩ := run_vectorLine h₄ rfl (by simp [Temps.setBuffer])
  have hvec : t₅.buffers 1 ≠ none := hb₅ 1 (by simp [Temps.setBuffer])
  obtain ⟨_, t₆, h₆, hb₆⟩ := run_vectorLine h₅ rfl (hb₅ 21 (by simp [Temps.setBuffer]))
  have h₇ := h₆.next (.new (.call (by intro x hx; cases hx)))
  obtain ⟨_, t₈, h₈, hb₈⟩ := run_vectorLine h₇ rfl (hb₆ 1 hvec)
  obtain ⟨_, t₉, h₉, hb₉⟩ := run_vectorLine h₈ rfl (hb₈ 1 (hb₆ 1 hvec))
  have hvec := hb₉ 1 (hb₈ 1 (hb₆ 1 hvec))
  have h₁₀ := h₉.next (.orig (.mk (x := 10) (m := ()) ⟨rfl, .inl ⟨5, 5, rfl, rfl, rfl, rfl⟩⟩))
  obtain ⟨_, t₁₁, h₁₁, hb₁₁⟩ := run_vectorLine h₁₀ rfl hvec
  have h₁₂ := h₁₁.next (.new (.call (by intro x hx; cases hx)))
  obtain ⟨_, t₁₃, h₁₃, -⟩ := run_vectorLine h₁₂ rfl (hb₁₁ 1 hvec)
  have h₁₄ := h₁₃.next (.new (.call (by intro x hx; cases hx)))
  have h₁₅ := h₁₄.halt (.orig (.mk (x := 0) (m := ()) ⟨rfl, .inr ⟨10, rfl, rfl, rfl⟩⟩))
  exact ⟨_, _, h₁₅⟩

theorem runOnFunction_entryLayout_doubleLanes : ∃ buffers head groups rest,
    EntryLayout topConfig doubleLanes doubleLanesBody buffers head groups rest ∧
      ⟨21, .argument 1, .alloca floatsTy⟩ ∈ buffers ∧ ⟨1, .operand 0 1, .alloca vecTy⟩ ∈ buffers ∧
      ∃ es t, addSemantics.RunBody doubleLanesBody calledData [⟨0, es⟩] (.halted [] 10 t) ∧
        EntryFirst doubleLanes ((head ++ groups.flatten).filterMap NewInst.record?) es := by
  obtain ⟨buffers, head, groups, rest, hlayout, hfirst⟩ :=
    runOnFunction_entryLayout (Function.wf_of_isLocal (by decide)) (by decide) (by decide) runOnFunction_doubleLanes
  obtain ⟨es, t, hrun⟩ := doubleLanesBody_returns
  refine ⟨buffers, head, groups, rest, hlayout, hlayout.allocated 0 _ ?_ rfl, hlayout.allocated 0 _ ?_ rfl, es, t, hrun, ?_⟩
  · decide
  · decide
  · simpa using hfirst addSemantics calledData _ _ hrun

end LlvmTracer.Pass
