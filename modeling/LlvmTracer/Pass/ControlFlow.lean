/-
What the lines of an activation say about the path it takes.

A block's terminator is the only one of its instructions whose first line
shows a terminator's opcode. So these lines name the blocks that are left, in
order (`runOnFunction_controlFlow`), and with different ids for different
blocks two executions with the same lines took the same path.
-/
import LlvmTracer.Pass.BlockIds
import LlvmTracer.Pass.DataFlow
import LlvmTracer.Pass.FixedPoint

namespace LlvmTracer.Pass

open Ir Machine

/-! ## The first lines of terminators -/

/-- An opcode of a terminator. -/
def exitOpcode (op : Nat) : Bool := 1 ≤ op ∧ op ≤ 10

/-- The block a call names as left. -/
def exitOf : Logger.Call → Option String
  | .log0 a => if 1 ≤ a.opcode ∧ a.opcode ≤ 10 then some a.bbid else none
  | _ => none

/-- The blocks named as left, in order. -/
def exits (shown : List (Purpose × Logger.Call)) : List String := shown.filterMap fun x => exitOf x.2

def Node.exit? : Node → Option String
  | .new ⟨_, _, .call (.log0 _ _ bbid _ op _ _)⟩ => if exitOpcode op then some bbid else none
  | _ => none

theorem exitOpcode_opcodeToFixedPoint (op : Nat) : exitOpcode (opcodeToFixedPoint op) = exitOpcode op := by
  unfold opcodeToFixedPoint exitOpcode
  split <;> simp

/-- A call's opcode is none of a terminator's. -/
theorem exitOpcode_callOpcode (func : String) : exitOpcode (callOpcode func) = false := by
  unfold callOpcode exitOpcode
  repeat' split
  all_goals decide

theorem exitOpcode_lineOpcode (I : Inst) : exitOpcode (lineOpcode I) = I.isTerminator := by
  unfold lineOpcode
  cases hcall : I.calledFunction with
  | none => rfl
  | some callee =>
    have hop : I.opcode = 54 := by
      unfold Inst.calledFunction at hcall
      unfold Inst.opcode
      split at hcall <;> simp_all
    simp only
    rw [exitOpcode_callOpcode, Inst.isTerminator, hop]
    rfl

theorem exitOf_log0 (line : Int) (f bbid instid : String) (op : Nat) (tracked toplevel : Bool) :
    exitOf (.log0 ⟨line, f, bbid, instid, op, tracked, toplevel⟩) = if exitOpcode op then some bbid else none := by
  have hiff : (1 ≤ (op : Int) ∧ (op : Int) ≤ 10) ↔ exitOpcode op = true := by
    rw [exitOpcode, decide_eq_true_eq]
    omega
  by_cases hop : exitOpcode op = true
  · rw [if_pos hop, exitOf, if_pos (hiff.2 hop)]
  · rw [if_neg hop, exitOf, if_neg fun hlt => hop (hiff.1 hlt)]

theorem exits_shown {V M ε : Type} (S : Semantics V M ε) (view : Display V) (s : Data V M × Temps V) (n : Node) :
    exits (n.shown S view s) = n.exit?.toList := by
  cases n with
  | orig I => rfl
  | new n =>
    obtain ⟨serial, pu, op⟩ := n
    cases op with
    | call k =>
      cases k with
      | log0 line f bbid instid op tracked toplevel =>
        show exits [(pu, .log0 ⟨line, f, bbid, instid, op, tracked, toplevel⟩)] =
          (if exitOpcode op then some bbid else none).toList
        rw [exits, List.filterMap_cons, exitOf_log0]
        cases exitOpcode op <;> rfl
      | param logger num size value isReg regId isPhi prevBbid =>
        cases hvalue : S.logValue s.1 s.2 value <;>
          simp [exits, Node.shown, NewInst.made, NewInst.call?, LogCall.made, hvalue, exitOf, Node.exit?]
      | _ => rfl
    | _ => rfl

/-! ## One for each block -/

/-- The terminators are instructions the pass covers: there is no invoke, and
no `catchswitch`. -/
def Config.CoversExits (cfg : Config) (F : Function) : Prop :=
  ∀ b I, F.terminator b = some I → cfg.covers I = true

/-- A record of the terminator's first line. -/
def exitRecord (id : Nat) (r : Record) : Option String :=
  match r.line with
  | .first bbid => if r.purpose = .first id then some bbid else none
  | _ => none

theorem filterMap_exitRecord {cfg : Config} {bbid : String} {I : Inst} {id : Nat} :
    (cfg.instRecords bbid I).filterMap (exitRecord id) = if cfg.covers I = true ∧ I.id = id then [bbid] else [] := by
  unfold Config.instRecords
  by_cases hcovers : cfg.covers I = true
  · have hothers : (operandRecords I ++ statusRecords I ++ resultRecords I).filterMap (exitRecord id) = [] := by
      rw [List.filterMap_eq_nil_iff]
      intro r hr
      simp only [operandRecords, statusRecords, resultRecords, List.mem_append, List.mem_map] at hr
      rcases hr with (⟨x, -, rfl⟩ | hr) | hr
      · rfl
      · split at hr
        · rw [List.mem_singleton.1 hr]
          rfl
        · cases hr
      · split at hr
        · rw [List.mem_singleton.1 hr]
          rfl
        · cases hr
    rw [if_pos hcovers, headRecords, List.cons_append, List.filterMap_cons, hothers]
    by_cases hid : I.id = id <;> simp [exitRecord, hcovers, hid]
  · rw [if_neg hcovers, if_neg fun h => hcovers h.1]
    rfl

theorem Planned.filterMap_record {cfg : Config} {F : Function} {c : Ctx} {p : Plan} (hp : Planned cfg F c p)
    (hF : F.WF) {b : BlockRef} (hb : b ∈ F.blockRefs) :
    ((instrumented F p).block b.index).filterMap Node.record? = blockRecords c b := by
  have hfunc := hp.func
  subst hfunc
  refine toEvents_inj ?_
  rw [← events_eq_records, hp.events_block _ hF hb, blockStream_eq_records hF]

/-- The first line of an instruction is in its block. -/
theorem Planned.mem_code_of_first {cfg : Config} {F : Function} {c : Ctx} {p : Plan} (hp : Planned cfg F c p)
    (hF : F.WF) {b : BlockRef} (hb : b ∈ F.blockRefs) {n : NewInst} (hn : .new n ∈ (instrumented F p).block b.index)
    {I : Inst} (hI : I ∈ F.insts) (hpu : n.purpose = .first I.id) (hcall : n.call? ≠ none) : I ∈ F.code b.index := by
  obtain ⟨k, hk⟩ := Option.ne_none_iff_exists'.1 hcall
  have hmem : ⟨n.purpose, k.line⟩ ∈ blockRecords c b := by
    rw [← hp.filterMap_record hF hb]
    exact List.mem_filterMap.2 ⟨_, hn, by simp [Node.record?, NewInst.record?, hk]⟩
  have hfunc := hp.func
  subst hfunc
  rcases List.mem_append.1 hmem with hmem | hmem
  · split at hmem
    · have hnone := inst?_of_mem_entryRecords hmem
      rw [hpu] at hnone
      cases hnone
    · cases hmem
  · split at hmem
    · obtain ⟨K, hK, hmem⟩ := List.mem_flatMap.1 hmem
      have hid := inst?_of_mem_instRecords hmem
      rw [hpu] at hid
      rwa [hF.eq_of_id hI (Function.mem_insts_of_mem_code hK) (Option.some.inj hid)]
    · cases hmem

section

variable {cfg : Config} {F : Function} {c : Ctx} {p : Plan} (hp : Planned cfg F c p) (hF : F.WF)
  (h : runOnFunction cfg F = .ok (instrumented F p))
include hp hF h

/-- Of a block's lines only the first of its terminator names it as left. -/
theorem Planned.exit?_eq {b : BlockRef} (hb : b ∈ F.blockRefs) {T : Inst} (hT : F.terminator b.index = some T) {n : Node}
    (hn : n ∈ (instrumented F p).block b.index) : n.exit? = n.record?.bind (exitRecord T.id) := by
  have hrecords := hp.filterMap_record hF hb
  cases n with
  | orig I => rfl
  | new n =>
    obtain ⟨serial, pu, op⟩ := n
    cases op with
    | call k =>
      cases k with
      | log0 line f bbid instid op tracked toplevel =>
        obtain ⟨I, ⟨hI, -⟩, hpu, hop⟩ := runOnFunction_shows hF h hn op rfl
        have hexit : exitOpcode op = I.isTerminator := by
          rw [hop, ← exitOpcode_lineOpcode]
          split
          · rw [exitOpcode_opcodeToFixedPoint]
          · rfl
        have hT' : T ∈ F.insts ∧ T.isTerminator = true := by
          refine ⟨Function.mem_insts_of_terminator hT, ?_⟩
          obtain ⟨blk, -, hblk⟩ := Option.bind_eq_some_iff.1 hT
          exact (Option.filter_eq_some_iff.1 hblk).2
        have hexit_iff : exitOpcode op = true ↔ pu = .first T.id := by
          rw [hexit, show pu = _ from hpu]
          constructor
          · intro hterm
            obtain rfl := Option.some.inj ((hF.terminator_eq (hp.mem_code_of_first hF hb hn hI hpu (by simp [NewInst.call?])) hterm).symm.trans hT)
            rfl
          · intro hid
            rw [hF.eq_of_id hI hT'.1 (Purpose.first.inj hid)]
            exact hT'.2
        by_cases hop' : exitOpcode op = true
        · simp [Node.exit?, Node.record?, NewInst.record?, NewInst.call?, LogCall.line, exitRecord, hop', ← hexit_iff]
        · simp [Node.exit?, Node.record?, NewInst.record?, NewInst.call?, LogCall.line, exitRecord, hop', ← hexit_iff]
      | _ => rfl
    | _ => rfl

/-- The lines of a block name it as left, once. -/
theorem Planned.exits_block (htr : cfg.tracesBlocks F.name = true) (hexits : cfg.CoversExits F) {b : BlockRef}
    (hb : b ∈ F.blockRefs) : ((instrumented F p).block b.index).filterMap Node.exit? = [c.blockId b] := by
  have hlt := Function.mem_blockRefs hb
  obtain ⟨T, hT⟩ : ∃ T, F.terminator b.index = some T := by
    obtain ⟨T, hT⟩ := Option.ne_none_iff_exists'.1 (hF.block_wf hlt).terminated
    exact ⟨T, by simp [Function.terminator, hlt, hT]⟩
  have hcode : T ∈ F.code b.index := by
    obtain ⟨blk, hblk, hlast⟩ := Option.bind_eq_some_iff.1 hT
    simp only [Function.code, hblk]
    exact List.mem_of_getLast? (Option.filter_eq_some_iff.1 hlast).1
  have hentry : ∀ rs : List Record, (∀ r ∈ rs, r.purpose.inst? = none) → rs.filterMap (exitRecord T.id) = [] := by
    intro rs hrs
    rw [List.filterMap_eq_nil_iff]
    rintro ⟨pu, line⟩ hr
    have hnone := hrs _ hr
    unfold exitRecord
    split
    · rw [if_neg]
      rintro rfl
      cases hnone
    · rfl
  have hcfg := hp.cfg
  have hfunc := hp.func
  rw [List.filterMap_congr fun n hn => hp.exit?_eq hF h hb hT hn, ← List.filterMap_filterMap,
    hp.filterMap_record hF hb, blockRecords, hcfg, hfunc, if_pos htr, List.filterMap_append, hentry, List.nil_append,
    List.filterMap_flatMap, List.flatMap_congr fun I _ => filterMap_exitRecord]
  · rw [flatMap_eq_of_unique (hF.code_ids_nodup b.index).of_map hcode, if_pos ⟨hexits _ _ hT, rfl⟩]
    intro I hI hne
    rw [if_neg]
    rintro ⟨-, hid⟩
    exact hne (hF.eq_of_id (Function.mem_insts_of_mem_code hI) (Function.mem_insts_of_mem_code hcode) hid)
  · intro r hr
    split at hr
    · exact inst?_of_mem_entryRecords hr
    · cases hr

end

/-! ## The path -/

/-- The id of the block with this index. -/
def Ctx.idAt (c : Ctx) (b : Nat) : String :=
  match c.func.blockRefs[b]? with
  | some r => c.blockId r
  | none => ""

theorem Ctx.idAt_of_mem {c : Ctx} {r : BlockRef} (hr : r ∈ c.func.blockRefs) : c.idAt r.index = c.blockId r := by
  obtain ⟨i, hi, rfl⟩ := List.mem_mapIdx.1 hr
  have hget : c.func.blockRefs[i]? = some ⟨i, c.func.blocks[i].name⟩ := by simp [Function.blockRefs, hi]
  simp only [Ctx.idAt, hget]

/-- Different blocks have different ids. -/
def Ctx.IdsApart (c : Ctx) : Prop :=
  ∀ b ∈ c.func.blockRefs, ∀ b' ∈ c.func.blockRefs, c.blockId b = c.blockId b' → b = b'

/-- So it is where there is room for the ids, and the names are plain. -/
theorem Ctx.idsApart_of_fits {c : Ctx} (hplain : c.NamesPlain) (hfits : ∀ b ∈ c.func.blockRefs, c.IdFits b) :
    c.IdsApart := by
  have hid : ∀ b ∈ c.func.blockRefs, c.blockId b = c.wholeId b := fun b hb => by
    rw [Ctx.blockId, Ctx.makeValueId_iff.2 (hfits b hb)]
  intro b hb b' hb' heq
  rw [hid b hb, hid b' hb'] at heq
  exact Ctx.blockText_inj hplain hb hb' (Ctx.wholeId_inj heq).1

/-- The calls of every run name the blocks that are left, in order; at a
block's end it is named too. So with ids apart two runs to a block's end that
make the same calls went through the same blocks, whatever the data. -/
structure ControlFlow (c : Ctx) (body : Body) : Prop where
  left : ∀ {V M ε : Type} (S : Semantics V M ε) view d₀ v ended conf, S.RunShown view body d₀ (v :: ended) conf →
    ∃ now, exits (eventsOf (v :: ended)) = ended.reverse.map (fun w => c.idAt w.block) ++ now ∧
      (now = [] ∨ now = [c.idAt v.block]) ∧ (conf.todo = [] → now = [c.idAt v.block])
  path : c.IdsApart → ∀ {V M ε V' M' ε' : Type} (S : Semantics V M ε) view d₀ vs conf (S' : Semantics V' M' ε') view' d₀'
    vs' conf', S.RunShown view body d₀ vs conf → S'.RunShown view' body d₀' vs' conf' → conf.todo = [] → conf'.todo = [] →
    (eventsOf vs).map Prod.snd = (eventsOf vs').map Prod.snd → vs.map Visit.block = vs'.map Visit.block

theorem exits_append (xs ys : List (Purpose × Logger.Call)) : exits (xs ++ ys) = exits xs ++ exits ys := List.filterMap_append

theorem exits_eq_map (shown : List (Purpose × Logger.Call)) : exits shown = (shown.map Prod.snd).filterMap exitOf := by
  rw [List.filterMap_map]
  rfl

theorem exits_eventsOf (vs : List (Visit Nat (Purpose × Logger.Call))) :
    exits (eventsOf vs) = vs.reverse.flatMap fun v => exits v.events := List.filterMap_flatMap

/-- The calls name as left what the node does. -/
def Node.NamesExit (n : Node) (o : List (Purpose × Logger.Call)) : Prop := exits o = n.exit?.toList

theorem Semantics.StepShown.namesExit {V M ε : Type} {S : Semantics V M ε} {view : Display V} {b : Nat} {n : Node}
    {s s' : Data V M × Temps V} {o : List (Purpose × Logger.Call)} {e : Exit Nat V} (h : S.StepShown view b n s o s' e) :
    n.NamesExit o := by
  cases h with
  | mk => exact exits_shown S view s n

theorem exits_of_emitsAll {nodes : List Node} {o : List (Purpose × Logger.Call)} (h : EmitsAll Node.NamesExit nodes o) :
    exits o = nodes.filterMap Node.exit? := by
  induction h with
  | nil => rfl
  | @cons n nodes _ _ hn _ ih =>
    rw [exits_append, hn, ih]
    cases hexit : n.exit? <;> simp [hexit]

theorem eq_of_map_eq {α β : Type} {f : α → β} : ∀ {l l' : List α}, (∀ x ∈ l, ∀ y ∈ l', f x = f y → x = y) →
    l.map f = l'.map f → l = l'
  | [], [], _, _ => rfl
  | x :: l, y :: l', hinj, h => by
    obtain ⟨hxy, h⟩ := List.cons.inj h
    rw [hinj x List.mem_cons_self y List.mem_cons_self hxy,
      eq_of_map_eq (fun x hx y hy => hinj x (List.mem_cons_of_mem _ hx) y (List.mem_cons_of_mem _ hy)) h]

section

variable {cfg : Config} {F : Function} {c : Ctx} {p : Plan} (hp : Planned cfg F c p) (hF : F.WF)
  (h : runOnFunction cfg F = .ok (instrumented F p)) (htr : cfg.tracesBlocks F.name = true) (hexits : cfg.CoversExits F)
include hp hF h htr hexits

theorem exits_of_run {V M ε : Type} {S : Semantics V M ε} {view : Display V} {d₀ : Data V M}
    {v : Visit Nat (Purpose × Logger.Call)} {ended : List (Visit Nat (Purpose × Logger.Call))}
    {conf : Conf Node (Data V M × Temps V) V} (hrun : S.RunShown view (instrumented F p) d₀ (v :: ended) conf) :
    ∃ now, exits (eventsOf (v :: ended)) = ended.reverse.map (fun w => c.idAt w.block) ++ now ∧
      (now = [] ∨ now = [c.idAt v.block]) ∧ (conf.todo = [] → now = [c.idAt v.block]) := by
  have hpath := hrun.path fun hcode hstep => hstep.jump_mem hcode
  have hlt := lt_of_mem_path hF hpath
  have hblock : ∀ w ∈ v :: ended, ((instrumented F p).block w.block).filterMap Node.exit? = [c.idAt w.block] := by
    intro w hw
    obtain ⟨r, hr, hindex⟩ := exists_blockRef (hlt w.block (List.mem_map_of_mem hw))
    rw [← hindex, hp.exits_block hF h htr hexits hr, Ctx.idAt_of_mem (hp.func.symm ▸ hr)]
  obtain ⟨_, _, pre, hvs, hpre, hlast, hended⟩ := hrun.emits fun hstep => hstep.namesExit
  obtain ⟨rfl, rfl⟩ := List.cons.inj hvs
  have hones : ended.reverse.flatMap (fun w => exits w.events) = ended.reverse.map fun w => c.idAt w.block := by
    rw [List.map_eq_flatMap]
    refine List.flatMap_congr fun w hw => ?_
    have hw := List.mem_reverse.1 hw
    rw [exits_of_emitsAll (hended w hw), hblock w (List.mem_cons_of_mem v hw)]
  have hnow := hblock v List.mem_cons_self
  rw [hpre, List.filterMap_append] at hnow
  refine ⟨exits v.events, ?_, ?_, fun htodo => ?_⟩
  · rw [exits_eventsOf, List.reverse_cons, List.flatMap_append, hones]
    simp
  · rw [exits_of_emitsAll hlast]
    rcases List.append_eq_singleton_iff.1 hnow with ⟨hnil, -⟩ | ⟨hone, -⟩
    · exact .inl hnil
    · exact .inr hone
  · rw [htodo, List.filterMap_nil, List.append_nil] at hnow
    rw [exits_of_emitsAll hlast, hnow]

theorem Planned.controlFlow : ControlFlow c (instrumented F p) where
  left S view d₀ v ended conf hrun := exits_of_run hp hF h htr hexits hrun
  path := by
    intro hapart V M ε V' M' ε' S view d₀ vs conf S' view' d₀' vs' conf' hrun hrun' htodo htodo' hcalls
    have hfunc := hp.func
    have hids : ∀ {V M ε : Type} {S : Semantics V M ε} {view : Display V} {d₀ : Data V M}
        {vs : List (Visit Nat (Purpose × Logger.Call))} {conf : Conf Node (Data V M × Temps V) V},
        S.RunShown view (instrumented F p) d₀ vs conf → conf.todo = [] →
          exits (eventsOf vs) = (vs.map Visit.block).reverse.map c.idAt ∧ ∀ b ∈ vs.map Visit.block, b < F.blocks.length := by
      intro V M ε S view d₀ vs conf hrun htodo
      obtain ⟨v, ended, -, rfl, -⟩ := hrun.position
      obtain ⟨now, hexits, -, hnow⟩ := exits_of_run hp hF h htr hexits hrun
      refine ⟨?_, lt_of_mem_path hF (hrun.path fun hcode hstep => hstep.jump_mem hcode)⟩
      rw [hexits, hnow htodo]
      simp
    obtain ⟨hexit, hlt⟩ := hids hrun htodo
    obtain ⟨hexit', hlt'⟩ := hids hrun' htodo'
    have heq : (vs.map Visit.block).map c.idAt = (vs'.map Visit.block).map c.idAt := by
      have hexits : exits (eventsOf vs) = exits (eventsOf vs') := by rw [exits_eq_map, exits_eq_map, hcalls]
      rw [hexit, hexit'] at hexits
      simpa using hexits
    refine eq_of_map_eq (fun b hb b' hb' hid => ?_) heq
    obtain ⟨r, hr, rfl⟩ := exists_blockRef (hlt b hb)
    obtain ⟨r', hr', rfl⟩ := exists_blockRef (hlt' b' hb')
    rw [← hfunc] at hr hr'
    rw [Ctx.idAt_of_mem hr, Ctx.idAt_of_mem hr'] at hid
    rw [hapart r hr r' hr' hid]

end

/-- **Control flow.** The lines of an activation name the blocks it leaves, in
order, and with ids apart they determine its path. -/
theorem runOnFunction_controlFlow {cfg : Config} {F : Function} {c : Ctx} {body : Body} (hF : F.WF)
    (hC : cfg.isCFunction F.name = true) (htr : cfg.tracesBlocks F.name = true) (hexits : cfg.CoversExits F)
    (hc : collect cfg F = .ok c) (h : runOnFunction cfg F = .ok body) : ControlFlow c body := by
  obtain ⟨c', p, hp, rfl⟩ := runOnFunction_ok hF hC h
  obtain rfl : c = c' := Except.ok.inj (hc.symm.trans hp.collected)
  exact hp.controlFlow hF h htr hexits

/-! ## A loop -/

def readyVar : GlobalVariable := ⟨"ready", .integer 1, some .other⟩

def enterInst : Inst := ⟨0, "", .void, .other 2, [.block ⟨1, "wait"⟩], some 1⟩

def loadInst : Inst := ⟨1, "done", .integer 1, .other 30, [.global readyVar], some 2⟩

def againInst : Inst := ⟨2, "", .void, .other 2, [loadInst.value, .block ⟨1, "wait"⟩, .block ⟨2, "exit"⟩], some 2⟩

def leaveInst : Inst := ⟨3, "", .void, .ret, [], some 3⟩

/-- `void top() { while (!ready); }` -/
def waitReady : Function where
  name := "top"
  params := []
  blocks := [⟨"entry", [enterInst]⟩, ⟨"wait", [loadInst, againInst]⟩, ⟨"exit", [leaveInst]⟩]
  loops := ⟨fun b => if b = 1 then 1 else 0, fun b => if b = 1 then some 0 else none, fun b => if b = 1 then some 2 else none⟩

theorem waitReady_wf : waitReady.WF := Function.wf_of_isLocal (by decide)

def blockLine (serial id num : Nat) (name : String) : Node :=
  .new ⟨serial, .operand id (num - 1), .call (.param .int num 0 .zero true name false phiText)⟩

def waitBody : Body :=
  [[.new ⟨13, .entryStatus, .call (.updateStatus "top" 0 true true)⟩,
    .new ⟨14, .entry, .call (.logEntry "top" 0)⟩,
    .new ⟨0, .first 0, .call (.log0 2 "top" "entry:0" "entry:0-0" 2 true true)⟩,
    blockLine 1 0 1 "wait:1",
    .orig enterInst],
   [.new ⟨2, .first 1, .call (.log0 2 "top" "wait:1" "done" 30 true true)⟩,
    .new ⟨3, .operand 1 0, .call (.param .ptr 1 64 (.folded .ptrToInt (.global readyVar)) true "ready" false phiText)⟩,
    .orig loadInst,
    .new ⟨4, .result 1, .cast .zext loadInst.value⟩,
    .new ⟨5, .result 1, .call (.param .int resultLine 1 (.node 4) true "done" false phiText)⟩,
    .new ⟨6, .first 2, .call (.log0 2 "top" "wait:1" "wait:1-0" 2 true true)⟩,
    blockLine 7 2 3 "exit:0",
    blockLine 8 2 2 "wait:1",
    .new ⟨9, .operand 2 0, .cast .zext loadInst.value⟩,
    .new ⟨10, .operand 2 0, .call (.param .int 1 1 (.node 9) true "done" false phiText)⟩,
    .orig againInst],
   [.new ⟨11, .first 3, .call (.log0 3 "top" "exit:0" "exit:0-0" 1 true true)⟩,
    .new ⟨12, .ret 3, .call (.updateStatus "top" 1 true true)⟩,
    .orig leaveInst]]

theorem runOnFunction_waitReady : runOnFunction topConfig waitReady = .ok waitBody := by decide +kernel

def waitCtx : Ctx := ⟨topConfig, waitReady, [], [(0, 2)]⟩

theorem waitReady_coversExits : topConfig.CoversExits waitReady := by
  intro b I hI
  have hcovers : ∀ I ∈ waitReady.insts, topConfig.covers I = true := by decide
  exact hcovers I (Function.mem_insts_of_terminator hI)

/-- `ready` may change at any time. -/
def waitSemantics : Semantics Bool Unit Empty where
  const _ := false
  exec I _ operands _ o x _ e :=
    o = [] ∧ ((I = enterInst ∧ e = .jump 1) ∨ (I = loadInst ∧ e = .next) ∨
      (∃ done, I = againInst ∧ operands.head? = some (some done) ∧ e = .jump (if done then 2 else 1)) ∨
      I = leaveInst ∧ e = .halt x)
  jumps := by
    rintro I b operands m o x m' b' ⟨-, ⟨rfl, he⟩ | ⟨-, he⟩ | ⟨done, rfl, -, he⟩ | ⟨-, he⟩⟩
    · cases he
      decide
    · cases he
    · cases he
      cases done <;> decide
    · cases he
  quiet h _ _ := h.1
  cast _ x := x
  string _ := false
  zero := false
  undef := false
  address _ := false

def boolDisplay : Display Bool where
  int x := BitVec.ofBool x |>.setWidth 64
  pointer _ := 0
  string _ := ""
  double _ := ⟨0, []⟩
  bytes _ _ := []

/-- Waiting: from the loop's start to its start again or to the exit. -/
theorem waitBody_loops {d₀ d : Data Bool Unit} {t : Temps Bool} {vs : List (Visit Nat (Purpose × Logger.Call))}
    (h : waitSemantics.RunShown boolDisplay waitBody d₀ (⟨1, []⟩ :: vs) (.running (waitBody.block 1) (d, t))) (done : Bool) :
    ∃ es d' t', waitSemantics.RunShown boolDisplay waitBody d₀ (⟨if done then 2 else 1, []⟩ :: ⟨1, es⟩ :: vs)
      (.running (waitBody.block (if done then 2 else 1)) (d', t')) := by
  have h₁ := h.next (.mk (.new (.call (by intro x hx; cases hx))))
  have h₂ := h₁.next (.mk (.new (.call (by intro x hx; cases hx; simp [Semantics.logValue, Semantics.operand]))))
  have h₃ := h₂.next (.mk (.orig (.mk (x := done) (m := ()) ⟨rfl, .inr (.inl ⟨rfl, rfl⟩)⟩)))
  have h₄ := h₃.next (.mk (.new (.cast rfl)))
  have h₅ := h₄.next (.mk (.new (.call (by intro x hx; cases hx; simp [Semantics.logValue, Temps.setValue]))))
  have h₆ := h₅.next (.mk (.new (.call (by intro x hx; cases hx))))
  have h₇ := h₆.next (.mk (.new (.call (by intro x hx; cases hx; simp [Semantics.logValue]))))
  have h₈ := h₇.next (.mk (.new (.call (by intro x hx; cases hx; simp [Semantics.logValue]))))
  have h₉ := h₈.next (.mk (.new (.cast rfl)))
  have h₁₀ := h₉.next (.mk (.new (.call (by intro x hx; cases hx; simp [Semantics.logValue, Temps.setValue]))))
  have h₁₁ := h₁₀.jump (.mk (.orig (.mk (x := done) (m := ()) ⟨rfl, .inr (.inr (.inl ⟨done, rfl, rfl, rfl⟩))⟩)))
  exact ⟨_, _, _, h₁₁⟩

/-- A run that waits twice. -/
theorem waitBody_halts : ∃ es₃ es₂ es₁ es₀ r s, waitSemantics.RunShown boolDisplay waitBody
    ⟨fun _ => none, fun _ => none, 0, ()⟩ [⟨2, es₃⟩, ⟨1, es₂⟩, ⟨1, es₁⟩, ⟨0, es₀⟩] (.halted [] r s) := by
  have h₀ : waitSemantics.RunShown boolDisplay waitBody ⟨fun _ => none, fun _ => none, 0, ()⟩ _ _ := .start
  have h₁ := h₀.next (.mk (.new (.call (by intro x hx; cases hx))))
  have h₂ := h₁.next (.mk (.new (.call (by intro x hx; cases hx))))
  have h₃ := h₂.next (.mk (.new (.call (by intro x hx; cases hx))))
  have h₄ := h₃.next (.mk (.new (.call (by intro x hx; cases hx; simp [Semantics.logValue]))))
  have h₅ := h₄.jump (.mk (.orig (.mk (x := false) (m := ()) ⟨rfl, .inl ⟨rfl, rfl⟩⟩)))
  obtain ⟨es₁, _, _, hagain⟩ := waitBody_loops h₅ false
  obtain ⟨es₂, _, _, hexit⟩ := waitBody_loops hagain true
  have h₆ := hexit.next (.mk (.new (.call (by intro x hx; cases hx))))
  have h₇ := h₆.next (.mk (.new (.call (by intro x hx; cases hx))))
  have h₈ := h₇.halt (.mk (.orig (.mk (x := false) (m := ()) ⟨rfl, .inr (.inr (.inr ⟨rfl, rfl⟩))⟩)))
  exact ⟨_, _, _, _, _, _, h₈⟩

theorem runOnFunction_controlFlow_waitReady : ControlFlow waitCtx waitBody ∧ waitCtx.IdsApart ∧
    ∃ d₀ vs r s, waitSemantics.RunShown boolDisplay waitBody d₀ vs (.halted [] r s) ∧
      vs.map Visit.block = [2, 1, 1, 0] ∧ exits (eventsOf vs) = ["entry:0", "wait:1", "wait:1", "exit:0"] := by
  have hflow := runOnFunction_controlFlow waitReady_wf (by decide) (by decide) waitReady_coversExits
    (c := waitCtx) rfl runOnFunction_waitReady
  refine ⟨hflow, Ctx.idsApart_of_fits (by unfold Ctx.NamesPlain; decide) (by decide), ?_⟩
  obtain ⟨es₃, es₂, es₁, es₀, r, s, hrun⟩ := waitBody_halts
  refine ⟨_, _, r, s, hrun, rfl, ?_⟩
  obtain ⟨now, hexits, -, hnow⟩ := hflow.left _ _ _ _ _ _ hrun
  have hids : waitCtx.idAt 0 = "entry:0" ∧ waitCtx.idAt 1 = "wait:1" ∧ waitCtx.idAt 2 = "exit:0" := by decide
  rw [hexits, hnow rfl]
  simp [hids]

end LlvmTracer.Pass
