/-
What is traced has its lines, and nothing else has.

A body's records, in the order of its blocks, are those of its instructions
(`Planned.records`). So the lines about an instruction can be singled out:
its operands' and its result's, for the types a line is printed for. A call's
arguments behind the formal parameters have none (`dropsNothing_iff`).
-/
import LlvmTracer.Pass.RecordStream

namespace LlvmTracer.Pass

open Ir

/-! ## The records of a body -/

def Node.record? : Node → Option Record
  | .orig _ => none
  | .new n => n.record?

def Body.records (body : Body) : List Record := body.flatMap fun nodes => nodes.filterMap Node.record?

/-- The instruction a line is about. -/
def Purpose.inst? : Purpose → Option Nat
  | first id | operand id _ | result id | ret id => some id
  | entryStatus | entry | argument _ => none

/-- The lines about an instruction, in order. -/
def Body.linesOf (body : Body) (id : Nat) : List Record := body.records.filter fun r => r.purpose.inst? = some id

/-- The lines at the entry. -/
def Body.entryLines (body : Body) : List Record := body.records.filter fun r => r.purpose.inst? = none

/-- `runOnBasicBlock` prints lines for the instruction: it is a phi, or one
behind the first insertion point that the walk traces. -/
def Config.covers (cfg : Config) (I : Inst) : Bool := I.isPhi || (!I.isEHPad && cfg.traces I)

/-- The lines about an instruction of a block with this id. -/
def Config.instRecords (cfg : Config) (bbid : String) (I : Inst) : List Record :=
  if cfg.covers I then headRecords bbid I ++ resultRecords I else []

def blockRecords (c : Ctx) (b : BlockRef) : List Record :=
  (if b.index = 0 ∧ c.func.name ≠ "main" then entryRecords c else []) ++
    if c.cfg.tracesBlocks c.func.name then (c.func.code b.index).flatMap (c.cfg.instRecords (c.blockId b)) else []

theorem toEvents_inj {rs rs' : List Record} (h : toEvents (ε := Empty) rs = toEvents rs') : rs = rs' :=
  List.map_injective_iff.2 (fun _ _ h => Event.record.inj h) h

theorem calleeEvents_nil (I : Inst) : calleeEvents (fun _ => ([] : List Empty)) I = [] := by
  unfold calleeEvents
  split <;> rfl

theorem events_eq_records : ∀ nodes : List Node,
    events (fun _ => ([] : List Empty)) nodes = toEvents (nodes.filterMap Node.record?)
  | [] => rfl
  | .orig I :: nodes => by
    have hcons : events (fun _ => ([] : List Empty)) (.orig I :: nodes) =
        calleeEvents (fun _ => []) I ++ events (fun _ => []) nodes := rfl
    rw [hcons, calleeEvents_nil, List.nil_append, events_eq_records nodes, List.filterMap_cons_none rfl]
  | .new n :: nodes => by
    have hcons : events (fun _ => ([] : List Empty)) (.new n :: nodes) =
        (n.record?.map Event.record).toList ++ events (fun _ => []) nodes := rfl
    rw [hcons, events_eq_records nodes]
    cases hr : n.record? with
    | none =>
      rw [List.filterMap_cons_none (show (Node.new n).record? = none from hr)]
      rfl
    | some r =>
      rw [List.filterMap_cons_some (show (Node.new n).record? = some r from hr)]
      rfl

/-- The first instructions of a block are phis, then perhaps a pad, and the
others are behind the first insertion point. -/
theorem flatMap_pastPhis {ω : Type} {insts : List Inst} {f : Inst → List ω}
    (hpad : ∀ I, I.isPhi = false → I.isEHPad = true → f I = []) :
    insts.flatMap f = (insts.takeWhile Inst.isPhi).flatMap f ++ (pastPhis insts).flatMap f := by
  obtain ⟨pads, hsplit, hpads⟩ := exists_pads insts
  have hnil : pads.flatMap f = [] := List.flatMap_eq_nil_iff.2 fun I hI => hpad I (hpads I hI).1 (hpads I hI).2
  conv_lhs => rw [← hsplit]
  rw [List.flatMap_append, List.flatMap_append, hnil, List.append_nil]

/-- Behind the first insertion point there is no pad. -/
theorem isEHPad_of_mem_pastPhis {F : Function} (hF : F.WF) {b : Nat} {I : Inst} (h : I ∈ pastPhis (F.code b)) :
    I.isEHPad = false := by
  have hb : b < F.blocks.length := Function.lt_length_of_mem_code ((pastPhis_suffix _).subset h)
  have hpads := (hF.block_wf hb).pads
  rw [← Function.code_eq_insts hb] at hpads
  unfold pastPhis at h
  split at h
  · cases h
  · rename_i J rest hdrop
    rw [hdrop] at hpads
    split at h
    · exact hpads I h
    · rename_i hJ
      rcases List.mem_cons.1 h with rfl | h
      · simpa using hJ
      · exact hpads I h

theorem blockStream_eq_records {c : Ctx} (hF : c.func.WF) (b : BlockRef) :
    blockStream (fun _ => ([] : List Empty)) c b = toEvents (blockRecords c b) := by
  have hphi : ∀ I ∈ (c.func.code b.index).takeWhile Inst.isPhi,
      phiStream (ε := Empty) (c.blockId b) I = toEvents (c.cfg.instRecords (c.blockId b) I) := by
    intro I hI
    have hphi : I.isPhi = true := List.mem_takeWhile_imp hI
    rw [phiStream, Config.instRecords, if_pos (by simp [Config.covers, hphi])]
  have hinst : ∀ I ∈ pastPhis (c.func.code b.index), instStream (fun _ => ([] : List Empty)) c (c.blockId b) I =
      toEvents (c.cfg.instRecords (c.blockId b) I) := by
    intro I hI
    have hcovers : c.cfg.covers I = c.cfg.traces I := by
      simp [Config.covers, hF.isPhi_of_mem_pastPhis hI, isEHPad_of_mem_pastPhis hF hI]
    rw [instStream, calleeEvents_nil, Config.instRecords, hcovers]
    split <;> simp
  have hpad : ∀ I, I.isPhi = false → I.isEHPad = true → c.cfg.instRecords (c.blockId b) I = [] := by
    intro I hI hpad
    exact if_neg (by simp [Config.covers, hI, hpad])
  have hto : ∀ (insts : List Inst) (f : Inst → List Record),
      toEvents (ε := Empty) (insts.flatMap f) = insts.flatMap fun I => toEvents (f I) := fun _ _ => List.map_flatMap
  rw [blockStream, blockRecords, toEvents_append, flatMap_pastPhis hpad]
  congr 1
  · split <;> rfl
  · split
    · rw [toEvents_append, hto, hto, List.flatMap_congr hphi, List.flatMap_congr hinst]
    · rw [List.flatMap_congr fun I _ => calleeEvents_nil I]
      simp

/-- The records of an instrumented function, block by block. -/
theorem Planned.records {cfg : Config} {F : Function} {c : Ctx} {p : Plan} (hF : F.WF) (h : Planned cfg F c p) :
    (instrumented F p).records = F.blockRefs.flatMap (blockRecords c) := by
  have hlen : (instrumented F p).length = F.blocks.length := by simp [instrumented, render]
  have hbody : instrumented F p = F.blockRefs.map fun b => (instrumented F p).block b.index := by
    refine List.ext_getElem (by simp [hlen, Function.blockRefs]) fun i hi _ => ?_
    simp [Function.blockRefs, Body.block, hi]
  have hfunc := h.func
  subst hfunc
  rw [Body.records, hbody, List.flatMap_map]
  refine List.flatMap_congr fun b hb => toEvents_inj ?_
  rw [← events_eq_records, h.events_block _ hF hb, blockStream_eq_records hF]

/-! ## The lines about an instruction -/

/-- Where only one of the elements gives something. -/
theorem flatMap_eq_of_unique {α ω : Type} {f : α → List ω} {x : α} :
    ∀ {l : List α}, l.Nodup → x ∈ l → (∀ y ∈ l, y ≠ x → f y = []) → l.flatMap f = f x
  | y :: l, hnd, hx, hf => by
    obtain ⟨hy, hnd⟩ := List.nodup_cons.1 hnd
    by_cases hyx : y = x
    · subst hyx
      have hrest : l.flatMap f = [] := by
        rw [List.flatMap_eq_nil_iff]
        exact fun z hz => hf z (List.mem_cons_of_mem _ hz) fun h => hy (h ▸ hz)
      rw [List.flatMap_cons, hrest, List.append_nil]
    · have hxl : x ∈ l := (List.mem_cons.1 hx).resolve_left fun h => hyx h.symm
      rw [List.flatMap_cons, hf y List.mem_cons_self hyx, List.nil_append,
        flatMap_eq_of_unique hnd hxl fun z hz => hf z (List.mem_cons_of_mem _ hz)]

theorem inst?_of_mem_instRecords {cfg : Config} {bbid : String} {I : Inst} {r : Record}
    (h : r ∈ cfg.instRecords bbid I) : r.purpose.inst? = some I.id := by
  unfold Config.instRecords at h
  split at h
  · simp only [headRecords, operandRecords, statusRecords, resultRecords, List.cons_append, List.append_assoc,
      List.mem_cons, List.mem_append, List.mem_map] at h
    rcases h with rfl | ⟨x, -, rfl⟩ | h | h
    · rfl
    · rfl
    · split at h
      · rw [List.mem_singleton.1 h]; rfl
      · cases h
    · split at h
      · rw [List.mem_singleton.1 h]; rfl
      · cases h
  · cases h

theorem inst?_of_mem_entryRecords {c : Ctx} {r : Record} (h : r ∈ entryRecords c) : r.purpose.inst? = none := by
  unfold entryRecords at h
  rcases List.mem_append.1 h with h | h
  · split at h
    · simp only [List.mem_cons, List.not_mem_nil, or_false] at h
      rcases h with rfl | rfl <;> rfl
    · cases h
  · obtain ⟨a, -, h⟩ := List.mem_flatMap.1 h
    unfold argRecords at h
    split at h
    · rw [List.mem_singleton.1 h]; rfl
    · cases h

theorem filter_instRecords {cfg : Config} {bbid : String} {I : Inst} {id : Nat} :
    (cfg.instRecords bbid I).filter (fun r => r.purpose.inst? = some id) =
      if I.id = id then cfg.instRecords bbid I else [] := by
  split
  · rename_i hid
    rw [List.filter_eq_self]
    exact fun r hr => by simp [inst?_of_mem_instRecords hr, hid]
  · rename_i hid
    rw [List.filter_eq_nil_iff]
    exact fun r hr => by simp [inst?_of_mem_instRecords hr, hid]

/-- The lines of a block about an instruction. -/
theorem filter_blockRecords {c : Ctx} {b : BlockRef} {id : Nat} :
    (blockRecords c b).filter (fun r => r.purpose.inst? = some id) =
      if c.cfg.tracesBlocks c.func.name then
        (c.func.code b.index).flatMap fun I => if I.id = id then c.cfg.instRecords (c.blockId b) I else []
      else [] := by
  have hentry : (entryRecords c).filter (fun r => r.purpose.inst? = some id) = [] := by
    rw [List.filter_eq_nil_iff]
    exact fun r hr => by simp [inst?_of_mem_entryRecords hr]
  rw [blockRecords, List.filter_append]
  have hnil : (if b.index = 0 ∧ c.func.name ≠ "main" then entryRecords c else []).filter
      (fun r => r.purpose.inst? = some id) = [] := by
    split
    · exact hentry
    · rfl
  rw [hnil, List.nil_append]
  split
  · rw [List.filter_flatMap]
    exact List.flatMap_congr fun I _ => filter_instRecords
  · rfl

theorem blockRefs_nodup (F : Function) : F.blockRefs.Nodup :=
  (Function.blockRefs_pairwise F).imp fun hlt h => absurd hlt (by rw [h]; exact Nat.lt_irrefl _)

/-- The lines about an instruction are its own. -/
theorem Planned.linesOf {cfg : Config} {F : Function} {c : Ctx} {p : Plan} (hF : F.WF) (h : Planned cfg F c p)
    (htr : cfg.tracesBlocks F.name = true) {b : BlockRef} (hb : b ∈ F.blockRefs) {I : Inst} (hI : I ∈ F.code b.index) :
    (instrumented F p).linesOf I.id = cfg.instRecords (c.blockId b) I := by
  have hcfg := h.cfg
  have hrecords := h.records hF
  have hfunc := h.func
  subst hcfg hfunc
  have hself : ((c.func.code b.index).flatMap fun J => if J.id = I.id then c.cfg.instRecords (c.blockId b) J else []) =
      c.cfg.instRecords (c.blockId b) I := by
    have hnd := hF.code_ids_nodup b.index
    rw [flatMap_eq_of_unique hnd.of_map hI, if_pos rfl]
    exact fun J hJ hne => if_neg fun h => hne (List.inj_on_of_nodup_map hnd hJ hI h)
  rw [Body.linesOf, hrecords, List.filter_flatMap, flatMap_eq_of_unique (blockRefs_nodup c.func) hb,
    filter_blockRecords, if_pos htr, hself]
  intro b' hb' hne
  rw [filter_blockRecords, if_pos htr, List.flatMap_eq_nil_iff]
  intro J hJ
  refine if_neg fun hid => hne ?_
  have hJI := hF.eq_of_id (Function.mem_insts_of_mem_code hJ) (Function.mem_insts_of_mem_code hI) hid
  subst hJI
  have hindex := hF.block_unique hJ hI
  obtain ⟨i, hi, rfl⟩ := List.mem_mapIdx.1 hb
  obtain ⟨j, hj, rfl⟩ := List.mem_mapIdx.1 hb'
  have hij : j = i := hindex
  subst hij
  rfl

/-- A traced instruction has all its lines. -/
theorem Planned.exists_linesOf {cfg : Config} {F : Function} {c : Ctx} {p : Plan} (hF : F.WF) (h : Planned cfg F c p)
    (htr : cfg.tracesBlocks F.name = true) {I : Inst} (hI : I ∈ F.insts) (hcovers : cfg.covers I = true) :
    ∃ bbid, (instrumented F p).linesOf I.id =
      ⟨.first I.id, .first bbid⟩ :: (operandRecords I ++ statusRecords I) ++ resultRecords I := by
  obtain ⟨b, hb, hmem⟩ := Function.exists_code_of_mem_insts hI
  have href : (⟨b, F.blocks[b].name⟩ : BlockRef) ∈ F.blockRefs := List.mem_mapIdx.2 ⟨b, hb, rfl⟩
  refine ⟨c.blockId ⟨b, F.blocks[b].name⟩, ?_⟩
  rw [h.linesOf hF htr href hmem, Config.instRecords, if_pos hcovers]
  rfl

/-! ## The lines at the entry -/

/-- A line is printed for the argument. -/
def printsArg (a : Argument) : Bool := isHandled a.ty.typeID || a.ty.typeID = .label

theorem flatMap_argRecords (isEntryBlock : Bool) (as : List Argument) :
    as.flatMap (argRecords isEntryBlock) = (as.filter printsArg).map fun a =>
      ⟨.argument a.index, .param (if isEntryBlock then a.index + 1 else forwardLine)⟩ := by
  induction as with
  | nil => rfl
  | cons a as ih =>
    rw [List.flatMap_cons, ih, argRecords]
    by_cases ha : printsArg a = true
    · rw [List.filter_cons_of_pos ha, if_pos (by simpa [printsArg] using ha)]
      rfl
    · rw [List.filter_cons_of_neg ha, if_neg (by simpa [printsArg] using ha)]
      rfl

theorem Planned.entryLines {cfg : Config} {F : Function} {c : Ctx} {p : Plan} (hF : F.WF) (h : Planned cfg F c p) :
    (instrumented F p).entryLines = if F.name ≠ "main" then entryRecords c else [] := by
  have hrecords := h.records hF
  have hfunc := h.func
  subst hfunc
  have hblock : ∀ b, (blockRecords c b).filter (fun r => r.purpose.inst? = none) =
      if b.index = 0 ∧ c.func.name ≠ "main" then entryRecords c else [] := by
    intro b
    have hinsts : (if c.cfg.tracesBlocks c.func.name then
        (c.func.code b.index).flatMap (c.cfg.instRecords (c.blockId b)) else []).filter
          (fun r => r.purpose.inst? = none) = [] := by
      rw [List.filter_eq_nil_iff]
      intro r hr
      split at hr
      · obtain ⟨I, -, hr⟩ := List.mem_flatMap.1 hr
        simp [inst?_of_mem_instRecords hr]
      · cases hr
    rw [blockRecords, List.filter_append, hinsts, List.append_nil]
    split
    · rw [List.filter_eq_self]
      exact fun r hr => by simp [inst?_of_mem_entryRecords hr]
    · rfl
  have hlen : 0 < c.func.blocks.length := List.length_pos_iff.2 (blocks_ne_nil hF)
  have hentry : (⟨0, c.func.blocks[0].name⟩ : BlockRef) ∈ c.func.blockRefs := List.mem_mapIdx.2 ⟨0, hlen, rfl⟩
  rw [Body.entryLines, hrecords, List.filter_flatMap, flatMap_eq_of_unique (blockRefs_nodup c.func) hentry, hblock]
  · simp
  · intro b hb hne
    rw [hblock]
    refine if_neg fun h => hne ?_
    obtain ⟨i, hi, rfl⟩ := List.mem_mapIdx.1 hb
    have hi0 : i = 0 := h.1
    subst hi0
    rfl

/-! ## Coverage -/

/-- A traced instruction has its first line, one line for each operand a line
is printed for, and one for its result if that is of a type a line is printed
for. After the entry line of a top-level function come the lines of its
arguments; there are as many as it says just when all are of such types. -/
theorem runOnFunction_lines {cfg : Config} {F : Function} {body : Body} (hF : F.WF)
    (hC : cfg.isCFunction F.name = true) (h : runOnFunction cfg F = .ok body) :
    (cfg.tracesBlocks F.name = true → ∀ I ∈ F.insts, cfg.covers I = true → ∃ bbid,
      body.linesOf I.id =
        ⟨.first I.id, .first bbid⟩ :: (operandRecords I ++ statusRecords I) ++ resultRecords I) ∧
    (F.name ≠ "main" → cfg.isTrackedFunction F.name = true → cfg.isToplevelMode = true → ∃ args,
      body.entryLines = ⟨.entryStatus, .status 0⟩ :: ⟨.entry, .entry F.params.length⟩ :: args ∧
      args = (F.args.filter printsArg).map (fun a => ⟨.argument a.index, .param (a.index + 1)⟩) ∧
      (args.length = F.params.length ↔ ∀ a ∈ F.args, printsArg a = true)) := by
  obtain ⟨c, p, hp, rfl⟩ := runOnFunction_ok hF hC h
  constructor
  · intro htr I hI hcovers
    exact hp.exists_linesOf hF htr hI hcovers
  · intro hmain htracked htop
    have hentry := hp.entryLines hF
    rw [if_pos hmain] at hentry
    have hcfg := hp.cfg
    have hfunc := hp.func
    subst hcfg hfunc
    have hblock : c.isEntryBlock = true := by simp [Ctx.isEntryBlock, htracked, htop]
    refine ⟨_, ?_, rfl, ?_⟩
    · rw [hentry, entryRecords, flatMap_argRecords, hblock]
      rfl
    · have hlen : c.func.params.length = c.func.args.length := by simp [Function.args]
      rw [List.length_map, hlen, List.length_filter_eq_length_iff]

section

variable {F : Function} {I : Inst}

/-- No operand has two lines. -/
theorem printedOperands_nodup (hF : F.WF) (hI : I ∈ F.insts) : ((printedOperands I).map Prod.snd).Nodup := by
  have hrange : ∀ vs : List Value, vs.zipIdx.map Prod.snd = List.range vs.length := fun vs => by
    rw [List.zipIdx_map_snd, List.range_eq_range']
  unfold printedOperands
  split
  · rename_i callee hcallee
    have hlen := (hF.calls I hI callee hcallee).1
    rw [List.map_cons, hrange, List.nodup_cons, List.mem_range, List.length_take]
    exact ⟨by omega, List.nodup_range⟩
  · rw [Ctx.operandsDescending, List.map_reverse, hrange, List.nodup_reverse]
    exact List.nodup_range

theorem filter_operandRecords (I : Inst) (k : Nat) :
    (operandRecords I).filter (fun r => r.purpose = .operand I.id k) =
      (printedOperands I).flatMap fun x =>
        if x.2 = k ∧ printsOperand I x.1 = true then [⟨.operand I.id k, .param (k + 1)⟩] else [] := by
  unfold operandRecords
  induction printedOperands I with
  | nil => rfl
  | cons x xs ih =>
    rw [List.flatMap_cons, ← ih, List.filter_cons]
    by_cases hx : printsOperand I x.1 = true
    · rw [if_pos hx, List.map_cons, List.filter_cons]
      by_cases hk : x.2 = k
      · simp [hk, hx]
      · simp [hk]
    · rw [if_neg hx]
      simp [hx]

/-- An operand has its line just when it is printed. -/
theorem operandLine_iff (hF : F.WF) (hI : I ∈ F.insts) (k : Nat) :
    (operandRecords I).filter (fun r => r.purpose = .operand I.id k) = [⟨.operand I.id k, .param (k + 1)⟩] ↔
      ∃ v, (v, k) ∈ printedOperands I ∧ printsOperand I v = true := by
  rw [filter_operandRecords]
  constructor
  · intro h
    have hmem : (⟨.operand I.id k, .param (k + 1)⟩ : Record) ∈ (printedOperands I).flatMap fun x =>
        if x.2 = k ∧ printsOperand I x.1 = true then [⟨.operand I.id k, .param (k + 1)⟩] else [] := by
      rw [h]
      exact List.mem_singleton_self _
    obtain ⟨⟨v, k'⟩, hv, hline⟩ := List.mem_flatMap.1 hmem
    obtain ⟨⟨rfl, hprints⟩, -⟩ := List.mem_ite_nil_right.1 hline
    exact ⟨v, hv, hprints⟩
  · rintro ⟨v, hv, hprints⟩
    have hnd := printedOperands_nodup hF hI
    rw [flatMap_eq_of_unique hnd.of_map hv, if_pos ⟨rfl, hprints⟩]
    exact fun x hx hne => if_neg fun hk => hne (List.inj_on_of_nodup_map hnd hx hv hk.1)

/-- All operands have their lines just when the call passes no more arguments
than there are formal parameters, and the types are such. -/
theorem operandLines_iff (hF : F.WF) (hI : I ∈ F.insts) :
    (∀ k < I.operands.length, ∃ v, (v, k) ∈ printedOperands I ∧ printsOperand I v = true) ↔
      (∀ callee, I.calledFunction = some callee → I.operands.length = callee.numParams + 1) ∧
        ∀ v ∈ I.operands, printsOperand I v = true := by
  constructor
  · intro hall
    constructor
    · intro callee hcallee
      have hlen := (hF.calls I hI callee hcallee).1
      by_contra hne
      -- The first argument behind the formal parameters.
      obtain ⟨v, hv, -⟩ := hall callee.numParams hlen
      rw [printedOperands, hcallee] at hv
      rcases List.mem_cons.1 hv with hv | hv
      · have := (Prod.mk.inj hv).2
        omega
      · have := (List.mem_zipIdx' hv).1
        rw [List.length_take] at this
        omega
    · intro v hv
      obtain ⟨k, hk, rfl⟩ := List.mem_iff_getElem.1 hv
      obtain ⟨w, hw, hprints⟩ := hall k hk
      have hget := mem_printedOperands hF hI hw
      rw [List.getElem?_eq_getElem hk] at hget
      rwa [Option.some.inj hget]
  · rintro ⟨hcall, hprints⟩ k hk
    refine ⟨I.operands[k], ?_, hprints _ (List.getElem_mem hk)⟩
    unfold printedOperands
    split
    · rename_i callee hcallee
      have hlen := hcall callee hcallee
      obtain ⟨-, hlast⟩ := hF.calls I hI callee hcallee
      by_cases hk' : k < callee.numParams
      · refine List.mem_cons_of_mem _ (List.mem_zipIdx_iff_getElem?.2 ?_)
        rw [List.getElem?_take_of_lt hk', List.getElem?_eq_getElem hk]
      · have hkl : k = I.operands.length - 1 := by omega
        rw [List.getLast?_eq_getElem?, ← hkl, List.getElem?_eq_getElem hk] at hlast
        rw [Option.some.inj hlast, hkl]
        exact List.mem_cons_self
    · rw [Ctx.operandsDescending, List.mem_reverse, List.mem_zipIdx_iff_getElem?]
      exact List.getElem?_eq_getElem hk

end

/-- Nothing is dropped: a traced instruction has one line for each operand,
of a call for each argument and for the callee, and one for its result, and
the entry line of a top-level function says how many lines of parameters come
after it. -/
structure DropsNothing (cfg : Config) (F : Function) (body : Body) : Prop where
  operand : cfg.tracesBlocks F.name = true → ∀ I ∈ F.insts, cfg.covers I = true → ∀ k < I.operands.length,
    (body.linesOf I.id).filter (fun r => r.purpose = .operand I.id k) = [⟨.operand I.id k, .param (k + 1)⟩]
  result : cfg.tracesBlocks F.name = true → ∀ I ∈ F.insts, cfg.covers I = true → I.ty ≠ .void →
    (body.linesOf I.id).filter (fun r => r.purpose = .result I.id) = [⟨.result I.id, .param resultLine⟩]
  params : F.name ≠ "main" → cfg.isTrackedFunction F.name = true → cfg.isToplevelMode = true → ∃ n args,
    body.entryLines = ⟨.entryStatus, .status 0⟩ :: ⟨.entry, .entry n⟩ :: args ∧
      (∀ r ∈ args, ∃ num, r.line = .param num) ∧ args.length = n

section

variable {I : Inst} {rs : List Record} {bbid : String}
  (h : rs = ⟨.first I.id, .first bbid⟩ :: (operandRecords I ++ statusRecords I) ++ resultRecords I)
include h

theorem filter_operand_linesOf (k : Nat) : rs.filter (fun r => r.purpose = .operand I.id k) =
    (operandRecords I).filter fun r => r.purpose = .operand I.id k := by
  have hstatus : (statusRecords I).filter (fun r => r.purpose = .operand I.id k) = [] := by
    unfold statusRecords
    split <;> simp
  have hresult : (resultRecords I).filter (fun r => r.purpose = .operand I.id k) = [] := by
    unfold resultRecords
    split <;> simp
  rw [h, List.filter_append, List.filter_cons_of_neg (by simp), List.filter_append, hstatus, hresult, List.append_nil,
    List.append_nil]

theorem filter_result_linesOf : rs.filter (fun r => r.purpose = .result I.id) = resultRecords I := by
  have hoperand : (operandRecords I).filter (fun r => r.purpose = .result I.id) = [] := by
    rw [operandRecords, List.filter_map, List.map_eq_nil_iff, List.filter_eq_nil_iff]
    simp
  have hstatus : (statusRecords I).filter (fun r => r.purpose = .result I.id) = [] := by
    unfold statusRecords
    split <;> simp
  have hresult : (resultRecords I).filter (fun r => r.purpose = .result I.id) = resultRecords I := by
    unfold resultRecords
    split <;> simp
  rw [h, List.filter_append, List.filter_cons_of_neg (by simp), List.filter_append, hoperand, hstatus, hresult,
    List.append_nil, List.nil_append]

end

/-- **Coverage.** Nothing is dropped just when no traced call passes more
arguments than its callee has formal parameters, and the operands and results
of what is traced, and the arguments of a top-level function, are of types a
line is printed for. -/
theorem dropsNothing_iff {cfg : Config} {F : Function} {body : Body} (hF : F.WF)
    (hC : cfg.isCFunction F.name = true) (h : runOnFunction cfg F = .ok body) : DropsNothing cfg F body ↔
      (cfg.tracesBlocks F.name = true → ∀ I ∈ F.insts, cfg.covers I = true →
        (∀ callee, I.calledFunction = some callee → I.operands.length = callee.numParams + 1) ∧
        (∀ v ∈ I.operands, printsOperand I v = true) ∧ (I.ty ≠ .void → isHandled I.ty.typeID = true)) ∧
      (F.name ≠ "main" → cfg.isTrackedFunction F.name = true → cfg.isToplevelMode = true →
        ∀ a ∈ F.args, printsArg a = true) := by
  obtain ⟨hlines, hentry⟩ := runOnFunction_lines hF hC h
  constructor
  · rintro ⟨hoperand, hresult, hparams⟩
    constructor
    · intro htr I hI hcovers
      obtain ⟨bbid, hown⟩ := hlines htr I hI hcovers
      have hops := (operandLines_iff hF hI).1 fun k hk => by
        rw [← operandLine_iff hF hI, ← filter_operand_linesOf hown]
        exact hoperand htr I hI hcovers k hk
      refine ⟨hops.1, hops.2, fun hty => ?_⟩
      have hline := hresult htr I hI hcovers hty
      rw [filter_result_linesOf hown, resultRecords] at hline
      by_contra hno
      rw [if_neg hno] at hline
      cases hline
    · intro hmain htracked htop
      obtain ⟨args, hargs, -, hlen⟩ := hentry hmain htracked htop
      obtain ⟨n, args', hargs', -, hn⟩ := hparams hmain htracked htop
      rw [hargs] at hargs'
      injection hargs' with _ hargs'
      injection hargs' with hcount hargs'
      injection hcount with _ hcount
      injection hcount with hcount
      subst hcount hargs'
      exact hlen.1 hn
  · rintro ⟨hinsts, hargs⟩
    refine ⟨fun htr I hI hcovers k hk => ?_, fun htr I hI hcovers hty => ?_, fun hmain htracked htop => ?_⟩
    · obtain ⟨bbid, hown⟩ := hlines htr I hI hcovers
      obtain ⟨hcall, hprints, -⟩ := hinsts htr I hI hcovers
      rw [filter_operand_linesOf hown, operandLine_iff hF hI]
      exact (operandLines_iff hF hI).2 ⟨hcall, hprints⟩ k hk
    · obtain ⟨bbid, hown⟩ := hlines htr I hI hcovers
      rw [filter_result_linesOf hown, resultRecords, if_pos ((hinsts htr I hI hcovers).2.2 hty)]
    · obtain ⟨args, hentry, hargs', hlen⟩ := hentry hmain htracked htop
      refine ⟨_, args, hentry, fun r hr => ?_, hlen.2 (hargs hmain htracked htop)⟩
      rw [hargs'] at hr
      obtain ⟨a, -, rfl⟩ := List.mem_map.1 hr
      exact ⟨_, rfl⟩

theorem dropsNothing_iff_addOne : DropsNothing topConfig addOne addOneBody :=
  (dropsNothing_iff addOne_wf (by decide) runOnFunction_addOne).2 ⟨by decide, by decide⟩

def printfCall : Inst :=
  ⟨0, "n", i32, .call (some ⟨"printf", 1⟩),
    [.arg ⟨0, "format", .pointer (.integer 8)⟩, .arg ⟨1, "x", i32⟩, .function "printf"], some 1⟩

/-- `void top(char *format, int x) { printf(format, x); }` -/
def printArgument : Function where
  name := "top"
  params := [("format", .pointer (.integer 8)), ("x", i32)]
  blocks := [⟨"entry", [printfCall, ⟨1, "", .void, .ret, [], some 1⟩]⟩]
  loops := ⟨fun _ => 0, fun _ => none, fun _ => none⟩

/-- The variadic argument has no line. -/
theorem not_dropsNothing_printArgument : printArgument.WF ∧ topConfig.isCFunction printArgument.name = true ∧
    topConfig.tracesBlocks printArgument.name = true ∧ topConfig.covers printfCall = true ∧
    ∃ body, runOnFunction topConfig printArgument = .ok body ∧
      (∀ r ∈ body.linesOf printfCall.id, r.purpose ≠ .operand printfCall.id 1) ∧
      ¬ DropsNothing topConfig printArgument body := by
  refine ⟨Function.wf_of_isLocal (by decide), by decide, by decide, by decide, _, rfl, by decide, fun h => ?_⟩
  have hline := h.operand (by decide) printfCall (by decide) (by decide) 1 (by decide)
  revert hline
  decide

end LlvmTracer.Pass
