/-
The logger calls a block of an instrumented function makes, in order.

An execution of a block gives events: the records of the inserted calls, and
where the block calls a function, whatever stream comes from the callee.
`events_block` says that the events of every block are `blockStream`, and so
those of every path are the streams of its blocks.
-/
import LlvmTracer.Pass.Walk

namespace LlvmTracer.Pass

open Ir Emit

/-! ## Records -/

/-- What tells the calls of the logger apart: a first line's block id, a
parameter line's number, a status update's opcode, the entry line's count. -/
inductive Line
  | first (bbid : String)
  | param (num : Nat)
  | status (opcode : Nat)
  | entry (numParams : Nat)
  deriving DecidableEq, Repr

structure Record where
  purpose : Purpose
  line : Line
  deriving DecidableEq, Repr

def LogCall.line : LogCall → Line
  | log0 _ _ bbid _ _ _ _ => .first bbid
  | logEntry _ numParams => .entry numParams
  | updateStatus _ opcode _ _ => .status opcode
  | param _ paramNum _ _ _ _ _ _ => .param paramNum

def NewInst.record? (n : NewInst) : Option Record := n.call?.map fun k => ⟨n.purpose, k.line⟩

/-! ## What an instruction's lines are -/

/-- The lines for the operands of types a line is printed for. -/
def operandRecords (I : Inst) : List Record :=
  ((printedOperands I).filter fun x => printsOperand I x.1).map fun x => ⟨.operand I.id x.2, .param (x.2 + 1)⟩

def statusRecords (I : Inst) : List Record := if I.kind = .ret then [⟨.ret I.id, .status 1⟩] else []

def headRecords (bbid : String) (I : Inst) : List Record :=
  ⟨.first I.id, .first bbid⟩ :: (operandRecords I ++ statusRecords I)

def resultRecords (I : Inst) : List Record :=
  if isHandled I.ty.typeID then [⟨.result I.id, .param resultLine⟩] else []

def argRecords (isEntryBlock : Bool) (a : Argument) : List Record :=
  if isHandled a.ty.typeID ∨ a.ty.typeID = .label then
    [⟨.argument a.index, .param (if isEntryBlock then a.index + 1 else forwardLine)⟩]
  else []

/-- The lines at the entry of a function other than `main`. -/
def entryRecords (c : Ctx) : List Record :=
  (if c.isEntryBlock then
    [⟨.entryStatus, .status 0⟩, ⟨.entry, .entry c.func.params.length⟩]
  else []) ++ c.func.args.flatMap (argRecords c.isEntryBlock)

/-! ## Records of edits -/

def allRecords (es : List Edit) : List Record := es.filterMap fun e => e.inst.record?

/-- The records of what is inserted before an instruction. -/
def recordsBefore (es : List Edit) (id : Nat) : List Record := (editsBefore es id).filterMap NewInst.record?

/-- Everything goes to `pt`, but for what goes to the front and logs nothing. -/
def AtPoint (pt : Point) (es : List Edit) : Prop :=
  ∀ e ∈ es, e.point = pt ∨ e.point = .front ∧ e.inst.record? = none

@[simp] theorem allRecords_nil : allRecords [] = [] := rfl

@[simp] theorem allRecords_append (es es' : List Edit) : allRecords (es ++ es') = allRecords es ++ allRecords es' :=
  List.filterMap_append

theorem recordsBefore_append (es es' : List Edit) (id : Nat) :
    recordsBefore (es ++ es') id = recordsBefore es id ++ recordsBefore es' id := by
  rw [recordsBefore, editsBefore_append, List.filterMap_append]
  rfl

theorem AtPoint.append {pt : Point} {es es' : List Edit} (h : AtPoint pt es) (h' : AtPoint pt es') :
    AtPoint pt (es ++ es') := by
  intro e he
  rcases List.mem_append.1 he with he | he
  · exact h e he
  · exact h' e he

theorem recordsBefore_atPoint {id : Nat} : ∀ {es : List Edit}, AtPoint (.before (.orig id)) es →
    recordsBefore es id = allRecords es
  | [], _ => rfl
  | e :: es, h => by
    have ih := recordsBefore_atPoint fun e' he' => h e' (List.mem_cons_of_mem e he')
    have hone : recordsBefore [e] id = allRecords [e] := by
      rcases h e List.mem_cons_self with hp | ⟨hp, hr⟩
      · simp [recordsBefore, editsBefore, allRecords, hp, List.filterMap_cons]
      · simp [recordsBefore, editsBefore, allRecords, hp, hr]
    rw [← List.singleton_append, recordsBefore_append, allRecords_append, hone, ih]

theorem recordsBefore_of_ne {pt : Point} {id : Nat} {es : List Edit} (h : AtPoint pt es)
    (hne : pt ≠ .before (.orig id)) : recordsBefore es id = [] := by
  rw [recordsBefore, editsBefore_eq_nil]
  · rfl
  · intro e he hp
    rcases h e he with hp' | ⟨hp', -⟩
    · exact hne (hp' ▸ hp)
    · rw [hp'] at hp
      cases hp

/-! ## Lines -/

theorem LineEdits.atPoint {pt : Point} {pu : Purpose} {p : InstOperandParams} {g g' : Gen} {es : List Edit}
    (h : LineEdits pt pu p g es g') : AtPoint pt es := by
  intro e he
  cases h with
  | direct => exact .inl (by rw [List.mem_singleton.1 he])
  | cast =>
    simp only [List.mem_cons, List.not_mem_nil, or_false] at he
    rcases he with rfl | rfl <;> exact .inl rfl
  | vector =>
    simp only [vectorEdits, List.mem_cons, List.not_mem_nil, or_false] at he
    rcases he with rfl | rfl | rfl <;> exact .inl rfl
  | newVector =>
    simp only [vectorEdits, List.mem_cons, List.not_mem_nil, or_false] at he
    rcases he with rfl | rfl | rfl | rfl
    · exact .inr ⟨rfl, rfl⟩
    · exact .inl rfl
    · exact .inl rfl
    · exact .inl rfl
  | unhandled => cases he

/-- One record, or none for a type that is not handled. -/
theorem LineEdits.records {pt : Point} {pu : Purpose} {p : InstOperandParams} {g g' : Gen} {es : List Edit}
    (h : LineEdits pt pu p g es g') :
    allRecords es = if p.value = none ∨ isHandled p.datatype = true then [⟨pu, .param p.paramNum⟩] else [] := by
  cases h with
  | direct logger x hp _ =>
    rw [if_pos hp]
    rfl
  | cast logger op v _ _ ht =>
    rw [if_pos (.inr ht)]
    rfl
  | vector v key buffer _ ht =>
    rw [if_pos (.inr (by simp [ht, isHandled]))]
    rfl
  | newVector v key _ ht =>
    rw [if_pos (.inr (by simp [ht, isHandled]))]
    rfl
  | unhandled hv ht =>
    rw [if_neg (by simp [hv, ht])]
    rfl

theorem OperandLines.records {c : Ctx} {pt : Point} {I : Inst} {xs : List (Value × Nat)} {g g' : Gen} {es : List Edit}
    (h : OperandLines c pt I xs g es g') :
    AtPoint pt es ∧
      allRecords es = (xs.filter fun x => printsOperand I x.1).map fun x => ⟨.operand I.id x.2, .param (x.2 + 1)⟩ := by
  induction h with
  | nil => exact ⟨by simp [AtPoint], rfl⟩
  | @cons v _ _ _ _ _ _ _ _ hspec hline _ ih =>
    refine ⟨hline.atPoint.append ih.1, ?_⟩
    rw [allRecords_append, ih.2, hline.records, hspec.paramNum]
    by_cases hp : printsOperand I v = true
    · rw [if_pos (hspec.printed.2 hp), List.filter_cons_of_pos (by exact hp)]
      rfl
    · rw [if_neg fun h => hp (hspec.printed.1 h), List.filter_cons_of_neg (by exact hp)]
      rfl

/-- An instruction's edits are its first line and operands, and then its
result's line. -/
theorem InstEdits.split {c : Ctx} {I : Inst} {pt next : Point} {env : InstEnv} {g g' : Gen} {es : List Edit}
    (h : InstEdits c pt next I env g es g') :
    ∃ head result, es = head ++ result ∧ AtPoint pt head ∧ AtPoint next result ∧
      allRecords head = headRecords env.bbid I ∧ allRecords result = resultRecords I ∧ (I.ty = .void → result = []) := by
  obtain ⟨opcode, ops, g₁, status, g₂, result, rfl, hops, hstatus, hresult⟩ := h.parts
  refine ⟨firstEdit c pt I env opcode g.serial :: (ops ++ status), result, by simp, ?_, ?_, ?_, ?_, ?_⟩
  · have hfirst : AtPoint pt [firstEdit c pt I env opcode g.serial] := by
      intro e he
      exact .inl (by rw [List.mem_singleton.1 he]; rfl)
    have hst : AtPoint pt status := by
      intro e he
      cases hstatus with
      | none => cases he
      | ret => exact .inl (by rw [List.mem_singleton.1 he])
    exact hfirst.append (hops.records.1.append hst)
  · cases hresult with
    | void => simp [AtPoint]
    | line _ _ hline => exact hline.atPoint
  · have hst : allRecords status = statusRecords I := by
      cases hstatus with
      | none hk => exact (if_neg hk).symm
      | ret hk => exact (if_pos hk).symm
    have hcons : firstEdit c pt I env opcode g.serial :: (ops ++ status) =
        [firstEdit c pt I env opcode g.serial] ++ (ops ++ status) := rfl
    rw [hcons, allRecords_append, allRecords_append, hops.records.2, hst]
    rfl
  · cases hresult with
    | void hty => simp [resultRecords, hty, Ty.typeID, isHandled, TypeID.isFloatingPoint]
    | line hty hspec hline =>
      rw [hline.records, hspec.paramNum, hspec.datatype, hspec.value, resultRecords]
      simp
  · intro hty
    cases hresult with
    | void => rfl
    | line hne => exact absurd hty hne

/-! ## Events -/

/-- What is seen of an execution: a record, or something from a called function. -/
inductive Event (ε : Type)
  | record (r : Record)
  | foreign (x : ε)

section

variable {ε : Type} (κ : Nat → List ε)

/-- The stream of the function a call or an invoke calls. -/
def calleeEvents (I : Inst) : List (Event ε) := if I.isCall || I.isInvoke then (κ I.id).map .foreign else []

def nodeEvents : Node → List (Event ε)
  | .orig I => calleeEvents κ I
  | .new n => (n.record?.map Event.record).toList

/-- The events of executing these in order. -/
def events (nodes : List Node) : List (Event ε) := nodes.flatMap (nodeEvents κ)

def toEvents (rs : List Record) : List (Event ε) := rs.map .record

/-- The id of a block, as its first lines carry it. -/
def Ctx.blockId (c : Ctx) (b : BlockRef) : String :=
  match c.makeValueId (.block b) with
  | .ok id => id
  | .error _ => ""

def phiStream (bbid : String) (I : Inst) : List (Event ε) := toEvents (headRecords bbid I ++ resultRecords I)

def instStream (c : Ctx) (bbid : String) (I : Inst) : List (Event ε) :=
  if c.cfg.traces I then toEvents (headRecords bbid I) ++ calleeEvents κ I ++ toEvents (resultRecords I)
  else calleeEvents κ I

def blockStream (c : Ctx) (b : BlockRef) : List (Event ε) :=
  (if b.index = 0 ∧ c.func.name ≠ "main" then toEvents (entryRecords c) else []) ++
    if c.cfg.tracesBlocks c.func.name then
      ((c.func.code b.index).takeWhile Inst.isPhi).flatMap (phiStream (c.blockId b)) ++
        (pastPhis (c.func.code b.index)).flatMap (instStream κ c (c.blockId b))
    else (pastPhis (c.func.code b.index)).flatMap (calleeEvents κ)

@[simp] theorem toEvents_nil : toEvents (ε := ε) [] = [] := rfl

@[simp] theorem toEvents_append (rs rs' : List Record) :
    toEvents (ε := ε) (rs ++ rs') = toEvents rs ++ toEvents rs' := List.map_append

theorem events_append (l l' : List Node) : events κ (l ++ l') = events κ l ++ events κ l' := List.flatMap_append

theorem events_new (ns : List NewInst) : events κ (ns.map .new) = toEvents (ns.filterMap NewInst.record?) := by
  induction ns with
  | nil => rfl
  | cons n ns ih =>
    have hcons : events κ ((n :: ns).map .new) = (n.record?.map Event.record).toList ++ events κ (ns.map .new) := rfl
    rw [hcons, ih]
    cases hr : n.record? with
    | none => simp [hr]
    | some r => simp [hr, toEvents]

theorem events_renderInsts (es : List Edit) (insts : List Inst) :
    events κ (renderInsts es insts) = insts.flatMap fun I => toEvents (recordsBefore es I.id) ++ calleeEvents κ I := by
  induction insts with
  | nil => rfl
  | cons I insts ih =>
    have hcons : ∀ l : List Node, events κ (Node.orig I :: l) = calleeEvents κ I ++ events κ l := fun _ => rfl
    rw [renderInsts_cons, events_append, events_new, hcons, ih, List.flatMap_cons, List.append_assoc]
    rfl

theorem bbid_of_setEnv {c : Ctx} {slots : List (Nat × String)} {b : BlockRef} {I : Inst} {env env' : InstEnv}
    (h : c.setEnv slots b I env = .ok env') : env'.bbid = c.blockId b := by
  obtain ⟨bbid, hb, h⟩ := Run.bind_eq_ok.1 h
  obtain ⟨id, -, h⟩ := Run.bind_eq_ok.1 h
  cases h
  simp [Ctx.blockId, hb]

theorem PhiEdits.records {c : Ctx} {pt : Point} {b : BlockRef} {phis : List Inst} {env env' : InstEnv} {g g' : Gen}
    {es : List Edit} (h : PhiEdits c pt b phis env g es env' g') :
    AtPoint pt es ∧ toEvents (ε := ε) (allRecords es) = phis.flatMap (phiStream (c.blockId b)) := by
  induction h with
  | nil => exact ⟨by simp [AtPoint], rfl⟩
  | cons henv hedits _ ih =>
    obtain ⟨head, result, rfl, hhead, hresult, hrh, hrr, -⟩ := hedits.split
    refine ⟨(hhead.append hresult).append ih.1, ?_⟩
    rw [allRecords_append, allRecords_append, hrh, hrr, bbid_of_setEnv henv, toEvents_append, ih.2]
    rfl

theorem recordsBefore_eq_nil {es : List Edit} {id : Nat} (h : ∀ e ∈ es, e.point ≠ .before (.orig id)) :
    recordsBefore es id = [] := by
  rw [recordsBefore, editsBefore_eq_nil h]
  rfl

/-- The edits of the rest of a block are not before an instruction ahead of it. -/
theorem RestEdits.recordsBefore_nil {c : Ctx} {b : BlockRef} {insts : List Inst} {env : InstEnv} {g g' : Gen}
    {es : List Edit} (h : RestEdits c b insts env g es g') {id : Nat} (hid : id ∉ insts.map Inst.id) :
    recordsBefore es id = [] := by
  refine recordsBefore_eq_nil fun e he hp => ?_
  rcases h.points e he with hf | ⟨I, hI, hb⟩
  · rw [hf] at hp
    cases hp
  · rw [hb] at hp
    have heq : I.id = id := by simpa using hp
    exact hid (heq ▸ List.mem_map_of_mem hI)

/-- What goes before the first of some instructions comes first of all. -/
theorem events_prepend {J : Inst} {rest : List Inst} {es₁ es : List Edit} (hnd : ((J :: rest).map Inst.id).Nodup)
    (hpt : AtPoint (.before (.orig J.id)) es₁) :
    ((J :: rest).flatMap fun K => toEvents (ε := ε) (recordsBefore (es₁ ++ es) K.id) ++ calleeEvents κ K) =
      toEvents (allRecords es₁) ++
        (J :: rest).flatMap fun K => toEvents (recordsBefore es K.id) ++ calleeEvents κ K := by
  obtain ⟨hJ, -⟩ := List.nodup_cons.1 hnd
  have hhead : recordsBefore (es₁ ++ es) J.id = allRecords es₁ ++ recordsBefore es J.id := by
    rw [recordsBefore_append, recordsBefore_atPoint hpt]
  have htail : ∀ K ∈ rest, recordsBefore (es₁ ++ es) K.id = recordsBefore es K.id := by
    intro K hK
    have hne : J.id ≠ K.id := fun h => hJ (h ▸ List.mem_map_of_mem hK)
    rw [recordsBefore_append, recordsBefore_of_ne hpt (by simpa using hne), List.nil_append]
  rw [List.flatMap_cons, List.flatMap_cons, hhead, toEvents_append, List.append_assoc, List.append_assoc,
    List.flatMap_congr fun K hK => by rw [htail K hK], List.append_assoc]

/-- An instruction's result line is the first thing before the next instruction. -/
theorem events_result {I : Inst} {rest : List Inst} {result es : List Edit} (hnd : ((I :: rest).map Inst.id).Nodup)
    (hresult : AtPoint (nextPoint I (nextRef rest)) result) (hrec : allRecords result = resultRecords I)
    (hvoid : I.ty = .void → result = []) (hrest : I.ty ≠ .void → rest ≠ []) :
    (rest.flatMap fun K => toEvents (ε := ε) (recordsBefore (result ++ es) K.id) ++ calleeEvents κ K) =
      toEvents (resultRecords I) ++ rest.flatMap fun K => toEvents (recordsBefore es K.id) ++ calleeEvents κ K := by
  cases rest with
  | nil =>
    have hty : I.ty = .void := by
      by_contra hty
      exact hrest hty rfl
    rw [← hrec, hvoid hty]
    rfl
  | cons J rest =>
    obtain ⟨-, hnd⟩ := List.nodup_cons.1 hnd
    rw [events_prepend κ hnd hresult, hrec]

theorem RestEdits.events {c : Ctx} {b : BlockRef} {insts : List Inst} {env : InstEnv} {g g' : Gen} {es : List Edit}
    (h : RestEdits c b insts env g es g') (hnd : (insts.map Inst.id).Nodup) :
    (insts.flatMap fun I => toEvents (recordsBefore es I.id) ++ calleeEvents κ I) =
      insts.flatMap (instStream κ c (c.blockId b)) := by
  induction h with
  | nil => rfl
  | @skip I rest _ _ _ _ es htr _ hrest ih =>
    obtain ⟨hI, hnd⟩ := List.nodup_cons.1 hnd
    have hnil : recordsBefore es I.id = [] := hrest.recordsBefore_nil hI
    have hstream : instStream κ c (c.blockId b) I = calleeEvents κ I := by simp [instStream, htr]
    rw [List.flatMap_cons, List.flatMap_cons, ih hnd, hnil, hstream]
    rfl
  | @traced I rest _ env' _ _ _ e₁ es' htr henv hne hedits hrest ih =>
    obtain ⟨hI, hnd'⟩ := List.nodup_cons.1 hnd
    obtain ⟨head, result, rfl, hhead, hresult, hrh, hrr, hvoid⟩ := hedits.split
    have hself : recordsBefore (head ++ result ++ es') I.id = headRecords (c.blockId b) I := by
      rw [List.append_assoc, recordsBefore_append, recordsBefore_append, recordsBefore_atPoint hhead, hrh,
        hrest.recordsBefore_nil hI, bbid_of_setEnv henv, List.append_nil]
      have hresult' : recordsBefore result I.id = [] := by
        by_cases hty : I.ty = .void
        · rw [hvoid hty]
          rfl
        · cases rest with
          | nil => exact absurd rfl (hne hty)
          | cons J rest =>
            refine recordsBefore_of_ne hresult ?_
            have : J.id ≠ I.id := fun h => hI (by simp [h])
            simpa [nextPoint, nextRef] using this
      rw [hresult', List.append_nil]
    have hothers : ∀ K ∈ rest, recordsBefore (head ++ result ++ es') K.id = recordsBefore (result ++ es') K.id := by
      intro K hK
      have hne' : I.id ≠ K.id := fun h => hI (h ▸ List.mem_map_of_mem hK)
      rw [List.append_assoc, recordsBefore_append, recordsBefore_of_ne hhead (by simpa using hne'), List.nil_append]
    have hstream : instStream κ c (c.blockId b) I =
        toEvents (headRecords (c.blockId b) I) ++ calleeEvents κ I ++ toEvents (resultRecords I) := by
      simp [instStream, htr]
    rw [List.flatMap_cons, List.flatMap_cons, hself, hstream, List.flatMap_congr fun K hK => by rw [hothers K hK],
      events_result κ hnd hresult hrr hvoid hne, ih hnd']
    simp

/-- Before the walk's first instruction a block has phis, and a pad. -/
theorem calleeEvents_before {insts before : List Inst} (h : before ++ pastPhis insts = insts) :
    before.flatMap (calleeEvents κ) = [] := by
  rw [List.flatMap_eq_nil_iff]
  intro I hI
  obtain ⟨hcall, hinvoke⟩ := not_isCall_of_isPhi_or_isEHPad (isPhi_or_isEHPad h hI)
  simp [calleeEvents, hcall, hinvoke]

/-- The events of a block's own instrumentation. -/
theorem BlockEdits.events {c : Ctx} (hF : c.func.WF) {b : BlockRef} {g g' : Gen} {es : List Edit}
    (h : BlockEdits c b g es g') :
    ((c.func.code b.index).flatMap fun I => toEvents (recordsBefore es I.id) ++ calleeEvents κ I) =
      if c.cfg.tracesBlocks c.func.name then
        ((c.func.code b.index).takeWhile Inst.isPhi).flatMap (phiStream (c.blockId b)) ++
          (pastPhis (c.func.code b.index)).flatMap (instStream κ c (c.blockId b))
      else (pastPhis (c.func.code b.index)).flatMap (calleeEvents κ) := by
  obtain ⟨before, hcode⟩ := pastPhis_suffix (c.func.code b.index)
  have hnd := hF.code_ids_nodup b.index
  rw [← hcode, List.map_append] at hnd
  have hbefore : ∀ es : List Edit, (∀ I ∈ before, recordsBefore es I.id = []) →
      (before.flatMap fun I => toEvents (recordsBefore es I.id) ++ calleeEvents κ I) = [] := by
    intro es hes
    rw [List.flatMap_congr fun I hI => by rw [hes I hI, toEvents_nil, List.nil_append]]
    exact calleeEvents_before κ hcode
  have hsplit : ∀ f : Inst → List (Event ε), (c.func.code b.index).flatMap f =
      before.flatMap f ++ (pastPhis (c.func.code b.index)).flatMap f := by
    intro f
    rw [← List.flatMap_append, hcode]
  rw [hsplit]
  cases h with
  | untraced htr =>
    rw [hbefore [] fun _ _ => rfl, htr]
    rfl
  | @traced env g₁ _ es es' htr hne hphis hrest =>
    have hdisj : ∀ I ∈ before, I.id ∉ (pastPhis (c.func.code b.index)).map Inst.id := fun I hI hmem =>
      List.disjoint_of_nodup_append hnd (List.mem_map_of_mem hI) hmem
    obtain ⟨hat, hrec⟩ := hphis.records (ε := ε)
    have hrestev := hrest.events κ hnd.of_append_right
    rw [htr, if_pos rfl, ← hrec]
    cases hpast : pastPhis (c.func.code b.index) with
    | nil =>
      rw [hpast] at hrest hphis hcode
      rw [hne hpast] at hphis
      cases hphis
      cases hrest
      rw [List.append_nil, hbefore [] fun _ _ => rfl]
      rfl
    | cons J rest =>
      rw [hpast] at hrest hrestev hat hdisj hnd
      rw [hbefore (es ++ es'), List.nil_append, events_prepend κ hnd.of_append_right hat, hrestev]
      intro I hI
      have hne : J.id ≠ I.id := fun h => hdisj I hI (by simp [h])
      rw [recordsBefore_append, recordsBefore_of_ne hat (by simpa [phiPoint, nextRef] using hne),
        hrest.recordsBefore_nil (hdisj I hI)]
      rfl

/-- A block's insertions before its instructions are those of its own edits. -/
theorem BlocksEdits.block {c : Ctx} (hF : c.func.WF) : ∀ {bs : List BlockRef} {g g' : Gen} {es : List Edit},
    BlocksEdits c bs g es g' → bs.Pairwise (fun a b => a.index < b.index) → ∀ b ∈ bs, ∃ g₁ es₁ g₂,
      BlockEdits c b g₁ es₁ g₂ ∧ ∀ I ∈ c.func.code b.index, editsBefore es I.id = editsBefore es₁ I.id := by
  intro bs g g' es h
  have hother : ∀ {b b' : BlockRef} {g g' : Gen} {es : List Edit}, b.index ≠ b'.index → BlockEdits c b' g es g' →
      ∀ I ∈ c.func.code b.index, editsBefore es I.id = [] := by
    intro b b' g g' es hne hb I hI
    refine editsBefore_eq_nil fun e he hp => ?_
    rcases hb.points e he with hf | ⟨J, hJ, hb⟩
    · rw [hf] at hp
      cases hp
    · rw [hb] at hp
      have := hF.eq_of_id (Function.mem_insts_of_mem_code hJ) (Function.mem_insts_of_mem_code hI) (by simpa using hp)
      subst this
      exact hne (hF.block_unique hI hJ)
  have hothers : ∀ {b : BlockRef} {bs : List BlockRef} {g g' : Gen} {es : List Edit}, (∀ b' ∈ bs, b.index ≠ b'.index) →
      BlocksEdits c bs g es g' → ∀ I ∈ c.func.code b.index, editsBefore es I.id = [] := by
    intro b bs g g' es hne hbs I hI
    induction hbs with
    | nil => rfl
    | cons hb _ ih =>
      rw [editsBefore_append, hother (hne _ List.mem_cons_self) hb I hI,
        ih fun b' hb' => hne b' (List.mem_cons_of_mem _ hb')]
      rfl
  induction h with
  | nil => simp
  | cons hb hbs ih =>
    intro hpair b' hb'
    obtain ⟨hlt, hpair⟩ := List.pairwise_cons.1 hpair
    rcases List.mem_cons.1 hb' with rfl | hmem
    · refine ⟨_, _, _, hb, fun I hI => ?_⟩
      rw [editsBefore_append, hothers (fun b'' hb'' => Nat.ne_of_lt (hlt b'' hb'')) hbs I hI, List.append_nil]
    · obtain ⟨g₁, es₁, g₂, hblock, heq⟩ := ih hpair b' hmem
      refine ⟨g₁, es₁, g₂, hblock, fun I hI => ?_⟩
      rw [editsBefore_append, hother (Nat.ne_of_gt (hlt b' hmem)) hb I hI, heq I hI, List.nil_append]

/-! ## The entry -/

theorem ArgLines.records {pt : Point} {isEntryBlock : Bool} {as : List Argument} {g g' : Gen} {es : List Edit}
    (h : ArgLines pt isEntryBlock as g es g') :
    AtPoint pt es ∧ allRecords es = as.flatMap (argRecords isEntryBlock) := by
  induction h with
  | nil => exact ⟨by simp [AtPoint], rfl⟩
  | @cons a _ p _ _ _ _ _ hspec hline _ ih =>
    refine ⟨hline.atPoint.append ih.1, ?_⟩
    have hprinted : (p.value = none ∨ isHandled p.datatype = true) ↔
        (isHandled a.ty.typeID = true ∨ a.ty.typeID = .label) := by
      rw [hspec.value, hspec.datatype, or_comm]
      split <;> simp_all
    rw [allRecords_append, ih.2, List.flatMap_cons, hline.records, hspec.paramNum, argRecords]
    simp only [hprinted]

theorem EntryEdits.records {c : Ctx} {pt : Point} {g g' : Gen} {es : List Edit} (h : EntryEdits c pt g es g') :
    AtPoint pt es ∧ allRecords es = entryRecords c := by
  obtain ⟨args, rfl, hargs⟩ := h.parts
  have hhead : AtPoint pt (entryHead c pt g.serial) ∧ allRecords (entryHead c pt g.serial) =
      if c.isEntryBlock then [⟨.entryStatus, .status 0⟩, ⟨.entry, .entry c.func.params.length⟩] else [] := by
    unfold entryHead
    split
    · refine ⟨fun e he => ?_, rfl⟩
      simp only [List.mem_cons, List.not_mem_nil, or_false] at he
      rcases he with rfl | rfl <;> exact .inl rfl
    · exact ⟨by simp [AtPoint], rfl⟩
  refine ⟨hhead.1.append hargs.records.1, ?_⟩
  rw [allRecords_append, hhead.2, hargs.records.2]
  rfl

/-- The front of the entry block logs exactly the entry's lines. -/
theorem records_entryGroup {pt : Point} {es : List Edit} (hpt : pt ≠ .front) (h : AtPoint pt es) :
    (entryGroup es).filterMap NewInst.record? = allRecords es := by
  rw [entryGroup, List.filterMap_filterMap, allRecords]
  refine List.filterMap_congr fun e he => ?_
  rcases h e he with hp | ⟨hp, hr⟩
  · simp [hp, hpt]
  · simp [hp, hr]

theorem records_editsAtFront {es : List Edit} (h : ∀ e ∈ es, e.point = .front → e.inst.record? = none) :
    (editsAtFront es).filterMap NewInst.record? = [] := by
  rw [List.filterMap_eq_nil_iff]
  intro n hn
  exact h _ (mem_editsAtFront.1 hn) rfl

/-- What is at the entry block's front logs nothing. -/
theorem Made.record?_of_front {g g' : Gen} {es : List Edit} (h : Made g es g') {e : Edit} (he : e ∈ es)
    (hp : e.point = .front) : e.inst.record? = none := by
  have halloca := isVectorBuffer_alloca (h.front e he hp)
  cases hop : e.inst.op <;> simp_all [NewInst.isAlloca, NewInst.record?, NewInst.call?]

theorem Planned.entry_records {cfg : Config} {F : Function} {c : Ctx} {p : Plan} (h : Planned cfg F c p) :
    (editsAtFront p.entry ++ editsAtFront p.blocks ++ entryGroup p.entry).filterMap NewInst.record? =
      if F.name ≠ "main" then entryRecords c else [] := by
  obtain ⟨g, hblocks, hentry⟩ := h.parts
  have hfront : (editsAtFront p.blocks).filterMap NewInst.record? = [] :=
    records_editsAtFront fun e he hp => hblocks.made.record?_of_front he hp
  rw [List.filterMap_append, List.filterMap_append, hfront]
  rcases hentry with ⟨hmain, hnil⟩ | ⟨hmain, g', hentry⟩
  · rw [hnil, if_neg (not_not.2 hmain)]
    rfl
  · obtain ⟨hat, hrec⟩ := hentry.records
    have hentryFront : (editsAtFront p.entry).filterMap NewInst.record? = [] := by
      refine records_editsAtFront fun e he hp => ?_
      rcases hat e he with hp' | ⟨-, hr⟩
      · rw [hp] at hp'
        cases hp'
      · exact hr
    rw [hentryFront, records_entryGroup (by simp) hat, hrec, if_pos hmain]
    rfl

/-- **The events of a block** of the instrumented function are its stream. -/
theorem Planned.events_block {cfg : Config} {F : Function} {c : Ctx} {p : Plan} (hF : F.WF) (h : Planned cfg F c p)
    {b : BlockRef} (hb : b ∈ F.blockRefs) : events κ ((instrumented F p).block b.index) = blockStream κ c b := by
  have hentry := h.entry_records
  have hfunc := h.func
  subst hfunc
  obtain ⟨g, hblocks, -⟩ := h.parts
  obtain ⟨g₁, es₁, g₂, hblock, heq⟩ := hblocks.block hF (Function.blockRefs_pairwise _) b hb
  have hown := hblock.events κ hF
  have hsame : ∀ I ∈ c.func.code b.index, recordsBefore p.blocks I.id = recordsBefore es₁ I.id := by
    intro I hI
    rw [recordsBefore, heq I hI]
    rfl
  rw [instrumented, block_render (Function.mem_blockRefs hb), events_append, events_renderInsts,
    List.flatMap_congr fun I hI => by rw [hsame I hI], hown, blockStream]
  have hfront : events κ (if b.index = 0 then
      (editsAtFront p.entry ++ editsAtFront p.blocks ++ entryGroup p.entry).map Node.new else []) =
      if b.index = 0 ∧ c.func.name ≠ "main" then toEvents (entryRecords c) else [] := by
    by_cases h0 : b.index = 0
    · rw [if_pos h0, events_new, hentry]
      by_cases hmain : c.func.name = "main" <;> simp [h0, hmain]
    · rw [if_neg h0, if_neg fun h => h0 h.1]
      rfl
  rw [hfront]

end

end LlvmTracer.Pass
