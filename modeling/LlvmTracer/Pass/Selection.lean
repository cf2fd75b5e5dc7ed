/-
Which functions of a module get lines, with several functions in `WORKLOAD`
and without `-trace-all-callees`.

`runOnBasicBlock` leaves the blocks of other functions alone;
`runOnFunctionEntry` does not look at the mode and prints their arguments. Of
the tracked functions those that are not in C, and the accelerator's own, are
left alone too.
-/
import LlvmTracer.Pass.Coverage

namespace LlvmTracer.Pass

open Ir

/-! ## Modules -/

/-- The pass on the functions of a module; with each, what becomes of it. -/
def runOnFunctions (cfg : Config) : List Function → Except Refusal (List (Function × Body))
  | [] => .ok []
  | F :: Fs =>
    runOnFunction cfg F >>= fun body => runOnFunctions cfg Fs >>= fun rest => .ok ((F, body) :: rest)

theorem mem_runOnFunctions {cfg : Config} : ∀ {Fs : List Function} {l : List (Function × Body)},
    runOnFunctions cfg Fs = .ok l → ∀ {F : Function} {body : Body}, (F, body) ∈ l →
      F ∈ Fs ∧ runOnFunction cfg F = .ok body
  | [], _, h, _, _, hmem => by
    cases h
    cases hmem
  | G :: Fs, _, h, _, _, hmem => by
    obtain ⟨b, hb, h⟩ := Run.bind_eq_ok.1 h
    obtain ⟨rest, hrest, h⟩ := Run.bind_eq_ok.1 h
    cases h
    rcases List.mem_cons.1 hmem with heq | hmem
    · cases heq
      exact ⟨List.mem_cons_self, hb⟩
    · obtain ⟨hF, hbody⟩ := mem_runOnFunctions hrest hmem
      exact ⟨List.mem_cons_of_mem _ hF, hbody⟩

theorem exists_mem_runOnFunctions {cfg : Config} : ∀ {Fs : List Function} {l : List (Function × Body)},
    runOnFunctions cfg Fs = .ok l → ∀ {F : Function}, F ∈ Fs → ∃ body, (F, body) ∈ l
  | G :: Fs, _, h, F, hF => by
    obtain ⟨b, hb, h⟩ := Run.bind_eq_ok.1 h
    obtain ⟨rest, hrest, h⟩ := Run.bind_eq_ok.1 h
    cases h
    rcases List.mem_cons.1 hF with rfl | hF
    · exact ⟨b, List.mem_cons_self⟩
    · obtain ⟨body, hbody⟩ := exists_mem_runOnFunctions hrest hF
      exact ⟨body, List.mem_cons_of_mem _ hbody⟩

/-! ## The mode -/

/-- Several functions in `WORKLOAD`, and no `-trace-all-callees`. -/
theorem isToplevelMode_of_several {workload : Option String} {subprograms : List Subprogram} {cfg : Config}
    (hinit : doInitialization workload false subprograms = some cfg)
    (hseveral : 1 < (getUserWorkloadFunctions workload).length) : cfg.isToplevelMode = false := by
  unfold doInitialization at hinit
  simp only at hinit
  split at hinit
  · cases hinit
  · rw [foldlM_addSubprogram_isToplevelMode hinit]
    simp only [Bool.false_eq_true, or_false, decide_eq_false_iff_not]
    omega

/-! ## Functions without lines -/

/-- A line of the trace: a first line or a parameter line. -/
def Record.isLine (r : Record) : Bool :=
  match r.line with
  | .first _ | .param _ => true
  | .status _ | .entry _ => false

/-- What a tracked function has: the lines of its traced instructions. -/
def HasLines (cfg : Config) (F : Function) (body : Body) : Prop :=
  ∀ I ∈ F.insts, cfg.covers I = true → ∃ bbid,
    body.linesOf I.id = ⟨.first I.id, .first bbid⟩ :: (operandRecords I ++ statusRecords I) ++ resultRecords I

/-- Lines are in tracked functions only, and all of them. -/
def OnlyTracked (cfg : Config) (l : List (Function × Body)) : Prop :=
  (∀ F body, (F, body) ∈ l → cfg.isTrackedFunction F.name = false → ∀ r ∈ body.records, r.isLine = false) ∧
  ∀ F body, (F, body) ∈ l → cfg.isTrackedFunction F.name = true → HasLines cfg F body

theorem records_ofFunction (F : Function) : (Body.ofFunction F).records = [] := by
  rw [Body.records, List.flatMap_eq_nil_iff]
  intro nodes hnodes
  obtain ⟨b, -, rfl⟩ := List.mem_map.1 hnodes
  rw [List.filterMap_map, List.filterMap_eq_nil_iff]
  intro I _
  rfl

/-- An untracked function has the lines of its arguments. -/
theorem records_of_untracked {cfg : Config} {F : Function} {body : Body} (hF : F.WF) (hmode : cfg.isToplevelMode = false)
    (htracked : cfg.isTrackedFunction F.name = false) (h : runOnFunction cfg F = .ok body) :
    body.records = if cfg.isCFunction F.name = true ∧ F.name ≠ "main" then
      (F.args.filter printsArg).map fun a => ⟨.argument a.index, .param forwardLine⟩ else [] := by
  by_cases hC : cfg.isCFunction F.name = true
  · obtain ⟨c, p, hp, rfl⟩ := runOnFunction_ok hF hC h
    have hentry := hp.entryLines hF
    have hrecords := hp.records hF
    have hcfg := hp.cfg
    have hfunc := hp.func
    subst hcfg hfunc
    have htr : c.cfg.tracesBlocks c.func.name = false := by simp [Config.tracesBlocks, hmode, htracked]
    have hblock : c.isEntryBlock = false := by simp [Ctx.isEntryBlock, hmode]
    have hall : (instrumented c.func p).records = (instrumented c.func p).entryLines := by
      rw [Body.entryLines, eq_comm, List.filter_eq_self, hrecords]
      intro r hr
      obtain ⟨b, -, hr⟩ := List.mem_flatMap.1 hr
      rw [blockRecords, htr] at hr
      simp only [Bool.false_eq_true, if_false, List.append_nil] at hr
      split at hr
      · simp [inst?_of_mem_entryRecords hr]
      · cases hr
    rw [hall, hentry]
    by_cases hmain : c.func.name = "main"
    · simp [hmain]
    · rw [if_pos hmain, if_pos ⟨hC, hmain⟩, entryRecords, hblock, flatMap_argRecords]
      rfl
  · rw [runOnFunction, if_neg hC] at h
    cases h
    rw [records_ofFunction, if_neg fun h => hC h.1]

/-- The instructions of a function whose blocks are left alone have no lines. -/
theorem linesOf_eq_nil {cfg : Config} {F : Function} {body : Body} (hF : F.WF)
    (hleft : ¬ (cfg.isCFunction F.name = true ∧ cfg.tracesBlocks F.name = true)) (h : runOnFunction cfg F = .ok body)
    (id : Nat) : body.linesOf id = [] := by
  by_cases hC : cfg.isCFunction F.name = true
  · obtain ⟨c, p, hp, rfl⟩ := runOnFunction_ok hF hC h
    have hrecords := hp.records hF
    have hcfg := hp.cfg
    have hfunc := hp.func
    subst hcfg hfunc
    have htr : ¬ c.cfg.tracesBlocks c.func.name = true := fun htr => hleft ⟨hC, htr⟩
    rw [Body.linesOf, hrecords, List.filter_flatMap, List.flatMap_eq_nil_iff]
    intro b _
    rw [filter_blockRecords, if_neg htr]
  · rw [runOnFunction, if_neg hC] at h
    cases h
    rw [Body.linesOf, records_ofFunction, List.filter_nil]

theorem hasLines_iff {cfg : Config} {F : Function} {body : Body} (hF : F.WF) (h : runOnFunction cfg F = .ok body) :
    HasLines cfg F body ↔ ∀ I ∈ F.insts, cfg.covers I = true →
      cfg.isCFunction F.name = true ∧ cfg.tracesBlocks F.name = true := by
  constructor
  · intro hlines I hI hcovers
    by_contra hleft
    obtain ⟨bbid, hbbid⟩ := hlines I hI hcovers
    rw [linesOf_eq_nil hF hleft h] at hbbid
    cases hbbid
  · intro hcond I hI hcovers
    obtain ⟨hC, htr⟩ := hcond I hI hcovers
    obtain ⟨c, p, hp, rfl⟩ := runOnFunction_ok hF hC h
    exact hp.exists_linesOf hF htr hI hcovers

/-- **Which functions get lines.** With several functions in `WORKLOAD` and
without `-trace-all-callees`, lines are in tracked functions only, and all of
them, just when no other C function but `main` has an argument a line is
printed for, and a tracked function with a traced instruction is in C and none
of those `runOnBasicBlock` leaves alone. -/
theorem onlyTracked_iff {workload : Option String} {subprograms : List Subprogram} {cfg : Config} {Fs : List Function}
    {l : List (Function × Body)} (hinit : doInitialization workload false subprograms = some cfg)
    (hseveral : 1 < (getUserWorkloadFunctions workload).length) (hF : ∀ F ∈ Fs, F.WF)
    (h : runOnFunctions cfg Fs = .ok l) :
    OnlyTracked cfg l ↔
      (∀ F ∈ Fs, cfg.isCFunction F.name = true → F.name ≠ "main" → cfg.isTrackedFunction F.name = false →
        ∀ a ∈ F.args, printsArg a = false) ∧
      ∀ F ∈ Fs, cfg.isTrackedFunction F.name = true → ∀ I ∈ F.insts, cfg.covers I = true →
        cfg.isCFunction F.name = true ∧ isSkippedFunction F.name = false := by
  have hmode := isToplevelMode_of_several hinit hseveral
  have htraces {F : Function} (htracked : cfg.isTrackedFunction F.name = true) :
      cfg.tracesBlocks F.name = true ↔ isSkippedFunction F.name = false := by
    simp [Config.tracesBlocks, htracked]
  refine and_congr ⟨fun honly => ?_, fun hargs => ?_⟩ ⟨fun hall => ?_, fun hall => ?_⟩
  · intro F hmem hC hmain htracked a ha
    obtain ⟨body, hbody⟩ := exists_mem_runOnFunctions h hmem
    have hrecords := records_of_untracked (hF F hmem) hmode htracked (mem_runOnFunctions h hbody).2
    rw [if_pos ⟨hC, hmain⟩] at hrecords
    by_contra hprints
    have hline : (⟨.argument a.index, .param forwardLine⟩ : Record) ∈ body.records := by
      rw [hrecords]
      exact List.mem_map.2 ⟨a, List.mem_filter.2 ⟨ha, by simpa using hprints⟩, rfl⟩
    exact absurd (honly F body hbody htracked _ hline) (by simp [Record.isLine])
  · intro F body hbody htracked r hr
    obtain ⟨hmem, hrun⟩ := mem_runOnFunctions h hbody
    rw [records_of_untracked (hF F hmem) hmode htracked hrun] at hr
    split at hr
    · rename_i hC
      obtain ⟨a, ha, -⟩ := List.mem_map.1 hr
      obtain ⟨ha, hprints⟩ := List.mem_filter.1 ha
      rw [hargs F hmem hC.1 hC.2 htracked a ha] at hprints
      cases hprints
    · cases hr
  · intro F hmem htracked I hI hcovers
    obtain ⟨body, hbody⟩ := exists_mem_runOnFunctions h hmem
    have hlines := (hasLines_iff (hF F hmem) (mem_runOnFunctions h hbody).2).1 (hall F body hbody htracked) I hI hcovers
    exact ⟨hlines.1, (htraces htracked).1 hlines.2⟩
  · intro F body hbody htracked
    obtain ⟨hmem, hrun⟩ := mem_runOnFunctions h hbody
    refine (hasLines_iff (hF F hmem) hrun).2 fun I hI hcovers => ?_
    obtain ⟨hC, hskip⟩ := hall F hmem htracked I hI hcovers
    exact ⟨hC, (htraces htracked).2 hskip⟩

/-- A function that returns at once. -/
def returning (name : String) (params : List (String × Ty)) : Function where
  name
  params
  blocks := [⟨"entry", [⟨0, "", .void, .ret, [], none⟩]⟩]
  loops := ⟨fun _ => 0, fun _ => none, fun _ => none⟩

/-- `WORKLOAD=f,g`, in a module without `g`. -/
def severalConfig : Config := ⟨false, ["f"], [("main", "main"), ("h", "h"), ("f", "f")]⟩

theorem doInitialization_several :
    doInitialization (some "f,g") false [⟨"f", ""⟩, ⟨"h", ""⟩, ⟨"main", ""⟩] = some severalConfig := by decide

/-- A helper without arguments, and `main`. -/
theorem onlyTracked_iff_noArgs : ∃ l,
    runOnFunctions severalConfig [returning "f" [("x", i32)], returning "h" [], returning "main" [("argc", i32)]] =
      .ok l ∧ OnlyTracked severalConfig l := by
  have hF : ∀ F ∈ [returning "f" [("x", i32)], returning "h" [], returning "main" [("argc", i32)]], F.WF := by
    intro F hF
    simp only [List.mem_cons, List.not_mem_nil, or_false] at hF
    rcases hF with rfl | rfl | rfl <;> exact Function.wf_of_isLocal (by decide)
  exact ⟨_, rfl, (onlyTracked_iff doInitialization_several (by decide) hF rfl).2 (by decide)⟩

/-- A helper `h(int x)`: its argument has a line. -/
theorem not_onlyTracked_helperArg : ∃ l,
    doInitialization (some "f,g") false [⟨"f", ""⟩, ⟨"h", ""⟩, ⟨"main", ""⟩] = some severalConfig ∧
    runOnFunctions severalConfig [returning "f" [], returning "h" [("x", i32)]] = .ok l ∧
    ¬ OnlyTracked severalConfig l := by
  refine ⟨_, doInitialization_several, rfl, fun h => ?_⟩
  have hline := h.1 (returning "h" [("x", i32)]) _ (List.mem_cons_of_mem _ List.mem_cons_self) (by decide)
    ⟨.argument 0, .param forwardLine⟩ (by decide)
  cases hline

end LlvmTracer.Pass
