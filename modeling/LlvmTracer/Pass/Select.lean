/-
What `full_trace.cpp` traces: the tables of function names, and the tests on
a function's name. A name's characters are its bytes.
-/
import LlvmTracer.Ir.Syntax
import LlvmTracer.Lib.Text

namespace LlvmTracer.Pass

open Ir

/-- The intrinsics to trace, by prefix. -/
def intrinsics : List String :=
  ["llvm.memcpy", "llvm.memmove", "llvm.memset", "llvm.sqrt", "llvm.powi", "llvm.sin", "llvm.cos", "llvm.pow",
    "llvm.exp", "llvm.exp2", "llvm.log", "llvm.log10", "llvm.log2", "llvm.fma", "llvm.fabs", "llvm.copysign",
    "llvm.floor", "llvm.ceil", "llvm.trunc", "llvm.rint", "llvm.nearbyint", "llvm.round", "llvm.bswap",
    "llvm.ctpop", "llvm.ctlz", "llvm.cttz", "llvm.sadd.with.overflow", "llvm.uadd.with.overflow",
    "llvm.ssub.with.overflow", "llvm.usub.with.overflow", "llvm.smul.with.overflow", "llvm.umul.with.overflow",
    "llvm.fmuladd", "llvm.x86."]

def specialMathOps : List String :=
  ["acos", "asin", "atan", "atan2", "cos", "cosh", "sin", "sinh", "tanh", "exp", "frexp", "ldexp", "log", "log10",
    "modf", "pow", "sqrt", "ceil", "fabs", "floor", "fmod"]

/-- `name.compare(0, prefix.size(), prefix) == 0` -/
def hasPrefix (name pre : String) : Bool := pre.toList.isPrefixOf name.toList

def isLLVMIntrinsic (func : String) : Bool := intrinsics.any (hasPrefix func)

def isSpecialMathOp (func : String) : Bool := specialMathOps.contains func

def isDmaFunction (funcName : String) : Bool :=
  funcName = "dmaLoad" ∨ funcName = "dmaStore" ∨ funcName = "dmaFence" ∨ funcName = "setReadyBits"

def isHostMemFunction (funcName : String) : Bool := funcName = "hostLoad" ∨ funcName = "hostStore"

def isSetSamplingFactor (funcName : String) : Bool := funcName = "setSamplingFactor"

/-- `Function::isIntrinsic`: the name is in LLVM's reserved space. -/
def isIntrinsic (func : String) : Bool := hasPrefix func "llvm."

/-- What `doInitialization` sets up for a module: the mode, the functions to
track, and each C function's name under its linkage name. -/
structure Config where
  isToplevelMode : Bool
  trackedFunctions : List String
  mangledNameMap : List (String × String)
  deriving DecidableEq, Repr

/-- A debug subprogram; a linkage name may be empty. -/
structure Subprogram where
  name : String
  linkageName : String
  deriving DecidableEq, Repr

/-- `split`: `getline` gives no piece after the last delimiter at the end. -/
def split (s : String) (delim : Char) : List String :=
  let pieces := (s.toList.splitOn delim).map String.ofList
  if pieces.getLast? = some "" then pieces.dropLast else pieces

/-- The functions in `WORKLOAD`, without repetition. -/
def getUserWorkloadFunctions (workload : Option String) : List String :=
  match workload with
  | none => []
  | some funcString => (split funcString ',').dedup

/-- The key of `mangledNameMap` and of `trackedFunctions`. -/
def Subprogram.key (S : Subprogram) : String := if S.linkageName = "" then S.name else S.linkageName

def Config.addSubprogram (userWorkloads : List String) (cfg : Config) (S : Subprogram) : Option Config :=
  if S.name = "" ∧ S.linkageName = "" then none
  else
    let cfg := { cfg with mangledNameMap := (S.key, S.name) :: cfg.mangledNameMap }
    if userWorkloads.contains S.linkageName ∨ userWorkloads.contains S.name then
      some { cfg with trackedFunctions := S.key :: cfg.trackedFunctions }
    else some cfg

/-- `doInitialization`. Without a workload the pass is not set up. -/
def doInitialization (workload : Option String) (traceAllCallees : Bool) (subprograms : List Subprogram) :
    Option Config :=
  let userWorkloads := getUserWorkloadFunctions workload
  if userWorkloads = [] then none
  else
    subprograms.foldlM (Config.addSubprogram userWorkloads)
      { isToplevelMode := userWorkloads.length = 1 ∨ traceAllCallees, trackedFunctions := [], mangledNameMap := [] }

def Config.isTrackedFunction (cfg : Config) (func : String) : Bool := cfg.trackedFunctions.contains func

/-- The loop goes through unless the assertion on a subprogram's names fails. -/
theorem exists_foldlM_addSubprogram {userWorkloads : List String} : ∀ {subprograms : List Subprogram} {cfg : Config},
    (∃ cfg', subprograms.foldlM (Config.addSubprogram userWorkloads) cfg = some cfg') ↔
      ∀ S ∈ subprograms, S.name ≠ "" ∨ S.linkageName ≠ ""
  | [], cfg => by simp
  | S :: subprograms, cfg => by
    rw [List.forall_mem_cons, List.foldlM_cons, Option.bind_eq_bind]
    by_cases hnames : S.name = "" ∧ S.linkageName = ""
    · have hnone : cfg.addSubprogram userWorkloads S = none := if_pos hnames
      rw [hnone, hnames.1, hnames.2]
      simp
    · obtain ⟨cfg₁, hcfg₁⟩ : ∃ cfg₁, cfg.addSubprogram userWorkloads S = some cfg₁ := by
        unfold Config.addSubprogram
        rw [if_neg hnames]
        split <;> exact ⟨_, rfl⟩
      rw [hcfg₁, Option.bind_some, exists_foldlM_addSubprogram]
      have hS : S.name ≠ "" ∨ S.linkageName ≠ "" := by
        by_contra h
        exact hnames (by simpa using h)
      exact ⟨fun h => ⟨hS, h⟩, And.right⟩

theorem mem_addSubprogram {userWorkloads : List String} {cfg cfg' : Config} {S : Subprogram}
    (h : cfg.addSubprogram userWorkloads S = some cfg') {key : String} :
    key ∈ cfg'.trackedFunctions ↔
      (S.key = key ∧ (S.linkageName ∈ userWorkloads ∨ S.name ∈ userWorkloads)) ∨ key ∈ cfg.trackedFunctions := by
  unfold Config.addSubprogram at h
  simp only [List.contains_iff_mem] at h
  split at h
  · cases h
  · split at h <;> rename_i hmatch <;> cases h
    · simp [hmatch, eq_comm]
    · simp [hmatch]

theorem mem_foldlM_addSubprogram {userWorkloads : List String} {key : String} :
    ∀ {subprograms : List Subprogram} {cfg cfg' : Config},
      subprograms.foldlM (Config.addSubprogram userWorkloads) cfg = some cfg' →
      (key ∈ cfg'.trackedFunctions ↔
        (∃ S ∈ subprograms, S.key = key ∧ (S.linkageName ∈ userWorkloads ∨ S.name ∈ userWorkloads)) ∨
          key ∈ cfg.trackedFunctions)
  | [], _, _, h => by
    cases h
    simp
  | S :: subprograms, _, _, h => by
    rw [List.foldlM_cons, Option.bind_eq_bind, Option.bind_eq_some_iff] at h
    obtain ⟨cfg₁, h₁, h₂⟩ := h
    rw [mem_foldlM_addSubprogram h₂, mem_addSubprogram h₁]
    rw [List.exists_mem_cons_iff, or_left_comm, or_assoc]

theorem addSubprogram_isToplevelMode {userWorkloads : List String} {cfg cfg' : Config} {S : Subprogram}
    (h : cfg.addSubprogram userWorkloads S = some cfg') : cfg'.isToplevelMode = cfg.isToplevelMode := by
  unfold Config.addSubprogram at h
  split at h
  · cases h
  · split at h <;> cases h <;> rfl

theorem foldlM_addSubprogram_isToplevelMode {userWorkloads : List String} :
    ∀ {subprograms : List Subprogram} {cfg cfg' : Config},
      subprograms.foldlM (Config.addSubprogram userWorkloads) cfg = some cfg' →
      cfg'.isToplevelMode = cfg.isToplevelMode
  | [], _, _, h => by
    cases h
    rfl
  | S :: subprograms, cfg, _, h => by
    rw [List.foldlM_cons, Option.bind_eq_bind, Option.bind_eq_some_iff] at h
    obtain ⟨cfg₁, h₁, h₂⟩ := h
    rw [foldlM_addSubprogram_isToplevelMode h₂, addSubprogram_isToplevelMode h₁]

/-- No function without a name is tracked. -/
theorem doInitialization_tracked {workload : Option String} {traceAllCallees : Bool} {subprograms : List Subprogram}
    {cfg : Config} (h : doInitialization workload traceAllCallees subprograms = some cfg) :
    cfg.isTrackedFunction "" = false := by
  unfold doInitialization at h
  simp only at h
  split at h
  · cases h
  · have hnames := exists_foldlM_addSubprogram.1 ⟨cfg, h⟩
    have hempty : "" ∉ cfg.trackedFunctions := by
      rw [mem_foldlM_addSubprogram h]
      rintro (⟨S, hS, hkey, -⟩ | hmem)
      · have hname := hnames S hS
        unfold Subprogram.key at hkey
        split at hkey
        · rename_i hlinkage
          exact hname.elim (fun hn => hn hkey) fun hl => hl hlinkage
        · rename_i hlinkage
          exact hlinkage hkey
      · exact List.not_mem_nil hmem
    simpa [Config.isTrackedFunction] using hempty

def Config.traceOrNot (cfg : Config) (func : String) : Bool := cfg.isTrackedFunction func || isLLVMIntrinsic func

/-- `runOnFunction` skips a function without debug information, and one whose
linkage name is not its name. -/
def Config.isCFunction (cfg : Config) (func : String) : Bool := cfg.mangledNameMap.lookup func = some func

/-- The functions whose blocks `runOnBasicBlock` leaves alone in any mode. -/
def isSkippedFunction (funcName : String) : Bool :=
  isDmaFunction funcName || isHostMemFunction funcName || isSetSamplingFactor funcName

/-- `runOnBasicBlock` goes through the function's blocks. -/
def Config.tracesBlocks (cfg : Config) (funcName : String) : Bool :=
  (cfg.isToplevelMode || cfg.isTrackedFunction funcName) && !isSkippedFunction funcName

/-- The call filter of `runOnBasicBlock`, on a direct call. -/
def Config.traceCallee (cfg : Config) (callee : String) : Bool :=
  if isLLVMIntrinsic callee || isDmaFunction callee || isHostMemFunction callee || isSetSamplingFactor callee then true
  else if !cfg.isToplevelMode then cfg.traceOrNot callee
  else !isIntrinsic callee

/-- The decision `traceCall`; an indirect call is left alone. -/
def Config.traceCall (cfg : Config) (I : Inst) : Bool :=
  if I.isCall then
    match I.calledFunction with
    | none => false
    | some callee => cfg.traceCallee callee.name
  else true

/-- `funcName.rfind("_fxp", funcName.size() - 4) != npos`, the position
wrapping around below zero. -/
def isFixedPoint (funcName : String) : Bool :=
  let pos := if funcName.length < 4 then funcName.length else funcName.length - 4
  (List.range (pos + 1)).any fun i => "_fxp".toList.isPrefixOf (funcName.toList.drop i)

/-- Integer opcodes for the floating-point ones. -/
def opcodeToFixedPoint : Nat → Nat
  | 12 => 11  -- FAdd, Add
  | 14 => 13  -- FSub, Sub
  | 16 => 15  -- FMul, Mul
  | 19 => 18  -- FDiv, SDiv
  | 22 => 21  -- FRem, SRem
  | 43 => 36  -- FPTrunc, Trunc
  | 44 => 38  -- FPExt, SExt
  | 52 => 51  -- FCmp, ICmp
  | op => op

/-- The opcode on a call's first line. -/
def callOpcode (func : String) : Nat :=
  if func = "dmaLoad" then 99
  else if func = "dmaStore" then 98
  else if func = "dmaFence" then 97
  else if func = "setReadyBits" then 95
  else if isSpecialMathOp func then 102
  else if func = "setSamplingFactor" then 105
  else if func = "hostLoad" then 107
  else if func = "hostStore" then 106
  else if isIntrinsic func then 104
  else 54

end LlvmTracer.Pass
