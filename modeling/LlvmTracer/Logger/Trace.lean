/-
The thread's side of `profile-func/trace_logger.cpp`: the `thread_local`
trace object, and what each logger function does to it.

A logger function changes the thread's own trace object, and then may open
the trace file and print to it (`Effect`). What opening and printing do to
the files, which all threads share, is not here: see
`Logger.Process` for one thread and `Logger.Threads` for several.

Nothing here looks at the handle a trace object holds, so the handle's type
is a parameter.
-/
import LlvmTracer.Lib.Text

namespace LlvmTracer.Logger

open Text

def resultLine : Int := 19134
def forwardLine : Int := 24601
def retOp : Int := 1

def defaultTraceName : String := "dynamic_trace.gz"

inductive LoggingStatus
  /-- Log the current instruction and continue logging. -/
  | logAndContinue
  /-- Do not log the current instruction. -/
  | doNotLog
  deriving DecidableEq, Repr

/-- `trace_info`, over the type `φ` of file handles. -/
structure TraceInfo (φ : Type) where
  traceName : String
  /-- `none` until a handle is stored: the constructor does not set it. -/
  traceFile : Option φ
  instCount : Nat
  currentToplevelFunction : String
  currentLoggingStatus : LoggingStatus
  deriving DecidableEq, Repr

/-- The constructor of `trace_info`. -/
def TraceInfo.new {φ : Type} (traceName : String) : TraceInfo φ where
  traceName
  traceFile := none
  instCount := 0
  currentToplevelFunction := ""
  currentLoggingStatus := .doNotLog

/-- How a run ends early. -/
inductive Fault
  /-- `Trace has already been created!` -/
  | alreadyCreated
  /-- `Returning from within a toplevel function before it was called!` -/
  | returnBeforeCall
  /-- `Cannot call a top level function from within another one!` -/
  | nestedToplevel
  /-- A write through a `trace_file` no handle was stored into. -/
  | uninitialised
  /-- `exit(-1)`: the trace file could not be opened. -/
  | exit
  deriving DecidableEq, Repr

/-- The assertions of `create_trace` and `log_or_not`. -/
def Fault.isAssertion : Fault → Bool
  | .alreadyCreated | .returnBeforeCall | .nestedToplevel => true
  | .uninitialised | .exit => false

variable {φ : Type}

def createTrace (traceName : String) : Option (TraceInfo φ) → Except Fault (Option (TraceInfo φ))
  | none => .ok (some (.new traceName))
  | some _ => .error .alreadyCreated

def llvmtracerSetTraceName (traceName : String) : Option (TraceInfo φ) → Option (TraceInfo φ)
  | none => some (.new traceName)
  | some ti => some { ti with traceName }

def logOrNot (ti : TraceInfo φ) (isToplevelMode isToplevelFunction : Bool) (opcode : Int)
    (currentFunction : String) : Except Fault LoggingStatus :=
  if !isToplevelMode then
    .ok (if isToplevelFunction then .logAndContinue else .doNotLog)
  else if !isToplevelFunction then .ok ti.currentLoggingStatus
  else if opcode ≠ retOp then .ok .logAndContinue
  else if ti.currentToplevelFunction = "" then .error .returnBeforeCall
  else if currentFunction = ti.currentToplevelFunction then .ok .doNotLog
  else .error .nestedToplevel

/-- `trace_logger_update_status` once there is a trace object. The messages
to stdout are left out. -/
def updateStatusOf (name : String) (opcode : Int) (isTrackedFunction isToplevelMode : Bool)
    (ti : TraceInfo φ) : Except Fault (Option (TraceInfo φ)) :=
  (logOrNot ti isToplevelMode isTrackedFunction opcode name).map fun status =>
    if ti.currentToplevelFunction = "" ∧ status = .logAndContinue then
      some { ti with currentLoggingStatus := status, currentToplevelFunction := name }
    else if status = .doNotLog then
      -- `fin_toplevel` deletes the object.
      none
    else some { ti with currentLoggingStatus := status }

def traceLoggerUpdateStatus (name : String) (opcode : Int) (isTrackedFunction isToplevelMode : Bool) :
    Option (TraceInfo φ) → Except Fault (Option (TraceInfo φ))
  | none =>
    if isTrackedFunction then
      updateStatusOf name opcode isTrackedFunction isToplevelMode (.new defaultTraceName)
    else .ok none
  | some ti => updateStatusOf name opcode isTrackedFunction isToplevelMode ti

def doNotLog : Option (TraceInfo φ) → Bool
  | none => true
  | some ti => ti.currentLoggingStatus = .doNotLog

/-! ## What a call prints -/

/-- What a logger function does to the files: `open_trace_file`, if at all,
and then its `gzprintf`s to `trace->trace_file`. -/
structure Effect where
  opens : Bool
  prints : List Chars
  deriving DecidableEq, Repr

def Effect.none : Effect := ⟨false, []⟩

/-- `"\nentry,%s,%d,\n"` -/
def entryText (funcName : String) (numParameters : Int) : Chars :=
  '\n' :: "entry".toList ++ ',' :: funcName.toList ++ ',' :: decimal numParameters ++ [',', '\n']

/-- The arguments of `trace_logger_log0`. -/
structure Log0Args where
  lineNumber : Int
  name : String
  bbid : String
  instid : String
  opcode : Int
  isTrackedFunction : Bool
  isToplevelMode : Bool
  deriving DecidableEq, Repr

/-- `"\n0,%d,%s,%s,%s,%d,%ld\n"` -/
def log0Text (a : Log0Args) (instCount : Nat) : Chars :=
  ['\n', '0', ','] ++ decimal a.lineNumber ++ ',' :: a.name.toList ++ ',' :: a.bbid.toList ++
    ',' :: a.instid.toList ++ ',' :: decimal a.opcode ++ ',' :: decimal instCount ++ ['\n']

/-- A `double`, with the text `%f` prints for it. -/
structure Double where
  bits : BitVec 64
  shown : Chars
  deriving DecidableEq, Repr

/-- `%02x` -/
def hexByte (b : UInt8) : Chars := [(b.toNat / 16).digitChar, (b.toNat % 16).digitChar]

/-- The first `size` bytes of a buffer in hexadecimal. -/
def convertBytesToHex (value : List UInt8) (size : Nat) : Chars :=
  "0x".toList ++ (value.take size).flatMap hexByte

/-- `%#llx`: no prefix on zero. -/
def pointerText (value : BitVec 64) : Chars :=
  if value = 0 then ['0'] else "0x".toList ++ Nat.toDigits 16 value.toNat

/-- The arguments the parameter loggers share. -/
structure ParamArgs where
  line : Int
  size : Int
  isReg : Int
  label : String
  isPhi : Int
  prevBbid : String
  deriving DecidableEq, Repr

/-- A parameter line: the magic line numbers print as `r` and `f`. -/
def lineTag (line : Int) : Chars :=
  if line = resultLine then ['r'] else if line = forwardLine then ['f'] else decimal line

/-- The three `gzprintf`s of a parameter line whose value prints as `value`. -/
def paramPrints (a : ParamArgs) (value : Chars) : List Chars :=
  [lineTag a.line ++ ',' :: decimal a.size ++ ',' :: value ++ ',' :: decimal a.isReg,
    if a.isReg ≠ 0 then ',' :: a.label.toList else [',', ' '],
    if a.isPhi ≠ 0 then ',' :: a.prevBbid.toList ++ [',', '\n'] else [',', '\n']]

/-- A call of one of the parameter loggers. -/
inductive ParamCall
  | logInt (value : BitVec 64) (a : ParamArgs)
  | logPtr (value : BitVec 64) (a : ParamArgs)
  | logString (value : String) (a : ParamArgs)
  | logDouble (value : Double) (a : ParamArgs)
  | logVector (value : List UInt8) (a : ParamArgs)
  deriving DecidableEq, Repr

def ParamCall.args : ParamCall → ParamArgs
  | .logInt _ a | .logPtr _ a | .logString _ a | .logDouble _ a | .logVector _ a => a

/-- The value as its logger prints it: `%ld`, `%#llx`, `%s`, `%f`, and the
hex dump of `size / 8` bytes. -/
def ParamCall.valueText : ParamCall → Chars
  | .logInt v _ => decimal v.toInt
  | .logPtr v _ => pointerText v
  | .logString v _ => v.toList
  | .logDouble v _ => v.shown
  | .logVector v a => convertBytesToHex v (a.size / 8).toNat

def ParamCall.prints (p : ParamCall) : List Chars := paramPrints p.args p.valueText

/-- What each parameter logger does: `if (!trace || do_not_log()) return;`,
then its prints. -/
def traceLoggerLogParam (p : ParamCall) (trace : Option (TraceInfo φ)) : Effect :=
  if doNotLog trace then .none else ⟨false, p.prints⟩

/-- The effect, and the trace object after it. -/
def traceLoggerLog0 (a : Log0Args) : Option (TraceInfo φ) → Option (TraceInfo φ) × Effect
  | none => (none, .none)
  | some ti =>
    if doNotLog (some ti) then (some ti, .none)
    else (some { ti with instCount := ti.instCount + 1 }, ⟨false, [log0Text a ti.instCount]⟩)

def traceLoggerLogEntry (funcName : String) (numParameters : Int) (trace : Option (TraceInfo φ)) :
    Option (TraceInfo φ) × Effect :=
  let ti := trace.getD (.new defaultTraceName)
  if doNotLog (some ti) then (some ti, .none)
  else (some ti, ⟨true, [entryText funcName numParameters]⟩)

/-! ## Calls -/

/-- A call of the logger's API. -/
inductive Call
  | init
  | setTraceName (name : String)
  | updateStatus (name : String) (opcode : Int) (isTrackedFunction isToplevelMode : Bool)
  | logEntry (funcName : String) (numParameters : Int)
  | log0 (a : Log0Args)
  | param (p : ParamCall)
  deriving DecidableEq, Repr

/-- A call's part on the thread's own trace object, and what it then does to
the files. -/
def Call.own (c : Call) (trace : Option (TraceInfo φ)) :
    Except Fault (Option (TraceInfo φ) × Effect) :=
  match c with
  | .init => (createTrace defaultTraceName trace).map (·, .none)
  | .setTraceName n => .ok (llvmtracerSetTraceName n trace, .none)
  | .updateStatus n op tr tl => (traceLoggerUpdateStatus n op tr tl trace).map (·, .none)
  | .logEntry f n => .ok (traceLoggerLogEntry f n trace)
  | .log0 a => .ok (traceLoggerLog0 a trace)
  | .param p => .ok (trace, traceLoggerLogParam p trace)

/-! ## Changing the handle -/

/-- The trace object with its handle mapped. -/
def TraceInfo.map {ψ : Type} (f : φ → ψ) (ti : TraceInfo φ) : TraceInfo ψ :=
  { ti with traceFile := ti.traceFile.map f }

section map
variable {ψ : Type} (f : φ → ψ)

@[simp] theorem TraceInfo.map_traceName (ti : TraceInfo φ) : (ti.map f).traceName = ti.traceName := rfl
@[simp] theorem TraceInfo.map_traceFile (ti : TraceInfo φ) :
    (ti.map f).traceFile = ti.traceFile.map f := rfl
@[simp] theorem TraceInfo.map_instCount (ti : TraceInfo φ) : (ti.map f).instCount = ti.instCount := rfl
@[simp] theorem TraceInfo.map_currentToplevelFunction (ti : TraceInfo φ) :
    (ti.map f).currentToplevelFunction = ti.currentToplevelFunction := rfl
@[simp] theorem TraceInfo.map_currentLoggingStatus (ti : TraceInfo φ) :
    (ti.map f).currentLoggingStatus = ti.currentLoggingStatus := rfl
@[simp] theorem TraceInfo.map_new (n : String) : (TraceInfo.new n : TraceInfo φ).map f = .new n := rfl

/-- The trace object with the handle it holds, or that it holds none, changed. -/
def TraceInfo.mapFile (g : Option φ → Option ψ) (ti : TraceInfo φ) : TraceInfo ψ :=
  { ti with traceFile := g ti.traceFile }

section mapFile
variable (g : Option φ → Option ψ)

theorem doNotLog_mapFile (trace : Option (TraceInfo φ)) :
    doNotLog (trace.map (TraceInfo.mapFile g)) = doNotLog trace := by
  cases trace <;> rfl

theorem logOrNot_mapFile (ti : TraceInfo φ) (tl tr : Bool) (op : Int) (n : String) :
    logOrNot (ti.mapFile g) tl tr op n = logOrNot ti tl tr op n := rfl

theorem updateStatusOf_mapFile (n : String) (op : Int) (tr tl : Bool) (ti : TraceInfo φ) :
    updateStatusOf n op tr tl (ti.mapFile g) =
      (updateStatusOf n op tr tl ti).map (Option.map (TraceInfo.mapFile g)) := by
  unfold updateStatusOf
  rw [logOrNot_mapFile]
  cases logOrNot ti tl tr op n with
  | error e => rfl
  | ok status =>
    by_cases h : ti.currentToplevelFunction = "" <;> cases status <;>
      simp [Except.map, h, TraceInfo.mapFile]

variable {g} (hg : g none = none)
include hg

theorem TraceInfo.mapFile_new (n : String) : (TraceInfo.new n : TraceInfo φ).mapFile g = .new n := by
  simp only [TraceInfo.mapFile, TraceInfo.new, hg]

theorem traceLoggerUpdateStatus_mapFile (n : String) (op : Int) (tr tl : Bool)
    (trace : Option (TraceInfo φ)) :
    traceLoggerUpdateStatus n op tr tl (trace.map (TraceInfo.mapFile g)) =
      (traceLoggerUpdateStatus n op tr tl trace).map (Option.map (TraceInfo.mapFile g)) := by
  cases trace with
  | none =>
    cases tr with
    | true =>
      have hof := updateStatusOf_mapFile g n op true tl (.new defaultTraceName)
      rw [TraceInfo.mapFile_new hg] at hof
      exact hof
    | false => rfl
  | some ti => exact updateStatusOf_mapFile g n op tr tl ti

/-- No call looks at the handle: changing it commutes with the call. -/
theorem Call.own_mapFile (c : Call) (trace : Option (TraceInfo φ)) :
    c.own (trace.map (TraceInfo.mapFile g)) =
      (c.own trace).map fun p => (p.1.map (TraceInfo.mapFile g), p.2) := by
  cases c with
  | init =>
    cases trace with
    | none => simp [Call.own, createTrace, Except.map, TraceInfo.mapFile_new hg]
    | some ti => rfl
  | setTraceName n =>
    cases trace with
    | none => simp [Call.own, llvmtracerSetTraceName, Except.map, TraceInfo.mapFile_new hg]
    | some ti => rfl
  | updateStatus n op tr tl =>
    simp only [Call.own, traceLoggerUpdateStatus_mapFile hg]
    cases traceLoggerUpdateStatus n op tr tl trace <;> rfl
  | logEntry f n =>
    have hget : (trace.map (TraceInfo.mapFile g)).getD (.new defaultTraceName) =
        (trace.getD (.new defaultTraceName)).mapFile g := by
      cases trace with
      | none => exact (TraceInfo.mapFile_new hg _).symm
      | some ti => rfl
    simp only [Call.own, traceLoggerLogEntry, hget]
    generalize trace.getD (.new defaultTraceName) = ti
    rw [show doNotLog (some (ti.mapFile g)) = doNotLog (some ti) from rfl]
    split <;> rfl
  | log0 a =>
    cases trace with
    | none => rfl
    | some ti =>
      simp only [Call.own, traceLoggerLog0, Option.map_some]
      rw [show doNotLog (some (ti.mapFile g)) = doNotLog (some ti) from rfl]
      split <;> rfl
  | param p => simp only [Call.own, traceLoggerLogParam, doNotLog_mapFile]; rfl

end mapFile

theorem doNotLog_map (trace : Option (TraceInfo φ)) :
    doNotLog (trace.map (TraceInfo.map f)) = doNotLog trace :=
  doNotLog_mapFile (Option.map f) trace

theorem Call.own_map (c : Call) (trace : Option (TraceInfo φ)) :
    c.own (trace.map (TraceInfo.map f)) =
      (c.own trace).map fun p => (p.1.map (TraceInfo.map f), p.2) :=
  Call.own_mapFile (g := Option.map f) rfl c trace

end map

end LlvmTracer.Logger
