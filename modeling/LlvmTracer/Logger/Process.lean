/-
The process's side of `profile-func/trace_logger.cpp`: the map of open
trace files, the files, and the label map, which all threads share; and the
run of one thread's calls, one after another.

zlib is not in the repository. `gzopen` hands out the handles `0, 1, ...`;
`opens` lists the name each was opened with. Opening a name truncates its
file, and `gzwrite` and `gzprintf` append to the file the handle was opened on.
Distinct names are distinct files. Whether a name can be opened (`canOpen`), and
what `gzprintf` appends for a text (`gzprints`: the text, up to 8191 characters),
are the environment's answers.
-/
import LlvmTracer.Logger.Trace
import Mathlib.Logic.Function.Basic

namespace LlvmTracer.Logger

open Text

abbrev GzFile := Nat

/-- What the threads share. -/
structure Process where
  labelmapStr : Chars
  gzFiles : List (String × GzFile)
  opens : List String
  disk : String → Chars
  canOpen : String → Bool
  gzprints : Chars → Chars

def sectionHeader : Chars := "%%%% LABEL MAP START %%%%\n".toList
def sectionFooter : Chars := "%%%% LABEL MAP END %%%%\n\n".toList

def gzopen (p : Process) (name : String) : Option (Process × GzFile) :=
  if p.canOpen name then
    some ({ p with opens := p.opens ++ [name], disk := Function.update p.disk name [] }, p.opens.length)
  else none

def gzwrite (p : Process) (h : GzFile) (s : Chars) : Process :=
  match p.opens[h]? with
  | some name => { p with disk := Function.update p.disk name (p.disk name ++ s) }
  | none => p

/-- `gz_files[trace_name] = gz_file` -/
def Process.insert (p : Process) (name : String) (h : GzFile) : Process :=
  { p with gzFiles := (name, h) :: p.gzFiles }

def writeLabelmap (p : Process) (h : GzFile) : Process :=
  gzwrite (gzwrite (gzwrite p h sectionHeader) h p.labelmapStr) h sectionFooter

/-- `open_trace_file`: the handle of an open file, or a new file with the
label map written to it. -/
def openTraceFile (p : Process) (ti : TraceInfo GzFile) : Except Fault (Process × TraceInfo GzFile) :=
  match p.gzFiles.lookup ti.traceName with
  | some h => .ok (p, { ti with traceFile := some h })
  | none =>
    match gzopen p ti.traceName with
    | none => .error .exit
    | some (p', h) =>
      .ok (writeLabelmap (p'.insert ti.traceName h) h, { ti with traceFile := some h })

def gzprintf (p : Process) (file : Option GzFile) (s : Chars) : Except Fault Process :=
  match file with
  | none => .error .uninitialised
  | some h => .ok (gzwrite p h (p.gzprints s))

def traceLoggerRegisterLabelmap (labelmapBuf : Chars) (p : Process) : Process :=
  { p with labelmapStr := labelmapBuf }

/-! ## One thread -/

/-- The process, and one thread's trace object. -/
structure State where
  proc : Process
  trace : Option (TraceInfo GzFile)

/-- `open_trace_file` on the thread's object, which its callers have created. -/
def State.openTraceFile (s : State) : Except Fault State :=
  match s.trace with
  | none => .error .uninitialised
  | some ti => (Logger.openTraceFile s.proc ti).map fun r => ⟨r.1, some r.2⟩

def State.gzprintf (s : State) (x : Chars) : Except Fault State :=
  (Logger.gzprintf s.proc (s.trace.bind TraceInfo.traceFile) x).map fun p => { s with proc := p }

def Effect.run (e : Effect) (s : State) : Except Fault State :=
  (if e.opens then s.openTraceFile else .ok s) >>= e.prints.foldlM State.gzprintf

def Call.run (c : Call) (s : State) : Except Fault State :=
  c.own s.trace >>= fun r => r.2.run { s with trace := r.1 }

def runCalls (cs : List Call) (s : State) : Except Fault State := cs.foldlM (fun s c => c.run s) s

/-- Called from the main function. -/
def traceLoggerInit (s : State) : Except Fault State :=
  (createTrace defaultTraceName s.trace).map fun trace => { s with trace }

/-- The process before `main`: nothing open. -/
def Process.boot (disk : String → Chars) (canOpen : String → Bool) (gzprints : Chars → Chars) : Process where
  labelmapStr := []
  gzFiles := []
  opens := []
  disk
  canOpen
  gzprints

/-- `gzprintf` with its default buffer: a longer text is not written. -/
def upTo8191 (s : Chars) : Chars := if s.length ≤ 8191 then s else []

/-- Nothing on disk, and every name can be opened. -/
def emptyDisk : Process := .boot (fun _ => []) (fun _ => true) upTo8191

/-- The prologue the passes give `main`: `trace_logger_init`, and the label
map when there is one. -/
def mainPrologue (labelmap : Option Chars) (s : State) : Except Fault State :=
  (traceLoggerInit s).map fun s =>
    match labelmap with
    | some buf => { s with proc := traceLoggerRegisterLabelmap buf s.proc }
    | none => s

theorem runCalls_cons (c : Call) (cs : List Call) (s : State) :
    runCalls (c :: cs) s = (c.run s >>= runCalls cs) :=
  List.foldlM_cons ..

end LlvmTracer.Logger
