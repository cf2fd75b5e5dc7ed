/-
The tools together, from the source files to the traces read back.

`get-labeled-stmts` writes the label map, the pass instruments the program
and makes `main` register the label map, and the logger writes the traces as
the program runs. `readTraceFile` takes a trace apart again, and finds what
the tools were given: the labels of the source files, and the records of the
run (`readTraceFile_run`).
-/
import LlvmTracer.Ast.RoundTrip
import LlvmTracer.Pass.Fields

namespace LlvmTracer

open Text Ast Logger Pass

/-! ## Reading a trace file -/

/-- A trace file, read. -/
structure TraceFile where
  labels : List LabelEntry
  lines : List TraceLine
  deriving DecidableEq, Repr

/-- What is behind the end marker. -/
def behindMarker (trace : Chars) : Chars := joined '\n' ((trace.splitOn '\n').dropWhile (· ≠ endMarker)).tail

def readTraceFile (text : Chars) : Option TraceFile := do
  let labelmap ← betweenMarkers text
  let labels ← parseLabelMap labelmap
  let lines ← readTrace (behindMarker text)
  some ⟨labels, lines⟩

theorem splitOn_newline (text : Chars) : ('\n' :: text).splitOn '\n' = [] :: text.splitOn '\n' := by
  have hsplit := List.splitOn_append_cons_self_of_not_mem (List.not_mem_nil (a := '\n')) text
  rwa [List.nil_append] at hsplit

theorem splitOn_section {lines : List Chars} (h : ∀ l ∈ lines, '\n' ∉ l) (rest : Chars) :
    (sectionHeader ++ unlines lines ++ sectionFooter ++ rest).splitOn '\n' =
      startMarker :: (lines ++ endMarker :: [] :: rest.splitOn '\n') := by
  have hheader : sectionHeader = startMarker ++ ['\n'] := by decide
  have hfooter : sectionFooter = endMarker ++ ['\n', '\n'] := by decide
  have hstart : '\n' ∉ startMarker := by decide
  have hend : '\n' ∉ endMarker := by decide
  simp only [hheader, hfooter, List.append_assoc, List.cons_append, List.nil_append]
  rw [List.splitOn_append_cons_self_of_not_mem hstart, splitOn_unlines_append h,
    List.splitOn_append_cons_self_of_not_mem hend, splitOn_newline]

theorem behindMarker_section {lines : List Chars} (h : ∀ l ∈ lines, '\n' ∉ l) (he : ∀ l ∈ lines, l ≠ endMarker)
    (rest : Chars) : behindMarker (sectionHeader ++ unlines lines ++ sectionFooter ++ rest) = '\n' :: rest := by
  have hdrop : (startMarker :: (lines ++ endMarker :: [] :: rest.splitOn '\n')).dropWhile (· ≠ endMarker) =
      endMarker :: [] :: rest.splitOn '\n' := by
    rw [← List.cons_append, List.dropWhile_append_of_pos fun l hl => ?_]
    · simp
    · rcases List.mem_cons.1 hl with rfl | hl
      · decide
      · simpa using he l hl
  have hjoin : joined '\n' (rest.splitOn '\n') = rest := List.intercalate_splitOn '\n'
  obtain ⟨l, ls, hsplit⟩ := List.exists_cons_of_ne_nil (List.splitOn_ne_nil '\n' rest)
  rw [behindMarker, splitOn_section h, hdrop, List.tail_cons]
  rw [hsplit] at hjoin ⊢
  rw [joined_cons_cons, hjoin, List.nil_append]

theorem readTrace_newline (text : Chars) : readTrace ('\n' :: text) = readTrace text := by
  rw [readTrace, nonblank, splitOn_newline]
  rfl

/-- A trace file reads back as the label map and the records it was made of. -/
theorem readTraceFile_section {lines : List Chars} (h : ∀ l ∈ lines, '\n' ∉ l) (he : ∀ l ∈ lines, l ≠ endMarker)
    {labels : List LabelEntry} (hlabels : parseLabelMap (unlines lines) = some labels) {rs : List Logger.Record}
    (hrs : ∀ r ∈ rs, r.Clean) :
    readTraceFile (sectionHeader ++ unlines lines ++ sectionFooter ++ recordsText rs) =
      some ⟨labels, rs.map Logger.Record.toLine⟩ := by
  rw [readTraceFile, betweenMarkers_section h he, behindMarker_section h he, readTrace_newline,
    readTrace_recordsText hrs]
  simp only [Option.bind_eq_bind, Option.bind_some, hlabels]

/-! ## The source files -/

/-- The source files, each by what its visit makes of the label map, where
names are plain and every search for callers returns. -/
structure Sources where
  files : List (LabelMap → LabelMap)
  callers : LabelMap → Name → List Name
  plain : ∀ collect ∈ files, (collect ∅).Plain
  finds : ∀ collect ∈ files, ∀ f funcInfo, (collect ∅).find? f = some funcInfo → funcInfo.inlined = true →
    (collect ∅).Finds f (callers (collect ∅) f)

/-- What the label maps hold, file after file. -/
def Sources.labels (S : Sources) : List LabelEntry := S.files.flatMap fun collect => (collect ∅).held (S.callers (collect ∅))

theorem Sources.fileLines (S : Sources) (fuel : ℕ) :
    ∀ l ∈ S.files.flatMap fun collect => (collect ∅).fileLines fuel, '\n' ∉ l ∧ l ≠ endMarker := by
  intro l hl
  obtain ⟨collect, hc, hl⟩ := List.mem_flatMap.1 hl
  refine ⟨(S.plain collect hc).not_mem_fileLines l hl, ?_⟩
  obtain ⟨line, -, rfl⟩ := List.mem_map.1 hl
  intro he
  have hslash := line.slash_mem
  rw [he] at hslash
  exact absurd hslash (by decide)

/-- The tool writes the label map file, and it reads back. -/
theorem Sources.exists_outputFile (S : Sources) : ∃ fuel₀, ∀ fuel ≥ fuel₀, ∃ lines : List Chars,
    runTool fuel S.files = some (∅, unlines lines) ∧ '\x00' ∉ unlines lines ∧
      (∀ l ∈ lines, '\n' ∉ l ∧ l ≠ endMarker) ∧ parseLabelMap (unlines lines) = some S.labels := by
  obtain ⟨fuel₀, hfuel⟩ := exists_fuel fun collect hc => LabelMap.exists_dump (S.finds collect hc)
  refine ⟨fuel₀, fun fuel hle => ⟨_, runTool_eq fun collect hc => (hfuel fuel hle collect hc).1,
    nul_not_mem_fileLines fuel S.files, S.fileLines fuel, ?_⟩⟩
  rw [parseLabelMap_fileLines S.plain]
  exact congrArg some (List.flatMap_congr fun collect hc => (hfuel fuel hle collect hc).2)

/-! ## The whole way -/

/-- The files of a process: those with records read back as the labels and
their records, the others are as they were. -/
def ReadsBack (disk : String → Chars) (labels : List LabelEntry) (rs : List (String × Logger.Record)) (p : Process) : Prop :=
  ∀ n, if recordsTo n rs = [] then p.disk n = disk n
    else readTraceFile (p.disk n) = some ⟨labels, (recordsTo n rs).map Logger.Record.toLine⟩

section

variable {V M ε : Type} {cfg : Config}

/-- **The whole way.** Take source files, and a program of functions whose
names have no comma and no newline, instrumented in top-level mode. However it
runs, the logger fails no assertion, and every trace file reads back as the
labels of the source files and the run's records for that file, in order. -/
theorem readTraceFile_run (S : Sources) {workload : Option String} {traceAllCallees : Bool}
    {subprograms : List Subprogram} (hcfg : doInitialization workload traceAllCallees subprograms = some cfg)
    (hm : cfg.isToplevelMode = true) (m : Module cfg) (hwhole : m.TracksWhole) (hnames : m.NameFields)
    (W : World V M ε) (hW : W.Returning) (hprints : W.Prints) (naming : ε → Option String)
    (a : Activation m.functions V) (hname : a.func.name = "main") (mem : M) (os : List (Output ε))
    (st : ProgramState m V M) (h : W.RunsInstrumented m a mem os st)
    (hnest : Unnested cfg.isTrackedFunction naming "main" os) (disk : String → Chars) (canOpen : String → Bool)
    (gzprints : Chars → Chars)
    (hwritten : ∀ r ∈ (traced cfg.isTrackedFunction naming "main" os).records, r.2.Whole gzprints) :
    ∃ fuel₀, ∀ fuel ≥ fuel₀, ∃ outputFile, runTool fuel S.files = some (∅, outputFile) ∧
      match mainPrologue (registeredLabelmap (some outputFile)) ⟨.boot disk canOpen gzprints, none⟩ >>=
        runCalls (os.filterMap (Output.call? naming)) with
      | .ok s => ReadsBack disk S.labels (traced cfg.isTrackedFunction naming "main" os).records s.proc
      | .error e => e = .exit ∧ ∃ r ∈ (traced cfg.isTrackedFunction naming "main" os).records, canOpen r.1 = false := by
  obtain ⟨fuel₀, hfuel⟩ := S.exists_outputFile
  refine ⟨fuel₀, fun fuel hle => ?_⟩
  obtain ⟨lines, hrun, hnul, hlines, hlabels⟩ := hfuel fuel hle
  refine ⟨unlines lines, hrun, ?_⟩
  have hclean := RunsInstrumented.records_clean hnames hprints h cfg.isTrackedFunction naming "main"
  obtain ⟨s, trace, htraces, -, -⟩ :=
    RunsInstrumented.continues hm (doInitialization_tracked hcfg) hwhole hW (.new _) h (hname ▸ hnest)
  rw [hname] at htraces
  obtain ⟨rs, hrs, hlocal⟩ := htraces.runs
  obtain rfl : rs = s.records := by simpa [Traced.init] using hrs.symm
  have hstate : traced cfg.isTrackedFunction naming "main" os = s := htraces.state
  rw [hstate] at hclean hwritten ⊢
  have hcontents := runCalls_contents (hlocal []) (registeredLabelmap (some (unlines lines))) disk canOpen
    gzprints
  revert hcontents
  generalize mainPrologue (registeredLabelmap (some (unlines lines))) ⟨.boot disk canOpen gzprints, none⟩ >>=
    runCalls (os.filterMap (Output.call? naming)) = r
  intro hcontents
  cases r with
  | error e => exact hcontents
  | ok s' =>
    intro n
    rw [hcontents n, registeredLabelmap_getD hnul]
    by_cases hnone : recordsTo n s.records = []
    · rw [if_pos hnone, if_pos hnone]
    · have hrecords : ∀ r ∈ recordsTo n s.records, r.Whole gzprints := fun r hr => by
        obtain ⟨x, hx, rfl⟩ := List.mem_map.1 hr
        exact hwritten x (List.mem_filter.1 hx).1
      rw [if_neg hnone, if_neg hnone, recordsWritten_whole hrecords]
      refine readTraceFile_section (fun l hl => (hlines l hl).1) (fun l hl => (hlines l hl).2) hlabels fun r hr => ?_
      obtain ⟨x, hx, rfl⟩ := List.mem_map.1 hr
      exact hclean x (List.mem_filter.1 hx).1

end

/-! ### `top`, with a label -/

/-- `void top() { loop: ; }` -/
def topUnit : TranslationUnit := [⟨⟨"top".toList, by decide⟩, .free .c, false, [], some (labeledBody loopName 1)⟩]

def topSources : Sources where
  files := [topUnit.visit]
  callers _ _ := []
  plain := by
    intro collect hc
    obtain rfl := List.mem_singleton.1 hc
    exact ⟨by decide, by decide⟩
  finds := by
    intro collect hc f funcInfo hf hi
    obtain rfl := List.mem_singleton.1 hc
    have hplain : ∀ e ∈ (topUnit.visit ∅).entries, e.2.inlined = false := by decide
    rw [hplain _ (OrdMap.mem_entries.2 hf)] at hi
    cases hi

theorem callsTopModule_nameFields : callsTopModule.NameFields := by
  have hname : ∀ F ∈ callsTopModule.functions, Field F.name ∧ (∀ a ∈ F.args, Field a.name) ∧
      (∀ b ∈ F.blockRefs, Field b.name) ∧ ∀ I ∈ F.insts, Field I.name ∧ (∀ v ∈ I.operands, v = .function "top") ∧
        I.incoming = [] ∧ (∀ callee ∈ I.calledFunction, Field callee.name) ∧ I.debug = none := by decide
  intro F hF
  obtain ⟨hfunc, hargs, hblocks, hinsts⟩ := hname F hF
  refine ⟨hfunc, hargs, hblocks, fun I hI => ?_⟩
  obtain ⟨hinst, hoperands, hincoming, hcallee, hdebug⟩ := hinsts I hI
  refine ⟨hinst, fun v hv => ?_, by simp [hincoming], fun callee h => hcallee callee (Option.mem_def.2 h), by simp [hdebug]⟩
  rw [hoperands v hv]
  exact .of_no_string (by decide) rfl

theorem readTraceFile_run_callsTop : ∃ fuel outputFile, runTool fuel topSources.files = some (∅, outputFile) ∧
    match mainPrologue (registeredLabelmap (some outputFile)) ⟨.boot (fun _ => []) (fun _ => true) upTo8191, none⟩ >>=
      runCalls (callsTopOutput.filterMap (Output.call? fun _ => none)) with
    | .ok s => ReadsBack (fun _ => []) [⟨"top".toList, "loop".toList, 1, []⟩] topRecords s.proc
    | .error e => e = .exit ∧ ∃ r ∈ topRecords, true = false := by
  obtain ⟨st, hrun⟩ := callsTop_runs
  have hprints : topWorld.Prints := ⟨fun _ _ => rfl, fun _ => by constructor <;> exact List.not_mem_nil⟩
  have hlabels : topSources.labels = [⟨"top".toList, "loop".toList, 1, []⟩] := by decide
  obtain ⟨fuel, hfuel⟩ := readTraceFile_run topSources topConfig_initialized rfl callsTopModule callsTopModule_tracksWhole
    callsTopModule_nameFields topWorld topWorld_returning hprints (fun _ => none) mainActivation rfl () callsTopOutput st
    hrun callsTopOutput_unnested (fun _ => []) (fun _ => true) upTo8191 (by rw [traced_callsTop]; decide)
  rw [traced_callsTop, hlabels] at hfuel
  exact ⟨fuel, hfuel fuel le_rfl⟩

end LlvmTracer
