/-
From the source files' label maps to the trace files.

The file the AST pass writes reads back as what was collected, file after
file (`parseLabelMap_runTool`), and the pass and the logger carry its bytes
into the section at the start of every trace file (`labelMap_roundTrip`).
-/
import LlvmTracer.Ast.Linkage
import LlvmTracer.Pass.LabelMapHandler
import LlvmTracer.Logger.OpenOnce

namespace LlvmTracer.Ast

open Text OrdMap

/-! ## Reading a label map file -/

/-- A line that was read. -/
structure LabelEntry where
  function : Chars
  label : Chars
  lineNumber : Int
  callers : List Chars
  deriving DecidableEq, Repr

/-- `function/label line [inline caller...]` -/
def parseLine (line : Chars) : Option LabelEntry :=
  match line.splitOn ' ' with
  | place :: number :: rest =>
    match place.splitOn '/', readDecimal number, rest with
    | [function, label], some lineNumber, [] => some ⟨function, label, lineNumber, []⟩
    | [function, label], some lineNumber, inline :: callers =>
      if inline = "inline".toList then some ⟨function, label, lineNumber, callers⟩ else none
    | _, _, _ => none
  | _ => none

def parseLabelMap (text : Chars) : Option (List LabelEntry) := (nonblank text).mapM parseLine

/-- What a label map holds: function, label and line number, and for inlined
functions the callers. -/
def LabelMap.held (m : LabelMap) (callers : Name → List Name) : List LabelEntry :=
  m.entries.flatMap fun e => e.2.labelToLineNum.entries.map fun l =>
    ⟨e.1.1, l.1.1, l.2, if e.2.inlined then (callers e.1).map (·.1) else []⟩

/-- No space, newline or slash. -/
def Name.Plain (n : Name) : Prop := ' ' ∉ n.1 ∧ '\n' ∉ n.1 ∧ '/' ∉ n.1

/-- Function, label and caller names are plain. -/
structure LabelMap.Plain (m : LabelMap) : Prop where
  names : ∀ f ∈ m.names, Name.Plain f
  labels : ∀ e ∈ m.entries, ∀ l ∈ e.2.labelToLineNum.entries, Name.Plain l.1

/-- The search for the function's callers returns `callers`. -/
def LabelMap.Finds (m : LabelMap) (f : Name) (callers : List Name) : Prop :=
  ∃ fuel m', findAllNoninlinedCallers fuel f m [] = some (m', callers)

/-! ## One line -/

/-- The parts between the spaces. -/
def LabelLine.parts : LabelLine → List Chars
  | .plain function label lineNumber => [function.1 ++ '/' :: label.1, decimal lineNumber]
  | .withInline function label lineNumber callers =>
    (function.1 ++ '/' :: label.1) :: decimal lineNumber ::
      if callers.length = 0 then [] else "inline".toList :: callers.map (·.1)

def LabelLine.entry : LabelLine → LabelEntry
  | .plain function label lineNumber => ⟨function.1, label.1, lineNumber, []⟩
  | .withInline function label lineNumber callers => ⟨function.1, label.1, lineNumber, callers.map (·.1)⟩

def LabelLine.names : LabelLine → List Name
  | .plain function label _ => [function, label]
  | .withInline function label _ callers => function :: label :: callers

theorem joined_cons {sep : Char} (f : Chars) (fs : List Chars) :
    joined sep (f :: fs) = f ++ fs.flatMap (sep :: ·) := by
  induction fs generalizing f with
  | nil => simp
  | cons g fs ih => rw [joined_cons_cons, ih, List.flatMap_cons, List.cons_append]

theorem LabelLine.text_eq (line : LabelLine) : line.text = joined ' ' line.parts ++ ['\n'] := by
  cases line with
  | plain => simp [LabelLine.text, LabelLine.parts, writeLabelMapLine]
  | withInline function label lineNumber callers =>
    simp only [LabelLine.text, LabelLine.parts, writeLabelMapLineWithInline]
    split
    · simp
    · simp [joined_cons]

theorem LabelLine.parts_plain {line : LabelLine} (h : ∀ n ∈ line.names, Name.Plain n) {c : Char}
    (hc : c = ' ' ∨ c = '\n') : ∀ p ∈ line.parts, c ∉ p := by
  have hname : ∀ n ∈ line.names, c ∉ n.1 := fun n hn => by
    obtain ⟨hsp, hnl, -⟩ := h n hn
    rcases hc with rfl | rfl
    · exact hsp
    · exact hnl
  have hdec : ∀ i : Int, c ∉ decimal i := fun i => by
    rcases hc with rfl | rfl
    · exact not_mem_decimal (by decide) (by decide)
    · exact newline_not_mem_decimal i
  have hslash : c ≠ '/' := by rcases hc with rfl | rfl <;> decide
  have hinline : c ∉ "inline".toList := by rcases hc with rfl | rfl <;> decide
  cases line with
  | plain function label lineNumber =>
    simp only [LabelLine.names, List.mem_cons, List.not_mem_nil, or_false, forall_eq_or_imp, forall_eq] at hname
    simp [LabelLine.parts, hname, hslash, hdec]
  | withInline function label lineNumber callers =>
    simp only [LabelLine.names, List.mem_cons, forall_eq_or_imp] at hname
    obtain ⟨hf, hl, hcs⟩ := hname
    simp only [LabelLine.parts]
    split
    · simp [hf, hl, hslash, hdec]
    · intro p hp
      simp only [List.mem_cons, List.mem_map] at hp
      rcases hp with rfl | rfl | rfl | ⟨n, hn, rfl⟩
      · simp [hf, hl, hslash]
      · exact hdec _
      · exact hinline
      · exact hcs n hn

theorem LabelLine.parts_ne_nil (line : LabelLine) : line.parts ≠ [] := by
  cases line <;> exact List.cons_ne_nil _ _

theorem parseLine_joined {line : LabelLine} (h : ∀ n ∈ line.names, Name.Plain n) :
    parseLine (joined ' ' line.parts) = some line.entry := by
  have hparts := splitOn_joined (LabelLine.parts_plain h (.inl rfl)) line.parts_ne_nil
  have hplace : ∀ f l : Name, Name.Plain f → Name.Plain l → (f.1 ++ '/' :: l.1).splitOn '/' = [f.1, l.1] := by
    intro f l hf hl
    have hsplit : (joined '/' [f.1, l.1]).splitOn '/' = [f.1, l.1] :=
      splitOn_joined (by simp [hf.2.2, hl.2.2]) (by simp)
    simpa using hsplit
  cases line with
  | plain function label lineNumber =>
    have hp := hplace function label (h _ (by simp [LabelLine.names])) (h _ (by simp [LabelLine.names]))
    simp only [parseLine, hparts]
    simp only [LabelLine.parts, hp, readDecimal_decimal, LabelLine.entry]
  | withInline function label lineNumber callers =>
    have hp := hplace function label (h _ (by simp [LabelLine.names])) (h _ (by simp [LabelLine.names]))
    simp only [parseLine, hparts]
    by_cases hc : callers.length = 0
    · have hnil := List.length_eq_zero_iff.1 hc
      simp [LabelLine.parts, hp, readDecimal_decimal, LabelLine.entry, hnil]
    · simp [LabelLine.parts, hp, readDecimal_decimal, LabelLine.entry, hc]

/-! ## One source file -/

theorem LabelMap.search_names {m : LabelMap} (fuel : Nat) : ∀ {leaf : Name} {callers cs : List Name},
    m.search fuel leaf callers = some cs → (∀ c ∈ callers, c ∈ m.names) → ∀ c ∈ cs, c ∈ m.names := by
  induction fuel with
  | zero => exact fun h => nomatch h
  | succ fuel ih =>
    intro leaf callers cs
    simp only [LabelMap.search]
    have hmem : ∀ caller ∈ (m.info leaf).callers.entries, caller.1 ∈ m.names :=
      fun caller hc => LabelMap.caller_mem_names hc
    revert hmem
    generalize (m.info leaf).callers.entries = entries
    induction entries generalizing callers with
    | nil => intro _ h hcs; cases h; exact hcs
    | cons caller entries ihe =>
      intro hmem h hcs
      obtain ⟨hc, hmem⟩ := List.forall_mem_cons.1 hmem
      simp only [List.foldlM_cons, Option.bind_eq_bind, Option.bind_eq_some_iff] at h
      obtain ⟨cs', hstep, hrest⟩ := h
      refine ihe hmem hrest ?_
      split at hstep
      · exact ih hstep hcs
      · cases hstep
        intro c hc'
        rcases List.mem_append.1 hc' with hc' | hc'
        · exact hcs c hc'
        · exact List.mem_singleton.1 hc' ▸ hc

theorem LabelMap.Plain.callersOf {m : LabelMap} (h : m.Plain) (fuel : Nat) (f : Name) :
    ∀ c ∈ m.callersOf fuel f, Name.Plain c := by
  unfold LabelMap.callersOf
  cases hs : m.search fuel f [] with
  | none => nofun
  | some cs => exact fun c hc => h.names c (LabelMap.search_names fuel hs (by simp) c hc)

theorem LabelMap.Plain.linesAfter {m : LabelMap} (h : m.Plain) (fuel : Nat) :
    ∀ line ∈ m.linesAfter fuel none, ∀ n ∈ line.names, Name.Plain n := by
  intro line hline
  rw [LabelMap.linesAfter, after_none, List.mem_flatMap] at hline
  obtain ⟨e, he, hline⟩ := hline
  obtain ⟨l, hl, rfl⟩ := List.mem_map.1 hline
  have hf := h.names e.1 (LabelMap.mem_names (mem_entries.1 he))
  have hlabel := h.labels e he l hl
  split
  · simpa [LabelLine.names, hf, hlabel] using h.callersOf fuel e.1
  · simp [LabelLine.names, hf, hlabel]

theorem LabelMap.entry_linesAfter (m : LabelMap) (fuel : Nat) :
    (m.linesAfter fuel none).map LabelLine.entry = m.held (m.callersOf fuel) := by
  rw [LabelMap.linesAfter, after_none, LabelMap.held, List.map_flatMap]
  refine List.flatMap_congr fun e _ => ?_
  rw [FunctionInfo.lines, List.map_map]
  refine List.map_congr_left fun l _ => ?_
  cases e.2.inlined <;> simp [LabelLine.entry]

theorem LabelMap.held_congr {m : LabelMap} {callers callers' : Name → List Name}
    (h : ∀ f funcInfo, m.find? f = some funcInfo → funcInfo.inlined = true → callers f = callers' f) :
    m.held callers = m.held callers' := by
  refine List.flatMap_congr fun e he => ?_
  cases hi : e.2.inlined with
  | false => rfl
  | true => rw [h e.1 e.2 (mem_entries.1 he) hi]

/-- Where every search returns, the lines are written, with its callers. -/
theorem LabelMap.exists_dump {m : LabelMap} {callers : Name → List Name}
    (h : ∀ f funcInfo, m.find? f = some funcInfo → funcInfo.inlined = true → m.Finds f (callers f)) :
    ∃ fuel₀, ∀ fuel ≥ fuel₀, dump fuel m = some (m.linesAfter fuel none) ∧
      m.held (m.callersOf fuel) = m.held callers := by
  obtain ⟨fuel₀, hfuel⟩ := LabelMap.exists_dump_of_search fun f funcInfo hf hi => by
    obtain ⟨fuel₀, m', hfind⟩ := h f funcInfo hf hi
    have hs := (findAllNoninlinedCallers_eq fuel₀ [] (Grown.refl m) (LabelMap.mem_names hf)).1
    rw [hfind] at hs
    exact ⟨fuel₀, hs.symm⟩
  refine ⟨fuel₀, fun fuel hle => ⟨(hfuel fuel hle).1, LabelMap.held_congr fun f funcInfo hf hi => ?_⟩⟩
  rw [LabelMap.callersOf, (hfuel fuel hle).2 f funcInfo hf hi]
  rfl

/-! ## The file -/

/-- The label map's lines, without their newlines. -/
def LabelMap.fileLines (m : LabelMap) (fuel : Nat) : List Chars :=
  (m.linesAfter fuel none).map fun line => joined ' ' line.parts

theorem flatMap_text (lines : List LabelLine) :
    lines.flatMap LabelLine.text = unlines (lines.map fun line => joined ' ' line.parts) := by
  rw [unlines, List.flatMap_map]
  exact List.flatMap_congr fun line _ => line.text_eq

theorem runTool_eq {fuel : Nat} {files : List (LabelMap → LabelMap)}
    (h : ∀ collect ∈ files, dump fuel (collect ∅) = some ((collect ∅).linesAfter fuel none)) :
    runTool fuel files = some (∅, unlines (files.flatMap fun collect => (collect ∅).fileLines fuel)) := by
  have hfrom : ∀ (files : List (LabelMap → LabelMap)) (outputFile : Chars),
      (∀ collect ∈ files, dump fuel (collect ∅) = some ((collect ∅).linesAfter fuel none)) →
      files.foldlM (fun s collect => endSourceFileAction fuel (collect s.1) s.2) (∅, outputFile) =
        some (∅, outputFile ++ unlines (files.flatMap fun collect => (collect ∅).fileLines fuel)) := by
    intro files
    induction files with
    | nil => intro outputFile _; simp
    | cons collect files ih =>
      intro outputFile h
      obtain ⟨hfirst, hrest⟩ := List.forall_mem_cons.1 h
      rw [List.foldlM_cons, endSourceFileAction, hfirst]
      refine (ih _ hrest).trans ?_
      rw [flatMap_text, List.flatMap_cons, unlines_append, List.append_assoc]
      rfl
  exact hfrom files [] h

theorem LabelMap.Plain.not_mem_fileLines {m : LabelMap} (h : m.Plain) {fuel : Nat} :
    ∀ l ∈ m.fileLines fuel, '\n' ∉ l := by
  intro l hl
  obtain ⟨line, hline, rfl⟩ := List.mem_map.1 hl
  exact not_mem_joined (by decide) (LabelLine.parts_plain (h.linesAfter fuel line hline) (.inr rfl))

theorem LabelLine.slash_mem (line : LabelLine) : '/' ∈ joined ' ' line.parts := by
  have hplace : ∀ function label : Name, '/' ∈ function.1 ++ '/' :: label.1 := fun _ _ => by simp
  cases line <;>
  · rw [LabelLine.parts, joined_cons]
    exact List.mem_append_left _ (hplace _ _)

theorem LabelMap.Plain.mapM_fileLines {m : LabelMap} (h : m.Plain) (fuel : Nat) :
    (m.fileLines fuel).mapM parseLine = some (m.held (m.callersOf fuel)) := by
  have hlines : ∀ lines : List LabelLine, (∀ line ∈ lines, ∀ n ∈ line.names, Name.Plain n) →
      (lines.map fun line => joined ' ' line.parts).mapM parseLine = some (lines.map LabelLine.entry) := by
    intro lines
    induction lines with
    | nil => intro _; rfl
    | cons line lines ih =>
      intro h
      obtain ⟨hline, hlines⟩ := List.forall_mem_cons.1 h
      rw [List.map_cons, List.mapM_cons, parseLine_joined hline, ih hlines]
      rfl
  rw [← LabelMap.entry_linesAfter]
  exact hlines _ (h.linesAfter fuel)

/-- The file reads back as what each label map held. -/
theorem parseLabelMap_fileLines {fuel : Nat} {files : List (LabelMap → LabelMap)}
    (h : ∀ collect ∈ files, (collect ∅).Plain) :
    parseLabelMap (unlines (files.flatMap fun collect => (collect ∅).fileLines fuel)) =
      some (files.flatMap fun collect => (collect ∅).held ((collect ∅).callersOf fuel)) := by
  have hnl : ∀ l ∈ files.flatMap fun collect => (collect ∅).fileLines fuel, '\n' ∉ l := by
    intro l hl
    obtain ⟨collect, hc, hl⟩ := List.mem_flatMap.1 hl
    exact (h collect hc).not_mem_fileLines l hl
  have hne : ∀ l ∈ files.flatMap fun collect => (collect ∅).fileLines fuel, (!l.isEmpty) = true := by
    intro l hl
    obtain ⟨collect, -, hl⟩ := List.mem_flatMap.1 hl
    obtain ⟨line, -, rfl⟩ := List.mem_map.1 hl
    simpa using List.ne_nil_of_mem line.slash_mem
  rw [parseLabelMap, nonblank_unlines hnl, List.filter_eq_self.2 hne]
  clear hnl hne
  induction files with
  | nil => rfl
  | cons collect files ih =>
    obtain ⟨hfirst, hrest⟩ := List.forall_mem_cons.1 h
    rw [List.flatMap_cons, List.mapM_append, hfirst.mapM_fileLines, ih hrest]
    rfl

/-! ## The section of a trace file -/

def startMarker : Chars := "%%%% LABEL MAP START %%%%".toList
def endMarker : Chars := "%%%% LABEL MAP END %%%%".toList

/-- What is between the markers of a trace. -/
def betweenMarkers (trace : Chars) : Option Chars :=
  match trace.splitOn '\n' with
  | first :: lines => if first = startMarker then some (unlines (lines.takeWhile (· ≠ endMarker))) else none
  | [] => none

theorem splitOn_unlines_append {lines : List Chars} (h : ∀ l ∈ lines, '\n' ∉ l) (rest : Chars) :
    (unlines lines ++ rest).splitOn '\n' = lines ++ rest.splitOn '\n' := by
  induction lines with
  | nil => rfl
  | cons l lines ih =>
    obtain ⟨hl, hlines⟩ := List.forall_mem_cons.1 h
    rw [unlines_cons, List.append_assoc, List.cons_append, List.splitOn_append_cons_self_of_not_mem hl, ih hlines]
    rfl

theorem betweenMarkers_section {lines : List Chars} (h : ∀ l ∈ lines, '\n' ∉ l) (he : ∀ l ∈ lines, l ≠ endMarker)
    (rest : Chars) :
    betweenMarkers (Logger.sectionHeader ++ unlines lines ++ Logger.sectionFooter ++ rest) = some (unlines lines) := by
  have htext : Logger.sectionHeader ++ unlines lines ++ Logger.sectionFooter ++ rest =
      unlines (startMarker :: lines ++ [endMarker]) ++ ('\n' :: rest) := by
    have hheader : Logger.sectionHeader = startMarker ++ ['\n'] := by decide
    have hfooter : Logger.sectionFooter = endMarker ++ ['\n', '\n'] := by decide
    simp [hheader, hfooter, unlines_append]
  have hmarkers : ∀ l ∈ startMarker :: lines ++ [endMarker], '\n' ∉ l := by
    intro l hl
    simp only [List.cons_append, List.mem_cons, List.mem_append, List.not_mem_nil, or_false] at hl
    rcases hl with rfl | hl | rfl
    · decide
    · exact h l hl
    · decide
  rw [betweenMarkers, htext, splitOn_unlines_append hmarkers]
  have htake : ∀ rest : List Chars, (lines ++ [endMarker] ++ rest).takeWhile (· ≠ endMarker) = lines := fun rest => by
    rw [List.append_assoc, List.takeWhile_append_of_pos fun l hl => decide_eq_true (he l hl)]
    simp
  simp only [List.cons_append, if_true, htake]

theorem LabelLine.nul_not_mem (line : LabelLine) : '\x00' ∉ joined ' ' line.parts := by
  refine not_mem_joined (by decide) fun p hp => ?_
  have hdec : ∀ i : Int, '\x00' ∉ decimal i := fun i => not_mem_decimal (by decide) (by decide)
  cases line with
  | plain function label lineNumber =>
    simp only [LabelLine.parts, List.mem_cons, List.not_mem_nil, or_false] at hp
    rcases hp with rfl | rfl
    · simp [function.2, label.2]
    · exact hdec _
  | withInline function label lineNumber callers =>
    simp only [LabelLine.parts, List.mem_cons] at hp
    rcases hp with rfl | rfl | hp
    · simp [function.2, label.2]
    · exact hdec _
    split at hp
    · cases hp
    · simp only [List.mem_cons, List.mem_map] at hp
      rcases hp with rfl | ⟨n, -, rfl⟩
      · decide
      · exact n.2

theorem nul_not_mem_fileLines (fuel : Nat) (files : List (LabelMap → LabelMap)) :
    '\x00' ∉ unlines (files.flatMap fun collect => (collect ∅).fileLines fuel) := by
  intro h
  obtain ⟨l, hl, hc⟩ := List.mem_flatMap.1 h
  obtain ⟨collect, -, hl⟩ := List.mem_flatMap.1 hl
  obtain ⟨line, -, rfl⟩ := List.mem_map.1 hl
  simp only [List.mem_append, List.mem_singleton] at hc
  rcases hc with hc | hc
  · exact line.nul_not_mem hc
  · exact absurd hc (by decide)

open Logger in
/-- A trace file's section, once it is written, holds the registered text. -/
theorem betweenMarkers_disk {ι : Type} [DecidableEq ι] {p₀ : Process} (hp : p₀.Fresh) {lines : List Chars}
    (hlabel : p₀.labelmapStr = unlines lines) (hnl : ∀ l ∈ lines, '\n' ∉ l) (he : ∀ l ∈ lines, l ≠ endMarker)
    {main : ι} {calls : ι → List Call} {c : System ι} (hr : Reaches (.start p₀ main calls) c) {n : String}
    (hn : (n ∈ c.shared.proc.opens ∧ ∀ t, (c.own t).stage = none) ∨ ∃ y ∈ c.shared.printed, y.2.1 = n) :
    betweenMarkers (c.shared.proc.disk n) = some (unlines lines) := by
  have hok := (System.start_ok hp main calls).reach hr
  have hdisk : c.shared.proc.disk n = p₀.labelSection ++ textTo p₀.gzprints n (c.shared.printed.map (·.2)) := by
    rcases hn with ⟨hn, hidle⟩ | ⟨y, hy, rfl⟩
    · rw [hok.idle hidle n, if_pos hn]
    · exact hok.finished_of_printed hy
  rw [hdisk, Process.labelSection, hlabel]
  exact betweenMarkers_section hnl he _

open Logger in
/-- **The label map comes through.** The file the AST pass writes for a list
of source files reads back as what their label maps held, in order and with
the callers the search finds, provided that it returns; and these bytes are
what every trace file of the instrumented program has between its markers. -/
theorem labelMap_roundTrip (files : List (LabelMap → LabelMap)) (callers : LabelMap → Name → List Name)
    (hplain : ∀ collect ∈ files, (collect ∅).Plain)
    (hfinds : ∀ collect ∈ files, ∀ f funcInfo, (collect ∅).find? f = some funcInfo → funcInfo.inlined = true →
      (collect ∅).Finds f (callers (collect ∅) f)) :
    ∃ fuel₀, ∀ fuel ≥ fuel₀, ∃ outputFile, runTool fuel files = some (∅, outputFile) ∧
      parseLabelMap outputFile = some (files.flatMap fun collect => (collect ∅).held (callers (collect ∅))) ∧
      ∀ {ι : Type} [DecidableEq ι] (disk : String → Chars) (canOpen : String → Bool)
        (gzprints : Chars → Chars) (s : State) (main : ι) (calls : ι → List Call) (c : System ι) (n : String),
        mainPrologue (Pass.registeredLabelmap (some outputFile)) ⟨.boot disk canOpen gzprints, none⟩ = .ok s →
        Reaches (.start s.proc main calls) c →
        ((n ∈ c.shared.proc.opens ∧ ∀ t, (c.own t).stage = none) ∨ ∃ y ∈ c.shared.printed, y.2.1 = n) →
        betweenMarkers (c.shared.proc.disk n) = some outputFile := by
  obtain ⟨fuel₀, hfuel⟩ := exists_fuel fun collect hc => LabelMap.exists_dump (hfinds collect hc)
  refine ⟨fuel₀, fun fuel hle => ⟨_, runTool_eq fun collect hc => (hfuel fuel hle collect hc).1, ?_, ?_⟩⟩
  · rw [parseLabelMap_fileLines hplain]
    exact congrArg some (List.flatMap_congr fun collect hc => (hfuel fuel hle collect hc).2)
  · intro ι _ disk canOpen gzprints s main calls c n hs hr hn
    rw [mainPrologue_boot] at hs
    cases hs
    have hlines : ∀ l ∈ files.flatMap fun collect => (collect ∅).fileLines fuel, '\n' ∉ l ∧ l ≠ endMarker := by
      intro l hl
      obtain ⟨collect, hc, hl⟩ := List.mem_flatMap.1 hl
      refine ⟨(hplain collect hc).not_mem_fileLines l hl, ?_⟩
      obtain ⟨line, -, rfl⟩ := List.mem_map.1 hl
      intro he
      have hslash := line.slash_mem
      rw [he] at hslash
      exact absurd hslash (by decide)
    refine betweenMarkers_disk ⟨rfl, rfl⟩ ?_
      (fun l hl => (hlines l hl).1) (fun l hl => (hlines l hl).2) hr hn
    exact Pass.registeredLabelmap_getD (nul_not_mem_fileLines fuel files)

/-! ### Two source files -/

instance (n : Name) : Decidable (Name.Plain n) := inferInstanceAs (Decidable (_ ∧ _ ∧ _))

def clampName : Name := ⟨"clamp".toList, by decide⟩
def kernelName : Name := ⟨"kernel".toList, by decide⟩

/-- `clamp`, which is always inlined, and `kernel`, which calls it. -/
def inlinedCall : TranslationUnit :=
  [⟨clampName, .free .c, false, [.alwaysInline], some (.other 3 [some (.label 4 loopName (.other 5 []))])⟩,
    ⟨kernelName, .free .c, false, [], some (.other 9 [none, some (.call 10 (some clampName) [])])⟩]

/-- `kernel` of another file, with a label. -/
def otherFile : TranslationUnit :=
  [⟨kernelName, .free .c, false, [], some (.other 2 [some (.label 3 loopName (.other 3 []))])⟩]

theorem labelMap_roundTrip_inlinedCall :
    ∃ fuel outputFile, runTool fuel [inlinedCall.visit, otherFile.visit] = some (∅, outputFile) ∧
      parseLabelMap outputFile = some
        [⟨"clamp".toList, "loop".toList, 5, ["kernel".toList]⟩, ⟨"kernel".toList, "loop".toList, 3, []⟩] := by
  have hplain : ∀ collect ∈ [inlinedCall.visit, otherFile.visit], (collect ∅).Plain := by
    intro collect hc
    simp only [List.mem_cons, List.not_mem_nil, or_false] at hc
    rcases hc with rfl | rfl <;> exact ⟨by decide, by decide⟩
  have hfinds : ∀ collect ∈ [inlinedCall.visit, otherFile.visit], ∀ e ∈ (collect ∅).entries, e.2.inlined = true →
      (findAllNoninlinedCallers 2 e.1 (collect ∅) []).map (·.2) = some [kernelName] := by
    intro collect hc
    simp only [List.mem_cons, List.not_mem_nil, or_false] at hc
    rcases hc with rfl | rfl <;> decide
  obtain ⟨fuel, hfuel⟩ := labelMap_roundTrip [inlinedCall.visit, otherFile.visit] (fun _ _ => [kernelName]) hplain
    fun collect hc f funcInfo hf hi => by
      obtain ⟨r, hr, hcs⟩ := Option.map_eq_some_iff.1 (hfinds collect hc _ (mem_entries.2 hf) hi)
      exact ⟨2, r.1, by rw [hr, ← hcs]⟩
  obtain ⟨outputFile, hrun, hparse, -⟩ := hfuel fuel le_rfl
  exact ⟨fuel, outputFile, hrun, hparse.trans (by decide)⟩

end LlvmTracer.Ast
