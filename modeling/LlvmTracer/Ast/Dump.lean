/-
Writing the label map file.

`findAllNoninlinedCallers` follows caller sets through inlined functions,
with no record of where it has been: on a cycle of them it does not return,
so the search takes fuel, and so does the loop of `EndSourceFileAction`,
whose search makes entries in the map it iterates over. What those entries
hold is what an absent entry reads as (`Grown`), so the search finds what it
would find in the map as it was (`findAllNoninlinedCallers_eq`), and the
lines written are those of the map as it was (`dumpFrom_eq`); the loop
returns just when the search does from every inlined function
(`LabelMap.exists_dump_of_search`, `dumpFrom_search`).
-/
import LlvmTracer.Ast.LabelMap

namespace LlvmTracer.Ast

open Text OrdMap

/-- `function/label 20` -/
def writeLabelMapLine (function label : Name) (lineNumber : Nat) : Chars :=
  function.1 ++ '/' :: label.1 ++ ' ' :: decimal lineNumber ++ ['\n']

/-- `inlined_function/label 20 inline caller_1 caller_2...`, where the
callers are the functions `inlined_function` is cloned into. -/
def writeLabelMapLineWithInline (function label : Name) (lineNumber : Nat) (callers : List Name) : Chars :=
  function.1 ++ '/' :: label.1 ++ ' ' :: decimal lineNumber ++
    if callers.length = 0 then ['\n'] else " inline".toList ++ callers.flatMap (' ' :: ·.1) ++ ['\n']

/-- A line as it is written. -/
inductive LabelLine
  | plain (function label : Name) (lineNumber : Nat)
  | withInline (function label : Name) (lineNumber : Nat) (callers : List Name)
  deriving DecidableEq

def LabelLine.text : LabelLine → Chars
  | .plain function label lineNumber => writeLabelMapLine function label lineNumber
  | .withInline function label lineNumber callers => writeLabelMapLineWithInline function label lineNumber callers

/-- Append all non-inlined functions that call `leafFunction` to `callers`.
A subscript makes an entry where there is none. -/
def findAllNoninlinedCallers : Nat → Name → LabelMap → List Name → Option (LabelMap × List Name)
  | 0, _, _, _ => none
  | fuel + 1, leafFunction, m, callers =>
    let m : LabelMap := m.touch .new leafFunction
    (m.info leafFunction).callers.entries.foldlM (fun r caller =>
      let m : LabelMap := r.1.touch .new caller.1
      if (m.info caller.1).inlined then findAllNoninlinedCallers fuel caller.1 m r.2
      else some (m, r.2 ++ [caller.1])) (m, callers)

/-- The lines of one function. -/
def FunctionInfo.lines (funcInfo : FunctionInfo) (funcName : Name) (callers : List Name) : List LabelLine :=
  funcInfo.labelToLineNum.entries.map fun label =>
    if funcInfo.inlined then .withInline funcName label.1 label.2 callers else .plain funcName label.1 label.2

/-- The loop of `EndSourceFileAction`, from behind the entry `it`. -/
def dumpFrom (fuel : Nat) : Nat → Option Name → LabelMap → List LabelLine → Option (List LabelLine)
  | 0, _, _, _ => none
  | n + 1, it, m, ofs =>
    match m.next? it with
    | none => some ofs
    | some (funcName, funcInfo) =>
      if funcInfo.inlined then
        (findAllNoninlinedCallers fuel funcName m []).bind fun r =>
          dumpFrom fuel n (some funcName) r.1 (ofs ++ funcInfo.lines funcName r.2)
      else dumpFrom fuel n (some funcName) m (ofs ++ funcInfo.lines funcName [])

def dump (fuel : Nat) (m : LabelMap) : Option (List LabelLine) := dumpFrom fuel fuel none m []

/-- Dump the contents of labelMap to the output file, and clear it. -/
def endSourceFileAction (fuel : Nat) (m : LabelMap) (outputFile : Chars) : Option (LabelMap × Chars) :=
  (dump fuel m).map fun lines => (∅, outputFile ++ lines.flatMap LabelLine.text)

/-- `main`: the tool's run over the source files, each given by what its
visit does to `labelMap`. The output file has been deleted. -/
def runTool (fuel : Nat) (files : List (LabelMap → LabelMap)) : Option (LabelMap × Chars) :=
  files.foldlM (fun s collect => endSourceFileAction fuel (collect s.1) s.2) (∅, [])

/-! ## The search -/

/-- The search on a map that stays as it is. -/
def LabelMap.search (m : LabelMap) : Nat → Name → List Name → Option (List Name)
  | 0, _, _ => none
  | fuel + 1, leafFunction, callers =>
    (m.info leafFunction).callers.entries.foldlM (fun callers caller =>
      if (m.info caller.1).inlined then m.search fuel caller.1 callers else some (callers ++ [caller.1])) callers

/-- Every name in the map: its keys and the callers. -/
def LabelMap.names (m : LabelMap) : List Name :=
  m.entries.flatMap fun e => e.1 :: e.2.callers.entries.map (·.1)

/-- `m'` is `m` with entries that a subscript has made. -/
structure Grown (m m' : LabelMap) : Prop where
  info : ∀ f, m'.info f = m.info f
  mono : ∀ f funcInfo, m.find? f = some funcInfo → m'.find? f = some funcInfo
  names : ∀ f funcInfo, m'.find? f = some funcInfo → f ∈ m.names

theorem LabelMap.mem_names {m : LabelMap} {f : Name} {funcInfo : FunctionInfo} (h : m.find? f = some funcInfo) :
    f ∈ m.names :=
  List.mem_flatMap.2 ⟨_, mem_entries.2 h, List.mem_cons_self⟩

theorem LabelMap.caller_mem_names {m : LabelMap} {f : Name} {caller : Name × Unit}
    (h : caller ∈ (m.info f).callers.entries) : caller.1 ∈ m.names := by
  unfold LabelMap.info OrdMap.value at h
  cases hf : m.find? f with
  | none => rw [hf] at h; cases h
  | some funcInfo =>
    rw [hf] at h
    exact List.mem_flatMap.2 ⟨_, mem_entries.2 hf, List.mem_cons_of_mem _ (List.mem_map_of_mem h)⟩

theorem Grown.refl (m : LabelMap) : Grown m m :=
  ⟨fun _ => rfl, fun _ _ h => h, fun _ _ h => LabelMap.mem_names h⟩

theorem Grown.touch {m m' : LabelMap} (h : Grown m m') {f : Name} (hf : f ∈ m.names) :
    Grown m (m'.touch .new f) where
  info g := (value_touch m' f g).trans (h.info g)
  mono g funcInfo hg := by
    have hg' := h.mono g funcInfo hg
    rw [find?_touch]
    split
    · next he => subst he; rw [OrdMap.value, hg']; rfl
    · exact hg'
  names g funcInfo hg := by
    rw [find?_touch] at hg
    split at hg
    · next he => exact he ▸ hf
    · exact h.names g funcInfo hg

/-- What is written for an entry that was made is nothing. -/
theorem Grown.find?_eq {m m' : LabelMap} (h : Grown m m') {f : Name} {funcInfo : FunctionInfo}
    (hf : m'.find? f = some funcInfo) : m.find? f = some funcInfo ∨ m.find? f = none ∧ funcInfo = .new := by
  cases hm : m.find? f with
  | some funcInfo' =>
    rw [h.mono f funcInfo' hm] at hf
    exact .inl hf
  | none =>
    have hinfo := h.info f
    simp only [LabelMap.info, OrdMap.value, hf, hm] at hinfo
    exact .inr ⟨rfl, hinfo⟩

/-- The search finds the same in the map as it has grown. -/
theorem findAllNoninlinedCallers_eq {m : LabelMap} (fuel : Nat) : ∀ {leaf : Name} {m' : LabelMap}
    (callers : List Name), Grown m m' → leaf ∈ m.names →
    (findAllNoninlinedCallers fuel leaf m' callers).map (·.2) = m.search fuel leaf callers ∧
    ∀ r ∈ findAllNoninlinedCallers fuel leaf m' callers, Grown m r.1 := by
  induction fuel with
  | zero => exact fun _ _ _ => ⟨rfl, nofun⟩
  | succ fuel ih =>
    intro leaf m' callers hg hleaf
    have hg := hg.touch hleaf
    simp only [findAllNoninlinedCallers, LabelMap.search, hg.info leaf]
    have hmem : ∀ caller ∈ (m.info leaf).callers.entries, caller.1 ∈ m.names :=
      fun caller hc => LabelMap.caller_mem_names hc
    revert hg hmem
    generalize (m.info leaf).callers.entries = entries
    generalize m'.touch .new leaf = m'
    -- The callers that are left, from the map and the list as they are then.
    induction entries generalizing m' callers with
    | nil => exact fun hg _ => ⟨rfl, fun r hr => by cases hr; exact hg⟩
    | cons caller entries ihe =>
      intro hg hmem
      obtain ⟨hc, hmem⟩ := List.forall_mem_cons.1 hmem
      have hg := hg.touch hc
      simp only [List.foldlM_cons, hg.info caller.1]
      split
      · obtain ⟨hlist, hgrown⟩ := ih callers hg hc
        rw [← hlist]
        cases hf : findAllNoninlinedCallers fuel caller.1 (m'.touch .new caller.1) callers with
        | none => exact ⟨rfl, nofun⟩
        | some r => exact ihe r.2 r.1 (hgrown r hf) hmem
      · exact ihe _ _ hg hmem

theorem LabelMap.search_mono {m : LabelMap} {fuel fuel' : Nat} (hle : fuel ≤ fuel') : ∀ {leaf : Name}
    {callers cs : List Name}, m.search fuel leaf callers = some cs → m.search fuel' leaf callers = some cs := by
  induction fuel generalizing fuel' with
  | zero => exact fun h => nomatch h
  | succ fuel ih =>
    obtain ⟨fuel', rfl⟩ : ∃ k, fuel' = k + 1 := ⟨fuel' - 1, by omega⟩
    intro leaf callers cs
    simp only [LabelMap.search]
    generalize (m.info leaf).callers.entries = entries
    induction entries generalizing callers with
    | nil => exact id
    | cons caller entries ihe =>
      intro h
      simp only [List.foldlM_cons, Option.bind_eq_bind, Option.bind_eq_some_iff] at h ⊢
      obtain ⟨cs', hstep, hrest⟩ := h
      refine ⟨cs', ?_, ihe hrest⟩
      split at hstep
      · next hi => rw [if_pos hi]; exact ih (by omega) hstep
      · next hi => rw [if_neg hi]; exact hstep

/-! ## The loop -/

/-- The callers written with an inlined function's labels. -/
def LabelMap.callersOf (m : LabelMap) (fuel : Nat) (f : Name) : List Name := (m.search fuel f []).getD []

/-- The lines of the entries behind `it`. -/
def LabelMap.linesAfter (m : LabelMap) (fuel : Nat) (it : Option Name) : List LabelLine :=
  (m.after it).flatMap fun e => e.2.lines e.1 (m.callersOf fuel e.1)

theorem FunctionInfo.lines_callers {funcInfo : FunctionInfo} (h : funcInfo.inlined = false) (f : Name)
    (callers callers' : List Name) : funcInfo.lines f callers = funcInfo.lines f callers' := by
  simp [FunctionInfo.lines, h]

/-- An entry of the grown map and those behind it. -/
theorem Grown.linesAfter {m m' : LabelMap} (hg : Grown m m') {it : Option Name} {f : Name}
    {funcInfo : FunctionInfo} (h : m'.next? it = some (f, funcInfo)) (fuel : Nat) :
    m.linesAfter fuel it = funcInfo.lines f (m.callersOf fuel f) ++ m.linesAfter fuel (some f) := by
  obtain ⟨hf, hit⟩ := next?_mem h
  have hle : ∀ g info, m.find? g = some info → After it g → f ≤ g :=
    fun g info hm hi => le_of_next? h (hg.mono g info hm) hi
  rcases hg.find?_eq hf with hm | ⟨hm, rfl⟩
  · rw [LabelMap.linesAfter, after_eq_cons hm hit hle, List.flatMap_cons]
    rfl
  · have hafter : m.after it = m.after (some f) := by
      refine List.filter_congr fun e he => ?_
      have hne : f ≠ e.1 := fun heq => by
        rw [heq, mem_entries.1 he] at hm
        cases hm
      have hiff : After it e.1 ↔ After (some f) e.1 := by
        constructor
        · intro hi k hk
          cases hk
          exact lt_of_le_of_ne (hle e.1 e.2 (mem_entries.1 he) hi) hne
        · exact fun hi => hit.trans (hi f rfl)
      simp only [hiff]
    rw [LabelMap.linesAfter, hafter]
    rfl

/-- The lines written are those of the map as it was. -/
theorem dumpFrom_eq {m : LabelMap} {fuel : Nat} (n : Nat) : ∀ {it : Option Name} {m' : LabelMap}
    {ofs lines : List LabelLine}, Grown m m' → dumpFrom fuel n it m' ofs = some lines →
    lines = ofs ++ m.linesAfter fuel it := by
  induction n with
  | zero => exact fun _ h => nomatch h
  | succ n ih =>
    intro it m' ofs lines hg h
    unfold dumpFrom at h
    split at h
    · next hnext =>
      cases h
      have hnil : m.after it = [] := List.filter_eq_nil_iff.2 fun e he => by
        simpa using next?_eq_none hnext (hg.mono e.1 e.2 (mem_entries.1 he))
      simp [LabelMap.linesAfter, hnil]
    · next f funcInfo hnext =>
      rw [hg.linesAfter hnext fuel, ← List.append_assoc]
      split at h
      · rw [Option.bind_eq_some_iff] at h
        obtain ⟨r, hr, h⟩ := h
        obtain ⟨hlist, hgrown⟩ := findAllNoninlinedCallers_eq fuel [] hg
          (hg.names f funcInfo (next?_mem hnext).1)
        have hcallers : m.callersOf fuel f = r.2 := by
          rw [LabelMap.callersOf, ← hlist, hr]
          rfl
        rw [hcallers]
        exact ih (hgrown r hr) h
      · next hi =>
        rw [FunctionInfo.lines_callers (Bool.not_eq_true _ ▸ hi) f _ []]
        exact ih hg h

theorem dump_eq {m : LabelMap} {fuel : Nat} {lines : List LabelLine} (h : dump fuel m = some lines) :
    lines = m.linesAfter fuel none :=
  dumpFrom_eq fuel (Grown.refl m) h

theorem dumpFrom_isSome {m : LabelMap} {fuel : Nat}
    (hs : ∀ f funcInfo, m.find? f = some funcInfo → funcInfo.inlined = true → (m.search fuel f []).isSome) (n : Nat) :
    ∀ {it : Option Name} {m' : LabelMap} (ofs : List LabelLine), Grown m m' →
      (m.names.filter fun f => After it f).length < n → (dumpFrom fuel n it m' ofs).isSome := by
  induction n with
  | zero => exact fun _ _ h => nomatch h
  | succ n ih =>
    intro it m' ofs hg hn
    unfold dumpFrom
    split
    · rfl
    next f funcInfo hnext =>
    obtain ⟨hf, hit⟩ := next?_mem hnext
    have hmem := hg.names f funcInfo hf
    -- The iterator leaves at least `f` behind.
    have hlt : (m.names.filter fun g => After (some f) g).length < n := by
      rw [show (m.names.filter fun g => After (some f) g) = _ from hit.filter_some id m.names]
      have hlt : ((m.names.filter fun g => After it g).filter fun g => After (some f) g).length <
          (m.names.filter fun g => After it g).length :=
        List.length_filter_lt_length_iff_exists.2 ⟨f, List.mem_filter.2 ⟨hmem, by simpa using hit⟩, by simp [After]⟩
      exact Nat.lt_of_lt_of_le hlt (by omega)
    split
    · next hi =>
      obtain ⟨hlist, hgrown⟩ := findAllNoninlinedCallers_eq fuel [] hg hmem
      have hm : m.find? f = some funcInfo := by
        rcases hg.find?_eq hf with hm | ⟨-, rfl⟩
        · exact hm
        · cases hi
      have hsome := hs f funcInfo hm hi
      rw [← hlist, Option.isSome_map] at hsome
      obtain ⟨r, hr⟩ := Option.isSome_iff_exists.1 hsome
      rw [hr, Option.bind_some]
      exact ih _ (hgrown r hr) hlt
    · exact ih _ hg hlt

/-- What holds of each element from some fuel on holds of all from some fuel
on. -/
theorem exists_fuel {α : Type*} {P : α → Nat → Prop} : ∀ {l : List α},
    (∀ a ∈ l, ∃ fuel₀, ∀ fuel ≥ fuel₀, P a fuel) → ∃ fuel₀, ∀ fuel ≥ fuel₀, ∀ a ∈ l, P a fuel
  | [], _ => ⟨0, by simp⟩
  | a :: l, h => by
    obtain ⟨⟨n, hn⟩, hl⟩ := List.forall_mem_cons.1 h
    obtain ⟨k, hk⟩ := exists_fuel hl
    refine ⟨max n k, fun fuel hf => List.forall_mem_cons.2 ⟨hn fuel ?_, hk fuel ?_⟩⟩
    · exact le_trans (le_max_left n k) hf
    · exact le_trans (le_max_right n k) hf

/-- Where every search returns, the lines are written. -/
theorem LabelMap.exists_dump_of_search {m : LabelMap} {callers : Name → List Name}
    (h : ∀ f funcInfo, m.find? f = some funcInfo → funcInfo.inlined = true →
      ∃ fuel, m.search fuel f [] = some (callers f)) :
    ∃ fuel₀, ∀ fuel ≥ fuel₀, dump fuel m = some (m.linesAfter fuel none) ∧
      ∀ f funcInfo, m.find? f = some funcInfo → funcInfo.inlined = true → m.search fuel f [] = some (callers f) := by
  have hsearch : ∀ e ∈ m.entries, ∃ fuel₀, ∀ fuel ≥ fuel₀, e.2.inlined = true →
      m.search fuel e.1 [] = some (callers e.1) := fun e he => by
    cases hi : e.2.inlined with
    | false => exact ⟨0, by simp⟩
    | true =>
      obtain ⟨fuel₀, hs⟩ := h e.1 e.2 (mem_entries.1 he) hi
      exact ⟨fuel₀, fun fuel hle _ => LabelMap.search_mono hle hs⟩
  obtain ⟨fuel₀, hfuel⟩ := exists_fuel hsearch
  refine ⟨max fuel₀ (m.names.length + 1), fun fuel hle => ?_⟩
  have hfuel := fun f funcInfo hf => hfuel fuel (le_trans (le_max_left _ _) hle) (f, funcInfo) (mem_entries.2 hf)
  have hnames : (m.names.filter fun f => After none f).length < fuel := by
    have := List.length_filter_le (fun f => decide (After none f)) m.names
    have := le_trans (le_max_right fuel₀ (m.names.length + 1)) hle
    omega
  have hsome : (dump fuel m).isSome :=
    dumpFrom_isSome (fun f funcInfo hf hi => by rw [hfuel f funcInfo hf hi]; rfl) fuel [] (Grown.refl m) hnames
  obtain ⟨lines, hlines⟩ := Option.isSome_iff_exists.1 hsome
  refine ⟨?_, hfuel⟩
  rw [← dump_eq hlines]
  exact hlines

/-- The loop returns only if the search does, for every inlined function
ahead. -/
theorem dumpFrom_search {m : LabelMap} {fuel : Nat} (n : Nat) : ∀ {it : Option Name} {m' : LabelMap}
    {ofs lines : List LabelLine}, Grown m m' → dumpFrom fuel n it m' ofs = some lines →
    ∀ g funcInfo, m.find? g = some funcInfo → After it g → funcInfo.inlined = true →
      (m.search fuel g []).isSome := by
  induction n with
  | zero => exact fun _ h => nomatch h
  | succ n ih =>
    intro it m' ofs lines hg h g info hm hi hinlined
    unfold dumpFrom at h
    split at h
    · next hnext => exact absurd hi (next?_eq_none hnext (hg.mono g info hm))
    · next f funcInfo hnext =>
      obtain ⟨hf, -⟩ := next?_mem hnext
      have hle := le_of_next? hnext (hg.mono g info hm) hi
      have hbehind : f ≠ g → After (some f) g := fun hne k hk => by
        cases hk
        exact lt_of_le_of_ne hle hne
      split at h
      · rw [Option.bind_eq_some_iff] at h
        obtain ⟨r, hr, h⟩ := h
        obtain ⟨hlist, hgrown⟩ := findAllNoninlinedCallers_eq fuel [] hg (hg.names f funcInfo hf)
        by_cases hfg : f = g
        · rw [← hfg, ← hlist, hr]
          rfl
        · exact ih (hgrown r hr) h g info hm (hbehind hfg) hinlined
      · next hno =>
        by_cases hfg : f = g
        · subst hfg
          rw [Option.some.inj (hf.symm.trans (hg.mono f info hm)), hinlined] at hno
          exact absurd rfl hno
        · exact ih hg h g info hm (hbehind hfg) hinlined

end LlvmTracer.Ast
