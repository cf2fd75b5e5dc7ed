/-
What `doInitialization` makes of the names in `WORKLOAD`.

`split` keeps an empty piece before a comma. It is then one of the workload's
functions: the mode counts it, and a subprogram without a linkage name, as
every C function's is, matches it.
-/
import Mathlib.Data.List.Dedup
import LlvmTracer.Pass.Select

namespace LlvmTracer.Pass

/-! ## The names -/

/-- The names in a workload: the parts between its commas that are not empty. -/
def entries (workload : Option String) : List String :=
  match workload with
  | none => []
  | some s => ((s.toList.splitOn ',').map String.ofList).filter (· ≠ "")

/-- A comma with no name before it. -/
def StrayComma (s : String) : Prop := s.toList.head? = some ',' ∨ ∃ a b, s.toList = a ++ ',' :: ',' :: b

theorem ofList_eq_empty {cs : List Char} : String.ofList cs = "" ↔ cs = [] := by
  rw [← String.toList_inj, String.toList_ofList]
  rfl

theorem mem_split_of_ne_empty {s name : String} (hname : name ≠ "") :
    name ∈ split s ',' ↔ name ∈ (s.toList.splitOn ',').map String.ofList := by
  unfold split
  simp only
  split
  · rename_i hlast
    refine ⟨fun h => List.dropLast_subset _ h, fun h => ?_⟩
    rw [← List.dropLast_append_getLast? _ hlast, List.mem_append, List.mem_singleton] at h
    exact h.resolve_right hname
  · exact Iff.rfl

/-- `getline` gives an empty piece for a comma with nothing before it, and for
no other reason. -/
theorem empty_mem_split {s : String} : "" ∈ split s ',' ↔ StrayComma s := by
  unfold StrayComma
  rw [← Text.nil_mem_dropLast_splitOn]
  have hmap : "" ∈ ((s.toList.splitOn ',').map String.ofList).dropLast ↔ [] ∈ (s.toList.splitOn ',').dropLast := by
    rw [← List.map_dropLast, List.mem_map]
    exact ⟨fun ⟨cs, hcs, h⟩ => ofList_eq_empty.1 h ▸ hcs, fun h => ⟨[], h, rfl⟩⟩
  rw [← hmap]
  unfold split
  simp only
  split
  · exact Iff.rfl
  · rename_i hlast
    refine ⟨fun h => ?_, fun h => List.dropLast_subset _ h⟩
    have hne := List.ne_nil_of_mem h
    rw [← List.dropLast_append_getLast hne, List.mem_append, List.mem_singleton] at h
    refine h.resolve_right fun h => hlast ?_
    rw [List.getLast?_eq_some_getLast hne, ← h]

theorem mem_entries {workload : Option String} {name : String} :
    name ∈ entries workload ↔ name ≠ "" ∧ name ∈ getUserWorkloadFunctions workload := by
  cases workload with
  | none => simp [entries, getUserWorkloadFunctions]
  | some s =>
    simp only [entries, getUserWorkloadFunctions, List.mem_filter, List.mem_dedup, decide_eq_true_eq]
    rw [and_comm, and_congr_right_iff]
    exact fun hname => (mem_split_of_ne_empty hname).symm

/-- Without a stray comma the workload's functions are the names in it. -/
theorem mem_getUserWorkloadFunctions {workload : Option String} (h : "" ∉ getUserWorkloadFunctions workload)
    {name : String} : name ∈ getUserWorkloadFunctions workload ↔ name ∈ entries workload := by
  rw [mem_entries]
  refine ⟨fun hname => ⟨?_, hname⟩, And.right⟩
  rintro rfl
  exact h hname

theorem empty_mem_getUserWorkloadFunctions {workload : Option String} :
    "" ∈ getUserWorkloadFunctions workload ↔ ∃ s, workload = some s ∧ StrayComma s := by
  cases workload with
  | none => simp [getUserWorkloadFunctions]
  | some s => simp [getUserWorkloadFunctions, empty_mem_split]

theorem getUserWorkloadFunctions_eq_nil {workload : Option String} :
    getUserWorkloadFunctions workload = [] ↔ workload = none ∨ workload = some "" := by
  cases workload with
  | none => simp [getUserWorkloadFunctions]
  | some s =>
    simp only [getUserWorkloadFunctions, reduceCtorEq, false_or, Option.some.injEq]
    refine ⟨fun h => ?_, fun h => h ▸ by decide⟩
    rw [List.dedup_eq_nil] at h
    unfold split at h
    simp only at h
    have hjoin : Text.joined ',' (s.toList.splitOn ',') = s.toList := List.intercalate_splitOn ','
    split at h
    · rename_i hlast
      have hpieces := List.dropLast_append_getLast? _ hlast
      rw [h, List.nil_append] at hpieces
      obtain ⟨piece, hsplit, hpiece⟩ := List.map_eq_singleton_iff.1 hpieces.symm
      rw [hsplit, ofList_eq_empty.1 hpiece, Text.joined_singleton] at hjoin
      exact String.toList_inj.1 hjoin.symm
    · exact absurd (List.map_eq_nil_iff.1 h) (List.splitOn_ne_nil ',' s.toList)

theorem nodup_getUserWorkloadFunctions {workload : Option String} : (getUserWorkloadFunctions workload).Nodup := by
  cases workload with
  | none => exact List.nodup_nil
  | some s => exact List.nodup_dedup _

/-- The distinct names, and one more function if there is a stray comma. -/
theorem length_getUserWorkloadFunctions (workload : Option String) :
    (getUserWorkloadFunctions workload).length =
      (entries workload).dedup.length + if "" ∈ getUserWorkloadFunctions workload then 1 else 0 := by
  split
  · rename_i hempty
    have hperm : (getUserWorkloadFunctions workload).Perm ("" :: (entries workload).dedup) := by
      refine (List.perm_ext_iff_of_nodup nodup_getUserWorkloadFunctions ?_).2 fun name => ?_
      · exact List.nodup_cons.2 ⟨by simp [mem_entries], List.nodup_dedup _⟩
      · rw [List.mem_cons, List.mem_dedup, mem_entries]
        by_cases hname : name = ""
        · simp [hname, hempty]
        · simp [hname]
    rw [hperm.length_eq, List.length_cons]
  · rename_i hempty
    have hperm : (getUserWorkloadFunctions workload).Perm (entries workload).dedup := by
      refine (List.perm_ext_iff_of_nodup nodup_getUserWorkloadFunctions (List.nodup_dedup _)).2 fun name => ?_
      rw [List.mem_dedup, mem_getUserWorkloadFunctions hempty]
    rw [hperm.length_eq, Nat.add_zero]

/-! ## What is tracked -/

def Subprogram.MatchesEntry (names : List String) (S : Subprogram) : Prop :=
  S.name ∈ names ∨ (S.linkageName ≠ "" ∧ S.linkageName ∈ names)

/-- `tracked_functions` and `is_toplevel_mode` after `doInitialization`, which
without a workload leaves both alone. None when an assertion fails. -/
def initialized (workload : Option String) (traceAllCallees : Bool) (subprograms : List Subprogram) :
    Option (List String × Option Bool) :=
  if getUserWorkloadFunctions workload = [] then some ([], none)
  else
    (doInitialization workload traceAllCallees subprograms).map fun cfg =>
      (cfg.trackedFunctions, some cfg.isToplevelMode)

/-- The tracked functions are the subprograms the workload names, by their keys. -/
def TracksEntries (workload : Option String) (subprograms : List Subprogram) (tracked : List String) : Prop :=
  ∀ key, key ∈ tracked ↔ ∃ S ∈ subprograms, S.key = key ∧ S.MatchesEntry (entries workload)

/-- One name makes the mode top-level. -/
def ModeOfEntries (workload : Option String) (traceAllCallees : Bool) (mode : Option Bool) : Prop :=
  traceAllCallees = false → entries workload ≠ [] →
    ∃ isToplevelMode, mode = some isToplevelMode ∧ (isToplevelMode = true ↔ (entries workload).dedup.length = 1)

def InitializedByEntries (workload : Option String) (traceAllCallees : Bool) (subprograms : List Subprogram) : Prop :=
  ∃ tracked mode, initialized workload traceAllCallees subprograms = some (tracked, mode) ∧
    TracksEntries workload subprograms tracked ∧ ModeOfEntries workload traceAllCallees mode

/-- Once it is past the assertions, the tracer tracks what matches one of the
workload's functions, and its mode is by their number. -/
theorem initialized_eq_some {workload : Option String} (traceAllCallees : Bool) {subprograms : List Subprogram}
    (hworkload : getUserWorkloadFunctions workload ≠ [])
    (hnames : ∀ S ∈ subprograms, S.name ≠ "" ∨ S.linkageName ≠ "") :
    ∃ tracked, initialized workload traceAllCallees subprograms =
        some (tracked, some (decide ((getUserWorkloadFunctions workload).length = 1 ∨ traceAllCallees = true))) ∧
      ∀ key, key ∈ tracked ↔ ∃ S ∈ subprograms, S.key = key ∧
        (S.linkageName ∈ getUserWorkloadFunctions workload ∨ S.name ∈ getUserWorkloadFunctions workload) := by
  obtain ⟨cfg, hcfg⟩ := exists_foldlM_addSubprogram.2 hnames
  refine ⟨cfg.trackedFunctions, ?_, fun key => ?_⟩
  · unfold initialized doInitialization
    simp only [if_neg hworkload]
    rw [hcfg, Option.map_some, foldlM_addSubprogram_isToplevelMode hcfg]
  · rw [mem_foldlM_addSubprogram hcfg]
    simp

theorem initialized_eq_none {workload : Option String} {traceAllCallees : Bool} {subprograms : List Subprogram}
    (hworkload : getUserWorkloadFunctions workload ≠ [])
    (hnames : ¬∀ S ∈ subprograms, S.name ≠ "" ∨ S.linkageName ≠ "") :
    initialized workload traceAllCallees subprograms = none := by
  unfold initialized doInitialization
  simp only [if_neg hworkload, Option.map_eq_none_iff]
  refine Option.eq_none_iff_forall_ne_some.2 fun cfg hcfg => hnames ?_
  exact exists_foldlM_addSubprogram.1 ⟨cfg, hcfg⟩

theorem initializedByEntries_none {workload : Option String} {traceAllCallees : Bool} {subprograms : List Subprogram}
    (hworkload : getUserWorkloadFunctions workload = []) :
    InitializedByEntries workload traceAllCallees subprograms := by
  have hentries : entries workload = [] := by
    refine List.eq_nil_iff_forall_not_mem.2 fun name h => ?_
    rw [mem_entries, hworkload] at h
    exact List.not_mem_nil h.2
  refine ⟨[], none, if_pos hworkload, fun key => ?_, fun _ h => absurd hentries h⟩
  simp [hentries, Subprogram.MatchesEntry]

/-! ## When the tracked functions and the mode are by the names -/

section

variable {workload : Option String} {traceAllCallees : Bool} {subprograms : List Subprogram} {tracked : List String}

theorem tracksEntries_of_no_stray (hempty : "" ∉ getUserWorkloadFunctions workload)
    (htracked : ∀ key, key ∈ tracked ↔ ∃ S ∈ subprograms, S.key = key ∧
      (S.linkageName ∈ getUserWorkloadFunctions workload ∨ S.name ∈ getUserWorkloadFunctions workload)) :
    TracksEntries workload subprograms tracked := by
  intro key
  rw [htracked key]
  have hmatches : ∀ S : Subprogram,
      (S.linkageName ∈ getUserWorkloadFunctions workload ∨ S.name ∈ getUserWorkloadFunctions workload) ↔
        S.MatchesEntry (entries workload) := by
    intro S
    have hlinkage : S.linkageName ∈ entries workload → S.linkageName ≠ "" := fun h => (mem_entries.1 h).1
    rw [mem_getUserWorkloadFunctions hempty, mem_getUserWorkloadFunctions hempty, or_comm,
      Subprogram.MatchesEntry, and_iff_right_of_imp hlinkage]
  simp only [hmatches]

/-- With a stray comma what has an empty name or linkage name is tracked too. -/
theorem tracksEntries_iff_of_stray (hempty : "" ∈ getUserWorkloadFunctions workload)
    (htracked : ∀ key, key ∈ tracked ↔ ∃ S ∈ subprograms, S.key = key ∧
      (S.linkageName ∈ getUserWorkloadFunctions workload ∨ S.name ∈ getUserWorkloadFunctions workload)) :
    TracksEntries workload subprograms tracked ↔
      ∀ S ∈ subprograms, S.name = "" ∨ S.linkageName = "" →
        ∃ S' ∈ subprograms, S'.key = S.key ∧ S'.MatchesEntry (entries workload) := by
  constructor
  · intro h S hS hnone
    refine (h S.key).1 ((htracked S.key).2 ⟨S, hS, rfl, ?_⟩)
    rcases hnone with hname | hlinkage
    · exact Or.inr (hname ▸ hempty)
    · exact Or.inl (hlinkage ▸ hempty)
  · intro h key
    rw [htracked key]
    constructor
    · rintro ⟨S, hS, rfl, hmatch⟩
      by_cases hnone : S.name = "" ∨ S.linkageName = ""
      · exact h S hS hnone
      · rw [not_or] at hnone
        refine ⟨S, hS, rfl, hmatch.symm.imp (fun hname => ?_) fun hlinkage => ⟨hnone.2, ?_⟩⟩
        · exact mem_entries.2 ⟨hnone.1, hname⟩
        · exact mem_entries.2 ⟨hnone.2, hlinkage⟩
    · rintro ⟨S, hS, rfl, hmatch⟩
      exact ⟨S, hS, rfl, hmatch.symm.imp (fun h => (mem_entries.1 h.2).2) fun h => (mem_entries.1 h).2⟩

theorem modeOfEntries_iff :
    ModeOfEntries workload traceAllCallees
        (some (decide ((getUserWorkloadFunctions workload).length = 1 ∨ traceAllCallees = true))) ↔
      "" ∉ getUserWorkloadFunctions workload ∨ traceAllCallees = true ∨ (entries workload).dedup.length ≠ 1 := by
  have hpos : entries workload ≠ [] ↔ 0 < (entries workload).dedup.length := by
    rw [List.length_pos_iff, ne_eq, ne_eq, List.dedup_eq_nil]
  have hlength := length_getUserWorkloadFunctions workload
  simp only [ModeOfEntries, Option.some.injEq, exists_eq_left', decide_eq_true_eq, hpos, hlength]
  cases traceAllCallees with
  | true => simp
  | false =>
    by_cases hempty : "" ∈ getUserWorkloadFunctions workload
    · simp only [Bool.false_eq_true, or_false, false_or, hempty, not_true_eq_false, if_true, forall_const]
      omega
    · simp [hempty]

/-- The condition is on the text of the workload and on the subprograms. -/
theorem initializedByEntries_iff :
    InitializedByEntries workload traceAllCallees subprograms ↔
      (workload = none ∨ workload = some "") ∨
      (∀ S ∈ subprograms, S.name ≠ "" ∨ S.linkageName ≠ "") ∧
        ((∀ s, workload = some s → ¬StrayComma s) ∨
          (∀ S ∈ subprograms, S.name = "" ∨ S.linkageName = "" →
            ∃ S' ∈ subprograms, S'.key = S.key ∧ S'.MatchesEntry (entries workload)) ∧
          (traceAllCallees = true ∨ (entries workload).dedup.length ≠ 1)) := by
  rw [← getUserWorkloadFunctions_eq_nil]
  by_cases hworkload : getUserWorkloadFunctions workload = []
  · exact iff_of_true (initializedByEntries_none hworkload) (Or.inl hworkload)
  by_cases hnames : ∀ S ∈ subprograms, S.name ≠ "" ∨ S.linkageName ≠ ""
  swap
  · refine iff_of_false ?_ fun h => h.elim hworkload fun h => hnames h.1
    rintro ⟨tracked, mode, hinit, -⟩
    rw [initialized_eq_none hworkload hnames] at hinit
    cases hinit
  obtain ⟨tracked, hinit, htracked⟩ := initialized_eq_some traceAllCallees hworkload hnames
  have hstray : (∀ s, workload = some s → ¬StrayComma s) ↔ "" ∉ getUserWorkloadFunctions workload := by
    rw [empty_mem_getUserWorkloadFunctions]
    push Not
    rfl
  simp only [hstray, hworkload, false_or, and_iff_right hnames, InitializedByEntries, hinit, Option.some.injEq,
    Prod.mk.injEq, and_assoc, exists_and_left, exists_eq_left', modeOfEntries_iff]
  by_cases hempty : "" ∈ getUserWorkloadFunctions workload
  · simp only [hempty, not_true_eq_false, false_or, tracksEntries_iff_of_stray hempty htracked]
  · simp only [hempty, not_false_eq_true, true_or, and_true, iff_true]
    exact tracksEntries_of_no_stray hempty htracked

end

/-- A comma before the only name: a C function that is not named is tracked,
and the mode is not top-level. -/
theorem not_initializedByEntries_strayComma :
    ¬InitializedByEntries (some ",md") false [⟨"md", ""⟩, ⟨"md_kernel", ""⟩] := by
  rintro ⟨tracked, mode, hinit, htracks, -⟩
  have htracked : initialized (some ",md") false [⟨"md", ""⟩, ⟨"md_kernel", ""⟩] =
      some (["md_kernel", "md"], some false) := by decide
  rw [htracked] at hinit
  cases hinit
  obtain ⟨S, hS, hkey, hmatch⟩ := (htracks "md_kernel").1 (by simp)
  have hnames : entries (some ",md") = ["md"] := by decide
  rw [hnames] at hmatch
  simp only [List.mem_cons, List.not_mem_nil, or_false] at hS
  rcases hS with rfl | rfl
  · exact absurd hkey (by decide)
  · simp [Subprogram.MatchesEntry] at hmatch

end LlvmTracer.Pass
