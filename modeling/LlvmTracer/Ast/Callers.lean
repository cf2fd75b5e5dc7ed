/-
Whom `findAllNoninlinedCallers` lists.

The search is one through the graph of the caller sets, whose inner nodes are
the inlined functions. It keeps no record of where it has been, so it returns
just where no inlined functions call one another in a circle, and lists
everyone once just where no two chains of inlined callers end in the same
function (`returnsOnce_iff`). In a visited unit every caller has an entry of
its own (`closed_visit`), and the search makes none for a caller.
-/
import LlvmTracer.Ast.Units
import LlvmTracer.Lib.Routes

namespace LlvmTracer.Ast

open OrdMap Relation

def LabelMap.isInlined (m : LabelMap) (f : Name) : Bool := (m.info f).inlined

/-- From a function to a caller that is inlined. -/
abbrev LabelMap.InlinedCaller (m : LabelMap) : Name → Name → Prop := Routes.Step m.callers m.isInlined

/-- A chain of callers from `f` to `g`, which is not inlined: the inlined
ones between them. -/
abbrev LabelMap.CallChain (m : LabelMap) (f : Name) (chain : List Name) (g : Name) : Prop :=
  Routes.Route m.callers m.isInlined f chain g

theorem LabelMap.search_eq_gather (m : LabelMap) (fuel : Nat) (f : Name) (callers : List Name) :
    m.search fuel f callers = Routes.gather m.callers m.isInlined fuel f callers := by
  induction fuel generalizing f callers with
  | zero => rfl
  | succ fuel ih =>
    simp only [LabelMap.search, Routes.gather, ih]
    rw [LabelMap.callers, keys, List.foldlM_map]
    rfl

theorem LabelMap.callers_subset_names (m : LabelMap) (f : Name) : m.callers f ⊆ m.names := fun g hg => by
  obtain ⟨caller, hcaller, rfl⟩ := List.mem_map.1 hg
  exact LabelMap.caller_mem_names hcaller

theorem LabelMap.callers_of_not_mem_keys {m : LabelMap} {f : Name} (h : f ∉ m.keys) : m.callers f = [] := by
  have hnone : m.find? f = none := by rwa [mem_keys, Option.not_isSome_iff_eq_none] at h
  rw [LabelMap.callers, LabelMap.info, OrdMap.value, hnone]
  rfl

/-- What is found, whether or not the function has an entry. -/
theorem findAllNoninlinedCallers_map (m : LabelMap) (fuel : Nat) (f : Name) :
    (findAllNoninlinedCallers fuel f m []).map (·.2) = m.search fuel f [] := by
  by_cases hf : f ∈ m.names
  · exact (findAllNoninlinedCallers_eq fuel [] (Grown.refl m) hf).1
  · have hkey : f ∉ m.keys := fun hkey => by
      obtain ⟨funcInfo, hfind⟩ := Option.isSome_iff_exists.1 (mem_keys.1 hkey)
      exact hf (LabelMap.mem_names hfind)
    have hnil : (m.info f).callers.entries = [] := List.map_eq_nil_iff.1 (LabelMap.callers_of_not_mem_keys hkey)
    cases fuel with
    | zero => rfl
    | succ fuel =>
      have htouch : LabelMap.info (m.touch .new f) f = m.info f := value_touch m f f
      simp only [findAllNoninlinedCallers, LabelMap.search, htouch, hnil]
      rfl

theorem search_eq_some {m : LabelMap} {fuel : Nat} {f : Name} {callers : List Name} :
    m.search fuel f [] = some callers ↔ Routes.Returns m.callers m.isInlined fuel f ∧
      callers = Routes.found m.callers m.isInlined fuel f := by
  rw [LabelMap.search_eq_gather, Routes.gather_eq_some, List.nil_append]

/-- The search for `f`'s callers returns, and finds nobody twice. -/
def LabelMap.ReturnsOnce (m : LabelMap) (f : Name) : Prop :=
  ∃ fuel m' callers, findAllNoninlinedCallers fuel f m [] = some (m', callers) ∧ callers.Nodup

theorem LabelMap.returnsOnce_iff_search {m : LabelMap} {f : Name} :
    m.ReturnsOnce f ↔ ∃ fuel callers, m.search fuel f [] = some callers ∧ callers.Nodup := by
  simp only [LabelMap.ReturnsOnce, ← findAllNoninlinedCallers_map, Option.map_eq_some_iff, Prod.exists]
  constructor
  · rintro ⟨fuel, m', callers, h, hnd⟩
    exact ⟨fuel, callers, ⟨m', callers, h, rfl⟩, hnd⟩
  · rintro ⟨fuel, _, ⟨m', callers, h, rfl⟩, hnd⟩
    exact ⟨fuel, m', callers, h, hnd⟩

/-- **The search for callers.** It returns without repetition just when no
inlined function is ahead that comes back to itself through inlined callers,
and no function is at the end of two chains. -/
theorem returnsOnce_iff (m : LabelMap) (f : Name) : m.ReturnsOnce f ↔
    (∀ g, ReflTransGen m.InlinedCaller f g → ¬ TransGen m.InlinedCaller g g) ∧
    ∀ g chain chain', m.CallChain f chain g → m.CallChain f chain' g → chain = chain' := by
  have hnodup : ∀ g, (m.callers g).Nodup := fun g => keys_nodup _
  rw [LabelMap.returnsOnce_iff_search, ← Routes.exists_returns_iff m.callers_subset_names]
  simp only [search_eq_some]
  constructor
  · rintro ⟨fuel, _, ⟨hret, rfl⟩, hnd⟩
    exact ⟨⟨fuel, hret⟩, (Routes.nodup_found hnodup hret).1 hnd⟩
  · rintro ⟨⟨fuel, hret⟩, huniq⟩
    exact ⟨fuel, _, ⟨hret, rfl⟩, (Routes.nodup_found hnodup hret).2 huniq⟩

def inlinedCaller (name : String) (hname : '\x00' ∉ name.toList) (callee : Name) : FunctionDecl :=
  ⟨⟨name.toList, hname⟩, .free .c, false, [.alwaysInline], some (.other 10 [some (.call 11 (some callee) [])])⟩

def addTwice : FunctionDecl :=
  ⟨workName, .free .c, false, [],
    some (.other 20 [some (.call 21 (some ⟨"left".toList, by decide⟩) []),
      some (.call 22 (some ⟨"right".toList, by decide⟩) [])])⟩

/-- `work` calls the inlined `left` and `right`, which both call `add`: it is
listed twice. For the inlined `again`, which calls itself, the search does
not return. -/
theorem not_returnsOnce :
    ¬ LabelMap.ReturnsOnce (TranslationUnit.visit [addDefinition, inlinedCaller "left" (by decide) addName,
      inlinedCaller "right" (by decide) addName, addTwice] ∅) addName ∧
    ¬ LabelMap.ReturnsOnce (TranslationUnit.visit [inlinedCaller "again" (by decide) ⟨"again".toList, by decide⟩] ∅)
      ⟨"again".toList, by decide⟩ := by
  constructor
  · rw [LabelMap.returnsOnce_iff_search]
    rintro ⟨fuel, callers, h, hnd⟩
    have htwice : LabelMap.search (TranslationUnit.visit [addDefinition, inlinedCaller "left" (by decide) addName,
        inlinedCaller "right" (by decide) addName, addTwice] ∅) 3 addName [] =
        some [workName, workName] := by decide
    have hmax := LabelMap.search_mono (Nat.le_max_left fuel 3) h
    rw [LabelMap.search_mono (Nat.le_max_right fuel 3) htwice] at hmax
    obtain rfl := Option.some.inj hmax
    simp at hnd
  · rw [LabelMap.returnsOnce_iff_search]
    rintro ⟨fuel, callers, h, -⟩
    exact (search_eq_some.1 h).1.no_cycle (.single ⟨by decide, by decide⟩)

/-! ## A visited unit -/

/-- Every caller has an entry. -/
def LabelMap.Closed (m : LabelMap) : Prop := ∀ f, ∀ g ∈ m.callers f, g ∈ m.keys

theorem closed_visit (tu : TranslationUnit) : LabelMap.Closed (tu.visit ∅) := by
  intro f g hg
  rw [callers_visit] at hg
  rw [keys_visit]
  rcases hg with hg | ⟨func, hfunc, rfl, hcalls⟩
  · cases hg
  · refine .inr ⟨func, hfunc, .inl ⟨?_, rfl⟩⟩
    by_contra hno
    obtain ⟨-, st, hst, -⟩ := hcalls
    rw [handled_of_not_isVisited hno] at hst
    cases hst

theorem LabelMap.callers_touch (m : LabelMap) (f g : Name) :
    LabelMap.callers (m.touch .new f) g = m.callers g := by
  rw [LabelMap.callers, LabelMap.info, value_touch]
  rfl

theorem LabelMap.mem_keys_touch {m : LabelMap} {f g : Name} :
    g ∈ (m.touch .new f).keys ↔ g = f ∨ g ∈ m.keys := by
  rw [mem_keys, mem_keys, find?_touch]
  split <;> simp_all

/-- A subscript makes at most the one entry. -/
theorem LabelMap.Closed.touch {m : LabelMap} (h : m.Closed) (f : Name) : LabelMap.Closed (m.touch .new f) := by
  intro g g' hg
  rw [LabelMap.callers_touch] at hg
  exact LabelMap.mem_keys_touch.2 (.inr (h g g' hg))

/-- From an entry on the search makes no other. -/
theorem findAllNoninlinedCallers_closed {m : LabelMap} (h : m.Closed) (fuel : Nat) : ∀ {leaf : Name}
    {callers : List Name}, leaf ∈ m.keys → ∀ r ∈ findAllNoninlinedCallers fuel leaf m callers, r.1 = m := by
  induction fuel with
  | zero => exact fun _ _ hr => nomatch hr
  | succ fuel ih =>
    intro leaf callers hleaf
    have hmem : ∀ caller ∈ (m.info leaf).callers.entries, caller.1 ∈ m.keys :=
      fun caller hc => h leaf caller.1 (List.mem_map_of_mem hc)
    simp only [findAllNoninlinedCallers, touch_of_isSome (mem_keys.1 hleaf)]
    revert hmem
    generalize (m.info leaf).callers.entries = entries
    induction entries generalizing callers with
    | nil =>
      intro _ r hr
      cases hr
      rfl
    | cons caller entries ihe =>
      intro hmem r hr
      obtain ⟨hc, hmem⟩ := List.forall_mem_cons.1 hmem
      simp only [List.foldlM_cons, touch_of_isSome (mem_keys.1 hc)] at hr
      split at hr
      · cases hf : findAllNoninlinedCallers fuel caller.1 m callers with
        | none =>
          rw [hf] at hr
          cases hr
        | some r' =>
          obtain rfl : r'.1 = m := ih hc r' hf
          rw [hf] at hr
          exact ihe hmem r hr
      · exact ihe hmem r hr

/-- The entry of `f` is all that a search for its callers may make. -/
theorem findAllNoninlinedCallers_touch {m : LabelMap} (h : m.Closed) {fuel : Nat} {f : Name}
    {r : LabelMap × List Name} (hr : findAllNoninlinedCallers fuel f m [] = some r) : r.1 = m.touch .new f := by
  have hkey : f ∈ (m.touch .new f).keys := LabelMap.mem_keys_touch.2 (.inl rfl)
  have hsame : findAllNoninlinedCallers fuel f (m.touch .new f) [] = findAllNoninlinedCallers fuel f m [] := by
    cases fuel with
    | zero => rfl
    | succ fuel => simp only [findAllNoninlinedCallers, touch_of_isSome (mem_keys.1 hkey)]
  exact findAllNoninlinedCallers_closed (h.touch f) fuel hkey r (hsame.trans hr)

/-- **When lines are written.** Just when no inlined functions call one
another in a circle. -/
theorem exists_dump_iff (m : LabelMap) :
    (∃ fuel lines, dump fuel m = some lines) ↔ ∀ f, ¬ TransGen m.InlinedCaller f f := by
  constructor
  · rintro ⟨fuel, lines, h⟩ f hcycle
    obtain ⟨_, -, hlast⟩ := TransGen.tail'_iff.1 hcycle
    obtain ⟨funcInfo, hfind⟩ : ∃ funcInfo, m.find? f = some funcInfo := by
      cases hf : m.find? f with
      | some funcInfo => exact ⟨funcInfo, rfl⟩
      | none =>
        have hinlined := hlast.2
        rw [LabelMap.isInlined, LabelMap.info, OrdMap.value, hf] at hinlined
        cases hinlined
    have hinlined : funcInfo.inlined = true := by
      have hinlined := hlast.2
      rwa [LabelMap.isInlined, LabelMap.info, OrdMap.value, hfind] at hinlined
    obtain ⟨callers, hsearch⟩ := Option.isSome_iff_exists.1
      (dumpFrom_search fuel (Grown.refl m) h f funcInfo hfind (fun _ h => by cases h) hinlined)
    exact (search_eq_some.1 hsearch).1.no_cycle hcycle
  · intro hacyclic
    have hsearch : ∀ f, ∃ fuel callers, m.search fuel f [] = some callers := fun f => by
      obtain ⟨fuel, hret⟩ := (Routes.exists_returns_iff m.callers_subset_names).2 fun g _ => hacyclic g
      exact ⟨fuel, _, search_eq_some.2 ⟨hret, rfl⟩⟩
    choose fuel callers hsearch using hsearch
    obtain ⟨fuel₀, hfuel⟩ := LabelMap.exists_dump_of_search fun f _ _ _ => ⟨fuel f, hsearch f⟩
    exact ⟨fuel₀, _, (hfuel fuel₀ le_rfl).1⟩

/-- From a function to a function of the unit that is to be inlined and calls
it. -/
def TranslationUnit.InlinedCaller (tu : TranslationUnit) (f g : Name) : Prop :=
  (∃ func ∈ tu, g = func.qualifiedName ∧ func.Calls f) ∧ ∃ func ∈ tu, g = func.qualifiedName ∧ func.SetsInlined

theorem inlinedCaller_visit (tu : TranslationUnit) : LabelMap.InlinedCaller (tu.visit ∅) = tu.InlinedCaller := by
  funext f g
  refine propext (and_congr ?_ ?_)
  · rw [callers_visit]
    exact or_iff_right (nofun)
  · rw [LabelMap.isInlined, inlined_visit]
    exact or_iff_right (nofun)

/-- A circle of inlined callers is one of callers that are all inlined. -/
theorem transGen_inlined {m : LabelMap} {f g : Name} (hf : m.isInlined f = true) (h : TransGen m.InlinedCaller f g) :
    TransGen (fun f g => m.isInlined f = true ∧ m.isInlined g = true ∧ g ∈ m.callers f) f g := by
  induction h with
  | single hstep => exact .single ⟨hf, hstep.2, hstep.1⟩
  | tail hpath hstep ih =>
    obtain ⟨_, -, hlast⟩ := TransGen.tail'_iff.1 hpath
    exact .tail ih ⟨hlast.2, hstep.2, hstep.1⟩

/-- **All non-inlined callers.** In a visited unit whose inlined functions do
not call one another in a circle, the search for a function's callers returns
those at the ends of the chains, and leaves the label map as it was, but for
the entry of the function itself if it had none. -/
theorem findAllNoninlinedCallers_visit (tu : TranslationUnit)
    (hacyclic : ∀ f, ¬ TransGen (fun f g => (tu.visit ∅).isInlined f = true ∧ (tu.visit ∅).isInlined g = true ∧
      g ∈ (tu.visit ∅).callers f) f f) (f : Name) :
    (∀ g, ∀ g' ∈ (tu.visit ∅).callers g, g' ∈ (tu.visit ∅).keys) ∧
    ∃ fuel callers, findAllNoninlinedCallers fuel f (tu.visit ∅) [] = some ((tu.visit ∅).touch .new f, callers) ∧
      (∀ g, g ∈ callers ↔ ∃ chain, (tu.visit ∅).CallChain f chain g) ∧
      (f ∈ (tu.visit ∅).keys → (tu.visit ∅).touch .new f = tu.visit ∅) := by
  have hclosed := closed_visit tu
  generalize tu.visit ∅ = m at hacyclic hclosed
  have hcycle : ∀ g, ReflTransGen m.InlinedCaller f g → ¬ TransGen m.InlinedCaller g g := fun g _ hg => by
    obtain ⟨_, -, hlast⟩ := TransGen.tail'_iff.1 hg
    exact hacyclic g (transGen_inlined hlast.2 hg)
  obtain ⟨fuel, hret⟩ := (Routes.exists_returns_iff m.callers_subset_names).2 hcycle
  have hsearch : m.search fuel f [] = some _ := search_eq_some.2 ⟨hret, rfl⟩
  rw [← findAllNoninlinedCallers_map, Option.map_eq_some_iff] at hsearch
  obtain ⟨⟨m', callers⟩, hfind, hcallers⟩ := hsearch
  obtain rfl : callers = Routes.found m.callers m.isInlined fuel f := hcallers
  obtain rfl : m' = m.touch .new f := findAllNoninlinedCallers_touch hclosed hfind
  exact ⟨hclosed, fuel, _, hfind, fun g => Routes.mem_found hret, fun hkey => touch_of_isSome (mem_keys.1 hkey)⟩

/-- No caller in this unit is inlined. -/
theorem acyclic_add (f : Name) :
    ¬ TransGen (fun f g => LabelMap.isInlined (TranslationUnit.visit [addDefinition, addCaller] ∅) f = true ∧
      LabelMap.isInlined (TranslationUnit.visit [addDefinition, addCaller] ∅) g = true ∧
      g ∈ LabelMap.callers (TranslationUnit.visit [addDefinition, addCaller] ∅) f) f f := by
  intro h
  obtain ⟨g, -, -, hinlined, hcaller⟩ := TransGen.tail'_iff.1 h
  rw [callers_visit] at hcaller
  rcases hcaller with hcaller | ⟨func, hfunc, rfl, hcalls⟩
  · cases hcaller
  · rcases List.mem_pair.1 hfunc with rfl | rfl
    · obtain ⟨-, st, hst, hcallee⟩ := hcalls
      simp [addDefinition, addPrototype, FunctionDecl.handled, Stmt.visitOrder, stackOrder, poppedOrder,
        List.reduceOption] at hst
      rcases hst with rfl | rfl <;> cases hcallee
    · exact absurd hinlined (by decide)

theorem findAllNoninlinedCallers_visit_add :
    ∃ fuel callers, findAllNoninlinedCallers fuel addName (TranslationUnit.visit [addDefinition, addCaller] ∅) [] =
        some (TranslationUnit.visit [addDefinition, addCaller] ∅, callers) ∧
      ∀ g, g ∈ callers ↔ ∃ chain, LabelMap.CallChain (TranslationUnit.visit [addDefinition, addCaller] ∅) addName chain g := by
  obtain ⟨-, fuel, callers, hfind, hmem, hsame⟩ :=
    findAllNoninlinedCallers_visit [addDefinition, addCaller] acyclic_add addName
  rw [hsame (by decide)] at hfind
  exact ⟨fuel, callers, hfind, hmem⟩

/-- A function that is only declared has no entry until its callers are
searched for. -/
theorem findAllNoninlinedCallers_makes_entry :
    (∀ f, ¬ TransGen (fun f g => LabelMap.isInlined (TranslationUnit.visit [{ addPrototype with body := none }] ∅) f = true ∧
      LabelMap.isInlined (TranslationUnit.visit [{ addPrototype with body := none }] ∅) g = true ∧
      g ∈ LabelMap.callers (TranslationUnit.visit [{ addPrototype with body := none }] ∅) f) f f) ∧
    ∃ r, findAllNoninlinedCallers 1 addName (TranslationUnit.visit [{ addPrototype with body := none }] ∅) [] = some r ∧
      r.1 ≠ TranslationUnit.visit [{ addPrototype with body := none }] ∅ := by
  refine ⟨fun f h => ?_, _, rfl, by decide⟩
  obtain ⟨g, -, -, -, hcaller⟩ := TransGen.tail'_iff.1 h
  cases hcaller

end LlvmTracer.Ast
