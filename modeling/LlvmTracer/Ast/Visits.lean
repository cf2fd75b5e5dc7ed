/-
What a visit changes in the label map.

An entry is its lines, its callers and its inlined flag (`ext_info`), so a
visit is what it does to these: a function's visit assigns the lines of its
own labels, adds the function to the caller sets of the functions it calls,
and may set its own flag. `VisitAllChildStmtsOf` does the first two and
nothing else (`visitAllChildStmtsOf_collects`).
-/
import LlvmTracer.Ast.LabelMap

namespace LlvmTracer.Ast

open OrdMap

/-- A label, with the line of the first statement below it that is not one. -/
def Stmt.labelLine? : Stmt → Option (Name × Nat)
  | .label _ name subStmt => some (name, subStmt.skipLabels.line)
  | .call .. | .other .. => none

/-- The function a call expression calls directly. -/
def Stmt.callee? : Stmt → Option Name
  | .call _ callee _ => callee
  | .label .. | .other .. => none

def LabelMap.line (m : LabelMap) (function label : Name) : Option Nat :=
  (m.info function).labelToLineNum.find? label

/-- The caller set, in its order. -/
def LabelMap.callers (m : LabelMap) (function : Name) : List Name := (m.info function).callers.keys

theorem FunctionInfo.ext_find? {info info' : FunctionInfo}
    (hline : ∀ l, info.labelToLineNum.find? l = info'.labelToLineNum.find? l)
    (hcallers : ∀ g, g ∈ info.callers.keys ↔ g ∈ info'.callers.keys) (hinlined : info.inlined = info'.inlined) :
    info = info' := by
  have hfind : ∀ g, info.callers.find? g = info'.callers.find? g := fun g => by
    have hg := hcallers g
    rw [mem_keys, mem_keys] at hg
    cases h : info.callers.find? g <;> cases h' : info'.callers.find? g <;> simp_all
  obtain ⟨lines, callers, inlined⟩ := info
  obtain ⟨lines', callers', inlined'⟩ := info'
  obtain rfl := OrdMap.ext_find? hline
  obtain rfl := OrdMap.ext_find? hfind
  obtain rfl : inlined = inlined' := hinlined
  rfl

/-- An entry is what is read of it. -/
theorem LabelMap.find?_eq_of_info {m m' : LabelMap} {f : Name} (hkey : f ∈ m.keys ↔ f ∈ m'.keys)
    (hinfo : m.info f = m'.info f) : m.find? f = m'.find? f := by
  rw [mem_keys, mem_keys] at hkey
  unfold LabelMap.info OrdMap.value at hinfo
  cases h : m.find? f <;> cases h' : m'.find? f <;> simp_all

theorem LabelMap.ext_info {m m' : LabelMap} (hkeys : ∀ f, f ∈ m.keys ↔ f ∈ m'.keys)
    (hline : ∀ f l, m.line f l = m'.line f l) (hcallers : ∀ f g, g ∈ m.callers f ↔ g ∈ m'.callers f)
    (hinlined : ∀ f, (m.info f).inlined = (m'.info f).inlined) : m = m' :=
  OrdMap.ext_find? fun f =>
    find?_eq_of_info (hkeys f) (FunctionInfo.ext_find? (hline f) (hcallers f) (hinlined f))

theorem LabelMap.info_modify (m : LabelMap) (g f : Name) (upd : FunctionInfo → FunctionInfo) :
    (m.modify g upd).info f = if f = g then upd (m.info g) else m.info f := by
  rw [LabelMap.info, LabelMap.modify, value_update]
  congr

theorem LabelMap.mem_keys_modify {m : LabelMap} {g f : Name} {upd : FunctionInfo → FunctionInfo} :
    f ∈ (m.modify g upd).keys ↔ f = g ∨ f ∈ m.keys :=
  mem_keys_insert

/-! ## A statement -/

section

variable (func : FunctionDecl) (m : LabelMap) (st : Stmt) (f l g : Name)

theorem line_handleChild : (handleChild func m (some st)).line f l =
    if f = func.qualifiedName then (st.labelLine?.toList.lookup l).or (m.line f l) else m.line f l := by
  have hcall : ∀ m : LabelMap, (handleIfCallExpr (some st) func m).line f l = m.line f l := fun m => by
    unfold handleIfCallExpr
    split
    · rfl
    split
    · rw [LabelMap.line, LabelMap.info_modify]
      split
      · next he => rw [he]; rfl
      · rfl
    · rfl
  rw [handleChild, hcall]
  cases st with
  | label line name subStmt =>
    simp only [handleIfLabelStmt, addToLabelMap, LabelMap.line, LabelMap.info_modify, Stmt.labelLine?]
    by_cases hf : f = func.qualifiedName
    · subst hf
      rw [if_pos rfl, if_pos rfl, FunctionInfo.find?_setLine, Option.toList_some]
      by_cases hl : l = name
      · subst hl
        rw [if_pos rfl, List.lookup_cons_self, Option.some_or]
      · rw [if_neg hl, List.lookup_cons, beq_false_of_ne hl]
        rfl
    · simp only [if_neg hf]
  | call | other => simp [handleIfLabelStmt, Stmt.labelLine?]

theorem info_handleIfLabelStmt : ((handleIfLabelStmt (some st) func m).info f).callers = (m.info f).callers ∧
    ((handleIfLabelStmt (some st) func m).info f).inlined = (m.info f).inlined := by
  cases st with
  | label line name subStmt =>
    simp only [handleIfLabelStmt, addToLabelMap, LabelMap.info_modify]
    split
    · next he => rw [he]; exact ⟨rfl, rfl⟩
    · exact ⟨rfl, rfl⟩
  | call | other => exact ⟨rfl, rfl⟩

theorem callers_handleChild : g ∈ (handleChild func m (some st)).callers f ↔
    g ∈ m.callers f ∨ g = func.qualifiedName ∧ func.isMain = false ∧ st.callee? = some f := by
  have hlabel := (info_handleIfLabelStmt func m st f).1
  rw [handleChild]
  generalize handleIfLabelStmt (some st) func m = m' at hlabel
  rw [LabelMap.callers, LabelMap.callers, ← hlabel]
  unfold handleIfCallExpr
  cases hmain : func.isMain with
  | true => simp
  | false =>
    rw [if_neg Bool.false_ne_true]
    split
    · next callee _ heq =>
      cases heq
      rw [LabelMap.info_modify]
      by_cases hf : f = callee
      · subst hf
        simp [FunctionInfo.addCaller, mem_keys_insert, Stmt.callee?, or_comm]
      · simp [hf, Stmt.callee?, Ne.symm hf]
    · next hno =>
      have hcallee : st.callee? = none := by
        cases st with
        | call line callee children =>
          cases callee with
          | none => rfl
          | some callee => exact absurd rfl (hno line callee children)
        | label | other => rfl
      simp [hcallee]

theorem inlined_handleChild : ((handleChild func m (some st)).info f).inlined = (m.info f).inlined := by
  rw [handleChild, ← (info_handleIfLabelStmt func m st f).2]
  unfold handleIfCallExpr
  split
  · rfl
  split
  · rw [LabelMap.info_modify]
    split
    · next he => rw [he]; rfl
    · rfl
  · rfl

theorem keys_handleChild : f ∈ (handleChild func m (some st)).keys ↔ f ∈ m.keys ∨
    f = func.qualifiedName ∧ st.labelLine?.isSome ∨ func.isMain = false ∧ st.callee? = some f := by
  cases st with
  | label line name subStmt =>
    simp [handleChild, handleIfLabelStmt, handleIfCallExpr, addToLabelMap, LabelMap.mem_keys_modify, Stmt.labelLine?,
      Stmt.callee?, or_comm]
  | call line callee children =>
    cases callee <;> cases hmain : func.isMain <;>
      simp [handleChild, handleIfLabelStmt, handleIfCallExpr, LabelMap.mem_keys_modify, Stmt.labelLine?, Stmt.callee?, hmain,
        or_comm, eq_comm]
  | other => simp [handleChild, handleIfLabelStmt, handleIfCallExpr, Stmt.labelLine?, Stmt.callee?]

end

/-! ## The statements of a body -/

/-- The value all of a key's entries have. -/
theorem lookup_eq_of_mem {α β : Type*} [BEq α] [LawfulBEq α] {es : List (α × β)} {k : α} {v : β} (h : (k, v) ∈ es)
    (huniq : ∀ v', (k, v') ∈ es → v' = v) : es.lookup k = some v := by
  have hsome : (es.lookup k).isSome := List.lookup_isSome_iff.2 ⟨(k, v), h, BEq.rfl⟩
  obtain ⟨v', hv'⟩ := Option.isSome_iff_exists.1 hsome
  obtain ⟨es₁, es₂, rfl, -⟩ := List.lookup_eq_some_iff.1 hv'
  rw [hv', huniq v' (by simp)]

theorem mem_of_lookup {α β : Type*} [BEq α] [LawfulBEq α] {es : List (α × β)} {k : α} {v : β} (h : es.lookup k = some v) :
    (k, v) ∈ es := by
  obtain ⟨es₁, es₂, rfl, -⟩ := List.lookup_eq_some_iff.1 h
  simp

section

variable (func : FunctionDecl) (order : List Stmt) (m : LabelMap) (f l g : Name)

/-- The last line assigned is the one that stays. -/
theorem line_foldl : (order.foldl (fun m st => handleChild func m (some st)) m).line f l =
    if f = func.qualifiedName then ((order.filterMap Stmt.labelLine?).reverse.lookup l).or (m.line f l)
    else m.line f l := by
  induction order generalizing m with
  | nil => simp
  | cons st order ih =>
    rw [List.foldl_cons, ih, line_handleChild]
    by_cases hf : f = func.qualifiedName
    · rw [if_pos hf, if_pos hf, if_pos hf, ← Option.or_assoc, ← List.lookup_append]
      cases h : st.labelLine? <;> simp [h]
    · rw [if_neg hf, if_neg hf, if_neg hf]

theorem callers_foldl : g ∈ (order.foldl (fun m st => handleChild func m (some st)) m).callers f ↔
    g ∈ m.callers f ∨ g = func.qualifiedName ∧ func.isMain = false ∧ ∃ st ∈ order, st.callee? = some f := by
  induction order generalizing m with
  | nil => simp
  | cons st order ih =>
    rw [List.foldl_cons, ih, callers_handleChild]
    simp only [List.mem_cons, exists_eq_or_imp]
    tauto

theorem inlined_foldl :
    ((order.foldl (fun m st => handleChild func m (some st)) m).info f).inlined = (m.info f).inlined := by
  induction order generalizing m with
  | nil => rfl
  | cons st order ih => rw [List.foldl_cons, ih, inlined_handleChild]

theorem keys_foldl : f ∈ (order.foldl (fun m st => handleChild func m (some st)) m).keys ↔ f ∈ m.keys ∨
    ∃ st ∈ order, f = func.qualifiedName ∧ st.labelLine?.isSome ∨ func.isMain = false ∧ st.callee? = some f := by
  induction order generalizing m with
  | nil => simp
  | cons st order ih =>
    rw [List.foldl_cons, ih, keys_handleChild]
    simp only [List.mem_cons, exists_eq_or_imp]
    exact or_assoc

end

/-- The line is one of a statement that is not labeled. -/
theorem Stmt.labelName?_skipLabels (st : Stmt) : st.skipLabels.labelName? = none := by
  induction st using Stmt.skipLabels.induct with
  | case1 _ _ subStmt ih => exact ih
  | case2 | case3 => rfl

theorem labelLine?_eq_some {st : Stmt} {l : Name} {n : Nat} :
    st.labelLine? = some (l, n) ↔ ∃ line subStmt, st = .label line l subStmt ∧ n = subStmt.skipLabels.line := by
  cases st with
  | label line name subStmt =>
    simp only [Stmt.labelLine?, Option.some.injEq, Prod.mk.injEq, Stmt.label.injEq]
    constructor
    · rintro ⟨rfl, rfl⟩
      exact ⟨line, subStmt, ⟨rfl, rfl, rfl⟩, rfl⟩
    · rintro ⟨_, _, ⟨rfl, rfl, rfl⟩, rfl⟩
      exact ⟨rfl, rfl⟩
  | call | other => simp [Stmt.labelLine?]

theorem map_fst_labelLine? (order : List Stmt) :
    (order.filterMap Stmt.labelLine?).map Prod.fst = order.filterMap Stmt.labelName? := by
  rw [List.map_filterMap]
  refine List.filterMap_congr fun st _ => ?_
  cases st <;> rfl

mutual

/-- What is below a statement that is below is below. -/
theorem mem_descendants_of_mem : ∀ {st s t : Stmt}, s ∈ st.descendants → t ∈ s.descendants → t ∈ st.descendants
  | .label _ _ subStmt, s, t, hs, ht => by
    rcases List.mem_cons.1 hs with rfl | hs
    · exact List.mem_cons_of_mem _ ht
    · exact List.mem_cons_of_mem _ (mem_descendants_of_mem hs ht)
  | .call _ _ children, s, t, hs, ht | .other _ children, s, t, hs, ht => mem_descendantsOf_of_mem hs ht

theorem mem_descendantsOf_of_mem : ∀ {children : List (Option Stmt)} {s t : Stmt}, s ∈ descendantsOf children →
    t ∈ s.descendants → t ∈ descendantsOf children
  | [], _, _, hs, _ => nomatch hs
  | child :: children, s, t, hs, ht => by
    rw [descendantsOf, List.mem_append] at hs ⊢
    rcases hs with hs | hs
    · exact .inl (mem_withDescendants_of_mem hs ht)
    · exact .inr (mem_descendantsOf_of_mem hs ht)

theorem mem_withDescendants_of_mem : ∀ {child : Option Stmt} {s t : Stmt}, s ∈ withDescendants child →
    t ∈ s.descendants → t ∈ withDescendants child
  | some st, s, t, hs, ht => by
    rcases List.mem_cons.1 hs with rfl | hs
    · exact List.mem_cons_of_mem _ ht
    · exact List.mem_cons_of_mem _ (mem_descendants_of_mem hs ht)

end

section

variable {func : FunctionDecl} {body : Stmt} {m : LabelMap}

theorem mem_visitOrder {st : Stmt} : st ∈ body.visitOrder ↔ st ∈ body.descendants := (perm_visitOrder body).mem_iff

theorem line_of_label (hlabels : (body.descendants.filterMap Stmt.labelName?).Nodup) {line : Nat} {label : Name}
    {subStmt : Stmt} (hst : .label line label subStmt ∈ body.descendants) :
    (visitAllChildStmtsOf func body m).line func.qualifiedName label = some subStmt.skipLabels.line := by
  have hnames : ((body.visitOrder.filterMap Stmt.labelLine?).reverse.map Prod.fst).Nodup := by
    rw [List.map_reverse, List.nodup_reverse, map_fst_labelLine?]
    exact ((perm_visitOrder body).filterMap _).nodup_iff.2 hlabels
  have hin : (label, subStmt.skipLabels.line) ∈ (body.visitOrder.filterMap Stmt.labelLine?).reverse :=
    List.mem_reverse.2 (List.mem_filterMap.2 ⟨_, mem_visitOrder.2 hst, rfl⟩)
  have hlookup := lookup_eq_of_mem hin fun n hn => congrArg Prod.snd (List.inj_on_of_nodup_map hnames hn hin rfl)
  rw [visitAllChildStmtsOf_eq, line_foldl, if_pos rfl, hlookup, Option.some_or]

theorem line_of_no_label {f l : Name}
    (hno : f = func.qualifiedName → ∀ st ∈ body.descendants, st.labelName? ≠ some l) :
    (visitAllChildStmtsOf func body m).line f l = m.line f l := by
  rw [visitAllChildStmtsOf_eq, line_foldl]
  split
  · next hf =>
    have hnone : (body.visitOrder.filterMap Stmt.labelLine?).reverse.lookup l = none := by
      cases hl : (body.visitOrder.filterMap Stmt.labelLine?).reverse.lookup l with
      | none => rfl
      | some n =>
        obtain ⟨st, hst, hlabel⟩ := List.mem_filterMap.1 (List.mem_reverse.1 (mem_of_lookup hl))
        obtain ⟨line, subStmt, rfl, -⟩ := labelLine?_eq_some.1 hlabel
        exact absurd rfl (hno hf _ (mem_visitOrder.1 hst))
    rw [hnone, Option.none_or]
  · rfl

theorem mem_callers_visitAllChildStmtsOf {f g : Name} : g ∈ (visitAllChildStmtsOf func body m).callers f ↔
    g ∈ m.callers f ∨ g = func.qualifiedName ∧ func.isMain = false ∧ ∃ st ∈ body.descendants, st.callee? = some f := by
  rw [visitAllChildStmtsOf_eq, callers_foldl]
  simp only [mem_visitOrder]

theorem inlined_visitAllChildStmtsOf (f : Name) :
    ((visitAllChildStmtsOf func body m).info f).inlined = (m.info f).inlined := by
  rw [visitAllChildStmtsOf_eq, inlined_foldl]

/-- A function that has no label in the body and is not called in it keeps its entry. -/
theorem find?_visitAllChildStmtsOf {f : Name}
    (hlabel : f = func.qualifiedName → ∀ st ∈ body.descendants, st.labelName? = none)
    (hcall : func.isMain = false → ∀ st ∈ body.descendants, st.callee? ≠ some f) :
    (visitAllChildStmtsOf func body m).find? f = m.find? f := by
  have hkey : f ∈ (visitAllChildStmtsOf func body m).keys ↔ f ∈ m.keys := by
    rw [visitAllChildStmtsOf_eq, keys_foldl]
    refine or_iff_left ?_
    rintro ⟨st, hst, ⟨hf, hsome⟩ | ⟨hmain, hcallee⟩⟩
    · obtain ⟨⟨l, n⟩, hl⟩ := Option.isSome_iff_exists.1 hsome
      obtain ⟨line, subStmt, rfl, -⟩ := labelLine?_eq_some.1 hl
      cases hlabel hf _ (mem_visitOrder.1 hst)
    · exact hcall hmain st (mem_visitOrder.1 hst) hcallee
  refine LabelMap.find?_eq_of_info hkey
    (FunctionInfo.ext_find? (fun l => ?_) (fun g => ?_) (inlined_visitAllChildStmtsOf f))
  · refine line_of_no_label fun hf st hst => ?_
    rw [hlabel hf st hst]
    exact (Option.some_ne_none l).symm
  · refine mem_callers_visitAllChildStmtsOf.trans (or_iff_left ?_)
    rintro ⟨-, hmain, st, hst, hcallee⟩
    exact hcall hmain st hst hcallee

end

/-- The visit of what is below `body` takes the label map from `m` to `m'`:
each statement is handled once, each label gets its line and each direct
callee the caller, and the rest stays as it was. -/
structure Collects (func : FunctionDecl) (body : Stmt) (m m' : LabelMap) : Prop where
  handled : ∃ order : List Stmt, order.Perm body.descendants ∧
    m' = order.foldl (fun m st => handleChild func m (some st)) m
  labels : ∀ line label subStmt, .label line label subStmt ∈ body.descendants →
    m'.line func.qualifiedName label = some subStmt.skipLabels.line
  /-- Labels right after one another have one line. -/
  chains : ∀ line label line' label' subStmt, .label line label (.label line' label' subStmt) ∈ body.descendants →
    m'.line func.qualifiedName label = m'.line func.qualifiedName label'
  otherLines : ∀ f l, (f = func.qualifiedName → ∀ st ∈ body.descendants, st.labelName? ≠ some l) →
    m'.line f l = m.line f l
  callers : ∀ f g, g ∈ m'.callers f ↔
    g ∈ m.callers f ∨ g = func.qualifiedName ∧ func.isMain = false ∧ ∃ st ∈ body.descendants, st.callee? = some f
  inlined : ∀ f, (m'.info f).inlined = (m.info f).inlined
  otherEntries : ∀ f, (f = func.qualifiedName → ∀ st ∈ body.descendants, st.labelName? = none) →
    (func.isMain = false → ∀ st ∈ body.descendants, st.callee? ≠ some f) → m'.find? f = m.find? f

/-- **A body's visit.** With each label's name once in the body. -/
theorem visitAllChildStmtsOf_collects (func : FunctionDecl) (body : Stmt) (m : LabelMap)
    (hlabels : (body.descendants.filterMap Stmt.labelName?).Nodup) :
    Collects func body m (visitAllChildStmtsOf func body m) where
  handled := ⟨_, perm_visitOrder body, visitAllChildStmtsOf_eq func body m⟩
  labels _ _ _ := line_of_label hlabels
  chains line label line' label' subStmt hst := by
    have hsub : .label line' label' subStmt ∈ (Stmt.label line label (.label line' label' subStmt)).descendants :=
      List.mem_cons_self
    rw [line_of_label hlabels hst, line_of_label hlabels (mem_descendants_of_mem hst hsub)]
    rfl
  otherLines _ _ := line_of_no_label
  callers _ _ := mem_callers_visitAllChildStmtsOf
  inlined := inlined_visitAllChildStmtsOf
  otherEntries _ := find?_visitAllChildStmtsOf

/-! ### A body's visit after two others' -/

def differentLine : FunctionDecl :=
  ⟨⟨"different_line".toList, by decide⟩, .free .c, false, [], some (.other 34
    [some (.label 35 ⟨"label_here".toList, by decide⟩ (.label 37 ⟨"label_in_between".toList, by decide⟩ (.other 40 [])))])⟩

def inlinedFoo : FunctionDecl :=
  ⟨⟨"foo".toList, by decide⟩, .free .c, false, [.alwaysInline],
    some (.other 19 [some (.label 20 ⟨"foo_label".toList, by decide⟩ (.other 20 []))])⟩

/-- `foo(x);` -/
def callFoo : Stmt := .call 54 (some inlinedFoo.qualifiedName) [some (.other 54 [some (.other 54 [])]), some (.other 54 [])]

/-- `for (;;) { inner: foo(x); }` -/
def callForever : Stmt :=
  .other 53 [none, none, none, none, some (.other 53 [some (.label 54 ⟨"inner".toList, by decide⟩ callFoo)])]

/-- The loop has two labels. -/
def driverBody : Stmt :=
  .other 50 [some (.label 51 ⟨"outer".toList, by decide⟩ (.label 52 ⟨"forever".toList, by decide⟩ callForever))]

def driver : FunctionDecl := ⟨⟨"driver".toList, by decide⟩, .free .c, false, [], some driverBody⟩

/-- What the map holds when `driver` is visited. -/
def visitedBefore : LabelMap := visitFunctionDecl inlinedFoo (visitFunctionDecl differentLine ∅)

theorem visitAllChildStmtsOf_collects_driver :
    ∃ m', visitAllChildStmtsOf driver driverBody visitedBefore = m' ∧ Collects driver driverBody visitedBefore m' ∧
      m'.line driver.qualifiedName ⟨"outer".toList, by decide⟩ = some 53 ∧
      driver.qualifiedName ∈ m'.callers inlinedFoo.qualifiedName ∧ (m'.info inlinedFoo.qualifiedName).inlined = true ∧
      m'.line differentLine.qualifiedName ⟨"label_here".toList, by decide⟩ = some 40 := by
  have hcollects := visitAllChildStmtsOf_collects driver driverBody visitedBefore (by decide)
  refine ⟨_, rfl, hcollects, ?_, ?_, ?_, ?_⟩
  · exact hcollects.labels 51 _ _ List.mem_cons_self
  · refine (hcollects.callers _ _).2 (.inr ⟨rfl, rfl, callFoo, ?_, rfl⟩)
    simp [driverBody, callForever, Stmt.descendants, descendantsOf, withDescendants]
  · rw [hcollects.inlined]
    decide
  · rw [hcollects.otherLines _ _ fun hf => absurd hf (by decide)]
    decide

end LlvmTracer.Ast
