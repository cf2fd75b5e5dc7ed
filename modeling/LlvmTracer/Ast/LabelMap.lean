/-
What the visitor of `ast-pass/GetLabeledStmts.cpp` collects.

`visitAllChildStmtsOf` handles every statement below the one it is given
once (`visitAllChildStmtsOf_eq`, `perm_visitOrder`), and so a function's
entry gets just the labels of its body (`hasLabel_visitFunctionDecl`).
-/
import LlvmTracer.Ast.Syntax
import Mathlib.Data.List.Perm.Basic
import Mathlib.Data.List.ReduceOption

namespace LlvmTracer.Ast

/-- All the labels and caller information for a function. -/
structure FunctionInfo where
  labelToLineNum : OrdMap Name Nat
  callers : OrdMap Name Unit
  inlined : Bool
  deriving DecidableEq

/-- `FunctionInfo()` -/
def FunctionInfo.new : FunctionInfo := ⟨∅, ∅, false⟩

def FunctionInfo.setLine (info : FunctionInfo) (label : Name) (line : Nat) : FunctionInfo :=
  { info with labelToLineNum := info.labelToLineNum.update 0 label fun _ => line }

def FunctionInfo.addCaller (info : FunctionInfo) (function : Name) : FunctionInfo :=
  { info with callers := info.callers.insert function () }

def FunctionInfo.setInlined (info : FunctionInfo) (inlined : Bool) : FunctionInfo :=
  { info with inlined }

/-- Maps pairs of (func_name, label_name) to line numbers. -/
abbrev LabelMap := OrdMap Name FunctionInfo

/-- `labelMap[function]`, as it is read. -/
abbrev LabelMap.info (m : LabelMap) (function : Name) : FunctionInfo := m.value .new function

/-- `labelMap[function]`, updated. -/
abbrev LabelMap.modify (m : LabelMap) (function : Name) (f : FunctionInfo → FunctionInfo) : LabelMap :=
  m.update .new function f

/-! ## The visitor -/

/-- Add a (function,label) -> line number mapping. -/
def addToLabelMap (label : Name) (subStmt : Stmt) (func : FunctionDecl) (m : LabelMap) : LabelMap :=
  m.modify func.qualifiedName (·.setLine label subStmt.line)

/-- The first statement that is not labeled, of a statement and those it
labels. -/
def Stmt.skipLabels : Stmt → Stmt
  | .label _ _ subStmt => subStmt.skipLabels
  | .call line directCallee children => .call line directCallee children
  | .other line children => .other line children

def handleIfLabelStmt (st : Option Stmt) (func : FunctionDecl) (m : LabelMap) : LabelMap :=
  match st with
  | some (.label _ name subStmt) => addToLabelMap name subStmt.skipLabels func m
  | _ => m

def handleIfCallExpr (st : Option Stmt) (callerFunc : FunctionDecl) (m : LabelMap) : LabelMap :=
  if callerFunc.isMain then m
  else
    match st with
    | some (.call _ (some callee) _) => m.modify callee (·.addCaller callerFunc.qualifiedName)
    | _ => m

/-- Both handlers, as `VisitAllChildStmtsOf` calls them on a child. -/
def handleChild (func : FunctionDecl) (m : LabelMap) (child : Option Stmt) : LabelMap :=
  handleIfCallExpr child func (handleIfLabelStmt child func m)

mutual

/-- The children are handled in order and pushed, and then popped and
visited themselves. -/
def visitAllChildStmtsOf (func : FunctionDecl) : Stmt → LabelMap → LabelMap
  | .label _ _ subStmt, m => visitAllChildStmtsOf func subStmt (handleChild func m (some subStmt))
  | .call _ _ children, m => visitStack func children (children.foldl (handleChild func) m)
  | .other _ children, m => visitStack func children (children.foldl (handleChild func) m)

/-- The last child is on top of the stack. -/
def visitStack (func : FunctionDecl) : List (Option Stmt) → LabelMap → LabelMap
  | [], m => m
  | child :: children, m => visitPopped func child (visitStack func children m)

def visitPopped (func : FunctionDecl) : Option Stmt → LabelMap → LabelMap
  | none, m => m
  | some st, m => visitAllChildStmtsOf func st m

end

/-- For each function, recursively find every child label statement. -/
def visitFunctionDecl (func : FunctionDecl) (m : LabelMap) : LabelMap :=
  -- Only support free functions, not class member functions or templates.
  if func.form = .method then m
  else
    match func.body with
    | none => m
    | some body =>
      let m := m.touch .new func.qualifiedName
      let m := func.attrs.foldl
        (fun (m : LabelMap) kind => if kind = .alwaysInline then m.modify func.qualifiedName (·.setInlined true) else m) m
      visitAllChildStmtsOf func body m

/-- `HandleTranslationUnit` -/
def TranslationUnit.visit (tu : TranslationUnit) (m : LabelMap) : LabelMap :=
  tu.foldl (fun m func => visitFunctionDecl func m) m

/-! ## The order of the visit -/

mutual

/-- The statements below a statement, in the order they are handled. -/
def Stmt.visitOrder : Stmt → List Stmt
  | .label _ _ subStmt => subStmt :: subStmt.visitOrder
  | .call _ _ children | .other _ children => children.reduceOption ++ stackOrder children

def stackOrder : List (Option Stmt) → List Stmt
  | [] => []
  | child :: children => stackOrder children ++ poppedOrder child

def poppedOrder : Option Stmt → List Stmt
  | none => []
  | some st => st.visitOrder

end

theorem handleChild_none (func : FunctionDecl) (m : LabelMap) : handleChild func m none = m := by
  simp [handleChild, handleIfLabelStmt, handleIfCallExpr]

theorem foldl_handleChild (func : FunctionDecl) : ∀ (children : List (Option Stmt)) (m : LabelMap),
    children.foldl (handleChild func) m =
      children.reduceOption.foldl (fun m st => handleChild func m (some st)) m
  | [], _ => rfl
  | none :: children, m => by
    rw [List.foldl_cons, handleChild_none, List.reduceOption_cons_of_none, foldl_handleChild func children]
  | some st :: children, m => by
    rw [List.foldl_cons, List.reduceOption_cons_of_some, List.foldl_cons, foldl_handleChild func children]

mutual

theorem visitAllChildStmtsOf_eq (func : FunctionDecl) : ∀ (st : Stmt) (m : LabelMap),
    visitAllChildStmtsOf func st m = st.visitOrder.foldl (fun m st => handleChild func m (some st)) m
  | .label _ _ subStmt, m => by
    rw [visitAllChildStmtsOf, Stmt.visitOrder, List.foldl_cons, visitAllChildStmtsOf_eq func subStmt]
  | .call _ _ children, m | .other _ children, m => by
    rw [visitAllChildStmtsOf, Stmt.visitOrder, List.foldl_append, foldl_handleChild, visitStack_eq func children]

theorem visitStack_eq (func : FunctionDecl) : ∀ (children : List (Option Stmt)) (m : LabelMap),
    visitStack func children m = (stackOrder children).foldl (fun m st => handleChild func m (some st)) m
  | [], m => rfl
  | child :: children, m => by
    rw [visitStack, stackOrder, List.foldl_append, visitStack_eq func children, visitPopped_eq func child]

theorem visitPopped_eq (func : FunctionDecl) : ∀ (child : Option Stmt) (m : LabelMap),
    visitPopped func child m = (poppedOrder child).foldl (fun m st => handleChild func m (some st)) m
  | none, m => rfl
  | some st, m => by rw [visitPopped, poppedOrder, visitAllChildStmtsOf_eq func st]

end

mutual

/-- Each statement below is handled exactly once. -/
theorem perm_visitOrder : ∀ st : Stmt, st.visitOrder.Perm st.descendants
  | .label _ _ subStmt => by
    rw [Stmt.visitOrder, Stmt.descendants]
    exact (perm_visitOrder subStmt).cons _
  | .call _ _ children | .other _ children => by
    rw [Stmt.visitOrder, Stmt.descendants]
    exact perm_stackOrder children

theorem perm_stackOrder : ∀ children : List (Option Stmt),
    (children.reduceOption ++ stackOrder children).Perm (descendantsOf children)
  | [] => .nil
  | child :: children => by
    have hchild := perm_poppedOrder child
    have hchildren := perm_stackOrder children
    rw [stackOrder, descendantsOf]
    refine .trans ?_ (hchild.append hchildren)
    cases child with
    | none => simp [poppedOrder, List.reduceOption_cons_of_none]
    | some st =>
      simp only [List.reduceOption_cons_of_some, Option.toList_some, List.cons_append, List.nil_append]
      rw [← List.append_assoc]
      exact (List.perm_append_comm).cons st

theorem perm_poppedOrder : ∀ child : Option Stmt, (child.toList ++ poppedOrder child).Perm (withDescendants child)
  | none => .nil
  | some st => by
    rw [poppedOrder, withDescendants]
    exact (perm_visitOrder st).cons st

end

/-! ## The labels of an entry -/

/-- There is a line number for the label in the function's entry. -/
def LabelMap.HasLabel (m : LabelMap) (function label : Name) : Prop :=
  ((m.info function).labelToLineNum.find? label).isSome

theorem FunctionInfo.find?_setLine (info : FunctionInfo) (label label' : Name) (line : Nat) :
    (info.setLine label line).labelToLineNum.find? label' =
      if label' = label then some line else info.labelToLineNum.find? label' := by
  rw [FunctionInfo.setLine, OrdMap.find?_update]
  congr

theorem not_hasLabel_empty (function label : Name) : ¬ LabelMap.HasLabel ∅ function label := nofun

/-- An update that leaves the line numbers alone. -/
theorem LabelMap.hasLabel_modify {m : LabelMap} {g f l : Name} {upd : FunctionInfo → FunctionInfo}
    (h : ∀ info, (upd info).labelToLineNum = info.labelToLineNum) :
    (m.modify g upd).HasLabel f l ↔ m.HasLabel f l := by
  simp only [LabelMap.HasLabel, LabelMap.info, LabelMap.modify, OrdMap.value_update]
  split
  · next he => rw [h, he]
  · rfl

theorem LabelMap.hasLabel_setLine (m : LabelMap) (g f label l : Name) (line : Nat) :
    (m.modify g (·.setLine label line)).HasLabel f l ↔ m.HasLabel f l ∨ f = g ∧ l = label := by
  simp only [LabelMap.HasLabel, LabelMap.info, LabelMap.modify, OrdMap.value_update]
  by_cases hf : f = g
  · subst hf
    by_cases hl : l = label <;> simp [FunctionInfo.find?_setLine, hl]
  · simp [hf]

theorem hasLabel_handleChild (func : FunctionDecl) (m : LabelMap) (st : Stmt) (f l : Name) :
    (handleChild func m (some st)).HasLabel f l ↔
      m.HasLabel f l ∨ f = func.qualifiedName ∧ st.labelName? = some l := by
  have hcall : ∀ m : LabelMap, (handleIfCallExpr (some st) func m).HasLabel f l ↔ m.HasLabel f l := fun m => by
    unfold handleIfCallExpr
    split
    · rfl
    split
    · exact LabelMap.hasLabel_modify fun _ => rfl
    · rfl
  rw [handleChild, hcall]
  cases st with
  | label line name subStmt =>
    rw [handleIfLabelStmt, addToLabelMap, LabelMap.hasLabel_setLine]
    simp [Stmt.labelName?, eq_comm]
  | call | other => simp [handleIfLabelStmt, Stmt.labelName?]

theorem hasLabel_visitAllChildStmtsOf (func : FunctionDecl) (st : Stmt) (m : LabelMap) (f l : Name) :
    (visitAllChildStmtsOf func st m).HasLabel f l ↔
      m.HasLabel f l ∨ f = func.qualifiedName ∧ ∃ s ∈ st.descendants, s.labelName? = some l := by
  have hmem : ∀ s, s ∈ st.visitOrder ↔ s ∈ st.descendants := fun s => (perm_visitOrder st).mem_iff
  simp only [visitAllChildStmtsOf_eq, ← hmem]
  generalize st.visitOrder = order
  induction order generalizing m with
  | nil => simp
  | cons s order ih =>
    rw [List.foldl_cons]
    refine (ih _).trans ?_
    rw [hasLabel_handleChild]
    simp only [List.mem_cons, exists_eq_or_imp]
    tauto

/-- A function's visit adds the labels of its body to its own entry, unless
it is a class member. -/
theorem hasLabel_visitFunctionDecl (func : FunctionDecl) (m : LabelMap) (f l : Name) :
    (visitFunctionDecl func m).HasLabel f l ↔
      m.HasLabel f l ∨ func.form ≠ .method ∧ f = func.qualifiedName ∧ func.HasLabel l := by
  have hattrs : ∀ (attrs : List AttrKind) (m : LabelMap), (attrs.foldl (fun (m : LabelMap) kind =>
      if kind = .alwaysInline then m.modify func.qualifiedName (·.setInlined true) else m) m).HasLabel f l ↔
      m.HasLabel f l := fun attrs => by
    induction attrs with
    | nil => simp
    | cons kind attrs ih =>
      intro m
      rw [List.foldl_cons, ih]
      split
      · exact LabelMap.hasLabel_modify fun _ => rfl
      · rfl
  unfold visitFunctionDecl
  split
  · next hform => simp [hform]
  next hform =>
  cases hbody : func.body with
  | none => simp [FunctionDecl.HasLabel, hbody]
  | some body =>
    simp only [hasLabel_visitAllChildStmtsOf, hattrs]
    simp [LabelMap.HasLabel, FunctionDecl.HasLabel, hbody, hform]

theorem TranslationUnit.hasLabel_visit (tu : TranslationUnit) (m : LabelMap) (f l : Name) :
    (tu.visit m).HasLabel f l ↔
      m.HasLabel f l ∨ ∃ func ∈ tu, func.form ≠ .method ∧ f = func.qualifiedName ∧ func.HasLabel l := by
  unfold TranslationUnit.visit
  induction tu generalizing m with
  | nil => simp
  | cons func tu ih =>
    rw [List.foldl_cons, ih, hasLabel_visitFunctionDecl]
    simp only [List.mem_cons, exists_eq_or_imp]
    tauto

end LlvmTracer.Ast
