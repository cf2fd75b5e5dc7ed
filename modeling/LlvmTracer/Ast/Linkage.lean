/-
Which labels get a line.

Every label in the body of a function that is not a class member does
(`hasLine_iff`); the visitor looks neither at the linkage nor at whether the
function is a template, so the labels are those of functions in C just when
no other free function and no template has any, and the search for the
callers of the inlined functions returns (`selectsC_iff`).
-/
import LlvmTracer.Ast.Callers

namespace LlvmTracer.Ast

open Text OrdMap Relation

def LabelLine.function : LabelLine → Name
  | .plain function .. | .withInline function .. => function

def LabelLine.label : LabelLine → Name
  | .plain _ label _ | .withInline _ label .. => label

/-- One of the lines is for the label of the function. -/
def HasLine (lines : List LabelLine) (function label : Name) : Prop :=
  ∃ line ∈ lines, line.function = function ∧ line.label = label

/-- The label map has the labels of the functions in C, and those of other
functions never appear in it. -/
structure LabelsOfC (tu : TranslationUnit) (lines : List LabelLine) : Prop where
  labels : ∀ f l, HasLine lines f l ↔ ∃ func ∈ tu, func.IsC ∧ f = func.qualifiedName ∧ func.HasLabel l
  others : ∀ func ∈ tu, ¬ func.IsC → ∀ l, func.HasLabel l → ¬ HasLine lines func.qualifiedName l

/-- A label map is written for the unit, and it has the labels of the
functions in C and no others. -/
def SelectsC (tu : TranslationUnit) : Prop :=
  ∃ fuel lines, dump fuel (tu.visit ∅) = some lines ∧ LabelsOfC tu lines

theorem FunctionInfo.mem_lines {funcInfo : FunctionInfo} {f : Name} {callers : List Name} {line : LabelLine} :
    line ∈ funcInfo.lines f callers → line.function = f ∧ (funcInfo.labelToLineNum.find? line.label).isSome := by
  simp only [FunctionInfo.lines, List.mem_map]
  rintro ⟨⟨l, n⟩, hl, rfl⟩
  have hfind := mem_entries.1 hl
  split
  · exact ⟨rfl, by simp [LabelLine.label, hfind]⟩
  · exact ⟨rfl, by simp [LabelLine.label, hfind]⟩

theorem FunctionInfo.exists_line {funcInfo : FunctionInfo} {l : Name} {n : Nat}
    (h : funcInfo.labelToLineNum.find? l = some n) (f : Name) (callers : List Name) :
    ∃ line ∈ funcInfo.lines f callers, line.function = f ∧ line.label = l := by
  refine ⟨_, List.mem_map_of_mem (mem_entries.2 h), ?_⟩
  split
  · exact ⟨rfl, rfl⟩
  · exact ⟨rfl, rfl⟩

theorem hasLine_dump {m : LabelMap} {fuel : Nat} {lines : List LabelLine} (h : dump fuel m = some lines)
    (f l : Name) : HasLine lines f l ↔ m.HasLabel f l := by
  rw [dump_eq h, LabelMap.linesAfter, after_none]
  simp only [HasLine, LabelMap.HasLabel, LabelMap.info, OrdMap.value, List.mem_flatMap]
  constructor
  · rintro ⟨line, ⟨⟨f', funcInfo⟩, hmem, hline⟩, rfl, rfl⟩
    obtain ⟨hf, hsome⟩ := FunctionInfo.mem_lines hline
    rw [hf, mem_entries.1 hmem]
    exact hsome
  · intro hsome
    cases hf : m.find? f with
    | none => rw [hf] at hsome; cases hsome
    | some funcInfo =>
      rw [hf] at hsome
      obtain ⟨n, hn⟩ := Option.isSome_iff_exists.1 hsome
      obtain ⟨line, hline, hfun, hlab⟩ := FunctionInfo.exists_line hn f (m.callersOf fuel f)
      exact ⟨line, ⟨_, mem_entries.2 hf, hline⟩, hfun, hlab⟩

/-- The labels that get a line are those of the functions that are not class
members. -/
theorem hasLine_iff {tu : TranslationUnit} {fuel : Nat} {lines : List LabelLine}
    (h : dump fuel (tu.visit ∅) = some lines) (f l : Name) :
    HasLine lines f l ↔ ∃ func ∈ tu, func.form ≠ .method ∧ f = func.qualifiedName ∧ func.HasLabel l := by
  rw [hasLine_dump h, TranslationUnit.hasLabel_visit]
  exact or_iff_right (not_hasLabel_empty f l)

theorem FunctionDecl.IsC.not_method {func : FunctionDecl} (h : func.IsC) : func.form ≠ .method := by
  rw [show func.form = .free .c from h]
  nofun

/-- The lines are those of the labels in C just when the others with labels
are all class members (and no two names are confused). -/
theorem labelsOfC_iff {tu : TranslationUnit} {fuel : Nat} {lines : List LabelLine}
    (h : dump fuel (tu.visit ∅) = some lines) :
    LabelsOfC tu lines ↔ ∀ func ∈ tu, ¬ func.IsC → ∀ l, func.HasLabel l →
      func.form = .method ∧ ∀ g ∈ tu, g.IsC → g.HasLabel l → g.qualifiedName ≠ func.qualifiedName := by
  constructor
  · intro hsel func hfunc hc l hl
    have hno := hsel.others func hfunc hc l hl
    rw [hasLine_iff h] at hno
    refine ⟨?_, fun g hg hgc hgl he => ?_⟩
    · by_contra hform
      exact hno ⟨func, hfunc, hform, rfl, hl⟩
    · exact hno ⟨g, hg, hgc.not_method, he.symm, hgl⟩
  · intro hcond
    -- Of the functions with a line, none is outside C.
    have hiff : ∀ f l, HasLine lines f l ↔
        ∃ func ∈ tu, func.IsC ∧ f = func.qualifiedName ∧ func.HasLabel l := fun f l => by
      rw [hasLine_iff h]
      constructor
      · rintro ⟨func, hfunc, hform, hf, hl⟩
        have hc : func.IsC := by
          by_contra hc
          exact hform (hcond func hfunc hc l hl).1
        exact ⟨func, hfunc, hc, hf, hl⟩
      · rintro ⟨func, hfunc, hc, hf, hl⟩
        exact ⟨func, hfunc, hc.not_method, hf, hl⟩
    refine ⟨hiff, fun func hfunc hc l hl hline => ?_⟩
    obtain ⟨g, hg, hgc, hname, hgl⟩ := (hiff _ _).1 hline
    exact (hcond func hfunc hc l hl).2 g hg hgc hgl hname.symm

/-- **Which labels get a line.** A label map is written, with the labels of
the functions in C only, just when no inlined functions call one another in a
circle, and the other functions with labels are all class members (and no two
names are confused). -/
theorem selectsC_iff (tu : TranslationUnit) : SelectsC tu ↔
    (∀ f, ¬ TransGen tu.InlinedCaller f f) ∧
    ∀ func ∈ tu, ¬ func.IsC → ∀ l, func.HasLabel l →
      func.form = .method ∧ ∀ g ∈ tu, g.IsC → g.HasLabel l → g.qualifiedName ≠ func.qualifiedName := by
  rw [← inlinedCaller_visit, ← exists_dump_iff]
  constructor
  · rintro ⟨fuel, lines, h, hlabels⟩
    exact ⟨⟨fuel, lines, h⟩, (labelsOfC_iff h).1 hlabels⟩
  · rintro ⟨⟨fuel, lines, h⟩, hcond⟩
    exact ⟨fuel, lines, h, (labelsOfC_iff h).2 hcond⟩

/-! ### A C++ file -/

/-- A body with one label, on the statement at `line`. -/
def labeledBody (label : Name) (line : Nat) : Stmt :=
  .other 0 [some (.label line label (.other line []))]

def loopName : Name := ⟨"loop".toList, by decide⟩

def nonstaticFunction : FunctionDecl :=
  ⟨⟨"nonstatic_function".toList, by decide⟩, .free .c, false, [],
    some (labeledBody ⟨"nonstatic_loop".toList, by decide⟩ 24)⟩

def cxxLinkageFunction : FunctionDecl :=
  ⟨⟨"cxx_linkage_function".toList, by decide⟩, .free .cxx, false, [],
    some (labeledBody loopName 35)⟩

/-- The label of the function outside C has a line. -/
theorem not_selectsC_cxxLinkageFunction :
    (∃ lines, dump 9 (TranslationUnit.visit [nonstaticFunction, cxxLinkageFunction] ∅) = some lines ∧
      HasLine lines cxxLinkageFunction.qualifiedName loopName) ∧
    ¬ SelectsC [nonstaticFunction, cxxLinkageFunction] := by
  have hlabel : cxxLinkageFunction.HasLabel loopName :=
    ⟨_, rfl, .label 35 _ (.other 35 []), by simp [labeledBody, Stmt.descendants, descendantsOf, withDescendants], rfl⟩
  have hline : ∀ {fuel lines}, dump fuel (TranslationUnit.visit [nonstaticFunction, cxxLinkageFunction] ∅) = some lines →
      HasLine lines cxxLinkageFunction.qualifiedName loopName := fun h =>
    (hasLine_iff h _ _).2 ⟨cxxLinkageFunction, by simp, nofun, rfl, hlabel⟩
  constructor
  · have hdump : dump 9 (TranslationUnit.visit [nonstaticFunction, cxxLinkageFunction] ∅) =
        some [.plain cxxLinkageFunction.qualifiedName loopName 35,
          .plain nonstaticFunction.qualifiedName ⟨"nonstatic_loop".toList, by decide⟩ 24] := by decide
    exact ⟨_, hdump, hline hdump⟩
  · rintro ⟨fuel, lines, h, hlabels⟩
    exact hlabels.others cxxLinkageFunction (by simp) (by decide) loopName hlabel (hline h)

end LlvmTracer.Ast
