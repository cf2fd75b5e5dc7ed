/-
The visit of a translation unit, as what each declaration adds.

Lines are assigned in the order of the visits, so that the last one stays;
callers, flags and entries are only ever added (`line_visit`, `callers_visit`,
`inlined_visit`, `keys_visit`). Declarations of one function have one body,
and so a unit whose functions have names of their own gives one label map in
whatever order, and however often, its declarations are visited
(`visit_order_irrelevant`). Functions that share a name share an entry: they
are kept apart just where they agree (`keptApart_iff`).
-/
import LlvmTracer.Ast.Visits
import LlvmTracer.Ast.Dump

namespace LlvmTracer.Ast

open Text OrdMap

/-- Not a class member, and with a body. -/
def FunctionDecl.IsVisited (func : FunctionDecl) : Prop := func.form ≠ .method ∧ func.body.isSome

instance (func : FunctionDecl) : Decidable func.IsVisited := inferInstanceAs (Decidable (_ ∧ _))

/-- The statements that are handled when the declaration is visited. -/
def FunctionDecl.handled (func : FunctionDecl) : List Stmt :=
  if func.form = .method then [] else (func.body.map Stmt.visitOrder).getD []

/-- Its labels' lines, in the order they are assigned. -/
def FunctionDecl.lines (func : FunctionDecl) : List (Name × Nat) := func.handled.filterMap Stmt.labelLine?

def FunctionDecl.Calls (func : FunctionDecl) (f : Name) : Prop :=
  func.isMain = false ∧ ∃ st ∈ func.handled, st.callee? = some f

def FunctionDecl.SetsInlined (func : FunctionDecl) : Prop := func.IsVisited ∧ .alwaysInline ∈ func.attrs

instance (func : FunctionDecl) : Decidable func.SetsInlined := inferInstanceAs (Decidable (_ ∧ _))

/-! ## A declaration -/

theorem handled_of_not_isVisited {func : FunctionDecl} (h : ¬ func.IsVisited) : func.handled = [] := by
  unfold FunctionDecl.handled
  split
  · rfl
  · next hform =>
    cases hbody : func.body with
    | none => rfl
    | some body => exact absurd ⟨hform, by rw [hbody]; rfl⟩ h

/-- The attributes, and then the statements. -/
theorem visitFunctionDecl_eq (func : FunctionDecl) (m : LabelMap) : visitFunctionDecl func m =
    if func.IsVisited then
      func.handled.foldl (fun m st => handleChild func m (some st)) (func.attrs.foldl
        (fun (m : LabelMap) kind => if kind = .alwaysInline then m.modify func.qualifiedName (·.setInlined true) else m)
        (m.touch .new func.qualifiedName))
    else m := by
  by_cases hvisited : func.IsVisited
  · rw [if_pos hvisited]
    obtain ⟨hform, hsome⟩ := hvisited
    obtain ⟨body, hbody⟩ := Option.isSome_iff_exists.1 hsome
    simp [visitFunctionDecl, FunctionDecl.handled, hform, hbody, visitAllChildStmtsOf_eq]
  · rw [if_neg hvisited]
    unfold visitFunctionDecl
    split
    · rfl
    · next hform =>
      cases hbody : func.body with
      | none => rfl
      | some body => exact absurd ⟨hform, by rw [hbody]; rfl⟩ hvisited

section

variable (func : FunctionDecl) (m : LabelMap) (f l g : Name)

/-- What the attributes do to an entry. -/
theorem info_attrs (attrs : List AttrKind) : (attrs.foldl
    (fun (m : LabelMap) kind => if kind = .alwaysInline then m.modify func.qualifiedName (·.setInlined true) else m)
    m).info f = if f = func.qualifiedName ∧ .alwaysInline ∈ attrs then (m.info f).setInlined true else m.info f := by
  induction attrs generalizing m with
  | nil => simp
  | cons kind attrs ih =>
    rw [List.foldl_cons, ih]
    cases kind with
    | alwaysInline =>
      rw [if_pos rfl, LabelMap.info_modify]
      by_cases hf : f = func.qualifiedName
      · subst hf
        simp [FunctionInfo.setInlined]
      · simp [hf]
    | other => simp

theorem keys_attrs (attrs : List AttrKind) (hkey : func.qualifiedName ∈ m.keys) : f ∈ (attrs.foldl
    (fun (m : LabelMap) kind => if kind = .alwaysInline then m.modify func.qualifiedName (·.setInlined true) else m)
    m).keys ↔ f ∈ m.keys := by
  induction attrs generalizing m with
  | nil => rfl
  | cons kind attrs ih =>
    rw [List.foldl_cons]
    cases kind with
    | alwaysInline =>
      rw [if_pos rfl, ih _ (LabelMap.mem_keys_modify.2 (.inl rfl)), LabelMap.mem_keys_modify]
      exact or_iff_right_of_imp fun h => h ▸ hkey
    | other => exact ih m hkey

theorem line_visitFunctionDecl : (visitFunctionDecl func m).line f l =
    if f = func.qualifiedName then (func.lines.reverse.lookup l).or (m.line f l) else m.line f l := by
  have hattrs : ∀ m' : LabelMap, (func.attrs.foldl
      (fun (m : LabelMap) kind => if kind = .alwaysInline then m.modify func.qualifiedName (·.setInlined true) else m)
      (m.touch .new func.qualifiedName)).line f l = m.line f l := fun _ => by
    rw [LabelMap.line, info_attrs]
    split <;> simp [LabelMap.line, LabelMap.info, FunctionInfo.setInlined]
  rw [visitFunctionDecl_eq]
  split
  · rw [line_foldl, hattrs m]
    rfl
  · next hno => simp [FunctionDecl.lines, handled_of_not_isVisited hno]

theorem callers_visitFunctionDecl : g ∈ (visitFunctionDecl func m).callers f ↔
    g ∈ m.callers f ∨ g = func.qualifiedName ∧ func.Calls f := by
  rw [visitFunctionDecl_eq]
  split
  · rw [callers_foldl, LabelMap.callers, info_attrs]
    refine or_congr ?_ Iff.rfl
    split <;> simp [LabelMap.callers, LabelMap.info, FunctionInfo.setInlined]
  · next hno => simp [FunctionDecl.Calls, handled_of_not_isVisited hno]

theorem inlined_visitFunctionDecl : ((visitFunctionDecl func m).info f).inlined =
    ((m.info f).inlined || decide (f = func.qualifiedName ∧ func.SetsInlined)) := by
  rw [visitFunctionDecl_eq]
  split
  · next hvisited =>
    rw [inlined_foldl, info_attrs]
    by_cases hattr : f = func.qualifiedName ∧ .alwaysInline ∈ func.attrs
    · simp [hattr, FunctionDecl.SetsInlined, hvisited, FunctionInfo.setInlined]
    · rw [if_neg hattr, decide_eq_false (fun h => hattr ⟨h.1, h.2.2⟩), Bool.or_false]
      simp [LabelMap.info]
  · next hno => rw [decide_eq_false (fun h => hno h.2.1), Bool.or_false]

theorem keys_visitFunctionDecl : f ∈ (visitFunctionDecl func m).keys ↔
    f ∈ m.keys ∨ func.IsVisited ∧ f = func.qualifiedName ∨ func.Calls f := by
  have htouch : ∀ g, g ∈ (m.touch .new func.qualifiedName).keys ↔ g = func.qualifiedName ∨ g ∈ m.keys := fun g => by
    rw [mem_keys, mem_keys, find?_touch]
    split <;> simp_all
  rw [visitFunctionDecl_eq]
  split
  · next hvisited =>
    rw [keys_foldl, keys_attrs _ _ _ _ ((htouch _).2 (.inl rfl)), htouch]
    simp only [FunctionDecl.Calls, hvisited, true_and]
    constructor
    · rintro ((hf | hf) | ⟨st, hst, ⟨hf, -⟩ | ⟨hmain, hcallee⟩⟩)
      · exact .inr (.inl hf)
      · exact .inl hf
      · exact .inr (.inl hf)
      · exact .inr (.inr ⟨hmain, st, hst, hcallee⟩)
    · rintro (hf | hf | ⟨hmain, st, hst, hcallee⟩)
      · exact .inl (.inr hf)
      · exact .inl (.inl hf)
      · exact .inr ⟨st, hst, .inr ⟨hmain, hcallee⟩⟩
  · next hno => simp [hno, FunctionDecl.Calls, handled_of_not_isVisited hno]

end

/-! ## A unit -/

section

variable (tu : TranslationUnit) (m : LabelMap) (f l g : Name)

/-- All the lines assigned in a function's entry, in order. -/
def TranslationUnit.linesOf (tu : TranslationUnit) (f : Name) : List (Name × Nat) :=
  tu.flatMap fun func => if f = func.qualifiedName then func.lines else []

theorem line_visit : (tu.visit m).line f l = ((tu.linesOf f).reverse.lookup l).or (m.line f l) := by
  unfold TranslationUnit.visit TranslationUnit.linesOf
  induction tu generalizing m with
  | nil => rfl
  | cons func tu ih =>
    rw [List.foldl_cons, ih, line_visitFunctionDecl, List.flatMap_cons, List.reverse_append, List.lookup_append,
      Option.or_assoc]
    congr 1
    split <;> simp

theorem callers_visit : g ∈ (tu.visit m).callers f ↔
    g ∈ m.callers f ∨ ∃ func ∈ tu, g = func.qualifiedName ∧ func.Calls f := by
  unfold TranslationUnit.visit
  induction tu generalizing m with
  | nil => simp
  | cons func tu ih =>
    rw [List.foldl_cons, ih, callers_visitFunctionDecl]
    simp only [List.mem_cons, exists_eq_or_imp]
    exact or_assoc

theorem inlined_visit : ((tu.visit m).info f).inlined = true ↔
    (m.info f).inlined = true ∨ ∃ func ∈ tu, f = func.qualifiedName ∧ func.SetsInlined := by
  unfold TranslationUnit.visit
  induction tu generalizing m with
  | nil => simp
  | cons func tu ih =>
    rw [List.foldl_cons, ih, inlined_visitFunctionDecl]
    simp only [List.mem_cons, exists_eq_or_imp, Bool.or_eq_true, decide_eq_true_eq]
    exact or_assoc

theorem keys_visit : f ∈ (tu.visit m).keys ↔
    f ∈ m.keys ∨ ∃ func ∈ tu, func.IsVisited ∧ f = func.qualifiedName ∨ func.Calls f := by
  unfold TranslationUnit.visit
  induction tu generalizing m with
  | nil => simp
  | cons func tu ih =>
    rw [List.foldl_cons, ih, keys_visitFunctionDecl]
    simp only [List.mem_cons, exists_eq_or_imp]
    exact or_assoc

end

/-! ## The order of the visits -/

/-- Two declarations of one function. -/
structure FunctionDecl.Redeclares (func func' : FunctionDecl) : Prop where
  name : func.qualifiedName = func'.qualifiedName
  form : func.form = func'.form
  isMain : func.isMain = func'.isMain
  body : func.body = func'.body

/-- Different functions have different qualified names. -/
def TranslationUnit.NamesApart (tu : TranslationUnit) : Prop :=
  ∀ func ∈ tu, ∀ func' ∈ tu, func.qualifiedName = func'.qualifiedName → func.Redeclares func'

theorem FunctionDecl.Redeclares.lines_eq {func func' : FunctionDecl} (h : func.Redeclares func') :
    func.lines = func'.lines := by
  rw [lines, lines, handled, handled, h.form, h.body]

/-- Without a declaration of the name there are no lines. -/
theorem linesOf_eq_nil {tu : TranslationUnit} {f : Name} (h : ∀ func ∈ tu, f ≠ func.qualifiedName) :
    tu.linesOf f = [] :=
  List.flatMap_eq_nil_iff.2 fun func hfunc => if_neg (h func hfunc)

/-- Assigning a body's lines again changes none. -/
theorem lookup_linesOf {tu : TranslationUnit} {f : Name} {ls : List (Name × Nat)} (l : Name)
    (hall : ∀ func ∈ tu, f = func.qualifiedName → func.lines = ls) (hex : ∃ func ∈ tu, f = func.qualifiedName) :
    (tu.linesOf f).reverse.lookup l = ls.reverse.lookup l := by
  induction tu with
  | nil =>
    obtain ⟨_, hfunc, -⟩ := hex
    cases hfunc
  | cons func tu ih =>
    obtain ⟨hfunc, hall⟩ := List.forall_mem_cons.1 hall
    rw [TranslationUnit.linesOf, List.flatMap_cons, List.reverse_append, List.lookup_append]
    change ((TranslationUnit.linesOf tu f).reverse.lookup l).or _ = _
    by_cases htu : ∃ func ∈ tu, f = func.qualifiedName
    · rw [ih hall htu]
      split
      · next hf => rw [hfunc hf, Option.or_self]
      · exact Option.or_none
    · push Not at htu
      have hf : f = func.qualifiedName := by
        obtain ⟨func', hfunc', hf⟩ := hex
        rcases List.mem_cons.1 hfunc' with rfl | hfunc'
        · exact hf
        · exact absurd hf (htu func' hfunc')
      rw [linesOf_eq_nil htu, if_pos hf, hfunc hf]
      rfl

/-- **The order of the visits.** Visiting the same declarations in another
order, or some of them again, gives the same label map, and so the same text. -/
theorem visit_order_irrelevant {visits visits' : TranslationUnit} (hnames : visits.NamesApart)
    (hsame : ∀ func, func ∈ visits ↔ func ∈ visits') (m : LabelMap) :
    visits.visit m = visits'.visit m ∧
    ∀ fuel outputFile, endSourceFileAction fuel (visits.visit m) outputFile =
      endSourceFileAction fuel (visits'.visit m) outputFile := by
  have hlines : ∀ f l, (visits.linesOf f).reverse.lookup l = (visits'.linesOf f).reverse.lookup l := by
    intro f l
    by_cases hex : ∃ func ∈ visits, f = func.qualifiedName
    · obtain ⟨func, hfunc, rfl⟩ := hex
      have hall : ∀ func' ∈ visits, func.qualifiedName = func'.qualifiedName → func'.lines = func.lines :=
        fun func' hfunc' hf => (hnames func hfunc func' hfunc' hf).lines_eq.symm
      have hall' : ∀ func' ∈ visits', func.qualifiedName = func'.qualifiedName → func'.lines = func.lines :=
        fun func' hfunc' => hall func' ((hsame func').2 hfunc')
      rw [lookup_linesOf l hall ⟨func, hfunc, rfl⟩, lookup_linesOf l hall' ⟨func, (hsame func).1 hfunc, rfl⟩]
    · push Not at hex
      rw [linesOf_eq_nil hex, linesOf_eq_nil fun func hfunc => hex func ((hsame func).2 hfunc)]
  have hmaps : visits.visit m = visits'.visit m := by
    refine LabelMap.ext_info (fun f => ?_) (fun f l => ?_) (fun f g => ?_) fun f => ?_
    · simp only [keys_visit, hsame]
    · rw [line_visit, line_visit, hlines]
    · simp only [callers_visit, hsame]
    · rw [Bool.eq_iff_iff, inlined_visit, inlined_visit]
      simp only [hsame]
  exact ⟨hmaps, fun fuel outputFile => by rw [hmaps]⟩

def addName : Name := ⟨"add".toList, by decide⟩
def workName : Name := ⟨"work".toList, by decide⟩

def addPrototype : FunctionDecl :=
  ⟨addName, .free .c, false, [], some (.other 2 [some (.label 3 ⟨"sum".toList, by decide⟩ (.other 4 []))])⟩

def addDefinition : FunctionDecl := { addPrototype with attrs := [.alwaysInline] }

def addCaller : FunctionDecl :=
  ⟨workName, .free .c, false, [], some (.other 7 [some (.call 8 (some addName) [])])⟩

theorem visit_order_irrelevant_add :
    TranslationUnit.visit [addPrototype, addDefinition, addCaller] ∅ =
        TranslationUnit.visit [addCaller, addDefinition, addPrototype, addDefinition] ∅ ∧
    ∀ fuel outputFile,
      endSourceFileAction fuel (TranslationUnit.visit [addPrototype, addDefinition, addCaller] ∅) outputFile =
        endSourceFileAction fuel (TranslationUnit.visit [addCaller, addDefinition, addPrototype, addDefinition] ∅)
          outputFile := by
  refine visit_order_irrelevant ?_ (fun func => ?_) ∅
  · simp only [TranslationUnit.NamesApart, List.forall_mem_cons, List.not_mem_nil, false_imp_iff, implies_true, and_true]
    refine ⟨⟨fun _ => ⟨rfl, rfl, rfl, rfl⟩, fun _ => ⟨rfl, rfl, rfl, rfl⟩, fun h => absurd h (by decide)⟩,
      ⟨fun _ => ⟨rfl, rfl, rfl, rfl⟩, fun _ => ⟨rfl, rfl, rfl, rfl⟩, fun h => absurd h (by decide)⟩,
      fun h => absurd h (by decide), fun h => absurd h (by decide), fun _ => ⟨rfl, rfl, rfl, rfl⟩⟩
  · simp only [List.mem_cons, List.not_mem_nil, or_false]
    tauto

/-! ## Functions that share a name -/

/-- `func` and `func'` are declarations of different functions just when
`entity` tells them apart. Visiting a function changes no line and no flag of
another visited before, and in the end each label has its own line. -/
structure KeptApart {ι : Type*} (entity : FunctionDecl → ι) (tu : TranslationUnit) : Prop where
  lines : ∀ func ∈ tu, ∀ func' ∈ tu, entity func ≠ entity func' → func.IsVisited → func'.IsVisited → ∀ m l n,
    (l, n) ∈ func.lines → (visitFunctionDecl func' (visitFunctionDecl func m)).line func.qualifiedName l =
      (visitFunctionDecl func m).line func.qualifiedName l
  inlined : ∀ func ∈ tu, ∀ func' ∈ tu, entity func ≠ entity func' → func.IsVisited → func'.IsVisited → ∀ m,
    ((visitFunctionDecl func' (visitFunctionDecl func m)).info func.qualifiedName).inlined =
      ((visitFunctionDecl func m).info func.qualifiedName).inlined
  present : ∀ func ∈ tu, func.IsVisited → ∀ l n, (l, n) ∈ func.lines →
    (tu.visit ∅).line func.qualifiedName l = some n

theorem mem_linesOf {tu : TranslationUnit} {f l : Name} {n : Nat} :
    (l, n) ∈ tu.linesOf f ↔ ∃ func ∈ tu, f = func.qualifiedName ∧ (l, n) ∈ func.lines := by
  simp only [TranslationUnit.linesOf, List.mem_flatMap, List.mem_ite_nil_right]

theorem isVisited_of_mem_lines {func : FunctionDecl} {l : Name} {n : Nat} (h : (l, n) ∈ func.lines) :
    func.IsVisited := by
  by_contra hno
  rw [FunctionDecl.lines, handled_of_not_isVisited hno] at h
  cases h

/-- A label's line stays when a function is visited that agrees on it. -/
theorem line_visitFunctionDecl_of_agree {func func' : FunctionDecl} {m : LabelMap} {l : Name} {n : Nat}
    (hn : (l, n) ∈ func.lines) (hown : ∀ n', (l, n') ∈ func.lines → n' = n)
    (hother : func.qualifiedName = func'.qualifiedName → ∀ n', (l, n') ∈ func'.lines → n' = n) :
    (visitFunctionDecl func' (visitFunctionDecl func m)).line func.qualifiedName l =
      (visitFunctionDecl func m).line func.qualifiedName l := by
  rw [line_visitFunctionDecl func']
  split
  · next hname =>
    cases hl : func'.lines.reverse.lookup l with
    | none => rw [Option.none_or]
    | some n' =>
      have hline : func.lines.reverse.lookup l = some n :=
        lookup_eq_of_mem (List.mem_reverse.2 hn) fun n₁ hn₁ => hown n₁ (List.mem_reverse.1 hn₁)
      rw [hother hname n' (List.mem_reverse.1 (mem_of_lookup hl)), line_visitFunctionDecl, if_pos rfl, hline,
        Option.some_or, Option.some_or]
  · rfl

/-- The flag stays when a function is visited that sets it only if it is set. -/
theorem inlined_visitFunctionDecl_of_agree {func func' : FunctionDecl} {m : LabelMap}
    (h : func.qualifiedName = func'.qualifiedName → func'.SetsInlined → func.SetsInlined) :
    ((visitFunctionDecl func' (visitFunctionDecl func m)).info func.qualifiedName).inlined =
      ((visitFunctionDecl func m).info func.qualifiedName).inlined := by
  rw [inlined_visitFunctionDecl func']
  by_cases hset : func.qualifiedName = func'.qualifiedName ∧ func'.SetsInlined
  · have hfunc := h hset.1 hset.2
    rw [inlined_visitFunctionDecl, decide_eq_true (p := _ ∧ func.SetsInlined) ⟨rfl, hfunc⟩, Bool.or_true, Bool.true_or]
  · rw [decide_eq_false hset, Bool.or_false]

/-- **Functions kept apart.** Just when functions of one name agree on the
labels they share and on being inlined. -/
theorem keptApart_iff {ι : Type*} (entity : FunctionDecl → ι) (tu : TranslationUnit) : KeptApart entity tu ↔
    (∀ func ∈ tu, ∀ func' ∈ tu, func.qualifiedName = func'.qualifiedName → ∀ l n n', (l, n) ∈ func.lines →
      (l, n') ∈ func'.lines → n = n') ∧
    ∀ func ∈ tu, ∀ func' ∈ tu, entity func ≠ entity func' → func.IsVisited → func'.IsVisited →
      func.qualifiedName = func'.qualifiedName → func'.SetsInlined → func.SetsInlined := by
  constructor
  · intro h
    refine ⟨fun func hfunc func' hfunc' hname l n n' hn hn' => ?_, fun func hfunc func' hfunc' hne hv hv' hname hset => ?_⟩
    · have hl := h.present func hfunc (isVisited_of_mem_lines hn) l n hn
      rw [hname, h.present func' hfunc' (isVisited_of_mem_lines hn') l n' hn'] at hl
      exact (Option.some.inj hl).symm
    · have hflag := h.inlined func hfunc func' hfunc' hne hv hv' ∅
      rw [inlined_visitFunctionDecl, decide_eq_true ⟨hname, hset⟩, Bool.or_true, inlined_visitFunctionDecl] at hflag
      simpa [LabelMap.info, OrdMap.value, FunctionInfo.new] using hflag.symm
  · rintro ⟨hlines, hinlined⟩
    refine ⟨fun func hfunc func' hfunc' _ _ _ m l n hn => ?_, fun func hfunc func' hfunc' hne hv hv' m => ?_,
      fun func hfunc _ l n hn => ?_⟩
    · exact line_visitFunctionDecl_of_agree hn (fun n' hn' => hlines func hfunc func hfunc rfl l n' n hn' hn)
        fun hname n' hn' => (hlines func hfunc func' hfunc' hname l n n' hn hn').symm
    · exact inlined_visitFunctionDecl_of_agree (hinlined func hfunc func' hfunc' hne hv hv')
    · have hin : (l, n) ∈ (tu.linesOf func.qualifiedName).reverse :=
        List.mem_reverse.2 (mem_linesOf.2 ⟨func, hfunc, rfl, hn⟩)
      have hlookup := lookup_eq_of_mem hin fun n' hn' => by
        obtain ⟨func', hfunc', hname, hmem⟩ := mem_linesOf.1 (List.mem_reverse.1 hn')
        exact (hlines func hfunc func' hfunc' hname l n n' hn hmem).symm
      rw [line_visit, hlookup, Option.some_or]

/-- `void clear(int *)` and `void clear(long *)`, each with a label `loop`. -/
def clearOverload (line : Nat) : FunctionDecl :=
  ⟨⟨"clear".toList, by decide⟩, .free .cxx, false, [],
    some (.other line [some (.label (line + 1) ⟨"clear_loop".toList, by decide⟩ (.other (line + 1) []))])⟩

/-- The label of the first one gets the line of the second one's. The
functions are told apart by where their bodies are. -/
theorem not_keptApart_overloads :
    ¬ KeptApart (fun func => func.body.map Stmt.line) [clearOverload 1, clearOverload 6] := by
  intro h
  have hline := h.present (clearOverload 1) (by simp) (by decide) ⟨"clear_loop".toList, by decide⟩ 2 (by decide)
  exact absurd hline (by decide)

end LlvmTracer.Ast
