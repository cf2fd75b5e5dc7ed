/-
The pass over one function after another.

`Tracer` is what the pass object carries from a function to the next: the
buffers and renamed slots of the last one, which are cleared before they are
looked at, the debug names and preheaders, which are purged behind it
(`Tracer.Ready`), and the module's strings, which are never changed once
made. So what is inserted into a function is what `Pass.Tracer` inserts into
it alone, whatever was instrumented before (`runOnFunction_independent`).
-/
import Mathlib.Data.List.Sort
import LlvmTracer.Pass.DefUse
import LlvmTracer.Pass.Selection

namespace LlvmTracer.Pass

open Ir

/-! ## Strings -/

/-- `global_strings`, and what each of the module's variables for strings holds. -/
structure GlobalStrings where
  table : List (String × Nat)
  held : List String
  deriving DecidableEq, Repr

namespace GlobalStrings

def init : GlobalStrings := ⟨[], []⟩

/-- A new global variable for a string. -/
def createStringArg (s : GlobalStrings) (str : String) : Nat × GlobalStrings :=
  (s.held.length, { s with held := s.held ++ [str] })

def createStringArgIfNotExists (s : GlobalStrings) (str : String) : GlobalStrings :=
  if (s.table.lookup str).isNone then
    let (g, s) := s.createStringArg str
    { s with table := (str, g) :: s.table }
  else s

def createStringArgs (s : GlobalStrings) (strs : List String) : GlobalStrings :=
  strs.foldl createStringArgIfNotExists s

/-- The variables found hold the strings they are found for. -/
def OK (s : GlobalStrings) : Prop := ∀ str g, s.table.lookup str = some g → s.held[g]? = some str

structure Grows (s s' : GlobalStrings) : Prop where
  table : ∀ str g, s.table.lookup str = some g → s'.table.lookup str = some g
  held : s.held <+: s'.held

theorem Grows.refl (s : GlobalStrings) : Grows s s := ⟨fun _ _ h => h, List.prefix_rfl⟩

theorem Grows.trans {s s₁ s₂ : GlobalStrings} (h : Grows s s₁) (h₁ : Grows s₁ s₂) : Grows s s₂ :=
  ⟨fun str g hg => h₁.table str g (h.table str g hg), h.held.trans h₁.held⟩

theorem ok_init : init.OK := fun _ _ h => nomatch h

/-- A string is in the table when it has been asked for, and what was there stays. -/
theorem createStringArgIfNotExists_spec {s : GlobalStrings} (h : s.OK) (str : String) :
    (s.createStringArgIfNotExists str).OK ∧ Grows s (s.createStringArgIfNotExists str) ∧
      ∃ g, (s.createStringArgIfNotExists str).table.lookup str = some g := by
  unfold createStringArgIfNotExists
  cases hfind : s.table.lookup str with
  | some g => exact ⟨h, .refl s, g, hfind⟩
  | none =>
    simp only [Option.isNone_none, if_true, createStringArg]
    refine ⟨fun str' g hg => ?_, ⟨fun str' g hg => ?_, List.prefix_append _ _⟩, s.held.length, by simp⟩
    · simp only [List.lookup_cons] at hg
      split at hg
      · next heq =>
        cases hg
        rw [List.getElem?_append_right (Nat.le_refl _), Nat.sub_self, eq_of_beq heq]
        rfl
      · have hold := h str' g hg
        rw [List.getElem?_append_left (List.getElem?_eq_some_iff.1 hold).1, hold]
    · have hne : str' ≠ str := fun heq => by
        rw [heq, hfind] at hg
        cases hg
      rw [List.lookup_cons, beq_false_of_ne hne]
      exact hg

theorem createStringArgs_spec : ∀ {strs : List String} {s : GlobalStrings}, s.OK →
    (s.createStringArgs strs).OK ∧ Grows s (s.createStringArgs strs) ∧
      ∀ str ∈ strs, ∃ g, (s.createStringArgs strs).table.lookup str = some g
  | [], s, h => ⟨h, .refl s, fun _ h => nomatch h⟩
  | str :: strs, s, h => by
    obtain ⟨hok, hgrows, g, hg⟩ := createStringArgIfNotExists_spec h str
    obtain ⟨hok', hgrows', hall⟩ := @createStringArgs_spec strs _ hok
    refine ⟨hok', hgrows.trans hgrows', fun str' hmem => ?_⟩
    rcases List.mem_cons.1 hmem with rfl | hmem
    · exact ⟨g, hgrows'.table _ _ hg⟩
    · exact hall str' hmem

end GlobalStrings

/-! ## Calls and their strings -/

def LogValue.strings : LogValue → List String
  | .string s => [s]
  | .zero | .node _ | .value _ | .folded _ _ => []

/-- A call's strings, in the order the source asks for them. -/
def LogCall.strings : LogCall → List String
  | .log0 _ funcName bbid instid _ _ _ => [funcName, bbid, instid]
  | .logEntry funcName _ => [funcName]
  | .updateStatus funcName _ _ _ => [funcName]
  | .param _ _ _ value _ regId _ prevBbid => [regId, prevBbid] ++ value.strings

def LogValue.blank : LogValue → LogValue
  | .string _ => .string ""
  | v => v

/-- A call, up to what its strings are. -/
def LogCall.blank : LogCall → LogCall
  | .log0 lineNumber _ _ _ opcode isTrackedFunction isToplevelMode =>
    .log0 lineNumber "" "" "" opcode isTrackedFunction isToplevelMode
  | .logEntry _ numParams => .logEntry "" numParams
  | .updateStatus _ opcode isTrackedFunction isToplevelMode => .updateStatus "" opcode isTrackedFunction isToplevelMode
  | .param logger paramNum size value isReg _ isPhi _ => .param logger paramNum size value.blank isReg "" isPhi ""

def NewInst.strings (n : NewInst) : List String :=
  match n.op with
  | .call c => c.strings
  | _ => []

def NewInst.blank (n : NewInst) : NewInst :=
  match n.op with
  | .call c => { n with op := .call c.blank }
  | _ => n

theorem LogValue.eq_of_blank {v v' : LogValue} (hblank : v.blank = v'.blank) (hstrings : v.strings = v'.strings) :
    v = v' := by
  cases v <;> cases v' <;> simp_all [blank, strings]

theorem LogCall.eq_of_blank {c c' : LogCall} (hblank : c.blank = c'.blank) (hstrings : c.strings = c'.strings) :
    c = c' := by
  cases c <;> cases c' <;> simp_all [blank, strings]
  exact LogValue.eq_of_blank hblank.2.2.2.1 hstrings.2.2

/-- An inserted instruction is what it is without its strings, and them. -/
theorem NewInst.eq_of_blank {n n' : NewInst} (hblank : n.blank = n'.blank) (hstrings : n.strings = n'.strings) :
    n = n' := by
  obtain ⟨serial, pu, op⟩ := n
  obtain ⟨serial', pu', op'⟩ := n'
  cases op <;> cases op' <;> simp_all [blank, strings]
  exact LogCall.eq_of_blank hblank.2.2 hstrings

/-! ## Linked bodies -/

/-- A node as it is in the module: in the place of its strings are their variables. -/
inductive LinkedNode
  | orig (I : Inst)
  | new (n : NewInst) (strings : List (Option Nat))
  deriving DecidableEq, Repr

abbrev LinkedBody := List (List LinkedNode)

def LinkedBody.ofFunction (F : Function) : LinkedBody := F.blocks.map fun b => b.insts.map .orig

def Node.link (s : GlobalStrings) : Node → LinkedNode
  | .orig I => .orig I
  | .new n => .new n.blank (n.strings.map fun str => s.table.lookup str)

/-- The inserted instructions, in the order they were inserted in. -/
def Body.insertedInOrder (body : Body) : List NewInst :=
  (body.flatMap fun nodes => nodes.filterMap Node.new?).insertionSort fun n n' => n.serial ≤ n'.serial

-- The line of a type without a logger asks for two strings too, that nothing points to.
def Body.link (body : Body) (s : GlobalStrings) : LinkedBody × GlobalStrings :=
  let s := s.createStringArgs (body.insertedInOrder.flatMap NewInst.strings)
  (body.map fun nodes => nodes.map (Node.link s), s)

def PointsTo (held : List String) (g : Option Nat) (str : String) : Prop := ∃ i, g = some i ∧ held[i]? = some str

/-- What the node comes to with what the variables hold. -/
def LinkedNode.Reads (held : List String) : LinkedNode → Node → Prop
  | .orig I, .orig J => I = J
  | .new m strings, .new n => m = n.blank ∧ List.Forall₂ (PointsTo held) strings n.strings
  | .orig _, .new _ | .new _ _, .orig _ => False

def LinkedBody.Reads (held : List String) (linked : LinkedBody) (body : Body) : Prop :=
  List.Forall₂ (List.Forall₂ (LinkedNode.Reads held)) linked body

theorem PointsTo.unique (held : List String) : Relator.RightUnique (PointsTo held) := by
  rintro g str str' ⟨i, rfl, hi⟩ h'
  obtain ⟨j, hj, hstr⟩ := h'
  cases hj
  rw [hi] at hstr
  cases hstr
  rfl

theorem PointsTo.mono {held held' : List String} {g : Option Nat} {str : String} (hheld : held <+: held')
    (h : PointsTo held g str) : PointsTo held' g str := by
  obtain ⟨i, rfl, hi⟩ := h
  obtain ⟨more, rfl⟩ := hheld
  exact ⟨i, rfl, by rw [List.getElem?_append_left (List.getElem?_eq_some_iff.1 hi).1, hi]⟩

theorem LinkedNode.Reads.unique (held : List String) : Relator.RightUnique (LinkedNode.Reads held) := by
  intro l n n' h h'
  cases l with
  | orig I =>
    cases n with
    | orig J =>
      cases n' with
      | orig J' => exact congrArg Node.orig (h.symm.trans h')
      | new m' => exact h'.elim
    | new m => exact h.elim
  | new m strings =>
    cases n with
    | orig J => exact h.elim
    | new k =>
      cases n' with
      | orig J' => exact h'.elim
      | new k' =>
        obtain ⟨hblank, hstrings⟩ := h
        obtain ⟨hblank', hstrings'⟩ := h'
        exact congrArg Node.new (NewInst.eq_of_blank (hblank.symm.trans hblank')
          ((PointsTo.unique held).forall₂ hstrings hstrings'))

/-- A linked body reads as one body only. -/
theorem LinkedBody.Reads.unique (held : List String) : Relator.RightUnique (LinkedBody.Reads held) :=
  (LinkedNode.Reads.unique held).forall₂.forall₂

theorem LinkedNode.Reads.mono {held held' : List String} (hheld : held <+: held') {l : LinkedNode} {n : Node}
    (h : l.Reads held n) : l.Reads held' n := by
  cases l with
  | orig I => cases n <;> exact h
  | new m strings =>
    cases n with
    | orig J => exact h
    | new k => exact ⟨h.1, h.2.imp fun _ _ h => h.mono hheld⟩

/-- It reads the same whatever strings come in later. -/
theorem LinkedBody.Reads.mono {held held' : List String} (hheld : held <+: held') {l : LinkedBody} {body : Body}
    (h : l.Reads held body) : l.Reads held' body :=
  List.Forall₂.imp (fun _ _ h => h.imp fun _ _ h => h.mono hheld) h

theorem Node.link_reads {s : GlobalStrings} (h : s.OK) {n : Node}
    (hstrings : ∀ m, n = .new m → ∀ str ∈ m.strings, ∃ g, s.table.lookup str = some g) :
    (n.link s).Reads s.held n := by
  cases n with
  | orig I => rfl
  | new m =>
    refine ⟨rfl, ?_⟩
    rw [List.forall₂_map_left_iff, List.forall₂_same]
    intro str hstr
    obtain ⟨g, hg⟩ := hstrings m rfl str hstr
    exact ⟨g, hg, h str g hg⟩

/-- Every string of an inserted instruction has been asked for. -/
theorem mem_insertedInOrder {body : Body} {nodes : List Node} {n : NewInst} (hnodes : nodes ∈ body)
    (hn : .new n ∈ nodes) : n ∈ body.insertedInOrder := by
  rw [Body.insertedInOrder, List.mem_insertionSort, List.mem_flatMap]
  exact ⟨nodes, hnodes, List.mem_filterMap.2 ⟨_, hn, rfl⟩⟩

theorem Body.link_spec {s : GlobalStrings} (h : s.OK) (body : Body) :
    (body.link s).2.OK ∧ s.Grows (body.link s).2 ∧ LinkedBody.Reads (body.link s).2.held (body.link s).1 body := by
  obtain ⟨hok, hgrows, hall⟩ := @GlobalStrings.createStringArgs_spec
    (body.insertedInOrder.flatMap NewInst.strings) s h
  refine ⟨hok, hgrows, ?_⟩
  rw [LinkedBody.Reads, Body.link, List.forall₂_map_left_iff, List.forall₂_same]
  intro nodes hnodes
  rw [List.forall₂_map_left_iff, List.forall₂_same]
  rintro n hn
  refine Node.link_reads hok ?_
  rintro m rfl str hstr
  exact hall str (List.mem_flatMap.2 ⟨m, mem_insertedInOrder hnodes hn, hstr⟩)

/-! ## The pass object -/

/-- The tables a `Tracer` keeps from one function to the next. What it tracks
and which functions are C it knows from `doInitialization` on. -/
structure Tracer where
  vectorBuffers : List (VecBufKey × Buffer)
  slotToVarName : List (Nat × String)
  valueDebugName : List (Value × String)
  preheaderLineNum : List (Nat × Nat)
  globalStrings : GlobalStrings
  deriving DecidableEq, Repr

namespace Tracer

def init : Tracer := ⟨[], [], [], [], .init⟩

def purgeDebugInfo (t : Tracer) : Tracer := { t with valueDebugName := [], preheaderLineNum := [] }

/-- `Pass.runOnFunction`, from the tables as the function before has left
them. Inserted instructions are numbered anew in each function. -/
def runOnFunction (cfg : Config) (t : Tracer) (F : Function) : Except Refusal (LinkedBody × Tracer) :=
  if cfg.isCFunction F.name then
    let t := { t with slotToVarName := [], vectorBuffers := [] }
    (F.insts.filterMap Inst.debug).foldlM collectDebugInfo t.valueDebugName >>= fun valueDebugName =>
    (List.range F.blocks.length).foldlM (collectPreheader F) t.preheaderLineNum >>= fun preheaderLineNum =>
    let c : Ctx := ⟨cfg, F, valueDebugName, preheaderLineNum⟩
    F.blockRefs.foldlM c.runOnBasicBlock ⟨.ofFunction F, ⟨0, t.vectorBuffers, t.slotToVarName⟩⟩ >>= fun w =>
    (if F.name = "main" then .ok w else c.runOnFunctionEntry w) >>= fun w =>
    let linked := w.body.link t.globalStrings
    let t : Tracer := ⟨w.gen.vectorBuffers, w.gen.slotToVarName, valueDebugName, preheaderLineNum, linked.2⟩
    .ok (linked.1, t.purgeDebugInfo)
  else .ok (LinkedBody.ofFunction F, t)

/-- The functions of a module, in the order they come in. -/
def runOnFunctions (cfg : Config) : Tracer → List Function → Except Refusal (List LinkedBody × Tracer)
  | t, [] => .ok ([], t)
  | t, F :: Fs =>
    t.runOnFunction cfg F >>= fun r =>
    (runOnFunctions cfg r.2 Fs).map fun r' => (r.1 :: r'.1, r'.2)

/-- Between two functions. -/
structure Ready (t : Tracer) : Prop where
  valueDebugName : t.valueDebugName = []
  preheaderLineNum : t.preheaderLineNum = []
  globalStrings : t.globalStrings.OK

theorem ready_init : Tracer.init.Ready := ⟨rfl, rfl, GlobalStrings.ok_init⟩

/-- What comes of a function: it is refused for this reason, or its body
reads as this one. -/
inductive Comes : Except Refusal (LinkedBody × Tracer) → Except Refusal Body → Prop
  | refused (r : Refusal) : Comes (.error r) (.error r)
  | instrumented {linked : LinkedBody} {t : Tracer} {body : Body} : linked.Reads t.globalStrings.held body →
      Comes (.ok (linked, t)) (.ok body)

theorem Comes.unique : Relator.RightUnique Comes := by
  rintro x r r' h h'
  cases h with
  | refused r => cases h'; rfl
  | instrumented h =>
    cases h' with
    | instrumented h' => exact congrArg Except.ok (LinkedBody.Reads.unique _ h h')

/-- The same comes of it, up to which variable holds a string. -/
def Alike (x x' : Except Refusal (LinkedBody × Tracer)) : Prop := ∃ r, Comes x r ∧ Comes x' r

/-- Both sides do `x` first. -/
theorem comes_bind {α : Type} {x : Except Refusal α} {f : α → Except Refusal (LinkedBody × Tracer)}
    {g : α → Except Refusal Body} (h : ∀ a, Comes (f a) (g a)) : Comes (x >>= f) (x >>= g) := by
  cases x with
  | error r => exact .refused r
  | ok a => exact h a

/-! ## One function, and then the next -/

theorem ofFunction_reads (held : List String) (F : Function) :
    (LinkedBody.ofFunction F).Reads held (.ofFunction F) := by
  rw [LinkedBody.Reads, LinkedBody.ofFunction, Body.ofFunction, List.forall₂_map_left_iff, List.forall₂_map_right_iff,
    List.forall₂_same]
  intro b _
  rw [List.forall₂_map_left_iff, List.forall₂_map_right_iff, List.forall₂_same]
  exact fun I _ => rfl

section

variable {cfg : Config} {t : Tracer} (h : t.Ready)
include h

/-- What the tables held before makes no difference to a function. -/
theorem runOnFunction_comes (F : Function) : Comes (t.runOnFunction cfg F) (Pass.runOnFunction cfg F) := by
  unfold runOnFunction Pass.runOnFunction
  split
  · simp only [h.valueDebugName, h.preheaderLineNum, collect, bind_assoc, Run.ok_bind]
    refine comes_bind fun valueDebugName => comes_bind fun preheaderLineNum => comes_bind fun w => comes_bind fun w' => ?_
    exact .instrumented (Body.link_spec h.globalStrings w'.body).2.2
  · exact .instrumented (ofFunction_reads _ F)

/-- The tables are ready for the next function, and no string has changed. -/
theorem Ready.next {F : Function} {linked : LinkedBody} {t' : Tracer} (hrun : t.runOnFunction cfg F = .ok (linked, t')) :
    t'.Ready ∧ t.globalStrings.Grows t'.globalStrings := by
  unfold runOnFunction at hrun
  split at hrun
  · obtain ⟨valueDebugName, -, hrun⟩ := Run.bind_eq_ok.1 hrun
    obtain ⟨preheaderLineNum, -, hrun⟩ := Run.bind_eq_ok.1 hrun
    obtain ⟨w, -, hrun⟩ := Run.bind_eq_ok.1 hrun
    obtain ⟨w', -, hrun⟩ := Run.bind_eq_ok.1 hrun
    cases hrun
    obtain ⟨hok, hgrows, -⟩ := Body.link_spec h.globalStrings w'.body
    exact ⟨⟨rfl, rfl, hok⟩, hgrows⟩
  · cases hrun
    exact ⟨h, .refl _⟩

end

/-- The pass over a module does what it does to each of its functions alone:
at the end every body reads as that. -/
theorem runOnFunctions_reads {cfg : Config} : ∀ {Fs : List Function} {t t' : Tracer} {linked : List LinkedBody},
    t.Ready → t.runOnFunctions cfg Fs = .ok (linked, t') →
      (t'.Ready ∧ t.globalStrings.Grows t'.globalStrings) ∧
        ∃ l, Pass.runOnFunctions cfg Fs = .ok l ∧
          List.Forall₂ (fun body r => LinkedBody.Reads t'.globalStrings.held body r.2) linked l
  | [], t, _, _, h, hrun => by
    cases hrun
    exact ⟨⟨h, .refl _⟩, [], rfl, .nil⟩
  | F :: Fs, t, t', _, h, hrun => by
    obtain ⟨⟨linked, t₁⟩, hF, hrun⟩ := Run.bind_eq_ok.1 hrun
    obtain ⟨⟨rest, _⟩, hFs, heq⟩ := Run.map_eq_ok.1 hrun
    cases heq
    obtain ⟨hready, hgrows⟩ := h.next hF
    obtain ⟨⟨hready', hgrows'⟩, l, hl, hall⟩ := runOnFunctions_reads hready hFs
    have hcomes : Comes (t.runOnFunction cfg F) (Pass.runOnFunction cfg F) := runOnFunction_comes h F
    rw [hF] at hcomes
    generalize hbody : Pass.runOnFunction cfg F = r at hcomes
    cases hcomes with
    | @instrumented _ _ body hreads =>
      refine ⟨⟨hready', hgrows.trans hgrows'⟩, (F, body) :: l, ?_, .cons (hreads.mono hgrows'.held) hall⟩
      rw [Pass.runOnFunctions, hbody, Run.ok_bind, hl]
      rfl

/-- **Functions are instrumented independently** of what was instrumented
before, and in which order. -/
theorem runOnFunction_independent {cfg : Config} {before before' : List Function} {linked linked' : List LinkedBody}
    {t t' : Tracer} (h : Tracer.init.runOnFunctions cfg before = .ok (linked, t))
    (h' : Tracer.init.runOnFunctions cfg before' = .ok (linked', t')) (F : Function) :
    Alike (t.runOnFunction cfg F) (t'.runOnFunction cfg F) :=
  ⟨Pass.runOnFunction cfg F, runOnFunction_comes (runOnFunctions_reads ready_init h).1.1 F,
    runOnFunction_comes (runOnFunctions_reads ready_init h').1.1 F⟩

/-- `top` calls `helper`, and both are compiled as C. -/
def helperConfig : Config := ⟨true, ["top"], [("helper", "helper"), ("top", "top")]⟩

/-- The name the cast has left for slot -1 is not the return's of `top`. -/
def helperDone : Tracer where
  vectorBuffers := []
  slotToVarName := [(4294967295, "x")]
  valueDebugName := []
  preheaderLineNum := []
  globalStrings :=
    ⟨[("phi", 4), ("x", 3), ("p", 2), ("entry:0", 1), ("helper", 0)], ["helper", "entry:0", "p", "x", "phi"]⟩

theorem runOnFunction_independent_helper :
    Alike (helperDone.runOnFunction helperConfig addOne) (Tracer.init.runOnFunction helperConfig addOne) := by
  have hhelper : ∃ linked, Tracer.init.runOnFunctions helperConfig [{ castPointer with name := "helper" }] =
      .ok (linked, helperDone) := ⟨_, rfl⟩
  obtain ⟨linked, hhelper⟩ := hhelper
  have hnone : Tracer.init.runOnFunctions helperConfig [] = .ok ([], .init) := rfl
  exact runOnFunction_independent hhelper hnone addOne

end Tracer

end LlvmTracer.Pass
