/-
Executing a function, and executing it instrumented.

What an original instruction does is a parameter (`Semantics`): it depends on
the instruction, its operands, the memory, and the block control came from.
The instrumented function executes its original instructions so, and its
inserted ones on data of their own: a cast's or an address's value, and the
buffers, which are fresh memory. A call of the logger emits its record.

An instruction's result is set when the instruction is executed, an invoke's
also on the way to its landing pad.
-/
import LlvmTracer.Lib.Machine
import LlvmTracer.Pass.Stream

namespace LlvmTracer.Pass

open Ir Machine

/-! ## Original instructions -/

/-- What the instructions of a function do, over values `V` and memories `M`,
where the functions called emit events `ε`. -/
structure Semantics (V M ε : Type) where
  /-- The values of arguments, constants and so on. -/
  const : Value → V
  /-- What an instruction may do when control came from a block: with the
  operands' values and a memory, emit events, give a value and a memory, and
  send control on. -/
  exec : Inst → Nat → List (Option V) → M → List ε → V → M → Exit Nat V → Prop
  jumps : ∀ {I b operands m o x m' b'}, exec I b operands m o x m' (.jump b') →
    I.isTerminator = true ∧ b' ∈ I.operands.filterMap blockIndex
  /-- Only called functions emit events. -/
  quiet : ∀ {I b operands m o x m' e}, exec I b operands m o x m' e → I.isCall = false → I.isInvoke = false → o = []
  cast : CastOp → V → V
  string : String → V
  zero : V
  undef : V
  /-- The address of a buffer. -/
  address : Nat → V

/-- The results of instructions by their ids, now and as control came into
the block, the block it came from, and the memory. -/
structure Data (V M : Type) where
  regs : Nat → Option V
  edge : Nat → Option V
  source : Nat
  mem : M

section

variable {V M ε : Type}

def Data.result (d : Data V M) (I : Inst) (x : V) : Nat → Option V :=
  if I.ty = .void then d.regs else Function.update d.regs I.id (some x)

def Data.after (d : Data V M) (b : Nat) (I : Inst) (x : V) (m : M) : Exit Nat V → Data V M
  | .jump _ => ⟨d.result I x, d.result I x, b, m⟩
  | .next | .halt _ => ⟨d.result I x, d.edge, d.source, m⟩

@[simp] theorem Data.after_regs (d : Data V M) (b : Nat) (I : Inst) (x : V) (m : M) (e : Exit Nat V) :
    (d.after b I x m e).regs = d.result I x := by
  cases e <;> rfl

namespace Semantics

variable (S : Semantics V M ε)

def operand (regs : Nat → Option V) : Value → Option V
  | .inst r => regs r.id
  | v => some (S.const v)

/-- The phis of a block read what there was when control came into it. -/
def operands (d : Data V M) (I : Inst) : List (Option V) :=
  I.operands.map (S.operand (if I.isPhi then d.edge else d.regs))

inductive Step : Exec Nat Inst (Data V M) V ε
  | mk {b : Nat} {I : Inst} {d : Data V M} {o : List ε} {x : V} {m : M} {e : Exit Nat V} :
      S.exec I d.source (S.operands d I) d.mem o x m e → Step b I d o (d.after b I x m e) e

end Semantics

/-! ## Inserted instructions -/

/-- The values of inserted instructions, and what the buffers hold. -/
structure Temps (V : Type) where
  values : Nat → Option V
  buffers : Nat → Option V

def Temps.init : Temps V := ⟨fun _ => none, fun _ => none⟩

def Temps.setValue (t : Temps V) (serial : Nat) (x : V) : Temps V :=
  { t with values := Function.update t.values serial (some x) }

def Temps.setBuffer (t : Temps V) (serial : Nat) (x : V) : Temps V :=
  { t with buffers := Function.update t.buffers serial (some x) }

namespace Semantics

variable (S : Semantics V M ε)

def logValue (d : Data V M) (t : Temps V) : LogValue → Option V
  | .zero => some S.zero
  | .node serial => t.values serial
  | .value v => S.operand d.regs v
  | .folded op v => (S.operand d.regs v).map (S.cast op)
  | .string s => some (S.string s)

/-- An inserted instruction is stuck without what it reads. -/
inductive StepNew (d : Data V M) : NewInst → Temps V → List (Event ε) → Temps V → Prop
  | cast {n : Nat} {pu : Purpose} {op : CastOp} {v : Value} {t : Temps V} {x : V} :
      S.operand d.regs v = some x → StepNew d ⟨n, pu, .cast op v⟩ t [] (t.setValue n (S.cast op x))
  | alloca {n : Nat} {pu : Purpose} {ty : Ty} {t : Temps V} :
      StepNew d ⟨n, pu, .alloca ty⟩ t [] (t.setBuffer n S.undef)
  | store {n : Nat} {pu : Purpose} {v : Value} {buffer align : Nat} {t : Temps V} {x : V} :
      S.operand d.regs v = some x → t.buffers buffer ≠ none →
      StepNew d ⟨n, pu, .store v buffer align⟩ t [] (t.setBuffer buffer x)
  | pointerCast {n : Nat} {pu : Purpose} {buffer : Nat} {t : Temps V} : t.buffers buffer ≠ none →
      StepNew d ⟨n, pu, .pointerCast buffer⟩ t [] (t.setValue n (S.address buffer))
  | call {n : Nat} {pu : Purpose} {k : LogCall} {t : Temps V} :
      (∀ x, k.value? = some x → S.logValue d t x ≠ none) → StepNew d ⟨n, pu, .call k⟩ t [.record ⟨pu, k.line⟩] t

inductive StepNode : Exec Nat Node (Data V M × Temps V) V (Event ε)
  | orig {b : Nat} {I : Inst} {d d' : Data V M} {t : Temps V} {o : List ε} {e : Exit Nat V} :
      S.Step b I d o d' e → StepNode b (.orig I) (d, t) (o.map .foreign) (d', t) e
  | new {b : Nat} {n : NewInst} {d : Data V M} {t t' : Temps V} {o : List (Event ε)} :
      S.StepNew d n t o t' → StepNode b (.new n) (d, t) o (d, t') .next

/-- Executions of a function, from the data it is called with. -/
abbrev RunFunction (F : Function) (d₀ : Data V M) : List (Visit Nat ε) → Conf Inst (Data V M) V → Prop :=
  Run S.Step 0 F.code d₀

/-- Executions of an instrumented function. -/
abbrev RunBody (body : Body) (d₀ : Data V M) :
    List (Visit Nat (Event ε)) → Conf Node (Data V M × Temps V) V → Prop :=
  Run S.StepNode 0 body.block (d₀, .init)

end Semantics

/-! ## Where control goes -/

theorem filterMap_orig_block (F : Function) (p : Plan) (b : Nat) :
    ((instrumented F p).block b).filterMap Node.orig? = F.code b := by
  by_cases hb : b < F.blocks.length
  · rw [instrumented, block_render hb, List.filterMap_append, filterMap_orig_renderInsts]
    split
    · rw [filterMap_orig_new, List.nil_append]
    · rfl
  · have hlen : F.blocks.length ≤ b := Nat.le_of_not_lt hb
    simp [instrumented, render, Body.block, Function.code, hlen]

theorem mem_succs {F : Function} {b b' : Nat} {pre : List Inst} {I : Inst} (hcode : F.code b = pre ++ [I])
    (hI : I.isTerminator = true) (hb' : b' ∈ I.operands.filterMap blockIndex) : b' ∈ F.succs b := by
  have hterm : F.terminator b = some I := by
    unfold Function.terminator
    unfold Function.code at hcode
    cases hb : F.blocks[b]? with
    | none => simp [hb] at hcode
    | some blk =>
      have hinsts : blk.insts = pre ++ [I] := by simpa [hb] using hcode
      simp [Block.terminator, hinsts, hI]
  rw [Function.succs, hterm]
  exact hb'

/-- The blocks of a path are the function's. -/
theorem lt_of_mem_path {F : Function} (hF : F.WF) {π : List Nat} (h : Dominance.Path F.succs 0 π) :
    ∀ b ∈ π, b < F.blocks.length := by
  induction h with
  | entry =>
    intro b hb
    rw [List.mem_singleton.1 hb]
    exact List.length_pos_iff.2 (blocks_ne_nil hF)
  | @step b b' π _ hsucc ih =>
    intro i hi
    rcases List.mem_cons.1 hi with rfl | hi
    · unfold Function.succs at hsucc
      cases hterm : F.terminator b with
      | none => simp [hterm] at hsucc
      | some I =>
        rw [hterm] at hsucc
        have hI : I ∈ F.insts := Function.mem_insts_of_terminator hterm
        obtain ⟨v, hv, hindex⟩ := List.mem_filterMap.1 hsucc
        cases v with
        | block r =>
          cases hindex
          exact Function.mem_blockRefs (hF.operands I hI _ hv)
        | _ => cases hindex
    · exact ih i hi

theorem Semantics.Step.jump_mem {S : Semantics V M ε} {F : Function} {b b' : Nat} {pre : List Inst} {I : Inst}
    {d d' : Data V M} {o : List ε} (hcode : F.code b = pre ++ [I]) (h : S.Step b I d o d' (.jump b')) :
    b' ∈ F.succs b := by
  cases h with
  | mk hexec =>
    obtain ⟨hterm, hmem⟩ := S.jumps hexec
    exact mem_succs hcode hterm hmem

theorem Semantics.StepNode.jump_mem {S : Semantics V M ε} {F : Function} {p : Plan} {b b' : Nat} {pre : List Node}
    {n : Node} {s s' : Data V M × Temps V} {o : List (Event ε)} (hcode : (instrumented F p).block b = pre ++ [n])
    (h : S.StepNode b n s o s' (.jump b')) : b' ∈ F.succs b := by
  cases h with
  | orig hstep =>
    have herase := filterMap_orig_block F p b
    rw [hcode, List.filterMap_append] at herase
    exact hstep.jump_mem herase.symm

/-! ## What is emitted -/

/-- What executing a node emits. -/
def Emits (ε : Type) (n : Node) (o : List (Event ε)) : Prop :=
  match n with
  | .orig I => ∃ xs : List ε, o = xs.map .foreign ∧ (I.isCall = false → I.isInvoke = false → xs = [])
  | .new n => o = (n.record?.map Event.record).toList

theorem Semantics.StepNode.emits {S : Semantics V M ε} {b : Nat} {n : Node} {s s' : Data V M × Temps V}
    {o : List (Event ε)} {e : Exit Nat V} (h : S.StepNode b n s o s' e) : Emits ε n o := by
  cases h with
  | orig hstep =>
    obtain ⟨hexec⟩ := hstep
    exact ⟨_, rfl, fun hc hi => S.quiet hexec hc hi⟩
  | new hnew => cases hnew <;> rfl

/-- The events of a list of nodes are those for some streams of the functions called. -/
theorem exists_events {nodes : List Node} {o : List (Event ε)} (h : EmitsAll (Emits ε) nodes o)
    (hnd : ((nodes.filterMap Node.orig?).map Inst.id).Nodup) : ∃ κ, o = events κ nodes := by
  induction h with
  | nil => exact ⟨fun _ => [], rfl⟩
  | @cons n nodes o o' hn _ ih =>
    cases n with
    | new m =>
      obtain ⟨κ, rfl⟩ := ih hnd
      exact ⟨κ, by rw [show o = (m.record?.map Event.record).toList from hn]; rfl⟩
    | orig I =>
      obtain ⟨hI, hnd⟩ := List.nodup_cons.1 hnd
      obtain ⟨κ, rfl⟩ := ih hnd
      obtain ⟨xs, rfl, hxs⟩ := hn
      refine ⟨Function.update κ I.id xs, ?_⟩
      have hrest : events (Function.update κ I.id xs) nodes = events κ nodes := by
        refine List.flatMap_congr fun m hm => ?_
        cases m with
        | new => rfl
        | orig J =>
          have hne : J.id ≠ I.id := fun h => hI (h ▸ List.mem_map_of_mem (List.mem_filterMap.2 ⟨_, hm, rfl⟩))
          simp [nodeEvents, calleeEvents, Function.update_of_ne hne]
      have hone : calleeEvents (Function.update κ I.id xs) I = xs.map .foreign := by
        unfold calleeEvents
        split
        · rw [Function.update_self]
        · rename_i hcall
          simp only [Bool.or_eq_true, not_or, Bool.not_eq_true] at hcall
          rw [hxs hcall.1 hcall.2]
          rfl
      have hcons : events (Function.update κ I.id xs) (.orig I :: nodes) =
          calleeEvents (Function.update κ I.id xs) I ++ events (Function.update κ I.id xs) nodes := rfl
      rw [hcons, hone, hrest]

end

end LlvmTracer.Pass
