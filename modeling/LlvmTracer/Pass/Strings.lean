/-
The strings that pointer operands are logged as.

`printParamLine` looks at the global that a constant expression starts from,
not at where in it the expression points. It asks the global for its
initializer, which an external one does not have, and the initializer for its
C string, which asserts that the elements are characters and that one NUL ends
them.
-/
import LlvmTracer.Pass.Edits

namespace LlvmTracer.Pass

open Ir Emit

/-! ## Strings in memory -/

/-- The characters before the first NUL. -/
def nulTerminated (data : List UInt8) : Option String :=
  if 0 ∈ data then some (String.ofList ((data.takeWhile fun b => b ≠ 0).map fun b => Char.ofNat b.toNat)) else none

/-- The string that starts `offset` bytes into a global's initializer. -/
def stringAt (gv : GlobalVariable) (offset : Int) : Option String :=
  match gv.initializer with
  | some (.bytes data) => if 0 ≤ offset then nulTerminated (data.drop offset.toNat) else none
  | _ => none

/-- The string at the address a value points to, in the global it refers to. -/
def referredString : Value → Option String
  | .constExpr _ _ (some (gv, offset)) => stringAt gv offset
  | _ => none

/-- A constant expression of type `i8*`. -/
def isCharConstExpr : Value → Bool
  | .constExpr (.pointer (.integer 8)) _ _ => true
  | _ => false

theorem takeWhile_ne_zero {chars : List UInt8} (h : 0 ∉ chars) (rest : List UInt8) :
    (chars ++ 0 :: rest).takeWhile (fun b => b ≠ 0) = chars := by
  have hne : ∀ b ∈ chars, decide (b ≠ 0) = true := fun b hb => by
    have hb' : b ≠ 0 := ne_of_mem_of_not_mem hb h
    simpa using hb'
  rw [List.takeWhile_append_of_pos hne]
  simp

theorem nulTerminated_append {chars : List UInt8} (h : 0 ∉ chars) :
    nulTerminated (chars ++ [0]) = some (String.ofList (chars.map fun b => Char.ofNat b.toNat)) := by
  rw [nulTerminated, if_pos (by simp), takeWhile_ne_zero h]

theorem getAsCString_append {chars : List UInt8} (h : 0 ∉ chars) :
    getAsCString (chars ++ [0]) = .ok (String.ofList (chars.map fun b => Char.ofNat b.toNat)) := by
  simp [getAsCString, h]

theorem getAsCString_eq_ok {data : List UInt8} {s : String} (h : getAsCString data = .ok s) :
    ∃ chars, data = chars ++ [0] ∧ 0 ∉ chars := by
  unfold getAsCString at h
  split at h
  · rename_i hdata
    exact ⟨_, (List.dropLast_append_getLast? _ hdata.1).symm, hdata.2⟩
  · cases h

/-- From elsewhere on it is another string, or none. -/
theorem nulTerminated_drop_eq {chars : List UInt8} (h : 0 ∉ chars) {k : Nat}
    (hk : nulTerminated ((chars ++ [0]).drop k) = nulTerminated (chars ++ [0])) : k = 0 := by
  rw [nulTerminated_append h] at hk
  by_cases hle : k ≤ chars.length
  · have hdrop : 0 ∉ chars.drop k := fun hz => h (List.mem_of_mem_drop hz)
    rw [List.drop_append_of_le_length hle, nulTerminated_append hdrop, Option.some.injEq, ← String.toList_inj,
      String.toList_ofList, String.toList_ofList] at hk
    have hlength := congrArg List.length hk
    simp only [List.length_map, List.length_drop] at hlength
    omega
  · rw [List.drop_eq_nil_of_le (by simp; omega)] at hk
    cases hk

/-! ## A pointer's line -/

/-- The loggers called, each with its value. -/
def logs (es : List Edit) : List (ParamLogger × LogValue) := es.filterMap fun e => e.inst.logs?

theorem logs_append {es es' : List Edit} : logs (es ++ es') = logs es ++ logs es' := List.filterMap_append

/-- What is expected of a pointer's line: a string that is logged is the one
at the pointer's address; and a constant expression of type `i8*` has a line,
which logs the pointer where there is no string. -/
structure LogsStrings (pt : Point) (pu : Purpose) (p : InstOperandParams) (v : Value) (g : Gen) : Prop where
  string : ∀ u es g', Runs (printParamLine pt pu p) g u es g' → ∀ x, (.string, x) ∈ logs es →
    ∃ s, referredString v = some s ∧ x = .string s
  hasLine : isCharConstExpr v = true → ∃ u es g', Runs (printParamLine pt pu p) g u es g' ∧
    (referredString v = none → ∃ x, logs es = [(.ptr, x)])

/-- A constant expression of type `i8*` that starts from a global points to
the start of a C string, or into what is no array of data. -/
def StartsString : Value → Prop
  | .constExpr (.pointer (.integer 8)) _ (some (gv, offset)) =>
    gv.initializer = some .other ∨
      ∃ chars, gv.initializer = some (.bytes (chars ++ [0])) ∧ 0 ∉ chars ∧ offset = 0
  | _ => True

section

variable {pt : Point} {pu : Purpose} {p : InstOperandParams} {v : Value} {g g' : Gen} {u : Unit} {es : List Edit}

theorem accepts_ptrToInt (hty : v.ty.typeID = .pointer) : CastOp.ptrToInt.accepts v.ty = true := by
  cases ht : v.ty <;> simp_all [Ty.typeID, CastOp.accepts]

theorem logs_createCast {op : CastOp} {x : LogValue} (h : Runs (createCast pt pu op v) g x es g') : logs es = [] := by
  rcases createCast_cases h with ⟨-, rfl, -⟩ | ⟨-, -, -, rfl, -⟩ <;> rfl

theorem runs_printParamLine_pointer (hv : p.value = some v) (hptr : p.datatype = .pointer) :
    Runs (printParamLine pt pu p) g u es g' ↔ Runs (printPointerLine pt pu p v) g u es g' := by
  unfold printParamLine
  rw [hv]
  simp only [hptr, TypeID.isFloatingPoint]
  rfl

theorem logs_of_intrinsic (hintr : p.isIntrinsic = true) (h : Runs (printPointerLine pt pu p v) g u es g') :
    logs es = [(.ptr, .zero)] := by
  rw [printPointerLine, if_pos hintr, runs_insertCall] at h
  rw [h.1]
  rfl

theorem logs_printPointerLine (hintr : p.isIntrinsic = false) (h : Runs (printPointerLine pt pu p v) g u es g') :
    (stringValue v = .ok none ∧ ∃ x, logs es = [(.ptr, x)]) ∨
      ∃ s, stringValue v = .ok (some s) ∧ logs es = [(.string, .string s)] := by
  rw [printPointerLine, if_neg (by simp [hintr])] at h
  obtain ⟨x, o₁, g₁, o₂, h₁, h₂, rfl⟩ := runs_bind.1 h
  obtain ⟨str, o₃, g₂, o₄, h₃, h₄, rfl⟩ := runs_bind.1 h₂
  obtain ⟨hstr, rfl, rfl⟩ := runs_lift.1 h₃
  rw [logs_append, logs_createCast h₁]
  cases str with
  | some s =>
    obtain ⟨rfl, rfl⟩ := runs_insertCall.1 h₄
    exact .inr ⟨s, hstr, rfl⟩
  | none =>
    obtain ⟨rfl, rfl⟩ := runs_insertCall.1 h₄
    exact .inl ⟨hstr, x, rfl⟩

/-- The line goes through if it is found out whether there is a string. -/
theorem exists_runs_printPointerLine (hty : v.ty.typeID = .pointer)
    (hstr : p.isIntrinsic = true ∨ ∃ str, stringValue v = .ok str) :
    ∃ u es g', Runs (printPointerLine pt pu p v) g u es g' := by
  unfold printPointerLine
  split
  · exact ⟨(), _, _, runs_insertCall.2 ⟨rfl, rfl⟩⟩
  · rename_i hintr
    obtain ⟨str, hstr⟩ := hstr.resolve_left hintr
    obtain ⟨x, o, g₁, hcast⟩ : ∃ x o g₁, Runs (createCast pt pu .ptrToInt v) g x o g₁ :=
      exists_runs_createCast (accepts_ptrToInt hty)
    have hlift : Runs (Emit.lift (stringValue v) : Tracing _) g₁ str [] g₁ := runs_lift.2 ⟨hstr, rfl, rfl⟩
    cases str with
    | some s =>
      exact ⟨(), _, _, runs_bind.2 ⟨x, o, g₁, _, hcast,
        runs_bind.2 ⟨_, _, _, _, hlift, runs_insertCall.2 ⟨rfl, rfl⟩, rfl⟩, rfl⟩⟩
    | none =>
      exact ⟨(), _, _, runs_bind.2 ⟨x, o, g₁, _, hcast,
        runs_bind.2 ⟨_, _, _, _, hlift, runs_insertCall.2 ⟨rfl, rfl⟩, rfl⟩, rfl⟩⟩

/-! ## When strings are logged as expected -/

theorem stringValue_of_startsString (h : StartsString v) :
    stringValue v = .ok none ∨ ∃ s, stringValue v = .ok (some s) ∧ referredString v = some s := by
  unfold stringValue
  split
  · rename_i text gv offset
    rcases h with hother | ⟨chars, hdata, hchars, rfl⟩
    · rw [hother]
      exact .inl rfl
    · right
      simp only [hdata, getAsCString_append hchars, Run.ok_bind]
      refine ⟨_, rfl, ?_⟩
      simp only [referredString, stringAt, hdata, Int.toNat_zero, List.drop_zero, nulTerminated_append hchars]
      rfl
  · exact .inl rfl

theorem startsString_of_stringValue (hok : isCharConstExpr v = true → ∃ str, stringValue v = .ok str)
    (hstr : ∀ s, stringValue v = .ok (some s) → referredString v = some s) : StartsString v := by
  unfold StartsString
  split
  · rename_i text gv offset
    obtain ⟨str, hval⟩ := hok rfl
    simp only [stringValue] at hval hstr
    cases hinit : gv.initializer with
    | none => simp [hinit] at hval
    | some init =>
      cases init with
      | other => exact .inl rfl
      | dataArray => simp [hinit] at hval
      | bytes data =>
        right
        simp only [hinit] at hval hstr
        obtain ⟨s, hs, -⟩ := Run.bind_eq_ok.1 hval
        obtain ⟨chars, rfl, hchars⟩ := getAsCString_eq_ok hs
        refine ⟨chars, rfl, hchars, ?_⟩
        rw [getAsCString_append hchars, Run.ok_bind] at hstr
        have hat := hstr _ rfl
        simp only [referredString, stringAt, hinit] at hat
        split at hat
        · have hzero := nulTerminated_drop_eq hchars (hat.trans (nulTerminated_append hchars).symm)
          omega
        · cases hat
  · trivial

theorem logsStrings_of_intrinsic (hv : p.value = some v) (hdatatype : p.datatype = .pointer)
    (hty : v.ty.typeID = .pointer) (hintr : p.isIntrinsic = true) : LogsStrings pt pu p v g := by
  refine ⟨fun u es g' hrun x hx => ?_, fun _ => ?_⟩
  · rw [runs_printParamLine_pointer hv hdatatype] at hrun
    rw [logs_of_intrinsic hintr hrun] at hx
    simp at hx
  · obtain ⟨u, es, g', hrun⟩ : ∃ u es g', Runs (printPointerLine pt pu p v) g u es g' :=
      exists_runs_printPointerLine hty (.inl hintr)
    exact ⟨u, es, g', (runs_printParamLine_pointer hv hdatatype).2 hrun, fun _ => ⟨_, logs_of_intrinsic hintr hrun⟩⟩

theorem logsStrings_of_startsString (hv : p.value = some v) (hdatatype : p.datatype = .pointer)
    (hty : v.ty.typeID = .pointer) (hintr : p.isIntrinsic = false) (hstart : StartsString v) :
    LogsStrings pt pu p v g := by
  have hval := stringValue_of_startsString hstart
  refine ⟨fun u es g' hrun x hx => ?_, fun _ => ?_⟩
  · rw [runs_printParamLine_pointer hv hdatatype] at hrun
    rcases logs_printPointerLine hintr hrun with ⟨-, y, hlogs⟩ | ⟨s, hs, hlogs⟩
    · simp [hlogs] at hx
    · rcases hval with hnone | ⟨s', hs', href⟩
      · rw [hs] at hnone
        cases hnone
      · rw [hs] at hs'
        cases hs'
        exact ⟨s, href, by simpa [hlogs] using hx⟩
  · have hstr : ∃ str, stringValue v = .ok str := hval.elim (fun h => ⟨_, h⟩) fun ⟨_, h, _⟩ => ⟨_, h⟩
    obtain ⟨u, es, g', hrun⟩ : ∃ u es g', Runs (printPointerLine pt pu p v) g u es g' :=
      exists_runs_printPointerLine hty (.inr hstr)
    refine ⟨u, es, g', (runs_printParamLine_pointer hv hdatatype).2 hrun, fun hnone => ?_⟩
    rcases logs_printPointerLine hintr hrun with ⟨-, hlogs⟩ | ⟨s, hs, -⟩
    · exact hlogs
    · rcases hval with hval | ⟨s', -, href⟩
      · rw [hs] at hval
        cases hval
      · rw [hnone] at href
        cases href

/-- On any pointer operand, at any state of the pass. -/
theorem logsStrings_iff (hv : p.value = some v) (hdatatype : p.datatype = .pointer)
    (hty : v.ty.typeID = .pointer) : LogsStrings pt pu p v g ↔ p.isIntrinsic = true ∨ StartsString v := by
  constructor
  · rintro ⟨hstring, hline⟩
    simp only [runs_printParamLine_pointer hv hdatatype] at hstring hline
    refine or_iff_not_imp_left.2 fun hintr => ?_
    have hintr : p.isIntrinsic = false := by simpa using hintr
    refine startsString_of_stringValue (fun hchar => ?_) fun s hs => ?_
    · obtain ⟨u, es, g', hrun, -⟩ := hline hchar
      rcases logs_printPointerLine hintr hrun with ⟨hval, -⟩ | ⟨s, hval, -⟩
      · exact ⟨_, hval⟩
      · exact ⟨_, hval⟩
    · obtain ⟨u, es, g', hrun⟩ : ∃ u es g', Runs (printPointerLine pt pu p v) g u es g' :=
        exists_runs_printPointerLine hty (.inr ⟨_, hs⟩)
      rcases logs_printPointerLine hintr hrun with ⟨hval, -⟩ | ⟨s', hval, hlogs⟩
      · rw [hs] at hval
        cases hval
      · rw [hs] at hval
        cases hval
        obtain ⟨s', href, hx⟩ := hstring u es g' hrun (.string s) (by simp [hlogs])
        cases hx
        exact href
  · rintro (hintr | hstart)
    · exact logsStrings_of_intrinsic hv hdatatype hty hintr
    · by_cases hintr : p.isIntrinsic = true
      · exact logsStrings_of_intrinsic hv hdatatype hty hintr
      · exact logsStrings_of_startsString hv hdatatype hty (by simpa using hintr) hstart

end

/-- A string constant, and a pointer into the middle of it. -/
def greeting : GlobalVariable := ⟨".str", .array 6 i8, some (.bytes [104, 101, 108, 108, 111, 0])⟩

def greetingFrom (offset : Int) : Value := .constExpr (.pointer i8) "" (some (greeting, offset))

def greetingOperand (offset : Int) : InstOperandParams :=
  ⟨1, .pointer, 64, some (greetingFrom offset), false, false, "", none, phiText⟩

theorem logsStrings_iff_greeting :
    LogsStrings .front .entry (greetingOperand 0) (greetingFrom 0) Gen.init :=
  (logsStrings_iff rfl rfl rfl).2 (.inr (.inr ⟨[104, 101, 108, 108, 111], rfl, by decide, rfl⟩))

/-- From its third character on it is still logged whole. -/
theorem not_logsStrings_greeting :
    ¬LogsStrings .front .entry (greetingOperand 2) (greetingFrom 2) Gen.init := by
  intro h
  obtain ⟨s, href, hx⟩ := h.string () _ _ rfl (.string "hello") (by decide)
  cases hx
  exact absurd href (by decide)

end LlvmTracer.Pass
