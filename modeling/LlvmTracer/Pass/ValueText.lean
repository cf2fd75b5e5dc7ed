/-
What the trace says of a value.

The pass hands the logger an integer with zeros in front of it, an address, or
a buffer with a vector's bits, and the size that `getMemSize` computes. The
logger prints the size and the value (`shown`), and `readShown` reads these
back. Of a vector it prints whole bytes only, and as many as the size has, so a
vector reads back just when its type is one of whole bytes (`isWhole`).
-/
import Mathlib.Algebra.Group.Int.Defs
import LlvmTracer.Lib.Bytes
import LlvmTracer.Logger.Trace
import LlvmTracer.Pass.Values
import LlvmTracer.Pass.VectorBuffers

namespace LlvmTracer.Pass

open Ir Emit Text

/-! ## Values -/

/-- `DataLayout::getTypeSizeInBits`, with pointers of 64 bits. -/
def bitSize : Ty → Nat
  | .pointer _ => 64
  | .vector n t => n * bitSize t
  | t => t.primitiveSizeInBits

/-- Integers of at most 64 bits, pointers, and vectors. -/
def isValueTy : Ty → Bool
  | .integer w => w ≤ 64
  | .pointer _ => true
  | .vector n t => 0 < n && isElement t
  | _ => false

def loggerFor : TypeID → ParamLogger
  | .integer => .int
  | .pointer => .ptr
  | _ => .vector

/-- A call of the logger about a value of the type `t`. -/
def LogCall.IsFor (k : LogCall) (t : Ty) : Prop :=
  ∃ num size x isReg regId isPhi prevBbid,
    k = .param (loggerFor t.typeID) num size x isReg regId isPhi prevBbid ∧ getMemSize t = .ok size

/-! ## The call at run time -/

/-- A 64-bit argument, taken as an `int`. -/
def intArg (n : Nat) : Int := (BitVec.ofNat 32 n).toInt

/-- The logger is called about a value: an integer or an address is passed in
64 bits, and of a vector the address of its bytes in memory, where its elements
are one behind the other. -/
def LogCall.paramCall (k : LogCall) {bits : Nat} (v : BitVec bits) : Option Logger.ParamCall :=
  match k with
  | .param logger num size _ isReg regId isPhi prevBbid =>
    let args : Logger.ParamArgs := ⟨intArg num, intArg size, isReg.toNat, regId, isPhi.toNat, prevBbid⟩
    match logger with
    | .int => some (.logInt (v.setWidth 64) args)
    | .ptr => some (.logPtr (v.setWidth 64) args)
    | .vector => some (.logVector (Bytes.bytes ((bits + 7) / 8) v.toNat) args)
    | .string | .double => none
  | .log0 _ _ _ _ _ _ _ | .logEntry _ _ | .updateStatus _ _ _ _ => none

/-- The size and the value on a line. -/
def shown (c : Logger.ParamCall) : Chars × Chars := (decimal c.args.size, c.valueText)

/-! ## Reading -/

def readPointer : Chars → Option Nat
  | ['0'] => some 0
  | '0' :: 'x' :: cs => Bytes.readNat cs
  | _ => none

def readVector : Chars → Option (List UInt8)
  | '0' :: 'x' :: cs => Bytes.readBytes cs
  | _ => none

/-- The bits a text stands for, at a size. -/
def readValue (datatype : TypeID) (size : Int) (text : Chars) : Option Nat :=
  match datatype with
  | .integer => (readDecimal text).map fun i => (i % 2 ^ size.toNat).toNat
  | .pointer => (readPointer text).filter fun n => n < 2 ^ size.toNat
  | .vector => ((readVector text).filter fun bs => 8 * (bs.length : Int) = size).map Bytes.ofBytes
  | _ => none

def readShown (datatype : TypeID) (texts : Chars × Chars) : Option Nat :=
  (readDecimal texts.1).bind fun size => readValue datatype size texts.2

theorem readShown_shown (datatype : TypeID) (c : Logger.ParamCall) :
    readShown datatype (shown c) = readValue datatype c.args.size c.valueText := by
  rw [readShown, shown, readDecimal_decimal, Option.bind_some]

/-- The size and the text determine the value, and it is read back from them. -/
structure RoundTrips (k : LogCall) (t : Ty) : Prop where
  determined : ∀ v w : BitVec (bitSize t), (k.paramCall v).map shown = (k.paramCall w).map shown → v = w
  read : ∀ v : BitVec (bitSize t), ((k.paramCall v).map shown).bind (readShown t.typeID) = some v.toNat

/-- What is read back is determined. -/
theorem RoundTrips.of_read {k : LogCall} {t : Ty}
    (h : ∀ v : BitVec (bitSize t), ((k.paramCall v).map shown).bind (readShown t.typeID) = some v.toNat) :
    RoundTrips k t := by
  refine ⟨fun v w heq => ?_, h⟩
  have hv := h v
  rw [heq, h w] at hv
  exact (BitVec.eq_of_toNat_eq (Option.some.inj hv)).symm

/-! ## Integers and pointers -/

theorem intArg_of_lt {n : Nat} (h : n < 2 ^ 31) : intArg n = n := by
  rw [intArg, BitVec.toInt_eq_toNat_of_lt, BitVec.toNat_ofNat, Nat.mod_eq_of_lt (by omega)]
  rw [BitVec.toNat_ofNat, Nat.mod_eq_of_lt (by omega)]
  omega

/-- The lower bits of a number are the same whether it is read as signed or not. -/
theorem toInt_setWidth_emod {w : Nat} (hw : w ≤ 64) (v : BitVec w) :
    (v.setWidth 64).toInt % 2 ^ w = v.toNat := by
  have hlt : v.toNat < 2 ^ 64 := Nat.lt_of_lt_of_le v.isLt (Nat.pow_le_pow_right (by decide) hw)
  have hdvd : (2 : Int) ^ w ∣ 2 ^ 64 := by exact_mod_cast Nat.pow_dvd_pow 2 hw
  have hmod : (v.toNat : Int) % 2 ^ w = v.toNat := by exact_mod_cast Nat.mod_eq_of_lt v.isLt
  have hbmod : ((v.toNat : Int).bmod (2 ^ 64)) % 2 ^ 64 = v.toNat % 2 ^ 64 := Int.bmod_emod
  rw [BitVec.toInt_eq_toNat_bmod, BitVec.toNat_setWidth, Nat.mod_eq_of_lt hlt, ← Int.emod_emod_of_dvd _ hdvd, hbmod,
    Int.emod_emod_of_dvd _ hdvd, hmod]

theorem readPointer_pointerText (v : BitVec 64) : readPointer (Logger.pointerText v) = some v.toNat := by
  rw [Logger.pointerText]
  split
  · rename_i h
    rw [h]
    rfl
  · exact Bytes.readNat_toDigits v.toNat

section

variable {k : LogCall}

theorem LogCall.IsFor.integer {w : Nat} (hw : w ≤ 64) (hk : k.IsFor (.integer w)) :
    ∃ a : Logger.ParamArgs, a.size = w ∧
      ∀ {bits : Nat} (v : BitVec bits), k.paramCall v = some (.logInt (v.setWidth 64) a) := by
  obtain ⟨num, size, x, isReg, regId, isPhi, prevBbid, rfl, hsize⟩ := hk
  obtain rfl : w = size := Except.ok.inj hsize
  exact ⟨_, intArg_of_lt (by omega), fun _ => rfl⟩

theorem LogCall.IsFor.pointer {t : Ty} (hk : k.IsFor (.pointer t)) :
    ∃ a : Logger.ParamArgs, a.size = 64 ∧
      ∀ {bits : Nat} (v : BitVec bits), k.paramCall v = some (.logPtr (v.setWidth 64) a) := by
  obtain ⟨num, size, x, isReg, regId, isPhi, prevBbid, rfl, hsize⟩ := hk
  obtain rfl : 64 = size := Except.ok.inj hsize
  exact ⟨⟨_, intArg 64, _, _, _, _⟩, rfl, fun _ => rfl⟩

theorem LogCall.IsFor.vector {n : Nat} {t : Ty} (hk : k.IsFor (.vector n t)) :
    ∃ a : Logger.ParamArgs, a.size = intArg (n * t.primitiveSizeInBits % 2 ^ 32) ∧
      ∀ {bits : Nat} (v : BitVec bits), k.paramCall v = some (.logVector (Bytes.bytes ((bits + 7) / 8) v.toNat) a) := by
  obtain ⟨num, size, x, isReg, regId, isPhi, prevBbid, rfl, hsize⟩ := hk
  obtain rfl := Except.ok.inj hsize
  exact ⟨_, rfl, fun _ => rfl⟩

theorem roundTrips_integer {w : Nat} (hw : w ≤ 64) (hk : k.IsFor (.integer w)) : RoundTrips k (.integer w) := by
  obtain ⟨a, hsize, hcall⟩ := hk.integer hw
  refine .of_read fun v => ?_
  have hemod : ((v.setWidth 64).toInt % 2 ^ w).toNat = v.toNat := congrArg Int.toNat (toInt_setWidth_emod hw v)
  have hread : readValue .integer w (decimal (v.setWidth 64).toInt) = some v.toNat := by
    rw [readValue, readDecimal_decimal, Option.map_some, Int.toNat_natCast, hemod]
  rw [hcall, Option.map_some, Option.bind_some, readShown_shown, Logger.ParamCall.args, hsize]
  exact hread

theorem roundTrips_pointer {t : Ty} (hk : k.IsFor (.pointer t)) : RoundTrips k (.pointer t) := by
  obtain ⟨a, hsize, hcall⟩ := hk.pointer
  refine .of_read fun v => ?_
  have hlt : v.toNat < 2 ^ 64 := v.isLt
  have hread : readValue .pointer 64 (Logger.pointerText (v.setWidth 64)) = some v.toNat := by
    rw [readValue, readPointer_pointerText, BitVec.toNat_setWidth, Nat.mod_eq_of_lt hlt]
    exact Option.filter_some_pos (by simpa using hlt)
  rw [hcall, Option.map_some, Option.bind_some, readShown_shown, Logger.ParamCall.args, hsize]
  exact hread

end

/-! ## Vectors -/

/-- A vector of whole bytes that `getMemSize` counts: its elements are no
pointers, and its bits fill bytes and fit an `int`. -/
def isWhole : Ty → Bool
  | .vector n t => t.typeID ≠ .pointer && (n * bitSize t % 8 = 0 && n * bitSize t < 2 ^ 31)
  | _ => true

/-- The bytes that are printed of a vector. -/
def dumped (n : Nat) (t : Ty) : Nat := (intArg (n * t.primitiveSizeInBits % 2 ^ 32) / 8).toNat

theorem intArg_eq {n : Nat} (h : n < 2 ^ 32) : intArg n = if n < 2 ^ 31 then (n : Int) else n - 2 ^ 32 := by
  rw [intArg, BitVec.toInt_eq_toNat_cond, BitVec.toNat_ofNat, Nat.mod_eq_of_lt h]
  split <;> split <;> omega

theorem bitSize_of_isElement {t : Ty} (h : isElement t = true) :
    t.typeID = .pointer ∧ t.primitiveSizeInBits = 0 ∧ bitSize t = 64 ∨
      t.typeID ≠ .pointer ∧ t.primitiveSizeInBits = bitSize t := by
  cases t <;> simp_all [isElement, Ty.typeID, TypeID.isFloatingPoint, Ty.primitiveSizeInBits, bitSize]

section

variable {n : Nat} {t : Ty} (ht : isElement t = true)
include ht

theorem size_of_isWhole (h : isWhole (.vector n t) = true) :
    intArg (n * t.primitiveSizeInBits % 2 ^ 32) = (n * bitSize t : Nat) ∧ n * bitSize t % 8 = 0 := by
  simp only [isWhole, Bool.and_eq_true, decide_eq_true_eq, decide_not, Bool.not_eq_true', decide_eq_false_iff_not] at h
  obtain ⟨hptr, height, hlt⟩ := h
  obtain ⟨hptr', -⟩ | ⟨-, hsize⟩ := bitSize_of_isElement ht
  · exact absurd hptr' hptr
  · rw [hsize, Nat.mod_eq_of_lt (by omega)]
    exact ⟨intArg_of_lt hlt, height⟩

/-- Of other vectors some bits are not printed. -/
theorem dumped_lt (hn : 0 < n) (h : isWhole (.vector n t) = false) : 8 * dumped n t < n * bitSize t := by
  rw [dumped, intArg_eq (Nat.mod_lt _ (by decide))]
  obtain ⟨hptr, hzero, h64⟩ | ⟨hptr, hsize⟩ := bitSize_of_isElement ht
  · rw [hzero, h64]
    simp
    omega
  · have hbits : n * bitSize t % 8 = 0 → 2 ^ 31 ≤ n * bitSize t := by
      intro height
      simpa [isWhole, hptr, height] using h
    rw [hsize]
    generalize n * bitSize t = bits at hbits ⊢
    split <;> omega

end

theorem valueText_vector {a : Logger.ParamArgs} {n : Nat} {t : Ty}
    (hsize : a.size = intArg (n * t.primitiveSizeInBits % 2 ^ 32)) (value : List UInt8) :
    (Logger.ParamCall.logVector value a).valueText =
      '0' :: 'x' :: ((value.take (dumped n t)).flatMap Logger.hexByte) := by
  rw [Logger.ParamCall.valueText, Logger.convertBytesToHex, hsize]
  rfl

/-- Whole bytes read back. -/
theorem readValue_vector {bits : Nat} (height : bits % 8 = 0) {a : Logger.ParamArgs} (hsize : a.size = bits)
    (v : BitVec bits) : readValue .vector a.size
      (Logger.ParamCall.logVector (Bytes.bytes ((bits + 7) / 8) v.toNat) a).valueText = some v.toNat := by
  have hlen : (a.size / 8).toNat = (bits + 7) / 8 := by omega
  have hpow : 256 ^ ((bits + 7) / 8) = 2 ^ bits := by
    rw [show 256 = 2 ^ 8 from rfl, ← Nat.pow_mul]
    congr 1
    omega
  have hread : readVector (Logger.convertBytesToHex (Bytes.bytes ((bits + 7) / 8) v.toNat) ((bits + 7) / 8)) =
      some (Bytes.bytes ((bits + 7) / 8) v.toNat) := by
    rw [Logger.convertBytesToHex, Bytes.take_bytes (Nat.le_refl _)]
    exact Bytes.readBytes_flatMap (fun _ => rfl) _
  have hof : Bytes.ofBytes (Bytes.bytes ((bits + 7) / 8) v.toNat) = v.toNat := by
    rw [Bytes.ofBytes_bytes, hpow]
    exact Nat.mod_eq_of_lt v.isLt
  have hcount : 8 * ((Bytes.bytes ((bits + 7) / 8) v.toNat).length : Int) = a.size := by
    rw [Bytes.length_bytes]
    omega
  rw [Logger.ParamCall.valueText, hlen, readValue, hread, Option.filter_some_pos (by simpa using hcount),
    Option.map_some, hof]

section

variable {k : LogCall} {n : Nat} {t : Ty} (ht : isElement t = true) (hk : k.IsFor (.vector n t))
include ht hk

theorem roundTrips_vector (h : isWhole (.vector n t) = true) : RoundTrips k (.vector n t) := by
  obtain ⟨a, hsize, hcall⟩ := hk.vector
  obtain ⟨hbits, height⟩ := size_of_isWhole ht h
  refine .of_read fun v => ?_
  rw [hcall, Option.map_some, Option.bind_some, readShown_shown]
  exact readValue_vector height (hsize.trans hbits) v

/-- A value with only a bit that is not printed looks like zero. -/
theorem isWhole_of_determined (hn : 0 < n) (h : RoundTrips k (.vector n t)) : isWhole (.vector n t) = true := by
  by_contra hwhole
  have hlt := dumped_lt ht hn (by simpa using hwhole)
  obtain ⟨a, hsize, hcall⟩ := hk.vector
  have hpow : 2 ^ (8 * dumped n t) < 2 ^ (bitSize (.vector n t)) := Nat.pow_lt_pow_right (by decide) hlt
  have hbytes : ∀ m, dumped n t ≤ m → (Bytes.bytes m (2 ^ (8 * dumped n t))).take (dumped n t) =
      (Bytes.bytes m 0).take (dumped n t) := by
    intro m hm
    rw [Bytes.take_bytes hm, Bytes.take_bytes hm, Bytes.bytes_eq_iff, Nat.pow_mul]
    simp
  have heq := h.determined (BitVec.ofNat _ (2 ^ (8 * dumped n t))) (BitVec.ofNat _ 0) (by
    rw [hcall, hcall, Option.map_some, Option.map_some, shown, shown, valueText_vector hsize, valueText_vector hsize,
      BitVec.toNat_ofNat, BitVec.toNat_ofNat, Nat.mod_eq_of_lt hpow, Nat.zero_mod, hbytes _ (by
        have : bitSize (.vector n t) = n * bitSize t := rfl
        omega)]
    rfl)
  have hnat := congrArg BitVec.toNat heq
  rw [BitVec.toNat_ofNat, BitVec.toNat_ofNat, Nat.mod_eq_of_lt hpow, Nat.zero_mod] at hnat
  exact absurd hnat (Nat.ne_of_gt (Nat.pow_pos (by decide)))

end

/-- **Value text.** Integers and pointers read back, and the vectors that are
whole. -/
theorem roundTrips_iff {k : LogCall} {t : Ty} (ht : isValueTy t = true) (hk : k.IsFor t) :
    RoundTrips k t ↔ isWhole t = true := by
  cases t with
  | integer w => exact iff_of_true (roundTrips_integer (by simpa [isValueTy] using ht) hk) rfl
  | pointer t => exact iff_of_true (roundTrips_pointer hk) rfl
  | vector n t =>
    simp only [isValueTy, Bool.and_eq_true, decide_eq_true_eq] at ht
    exact ⟨isWhole_of_determined ht.2 hk ht.1, roundTrips_vector ht.2 hk⟩
  | _ => cases ht

theorem roundTrips_fourWords :
    RoundTrips (.param .vector 1 128 (.node 2) true "v" false phiText) (.vector 4 i32) := by
  have hk : LogCall.IsFor (.param .vector 1 128 (.node 2) true "v" false phiText) (.vector 4 i32) :=
    ⟨_, _, _, _, _, _, _, rfl, rfl⟩
  exact (roundTrips_iff (by decide) hk).2 (by decide)

def mask : Ty := .vector 4 (.integer 1)

/-- A function of a vector of four bits that returns it. -/
def returnMask : Function where
  name := "top"
  params := [("v", mask)]
  blocks := [⟨"entry", [⟨0, "", .void, .ret, [.arg ⟨0, "v", mask⟩], some 1⟩]⟩]
  loops := ⟨fun _ => 0, fun _ => none, fun _ => none⟩

def maskCall : LogCall := .param .vector 1 4 (.node 3) true "v" false phiText

/-- Of the four bits none is printed. -/
theorem not_roundTrips_mask : returnMask.WF ∧ topConfig.isCFunction returnMask.name = true ∧
    (∃ body, runOnFunction topConfig returnMask = .ok body ∧ .new ⟨4, .operand 0 0, .call maskCall⟩ ∈ body.block 0) ∧
      maskCall.IsFor mask ∧ ¬ RoundTrips maskCall mask := by
  refine ⟨Function.wf_of_isLocal (by decide), by decide, ⟨_, rfl, by decide⟩, ⟨_, _, _, _, _, _, _, rfl, rfl⟩, ?_⟩
  intro h
  have hsame := congrArg BitVec.toNat (h.determined (0#4) (1#4) (by decide))
  exact absurd hsame (by decide)

/-! ## The calls of the pass -/

theorem logger_eq_of_cast? {p : InstOperandParams} {t : Ty} {logger : ParamLogger} {op : CastOp}
    (ht : isValueTy t = true) (hty : p.datatype = t.typeID) (h : p.cast? = some (logger, op)) :
    logger = loggerFor t.typeID := by
  cases t <;> simp_all [isValueTy, InstOperandParams.cast?, Ty.typeID, TypeID.isFloatingPoint, loggerFor]

theorem LineEdits.isFor {pt : Point} {pu : Purpose} {p : InstOperandParams} {g g' : Gen} {es : List Edit} {v : Value}
    (h : LineEdits pt pu p g es g') (hv : p.value = some v) (hty : p.datatype = v.ty.typeID)
    (hsize : getMemSize v.ty = .ok p.datasize) (ht : isValueTy v.ty = true) (hstring : isString v = false) :
    ∀ e ∈ es, ∀ k, e.inst.op = .call k → k.IsFor v.ty := by
  have hparam : ∀ {logger : ParamLogger} {x : LogValue}, logger = loggerFor v.ty.typeID →
      (p.call logger x).IsFor v.ty := by
    rintro _ x rfl
    exact ⟨_, _, _, _, _, _, _, rfl, hsize⟩
  have hvector : p.datatype = .vector → ParamLogger.vector = loggerFor v.ty.typeID := by
    intro hvec
    rw [← hty, hvec]
    rfl
  intro e he k hk
  cases h with
  | direct logger x _ _ hpassed =>
    obtain rfl := List.mem_singleton.1 he
    cases hk
    cases hpassed v hv with
    | same hcast | folded hcast => exact hparam (logger_eq_of_cast? ht hty hcast)
    | intrinsic hptr => exact hparam (by rw [← hty, hptr]; rfl)
    | string _ hs => simp [isString, hs] at hstring
  | cast logger op w _ _ _ hcast =>
    simp only [List.mem_cons, List.not_mem_nil, or_false] at he
    rcases he with rfl | rfl
    · cases hk
    · cases hk
      exact hparam (logger_eq_of_cast? ht hty hcast)
  | vector w key buffer _ hvec =>
    simp only [vectorEdits, List.mem_cons, List.not_mem_nil, or_false] at he
    rcases he with rfl | rfl | rfl
    · cases hk
    · cases hk
    · cases hk
      exact hparam (hvector hvec)
  | newVector w key _ hvec =>
    simp only [vectorEdits, List.mem_cons, List.not_mem_nil, or_false] at he
    rcases he with rfl | rfl | rfl | rfl
    · cases hk
    · cases hk
    · cases hk
    · cases hk
      exact hparam (hvector hvec)
  | unhandled => cases he

/-- An inserted call of a logger is one for the operand's value, or the result's. -/
structure CallsFor (F : Function) (n : NewInst) : Prop where
  operand : ∀ k, n.op = .call k → n.logs? ≠ none → ∀ I ∈ F.insts, I.isPhi = false → ∀ j v, I.operands[j]? = some v →
    n.purpose = .operand I.id j → isValueTy v.ty = true → isFunction v = false → isString v = false → k.IsFor v.ty
  result : ∀ k, n.op = .call k → n.logs? ≠ none → ∀ I ∈ F.insts, n.purpose = .result I.id → isValueTy I.ty = true →
    k.IsFor I.ty

theorem InstEdits.callsFor {F : Function} (hF : F.WF) {c : Ctx} {I : Inst} (hI : I ∈ F.insts) {pt next : Point}
    {env : InstEnv} {g g' : Gen} {es : List Edit} (h : InstEdits c pt next I env g es g') :
    ∀ e ∈ es, CallsFor F e.inst := by
  refine h.rel (composes_forall fun e => CallsFor F e.inst) ?_ ?_ ?_ ?_
  · intro g pu k hk e he
    rw [List.mem_singleton.1 he]
    have hlogs : NewInst.logs? ⟨g.serial, pu, .call k⟩ = none := by
      cases k <;> simp_all [NewInst.logs?, LogCall.value?]
    exact ⟨fun _ _ h => absurd hlogs h, fun _ _ h => absurd hlogs h⟩
  · intro g es g' j v p hmem hspec hline e he
    have hpu := hline.purpose e he
    refine ⟨fun k hk _ J hJ hphi j' w hw hpu' ht hfunction hstring => ?_, fun k _ _ J _ hpu' => ?_⟩
    · rw [hpu] at hpu'
      obtain ⟨hid, rfl⟩ := Purpose.operand.inj hpu'
      obtain rfl := hF.eq_of_id hI hJ hid
      rw [mem_printedOperands hF hI hmem] at hw
      obtain rfl := Option.some.inj hw
      have hlabel : v.ty.typeID ≠ .label := by
        intro hlabel
        cases hty : v.ty <;> simp_all [isValueTy, Ty.typeID]
      have hne : ∀ name, v ≠ .function name := by
        rintro name rfl
        cases hfunction
      exact hline.isFor (hspec.valued hphi hlabel hne) hspec.datatype hspec.datasize ht hstring e he k hk
    · rw [hpu] at hpu'
      cases hpu'
  · intro g es g' instid p hty hspec hline e he
    have hpu := hline.purpose e he
    refine ⟨fun k _ _ J _ _ j' w _ hpu' => ?_, fun k hk _ J hJ hpu' ht => ?_⟩
    · rw [hpu] at hpu'
      cases hpu'
    · rw [hpu] at hpu'
      obtain rfl := hF.eq_of_id hI hJ (Purpose.result.inj hpu')
      exact hline.isFor hspec.value hspec.datatype hspec.datasize ht rfl e he k hk
  · intro g slots e he
    cases he

/-- What an instrumented function calls the loggers with. -/
theorem runOnFunction_callsFor {cfg : Config} {F : Function} {body : Body} (hF : F.WF)
    (hC : cfg.isCFunction F.name = true) (h : runOnFunction cfg F = .ok body) {b : Nat} {n : NewInst}
    (hn : .new n ∈ body.block b) : CallsFor F n := by
  obtain ⟨c, p, hp, rfl⟩ := runOnFunction_ok hF hC h
  obtain ⟨e, he, rfl⟩ := exists_edit_of_mem_block hn
  obtain ⟨g, hblocks, hentry⟩ := hp.parts
  have hfunc := hp.func
  subst hfunc
  rcases List.mem_append.1 he with he | he
  · exact hblocks.rel (composes_forall fun e => CallsFor c.func e.inst)
      (fun I hI _ _ _ _ _ _ _ _ _ hedits => hedits.callsFor hF hI) e he
  · rcases hentry with ⟨-, hnil⟩ | ⟨-, g', hentry⟩
    · rw [hnil] at he
      cases he
    · have hnone := hentry.purpose e he
      constructor
      · intro k _ _ I _ _ j v _ hpu
        rw [hpu] at hnone
        cases hnone
      · intro k _ _ I _ hpu
        rw [hpu] at hnone
        cases hnone

end LlvmTracer.Pass
