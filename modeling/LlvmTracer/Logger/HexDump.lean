/-
The hex dump of a vector, in the buffer it is made in.

`Trace.convertBytesToHex` is the text `convert_bytes_to_hex` stands for. Here
is the function as it runs: a cursor into a buffer of `size / 4 + 3`
characters, moved by what each `sprintf` returns. A store outside the buffer,
and a read past the end of the value, have no outcome.
-/
import LlvmTracer.Lib.Bytes
import LlvmTracer.Lib.CString
import LlvmTracer.Logger.Format

namespace LlvmTracer.Logger

open CString Text

/-- The loop of `convert_bytes_to_hex` from byte `i` on, with `n` bytes to go:
`buf += sprintf(buf, "%02x", value[i])`. -/
def hexLoop (value : List UInt8) : Nat → Nat → Nat → Chars → Option (Chars × Nat)
  | 0, _, cur, buf => some (buf, cur)
  | n + 1, i, cur, buf => do
    let b ← value[i]?
    let buf ← strcpy buf cur (hexByte b)
    hexLoop value n (i + 1) (cur + (hexByte b).length) buf

/-- `convert_bytes_to_hex` in the buffer it is given. -/
def convertBytesToHexIn (buf : Chars) (value : List UInt8) (size : Int) : Option Chars := do
  let buf ← strcpy buf 0 "0x".toList
  let (buf, cur) ← hexLoop value size.toNat 0 2 buf
  write buf cur [nul]

/-- The length of `value_str`: `size/4+3`. -/
def valueStrLength (size : Int) : Nat := (size.tdiv 4 + 3).toNat

/-- The dump `trace_logger_log_vector` makes, whatever `value_str` held. -/
def vectorDump (valueStr : Chars) (value : List UInt8) (size : Int) : Option Chars :=
  convertBytesToHexIn valueStr value (size.tdiv 8)

/-! ## The cursor -/

@[simp] theorem length_hexByte (b : UInt8) : (hexByte b).length = 2 := rfl

theorem length_flatMap_hexByte (bs : List UInt8) : (bs.flatMap hexByte).length = 2 * bs.length := by
  induction bs with
  | nil => rfl
  | cons b bs ih =>
    rw [List.flatMap_cons, List.length_append, length_hexByte, ih, List.length_cons]
    omega

theorem nul_not_mem_hexByte (b : UInt8) : nul ∉ hexByte b := fun h =>
  absurd (isHexDigit_hexByte b nul h) (by decide)

/-- What is before the cursor stays, and a string is put behind it: there is
room for it and its NUL. -/
theorem strcpy_at {buf s : Chars} {cur : Nat} (h : cur + s.length < buf.length) :
    ∃ buf', strcpy buf cur s = some buf' ∧ buf'.length = buf.length ∧ buf'.take (cur + s.length) = buf.take cur ++ s := by
  have hfits : cur + (s ++ [nul]).length ≤ buf.length := by
    rw [List.length_append, List.length_singleton]
    omega
  have hwrite := write_eq hfits
  refine ⟨_, hwrite, length_write hwrite, ?_⟩
  have hcur : (buf.take cur ++ s).length = cur + s.length := by
    rw [List.length_append, List.length_take, Nat.min_eq_left (by omega)]
  rw [← List.append_assoc, List.append_assoc (buf.take cur ++ s), ← hcur, List.take_left]

/-- The loop fills the buffer with the digits of the bytes it has passed, and
needs room for these and a NUL. -/
theorem hexLoop_ok {value : List UInt8} : ∀ {n i cur : Nat} {buf : Chars}, i + n ≤ value.length →
    cur + 2 * n < buf.length → ∃ buf', hexLoop value n i cur buf = some (buf', cur + 2 * n) ∧ buf'.length = buf.length ∧
      buf'.take (cur + 2 * n) = buf.take cur ++ ((value.drop i).take n).flatMap hexByte
  | 0, i, cur, buf, _, _ => ⟨buf, rfl, rfl, by simp⟩
  | n + 1, i, cur, buf, hvalue, hbuf => by
    have hi : i < value.length := by omega
    obtain ⟨buf₁, hcopy, hlen₁, htake₁⟩ := @strcpy_at buf (hexByte value[i]) cur (by rw [length_hexByte]; omega)
    rw [length_hexByte] at htake₁
    obtain ⟨buf₂, hloop, hlen₂, htake₂⟩ := @hexLoop_ok value n (i + 1) (cur + 2) buf₁ (by omega) (by omega)
    have hcur : cur + 2 + 2 * n = cur + 2 * (n + 1) := by omega
    rw [hcur] at hloop htake₂
    refine ⟨buf₂, ?_, hlen₂.trans hlen₁, ?_⟩
    · simp only [hexLoop, List.getElem?_eq_getElem hi, Option.bind_eq_bind, Option.bind_some, hcopy, length_hexByte, hloop]
    · rw [htake₂, htake₁, List.drop_eq_getElem_cons hi, List.take_succ_cons, List.flatMap_cons, List.append_assoc]

theorem convertBytesToHexIn_ok {buf : Chars} {value : List UInt8} {size : Int} (hvalue : size.toNat ≤ value.length)
    (hbuf : 2 + 2 * size.toNat < buf.length) :
    ∃ buf', convertBytesToHexIn buf value size = some buf' ∧ buf'.length = buf.length ∧
      text buf' = some (convertBytesToHex value size.toNat) := by
  obtain ⟨buf₁, hprefix, hlen₁, htake₁⟩ := @strcpy_at buf "0x".toList 0 (by simp; omega)
  obtain ⟨buf₂, hloop, hlen₂, htake₂⟩ := @hexLoop_ok value size.toNat 0 2 buf₁ (by omega) (by omega)
  have hroom : 2 + 2 * size.toNat + [nul].length ≤ buf₂.length := by
    rw [List.length_singleton]
    omega
  have hend := write_eq hroom
  refine ⟨_, ?_, (length_write hend).trans (hlen₂.trans hlen₁), ?_⟩
  · simp only [convertBytesToHexIn, Option.bind_eq_bind, hprefix, Option.bind_some, hloop, hend]
  · rw [htake₂, show buf₁.take 2 = "0x".toList by simpa using htake₁, List.append_assoc, List.singleton_append,
      List.drop_zero]
    refine text_append fun hmem => ?_
    rcases List.mem_append.1 hmem with h | h
    · exact absurd h (by decide)
    · obtain ⟨b, -, hb⟩ := List.mem_flatMap.1 h
      exact nul_not_mem_hexByte b hb

/-! ## The vector logger's buffer -/

theorem valueStrLength_eq {size : Int} (h : 0 ≤ size) : valueStrLength size = (size / 4).toNat + 3 := by
  rw [valueStrLength, Int.tdiv_eq_ediv_of_nonneg h]
  omega

/-- The bytes the dump shows take no more than the buffer has, whatever both
divisions drop. -/
theorem vectorDump_text {valueStr : Chars} {value : List UInt8} {size : Int} (hsize : 0 ≤ size)
    (hvalue : size / 8 ≤ value.length) (hbuf : valueStr.length = valueStrLength size) :
    ∃ buf, vectorDump valueStr value size = some buf ∧ buf.length = valueStr.length ∧
      text buf = some (convertBytesToHex value (size / 8).toNat) := by
  have hroom : 2 + 2 * (size / 8).toNat < valueStr.length := by
    rw [hbuf, valueStrLength_eq hsize]
    omega
  rw [vectorDump, Int.tdiv_eq_ediv_of_nonneg hsize]
  exact convertBytesToHexIn_ok (by omega) hroom

/-- What the call prints for its value is what is in the buffer. -/
theorem vectorDump_valueText {valueStr : Chars} {value : List UInt8} {a : ParamArgs} (hsize : 0 ≤ a.size)
    (hvalue : a.size / 8 ≤ value.length) (hbuf : valueStr.length = valueStrLength a.size) :
    (vectorDump valueStr value a.size).bind text = some (ParamCall.logVector value a).valueText := by
  obtain ⟨buf, hdump, -, htext⟩ := vectorDump_text hsize hvalue hbuf
  rw [hdump, Option.bind_some, htext, ParamCall.valueText]

theorem isHexDigit_flatMap_hexByte {bs : List UInt8} : ∀ c ∈ bs.flatMap hexByte, isHexDigit c = true := by
  intro c hc
  obtain ⟨b, -, hb⟩ := List.mem_flatMap.1 hc
  exact isHexDigit_hexByte b c hb

/-- The dump stays within its buffer, and is two digits for each of the first
`size / 8` bytes, which read back as these bytes. -/
theorem vectorDump_readBytes {valueStr : Chars} {value : List UInt8} {size : Int} (hsize : 0 ≤ size)
    (hvalue : size / 8 ≤ value.length) (hbuf : valueStr.length = valueStrLength size) :
    ∃ buf digits, vectorDump valueStr value size = some buf ∧ buf.length = valueStr.length ∧
      text buf = some ("0x".toList ++ digits) ∧ digits.length = 2 * (size / 8).toNat ∧
      (∀ c ∈ digits, isHexDigit c = true) ∧ Bytes.readBytes digits = some (value.take (size / 8).toNat) := by
  obtain ⟨buf, hdump, hlen, htext⟩ := vectorDump_text hsize hvalue hbuf
  refine ⟨buf, (value.take (size / 8).toNat).flatMap hexByte, hdump, hlen, htext, ?_, isHexDigit_flatMap_hexByte, ?_⟩
  · rw [length_flatMap_hexByte, List.length_take, Nat.min_eq_left (by omega)]
  · exact Bytes.readBytes_flatMap (fun _ => rfl) _

/-- A value of 12 bits shows one byte, in a buffer of six. -/
theorem vectorDump_twelveBits :
    ∃ buf digits, vectorDump ['?', '?', '?', '?', '?', '?'] [0xa7, 0x05] 12 = some buf ∧ buf.length = 6 ∧
      text buf = some ("0x".toList ++ digits) ∧ digits.length = 2 * ((12 : Int) / 8).toNat ∧
      (∀ c ∈ digits, isHexDigit c = true) ∧
      Bytes.readBytes digits = some (List.take ((12 : Int) / 8).toNat [(0xa7 : UInt8), 0x05]) :=
  @vectorDump_readBytes ['?', '?', '?', '?', '?', '?'] _ _ (by decide) (by decide) (by decide)

end LlvmTracer.Logger
