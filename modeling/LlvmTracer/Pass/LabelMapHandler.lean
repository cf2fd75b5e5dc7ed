/-
`LabelMapHandler`: the label map file into `main`'s prologue.

The file is read into a NUL-terminated buffer and handled as a C string from
there on; a file without a NUL comes through whole
(`registeredLabelmap_getD`).
-/
import LlvmTracer.Lib.Text

namespace LlvmTracer.Pass

open Text

/-- A buffer's text up to its first NUL. -/
def cString (buf : Chars) : Chars := buf.takeWhile (· ≠ '\x00')

/-- The string constant made of a C string. -/
def createStringArg (string : Chars) : Chars := cString string ++ ['\x00']

/-- `readLabelMap`: what it leaves in `labelmap_str`. An absent file has no
size. -/
def readLabelMap (file : Option Chars) : Chars :=
  match file with
  | none => []
  | some bytes => if bytes.length > 0 then cString (bytes ++ ['\x00']) else []

/-- The bytes `main`'s call of `trace_logger_register_labelmap` registers,
when `runOnModule` inserts one: `v_size` of those at `v_buf`. -/
def registeredLabelmap (file : Option Chars) : Option Chars :=
  let labelmapStr := readLabelMap file
  if labelmapStr.length ≠ 0 then some ((createStringArg labelmapStr).take labelmapStr.length) else none

theorem cString_append {buf rest : Chars} (h : '\x00' ∉ buf) : cString (buf ++ rest) = buf ++ cString rest :=
  List.takeWhile_append_of_pos fun _ hc => decide_eq_true fun he => h (he ▸ hc)

theorem cString_concat {bytes : Chars} (h : '\x00' ∉ bytes) : cString (bytes ++ ['\x00']) = bytes := by
  rw [cString_append h]
  simp [cString]

theorem cString_eq_self {buf : Chars} (h : '\x00' ∉ buf) : cString buf = buf := by
  have happ : cString (buf ++ []) = buf ++ cString [] := cString_append h
  rwa [List.append_nil, show cString [] = [] from rfl, List.append_nil] at happ

theorem readLabelMap_eq {bytes : Chars} (h : '\x00' ∉ bytes) : readLabelMap (some bytes) = bytes := by
  simp only [readLabelMap]
  split
  · exact cString_concat h
  · next hlen => exact (List.length_eq_zero_iff.1 (by omega)).symm

theorem registeredLabelmap_getD {bytes : Chars} (h : '\x00' ∉ bytes) :
    (registeredLabelmap (some bytes)).getD [] = bytes := by
  simp only [registeredLabelmap, readLabelMap_eq h]
  split
  · rw [createStringArg, cString_eq_self h, Option.getD_some, List.take_left]
  · next hlen => exact (List.length_eq_zero_iff.1 (not_not.1 hlen)).symm

end LlvmTracer.Pass
