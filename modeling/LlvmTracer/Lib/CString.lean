/-
C strings in buffers of a fixed size.

A buffer is a list of characters, and the string in it is what comes before
its first NUL (`text`). The functions of `string.h` and `stdio.h` that fill
one are stores from a position on; a store past the end of the buffer has no
outcome (`none`). `stores_strcpy`, `stores_snprintf` and `stores_strncpy` say
when the string can be read back.
-/
import Mathlib.Data.List.TakeWhile
import LlvmTracer.Lib.Text

namespace CString

open Text

def nul : Char := '\x00'

/-- The string in a buffer, if a NUL ends it. -/
def text (buf : Chars) : Option Chars :=
  if nul ∈ buf then some (buf.takeWhile (· ≠ nul)) else none

/-- Characters stored one after another from a position on. -/
def write (buf : Chars) (pos : Nat) : Chars → Option Chars
  | [] => some buf
  | c :: cs => if pos < buf.length then write (buf.set pos c) (pos + 1) cs else none

/-- `strcpy` and `sprintf`: the whole string, and a NUL. -/
def strcpy (buf : Chars) (pos : Nat) (s : Chars) : Option Chars := write buf pos (s ++ [nul])

/-- `snprintf` with a limit of `n + 1`: at most `n` characters, and a NUL. -/
def snprintf (buf : Chars) (n : Nat) (s : Chars) : Option Chars := write buf 0 (s.take n ++ [nul])

/-- `strncpy`: at most `n` characters, and NULs up to `n`. -/
def strncpy (buf : Chars) (s : Chars) (n : Nat) : Option Chars :=
  write buf 0 (s.take n ++ List.replicate (n - s.length) nul)

/-! ## Stores -/

theorem write_eq : ∀ {cs buf : Chars} {pos : Nat}, pos + cs.length ≤ buf.length →
    write buf pos cs = some (buf.take pos ++ cs ++ buf.drop (pos + cs.length))
  | [], buf, pos, _ => by simp [write]
  | c :: cs, buf, pos, h => by
    rw [List.length_cons] at h
    have hpos : pos < buf.length := by omega
    rw [write, if_pos hpos, write_eq (by rw [List.length_set]; omega)]
    have htake : (buf.set pos c).take (pos + 1) = buf.take pos ++ [c] := by
      rw [List.take_add_one, List.getElem?_set_self hpos, List.take_set_of_le (Nat.le_refl pos)]
      rfl
    have hdrop : (buf.set pos c).drop (pos + 1 + cs.length) = buf.drop (pos + (c :: cs).length) := by
      rw [List.drop_set_of_lt (by omega), List.length_cons]
      congr 1
      omega
    rw [htake, hdrop, List.append_assoc (buf.take pos), List.singleton_append]

theorem length_write {cs buf buf' : Chars} {pos : Nat} (h : write buf pos cs = some buf') : buf'.length = buf.length := by
  induction cs generalizing buf pos with
  | nil => cases h; rfl
  | cons c cs ih =>
    rw [write] at h
    split at h
    · rw [ih h, List.length_set]
    · cases h

/-! ## Reading back -/

theorem text_append {s rest : Chars} (h : nul ∉ s) : text (s ++ nul :: rest) = some s := by
  have hne : ∀ c ∈ s, decide (c ≠ nul) = true := by
    intro c hc
    have hcn : c ≠ nul := fun heq => h (heq ▸ hc)
    simpa using hcn
  rw [text, if_pos (by simp), List.takeWhile_append_of_pos hne, List.takeWhile_cons_of_neg (by simp), List.append_nil]

theorem text_eq_none {buf : Chars} (h : nul ∉ buf) : text buf = none := if_neg h

theorem text_eq_some {buf s : Chars} : text buf = some s ↔ nul ∉ s ∧ ∃ rest, buf = s ++ nul :: rest := by
  constructor
  · intro h
    by_cases hmem : nul ∈ buf
    · obtain ⟨before, rest, rfl, hnot⟩ := List.eq_append_cons_of_mem hmem
      rw [text_append hnot] at h
      cases h
      exact ⟨hnot, rest, rfl⟩
    · rw [text_eq_none hmem] at h
      cases h
  · rintro ⟨hnot, rest, rfl⟩
    exact text_append hnot

/-! ## Strings stored whole -/

/-- What `c_str` shows of a string. -/
def cstr (s : Chars) : Chars := s.takeWhile (· ≠ nul)

theorem cstr_eq_self {s : Chars} (h : nul ∉ s) : cstr s = s := by
  refine List.takeWhile_eq_self_iff.2 fun c hc => ?_
  have hcn : c ≠ nul := fun heq => h (heq ▸ hc)
  simpa using hcn

/-- The store stays in a buffer of `size` characters, whatever that held, and
the string can be read back. -/
def Stores (size : Nat) (store : Chars → Option Chars) (s : Chars) : Prop :=
  ∀ buf, buf.length = size → ∃ buf', store buf = some buf' ∧ text buf' = some s

section

variable {size n : Nat} {s : Chars} {store : Chars → Option Chars}

/-- The string is there, and a NUL behind it. -/
theorem stores_iff : Stores size store s ↔
    nul ∉ s ∧ ∀ buf, buf.length = size → ∃ rest, store buf = some (s ++ nul :: rest) := by
  constructor
  · intro h
    refine ⟨?_, fun buf hbuf => ?_⟩
    · obtain ⟨_, -, htext⟩ := h (List.replicate size nul) List.length_replicate
      exact (text_eq_some.1 htext).1
    · obtain ⟨buf', hstore, htext⟩ := h buf hbuf
      obtain ⟨-, rest, rfl⟩ := text_eq_some.1 htext
      exact ⟨rest, hstore⟩
  · rintro ⟨hnul, h⟩ buf hbuf
    obtain ⟨rest, hstore⟩ := h buf hbuf
    exact ⟨_, hstore, text_append hnul⟩

/-- What is stored takes no more than the buffer. -/
theorem Stores.of_length (h : Stores size store s) (hlen : ∀ buf buf', store buf = some buf' → buf'.length = buf.length) :
    s.length < size := by
  obtain ⟨rest, hstore⟩ := (stores_iff.1 h).2 (List.replicate size nul) List.length_replicate
  have := hlen _ _ hstore
  rw [List.length_append, List.length_cons, List.length_replicate] at this
  omega

/-- A string with its NUL from the buffer's start on. -/
theorem write_concat_nul {buf : Chars} (h : s.length < buf.length) :
    write buf 0 (s ++ [nul]) = some (s ++ nul :: buf.drop (s.length + 1)) := by
  have hlen : 0 + (s ++ [nul]).length ≤ buf.length := by
    rw [List.length_append, List.length_singleton]
    omega
  rw [write_eq hlen]
  simp

theorem stores_strcpy : Stores size (fun buf => strcpy buf 0 (cstr s)) s ↔ s.length < size ∧ nul ∉ s := by
  constructor
  · intro h
    exact ⟨h.of_length fun _ _ hstore => length_write hstore, (stores_iff.1 h).1⟩
  · rintro ⟨hlen, hnul⟩
    refine stores_iff.2 ⟨hnul, ?_⟩
    rintro buf rfl
    rw [strcpy, cstr_eq_self hnul, write_concat_nul hlen]
    exact ⟨_, rfl⟩

theorem stores_snprintf : Stores size (fun buf => snprintf buf n (cstr s)) s ↔
    s.length ≤ n ∧ s.length < size ∧ nul ∉ s := by
  constructor
  · intro h
    have hlen := h.of_length fun _ _ hstore => length_write hstore
    obtain ⟨hnul, hall⟩ := stores_iff.1 h
    obtain ⟨rest, hstore⟩ := hall (List.replicate size nul) List.length_replicate
    have htake : (s.take n).length < (List.replicate size nul).length := by
      rw [List.length_take, List.length_replicate]
      omega
    rw [snprintf, cstr_eq_self hnul, write_concat_nul htake] at hstore
    have htext := congrArg text (Option.some.inj hstore)
    rw [text_append fun hmem => hnul (List.mem_of_mem_take hmem), text_append hnul] at htext
    have hn := congrArg List.length (Option.some.inj htext)
    rw [List.length_take] at hn
    exact ⟨by omega, hlen, hnul⟩
  · rintro ⟨hn, hlen, hnul⟩
    refine stores_iff.2 ⟨hnul, ?_⟩
    rintro buf rfl
    rw [snprintf, cstr_eq_self hnul, List.take_of_length_le hn, write_concat_nul hlen]
    exact ⟨_, rfl⟩

/-- What `strncpy` leaves in a buffer of the length it is given. -/
theorem strncpy_eq {buf : Chars} :
    strncpy buf s buf.length = some (s.take buf.length ++ List.replicate (buf.length - s.length) nul) := by
  have hlen : 0 + (s.take buf.length ++ List.replicate (buf.length - s.length) nul).length = buf.length := by
    rw [List.length_append, List.length_take, List.length_replicate]
    omega
  rw [strncpy, write_eq (Nat.le_of_eq hlen), hlen]
  simp

/-- A string as long as the buffer is left without a NUL. -/
theorem stores_strncpy : Stores size (fun buf => strncpy buf (cstr s) size) s ↔ s.length < size ∧ nul ∉ s := by
  constructor
  · intro h
    exact ⟨h.of_length fun _ _ hstore => length_write hstore, (stores_iff.1 h).1⟩
  · rintro ⟨hlen, hnul⟩
    refine stores_iff.2 ⟨hnul, ?_⟩
    rintro buf rfl
    obtain ⟨k, hk⟩ : ∃ k, buf.length - s.length = k + 1 := ⟨buf.length - s.length - 1, by omega⟩
    rw [cstr_eq_self hnul, strncpy_eq, hk, List.take_of_length_le (by omega), List.replicate_succ]
    exact ⟨_, rfl⟩

/-- With a NUL put at the end the string is cut, and there if that is all of it. -/
theorem stores_strncpy_nul :
    Stores (size + 1) (fun buf => (strncpy buf (cstr s) (size + 1)).bind fun buf => write buf size [nul]) s ↔
      s.length < size + 1 ∧ nul ∉ s := by
  constructor
  · intro h
    refine ⟨h.of_length fun buf buf' hstore => ?_, (stores_iff.1 h).1⟩
    obtain ⟨buf₁, hcopy, hend⟩ := Option.bind_eq_some_iff.1 hstore
    rw [length_write hend, length_write hcopy]
  · rintro ⟨hlen, hnul⟩
    refine stores_iff.2 ⟨hnul, fun buf hbuf => ?_⟩
    obtain ⟨rest, hcopy⟩ := (stores_iff.1 (stores_strncpy.2 ⟨hlen, hnul⟩)).2 buf hbuf
    have hsize : (s ++ nul :: rest).length = size + 1 := by rw [← hbuf, ← length_write hcopy]
    rw [hcopy, Option.bind_some]
    have hend : size + [nul].length ≤ (s ++ nul :: rest).length := Nat.le_of_eq hsize.symm
    rw [write_eq hend, List.take_append, List.take_of_length_le (by omega)]
    cases size - s.length with
    | zero => exact ⟨_, by rw [List.take_zero, List.append_nil, List.append_assoc, List.singleton_append]⟩
    | succ k => exact ⟨_, by rw [List.take_succ_cons, List.append_assoc, List.append_assoc, List.cons_append]⟩

end

end CString
