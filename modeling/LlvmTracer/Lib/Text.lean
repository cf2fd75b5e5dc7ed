/-
Text made of lines and fields, and the decimal numerals in it.

A line is its fields with a separator between them (`joined`), a text is
its lines with a newline after each (`unlines`). `splitOn_unlines` and
`splitOn_joined` take both apart again, when no field holds a separator or
a newline. `readDecimal_decimal` reads a printed integer back, and
`decimal` prints neither a comma nor a newline.
-/
import Mathlib.Data.List.Basic

namespace Text

/-- Characters in order. -/
abbrev Chars := List Char

/-! ## Numerals -/

/-- An integer in decimal, as `%d` prints it. -/
def decimal : Int → Chars
  | .ofNat n => Nat.toDigits 10 n
  | .negSucc n => '-' :: Nat.toDigits 10 (n + 1)

/-- A non-empty run of decimal digits. -/
def isNumeral (cs : Chars) : Bool := !cs.isEmpty && cs.all Char.isDigit

/-- The integer a decimal numeral stands for. -/
def readDecimal : Chars → Option Int
  | '-' :: cs => if isNumeral cs then some (-(Nat.ofDigitChars 10 cs 0 : Int)) else none
  | cs => if isNumeral cs then some (Nat.ofDigitChars 10 cs 0 : Int) else none

theorem isDigit_toDigits {n : Nat} {c : Char} (h : c ∈ Nat.toDigits 10 n) : c.isDigit = true :=
  Nat.isDigit_of_mem_toDigits (by decide) (by decide) h

theorem isNumeral_toDigits (n : Nat) : isNumeral (Nat.toDigits 10 n) = true := by
  simp only [isNumeral, Bool.and_eq_true, Bool.not_eq_true', List.isEmpty_eq_false_iff, ne_eq,
    Nat.toDigits_ne_nil, not_false_eq_true, List.all_eq_true, true_and]
  exact fun c hc => isDigit_toDigits hc

theorem head_toDigits_ne {n : Nat} {cs : Chars} : Nat.toDigits 10 n ≠ '-' :: cs := by
  intro h
  have := isDigit_toDigits (n := n) (c := '-') (by simp [h])
  simp [Char.isDigit] at this

theorem readDecimal_decimal (i : Int) : readDecimal (decimal i) = some i := by
  cases i with
  | ofNat n =>
    have hnum := isNumeral_toDigits n
    simp only [decimal]
    unfold readDecimal
    split
    · next h => exact absurd h head_toDigits_ne
    · simp [hnum]
  | negSucc n =>
    simp only [decimal, readDecimal, isNumeral_toDigits, if_true, Nat.ofDigitChars_ten_toDigits]
    rfl

theorem decimal_injective {i j : Int} (h : decimal i = decimal j) : i = j := by
  have := readDecimal_decimal i
  rw [h, readDecimal_decimal] at this
  exact (Option.some.inj this).symm

theorem toDigits_injective {n m : Nat} (h : Nat.toDigits 10 n = Nat.toDigits 10 m) : n = m :=
  Int.ofNat.inj (decimal_injective (i := .ofNat n) (j := .ofNat m) h)

theorem not_mem_toDigits {n : Nat} {c : Char} (hd : c.isDigit = false) : c ∉ Nat.toDigits 10 n := fun h => by
  rw [isDigit_toDigits h] at hd
  cases hd

/-- No character of a numeral is one a field ends at. -/
theorem not_mem_decimal {i : Int} {c : Char} (hd : c.isDigit = false) (hm : c ≠ '-') :
    c ∉ decimal i := by
  intro h
  cases i with
  | ofNat n => rw [isDigit_toDigits h] at hd; cases hd
  | negSucc n =>
    simp only [decimal, List.mem_cons] at h
    rcases h with h | h
    · exact hm h
    · rw [isDigit_toDigits h] at hd; cases hd

theorem toList_toString (i : Int) : (toString i).toList = decimal i := by
  cases i with
  | ofNat n =>
    show (Nat.repr n).toList = _
    simp [decimal]
  | negSucc n =>
    show ("-" ++ Nat.repr (n + 1)).toList = _
    simp [decimal]

theorem comma_not_mem_decimal (i : Int) : ',' ∉ decimal i := not_mem_decimal (by decide) (by decide)

theorem newline_not_mem_decimal (i : Int) : '\n' ∉ decimal i := not_mem_decimal (by decide) (by decide)

theorem decimal_ne_nil (i : Int) : decimal i ≠ [] := by
  cases i with
  | ofNat n => exact Nat.toDigits_ne_nil
  | negSucc n => simp [decimal]

/-- The last of a character splits a text in one way. -/
theorem append_cons_inj {c : Char} {a a' b b' : Chars} (hb : c ∉ b) (hb' : c ∉ b') (h : a ++ c :: b = a' ++ c :: b') :
    a = a' ∧ b = b' := by
  rcases List.append_eq_append_iff.1 h with ⟨m, ha, hm⟩ | ⟨m, ha, hm⟩
  · cases m with
    | nil => exact ⟨by simpa using ha.symm, by simpa using hm⟩
    | cons d m =>
      refine absurd ?_ hb
      rw [(List.cons.inj hm).2]
      simp
  · cases m with
    | nil => exact ⟨by simpa using ha, by simpa using hm.symm⟩
    | cons d m =>
      refine absurd ?_ hb'
      rw [(List.cons.inj hm).2]
      simp

/-- What comes after the last `c`. -/
def afterLast (c : Char) (cs : Chars) : Chars := (cs.reverse.takeWhile (· ≠ c)).reverse

theorem afterLast_append {c : Char} {a b : Chars} (hb : c ∉ b) : afterLast c (a ++ c :: b) = b := by
  have hne : ∀ d ∈ b.reverse, decide (d ≠ c) = true := by
    intro d hd
    have hdc : d ≠ c := fun heq => hb (heq ▸ List.mem_reverse.1 hd)
    simpa using hdc
  rw [afterLast, List.reverse_append, List.reverse_cons, List.append_assoc, List.takeWhile_append_of_pos hne,
    List.singleton_append, List.takeWhile_cons_of_neg (by simp), List.append_nil, List.reverse_reverse]

/-- A lower-case hexadecimal digit. -/
def isHexDigit (c : Char) : Bool := c.isDigit || ('a' ≤ c && c ≤ 'f')

theorem isHexDigit_digitChar : ∀ n, n < 16 → isHexDigit n.digitChar = true
  | 0, _ | 1, _ | 2, _ | 3, _ | 4, _ | 5, _ | 6, _ | 7, _ | 8, _ | 9, _ | 10, _ | 11, _ | 12, _
  | 13, _ | 14, _ | 15, _ => by decide
  | n + 16, h => absurd h (by omega)

theorem isHexDigit_toDigits {n : Nat} : ∀ c ∈ Nat.toDigits 16 n, isHexDigit c = true := by
  induction n using Nat.strongRecOn with
  | ind n ih =>
    intro c hc
    by_cases hn : n < 16
    · rw [Nat.toDigits_of_lt_base hn, List.mem_singleton] at hc
      subst hc
      exact isHexDigit_digitChar n hn
    · rw [Nat.toDigits_of_base_le (by decide) (by omega), List.mem_append, List.mem_singleton] at hc
      rcases hc with hc | rfl
      · exact ih _ (Nat.div_lt_self (by omega) (by decide)) c hc
      · exact isHexDigit_digitChar _ (Nat.mod_lt _ (by decide))

/-! ## Fields and lines -/

/-- Fields with `sep` between them. -/
def joined (sep : Char) (fields : List Chars) : Chars := [sep].intercalate fields

theorem splitOn_joined {sep : Char} {fields : List Chars} (h : ∀ f ∈ fields, sep ∉ f)
    (hne : fields ≠ []) : (joined sep fields).splitOn sep = fields :=
  List.splitOn_intercalate sep h hne

@[simp] theorem joined_singleton {sep : Char} {f : Chars} : joined sep [f] = f := by
  simp [joined]

@[simp] theorem joined_cons_cons {sep : Char} {f g : Chars} {fs : List Chars} :
    joined sep (f :: g :: fs) = f ++ sep :: joined sep (g :: fs) := by
  simp [joined, List.intercalate_cons_cons]

theorem joined_append_cons {sep : Char} {f : Chars} {fs : List Chars} : ∀ {gs : List Chars}, gs ≠ [] →
    joined sep (gs ++ f :: fs) = joined sep gs ++ sep :: joined sep (f :: fs)
  | [g], _ => by simp
  | g :: g' :: gs, _ => by
    have ih : joined sep (g' :: gs ++ f :: fs) = joined sep (g' :: gs) ++ sep :: joined sep (f :: fs) :=
      joined_append_cons (by simp)
    simp only [List.cons_append] at ih ⊢
    rw [joined_cons_cons, joined_cons_cons, ih, List.append_assoc, List.cons_append]

/-- A piece before the last is empty just when the text starts with the
separator or has it twice in a row. -/
theorem nil_mem_dropLast_splitOn {sep : Char} {cs : Chars} :
    [] ∈ (cs.splitOn sep).dropLast ↔ cs.head? = some sep ∨ ∃ a b, cs = a ++ sep :: sep :: b := by
  constructor
  · intro h
    have hcs : joined sep (cs.splitOn sep) = cs := List.intercalate_splitOn sep
    rw [← List.dropLast_append_getLast (List.splitOn_ne_nil sep cs)] at hcs
    generalize (cs.splitOn sep).getLast _ = last at hcs
    obtain ⟨before, after, hpieces⟩ := List.append_of_mem h
    rw [hpieces, List.append_assoc, List.cons_append] at hcs
    obtain ⟨f, rest, hrest⟩ : ∃ f rest, after ++ [last] = f :: rest := List.exists_cons_of_ne_nil (by simp)
    rw [hrest] at hcs
    have hempty : joined sep ([] :: f :: rest) = sep :: joined sep (f :: rest) := by simp
    rcases before with _ | ⟨g, before⟩
    · left
      rw [← hcs, List.nil_append, hempty, List.head?_cons]
    · right
      rw [joined_append_cons (by simp), hempty] at hcs
      exact ⟨_, _, hcs.symm⟩
  · have hmem : ∀ (pieces : List Chars) (b : Chars), [] ∈ (pieces ++ [] :: b.splitOn sep).dropLast := by
      intro pieces b
      rw [List.dropLast_append_of_ne_nil (by simp), List.dropLast_cons_of_ne_nil (List.splitOn_ne_nil sep b)]
      simp
    rintro (h | ⟨a, b, rfl⟩)
    · obtain ⟨b, rfl⟩ := List.head?_eq_some_iff.1 h
      have hsplit := List.splitOn_append_cons_self (a := sep) [] b
      rw [List.nil_append, List.splitOn_nil] at hsplit
      rw [hsplit]
      exact hmem [] b
    · have hsplit := List.splitOn_append_cons_self (a := sep) [] b
      rw [List.nil_append, List.splitOn_nil] at hsplit
      rw [List.splitOn_append_cons_self, hsplit]
      exact hmem _ b

theorem not_mem_joined {sep c : Char} {fields : List Chars} (hc : c ≠ sep)
    (h : ∀ f ∈ fields, c ∉ f) : c ∉ joined sep fields := by
  induction fields with
  | nil => simp [joined]
  | cons f fs ih =>
    cases fs with
    | nil => simpa using h f (by simp)
    | cons g fs =>
      simp only [joined_cons_cons, List.mem_append, List.mem_cons, not_or]
      exact ⟨h f (by simp), hc, ih fun f' hf' => h f' (by simp [hf'])⟩

/-- Lines with a newline after each. -/
def unlines (lines : List Chars) : Chars := lines.flatMap (· ++ ['\n'])

@[simp] theorem unlines_nil : unlines [] = [] := rfl

@[simp] theorem unlines_cons {l : Chars} {ls : List Chars} :
    unlines (l :: ls) = l ++ '\n' :: unlines ls := by
  simp [unlines]

theorem unlines_append {ls₁ ls₂ : List Chars} : unlines (ls₁ ++ ls₂) = unlines ls₁ ++ unlines ls₂ := by
  simp [unlines]

theorem splitOn_unlines {lines : List Chars} (h : ∀ l ∈ lines, '\n' ∉ l) :
    (unlines lines).splitOn '\n' = lines ++ [[]] := by
  induction lines with
  | nil => simp
  | cons l ls ih =>
    rw [unlines_cons, List.splitOn_append_cons_self_of_not_mem (h l (by simp)),
      ih fun l' hl' => h l' (by simp [hl'])]
    rfl

/-- The non-blank lines of a text. -/
def nonblank (text : Chars) : List Chars := (text.splitOn '\n').filter (!·.isEmpty)

theorem nonblank_unlines {lines : List Chars} (h : ∀ l ∈ lines, '\n' ∉ l) :
    nonblank (unlines lines) = lines.filter (!·.isEmpty) := by
  simp [nonblank, splitOn_unlines h]

end Text
