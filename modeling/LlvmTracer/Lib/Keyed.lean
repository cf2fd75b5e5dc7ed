/-
Things kept under a key computed from what they were made for.

A request takes what is there under its key, and else has one made for it
with a new number (`Serves`). What is made is kept, so two requests get the
same just when their keys are (`Serves.number_eq_iff`), and every request gets
one made for it just when the key tells the requests apart
(`Serves.madeFor_iff`).
-/
import Mathlib.Data.List.Basic

namespace Keyed

variable {κ τ β : Type*}

/-- How requests are served: their keys, and what is kept of a thing made. -/
structure Kind (κ τ β : Type*) where
  key : τ → Option κ
  number : β → Nat
  madeFor : β → τ

variable [BEq κ] (K : Kind κ τ β)

/-- From the things `m` and the next number `n`, the requests `l` get what is
paired with them. Numbers are used for other things in between. -/
inductive Serves : List (κ × β) → Nat → List (τ × β) → List (κ × β) → Nat → Prop
  | nil (m : List (κ × β)) (n : Nat) : Serves m n [] m n
  | skip {m m' : List (κ × β)} {n n₁ n' : Nat} {l : List (τ × β)} : n ≤ n₁ → Serves m n₁ l m' n' → Serves m n l m' n'
  | hit {m m' : List (κ × β)} {n n' : Nat} {l : List (τ × β)} {t : τ} {k : κ} {b : β} : K.key t = some k →
      m.lookup k = some b → Serves m n l m' n' → Serves m n ((t, b) :: l) m' n'
  | miss {m m' : List (κ × β)} {n n' : Nat} {l : List (τ × β)} {t : τ} {k : κ} {b : β} : K.key t = some k →
      m.lookup k = none → K.number b = n → K.madeFor b = t → Serves ((k, b) :: m) (n + 1) l m' n' →
      Serves m n ((t, b) :: l) m' n'

/-- Each is under the key of what it was made for, with a number of its own
below `n`. -/
structure Kept (m : List (κ × β)) (n : Nat) : Prop where
  key : ∀ k b, m.lookup k = some b → K.key (K.madeFor b) = some k
  lt : ∀ k b, m.lookup k = some b → K.number b < n
  inj : ∀ k k' b b', m.lookup k = some b → m.lookup k' = some b' → K.number b = K.number b' → k = k'

variable {K}

theorem Kept.nil (n : Nat) : Kept K ([] : List (κ × β)) n := ⟨by simp, by simp, by simp⟩

theorem Kept.mono {m : List (κ × β)} {n n' : Nat} (h : Kept K m n) (hn : n ≤ n') : Kept K m n' :=
  ⟨h.key, fun k b hb => Nat.lt_of_lt_of_le (h.lt k b hb) hn, h.inj⟩

variable [LawfulBEq κ]

theorem lookup_cons_some {m : List (κ × β)} {k k' : κ} {b b' : β} (h : ((k, b) :: m).lookup k' = some b') :
    k' = k ∧ b' = b ∨ k' ≠ k ∧ m.lookup k' = some b' := by
  rw [List.lookup_cons] at h
  split at h
  · rename_i hk
    exact .inl ⟨eq_of_beq hk, (Option.some.inj h).symm⟩
  · rename_i hk
    exact .inr ⟨fun heq => by simp [heq] at hk, h⟩

theorem Kept.cons {m : List (κ × β)} {n : Nat} {k : κ} {b : β} (h : Kept K m n) (hk : K.key (K.madeFor b) = some k)
    (hb : K.number b = n) : Kept K ((k, b) :: m) (n + 1) := by
  constructor
  · intro k' b' h'
    rcases lookup_cons_some h' with ⟨rfl, rfl⟩ | ⟨-, h'⟩
    · exact hk
    · exact h.key k' b' h'
  · intro k' b' h'
    rcases lookup_cons_some h' with ⟨rfl, rfl⟩ | ⟨-, h'⟩
    · omega
    · have := h.lt k' b' h'
      omega
  · intro k₁ k₂ b₁ b₂ h₁ h₂ heq
    rcases lookup_cons_some h₁ with ⟨rfl, rfl⟩ | ⟨-, old₁⟩ <;> rcases lookup_cons_some h₂ with ⟨rfl, rfl⟩ | ⟨-, old₂⟩
    · rfl
    · have := h.lt k₂ b₂ old₂
      omega
    · have := h.lt k₁ b₁ old₁
      omega
    · exact h.inj k₁ k₂ b₁ b₂ old₁ old₂ heq

namespace Serves

variable {m m' : List (κ × β)} {n n' : Nat} {l : List (τ × β)}

theorem kept (h : Serves K m n l m' n') : Kept K m n → Kept K m' n' := by
  induction h with
  | nil => exact id
  | skip hn _ ih => exact fun hm => ih (hm.mono hn)
  | hit _ _ _ ih => exact ih
  | miss hk _ hb ht _ ih => exact fun hm => ih (hm.cons (ht ▸ hk) hb)

/-- What is there stays. -/
theorem lookup_eq_some (h : Serves K m n l m' n') {k : κ} {b : β} : m.lookup k = some b → m'.lookup k = some b := by
  induction h with
  | nil => exact id
  | skip _ _ ih => exact ih
  | hit _ _ _ ih => exact ih
  | @miss m m' n n' l t k' b' _ hnone _ _ _ ih =>
    intro hb
    refine ih ?_
    have hne : (k == k') = false := by
      rw [beq_eq_false_iff_ne]
      rintro rfl
      rw [hnone] at hb
      cases hb
    rw [List.lookup_cons, hne]
    exact hb

/-- What a request gets is there under its key in the end. -/
theorem found (h : Serves K m n l m' n') : ∀ x ∈ l, ∃ k, K.key x.1 = some k ∧ m'.lookup k = some x.2 := by
  induction h with
  | nil => simp
  | skip _ _ ih => exact ih
  | hit hk hb hl ih =>
    intro x hx
    rcases List.mem_cons.1 hx with rfl | hx
    · exact ⟨_, hk, hl.lookup_eq_some hb⟩
    · exact ih x hx
  | @miss m m' n n' l t k b hk _ _ _ hl ih =>
    intro x hx
    rcases List.mem_cons.1 hx with rfl | hx
    · exact ⟨k, hk, hl.lookup_eq_some (by simp)⟩
    · exact ih x hx

/-- What is there in the end was there, or was made for a request. -/
theorem origin (h : Serves K m n l m' n') {k : κ} {b : β} :
    m'.lookup k = some b → m.lookup k = some b ∨ (K.madeFor b, b) ∈ l := by
  induction h with
  | nil => exact .inl
  | skip _ _ ih => exact ih
  | hit _ _ _ ih => exact fun hb => (ih hb).imp_right (List.mem_cons_of_mem _)
  | miss _ _ _ ht _ ih =>
    intro hb
    rcases ih hb with hb | hb
    · rcases lookup_cons_some hb with ⟨rfl, rfl⟩ | ⟨-, hb⟩
      · exact .inr (ht ▸ List.mem_cons_self)
      · exact .inl hb
    · exact .inr (List.mem_cons_of_mem _ hb)

/-! ## From nothing -/

variable (h : Serves K [] n l m' n')
include h

/-- Requests share just when their keys agree. -/
theorem number_eq_iff {x y : τ × β} (hx : x ∈ l) (hy : y ∈ l) :
    K.number x.2 = K.number y.2 ↔ K.key x.1 = K.key y.1 := by
  obtain ⟨k, hk, hb⟩ := h.found x hx
  obtain ⟨k', hk', hb'⟩ := h.found y hy
  constructor
  · intro heq
    rw [hk, hk', (h.kept (.nil n)).inj k k' _ _ hb hb' heq]
  · intro heq
    have hkk : k = k' := Option.some.inj (hk.symm.trans (heq.trans hk'))
    subst hkk
    rw [Option.some.inj (hb.symm.trans hb')]

/-- Each is under the key of what it was made for. -/
theorem key_madeFor {x : τ × β} (hx : x ∈ l) : K.key (K.madeFor x.2) = K.key x.1 := by
  obtain ⟨k, hk, hb⟩ := h.found x hx
  rw [(h.kept (.nil n)).key k _ hb, hk]

/-- No two are made for the same. -/
theorem number_eq_of_madeFor {x y : τ × β} (hx : x ∈ l) (hy : y ∈ l) (heq : K.madeFor x.2 = K.madeFor y.2) :
    K.number x.2 = K.number y.2 := by
  rw [h.number_eq_iff hx hy, ← h.key_madeFor hx, ← h.key_madeFor hy, heq]

/-- Everyone gets one made for it just when no two different requests have one key. -/
theorem madeFor_iff : (∀ x ∈ l, K.madeFor x.2 = x.1) ↔ ∀ x ∈ l, ∀ y ∈ l, K.key x.1 = K.key y.1 → x.1 = y.1 := by
  constructor
  · intro hall x hx y hy heq
    obtain ⟨k, hk, hb⟩ := h.found x hx
    obtain ⟨k', hk', hb'⟩ := h.found y hy
    have hkk : k = k' := Option.some.inj (hk.symm.trans (heq.trans hk'))
    subst hkk
    rw [← hall x hx, ← hall y hy, Option.some.inj (hb.symm.trans hb')]
  · intro hinj x hx
    obtain ⟨k, -, hb⟩ := h.found x hx
    rcases h.origin hb with hnil | hmem
    · cases hnil
    · exact hinj _ hmem x hx (h.key_madeFor hx)

end Serves

end Keyed
