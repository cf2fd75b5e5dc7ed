/-
Ordered maps: the entries in key order, each key once.

`insert` keeps the order; `find?` after it is `find?_insert`, and maps that agree
on `find?` are equal (`ext_find?`). `value` and
`touch` are the two halves of a subscript that makes a missing entry with a
default value (`update` assigns through it), and `next?` is where an iterator
goes from a key, whatever has been inserted since it got there.
-/
import Mathlib.Data.List.Pairwise
import Mathlib.Data.List.Sort
import Mathlib.Order.Lattice

/-- The entries of an ordered map. -/
structure OrdMap (κ ν : Type*) [LinearOrder κ] where
  entries : List (κ × ν)
  sorted : entries.Pairwise (·.1 < ·.1)

namespace OrdMap

variable {κ ν : Type*} [LinearOrder κ]

instance : EmptyCollection (OrdMap κ ν) := ⟨⟨[], .nil⟩⟩

instance [DecidableEq ν] : DecidableEq (OrdMap κ ν) := fun m m' =>
  decidable_of_iff (m.entries = m'.entries) ⟨fun h => by cases m; cases m'; cases h; rfl, fun h => h ▸ rfl⟩

def find? (m : OrdMap κ ν) (k : κ) : Option ν := m.entries.lookup k

def insertEntry (k : κ) (v : ν) : List (κ × ν) → List (κ × ν)
  | [] => [(k, v)]
  | (k', v') :: es =>
    if k < k' then (k, v) :: (k', v') :: es
    else if k = k' then (k, v) :: es
    else (k', v') :: insertEntry k v es

theorem mem_insertEntry {k : κ} {v : ν} {e : κ × ν} : ∀ {es : List (κ × ν)},
    e ∈ insertEntry k v es → e = (k, v) ∨ e ∈ es
  | [], h => by simpa [insertEntry] using h
  | (k', v') :: es, h => by
    simp only [insertEntry] at h
    split at h
    · simpa using h
    split at h
    · simp only [List.mem_cons] at h ⊢
      rcases h with h | h
      · exact .inl h
      · exact .inr (.inr h)
    · simp only [List.mem_cons] at h ⊢
      rcases h with h | h
      · exact .inr (.inl h)
      · rcases mem_insertEntry h with h | h
        · exact .inl h
        · exact .inr (.inr h)

theorem sorted_insertEntry {k : κ} {v : ν} : ∀ {es : List (κ × ν)},
    es.Pairwise (·.1 < ·.1) → (insertEntry k v es).Pairwise (·.1 < ·.1)
  | [], _ => by simp [insertEntry]
  | (k', v') :: es, h => by
    obtain ⟨hlt, hes⟩ := List.pairwise_cons.1 h
    simp only [insertEntry]
    split
    · next hk =>
      refine List.pairwise_cons.2 ⟨fun e he => ?_, h⟩
      rcases List.mem_cons.1 he with rfl | he
      · exact hk
      · exact lt_trans hk (hlt e he)
    split
    · next hk => subst hk; exact List.pairwise_cons.2 ⟨hlt, hes⟩
    · next hge hne =>
      refine List.pairwise_cons.2 ⟨fun e he => ?_, sorted_insertEntry hes⟩
      rcases mem_insertEntry he with rfl | he
      · exact lt_of_le_of_ne (not_lt.1 hge) (Ne.symm hne)
      · exact hlt e he

def insert (m : OrdMap κ ν) (k : κ) (v : ν) : OrdMap κ ν :=
  ⟨insertEntry k v m.entries, sorted_insertEntry m.sorted⟩

@[simp] theorem find?_empty (k : κ) : (∅ : OrdMap κ ν).find? k = none := rfl

theorem lookup_cons_ite (k k' : κ) (v : ν) (es : List (κ × ν)) :
    ((k, v) :: es).lookup k' = if k' = k then some v else es.lookup k' := by
  by_cases h : k' = k
  · subst h; simp
  · simp only [List.lookup_cons, beq_false_of_ne h, if_neg h]

theorem lookup_insertEntry (k k' : κ) (v : ν) : ∀ es : List (κ × ν),
    (insertEntry k v es).lookup k' = if k' = k then some v else es.lookup k'
  | [] => lookup_cons_ite k k' v []
  | (k₁, v₁) :: es => by
    simp only [insertEntry]
    split
    · exact lookup_cons_ite k k' v _
    split
    · next hk => subst hk; by_cases h : k' = k <;> simp only [lookup_cons_ite, h, if_true, if_false]
    · next hne =>
      simp only [lookup_cons_ite, lookup_insertEntry k k' v es]
      by_cases h₁ : k' = k₁
      · subst h₁
        simp only [if_true, if_neg (Ne.symm hne)]
      · simp only [if_neg h₁]

theorem find?_insert (m : OrdMap κ ν) (k k' : κ) (v : ν) :
    (m.insert k v).find? k' = if k' = k then some v else m.find? k' :=
  lookup_insertEntry k k' v m.entries

@[simp] theorem find?_insert_self (m : OrdMap κ ν) (k : κ) (v : ν) : (m.insert k v).find? k = some v := by
  rw [find?_insert, if_pos rfl]

theorem mem_entries {m : OrdMap κ ν} {k : κ} {v : ν} : (k, v) ∈ m.entries ↔ m.find? k = some v := by
  obtain ⟨es, hs⟩ := m
  induction es with
  | nil => simp [find?]
  | cons e es ih =>
    obtain ⟨k₁, v₁⟩ := e
    obtain ⟨hlt, hes⟩ := List.pairwise_cons.1 hs
    have ih := ih hes
    simp only [find?] at ih
    simp only [find?, List.mem_cons, Prod.mk.injEq, lookup_cons_ite]
    by_cases h : k = k₁
    · subst h
      have hnot : (k, v) ∉ es := fun hm => lt_irrefl k (hlt (k, v) hm)
      simp [hnot, eq_comm]
    · simp only [h, false_and, false_or, if_false]
      exact ih

/-- A map is what is found in it. -/
theorem ext_find? {m m' : OrdMap κ ν} (h : ∀ k, m.find? k = m'.find? k) : m = m' := by
  have hirrefl : Std.Irrefl fun e e' : κ × ν => e.1 < e'.1 := ⟨fun e => lt_irrefl e.1⟩
  have hasymm : Std.Antisymm fun e e' : κ × ν => e.1 < e'.1 := ⟨fun _ _ h h' => absurd h' (lt_asymm h)⟩
  have hentries : m.entries = m'.entries :=
    m.sorted.eq_of_mem_iff m'.sorted fun e => by rw [← Prod.mk.eta (p := e), mem_entries, mem_entries, h]
  cases m
  cases m'
  cases hentries
  rfl

/-- The keys, in order. -/
def keys (m : OrdMap κ ν) : List κ := m.entries.map Prod.fst

theorem mem_keys {m : OrdMap κ ν} {k : κ} : k ∈ m.keys ↔ (m.find? k).isSome := by
  simp only [keys, List.mem_map, Option.isSome_iff_exists, Prod.exists, ← mem_entries]
  constructor
  · rintro ⟨k', v, h, rfl⟩
    exact ⟨v, h⟩
  · rintro ⟨v, h⟩
    exact ⟨k, v, h, rfl⟩

theorem keys_nodup (m : OrdMap κ ν) : m.keys.Nodup := by
  have hlt : m.keys.Pairwise (· < ·) := List.pairwise_map.2 m.sorted
  exact hlt.imp ne_of_lt

theorem mem_keys_insert {m : OrdMap κ ν} {k k' : κ} {v : ν} : k' ∈ (m.insert k v).keys ↔ k' = k ∨ k' ∈ m.keys := by
  simp only [mem_keys, find?_insert]
  split <;> simp_all

/-! ## The subscript -/

variable (dflt : ν)

/-- The value a subscript reads, `dflt` where it makes a new entry. -/
def value (m : OrdMap κ ν) (k : κ) : ν := (m.find? k).getD dflt

/-- The map with an entry at `k`. -/
def touch (m : OrdMap κ ν) (k : κ) : OrdMap κ ν :=
  match m.find? k with
  | some _ => m
  | none => m.insert k dflt

/-- What is assigned through a subscript. -/
def update (m : OrdMap κ ν) (k : κ) (f : ν → ν) : OrdMap κ ν := m.insert k (f (m.value dflt k))

variable {dflt}

theorem find?_touch (m : OrdMap κ ν) (k k' : κ) :
    (m.touch dflt k).find? k' = if k' = k then some (m.value dflt k) else m.find? k' := by
  simp only [touch, value]
  split
  · next h => by_cases hk : k' = k <;> simp [hk, h]
  · next h => rw [find?_insert, h]; rfl

theorem find?_update (m : OrdMap κ ν) (k k' : κ) (f : ν → ν) :
    (m.update dflt k f).find? k' = if k' = k then some (f (m.value dflt k)) else m.find? k' :=
  find?_insert _ _ _ _

@[simp] theorem value_touch (m : OrdMap κ ν) (k k' : κ) : (m.touch dflt k).value dflt k' = m.value dflt k' := by
  simp only [value, find?_touch]
  split
  · next h => subst h; rfl
  · rfl

theorem touch_of_isSome {m : OrdMap κ ν} {k : κ} (h : (m.find? k).isSome) : m.touch dflt k = m := by
  obtain ⟨v, hv⟩ := Option.isSome_iff_exists.1 h
  simp only [touch, hv]

theorem value_update (m : OrdMap κ ν) (k k' : κ) (f : ν → ν) :
    (m.update dflt k f).value dflt k' = if k' = k then f (m.value dflt k) else m.value dflt k' := by
  simp only [value, find?_update]
  split <;> rfl

/-! ## The iterator -/

/-- The keys behind `c`; all of them when the iteration starts. -/
def After (c : Option κ) (k : κ) : Prop := ∀ k₀ ∈ c, k₀ < k

instance (c : Option κ) (k : κ) : Decidable (After c k) :=
  match c with
  | none => .isTrue fun _ h => nomatch h
  | some k₀ => decidable_of_iff (k₀ < k) ⟨fun h _ hk => Option.some.inj hk ▸ h, fun h => h k₀ rfl⟩

/-- The entries behind `c`. -/
def after (m : OrdMap κ ν) (c : Option κ) : List (κ × ν) := m.entries.filter fun e => After c e.1

/-- The entry the iterator is at next. -/
def next? (m : OrdMap κ ν) (c : Option κ) : Option (κ × ν) := (m.after c).head?

theorem after_none (m : OrdMap κ ν) : m.after none = m.entries := by
  simp [after, After]

theorem After.trans {c : Option κ} {k k' : κ} (h : After c k) (h' : k < k') : After c k' :=
  fun k₀ hk => lt_trans (h k₀ hk) h'

/-- Behind `k` is behind `c` and then behind `k`. -/
theorem After.filter_some {c : Option κ} {k : κ} (h : After c k) {α : Type*} (key : α → κ) (l : List α) :
    (l.filter fun x => After (some k) (key x)) =
      (l.filter fun x => After c (key x)).filter fun x => After (some k) (key x) := by
  rw [List.filter_filter]
  refine List.filter_congr fun x _ => ?_
  by_cases hx : After (some k) (key x)
  · simp [hx, h.trans (hx k rfl)]
  · simp [hx]

theorem next?_mem {m : OrdMap κ ν} {c : Option κ} {k : κ} {v : ν} (h : m.next? c = some (k, v)) :
    m.find? k = some v ∧ After c k := by
  have hm := List.mem_of_head? h
  simp only [after, List.mem_filter, decide_eq_true_eq] at hm
  exact ⟨mem_entries.1 hm.1, hm.2⟩

/-- Nothing lies between the iterator and where it goes next. -/
theorem le_of_next? {m : OrdMap κ ν} {c : Option κ} {k k' : κ} {v v' : ν} (h : m.next? c = some (k, v))
    (hm : m.find? k' = some v') (hc : After c k') : k ≤ k' := by
  have hmem : (k', v') ∈ m.after c := by
    simp only [after, List.mem_filter, decide_eq_true_eq]
    exact ⟨mem_entries.2 hm, hc⟩
  have hs : (m.after c).Pairwise (·.1 < ·.1) := m.sorted.filter _
  obtain ⟨es, hes⟩ := List.head?_eq_some_iff.1 h
  rw [hes] at hmem hs
  rcases List.mem_cons.1 hmem with he | he
  · rw [(Prod.mk.inj he).1]
  · exact le_of_lt ((List.pairwise_cons.1 hs).1 _ he)

theorem next?_eq_none {m : OrdMap κ ν} {c : Option κ} (h : m.next? c = none) {k : κ} {v : ν}
    (hm : m.find? k = some v) : ¬ After c k := fun hc => by
  have hnil := List.head?_eq_none_iff.1 h
  have hmem : (k, v) ∈ m.after c := by
    simp only [after, List.mem_filter, decide_eq_true_eq]
    exact ⟨mem_entries.2 hm, hc⟩
  rw [hnil] at hmem
  cases hmem

/-- The entries behind `c` are the one the iterator goes to next and those
behind it, in any map that has it. -/
theorem after_eq_cons {m : OrdMap κ ν} {c : Option κ} {k : κ} {v : ν} (hm : m.find? k = some v)
    (hc : After c k) (hle : ∀ k' v', m.find? k' = some v' → After c k' → k ≤ k') :
    m.after c = (k, v) :: m.after (some k) := by
  have hs : (m.after c).Pairwise (·.1 < ·.1) := m.sorted.filter _
  have hmem : (k, v) ∈ m.after c := by
    simp only [after, List.mem_filter, decide_eq_true_eq]
    exact ⟨mem_entries.2 hm, hc⟩
  obtain ⟨e, es, hes⟩ := List.exists_cons_of_ne_nil (List.ne_nil_of_mem hmem)
  have hhead : e = (k, v) := by
    rw [hes] at hmem hs
    rcases List.mem_cons.1 hmem with he | he
    · exact he.symm
    · have hlt := (List.pairwise_cons.1 hs).1 _ he
      have hin : e ∈ m.after c := by rw [hes]; exact List.mem_cons_self
      simp only [after, List.mem_filter, decide_eq_true_eq] at hin
      exact absurd (hle e.1 e.2 (mem_entries.1 hin.1) hin.2) (not_le.2 hlt)
  subst hhead
  rw [hes]
  congr 1
  have hgt : ∀ e ∈ es, k < e.1 := by
    rw [hes] at hs
    exact (List.pairwise_cons.1 hs).1
  rw [show m.after (some k) = _ from hc.filter_some Prod.fst m.entries,
    show m.entries.filter _ = m.after c from rfl, hes, List.filter_cons_of_neg (by simp [After]), List.filter_eq_self.2]
  exact fun e he => by simpa [After] using hgt e he

end OrdMap
