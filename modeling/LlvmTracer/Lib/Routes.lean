/-
Gathering the nodes of a graph that are behind its inner nodes.

`gather` goes from a node to the next ones, through those that are inner, and
lists the others as it comes to them. It keeps no record of where it has
been: it returns just when no cycle of inner nodes is ahead
(`exists_returns_iff`), it lists the ends of the routes there are
(`mem_found`), and each of them once just when there is one route to it
(`nodup_found`).
-/
import Mathlib.Data.List.Duplicate
import Mathlib.Data.List.Pairwise
import Mathlib.Data.List.Perm.Subperm
import Mathlib.Logic.Relation

namespace Routes

open Relation

variable {α : Type*} (next : α → List α) (inner : α → Bool)

def gather : Nat → α → List α → Option (List α)
  | 0, _, _ => none
  | n + 1, a, l => (next a).foldlM (fun l b => if inner b then gather n b l else some (l ++ [b])) l

/-- To an inner node. -/
def Step (a b : α) : Prop := b ∈ next a ∧ inner b = true

/-- A way to a node that is not inner, through inner ones: those. -/
inductive Route : α → List α → α → Prop
  | last {a b : α} : b ∈ next a → inner b = false → Route a [] b
  | through {a b c : α} {ρ : List α} : b ∈ next a → inner b = true → Route b ρ c → Route a (b :: ρ) c

/-- The search ends within `n` levels. -/
def Returns : Nat → α → Prop
  | 0, _ => False
  | n + 1, a => ∀ b, Step next inner a b → Returns n b

/-- What is gathered within `n` levels. -/
def found : Nat → α → List α
  | 0, _ => []
  | n + 1, a => (next a).flatMap fun b => if inner b then found n b else [b]

variable {next inner} {a b c : α} {n k : Nat} {l l' : List α}

/-- The loop over the next nodes, given what the search from each does. -/
theorem foldlM_gather
    (h : ∀ {b : α} {l l' : List α}, gather next inner n b l = some l' ↔
      Returns next inner n b ∧ l' = l ++ found next inner n b) : ∀ {bs l : List α},
    bs.foldlM (fun l b => if inner b then gather next inner n b l else some (l ++ [b])) l = some l' ↔
      (∀ b ∈ bs, inner b = true → Returns next inner n b) ∧
        l' = l ++ bs.flatMap fun b => if inner b then found next inner n b else [b]
  | [], l => by
    simp only [List.foldlM_nil, List.flatMap_nil, List.append_nil, List.not_mem_nil, false_imp_iff, implies_true,
      true_and]
    exact ⟨fun h => (Option.some.inj h).symm, fun h => congrArg some h.symm⟩
  | b :: bs, l => by
    rw [List.foldlM_cons, Option.bind_eq_bind, Option.bind_eq_some_iff]
    simp only [foldlM_gather h]
    by_cases hb : inner b = true
    · simp only [hb, if_true, h, List.forall_mem_cons, List.flatMap_cons, forall_const]
      constructor
      · rintro ⟨l₁, ⟨hret, rfl⟩, hrets, rfl⟩
        exact ⟨⟨hret, hrets⟩, by rw [List.append_assoc]⟩
      · rintro ⟨⟨hret, hrets⟩, rfl⟩
        exact ⟨_, ⟨hret, rfl⟩, hrets, by rw [List.append_assoc]⟩
    · simp [hb]

theorem gather_eq_some : gather next inner n a l = some l' ↔ Returns next inner n a ∧ l' = l ++ found next inner n a := by
  induction n generalizing a l l' with
  | zero => simp [gather, Returns]
  | succ n ih =>
    rw [gather, foldlM_gather ih]
    simp only [Returns, found, Step, and_imp]

/-! ## Whether the search returns -/

theorem Returns.of_transGen (h : Returns next inner n a) (hb : TransGen (Step next inner) a b) :
    ∃ m < n, Returns next inner m b := by
  induction hb with
  | single hstep =>
    cases n with
    | zero => exact h.elim
    | succ n => exact ⟨n, n.lt_succ_self, h _ hstep⟩
  | tail _ hstep ih =>
    obtain ⟨m, hm, hret⟩ := ih
    cases m with
    | zero => exact hret.elim
    | succ m => exact ⟨m, Nat.lt_of_succ_lt hm, hret _ hstep⟩

/-- No inner node comes back to itself. -/
theorem Returns.no_cycle (h : Returns next inner n a) : ¬ TransGen (Step next inner) a a := by
  induction n using Nat.strongRecOn with
  | _ n ih =>
    intro hcycle
    obtain ⟨m, hm, hret⟩ := h.of_transGen hcycle
    exact ih m hm hret hcycle

/-- Steps for as many levels as the search has been given. -/
theorem exists_steps (h : ¬ Returns next inner n a) : ∃ p : List α, p.length = n ∧ (a :: p).IsChain (Step next inner) := by
  induction n generalizing a with
  | zero => exact ⟨[], rfl, .singleton a⟩
  | succ n ih =>
    simp only [Returns, not_forall] at h
    obtain ⟨b, hstep, hb⟩ := h
    obtain ⟨p, hlen, hchain⟩ := ih hb
    exact ⟨b :: p, by rw [List.length_cons, hlen], .cons_cons hstep hchain⟩

/-- In a finite graph: steps for more levels than it has nodes go in a circle. -/
theorem exists_returns_iff {nodes : List α} (hnodes : ∀ a, next a ⊆ nodes) :
    (∃ n, Returns next inner n a) ↔
      ∀ b, ReflTransGen (Step next inner) a b → ¬ TransGen (Step next inner) b b := by
  constructor
  · rintro ⟨n, hret⟩ b hb hcycle
    rcases reflTransGen_iff_eq_or_transGen.1 hb with rfl | hb
    · exact hret.no_cycle hcycle
    · obtain ⟨m, -, hm⟩ := hret.of_transGen hb
      exact hm.no_cycle hcycle
  · intro hacyclic
    by_contra hnone
    have hret : ¬ Returns next inner (nodes.length + 1) a := fun h => hnone ⟨_, h⟩
    obtain ⟨p, hlen, hchain⟩ := exists_steps hret
    have hpairs : (a :: p).Pairwise (TransGen (Step next inner)) :=
      (hchain.imp fun _ _ h => TransGen.single h).pairwise
    obtain ⟨ha, hp⟩ := List.pairwise_cons.1 hpairs
    have hmem : p ⊆ nodes := fun b hb => by
      obtain ⟨c, -, hstep⟩ := TransGen.tail'_iff.1 (ha b hb)
      exact hnodes c hstep.1
    have hdup : ¬ p.Nodup := fun hnd => by
      have := (hnd.subperm hmem).length_le
      omega
    obtain ⟨b, hb⟩ := List.exists_duplicate_iff_not_nodup.2 hdup
    have hsub := List.duplicate_iff_sublist.1 hb
    have hcycle : TransGen (Step next inner) b b := (List.pairwise_cons.1 (hp.sublist hsub)).1 b (by simp)
    exact hacyclic b (ha b hb.mem).to_reflTransGen hcycle

/-! ## What it gathers -/

theorem head?_route {ρ : List α} (h : Route next inner a ρ c) : ∃ b ∈ next a, (ρ ++ [c]).head? = some b := by
  cases h with
  | last hc => exact ⟨c, hc, rfl⟩
  | through hb => exact ⟨_, hb, rfl⟩

/-- A route by way of `b` ends there, or goes on from there. -/
theorem Route.of_head? {ρ : List α} (h : Route next inner a ρ c) (hhead : (ρ ++ [c]).head? = some b) :
    inner b = false ∧ ρ = [] ∧ c = b ∨ inner b = true ∧ ∃ σ, ρ = b :: σ ∧ Route next inner b σ c := by
  cases h with
  | last _ hc =>
    cases hhead
    exact .inl ⟨hc, rfl, rfl⟩
  | through _ hi hσ =>
    cases hhead
    exact .inr ⟨hi, _, rfl, hσ⟩

/-- The nodes gathered by way of the next node `b`. -/
theorem mem_found_by (hb : b ∈ next a)
    (hfound : inner b = true → (c ∈ found next inner n b ↔ ∃ ρ, Route next inner b ρ c)) :
    (c ∈ if inner b then found next inner n b else [b]) ↔ ∃ ρ, Route next inner a ρ c ∧ (ρ ++ [c]).head? = some b := by
  cases hi : inner b with
  | true =>
    rw [if_pos rfl, hfound hi]
    constructor
    · rintro ⟨ρ, hρ⟩
      exact ⟨b :: ρ, .through hb hi hρ, rfl⟩
    · rintro ⟨_, hρ, hhead⟩
      rcases hρ.of_head? hhead with ⟨hno, -, -⟩ | ⟨-, σ, rfl, hσ⟩
      · rw [hi] at hno
        cases hno
      · exact ⟨σ, hσ⟩
  | false =>
    rw [if_neg Bool.false_ne_true, List.mem_singleton]
    constructor
    · rintro rfl
      exact ⟨[], .last hb hi, rfl⟩
    · rintro ⟨_, hρ, hhead⟩
      rcases hρ.of_head? hhead with ⟨-, -, hc⟩ | ⟨hyes, -⟩
      · exact hc
      · rw [hi] at hyes
        cases hyes

theorem mem_found (h : Returns next inner n a) : c ∈ found next inner n a ↔ ∃ ρ, Route next inner a ρ c := by
  induction n generalizing a with
  | zero => exact h.elim
  | succ n ih =>
    have hby : ∀ b ∈ next a, ((c ∈ if inner b then found next inner n b else [b]) ↔
        ∃ ρ, Route next inner a ρ c ∧ (ρ ++ [c]).head? = some b) :=
      fun b hb => mem_found_by hb fun hi => ih (h b ⟨hb, hi⟩)
    rw [found, List.mem_flatMap]
    constructor
    · rintro ⟨b, hb, hc⟩
      obtain ⟨ρ, hρ, -⟩ := (hby b hb).1 hc
      exact ⟨ρ, hρ⟩
    · rintro ⟨ρ, hρ⟩
      obtain ⟨b, hb, hhead⟩ := head?_route hρ
      exact ⟨b, hb, (hby b hb).2 ⟨ρ, hρ, hhead⟩⟩

/-- Two routes by way of one node are one, if those from there on are. -/
theorem Route.eq_of_head? {ρ ρ' : List α} (h : Route next inner a ρ c) (h' : Route next inner a ρ' c)
    (hhead : (ρ ++ [c]).head? = some b) (hhead' : (ρ' ++ [c]).head? = some b)
    (huniq : inner b = true → ∀ σ σ', Route next inner b σ c → Route next inner b σ' c → σ = σ') : ρ = ρ' := by
  rcases h.of_head? hhead with ⟨hi, rfl, -⟩ | ⟨hi, σ, rfl, hσ⟩ <;>
    rcases h'.of_head? hhead' with ⟨hi', rfl, -⟩ | ⟨hi', σ', rfl, hσ'⟩
  · rfl
  · rw [hi] at hi'
    cases hi'
  · rw [hi] at hi'
    cases hi'
  · rw [huniq hi σ σ' hσ hσ']

/-- Nothing is gathered twice just when no two routes have the same end. -/
theorem nodup_found (hnext : ∀ a, (next a).Nodup) (h : Returns next inner n a) :
    (found next inner n a).Nodup ↔
      ∀ c ρ ρ', Route next inner a ρ c → Route next inner a ρ' c → ρ = ρ' := by
  induction n generalizing a with
  | zero => exact h.elim
  | succ n ih =>
    have hby : ∀ b ∈ next a, ∀ c, ((c ∈ if inner b then found next inner n b else [b]) ↔
        ∃ ρ, Route next inner a ρ c ∧ (ρ ++ [c]).head? = some b) :=
      fun b hb c => mem_found_by hb fun hi => mem_found (h b ⟨hb, hi⟩)
    rw [found, List.nodup_flatMap]
    constructor
    · rintro ⟨heach, hdisj⟩ c ρ ρ' hρ hρ'
      obtain ⟨b, hb, hhead⟩ := head?_route hρ
      obtain ⟨b', hb', hhead'⟩ := head?_route hρ'
      have hbb' : b = b' := by
        by_contra hne
        have hsymm : Std.Symm (Function.onFun List.Disjoint fun b => if inner b then found next inner n b else [b]) :=
          ⟨fun _ _ h _ hc hc' => h hc' hc⟩
        exact hdisj.forall hb hb' hne ((hby b hb c).2 ⟨ρ, hρ, hhead⟩) ((hby b' hb' c).2 ⟨ρ', hρ', hhead'⟩)
      subst hbb'
      refine hρ.eq_of_head? hρ' hhead hhead' fun hi => ?_
      have hnd := heach b hb
      rw [if_pos hi] at hnd
      exact (ih (h b ⟨hb, hi⟩)).1 hnd c
    · intro huniq
      refine ⟨fun b hb => ?_, (hnext a).pairwise_of_forall_ne fun b hb b' hb' hne c hc hc' => ?_⟩
      · cases hi : inner b with
        | true =>
          rw [if_pos rfl, ih (h b ⟨hb, hi⟩)]
          intro c ρ ρ' hρ hρ'
          exact List.tail_eq_of_cons_eq (huniq c _ _ (.through hb hi hρ) (.through hb hi hρ'))
        | false =>
          rw [if_neg Bool.false_ne_true]
          exact List.nodup_singleton b
      · obtain ⟨ρ, hρ, hhead⟩ := (hby b hb c).1 hc
        obtain ⟨ρ', hρ', hhead'⟩ := (hby b' hb' c).1 hc'
        rw [huniq c ρ ρ' hρ hρ', hhead'] at hhead
        exact hne (Option.some.inj hhead).symm

end Routes
