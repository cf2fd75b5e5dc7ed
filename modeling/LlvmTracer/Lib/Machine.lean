/-
Machines that run programs of basic blocks.

A machine says what one instruction may do: emit events, change the data, and
send control on, to another block or out of the program. A `Run` lists the
visits of blocks, each with its events. `Run.did_of_dominates` is what
dominance is for. `Run.erase` and `Run.lift` are the two halves of a
simulation, by a program that has more instructions than another.
-/
import LlvmTracer.Lib.Dominance

namespace Machine

variable {ι α β σ τ ρ ω ω' : Type}

/-- Where control goes after an instruction. -/
inductive Exit (ι ρ : Type)
  | next
  | jump (b : ι)
  | halt (r : ρ)

/-- What an instruction of a block may do to the data, with the events it emits. -/
abbrev Exec (ι α σ ρ ω : Type) : Type := ι → α → σ → List ω → σ → Exit ι ρ → Prop

/-- Where a run is, with what its block has left: going on, or at its end. -/
inductive Conf (α σ ρ : Type)
  | running (todo : List α) (s : σ)
  | halted (todo : List α) (r : ρ) (s : σ)

def Conf.todo : Conf α σ ρ → List α
  | running todo _ | halted todo _ _ => todo

def Conf.data : Conf α σ ρ → σ
  | running _ s | halted _ _ s => s

/-- A visit of a block, with the events so far. -/
structure Visit (ι ω : Type) where
  block : ι
  events : List ω

/-- A run from the entry: its visits, the last one first, and where it is.
Only the last instruction of a block jumps. -/
inductive Run (exec : Exec ι α σ ρ ω) (entry : ι) (code : ι → List α) (s₀ : σ) :
    List (Visit ι ω) → Conf α σ ρ → Prop
  | start : Run exec entry code s₀ [⟨entry, []⟩] (.running (code entry) s₀)
  | next {v : Visit ι ω} {vs : List (Visit ι ω)} {x : α} {todo : List α} {s s' : σ} {o : List ω} :
      Run exec entry code s₀ (v :: vs) (.running (x :: todo) s) → exec v.block x s o s' .next →
      Run exec entry code s₀ (⟨v.block, v.events ++ o⟩ :: vs) (.running todo s')
  | jump {v : Visit ι ω} {vs : List (Visit ι ω)} {x : α} {s s' : σ} {o : List ω} {b : ι} :
      Run exec entry code s₀ (v :: vs) (.running [x] s) → exec v.block x s o s' (.jump b) →
      Run exec entry code s₀ (⟨b, []⟩ :: ⟨v.block, v.events ++ o⟩ :: vs) (.running (code b) s')
  | halt {v : Visit ι ω} {vs : List (Visit ι ω)} {x : α} {todo : List α} {s s' : σ} {o : List ω} {r : ρ} :
      Run exec entry code s₀ (v :: vs) (.running (x :: todo) s) → exec v.block x s o s' (.halt r) →
      Run exec entry code s₀ (⟨v.block, v.events ++ o⟩ :: vs) (.halted todo r s')

/-! ## What has been executed -/

section

variable {exec : Exec ι α σ ρ ω} {entry : ι} {code : ι → List α} {s₀ : σ} {vs : List (Visit ι ω)} {c : Conf α σ ρ}

/-- The block at which a run is has executed a first part. -/
theorem Run.position (h : Run exec entry code s₀ vs c) :
    ∃ v vs' pre, vs = v :: vs' ∧ code v.block = pre ++ c.todo := by
  induction h with
  | start => exact ⟨_, _, [], rfl, rfl⟩
  | @next v vs x _ _ _ _ _ _ ih | @halt v vs x _ _ _ _ _ _ _ ih =>
    obtain ⟨_, _, pre, hvs, hpre⟩ := ih
    obtain ⟨rfl, rfl⟩ := List.cons.inj hvs
    exact ⟨_, _, pre ++ [x], rfl, by rw [hpre]; simp [Conf.todo]⟩
  | jump => exact ⟨_, _, [], rfl, rfl⟩

/-- A run behind an instruction has just executed it. -/
theorem Run.back {v : Visit ι ω} {pre todo : List α} {x : α} {s : σ}
    (h : Run exec entry code s₀ (v :: vs) (.running todo s)) (hcode : code v.block = pre ++ x :: todo) :
    ∃ events s' o, Run exec entry code s₀ (⟨v.block, events⟩ :: vs) (.running (x :: todo) s') ∧
      exec v.block x s' o s .next := by
  have hlen : ∀ {b : ι} {todo : List α}, code b = pre ++ x :: todo → todo ≠ code b := by
    intro b todo hb heq
    have := congrArg List.length hb
    rw [← heq] at this
    simp at this
    omega
  cases h with
  | start => exact absurd rfl (hlen hcode)
  | jump => exact absurd rfl (hlen hcode)
  | @next w _ y _ s' _ o hrun hexec =>
    obtain ⟨_, _, pre', hvs, hpre⟩ := hrun.position
    obtain ⟨rfl, rfl⟩ := List.cons.inj hvs
    have hsplit : pre ++ [x] ++ todo = pre' ++ [y] ++ todo := by
      rw [List.append_assoc, List.append_assoc]
      exact hcode.symm.trans hpre
    obtain ⟨-, hx⟩ := List.append_inj' (List.append_cancel_right hsplit) rfl
    obtain rfl := List.singleton_inj.1 hx
    exact ⟨w.events, s', o, hrun, hexec⟩

/-- The visits follow the program's edges. -/
theorem Run.path {succ : ι → List ι}
    (hjump : ∀ {b pre x s o s' b'}, code b = pre ++ [x] → exec b x s o s' (.jump b') → b' ∈ succ b)
    (h : Run exec entry code s₀ vs c) : Dominance.Path succ entry (vs.map Visit.block) := by
  induction h with
  | start => exact .entry
  | next _ _ ih | halt _ _ ih => exact ih
  | jump hrun hexec ih =>
    obtain ⟨_, _, pre, hvs, hpre⟩ := hrun.position
    obtain ⟨rfl, rfl⟩ := List.cons.inj hvs
    exact .step ih (hjump hpre hexec)

/-- What executing an instruction does and nothing undoes is done of all that
has been executed. -/
theorem Run.did {Did : α → σ → Prop} (hdo : ∀ {b x s o s' e}, exec b x s o s' e → Did x s')
    (hkeep : ∀ {b x y s o s' e}, exec b x s o s' e → Did y s → Did y s') (h : Run exec entry code s₀ vs c) :
    ∃ v vs' pre, vs = v :: vs' ∧ code v.block = pre ++ c.todo ∧
      ∀ x, x ∈ (vs'.map Visit.block).flatMap code ∨ x ∈ pre → Did x c.data := by
  induction h with
  | start => exact ⟨_, _, [], rfl, rfl, by simp⟩
  | @next v vs x _ _ _ _ _ hexec ih | @halt v vs x _ _ _ _ _ _ hexec ih =>
    obtain ⟨_, _, pre, hvs, hpre, hdid⟩ := ih
    obtain ⟨rfl, rfl⟩ := List.cons.inj hvs
    refine ⟨_, _, pre ++ [x], rfl, by rw [hpre]; simp [Conf.todo], fun y hy => ?_⟩
    rcases hy with hy | hy
    · exact hkeep hexec (hdid y (.inl hy))
    · rcases List.mem_append.1 hy with hy | hy
      · exact hkeep hexec (hdid y (.inr hy))
      · rw [List.mem_singleton.1 hy]
        exact hdo hexec
  | @jump v vs x _ _ _ _ _ hexec ih =>
    obtain ⟨_, _, pre, hvs, hpre, hdid⟩ := ih
    obtain ⟨rfl, rfl⟩ := List.cons.inj hvs
    refine ⟨_, _, [], rfl, rfl, fun y hy => ?_⟩
    simp only [List.not_mem_nil, or_false, List.map_cons, List.flatMap_cons, List.mem_append] at hy
    rcases hy with hy | hy
    · rw [hpre] at hy
      rcases List.mem_append.1 hy with hy | hy
      · exact hkeep hexec (hdid y (.inr hy))
      · rw [List.mem_singleton.1 hy]
        exact hdo hexec
    · exact hkeep hexec (hdid y (.inl hy))

/-- What dominates a point has been executed there. -/
theorem Run.did_of_dominates {succ : ι → List ι} {Did : α → σ → Prop} {v : Visit ι ω} {pre : List α} {x : α}
    (h : Run exec entry code s₀ (v :: vs) c) (hpre : code v.block = pre ++ c.todo)
    (hx : Dominance.Dominates succ entry code x v.block pre)
    (hjump : ∀ {b pre x s o s' b'}, code b = pre ++ [x] → exec b x s o s' (.jump b') → b' ∈ succ b)
    (hdo : ∀ {b x s o s' e}, exec b x s o s' e → Did x s')
    (hkeep : ∀ {b x y s o s' e}, exec b x s o s' e → Did y s → Did y s') : Did x c.data := by
  obtain ⟨_, _, pre', hvs, hpre', hdid⟩ : ∃ v' vs' pre', v :: vs = v' :: vs' ∧ code v'.block = pre' ++ c.todo ∧
      ∀ y, y ∈ (vs'.map Visit.block).flatMap code ∨ y ∈ pre' → Did y c.data := h.did hdo hkeep
  obtain ⟨rfl, rfl⟩ := List.cons.inj hvs
  have heq : pre = pre' := List.append_cancel_right (hpre.symm.trans hpre')
  subst heq
  exact hdid x (hx _ (h.path hjump))

end

/-- A run of a machine that does more. -/
theorem Run.follow {exec : Exec ι α σ ρ ω} {exec' : Exec ι α σ ρ ω'} {entry : ι} {code : ι → List α} {s₀ : σ}
    (hexec : ∀ {b x s o s' e}, exec b x s o s' e → ∃ o', exec' b x s o' s' e) {vs : List (Visit ι ω)} {c : Conf α σ ρ}
    (h : Run exec entry code s₀ vs c) :
    ∃ vs', vs'.map Visit.block = vs.map Visit.block ∧ Run exec' entry code s₀ vs' c := by
  induction h with
  | start => exact ⟨_, rfl, .start⟩
  | next _ hx ih =>
    obtain ⟨vs', hblocks, hrun⟩ := ih
    obtain ⟨v, vs', rfl, hv, hvs⟩ := List.map_eq_cons_iff.1 hblocks
    rw [← hv] at hx
    obtain ⟨o', hx'⟩ := hexec hx
    exact ⟨_, by simp [hv, hvs], hrun.next hx'⟩
  | jump _ hx ih =>
    obtain ⟨vs', hblocks, hrun⟩ := ih
    obtain ⟨v, vs', rfl, hv, hvs⟩ := List.map_eq_cons_iff.1 hblocks
    rw [← hv] at hx
    obtain ⟨o', hx'⟩ := hexec hx
    exact ⟨_, by simp [hv, hvs], hrun.jump hx'⟩
  | halt _ hx ih =>
    obtain ⟨vs', hblocks, hrun⟩ := ih
    obtain ⟨v, vs', rfl, hv, hvs⟩ := List.map_eq_cons_iff.1 hblocks
    rw [← hv] at hx
    obtain ⟨o', hx'⟩ := hexec hx
    exact ⟨_, by simp [hv, hvs], hrun.halt hx'⟩

/-! ## Events -/

/-- Events of instructions in order, when each alone emits what `emits` allows. -/
inductive EmitsAll (emits : α → List ω → Prop) : List α → List ω → Prop
  | nil : EmitsAll emits [] []
  | cons {x : α} {xs : List α} {o o' : List ω} : emits x o → EmitsAll emits xs o' → EmitsAll emits (x :: xs) (o ++ o')

theorem EmitsAll.append {emits : α → List ω → Prop} {xs ys : List α} {o o' : List ω} (h : EmitsAll emits xs o)
    (h' : EmitsAll emits ys o') : EmitsAll emits (xs ++ ys) (o ++ o') := by
  induction h with
  | nil => exact h'
  | cons hx _ ih =>
    rw [List.cons_append, List.append_assoc]
    exact .cons hx ih

theorem EmitsAll.snoc {emits : α → List ω → Prop} {xs : List α} {x : α} {o o' : List ω} (h : EmitsAll emits xs o)
    (h' : emits x o') : EmitsAll emits (xs ++ [x]) (o ++ o') := by
  have hone := h.append (.cons h' .nil)
  rwa [List.append_nil] at hone

/-- The visits that are over have executed their whole blocks, and the last
one the part before what is left. -/
theorem Run.emits {exec : Exec ι α σ ρ ω} {entry : ι} {code : ι → List α} {s₀ : σ} {emits : α → List ω → Prop}
    (hexec : ∀ {b x s o s' e}, exec b x s o s' e → emits x o) {vs : List (Visit ι ω)} {c : Conf α σ ρ}
    (h : Run exec entry code s₀ vs c) :
    ∃ v vs' pre, vs = v :: vs' ∧ code v.block = pre ++ c.todo ∧ EmitsAll emits pre v.events ∧
      ∀ w ∈ vs', EmitsAll emits (code w.block) w.events := by
  induction h with
  | start => exact ⟨_, _, [], rfl, rfl, .nil, by simp⟩
  | @next v vs x _ _ _ _ _ hx ih | @halt v vs x _ _ _ _ _ _ hx ih =>
    obtain ⟨_, _, pre, hvs, hpre, hlast, hover⟩ := ih
    obtain ⟨rfl, rfl⟩ := List.cons.inj hvs
    exact ⟨_, _, pre ++ [x], rfl, by rw [hpre]; simp [Conf.todo], hlast.snoc (hexec hx), hover⟩
  | @jump v vs x _ _ _ _ _ hx ih =>
    obtain ⟨_, _, pre, hvs, hpre, hlast, hover⟩ := ih
    obtain ⟨rfl, rfl⟩ := List.cons.inj hvs
    refine ⟨_, _, [], rfl, rfl, .nil, fun w hw => ?_⟩
    rcases List.mem_cons.1 hw with rfl | hw
    · rw [hpre]
      exact hlast.snoc (hexec hx)
    · exact hover w hw

/-- The events of all visits, in order. -/
def eventsOf (vs : List (Visit ι ω)) : List ω := vs.reverse.flatMap Visit.events

@[simp] theorem eventsOf_nil_cons (b : ι) (vs : List (Visit ι ω)) : eventsOf (⟨b, []⟩ :: vs) = eventsOf vs := by
  simp [eventsOf]

@[simp] theorem eventsOf_append (v : Visit ι ω) (o : List ω) (vs : List (Visit ι ω)) :
    eventsOf (⟨v.block, v.events ++ o⟩ :: vs) = eventsOf (v :: vs) ++ o := by
  simp [eventsOf]

/-- Every event is of some instruction's. -/
theorem Run.exists_of_mem_events {exec : Exec ι α σ ρ ω} {entry : ι} {code : ι → List α} {s₀ : σ}
    {vs : List (Visit ι ω)} {c : Conf α σ ρ} (h : Run exec entry code s₀ vs c) {x : ω} (hx : x ∈ eventsOf vs) :
    ∃ b y s o s' e, y ∈ code b ∧ exec b y s o s' e ∧ x ∈ o := by
  induction h with
  | start => simp [eventsOf] at hx
  | @next v _ y _ _ _ _ hrun hexec ih | @halt v _ y _ _ _ _ _ hrun hexec ih | @jump v _ y _ _ _ _ hrun hexec ih =>
    simp only [eventsOf_nil_cons, eventsOf_append, List.mem_append] at hx
    rcases hx with hx | hx
    · exact ih hx
    · obtain ⟨_, _, pre, hvs, hpre⟩ := hrun.position
      obtain ⟨rfl, rfl⟩ := List.cons.inj hvs
      exact ⟨_, y, _, _, _, _, by rw [hpre]; simp [Conf.todo], hexec, hx⟩

/-! ## A program with more instructions -/

/-- A program `code'` that is `code` with more instructions, those without an
`orig`. The others do what they do in `code`; the new ones go on without
changing the data `abs` shows, or emitting an event `keep` keeps. -/
structure Simulates (exec : Exec ι α σ ρ ω) (exec' : Exec ι β τ ρ ω') (code : ι → List α) (code' : ι → List β)
    (orig : β → Option α) (abs : τ → σ) (keep : ω' → Option ω) : Prop where
  code : ∀ b, (code' b).filterMap orig = code b
  last : ∀ b pre y, code' b = pre ++ [y] → orig y ≠ none
  new : ∀ {b y t o t' e}, orig y = none → exec' b y t o t' e → e = .next ∧ abs t' = abs t ∧ o.filterMap keep = []
  old : ∀ {b y x t o t' e}, orig y = some x → exec' b y t o t' e → exec b x (abs t) (o.filterMap keep) (abs t') e
  lift : ∀ {b y x t o s' e}, orig y = some x → exec b x (abs t) o s' e →
    ∃ o' t', exec' b y t o' t' e ∧ abs t' = s' ∧ o'.filterMap keep = o

def Conf.erase (f : β → Option α) (abs : τ → σ) : Conf β τ ρ → Conf α σ ρ
  | running todo t => running (todo.filterMap f) (abs t)
  | halted todo r t => halted (todo.filterMap f) r (abs t)

def Visit.keep (f : ω' → Option ω) (v : Visit ι ω') : Visit ι ω := ⟨v.block, v.events.filterMap f⟩

section

variable {exec : Exec ι α σ ρ ω} {exec' : Exec ι β τ ρ ω'} {code : ι → List α} {code' : ι → List β}
  {orig : β → Option α} {abs : τ → σ} {keep : ω' → Option ω}
  (hsim : Simulates exec exec' code code' orig abs keep) {entry : ι} {t₀ : τ}
include hsim

/-- Every run is one of the smaller program. -/
theorem Run.erase {vs : List (Visit ι ω')} {c : Conf β τ ρ} (h : Run exec' entry code' t₀ vs c) :
    Run exec entry code (abs t₀) (vs.map (Visit.keep keep)) (c.erase orig abs) := by
  induction h with
  | start =>
    rw [Conf.erase, hsim.code]
    exact .start
  | @next v vs y todo t t' o _ hexec ih =>
    cases hy : orig y with
    | none =>
      obtain ⟨-, habs, ho⟩ := hsim.new hy hexec
      simpa [Conf.erase, Visit.keep, List.filterMap_cons_none hy, habs, ho] using ih
    | some x =>
      have hstep := hsim.old hy hexec
      simp only [Conf.erase, List.filterMap_cons_some hy, List.map_cons] at ih
      simpa [Conf.erase, Visit.keep] using ih.next hstep
  | @jump v vs y t t' o b _ hexec ih =>
    cases hy : orig y with
    | none =>
      obtain ⟨he, -⟩ := hsim.new hy hexec
      cases he
    | some x =>
      have hstep := hsim.old hy hexec
      simp only [Conf.erase, List.filterMap_cons_some hy, List.filterMap_nil, List.map_cons] at ih
      simpa [Conf.erase, Visit.keep, hsim.code] using ih.jump hstep
  | @halt v vs y todo t t' o r _ hexec ih =>
    cases hy : orig y with
    | none =>
      obtain ⟨he, -⟩ := hsim.new hy hexec
      cases he
    | some x =>
      have hstep := hsim.old hy hexec
      simp only [Conf.erase, List.filterMap_cons_some hy, List.map_cons] at ih
      simpa [Conf.erase, Visit.keep] using ih.halt hstep

variable (hgo : ∀ {v vs y todo t}, Run exec' entry code' t₀ (v :: vs) (.running (y :: todo) t) → orig y = none →
  ∃ o t', exec' v.block y t o t' .next)
include hgo

/-- A run goes on to the next instruction the smaller program has. -/
theorem Run.advance {x : α} {todo : List α} : ∀ {todo' : List β} {v : Visit ι ω'} {vs : List (Visit ι ω')} {t : τ},
    todo'.filterMap orig = x :: todo → Run exec' entry code' t₀ (v :: vs) (.running todo' t) →
    ∃ o y rest t', Run exec' entry code' t₀ (⟨v.block, v.events ++ o⟩ :: vs) (.running (y :: rest) t') ∧
      orig y = some x ∧ rest.filterMap orig = todo ∧ abs t' = abs t ∧ o.filterMap keep = []
  | [], _, _, _, htodo, _ => by cases htodo
  | y :: rest, v, vs, t, htodo, h => by
    cases hy : orig y with
    | some x' =>
      rw [List.filterMap_cons_some hy] at htodo
      obtain ⟨rfl, rfl⟩ := List.cons.inj htodo
      exact ⟨[], y, rest, t, by rwa [List.append_nil], hy, rfl, rfl, rfl⟩
    | none =>
      rw [List.filterMap_cons_none hy] at htodo
      obtain ⟨o₁, t₁, hexec⟩ := hgo h hy
      obtain ⟨-, habs₁, ho₁⟩ := hsim.new hy hexec
      obtain ⟨o, z, rest', t', hrun, hz, hrest, habs, ho⟩ := Run.advance htodo (h.next hexec)
      refine ⟨o₁ ++ o, z, rest', t', ?_, hz, hrest, habs.trans habs₁, ?_⟩
      · rw [← List.append_assoc]
        exact hrun
      · rw [List.filterMap_append, ho₁, ho, List.nil_append]

/-- The instruction before which the smaller program's run is, and the run there. -/
theorem Run.advance_erase {vs' : List (Visit ι ω')} {c' : Conf β τ ρ} {v : Visit ι ω} {vs : List (Visit ι ω)} {x : α}
    {todo : List α} {s : σ} (h : Run exec' entry code' t₀ vs' c') (hvs : vs'.map (Visit.keep keep) = v :: vs)
    (hc : c'.erase orig abs = .running (x :: todo) s) :
    ∃ w ws y rest t, Run exec' entry code' t₀ (w :: ws) (.running (y :: rest) t) ∧ w.keep keep = v ∧
      ws.map (Visit.keep keep) = vs ∧ orig y = some x ∧ rest.filterMap orig = todo ∧ abs t = s := by
  cases c' with
  | halted => cases hc
  | running todo' t =>
    simp only [Conf.erase, Conf.running.injEq] at hc
    obtain ⟨htodo, rfl⟩ := hc
    obtain ⟨w, ws, rfl, hw, hws⟩ := List.map_eq_cons_iff.1 hvs
    obtain ⟨o, y, rest, t', hrun, hy, hrest, habs, ho⟩ := Run.advance hsim hgo htodo h
    refine ⟨_, _, y, rest, t', hrun, ?_, hws, hy, hrest, habs⟩
    rw [← hw, Visit.keep, Visit.keep, List.filterMap_append, ho, List.append_nil]

/-- Every run of the smaller program is one of the larger. -/
theorem Run.lift {vs : List (Visit ι ω)} {c : Conf α σ ρ} (h : Run exec entry code (abs t₀) vs c) :
    ∃ vs' c', Run exec' entry code' t₀ vs' c' ∧ vs'.map (Visit.keep keep) = vs ∧ c'.erase orig abs = c := by
  induction h with
  | start => exact ⟨_, _, .start, rfl, by rw [Conf.erase, hsim.code]⟩
  | next _ hexec ih =>
    obtain ⟨vs', c', hrun, hvs, hc⟩ := ih
    obtain ⟨w, ws, y, rest, t, hrun, rfl, rfl, hy, rfl, rfl⟩ := Run.advance_erase hsim hgo hrun hvs hc
    obtain ⟨o', t', hexec', rfl, rfl⟩ := hsim.lift hy hexec
    exact ⟨_, _, hrun.next hexec', by simp [Visit.keep], rfl⟩
  | @jump _ _ _ _ _ _ b _ hexec ih =>
    obtain ⟨vs', c', hrun, hvs, hc⟩ := ih
    obtain ⟨w, ws, y, rest, t, hrun, rfl, rfl, hy, hrest, rfl⟩ := Run.advance_erase hsim hgo hrun hvs hc
    obtain ⟨o', t', hexec', rfl, rfl⟩ := hsim.lift hy hexec
    -- Nothing is left behind a block's last instruction.
    have hnil : rest = [] := by
      rcases List.eq_nil_or_concat rest with hnil | ⟨front, z, rfl⟩
      · exact hnil
      · obtain ⟨_, _, pre, hvs, hpre⟩ := hrun.position
        obtain ⟨rfl, rfl⟩ := List.cons.inj hvs
        have hz := hsim.last w.block (pre ++ y :: front) z (by rw [hpre]; simp [Conf.todo])
        simp [Option.eq_none_iff_forall_ne_some] at hrest hz
        exact absurd hrest.2 (by simpa using hz)
    subst hnil
    exact ⟨_, _, hrun.jump hexec', by simp [Visit.keep], by rw [Conf.erase, hsim.code]⟩
  | halt _ hexec ih =>
    obtain ⟨vs', c', hrun, hvs, hc⟩ := ih
    obtain ⟨w, ws, y, rest, t, hrun, rfl, rfl, hy, rfl, rfl⟩ := Run.advance_erase hsim hgo hrun hvs hc
    obtain ⟨o', t', hexec', rfl, rfl⟩ := hsim.lift hy hexec
    exact ⟨_, _, hrun.halt hexec', by simp [Visit.keep], rfl⟩

end

end Machine
