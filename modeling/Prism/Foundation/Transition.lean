import Mathlib.Logic.Relation

/-! Guarded executions of a deterministic transition function. An action carries
every choice the environment makes, so arbitrary interleavings are arbitrary
lists of actions. -/

namespace Transition

variable {σ α ο : Type*}

/-- One executed step: the state it started from, its action and its outcome. -/
structure Event (σ α ο : Type*) where
  before : σ
  action : α
  outcome : ο

/-- `Exec step allowed start trace finish` is an execution from `start` to
`finish` all of whose steps are allowed in the state they start from. The trace
lists its events, the newest first. -/
inductive Exec (step : α → σ → ο × σ) (allowed : α → σ → Prop) (start : σ) :
    List (Event σ α ο) → σ → Prop where
  | nil : Exec step allowed start [] start
  | snoc {trace s} (a : α) : Exec step allowed start trace s → allowed a s →
      Exec step allowed start (⟨s, a, (step a s).1⟩ :: trace) (step a s).2

variable {step : α → σ → ο × σ} {allowed : α → σ → Prop} {start : σ}

/-- A property of traces and states that holds initially and is preserved by
every allowed step holds along every execution. -/
theorem Exec.induct (P : List (Event σ α ο) → σ → Prop) (hinit : P [] start)
    (hstep : ∀ trace s a, P trace s → allowed a s →
      P (⟨s, a, (step a s).1⟩ :: trace) (step a s).2)
    {trace s} (h : Exec step allowed start trace s) : P trace s := by
  induction h with
  | nil => exact hinit
  | snoc a _ ha ih => exact hstep _ _ a ih ha

/-- An inductive invariant holds in every state of an execution. -/
theorem Exec.invariant (I : σ → Prop) (hinit : I start)
    (hstep : ∀ s a, I s → allowed a s → I (step a s).2)
    {trace s} (h : Exec step allowed start trace s) : I s :=
  h.induct (fun _ s => I s) hinit (fun _ s a => hstep s a)

/-- A reflexive and transitive relation that contains every step from a state of
the invariant relates the two ends of every execution. -/
theorem Exec.relates (I : σ → Prop) (R : σ → σ → Prop) (hrefl : ∀ s, R s s)
    (htrans : ∀ s t u, R s t → R t u → R s u) (hinit : I start)
    (hinv : ∀ s a, I s → allowed a s → I (step a s).2)
    (hstep : ∀ s a, I s → allowed a s → R s (step a s).2)
    {trace s} (h : Exec step allowed start trace s) : R start s := by
  induction h with
  | nil => exact hrefl start
  | snoc a hs ha ih => exact htrans _ _ _ ih (hstep _ a (hs.invariant I hinit hinv) ha)

theorem Exec.trans {mid : σ} {trace₁ trace₂ s}
    (h₁ : Exec step allowed start trace₁ mid) (h₂ : Exec step allowed mid trace₂ s) :
    Exec step allowed start (trace₂ ++ trace₁) s := by
  induction h₂ with
  | nil => exact h₁
  | snoc a _ ha ih => exact ih.snoc a ha

/-- Weakening the guard keeps an execution. -/
theorem Exec.mono {allowed' : α → σ → Prop} (himp : ∀ a s, allowed a s → allowed' a s)
    {trace s} (h : Exec step allowed start trace s) : Exec step allowed' start trace s := by
  induction h with
  | nil => exact .nil
  | snoc a _ ha ih => exact ih.snoc a (himp _ _ ha)

/-- A trace can be cut anywhere. -/
theorem Exec.cut {later earlier : List (Event σ α ο)} {s : σ}
    (h : Exec step allowed start (later ++ earlier) s) :
    ∃ mid, Exec step allowed start earlier mid ∧ Exec step allowed mid later s := by
  induction later generalizing s with
  | nil => exact ⟨s, h, .nil⟩
  | cons e later ih =>
      cases h with
      | snoc a hs ha =>
          obtain ⟨mid, hearlier, hlater⟩ := ih hs
          exact ⟨mid, hearlier, hlater.snoc a ha⟩

/-- Every event of a trace splits its execution in two. -/
theorem Exec.split {later earlier : List (Event σ α ο)} {e : Event σ α ο} {s : σ}
    (h : Exec step allowed start (later ++ e :: earlier) s) :
    Exec step allowed start earlier e.before ∧ allowed e.action e.before ∧
      e.outcome = (step e.action e.before).1 ∧
      Exec step allowed (step e.action e.before).2 later s := by
  induction later generalizing s with
  | nil =>
      cases h with
      | snoc a hs ha => exact ⟨hs, ha, rfl, .nil⟩
  | cons e' later ih =>
      cases h with
      | snoc a hs ha =>
          obtain ⟨hbefore, hallowed, hout, hlater⟩ := ih hs
          exact ⟨hbefore, hallowed, hout, hlater.snoc a ha⟩

/-- An event of a trace is a step from a state the execution passed. -/
theorem Exec.passed {trace : List (Event σ α ο)} {s : σ} (h : Exec step allowed start trace s)
    {e : Event σ α ο} (he : e ∈ trace) :
    (∃ earlier, Exec step allowed start earlier e.before) ∧ allowed e.action e.before ∧
      e.outcome = (step e.action e.before).1 := by
  obtain ⟨later, earlier, rfl⟩ := List.append_of_mem he
  obtain ⟨hbefore, hallowed, hout, -⟩ := h.split
  exact ⟨⟨earlier, hbefore⟩, hallowed, hout⟩

/-- The state a list of actions, oldest first, leads to. -/
def run (step : α → σ → ο × σ) (s : σ) : List α → σ
  | [] => s
  | a :: actions => run step (step a s).2 actions

/-- Its trace, the newest event first. -/
def events (step : α → σ → ο × σ) (s : σ) : List α → List (Event σ α ο)
  | [] => []
  | a :: actions => events step (step a s).2 actions ++ [⟨s, a, (step a s).1⟩]

/-- The events of a computed run carry its actions. -/
theorem map_action_events {s : σ} {actions : List α} :
    (events step s actions).map Event.action = actions.reverse := by
  induction actions generalizing s with
  | nil => rfl
  | cons a actions ih => rw [events, List.map_append, ih, List.reverse_cons]; rfl

theorem mem_events {s : σ} {actions : List α} {e : Event σ α ο}
    (h : e ∈ events step s actions) : e.action ∈ actions := by
  have haction := List.mem_map_of_mem (f := Event.action) h
  rwa [map_action_events, List.mem_reverse] at haction

/-- Whether every action of a list is allowed where it is taken. -/
def permitted (step : α → σ → ο × σ) (allowed : α → σ → Prop) [∀ a s, Decidable (allowed a s)]
    (s : σ) : List α → Bool
  | [] => true
  | a :: actions => decide (allowed a s) && permitted step allowed (step a s).2 actions

/-- A computed run is an execution when it is permitted. -/
theorem exec_run [∀ a s, Decidable (allowed a s)] (s : σ) (actions : List α)
    (h : permitted step allowed s actions = true) :
    Exec step allowed s (events step s actions) (run step s actions) := by
  induction actions generalizing s with
  | nil => exact .nil
  | cons a actions ih =>
      simp only [permitted, Bool.and_eq_true, decide_eq_true_eq] at h
      exact (Exec.nil.snoc a h.1).trans (ih (step a s).2 h.2)

end Transition
