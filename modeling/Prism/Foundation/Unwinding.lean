import Prism.Foundation.Transition

/-! Noninterference by unwinding. An observer sees some of the actions. Runs that take the same
of them give them the same outcomes, whatever else they do in between. -/

namespace Transition

variable {σ α ο : Type*} {step : α → σ → ο × σ} {allowed : α → σ → Prop} {I : σ → Prop}
  {visible : α → Bool} {R : σ → σ → Prop}

/-- `R` relates the states an observer cannot tell apart. A hidden action leads to such a state,
and a visible one answers alike in two of them. -/
structure Unwinding (step : α → σ → ο × σ) (allowed : α → σ → Prop) (I : σ → Prop)
    (visible : α → Bool) (R : σ → σ → Prop) : Prop where
  equivalence : Equivalence R
  invariant : ∀ {s a}, I s → allowed a s → I (step a s).2
  hidden : ∀ {s a}, I s → allowed a s → visible a = false → R (step a s).2 s
  respects : ∀ {s t a}, I s → I t → R s t → allowed a s → allowed a t → visible a = true →
    (step a s).1 = (step a t).1 ∧ R (step a s).2 (step a t).2

/-- The visible actions of a trace, the newest first. -/
def acts (visible : α → Bool) (trace : List (Event σ α ο)) : List α :=
  (trace.map Event.action).filter visible

/-- The visible actions of a trace with their outcomes. -/
def seen (visible : α → Bool) (trace : List (Event σ α ο)) : List (α × ο) :=
  (trace.filter fun e => visible e.action).map fun e => (e.action, e.outcome)

section Cons

variable {trace : List (Event σ α ο)} {e : Event σ α ο}

theorem acts_cons_visible (h : visible e.action = true) :
    acts visible (e :: trace) = e.action :: acts visible trace :=
  List.filter_cons_of_pos h

theorem acts_cons_hidden (h : visible e.action = false) :
    acts visible (e :: trace) = acts visible trace :=
  List.filter_cons_of_neg (Bool.eq_false_iff.mp h)

theorem seen_cons_visible (h : visible e.action = true) :
    seen visible (e :: trace) = (e.action, e.outcome) :: seen visible trace := by
  simp [seen, h]

theorem seen_cons_hidden (h : visible e.action = false) :
    seen visible (e :: trace) = seen visible trace := by
  simp [seen, h]

end Cons

variable {s₀ t₀ s t : σ} {trace trace' : List (Event σ α ο)}

/-- A run without visible actions is not noticed. -/
theorem Unwinding.unnoticed (u : Unwinding step allowed I visible R) (hs : I s₀)
    (h : Exec step allowed s₀ trace s) (hacts : acts visible trace = []) :
    R s s₀ ∧ seen visible trace = [] := by
  induction h with
  | nil => exact ⟨u.equivalence.refl _, rfl⟩
  | @snoc trace s a hexec ha ih =>
      cases hvisible : visible a with
      | true =>
          rw [acts_cons_visible hvisible] at hacts
          cases hacts
      | false =>
          rw [acts_cons_hidden hvisible] at hacts
          obtain ⟨hback, hseen⟩ := ih hacts
          have hinv := hexec.invariant I hs fun _ _ => u.invariant
          exact ⟨u.equivalence.trans (u.hidden hinv ha hvisible) hback,
            (seen_cons_hidden hvisible).trans hseen⟩

/-- The newest visible action of a run, with the run before it. What follows is hidden. -/
theorem Unwinding.newest (u : Unwinding step allowed I visible R) (hs : I s₀)
    (h : Exec step allowed s₀ trace s) {a : α} {rest : List α}
    (hacts : acts visible trace = a :: rest) :
    ∃ earlier mid, Exec step allowed s₀ earlier mid ∧ acts visible earlier = rest ∧
      allowed a mid ∧ R s (step a mid).2 ∧
      seen visible trace = (a, (step a mid).1) :: seen visible earlier := by
  induction h with
  | nil => cases hacts
  | @snoc trace s b hexec hb ih =>
      cases hvisible : visible b with
      | true =>
          rw [acts_cons_visible hvisible] at hacts
          obtain ⟨rfl, hrest⟩ := List.cons.inj hacts
          exact ⟨trace, s, hexec, hrest, hb, u.equivalence.refl _,
            seen_cons_visible hvisible⟩
      | false =>
          rw [acts_cons_hidden hvisible] at hacts
          obtain ⟨earlier, mid, hbefore, hrest, hallowed, hback, hseen⟩ := ih hacts
          have hinv := hexec.invariant I hs fun _ _ => u.invariant
          exact ⟨earlier, mid, hbefore, hrest, hallowed,
            u.equivalence.trans (u.hidden hinv hb hvisible) hback,
            (seen_cons_hidden hvisible).trans hseen⟩

/-- Two runs with the same visible actions show the same outcomes, and end in states the
observer cannot tell apart. -/
theorem Unwinding.secure (u : Unwinding step allowed I visible R) (hs : I s₀) (ht : I t₀)
    (hstart : R s₀ t₀) (h : Exec step allowed s₀ trace s) (h' : Exec step allowed t₀ trace' t)
    (hacts : acts visible trace = acts visible trace') :
    seen visible trace = seen visible trace' ∧ R s t := by
  induction h generalizing trace' t with
  | nil =>
      obtain ⟨hback, hseen⟩ := u.unnoticed ht h' hacts.symm
      exact ⟨hseen.symm, u.equivalence.trans hstart (u.equivalence.symm hback)⟩
  | @snoc trace s a hexec ha ih =>
      have hinv := hexec.invariant I hs fun _ _ => u.invariant
      cases hvisible : visible a with
      | false =>
          rw [acts_cons_hidden hvisible] at hacts
          obtain ⟨hseen, hrel⟩ := ih h' hacts
          exact ⟨(seen_cons_hidden hvisible).trans hseen,
            u.equivalence.trans (u.hidden hinv ha hvisible) hrel⟩
      | true =>
          rw [acts_cons_visible hvisible] at hacts
          obtain ⟨earlier, mid, hbefore, hrest, hallowed, hback, hnewest⟩ :=
            u.newest ht h' hacts.symm
          obtain ⟨hseen, hrel⟩ := ih hbefore hrest.symm
          have hmid := hbefore.invariant I ht fun _ _ => u.invariant
          obtain ⟨hsame, hnext⟩ := u.respects hinv hmid hrel ha hallowed hvisible
          refine ⟨?_, u.equivalence.trans hnext (u.equivalence.symm hback)⟩
          rw [seen_cons_visible hvisible, hnewest, hseen, ← hsame]

end Transition
