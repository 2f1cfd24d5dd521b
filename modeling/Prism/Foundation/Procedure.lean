import Mathlib.Data.Nat.Notation

/-! Procedures over a state that can raise. What a procedure did before it raised stays
done, as in an imperative language without transactions. A contract speaks of both ends. -/

/-- A statement: the state it leaves, and its value or what it raised. -/
def Procedure (σ ε α : Type) := σ → Except ε α × σ

namespace Procedure

variable {σ ε α β : Type}

instance : Monad (Procedure σ ε) where
  pure a := fun s => (.ok a, s)
  bind m f := fun s =>
    match m s with
    | (.ok a, s) => f a s
    | (.error e, s) => (.error e, s)

def raise (e : ε) : Procedure σ ε α :=
  fun s => (.error e, s)

/-- A given result. -/
def give (r : Except ε α) : Procedure σ ε α :=
  fun s => (r, s)

def read (f : σ → α) : Procedure σ ε α :=
  fun s => (.ok (f s), s)

def write (f : σ → σ) : Procedure σ ε Unit :=
  fun s => (.ok (), f s)

/-- `if not p: raise e`. -/
def assert (p : Prop) [Decidable p] (e : ε) : Procedure σ ε Unit :=
  if p then pure () else raise e

/-- `try: body`, `except Exception as e: handler(e)`. -/
def attempt (body : Procedure σ ε α) (handler : ε → Procedure σ ε α) : Procedure σ ε α :=
  fun s =>
    match body s with
    | (.ok a, s) => (.ok a, s)
    | (.error e, s) => handler e s

/-- `try: body`, `finally: cleanup`. What the cleanup raises replaces the rest. -/
def ensure (body : Procedure σ ε α) (cleanup : Procedure σ ε Unit) : Procedure σ ε α :=
  fun s =>
    match body s with
    | (r, s) =>
      match cleanup s with
      | (.ok _, s) => (r, s)
      | (.error e, s) => (.error e, s)

/-- From a state in `P`, a procedure returns in `Q` or raises in `E`. -/
structure Meets (P : σ → Prop) (m : Procedure σ ε α) (Q : α → σ → Prop) (E : ε → σ → Prop) :
    Prop where
  holds : ∀ s, P s → match m s with
    | (.ok a, s') => Q a s'
    | (.error e, s') => E e s'

section Rules

variable {P I : σ → Prop} {Q J : α → σ → Prop} {E F : ε → σ → Prop}
  {m body : Procedure σ ε α}

theorem meets_pure {a : α} (h : ∀ s, P s → Q a s) : Meets P (pure a : Procedure σ ε α) Q E :=
  ⟨h⟩

theorem meets_raise {e : ε} (h : ∀ s, P s → E e s) : Meets P (raise e : Procedure σ ε α) Q E :=
  ⟨h⟩

theorem meets_give {r : Except ε α} (hok : ∀ a s, P s → Q a s) (herror : ∀ e s, P s → E e s) :
    Meets P (give r) Q E := by
  refine ⟨fun s hs => ?_⟩
  cases r with
  | ok a => exact hok a s hs
  | error e => exact herror e s hs

theorem meets_read {f : σ → α} (h : ∀ s, P s → Q (f s) s) :
    Meets P (read f : Procedure σ ε α) Q E :=
  ⟨h⟩

theorem meets_write {f : σ → σ} {Q : Unit → σ → Prop} (h : ∀ s, P s → Q () (f s)) :
    Meets P (write f : Procedure σ ε Unit) Q E :=
  ⟨h⟩

theorem meets_assert {p : Prop} [Decidable p] {e : ε} {Q : Unit → σ → Prop}
    (htrue : ∀ s, p → P s → Q () s) (hfalse : ∀ s, ¬ p → P s → E e s) :
    Meets P (assert p e : Procedure σ ε Unit) Q E := by
  refine ⟨fun s hs => ?_⟩
  unfold assert
  by_cases hp : p
  · rw [if_pos hp]
    exact htrue s hp hs
  · rw [if_neg hp]
    exact hfalse s hp hs

theorem Meets.bind {f : α → Procedure σ ε β} {R : α → σ → Prop} {Q : β → σ → Prop}
    (hm : Meets P m R E) (hf : ∀ a, Meets (R a) (f a) Q E) : Meets P (m >>= f) Q E := by
  refine ⟨fun s hs => ?_⟩
  have hfirst := hm.holds s hs
  change match (match m s with
    | (.ok a, s) => f a s
    | (.error e, s) => (.error e, s)) with
    | (.ok b, s') => Q b s'
    | (.error e, s') => E e s'
  generalize m s = r at hfirst ⊢
  obtain ⟨_ | a, s'⟩ := r
  · exact hfirst
  · exact (hf a).holds s' hfirst

theorem Meets.weaken (h : Meets I m J F) (hP : ∀ s, P s → I s)
    (hQ : ∀ a s, J a s → Q a s) (hE : ∀ e s, F e s → E e s) : Meets P m Q E := by
  refine ⟨fun s hs => ?_⟩
  have := h.holds s (hP s hs)
  generalize m s = r at this ⊢
  obtain ⟨_ | a, s'⟩ := r
  · exact hE _ s' this
  · exact hQ a s' this

/-- A first part that raises in a stronger condition. -/
theorem Meets.andThen {f : α → Procedure σ ε β} {R : α → σ → Prop} {Q : β → σ → Prop}
    (hm : Meets P m R F) (hE : ∀ e s, F e s → E e s) (hf : ∀ a, Meets (R a) (f a) Q E) :
    Meets P (m >>= f) Q E :=
  Meets.bind (hm.weaken (fun _ h => h) (fun _ _ h => h) hE) hf

theorem Meets.before (h : Meets I m Q E) (hP : ∀ s, P s → I s) : Meets P m Q E :=
  h.weaken hP (fun _ _ h => h) fun _ _ h => h

/-- A fact of the precondition that does not speak of the state. -/
theorem Meets.given {p : Prop} (h : p → Meets P m Q E) : Meets (fun s => P s ∧ p) m Q E :=
  ⟨fun s hs => (h hs.2).holds s hs.1⟩

theorem Meets.attempt {handler : ε → Procedure σ ε α} (hbody : Meets P body Q F)
    (hhandler : ∀ e, Meets (F e) (handler e) Q E) : Meets P (attempt body handler) Q E := by
  refine ⟨fun s hs => ?_⟩
  have hfirst := hbody.holds s hs
  unfold Procedure.attempt
  generalize body s = r at hfirst ⊢
  obtain ⟨e | a, s'⟩ := r
  · exact (hhandler e).holds s' hfirst
  · exact hfirst

theorem Meets.ensure {cleanup : Procedure σ ε Unit} (hbody : Meets P body J F)
    (hok : ∀ a, Meets (J a) cleanup (fun _ => Q a) E)
    (herror : ∀ e, Meets (F e) cleanup (fun _ => E e) E) :
    Meets P (ensure body cleanup) Q E := by
  refine ⟨fun s hs => ?_⟩
  have hfirst := hbody.holds s hs
  unfold Procedure.ensure
  generalize body s = r at hfirst ⊢
  obtain ⟨e | a, s'⟩ := r
  · have hlast := (herror e).holds s' hfirst
    simp only
    generalize cleanup s' = r' at hlast ⊢
    obtain ⟨e' | u, s''⟩ := r'
    · exact hlast
    · exact hlast
  · have hlast := (hok a).holds s' hfirst
    simp only
    generalize cleanup s' = r' at hlast ⊢
    obtain ⟨e' | u, s''⟩ := r'
    · exact hlast
    · exact hlast

end Rules

end Procedure
