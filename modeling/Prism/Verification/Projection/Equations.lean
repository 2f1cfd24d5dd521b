import Prism.Model.PathObservations
import Prism.Verification.Semantics.Refinement

/-! What a projection says of the meaning of a module, and the expressions it leaves to the
interpreter. -/

namespace Prism.PathObservations

open Python

/-! ## Results of a projection -/

/-- A projection that gives up says nothing. -/
def Sound {α : Type} (P : α → Prop) (r : Projected α) (o : Python.Outcome α) : Prop :=
  ∀ p v p', r p = .ok (v, p') → o = pure v ∧ P v

section Rules

variable {α β : Type} {P : α → Prop} {Q : β → Prop} {r : Projected α} {o : Python.Outcome α}

theorem Sound.pure {v : α} (h : P v) : Sound P (Pure.pure v) (Pure.pure v) := by
  rintro p w p' hok
  obtain ⟨rfl, -⟩ := Prod.mk.inj (Except.ok.inj hok)
  exact ⟨rfl, h⟩

@[simp] theorem sound_unsupported (o : Python.Outcome α) : Sound P unsupported o :=
  fun _ _ _ hok => nomatch hok

theorem bind_eq_ok {f : α → Projected β} {p p' : Progress} {w : β}
    (h : (r >>= f) p = .ok (w, p')) : ∃ v p₁, r p = .ok (v, p₁) ∧ f v p₁ = .ok (w, p') := by
  cases hr : r p with
  | error e =>
      have : (r >>= f) p = .error e := by
        change (r p >>= fun a => f a.1 a.2) = _
        rw [hr]
        rfl
      rw [this] at h
      cases h
  | ok a =>
      have : (r >>= f) p = f a.1 a.2 := by
        change (r p >>= fun a => f a.1 a.2) = _
        rw [hr]
        rfl
      exact ⟨a.1, a.2, rfl, this ▸ h⟩

theorem Sound.bind {f : α → Projected β} {g : α → Python.Outcome β} (h : Sound P r o)
    (hf : ∀ v, P v → Sound Q (f v) (g v)) : Sound Q (r >>= f) (o >>= g) := by
  intro p w p' hok
  obtain ⟨v, p₁, hr, hok⟩ := bind_eq_ok hok
  obtain ⟨rfl, hv⟩ := h p v p₁ hr
  exact hf v hv p₁ w p' hok

/-- A part of a projection that the meaning has no part for. -/
theorem Sound.given {f : α → Projected β} {o : Python.Outcome β}
    (hf : ∀ p v p', r p = .ok (v, p') → Sound Q (f v) o) : Sound Q (r >>= f) o := by
  intro p w p' hok
  obtain ⟨v, p₁, hr, hok⟩ := bind_eq_ok hok
  exact hf p v p₁ hr p₁ w p' hok

theorem Sound.after {f : α → Projected β} {o : Python.Outcome β} (hf : ∀ v, Sound Q (f v) o) :
    Sound Q (r >>= f) o :=
  .given fun _ v _ _ => hf v

end Rules

/-! ## Values that are no ranges -/

/-- A value without ranges, which the interpreter confuses with lists, also where a dictionary
gives its values. -/
inductive Whole : Value → Prop where
  | none : Whole .none
  | bool (b : Bool) : Whole (.bool b)
  | int (n : ℤ) : Whole (.int n)
  | str (s : Str) : Whole (.str s)
  | list (vs : List Value) : Whole (.list vs)
  | dict {items : List (Str × Value)} (h : ∀ m ∈ items, Whole m.2) : Whole (.dict items)

theorem Whole.eq_of_reads {v w : Value} (hw : Whole w) (h : v = Semantics.listed w) : v = w := by
  cases hw <;> exact h

/-- An expression the projection leaves to the interpreter, and that is no call of `range`. -/
def isLeaf : Expr → Bool
  | .boolOp _ _ _ => false
  | .call _ (.name id _) _ _ => builtin? id ≠ some .range
  | _ => true

theorem pure_inj {α : Type} {v w : α} (h : (pure v : Python.Outcome α) = pure w) : v = w :=
  Except.ok.inj (Option.some.inj h)

theorem outcome_bind_eq_pure {α β : Type} {o : Python.Outcome α} {g : α → Python.Outcome β} {w : β}
    (h : (o >>= g) = pure w) : ∃ v, o = pure v ∧ g v = pure w := by
  match o with
  | none => cases h
  | some (.error e) => cases h
  | some (.ok v) => exact ⟨v, rfl, h⟩

section Evaluation

variable {σ : Bindings}

theorem negative_whole {v w : Value} (h : negative v = pure w) : Whole w := by
  unfold negative at h
  split at h
  · exact pure_inj h ▸ .int _
  · cases h

theorem arithmetic_whole {op : Operator} {v v' w : Value} (h : arithmetic op v v' = pure w) :
    Whole w := by
  unfold arithmetic at h
  split at h
  · cases op with
    | other => cases h
    | _ => exact pure_inj h ▸ .int _
  · split at h
    · exact pure_inj h ▸ .str _
    · exact pure_inj h ▸ .list _
    all_goals cases h

theorem valueOf_whole {c : Constant} {w : Value} (h : valueOf c = pure w) : Whole w := by
  cases c with
  | none => exact pure_inj h ▸ .none
  | bool b => exact pure_inj h ▸ .bool b
  | int n => exact pure_inj h ▸ .int n
  | str s => exact pure_inj h ▸ .str s
  | other => cases h

/-- Of the builtin functions only `range` returns a range. -/
theorem callBuiltin_whole {f : Builtin} {args : List Value} {w : Value} (hf : f ≠ .range)
    (h : callBuiltin f args = pure w) : Whole w := by
  unfold callBuiltin at h
  cases f with
  | range => exact absurd rfl hf
  | list =>
      dsimp only at h
      split at h
      · exact pure_inj h ▸ .list _
      · obtain ⟨vs, -, h⟩ := outcome_bind_eq_pure h
        exact pure_inj h ▸ .list vs
      · cases h
  | len =>
      dsimp only at h
      split at h
      · obtain ⟨n, -, h⟩ := outcome_bind_eq_pure h
        exact pure_inj h ▸ .int n
      · cases h
  | min | max =>
      dsimp only at h
      split at h
      · exact pure_inj h ▸ .int _
      · cases h

theorem builtinOf_eq_some {func : Expr} {f : Builtin} (h : builtinOf σ func = some f) :
    ∃ id store, func = .name id store ∧ builtin? id = some f := by
  cases func with
  | name id store =>
      simp only [builtinOf] at h
      split at h
      · cases h
      · exact ⟨id, store, rfl, h⟩
  | _ => simp [builtinOf] at h

theorem evaluate_whole (hσ : ∀ id v, σ.lookup id = some v → Whole v) {node : Expr}
    (hnode : isLeaf node = true) {w : Value} (h : evaluate σ node = pure w) : Whole w := by
  cases node with
  | constant c => exact valueOf_whole (by simpa only [evaluate] using h)
  | name id store =>
      simp only [evaluate, lookupName] at h
      split at h
      · next v hv =>
        exact pure_inj h ▸ hσ id v hv
      · cases h
  | unaryOp op operand =>
      cases op with
      | usub =>
          simp only [evaluate] at h
          obtain ⟨v, -, h⟩ := outcome_bind_eq_pure h
          exact negative_whole h
      | other =>
          simp only [evaluate] at h
          cases h
  | boolOp or first rest => cases hnode
  | binOp left op right =>
      simp only [evaluate] at h
      obtain ⟨v, -, h⟩ := outcome_bind_eq_pure h
      obtain ⟨v', -, h⟩ := outcome_bind_eq_pure h
      exact arithmetic_whole h
  | call span func args keywords =>
      cases keywords with
      | nil =>
          simp only [evaluate] at h
          split at h
          · next f hf =>
            obtain ⟨vs, -, h⟩ := outcome_bind_eq_pure h
            refine callBuiltin_whole ?_ h
            rintro rfl
            obtain ⟨id, store, rfl, hid⟩ := builtinOf_eq_some hf
            simp [isLeaf, hid] at hnode
          · cases h
      | cons k rest =>
          simp only [evaluate] at h
          cases h
  | _ =>
      simp only [evaluate] at h
      cases h

/-! ## Evaluation in a module -/

section Module

variable {call : Callee} {scope : Scope}

/-- No name of a builtin function is taken. -/
def Unshadowed (scope : Scope) : Prop :=
  ∀ id f, builtin? id = some f → id ∉ scope.locals ∧ id ∉ scope.functions

theorem target?_builtin (h : Unshadowed scope) {id : Name} {f : Builtin}
    (hid : builtin? id = some f) : target? scope id = some (.builtin f) := by
  obtain ⟨hlocal, hfunction⟩ := h id f hid
  simp [target?, hlocal, hfunction, hid]

mutual

/-- What depends on nothing but names keeps its value in a module. -/
theorem evaluateIn_evaluate (hscope : Unshadowed scope) (node : Expr) {w : Value}
    (h : evaluate σ node = pure w) : evaluateIn call scope σ node = pure w := by
  match node with
  | .constant c => simpa only [evaluate, evaluateIn] using h
  | .name id _ => simpa only [evaluate, evaluateIn] using h
  | .unaryOp .usub operand =>
    simp only [evaluate] at h
    obtain ⟨v, hv, h⟩ := outcome_bind_eq_pure h
    rw [evaluateIn, evaluateIn_evaluate hscope operand hv]
    exact h
  | .boolOp or first rest =>
    simp only [evaluate] at h
    obtain ⟨v, hv, h⟩ := outcome_bind_eq_pure h
    rw [evaluateIn, evaluateIn_evaluate hscope first hv]
    exact evaluateRestIn_evaluateRest hscope rest h
  | .binOp left op right =>
    simp only [evaluate] at h
    obtain ⟨v, hv, h⟩ := outcome_bind_eq_pure h
    obtain ⟨v', hv', h⟩ := outcome_bind_eq_pure h
    rw [evaluateIn, evaluateIn_evaluate hscope left hv]
    simp only [pure_bind, evaluateIn_evaluate hscope right hv']
    exact h
  | .call _ func args [] =>
    simp only [evaluate] at h
    split at h
    · next f hf =>
      obtain ⟨vs, hvs, h⟩ := outcome_bind_eq_pure h
      obtain ⟨id, store, rfl, hid⟩ := builtinOf_eq_some hf
      simp only [evaluateIn, evaluateAllIn_evaluateAll hscope args hvs, pure_bind,
        evaluateKeywordsIn, target?_builtin hscope hid, callTarget]
      exact h
    · cases h
  | .unaryOp .other _ | .call _ _ _ (_ :: _) | .compare .. | .attribute .. | .subscript .. | .dict _
  | .list _ | .tuple _ | .namedExpr .. | .other .. =>
    simp only [evaluate] at h
    cases h

theorem evaluateRestIn_evaluateRest (hscope : Unshadowed scope) {or : Bool} {v : Value}
    (rest : List Expr) {w : Value} (h : evaluateRest σ or v rest = pure w) :
    evaluateRestIn call scope σ or v rest = pure w := by
  match rest with
  | [] => simpa only [evaluateRest, evaluateRestIn] using h
  | e :: es =>
    simp only [evaluateRest] at h
    rw [evaluateRestIn]
    split_ifs at h ⊢
    · exact h
    · obtain ⟨v', hv', h⟩ := outcome_bind_eq_pure h
      rw [evaluateIn_evaluate hscope e hv']
      exact evaluateRestIn_evaluateRest hscope es h

theorem evaluateAllIn_evaluateAll (hscope : Unshadowed scope) (es : List Expr) {ws : List Value}
    (h : evaluateAll σ es = pure ws) : evaluateAllIn call scope σ es = pure ws := by
  match es with
  | [] => simpa only [evaluateAll, evaluateAllIn] using h
  | e :: es =>
    simp only [evaluateAll] at h
    obtain ⟨v, hv, h⟩ := outcome_bind_eq_pure h
    obtain ⟨vs, hvs, h⟩ := outcome_bind_eq_pure h
    rw [evaluateAllIn, evaluateIn_evaluate hscope e hv, evaluateAllIn_evaluateAll hscope es hvs]
    exact h

end

end Module

end Evaluation

end Prism.PathObservations
