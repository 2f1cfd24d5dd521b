import Prism.Model.Semantics

/-! The interpreter against the meaning of the expressions it reads: a value it returns is the
value of the expression, a range standing as the list of its elements. -/

namespace Prism.Semantics

open Python
open Python.Value (number? rangeItems rangeLength)

/-! ## What a reading says of an evaluation -/

/-- A reading that gives up says nothing, and neither does the number of items of a range that
cannot be counted. -/
def Agrees {α β : Type} (R : α → β → Prop) : Except Failure α → Python.Outcome β → Prop
  | .ok v, o => ∃ w, o = pure w ∧ R v w
  | .error .unsupported, _ => True
  | .error (.raised e), o => e = .overflowError ∨ o = raises e

section Rules

variable {α β γ δ : Type} {R : α → β → Prop} {S : γ → δ → Prop}

theorem Agrees.pure {v : α} {w : β} (h : R v w) : Agrees R (Pure.pure v) (Pure.pure w) :=
  ⟨w, rfl, h⟩

@[simp] theorem agrees_unsupported (o : Python.Outcome β) : Agrees R unsupported o :=
  trivial

theorem Agrees.bind {r : Except Failure α} {o : Python.Outcome β} {f : α → Except Failure γ}
    {g : β → Python.Outcome δ} (h : Agrees R r o) (hf : ∀ v w, R v w → Agrees S (f v) (g w)) :
    Agrees S (r >>= f) (o >>= g) := by
  match r, h with
  | .ok v, h =>
    obtain ⟨w, rfl, hw⟩ := h
    exact hf v w hw
  | .error .unsupported, _ => trivial
  | .error (.raised e), h =>
    rcases h with h | rfl
    · exact .inl h
    · exact .inr rfl

end Rules

/-! ## Values -/

/-- A value with the list of its elements in the place of a range. -/
def listed : Value → Value
  | .range start stop step => .list ((rangeItems start stop step).map .int)
  | v => v

/-- A range has no more items than can be counted. -/
def Countable : Value → Prop
  | .range start stop step => rangeLength start stop step ≤ maxSize
  | _ => True

structure Reads (v w : Value) : Prop where
  listed : v = listed w
  countable : Countable w

@[simp] theorem length_rangeItems (start stop step : ℤ) :
    (rangeItems start stop step).length = rangeLength start stop step := by
  simp [rangeItems]

namespace Reads

variable {v w : Value} {n : ℤ} {s : Str} {items : List Value}

theorem int_iff : Reads (.int n) w ↔ w = .int n := by
  constructor
  · intro h
    have := h.listed
    cases w <;> simp_all [Semantics.listed]
  · rintro rfl
    exact ⟨rfl, trivial⟩

theorem eq_str (h : Reads (.str s) w) : w = .str s := by
  have := h.listed
  cases w <;> simp_all [Semantics.listed]

/-- A list is read from a list or from a range. -/
theorem list_cases (h : Reads (.list items) w) :
    w = .list items ∨ ∃ start stop step, w = .range start stop step ∧
      items = (rangeItems start stop step).map .int ∧ rangeLength start stop step ≤ maxSize := by
  have hlisted := h.listed
  have hcountable := h.countable
  cases w with
  | list items' => simp_all [Semantics.listed]
  | range start stop step => exact .inr ⟨start, stop, step, rfl, by simpa [Semantics.listed] using
      hlisted, hcountable⟩
  | _ => simp [Semantics.listed] at hlisted

theorem truthy (h : Reads v w) : v.truthy = w.truthy := by
  rw [h.listed]
  cases w with
  | range start stop step =>
    simp only [Semantics.listed, Value.truthy, ← length_rangeItems]
    cases rangeItems start stop step <;> simp
  | _ => rfl

theorem self (h : ∀ start stop step, v ≠ .range start stop step) : Reads v v := by
  cases v with
  | range start stop step => exact absurd rfl (h start stop step)
  | _ => exact ⟨rfl, trivial⟩

end Reads

/-- Integers are read from integers. -/
theorem integers_reads {vs ws : List Value} (h : List.Forall₂ Reads vs ws) {ns : List ℤ}
    (hns : integers vs = some ns) : integers ws = some ns ∧ ws.mapM number? = some ns := by
  induction h generalizing ns with
  | nil => simpa [integers] using hns
  | @cons v w vs ws hv _ ih =>
    match v, hv, hns with
    | .int n, hv, hns =>
      obtain ⟨ns', hns', rfl⟩ := Option.map_eq_some_iff.mp hns
      obtain ⟨hint, hnum⟩ := ih hns'
      rw [Reads.int_iff.mp hv]
      exact ⟨by simp [integers, hint], by simp [number?, hnum]⟩

/-! ## The steps of the interpreter -/

theorem readConstant_agrees (c : Constant) : Agrees Reads (readConstant c) (valueOf c) := by
  cases c with
  | none => exact .pure ⟨rfl, trivial⟩
  | bool b => exact .pure ⟨rfl, trivial⟩
  | int n =>
    simp only [readConstant, boundedInt]
    split
    · exact agrees_unsupported _
    · exact .pure ⟨rfl, trivial⟩
  | str s =>
    simp only [readConstant]
    split
    · exact agrees_unsupported _
    · exact .pure ⟨rfl, trivial⟩
  | other => exact agrees_unsupported _

theorem negate_agrees {v w : Value} (h : Reads v w) : Agrees Reads (negate v) (negative w) := by
  cases v with
  | int n =>
    rw [Reads.int_iff.mp h]
    exact .pure ⟨rfl, trivial⟩
  | _ => exact agrees_unsupported _

theorem readBinary_agrees {op : Operator} {f : ℤ → ℤ → ℤ} (hop : operators op = some f)
    {v v' w w' : Value} (h : Reads v w) (h' : Reads v' w') :
    Agrees Reads (readBinary f v v') (arithmetic op w w') := by
  match v, v', h, h' with
  | .int a, .int b, h, h' =>
    rw [Reads.int_iff.mp h, Reads.int_iff.mp h', readBinary, boundedInt]
    have harith : arithmetic op (.int a) (.int b) = pure (.int (f a b)) := by
      cases op <;> cases hop <;> rfl
    rw [harith]
    split
    · exact agrees_unsupported _
    · exact .pure ⟨rfl, trivial⟩
  | .int _, .none, _, _ | .int _, .bool _, _, _ | .int _, .str _, _, _ | .int _, .list _, _, _
  | .int _, .range _ _ _, _, _ | .int _, .dict _, _, _ => exact agrees_unsupported _
  | .none, _, _, _ | .bool _, _, _, _ | .str _, _, _, _ | .list _, _, _, _
  | .range _ _ _, _, _, _ | .dict _, _, _, _ => exact agrees_unsupported _

theorem readRange_agrees (start stop step : ℤ) :
    Agrees Reads (readRange start stop step) (rangeOf start stop step) := by
  unfold readRange rangeOf
  by_cases hstep : step = 0
  · rw [if_pos hstep, if_pos hstep]
    exact .inr rfl
  · rw [if_neg hstep, if_neg hstep]
    split
    · exact .inl rfl
    · next hmax =>
      split
      · exact agrees_unsupported _
      · exact .pure ⟨rfl, not_lt.mp hmax⟩

theorem readCall_agrees (f : Builtin) {vs ws : List Value} (h : List.Forall₂ Reads vs ws) :
    Agrees Reads (readCall f vs) (callBuiltin f ws) := by
  cases f with
  | range =>
    simp only [readCall, callBuiltin]
    split
    · next hns =>
      rw [(integers_reads h hns).2]
      exact readRange_agrees ..
    · next hns =>
      rw [(integers_reads h hns).2]
      exact readRange_agrees ..
    · next hns =>
      rw [(integers_reads h hns).2]
      exact readRange_agrees ..
    · exact agrees_unsupported _
  | list =>
    simp only [readCall]
    split
    · next items =>
      obtain ⟨w, _, hw, hnil, rfl⟩ := List.forall₂_cons_left_iff.mp h
      cases hnil
      rcases hw.list_cases with rfl | ⟨start, stop, step, rfl, rfl, hmax⟩
      · exact .pure ⟨rfl, trivial⟩
      · refine ⟨.list ((rangeItems start stop step).map .int), ?_, rfl, trivial⟩
        simp only [callBuiltin, elements, counted, if_pos hmax]
        rfl
    · exact agrees_unsupported _
  | len =>
    simp only [readCall]
    split
    · next s =>
      obtain ⟨w, _, hw, hnil, rfl⟩ := List.forall₂_cons_left_iff.mp h
      cases hnil
      rw [hw.eq_str]
      exact .pure ⟨rfl, trivial⟩
    · next items =>
      obtain ⟨w, _, hw, hnil, rfl⟩ := List.forall₂_cons_left_iff.mp h
      cases hnil
      rcases hw.list_cases with rfl | ⟨start, stop, step, rfl, rfl, hmax⟩
      · exact .pure ⟨rfl, trivial⟩
      · refine ⟨.int (rangeLength start stop step), ?_, by simp [listed], trivial⟩
        simp only [callBuiltin, lengthOf, counted, if_pos hmax]
        rfl
    · exact agrees_unsupported _
  | min =>
    simp only [readCall, callBuiltin]
    split
    · next hns =>
      rw [(integers_reads h hns).1]
      exact .pure ⟨rfl, trivial⟩
    · exact agrees_unsupported _
  | max =>
    simp only [readCall, callBuiltin]
    split
    · next hns =>
      rw [(integers_reads h hns).1]
      exact .pure ⟨rfl, trivial⟩
    · exact agrees_unsupported _

/-! ## Expressions -/

/-- The names of the builtin functions denote them, and no name is bound to a range. -/
structure Admissible (σ : Bindings) : Prop where
  builtin : ∀ id f, builtin? id = some f → σ.lookup id = none
  value : ∀ id start stop step, σ.lookup id ≠ some (.range start stop step)

theorem builtinOf_called {σ : Bindings} (hσ : Admissible σ) {func : Expr} {f : Builtin}
    (h : called func = some f) : builtinOf σ func = some f := by
  cases func with
  | name id store =>
    have hid : builtin? id = some f := h
    simp [builtinOf, hσ.builtin id f hid, hid]
  | _ => simp [called] at h

mutual

theorem interpret_agrees {σ : Bindings} (hσ : Admissible σ) (depth : ℕ) (node : Expr) :
    Agrees Reads (interpret σ depth node) (evaluate σ node) := by
  unfold interpret
  split
  · exact agrees_unsupported _
  · match node with
    | .constant value => exact readConstant_agrees value
    | .name id store =>
      simp only [evaluate, lookupName]
      cases hid : σ.lookup id with
      | none => exact agrees_unsupported _
      | some v => exact .pure (.self fun start stop step hv => hσ.value id start stop step (hv ▸ hid))
    | .unaryOp .usub operand =>
      exact (interpret_agrees hσ (depth + 1) operand).bind fun _ _ h => negate_agrees h
    | .unaryOp .other _ => exact agrees_unsupported _
    | .boolOp or first rest =>
      exact (interpret_agrees hσ (depth + 1) first).bind fun _ _ h =>
        interpretRest_agrees hσ (depth + 1) or h rest
    | .binOp left op right =>
      dsimp only
      split
      · next f hop =>
        exact (interpret_agrees hσ (depth + 1) left).bind fun _ _ hv =>
          (interpret_agrees hσ (depth + 1) right).bind fun _ _ hv' =>
            readBinary_agrees hop hv hv'
      · exact agrees_unsupported _
    | .call span func args [] =>
      dsimp only
      split
      · next f hf =>
        split
        · exact agrees_unsupported _
        · rw [evaluate, builtinOf_called hσ hf]
          exact (interpretAll_agrees hσ (depth + 1) args).bind fun _ _ h => readCall_agrees f h
      · exact agrees_unsupported _
    | .call _ _ _ (_ :: _) | .compare .. | .attribute .. | .subscript .. | .dict _ | .list _
    | .tuple _ | .namedExpr .. | .other .. => exact agrees_unsupported _

theorem interpretRest_agrees {σ : Bindings} (hσ : Admissible σ) (depth : ℕ) (or : Bool)
    {v w : Value} (h : Reads v w) (rest : List Expr) :
    Agrees Reads (interpretRest σ depth or v rest) (evaluateRest σ or w rest) := by
  match rest with
  | [] => exact .pure h
  | e :: es =>
    simp only [interpretRest, evaluateRest, h.truthy]
    split
    · exact .pure h
    · exact (interpret_agrees hσ depth e).bind fun _ _ h => interpretRest_agrees hσ depth or h es

theorem interpretAll_agrees {σ : Bindings} (hσ : Admissible σ) (depth : ℕ) (es : List Expr) :
    Agrees (List.Forall₂ Reads) (interpretAll σ depth es) (evaluateAll σ es) := by
  match es with
  | [] => exact .pure .nil
  | e :: es =>
    exact (interpret_agrees hσ depth e).bind fun _ _ hv =>
      (interpretAll_agrees hσ depth es).bind fun _ _ hvs => .pure (.cons hv hvs)

end

theorem interpret_value {σ : Bindings} (hσ : Admissible σ) {depth : ℕ} {node : Expr} {v : Value}
    (h : interpret σ depth node = .ok v) : ∃ w, evaluate σ node = pure w ∧ v = listed w := by
  have hagrees := interpret_agrees hσ depth node
  rw [h] at hagrees
  obtain ⟨w, hw, hv⟩ := hagrees
  exact ⟨w, hw, hv.listed⟩

theorem observation_exception {σ : Bindings} (hσ : Admissible σ) {node : Expr} {e : Exn}
    (h : observation node σ = .ok (.exception e)) : evaluate σ node = raises e := by
  have hagrees := interpret_agrees hσ 0 node
  unfold observation at h
  split at h
  · cases h
  · cases h
  · cases h
  · next e' hne hread =>
    cases h
    rw [hread] at hagrees
    exact hagrees.resolve_left (fun he => hne (he ▸ rfl))

end Prism.Semantics
