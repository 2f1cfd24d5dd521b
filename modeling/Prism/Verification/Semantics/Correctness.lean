import Prism.Foundation.JsonRoundTrip
import Prism.Verification.Semantics.Refinement

/-! The check of a repair: what it takes for the same text is the same value. -/

namespace Prism.Semantics

open Python

/-! ## Values of samples -/

/-- A value without structure, or a list of integers. -/
inductive Flat : Value → Prop where
  | none : Flat .none
  | bool (b : Bool) : Flat (.bool b)
  | int (n : ℤ) : Flat (.int n)
  | str (s : Str) : Flat (.str s)
  | list (ns : List ℤ) : Flat (.list (ns.map .int))

/-- Every value a reading returns is in `P`. -/
def Returns {α : Type} (P : α → Prop) (r : Except Failure α) : Prop :=
  ∀ v, r = .ok v → P v

section Rules

variable {α β : Type} {P : α → Prop} {Q : β → Prop}

theorem Returns.pure {v : α} (h : P v) : Returns P (Pure.pure v : Except Failure α) := by
  rintro _ ⟨⟩
  exact h

@[simp] theorem returns_unsupported : Returns P unsupported := by
  rintro _ ⟨⟩

theorem Returns.bind {r : Except Failure α} {f : α → Except Failure β} (h : Returns P r)
    (hf : ∀ v, P v → Returns Q (f v)) : Returns Q (r >>= f) := by
  cases r with
  | ok v => exact hf v (h v rfl)
  | error e => rintro _ ⟨⟩

end Rules

theorem boundedInt_flat (n : ℤ) : Returns Flat (boundedInt n) := by
  unfold boundedInt
  split
  · exact returns_unsupported
  · exact .pure (.int n)

theorem readConstant_flat (c : Constant) : Returns Flat (readConstant c) := by
  cases c with
  | none => exact .pure .none
  | bool b => exact .pure (.bool b)
  | int n => exact boundedInt_flat n
  | str s =>
    simp only [readConstant]
    split
    · exact returns_unsupported
    · exact .pure (.str s)
  | other => exact returns_unsupported

theorem negate_flat (v : Value) : Returns Flat (negate v) := by
  cases v with
  | int n => exact .pure (.int (-n))
  | _ => exact returns_unsupported

theorem readBinary_flat (f : ℤ → ℤ → ℤ) (v w : Value) : Returns Flat (readBinary f v w) := by
  unfold readBinary
  split
  · exact boundedInt_flat _
  · exact returns_unsupported

theorem readRange_flat (start stop step : ℤ) : Returns Flat (readRange start stop step) := by
  unfold readRange
  split
  · rintro _ ⟨⟩
  split
  · rintro _ ⟨⟩
  split
  · exact returns_unsupported
  · exact .pure (.list _)

theorem readCall_flat (f : Builtin) {vs : List Value} (h : ∀ v ∈ vs, Flat v) :
    Returns Flat (readCall f vs) := by
  cases f with
  | range =>
    simp only [readCall]
    split
    · exact readRange_flat _ _ _
    · exact readRange_flat _ _ _
    · exact readRange_flat _ _ _
    · exact returns_unsupported
  | list =>
    simp only [readCall]
    split
    · exact .pure (h _ (List.mem_singleton_self _))
    · exact returns_unsupported
  | len =>
    simp only [readCall]
    split
    · exact .pure (.int _)
    · exact .pure (.int _)
    · exact returns_unsupported
  | min =>
    simp only [readCall]
    split
    · exact .pure (.int _)
    · exact returns_unsupported
  | max =>
    simp only [readCall]
    split
    · exact .pure (.int _)
    · exact returns_unsupported

mutual

theorem interpret_flat {σ : Bindings} (hσ : ∀ id v, σ.lookup id = some v → Flat v) (depth : ℕ)
    (node : Expr) : Returns Flat (interpret σ depth node) := by
  unfold interpret
  split
  · exact returns_unsupported
  · match node with
    | .constant value => exact readConstant_flat value
    | .name id store =>
      dsimp only
      split
      · next hid => exact .pure (hσ id _ hid)
      · exact returns_unsupported
    | .unaryOp .usub operand =>
      exact (interpret_flat hσ (depth + 1) operand).bind fun v _ => negate_flat v
    | .unaryOp .other _ => exact returns_unsupported
    | .boolOp or first rest =>
      exact (interpret_flat hσ (depth + 1) first).bind fun _ h =>
        interpretRest_flat hσ (depth + 1) or h rest
    | .binOp left op right =>
      dsimp only
      split
      · exact (interpret_flat hσ (depth + 1) left).bind fun _ _ =>
          (interpret_flat hσ (depth + 1) right).bind fun _ _ => readBinary_flat _ _ _
      · exact returns_unsupported
    | .call span func args [] =>
      dsimp only
      split
      · next f _ =>
        split
        · exact returns_unsupported
        · exact (interpretAll_flat hσ (depth + 1) args).bind fun _ h => readCall_flat f h
      · exact returns_unsupported
    | .call _ _ _ (_ :: _) | .compare .. | .attribute .. | .subscript .. | .dict _ | .list _
    | .tuple _ | .namedExpr .. | .other .. => exact returns_unsupported

theorem interpretRest_flat {σ : Bindings} (hσ : ∀ id v, σ.lookup id = some v → Flat v) (depth : ℕ)
    (or : Bool) {v : Value} (h : Flat v) (rest : List Expr) :
    Returns Flat (interpretRest σ depth or v rest) := by
  match rest with
  | [] => exact .pure h
  | e :: es =>
    rw [interpretRest]
    split
    · exact .pure h
    · exact (interpret_flat hσ depth e).bind fun _ h => interpretRest_flat hσ depth or h es

theorem interpretAll_flat {σ : Bindings} (hσ : ∀ id v, σ.lookup id = some v → Flat v) (depth : ℕ)
    (es : List Expr) : Returns (fun vs => ∀ v ∈ vs, Flat v) (interpretAll σ depth es) := by
  match es with
  | [] => exact .pure (by simp)
  | e :: es =>
    exact (interpret_flat hσ depth e).bind fun _ hv =>
      (interpretAll_flat hσ depth es).bind fun _ hvs => .pure (List.forall_mem_cons.mpr ⟨hv, hvs⟩)

end

/-! ## Texts -/

/-- The unit at the head of an escaped text, and what follows it. -/
def readUnit : List Char → Option (ℕ × List Char)
  | '\\' :: 'u' :: s => Json.readHex s
  | '\\' :: letter :: s =>
    ([('"', 0x22), ('\\', 0x5c), ('n', 0x0a), ('r', 0x0d), ('t', 0x09), ('f', 0x0c),
      ('b', 0x08)].lookup letter).map (·, s)
  | c :: s => some (c.toNat, s)
  | [] => none

theorem readHex_hex {n : ℕ} (h : n < 0x10000) (s : List Char) :
    Json.readHex (hex n ++ s) = some (n, s) := by
  have hdigit : ∀ m, m < 16 → Json.hexValue (Nat.digitChar m) = some m := Json.hexValue_digitChar
  simp only [hex, List.map_cons, List.map_nil, List.cons_append, List.nil_append, Json.readHex,
    hdigit (n / 0x1000) (by omega), hdigit (n / 0x100 % 0x10) (by omega),
    hdigit (n / 0x10 % 0x10) (by omega), hdigit (n % 0x10) (by omega), Option.bind_eq_bind,
    Option.bind_some, Option.pure_def, Option.some.injEq, Prod.mk.injEq, and_true]
  omega

theorem toNat_ofNat_ascii : ∀ n < 0x7f, (Char.ofNat n).toNat = n := by
  decide

theorem readUnit_plain {c : Char} (h : c ≠ '\\') (s : List Char) :
    readUnit (c :: s) = some (c.toNat, s) := by
  unfold readUnit
  split
  · next heq => exact absurd (List.cons.inj heq).1 h
  · next heq => exact absurd (List.cons.inj heq).1 h
  · next heq =>
    cases heq
    rfl
  · next heq => cases heq

theorem readUnit_escapeUnit {c : CodePoint} (h : c.val < 0x10000) (s : List Char) :
    readUnit (escapeUnit c ++ s) = some (c.val, s) := by
  unfold escapeUnit
  split
  · next letter hletter =>
    obtain ⟨before, after, htable, -⟩ := List.lookup_eq_some_iff.mp hletter
    have hmem : (c.val, letter) ∈ before ++ (c.val, letter) :: after := by simp
    rw [← htable] at hmem
    generalize c.val = n at hmem ⊢
    simp only [List.mem_cons, Prod.mk.injEq, List.not_mem_nil, or_false] at hmem
    rcases hmem with ⟨rfl, rfl⟩ | ⟨rfl, rfl⟩ | ⟨rfl, rfl⟩ | ⟨rfl, rfl⟩ | ⟨rfl, rfl⟩ |
      ⟨rfl, rfl⟩ | ⟨rfl, rfl⟩ <;> rfl
  · next hnone =>
    split
    · next hprint =>
      have hvalid := toNat_ofNat_ascii c.val (by omega)
      have hne : Char.ofNat c.val ≠ '\\' := by
        intro heq
        rw [heq] at hvalid
        rw [← hvalid] at hnone
        exact absurd hnone (by decide)
      rw [List.singleton_append, readUnit_plain hne, hvalid]
    · exact readHex_hex h s

theorem escapeUnit_head (c : CodePoint) (s : List Char) :
    (escapeUnit c ++ s).head? ≠ some '"' := by
  unfold escapeUnit
  split
  · simp
  · next hnone =>
    split
    · next hprint =>
      intro heq
      have hvalid := toNat_ofNat_ascii c.val (by omega)
      rw [show Char.ofNat c.val = '"' by simpa using heq] at hvalid
      rw [← hvalid] at hnone
      exact absurd hnone (by decide)
    · simp

/-- The units of a string can be read off its text. -/
theorem escapeUnit_injective {us vs : List CodePoint} {s t : List Char}
    (hus : ∀ c ∈ us, c.val < 0x10000) (hvs : ∀ c ∈ vs, c.val < 0x10000)
    (h : us.flatMap escapeUnit ++ '"' :: s = vs.flatMap escapeUnit ++ '"' :: t) : us = vs := by
  induction us generalizing vs with
  | nil =>
    cases vs with
    | nil => rfl
    | cons d vs =>
      rw [List.flatMap_cons, List.append_assoc] at h
      exact absurd (congrArg List.head? h.symm) (escapeUnit_head d _)
  | cons c us ih =>
    cases vs with
    | nil =>
      rw [List.flatMap_cons, List.append_assoc] at h
      exact absurd (congrArg List.head? h) (escapeUnit_head c _)
    | cons d vs =>
      rw [List.flatMap_cons, List.flatMap_cons, List.append_assoc, List.append_assoc] at h
      have hread := congrArg readUnit h
      rw [readUnit_escapeUnit (hus c (List.mem_cons_self ..)),
        readUnit_escapeUnit (hvs d (List.mem_cons_self ..))] at hread
      obtain ⟨hcd, hrest⟩ := Prod.mk.inj (Option.some.inj hread)
      rw [Fin.ext hcd, ih (fun c hc => hus c (List.mem_cons_of_mem _ hc))
        (fun c hc => hvs c (List.mem_cons_of_mem _ hc)) hrest]

theorem units_lt {c d : CodePoint} (h : d ∈ units c) : d.val < 0x10000 := by
  have := c.isLt
  unfold units at h
  split at h
  · next hc =>
    rw [List.mem_singleton] at h
    exact h ▸ hc
  · rcases List.mem_pair.mp h with rfl | rfl
    · show 0xd800 + (c.val - 0x10000) / 0x400 < 0x10000
      omega
    · show 0xdc00 + (c.val - 0x10000) % 0x400 < 0x10000
      omega

theorem quote_injective {s t : Str} (h : quote s = quote t) :
    s.flatMap units = t.flatMap units := by
  have hlt (s : Str) : ∀ c ∈ s.flatMap units, c.val < 0x10000 := by
    intro c hc
    obtain ⟨_, _, hc⟩ := List.mem_flatMap.mp hc
    exact units_lt hc
  exact escapeUnit_injective (hlt s) (hlt t) (List.cons.inj h).2

/-! ## Same text, same value -/

/-- A value with its string in units of UTF-16. -/
def inUnits : Value → Value
  | .str s => .str (s.flatMap units)
  | v => v

/-- The value of JSON for a flat value that is no string. -/
inductive Denotes : Value → Json → Prop where
  | none : Denotes .none .null
  | bool (b : Bool) : Denotes (.bool b) (.bool b)
  | int (n : ℤ) : Denotes (.int n) (.int n)
  | list (ns : List ℤ) : Denotes (.list (ns.map .int)) (.arr (ns.map .int))

theorem Flat.cases_str {v : Value} (h : Flat v) : (∃ s, v = .str s) ∨ ∃ j, Denotes v j := by
  cases h with
  | none => exact .inr ⟨_, .none⟩
  | bool b => exact .inr ⟨_, .bool b⟩
  | int n => exact .inr ⟨_, .int n⟩
  | str s => exact .inl ⟨s, rfl⟩
  | list ns => exact .inr ⟨_, .list ns⟩

theorem Denotes.unique {v w : Value} {j : Json} (hv : Denotes v j) (hw : Denotes w j) : v = w := by
  cases hv with
  | none => cases hw; rfl
  | bool b => cases hw; rfl
  | int n => cases hw; rfl
  | list ns =>
    generalize hj : Json.arr (ns.map .int) = j at hw
    cases hw with
    | list ns' =>
      rw [List.map_injective_iff.mpr (fun _ _ h => Json.int.inj h) (Json.arr.inj hj)]
    | _ => cases hj

theorem Denotes.wellFormed {v : Value} {j : Json} (h : Denotes v j) : Json.WellFormed j := by
  cases h with
  | none => exact .null
  | bool b => exact .bool b
  | int n => exact .int n
  | list ns =>
    refine .arr fun j hj => ?_
    obtain ⟨n, _, rfl⟩ := List.mem_map.mp hj
    exact .int n

theorem dumpsItems_ints (ns : List ℤ) :
    dumpsItems (ns.map .int) = .ok (ns.map Json.printInt) := by
  induction ns with
  | nil => rfl
  | cons n ns ih =>
    rw [List.map_cons, dumpsItems, ih]
    rfl

theorem joined_ints (n : ℤ) (ns : List ℤ) :
    joined ((n :: ns).map Json.printInt) ++ [']'] =
      Json.printInt n ++ Json.printItems Json.spaced (ns.map .int) := by
  induction ns generalizing n with
  | nil => rfl
  | cons m ns ih =>
    have hprint : Json.printItems Json.spaced ((m :: ns).map .int) =
        ", ".toList ++ (Json.printInt m ++ Json.printItems Json.spaced (ns.map .int)) := by
      rw [List.map_cons, Json.printItems, Json.print, List.append_assoc]
      rfl
    rw [hprint, ← ih m]
    simp [joined]

/-- The text of such a value is that of its value of JSON. -/
theorem Denotes.dumps {v : Value} {j : Json} (h : Denotes v j) :
    dumps v = .ok (Json.print Json.spaced j) := by
  cases h with
  | none => rfl
  | bool b => cases b <;> rfl
  | int n => rfl
  | list ns =>
    rw [Semantics.dumps, dumpsItems_ints]
    cases ns with
    | nil => rfl
    | cons n ns =>
      exact congrArg (fun text => Except.ok ('[' :: text)) (joined_ints n ns)

theorem Denotes.head {v : Value} {j : Json} (h : Denotes v j) :
    (Json.print Json.spaced j).head? ≠ some '"' := by
  cases h with
  | none => decide
  | bool b => cases b <;> decide
  | int n =>
    intro hhead
    have hmem : '"' ∈ Json.printInt n := List.mem_of_mem_head? hhead
    exact absurd (Json.isNumberChar_printInt n '"' hmem) (by decide)
  | list ns => cases ns <;> simp [Json.print]

/-- Flat values with one text are the same, but for what stands for a scalar value in their
strings. -/
theorem dumps_injective {v w : Value} (hv : Flat v) (hw : Flat w) (h : dumps v = dumps w) :
    inUnits v = inUnits w := by
  rcases hv.cases_str with ⟨s, rfl⟩ | ⟨j, hj⟩ <;> rcases hw.cases_str with ⟨t, rfl⟩ | ⟨k, hk⟩
  · exact congrArg Value.str (quote_injective (Except.ok.inj h))
  · rw [hk.dumps] at h
    exact absurd (by rw [← Except.ok.inj h]; rfl) hk.head
  · rw [hj.dumps] at h
    exact absurd (by rw [Except.ok.inj h]; rfl) hj.head
  · rw [hj.dumps, hk.dumps] at h
    have hload := congrArg Json.loads (Except.ok.inj h)
    rw [Json.loads_print Json.readable_spaced hj.wellFormed,
      Json.loads_print Json.readable_spaced hk.wellFormed] at hload
    rw [hj.unique (Option.some.inj hload ▸ hk)]

/-! ## Samples -/

theorem mem_product {values : List Value} {n : ℕ} {vs : List Value} (h : vs ∈ product values n) :
    ∀ v ∈ vs, v ∈ values := by
  induction n generalizing vs with
  | zero => simp [List.mem_singleton.mp h]
  | succ n ih =>
    obtain ⟨v, hv, hvs⟩ := List.mem_flatMap.mp h
    obtain ⟨vs', hvs', rfl⟩ := List.mem_map.mp hvs
    exact List.forall_mem_cons.mpr ⟨hv, ih hvs'⟩

theorem flat_sampleValues {v : Value} (h : v ∈ sampleValues) : Flat v := by
  simp only [sampleValues, List.mem_cons, List.not_mem_nil, or_false] at h
  rcases h with rfl | rfl | rfl | rfl | rfl | rfl | rfl
  all_goals constructor

theorem builtin?_names {node : Expr} {id : Name} (h : id ∈ names node) : builtin? id = none := by
  rw [names, List.mem_mergeSort, List.mem_filter] at h
  exact Option.isNone_iff_eq_none.mp h.2

theorem lookup_samples {node : Expr} {σ : Bindings} (hσ : σ ∈ samples node) {id : Name} {v : Value}
    (h : σ.lookup id = some v) : id ∈ names node ∧ v ∈ sampleValues := by
  unfold samples at hσ
  split at hσ
  · cases hσ
  · obtain ⟨vs, hvs, rfl⟩ := List.mem_map.mp (List.mem_of_mem_take hσ)
    obtain ⟨before, after, heq, -⟩ := List.lookup_eq_some_iff.mp h
    have hmem : (id, v) ∈ (names node).zip vs := heq ▸ by simp
    exact ⟨(List.of_mem_zip hmem).1, mem_product hvs v (List.of_mem_zip hmem).2⟩

theorem admissible_samples {node : Expr} {σ : Bindings} (hσ : σ ∈ samples node) : Admissible σ where
  builtin id f hf := by
    cases h : σ.lookup id with
    | none => rfl
    | some v =>
      rw [builtin?_names (lookup_samples hσ h).1] at hf
      cases hf
  value id start stop step h := by
    cases flat_sampleValues (lookup_samples hσ h).2

/-! ## The check -/

theorem forall₂_mapM {ε α β : Type} {f : α → Except ε β} {l : List α} {r : List β}
    (h : l.mapM f = .ok r) : List.Forall₂ (fun a b => f a = .ok b) l r := by
  induction l generalizing r with
  | nil =>
    cases h
    exact .nil
  | cons a l ih =>
    rw [List.mapM_cons] at h
    cases ha : f a with
    | error e => simp [ha, bind, Except.bind] at h
    | ok b =>
      cases hl : l.mapM f with
      | error e => simp [ha, hl, bind, Except.bind] at h
      | ok bs =>
        rw [ha, hl] at h
        cases h
        exact .cons ha (ih hl)

/-- Whether a sample counts. -/
def countedAt (before after : Expr) (σ : Bindings) : Bool :=
  match compareAt before after σ with
  | .ok c => c.counted
  | .error _ => false

theorem observation_value {σ : Bindings} {node : Expr} {v : Value}
    (h : observation node σ = .ok (.value v)) : interpret σ 0 node = .ok v := by
  unfold observation at h
  split at h
  · next hread =>
    cases h
    exact hread
  all_goals cases h

/-- Two observations with one text, of which one is a value, are both values. -/
theorem dumpsObservation_eq {v : Value} {o : Observation} {text : List Char}
    (hv : dumpsObservation (.value v) = .ok text) (ho : dumpsObservation o = .ok text) :
    o = .unknown ∨ ∃ w, o = .value w ∧ dumps v = dumps w := by
  cases hdumps : dumps v with
  | error e => simp [dumpsObservation, hdumps, bind, Except.bind] at hv
  | ok t =>
    simp only [dumpsObservation, hdumps] at hv
    cases o with
    | unknown => exact .inl rfl
    | value w =>
      cases hw : dumps w with
      | error e => simp [dumpsObservation, hw, bind, Except.bind] at ho
      | ok t' =>
        simp only [dumpsObservation, hw] at ho
        have heq := Except.ok.inj (hv.trans ho.symm)
        rw [List.append_assoc, List.append_assoc] at heq
        exact .inr ⟨w, rfl, by rw [hw, List.append_cancel_right (List.append_cancel_left heq)]⟩
    | exception e =>
      rw [← ho] at hv
      cases e
      all_goals exact absurd (congrArg (List.take 3) (Except.ok.inj hv)) (by simp)

/-- A sample that counts and is not among the counterexamples. -/
theorem compareAt_same {before after : Expr} {σ : Bindings} {c : Comparison}
    (h : compareAt before after σ = .ok c) (hcounted : c.counted = true)
    (hchange : c.change? = none) : ∃ v w, interpret σ 0 before = .ok v ∧
      interpret σ 0 after = .ok w ∧ dumps v = dumps w := by
  unfold compareAt at h
  cases hold : observation before σ with
  | error e => simp [hold, bind, Except.bind] at h
  | ok old =>
    cases hnew : observation after σ with
    | error e => simp [hold, hnew, bind, Except.bind] at h
    | ok new =>
      simp only [hold, hnew, bind, Except.bind] at h
      split at h
      · cases h
        cases hcounted
      · cases h
        cases hcounted
      · cases h
        cases hcounted
      · next v hunknown =>
        cases hv : dumpsObservation (.value v) with
        | error e => simp [hv] at h
        | ok t =>
          cases ho : dumpsObservation new with
          | error e => simp [hv, ho] at h
          | ok t' =>
            simp only [hv, ho] at h
            split at h
            · next heq =>
              rcases dumpsObservation_eq hv (heq ▸ ho) with hnot | ⟨w, rfl, hdumps⟩
              · exact absurd hnot hunknown
              · exact ⟨v, w, observation_value hold, observation_value hnew, hdumps⟩
            · cases h
              cases hchange

theorem verdict_preserves {compared : List Comparison}
    (h : (verdict compared).status = .preservesSamples) :
    (∀ c ∈ compared, c.change? = none) ∧ 0 < (verdict compared).samples := by
  unfold verdict at h ⊢
  dsimp only at h ⊢
  split at h
  · next hempty =>
    split at h
    · cases h
    · next hchecked =>
      refine ⟨fun c hc => ?_, Nat.pos_of_ne_zero hchecked⟩
      rw [List.isEmpty_iff, List.filterMap_eq_nil_iff] at hempty
      exact hempty c hc
  · cases h

/-- What a repair that passed was compared on, and that nothing told its sides apart. -/
theorem repairCheck_cases {ast : List Char → Option Expr} {repair : Option OutputSchema.ExpressionRepair}
    {file : Policy.File} {check : RepairCheck} (h : repairCheck ast repair file = .ok check)
    (hstatus : check.status = .preservesSamples) : ∃ r before after compared, repair = some r ∧
      parse ast r.before.1 = some before ∧ parse ast r.after.1 = some after ∧
      List.Forall₂ (fun σ c => compareAt before after σ = .ok c) (samples before) compared ∧
      check = verdict compared := by
  unfold repairCheck at h
  split at h
  · cases h
    cases hstatus
  next r =>
  split at h
  · cases h
    cases hstatus
  split at h
  · cases h
    cases hstatus
  split at h
  · cases h
    cases hstatus
  split at h
  · next before after hbefore hafter =>
    cases hcompared : (samples before).mapM (compareAt before after) with
    | error e => simp [hcompared, bind, Except.bind] at h
    | ok compared =>
      rw [hcompared] at h
      cases h
      exact ⟨r, before, after, compared, rfl, hbefore, hafter, forall₂_mapM hcompared, rfl⟩
  · cases h
    cases hstatus

theorem countP_counted {before after : Expr} {l : List Bindings} {compared : List Comparison}
    (h : List.Forall₂ (fun σ c => compareAt before after σ = .ok c) l compared) :
    (compared.filter Comparison.counted).length = l.countP (countedAt before after) := by
  induction h with
  | nil => rfl
  | @cons σ c l compared hc _ ih =>
    have hcounted : countedAt before after σ = c.counted := by simp [countedAt, hc]
    rw [List.countP_cons, List.filter_cons, hcounted]
    split <;> simp [ih]

theorem exists_compared {before after : Expr} {l : List Bindings} {compared : List Comparison}
    (h : List.Forall₂ (fun σ c => compareAt before after σ = .ok c) l compared) {σ : Bindings}
    (hσ : σ ∈ l) : ∃ c ∈ compared, compareAt before after σ = .ok c := by
  induction h with
  | nil => cases hσ
  | @cons σ' c l compared hc _ ih =>
    rcases List.mem_cons.mp hσ with rfl | hσ
    · exact ⟨c, List.mem_cons_self .., hc⟩
    · obtain ⟨c', hc', hcompare⟩ := ih hσ
      exact ⟨c', List.mem_cons_of_mem _ hc', hcompare⟩

/-- A value the interpreter returns is Python's, a range standing as the list of its elements,
and so is an exception that is observed. A repair that preserves the samples has, at each one
that counts, the value of what it replaces. -/
theorem interpreter_sound :
    (∀ (σ : Bindings) (depth : ℕ) (node : Expr), Admissible σ →
      (∀ v, interpret σ depth node = .ok v → ∃ w, evaluate σ node = pure w ∧ v = listed w) ∧
        ∀ e, observation node σ = .ok (.exception e) → evaluate σ node = raises e) ∧
      ∀ (ast : List Char → Option Expr) (repair : Option OutputSchema.ExpressionRepair)
        (file : Policy.File) (check : RepairCheck), repairCheck ast repair file = .ok check →
        check.status = .preservesSamples → ∃ r before after, repair = some r ∧
          parse ast r.before.1 = some before ∧ parse ast r.after.1 = some after ∧
          0 < check.samples ∧
          check.samples = (samples before).countP (countedAt before after) ∧
          ∀ σ ∈ samples before, countedAt before after σ = true → ∃ w w',
            evaluate σ before = pure w ∧ evaluate σ after = pure w' ∧
              inUnits (listed w) = inUnits (listed w') := by
  constructor
  · intro σ depth node hσ
    exact ⟨fun v hv => interpret_value hσ hv, fun e he => observation_exception hσ he⟩
  · intro ast repair file check h hstatus
    obtain ⟨r, before, after, compared, hr, hbefore, hafter, hall, rfl⟩ :=
      repairCheck_cases h hstatus
    obtain ⟨hsame, hpos⟩ := verdict_preserves hstatus
    refine ⟨r, before, after, hr, hbefore, hafter, hpos, countP_counted hall, fun σ hσ hcounted => ?_⟩
    obtain ⟨c, hc, hcompare⟩ := exists_compared hall hσ
    have hcounts : c.counted = true := by simpa [countedAt, hcompare] using hcounted
    obtain ⟨v, v', hv, hv', hdumps⟩ := compareAt_same hcompare hcounts (hsame c hc)
    have hflat : ∀ id u, σ.lookup id = some u → Flat u := fun _ _ hu =>
      flat_sampleValues (lookup_samples hσ hu).2
    have heq := dumps_injective (interpret_flat hflat 0 before v hv)
      (interpret_flat hflat 0 after v' hv') hdumps
    obtain ⟨w, hw, rfl⟩ := interpret_value (admissible_samples hσ) hv
    obtain ⟨w', hw', rfl⟩ := interpret_value (admissible_samples hσ) hv'
    exact ⟨w, w', hw, hw', heq⟩

section Representations

/-- `range(3)` -/
def rangeCall : Expr :=
  .call ⟨1, 1⟩ (.name "range".toList false) [.constant (.int 3)] []

/-- `list(range(3))` -/
def listCall : Expr :=
  .call ⟨1, 1⟩ (.name "list".toList false) [rangeCall] []

/-- A string of one scalar value beyond 16 bits. -/
def oneScalar : Expr :=
  .constant (.str [0x1f600])

/-- The same as two surrogates. -/
def twoSurrogates : Expr :=
  .constant (.str [0xd83d, 0xde00])

def trees (text : List Char) : Option Expr :=
  [("range(3)".toList, rangeCall), ("list(range(3))".toList, listCall),
    ("'😀'".toList, oneScalar), ("'\\ud83d\\ude00'".toList, twoSurrogates)].lookup text

def rangeRepair : OutputSchema.ExpressionRepair where
  line := ⟨2, by decide⟩
  before := ⟨"range(3)".toList, by decide⟩
  after := ⟨"list(range(3))".toList, by decide⟩

def surrogateRepair : OutputSchema.ExpressionRepair where
  line := ⟨3, by decide⟩
  before := ⟨"'😀'".toList, by decide⟩
  after := ⟨"'\\ud83d\\ude00'".toList, by decide⟩

def repairedFile : Policy.File where
  fileId := "f1".toList
  language := "py".toList
  role := .changed
  lines := [⟨1, "def f():".toList, true⟩, ⟨2, "    return range(3)".toList, true⟩,
    ⟨3, "    return '😀'".toList, true⟩]

theorem samples_of_names {node : Expr}
    (h : ((node.nodes.filterMap nameOf).dedup.filter fun id => (builtin? id).isNone) = []) :
    samples node = [[]] := by
  have hnames : names node = [] := by rw [names, h, List.mergeSort_nil]
  simp [samples, hnames, product]

theorem rangeRepair_passes :
    repairCheck trees (some rangeRepair) repairedFile = .ok (verdict [.same]) := by
  have hrow : repairedFile.lines.find? (fun r => r.line = rangeRepair.line.1) =
      some ⟨2, "    return range(3)".toList, true⟩ := rfl
  have hstrip : Text.strip "    return range(3)".toList =
      "return ".toList ++ Text.strip rangeRepair.before.1 := by decide +kernel
  have hbefore : parse trees rangeRepair.before.1 = some rangeCall := rfl
  have hafter : parse trees rangeRepair.after.1 = some listCall := rfl
  have hsamples : samples rangeCall = [[]] := samples_of_names (by decide)
  simp only [repairCheck, hrow, hstrip, hbefore, hafter, hsamples]
  rfl

theorem surrogateRepair_passes :
    repairCheck trees (some surrogateRepair) repairedFile = .ok (verdict [.same]) := by
  have hrow : repairedFile.lines.find? (fun r => r.line = surrogateRepair.line.1) =
      some ⟨3, "    return '😀'".toList, true⟩ := rfl
  have hstrip : Text.strip "    return '😀'".toList =
      "return ".toList ++ Text.strip surrogateRepair.before.1 := by decide +kernel
  have hbefore : parse trees surrogateRepair.before.1 = some oneScalar := rfl
  have hafter : parse trees surrogateRepair.after.1 = some twoSurrogates := rfl
  have hsamples : samples oneScalar = [[]] := samples_of_names (by decide)
  simp only [repairCheck, hrow, hstrip, hbefore, hafter, hsamples]
  rfl

/-- A range is read as a list, and two surrogates have the text of one scalar value: repairs
that turn the one into the other pass. -/
theorem representations_confused :
    (interpret [] 0 rangeCall = .ok (.list [.int 0, .int 1, .int 2]) ∧
      evaluate [] rangeCall = pure (.range 0 3 1)) ∧
      (∃ check, repairCheck trees (some rangeRepair) repairedFile = .ok check ∧
        check.status = .preservesSamples ∧ check.samples = 1 ∧
        evaluate [] listCall = pure (.list [.int 0, .int 1, .int 2])) ∧
      ∃ check, repairCheck trees (some surrogateRepair) repairedFile = .ok check ∧
        check.status = .preservesSamples ∧ check.samples = 1 ∧
        evaluate [] oneScalar = pure (.str [0x1f600]) ∧
        evaluate [] twoSurrogates = pure (.str [0xd83d, 0xde00]) :=
  ⟨⟨rfl, rfl⟩, ⟨_, rangeRepair_passes, rfl, rfl, rfl⟩, _, surrogateRepair_passes, rfl, rfl, rfl,
    rfl⟩

end Representations

end Prism.Semantics
