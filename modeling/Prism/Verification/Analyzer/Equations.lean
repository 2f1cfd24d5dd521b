import Prism.Model.Analyzer

/-! What `evaluate_additional` does to the lists of rules: each of its checks either
withdraws one rule or reports that rule and no other. -/

namespace Prism.Analyzer

open Pipeline

/-- The root of a file is no place for a report. -/
def Inner (c : Cursor) : Prop :=
  c.type ∉ ["module", "program"]

/-- One check: its rule is withdrawn for the whole file, or reported at some nodes. -/
inductive Settles (nodes : List Cursor) (rule : String) (out : Additional) : Additional → Prop where
  | withdrawn : rule ∈ out.evaluated → Settles nodes rule out
      ⟨out.evaluated.erase rule, out.notEvaluated ++ [rule], out.emitted⟩
  | reported (places : List Cursor) : (∀ c ∈ places, c ∈ nodes ∧ Inner c) → Settles nodes rule out
      ⟨out.evaluated, out.notEvaluated, out.emitted ++ places.map fun c => (rule, c)⟩

/-- The checks of a list of rules, one after the other. -/
inductive Settled (nodes : List Cursor) : List String → Additional → Additional → Prop where
  | nil (out : Additional) : Settled nodes [] out out
  | cons {rule rules out mid out'} : Settles nodes rule out mid → Settled nodes rules mid out' →
      Settled nodes (rule :: rules) out out'

/-- The rules `evaluate_additional` settles, besides the nesting. -/
def settledRules (language : Language) : List String :=
  (targets language).map Prod.snd ++ if language = .python then ["PY-008"] else []

section Checks

variable {language : Language} {nodes : List Cursor} {out out' : Additional} {rule : String}

theorem withdraw_eq_some :
    out.withdraw rule = some out' ↔ rule ∈ out.evaluated ∧
      out' = ⟨out.evaluated.erase rule, out.notEvaluated ++ [rule], out.emitted⟩ := by
  unfold Additional.withdraw
  split
  · rename_i h
    simp [h, eq_comm]
  · rename_i h
    simp [h]

theorem inner_of_calls {name : String} {c : Cursor}
    (h : calls name (allowedFor language name) c = true) : Inner c := by
  have hallowed : ∀ t ∈ ["call", "call_expression", "new_expression"],
      t ∉ ["module", "program"] := by decide
  refine hallowed _ ?_
  simp only [calls, Bool.and_eq_true, decide_eq_true_eq] at h
  have hmem := h.1
  unfold allowedFor at hmem
  split at hmem
  · simp_all
  · split at hmem <;> simp_all

theorem checkTarget_settles {target : String × String}
    (h : checkTarget language nodes out target = some out') :
    Settles nodes target.2 out out' := by
  simp only [checkTarget] at h
  split at h
  · obtain ⟨hmem, rfl⟩ := withdraw_eq_some.mp h
    exact .withdrawn hmem
  · obtain rfl := Option.some.inj h
    refine .reported _ fun c hc => ?_
    obtain ⟨hc, hcalls⟩ := List.mem_filter.mp hc
    exact ⟨hc, inner_of_calls hcalls⟩

theorem checkTarget_isSome {target : String × String} (h : target.2 ∈ out.evaluated) :
    (checkTarget language nodes out target).isSome = true := by
  simp only [checkTarget]
  split
  · simp [Additional.withdraw, h]
  · rfl

theorem mem_of_mapM {f : Cursor → Option Bool} {l : List Cursor} {pairs : List (Cursor × Bool)}
    (h : l.mapM (fun c => (f c).map fun b => (c, b)) = some pairs) {c : Cursor} {b : Bool}
    (hpair : (c, b) ∈ pairs) : c ∈ l ∧ f c = some b := by
  induction l generalizing pairs with
  | nil =>
      obtain rfl := Option.some.inj h
      simp at hpair
  | cons d l ih =>
      simp only [List.mapM_cons, Option.bind_eq_bind, Option.bind_eq_some_iff,
        Option.map_eq_some_iff] at h
      obtain ⟨pair, ⟨b', hb', rfl⟩, rest, hrest, h⟩ := h
      obtain rfl := Option.some.inj h
      rcases List.mem_cons.mp hpair with heq | hpair
      · obtain ⟨rfl, rfl⟩ := Prod.mk.inj heq
        exact ⟨List.mem_cons_self .., hb'⟩
      · obtain ⟨hmem, hf⟩ := ih hrest hpair
        exact ⟨List.mem_cons_of_mem _ hmem, hf⟩

theorem inner_of_catchesAll {c : Cursor} (h : catchesAll c = some true) : Inner c := by
  unfold catchesAll at h
  split at h
  · contradiction
  · rename_i htype
    simp only [ne_eq, not_not] at htype
    simp [Inner, htype]

theorem checkExcept_settles (h : checkExcept language nodes out = some out') :
    Settles nodes "PY-008" out out' := by
  unfold checkExcept at h
  split at h
  · simp only [Option.bind_eq_bind, Option.bind_eq_some_iff] at h
    obtain ⟨broad, hbroad, h⟩ := h
    obtain rfl := Option.some.inj h
    refine .reported _ fun c hc => ?_
    obtain ⟨⟨c, b⟩, hpair, rfl⟩ := List.mem_map.mp hc
    obtain ⟨hpair, hb⟩ := List.mem_filter.mp hpair
    obtain ⟨hmem, hcatches⟩ := mem_of_mapM hbroad hpair
    exact ⟨hmem, inner_of_catchesAll (hcatches.trans (congrArg some hb))⟩
  · obtain ⟨hmem, rfl⟩ := withdraw_eq_some.mp h
    exact .withdrawn hmem

/-- An except clause raises only through an alias that names nothing. -/
theorem catchesAll_isSome {c : Cursor}
    (h : ∀ value, c.node.childByFieldName "value" = some value → value.type = "as_pattern" →
      value.namedChildren ≠ []) : (catchesAll c).isSome = true := by
  unfold catchesAll
  split
  · rfl
  · split
    · rfl
    · have hcaught : (caught c).isSome = true := by
        unfold caught
        cases hvalue : c.node.childByFieldName "value" with
        | none => rfl
        | some value =>
            dsimp only
            by_cases halias : value.type = "as_pattern"
            · obtain ⟨first, hfirst⟩ := Option.isSome_iff_exists.mp
                (List.isSome_head?.mpr (h value hvalue halias))
              simp [halias, hfirst]
            · simp [halias]
      obtain ⟨types, htypes⟩ := Option.isSome_iff_exists.mp hcaught
      simp [htypes]

end Checks

/-! ## Runs of checks -/

theorem Settled.append {nodes : List Cursor} {rules rules' : List String}
    {out mid out' : Additional} (h : Settled nodes rules out mid)
    (h' : Settled nodes rules' mid out') : Settled nodes (rules ++ rules') out out' := by
  induction h with
  | nil => exact h'
  | cons hfirst _ ih => exact .cons hfirst (ih h')

theorem foldlM_checkTarget_settled {language : Language} {nodes : List Cursor}
    {list : List (String × String)} {out out' : Additional}
    (h : list.foldlM (checkTarget language nodes) out = some out') :
    Settled nodes (list.map Prod.snd) out out' := by
  induction list generalizing out with
  | nil =>
      obtain rfl := Option.some.inj h
      exact .nil out
  | cons target list ih =>
      simp only [List.foldlM_cons, Option.bind_eq_bind, Option.bind_eq_some_iff] at h
      obtain ⟨mid, hmid, h⟩ := h
      exact .cons (checkTarget_settles hmid) (ih h)

theorem evaluateAdditional_settled {language : Language} {root : Node}
    {evaluated notEvaluated : List String} {out : Additional}
    (h : evaluateAdditional language root evaluated notEvaluated = some out) :
    Settled ((visited root).map Prod.fst) (settledRules language)
      ⟨evaluated, notEvaluated, nesting root⟩ out := by
  simp only [evaluateAdditional, Option.bind_eq_bind, Option.bind_eq_some_iff] at h
  obtain ⟨mid, hmid, h⟩ := h
  refine (foldlM_checkTarget_settled hmid).append ?_
  split at h
  · rename_i hpython
    rw [if_pos hpython]
    exact .cons (checkExcept_settles h) (.nil out)
  · rename_i hother
    obtain rfl := Option.some.inj h
    rw [if_neg hother]
    exact .nil _

section Settled

variable {nodes : List Cursor} {rules : List String} {out out' : Additional}

/-- The nodes a rule is reported at. -/
def Additional.reportedAt (out : Additional) (rule : String) : List Cursor :=
  (out.emitted.filter fun e => e.1 = rule).map Prod.snd

/-- A rule that no check settles is reported where it was before. -/
theorem Settled.reportedAt (h : Settled nodes rules out out') {rule : String}
    (hrule : rule ∉ rules) : out'.reportedAt rule = out.reportedAt rule := by
  induction h with
  | nil => rfl
  | @cons first rules out mid out' hfirst _ ih =>
      simp only [List.mem_cons, not_or] at hrule
      rw [ih hrule.2]
      cases hfirst with
      | withdrawn => rfl
      | reported places =>
          have hnone : (places.map fun c => (first, c)).filter (fun e => e.1 = rule) = [] := by
            simp [Ne.symm hrule.1]
          simp [Additional.reportedAt, List.filter_append, hnone]

/-- Withdrawn rules only change lists. -/
theorem Settled.perm (h : Settled nodes rules out out') :
    (out'.evaluated ++ out'.notEvaluated).Perm (out.evaluated ++ out.notEvaluated) := by
  induction h with
  | nil => exact .refl _
  | @cons first rules out mid out' hfirst _ ih =>
      refine ih.trans ?_
      cases hfirst with
      | withdrawn hmem =>
          calc out.evaluated.erase first ++ (out.notEvaluated ++ [first])
              _ = (out.evaluated.erase first ++ out.notEvaluated) ++ [first] :=
                (List.append_assoc ..).symm
              List.Perm _ (first :: (out.evaluated.erase first ++ out.notEvaluated)) :=
                List.perm_append_singleton ..
              List.Perm _ (out.evaluated ++ out.notEvaluated) :=
                (List.perm_cons_erase hmem).symm.append_right out.notEvaluated
      | reported => exact .refl _

/-- A rule that no check settles stays evaluated. -/
theorem Settled.kept (h : Settled nodes rules out out') {rule : String}
    (hrule : rule ∉ rules) (hmem : rule ∈ out.evaluated) : rule ∈ out'.evaluated := by
  induction h with
  | nil => exact hmem
  | @cons first rules out mid out' hfirst _ ih =>
      simp only [List.mem_cons, not_or] at hrule
      refine ih hrule.2 ?_
      cases hfirst with
      | withdrawn => exact (List.mem_erase_of_ne hrule.1).mpr hmem
      | reported => exact hmem

/-- Every report of a check is of a rule that is evaluated in the end, when each rule
is settled once. -/
theorem Settled.emitted (h : Settled nodes rules out out') (hnodup : rules.Nodup)
    (hrules : ∀ r ∈ rules, r ∈ out.evaluated) {e : String × Cursor} (he : e ∈ out'.emitted) :
    e ∈ out.emitted ∨ e.1 ∈ out'.evaluated ∧ e.2 ∈ nodes ∧ Inner e.2 := by
  induction h with
  | nil => exact .inl he
  | @cons first rules out mid out' hfirst hrest ih =>
      obtain ⟨hfresh, hnodup⟩ := List.nodup_cons.mp hnodup
      have hmid : ∀ r ∈ rules, r ∈ mid.evaluated := by
        intro r hr
        have hne : r ≠ first := fun heq => hfresh (heq ▸ hr)
        have hold := hrules r (List.mem_cons_of_mem _ hr)
        cases hfirst with
        | withdrawn => exact (List.mem_erase_of_ne hne).mpr hold
        | reported => exact hold
      rcases ih hnodup hmid he with hold | hnew
      · cases hfirst with
        | withdrawn => exact .inl hold
        | reported places hplaces =>
            rcases List.mem_append.mp hold with hold | hnew
            · exact .inl hold
            · obtain ⟨c, hc, rfl⟩ := List.mem_map.mp hnew
              refine .inr ⟨hrest.kept hfresh ?_, hplaces c hc⟩
              exact hrules first (List.mem_cons_self ..)
      · exact .inr hnew

end Settled

end Prism.Analyzer
