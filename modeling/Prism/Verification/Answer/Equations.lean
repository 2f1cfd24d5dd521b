import Prism.Model.ReviewVerification

/-! What it means that an answer is not refused: one equation per check and per step
of the second pass. -/

namespace Prism.Policy

open OutputSchema

variable {α β : Type}

@[simp] theorem require_eq_ok {condition : Bool} {e : Invalid} {u : Unit} :
    require condition e = .ok u ↔ condition = true := by
  cases condition <;> simp [require]

@[simp] theorem found_eq_ok {a : Option α} {e : Invalid} {b : α} :
    found a e = .ok b ↔ a = some b := by
  cases a <;> simp [found]

theorem Checked.bind_eq_ok {x : Checked α} {f : α → Checked β} {b : β} :
    (x >>= f) = .ok b ↔ ∃ a, x = .ok a ∧ f a = .ok b := by
  cases x <;> simp [bind, Except.bind]

@[simp] theorem Checked.pure_eq_ok {a b : α} : (pure a : Checked α) = .ok b ↔ a = b := by
  simp [pure, Except.pure]

/-- A list of results holds what the single steps return. -/
theorem Checked.mem_mapM {f : α → Checked β} {l : List α} {r : List β} (h : l.mapM f = .ok r)
    {b : β} : b ∈ r ↔ ∃ a ∈ l, f a = .ok b := by
  induction l generalizing r with
  | nil =>
      have hnil : [] = r := by simpa using h
      simp [← hnil]
  | cons a l ih =>
      simp only [List.mapM_cons, Checked.bind_eq_ok, Checked.pure_eq_ok] at h
      obtain ⟨b', hb', r', hr', rfl⟩ := h
      have hcons : (∃ x ∈ a :: l, f x = .ok b) ↔ f a = .ok b ∨ ∃ x ∈ l, f x = .ok b := by
        simp
      rw [List.mem_cons, ih hr', hcons, hb']
      simp [eq_comm]

theorem Checked.exists_of_mapM {f : α → Checked β} {l : List α} {r : List β}
    (h : l.mapM f = .ok r) {a : α} (ha : a ∈ l) : ∃ b ∈ r, f a = .ok b := by
  induction l generalizing r with
  | nil => contradiction
  | cons a' l ih =>
      simp only [List.mapM_cons, Checked.bind_eq_ok, Checked.pure_eq_ok] at h
      obtain ⟨b, hb, r', hr', rfl⟩ := h
      rcases List.mem_cons.mp ha with rfl | ha
      · exact ⟨b, List.mem_cons_self, hb⟩
      · obtain ⟨b', hb', hfa⟩ := ih hr' ha
        exact ⟨b', List.mem_cons_of_mem b hb', hfa⟩

/-- What a step keeps of its input is kept of the list. -/
theorem Checked.map_mapM {γ : Type} {f : α → Checked β} {g : α → γ} {g' : β → γ} {l : List α}
    {r : List β} (h : l.mapM f = .ok r) (hkept : ∀ a b, f a = .ok b → g' b = g a) :
    r.map g' = l.map g := by
  induction l generalizing r with
  | nil =>
      have hnil : [] = r := by simpa using h
      simp [← hnil]
  | cons a l ih =>
      simp only [List.mapM_cons, Checked.bind_eq_ok, Checked.pure_eq_ok] at h
      obtain ⟨b, hb, r', hr', rfl⟩ := h
      rw [List.map_cons, List.map_cons, ih hr', hkept a b hb]

theorem Checked.length_mapM {f : α → Checked β} {l : List α} {r : List β}
    (h : l.mapM f = .ok r) : r.length = l.length := by
  have hunit : r.map (fun _ => ()) = l.map fun _ => () := Checked.map_mapM h fun _ _ _ => rfl
  simpa using congrArg List.length hunit

theorem needsContext_of_ne {basis : Basis} (h : basis ≠ .supported) : basis = .needsContext := by
  cases basis with
  | supported => contradiction
  | needsContext => rfl

/-! ## `apply_verification` -/

/-- The finding a decision leaves of an issue. -/
def outcomeOf (issue : Issue) (d : Decision) : Option Issue :=
  match d.action with
  | .keep => d.checkedConsequence.map fun consequence => { issue with consequence }
  | .revise => d.revised.bind fun revised =>
    d.checkedConsequence.map fun consequence => { revised with consequence }
  | .drop => none

theorem checkedConsequence_eq_ok {d : Decision} {consequence : SizedText 1 400}
    (h : checkedConsequence d = .ok consequence) : d.checkedConsequence = some consequence := by
  simp only [checkedConsequence, Checked.bind_eq_ok, found_eq_ok, Checked.pure_eq_ok] at h
  obtain ⟨_, hsome, _, -, rfl⟩ := h
  exact hsome

/-- A decision leaves its outcome, which stays at the line of the issue and promotes no
uncertain one. -/
structure Settles (issue : Issue) (d : Decision) (left : Option Issue) : Prop where
  outcome : left = outcomeOf issue d
  place : ∀ i ∈ left, i.fileId = issue.fileId ∧ i.line = issue.line
  basis : ∀ i ∈ left, issue.basis = .needsContext → i.basis = .needsContext

theorem settle_settles {issue : Issue} {d : Decision} {left : Option Issue} {fate : Fate}
    (h : settle issue d = .ok (left, fate)) : Settles issue d left := by
  unfold settle at h
  split at h
  · rename_i haction
    simp only [Checked.bind_eq_ok, found_eq_ok, require_eq_ok, Checked.pure_eq_ok, Prod.mk.injEq,
      decide_eq_true_eq] at h
    obtain ⟨revised, hrevised, _, hplace, _, hbasis, consequence, hconsequence, rfl, -⟩ := h
    refine ⟨?_, ?_, ?_⟩
    · simp [outcomeOf, haction, hrevised, checkedConsequence_eq_ok hconsequence]
    · rintro i ⟨⟩
      exact hplace
    · rintro i ⟨⟩ huncertain
      by_contra hpromoted
      exact hbasis ⟨huncertain, hpromoted⟩
  · rename_i haction
    simp only [Checked.bind_eq_ok, require_eq_ok, Checked.pure_eq_ok, Prod.mk.injEq] at h
    obtain ⟨_, -, consequence, hconsequence, rfl, -⟩ := h
    refine ⟨?_, ?_, ?_⟩
    · simp [outcomeOf, haction, checkedConsequence_eq_ok hconsequence]
    · rintro i ⟨⟩
      exact ⟨rfl, rfl⟩
    · rintro i ⟨⟩ huncertain
      exact huncertain
  · rename_i haction
    simp only [Checked.bind_eq_ok, require_eq_ok, Checked.pure_eq_ok, Prod.mk.injEq] at h
    obtain ⟨_, -, _, -, rfl, -⟩ := h
    refine ⟨?_, ?_, ?_⟩
    · simp [outcomeOf, haction]
    · simp
    · simp

/-- The new findings that are added are the first ones of their identity, as long as no
accepted finding has it. -/
theorem mem_addFindings {findings accepted : List Issue} {i : Issue} :
    i ∈ findings.foldl addFinding accepted ↔ i ∈ accepted ∨
      (findings.find? (fun f => identity f = identity i) = some i ∧
        ∀ a ∈ accepted, identity a ≠ identity i) := by
  induction findings generalizing accepted with
  | nil => simp
  | cons f findings ih =>
      rw [List.foldl_cons, ih, List.find?_cons, addFinding]
      by_cases hknown : accepted.any fun a => identity f = identity a
      · rw [if_pos hknown]
        obtain ⟨a, ha, hfa⟩ := List.any_eq_true.mp hknown
        have hfa' : identity f = identity a := of_decide_eq_true hfa
        by_cases hf : identity f = identity i
        · have hnone : ¬ ∀ b ∈ accepted, identity b ≠ identity i :=
            fun h => h a ha (hfa'.symm.trans hf)
          simp [hnone]
        · simp [hf]
      · rw [if_neg hknown]
        have hnew : ∀ a ∈ accepted, identity a ≠ identity f := by
          intro a ha hsame
          exact hknown (List.any_eq_true.mpr ⟨a, ha, decide_eq_true hsame.symm⟩)
        by_cases hf : identity f = identity i
        · rw [hf] at hnew
          simp only [List.mem_append, List.mem_singleton, hf, decide_true, Option.some.injEq]
          constructor
          · rintro ((ha | rfl) | ⟨-, hall⟩)
            · exact .inl ha
            · exact .inr ⟨rfl, hnew⟩
            · exact absurd hf (hall f (.inr rfl))
          · rintro (ha | ⟨rfl, -⟩)
            · exact .inl (.inl ha)
            · exact .inl (.inr rfl)
        · have hne : i ≠ f := by
            rintro rfl
            exact hf rfl
          simp [hf, hne, or_imp, forall_and]

/-- The draft findings that the decisions leave. -/
def remaining (answer : VerificationOutput) (original : ReviewOutput) : List Issue :=
  (sortedDecisions answer.decisions.1).filterMap fun d =>
    (original.issues.1[d.index.1.toNat]?).bind fun issue => outcomeOf issue d

theorem mem_remaining {answer : VerificationOutput} {original : ReviewOutput} {i : Issue} :
    i ∈ remaining answer original ↔ ∃ d ∈ answer.decisions.1, ∃ issue,
      original.issues.1[d.index.1.toNat]? = some issue ∧ outcomeOf issue d = some i := by
  simp [remaining, sortedDecisions, Option.bind_eq_some_iff]

theorem settleOne_cases {issues : List Issue} {d : Decision} {left : Option Issue} {fate : Fate}
    (h : settleOne issues d = .ok (left, fate)) :
    ∃ issue, issues[d.index.1.toNat]? = some issue ∧ Settles issue d left := by
  simp only [settleOne, Checked.bind_eq_ok, found_eq_ok] at h
  obtain ⟨issue, hissue, hsettle⟩ := h
  exact ⟨issue, hissue, settle_settles hsettle⟩

/-- The results of the decisions are their outcomes. -/
theorem mapM_settleOne {issues : List Issue} {decisions : List Decision}
    {settled : List (Option Issue × Fate)} (h : decisions.mapM (settleOne issues) = .ok settled) :
    settled.filterMap Prod.fst = decisions.filterMap fun d =>
      (issues[d.index.1.toNat]?).bind fun issue => outcomeOf issue d := by
  induction decisions generalizing settled with
  | nil =>
      have hnil : [] = settled := by simpa using h
      rw [← hnil]
      rfl
  | cons d decisions ih =>
      simp only [List.mapM_cons, Checked.bind_eq_ok, Checked.pure_eq_ok] at h
      obtain ⟨⟨left, fate⟩, hd, rest, hrest, rfl⟩ := h
      obtain ⟨issue, hissue, hsettles⟩ := settleOne_cases hd
      have hleft : ((issues[d.index.1.toNat]?).bind fun issue => outcomeOf issue d) = left := by
        rw [hissue, Option.bind_some, hsettles.outcome]
      rw [List.filterMap_cons, List.filterMap_cons, hleft, ih hrest]

/-- An accepted second pass leaves the remaining draft findings and adds the new ones,
ten at most. -/
structure Verifies (answer : VerificationOutput) (original output : ReviewOutput) : Prop where
  issues : output.issues.1 = answer.newFindings.1.foldl addFinding (remaining answer original)
  place : ∀ d ∈ answer.decisions.1, ∃ issue,
    original.issues.1[d.index.1.toNat]? = some issue ∧ Settles issue d (outcomeOf issue d)

theorem verifiedOutput_verifies {answer : VerificationOutput} {original output : ReviewOutput}
    {counts : Counts} (h : verifiedOutput answer original = .ok (output, counts)) :
    Verifies answer original output := by
  simp only [verifiedOutput, settleAll, Checked.bind_eq_ok] at h
  obtain ⟨settled, ⟨_, -, hsettled⟩, h⟩ := h
  have hremaining := mapM_settleOne hsettled
  split_ifs at h with hsize
  simp only [Checked.pure_eq_ok, Prod.mk.injEq] at h
  obtain ⟨rfl, -⟩ := h
  refine ⟨?_, ?_⟩
  · simp only [remaining, ← hremaining]
  · intro d hd
    have hmem : d ∈ sortedDecisions answer.decisions.1 := List.mem_mergeSort.mpr hd
    obtain ⟨⟨left, fate⟩, -, hone⟩ := Checked.exists_of_mapM hsettled hmem
    obtain ⟨issue, hissue, hsettles⟩ := settleOne_cases hone
    exact ⟨issue, hissue, hsettles.outcome ▸ hsettles⟩

/-- What an accepted pair of texts stands for. -/
theorem applyVerification_cases {raw draft text : List Char} {counts : Counts}
    (h : applyVerification raw draft = .ok (text, counts)) :
    ∃ answer original output, acceptable raw = true ∧
      validateJson VerificationOutput.codec (stripApiMetadata raw) = some answer ∧
      validateJson ReviewOutput.codec (stripApiMetadata draft) = some original ∧
      verifiedOutput answer original = .ok (output, counts) ∧
      text = dumpJson ReviewOutput.codec output := by
  simp only [applyVerification, Checked.bind_eq_ok, require_eq_ok, found_eq_ok,
    Checked.pure_eq_ok, Prod.mk.injEq] at h
  obtain ⟨_, hraw, answer, hanswer, original, horiginal, ⟨output, counts'⟩, houtput, rfl, rfl⟩ := h
  exact ⟨answer, original, output, hraw, hanswer, horiginal, houtput, rfl⟩

/-- A dumped value carries no flag of the provider's JSON mode. -/
theorem stripApiMetadata_dumpJson {f : Json.Fields α} (hnodup : f.names.Nodup)
    (htype : "type".toList ∉ f.names) (a : α) :
    stripApiMetadata (dumpJson (.record f hnodup) a) = dumpJson (.record f hnodup) a := by
  have hread : Json.loads (dumpJson (.record f hnodup) a) = some (.obj (f.dump a)) :=
    Json.loads_print Json.readable_compact ((Json.Codec.record f hnodup).wellFormed a)
  have hnone : Json.member? (f.dump a) "type".toList = none := by
    rw [Json.member?, Option.map_eq_none_iff, List.find?_eq_none]
    intro m hm hkey
    have hname : m.1 ∈ (f.dump a).map Prod.fst := List.mem_map_of_mem hm
    rw [f.keys a, of_decide_eq_true hkey] at hname
    exact htype hname
  simp only [stripApiMetadata, hread, hnone]

/-- A dumped answer of a verifier is read back. -/
theorem read_answer (a : VerificationOutput) :
    validateJson VerificationOutput.codec
      (stripApiMetadata (dumpJson VerificationOutput.codec a)) = some a := by
  rw [VerificationOutput.codec, stripApiMetadata_dumpJson _ (by decide +kernel),
    validateJson_dumpJson]

/-- A dumped answer of a reviewer is read back. -/
theorem read_output (o : ReviewOutput) :
    validateJson ReviewOutput.codec (stripApiMetadata (dumpJson ReviewOutput.codec o)) =
      some o := by
  rw [ReviewOutput.codec, stripApiMetadata_dumpJson _ (by decide +kernel), validateJson_dumpJson]

/-- The second pass on dumped values. -/
theorem applyVerification_dumpJson {answer : VerificationOutput} {original output : ReviewOutput}
    {counts : Counts} (hraw : acceptable (dumpJson VerificationOutput.codec answer) = true)
    (h : verifiedOutput answer original = .ok (output, counts)) :
    applyVerification (dumpJson VerificationOutput.codec answer)
        (dumpJson ReviewOutput.codec original) =
      .ok (dumpJson ReviewOutput.codec output, counts) := by
  have hstep : (verifiedOutput answer original >>= fun r =>
      pure (dumpJson ReviewOutput.codec r.1, r.2)) =
      .ok (dumpJson ReviewOutput.codec output, counts) := by
    rw [h]
    rfl
  rw [applyVerification, hraw, read_answer, read_output]
  exact hstep

end Prism.Policy
