import Prism.Verification.Answer.Equations

/-! Uncertain concerns of a draft through the second pass. -/

namespace Prism.Policy

open OutputSchema

/-- A concern of a draft that no supported issue of the draft is at the place of. -/
structure Uncertain (original : ReviewOutput) (c : Issue) : Prop where
  drafted : c ∈ original.issues.1
  basis : c.basis = .needsContext
  alone : ∀ i ∈ original.issues.1, i.fileId = c.fileId → i.line = c.line → i.basis ≠ .supported

/-- No uncertain concern of a draft is a supported issue of an output. -/
def NeverPromotes (original output : ReviewOutput) : Prop :=
  ∀ c, Uncertain original c → ∀ i ∈ output.issues.1, i.basis = .supported →
    identity i ≠ identity c

/-- A decision leaves a finding that is the same as `c`, so that no new one is added. -/
def Retained (answer : VerificationOutput) (original : ReviewOutput) (c : Issue) : Prop :=
  ∃ d ∈ answer.decisions.1, ∃ issue, original.issues.1[d.index.1.toNat]? = some issue ∧
    ∃ i, outcomeOf issue d = some i ∧ identity i = identity c

/-- The first new finding that is the same as `c` is supported. -/
def FoundAnew (answer : VerificationOutput) (c : Issue) : Prop :=
  ∃ n, answer.newFindings.1.find? (fun f => identity f = identity c) = some n ∧
    n.basis = .supported

variable {answer : VerificationOutput} {original output : ReviewOutput}

/-- No decision promotes an uncertain concern. -/
theorem remaining_unpromoted (h : Verifies answer original output) {c i : Issue}
    (hc : Uncertain original c) (hi : i ∈ remaining answer original)
    (hsame : identity i = identity c) : i.basis = .needsContext := by
  obtain ⟨d, hd, issue, hissue, hleft⟩ := mem_remaining.mp hi
  obtain ⟨issue', hissue', hsettles⟩ := h.place d hd
  obtain rfl := Option.some.inj (hissue.symm.trans hissue')
  rw [hleft] at hsettles
  obtain ⟨hfile, hline⟩ := hsettles.place i rfl
  have hplace : i.fileId.1 = c.fileId.1 ∧ i.line.1 = c.line.1 := by
    simp only [identity, Prod.mk.injEq] at hsame
    exact ⟨hsame.1, hsame.2.1⟩
  apply hsettles.basis i rfl
  apply needsContext_of_ne
  apply hc.alone issue (List.mem_of_getElem? hissue)
  · exact hfile.symm.trans (Subtype.ext hplace.1)
  · exact hline.symm.trans (Subtype.ext hplace.2)

theorem retained_iff {c : Issue} : Retained answer original c ↔
    ∃ i ∈ remaining answer original, identity i = identity c := by
  constructor
  · rintro ⟨d, hd, issue, hissue, i, hleft, hsame⟩
    exact ⟨i, mem_remaining.mpr ⟨d, hd, issue, hissue, hleft⟩, hsame⟩
  · rintro ⟨i, hi, hsame⟩
    obtain ⟨d, hd, issue, hissue, hleft⟩ := mem_remaining.mp hi
    exact ⟨d, hd, issue, hissue, i, hleft, hsame⟩

/-- An uncertain concern becomes a supported issue exactly when no decision retains it
and it is found anew as one. -/
theorem promoted_iff (h : Verifies answer original output) {c : Issue}
    (hc : Uncertain original c) :
    (∃ i ∈ output.issues.1, i.basis = .supported ∧ identity i = identity c) ↔
      ¬ Retained answer original c ∧ FoundAnew answer c := by
  rw [h.issues]
  constructor
  · rintro ⟨i, hi, hbasis, hsame⟩
    rcases mem_addFindings.mp hi with hkept | ⟨hfirst, hnew⟩
    · have hcontext := remaining_unpromoted h hc hkept hsame
      rw [hbasis] at hcontext
      contradiction
    · rw [hsame] at hfirst hnew
      refine ⟨?_, i, hfirst, hbasis⟩
      rw [retained_iff]
      rintro ⟨a, ha, hac⟩
      exact hnew a ha hac
  · rintro ⟨hretained, n, hfirst, hbasis⟩
    have hsame : identity n = identity c := by
      simpa using List.find?_some hfirst
    refine ⟨n, mem_addFindings.mpr (.inr ⟨?_, ?_⟩), hbasis, hsame⟩
    · rw [hsame]
      exact hfirst
    · intro a ha han
      exact hretained (retained_iff.mpr ⟨a, ha, han.trans hsame⟩)

/-- The second pass keeps every uncertain concern of the draft uncertain exactly when
none that is not retained is found anew as a supported one. -/
theorem never_promotes_iff {raw draft text : List Char} {counts : Counts}
    (h : applyVerification raw draft = .ok (text, counts))
    (hanswer : validateJson VerificationOutput.codec (stripApiMetadata raw) = some answer)
    (hdraft : validateJson ReviewOutput.codec (stripApiMetadata draft) = some original)
    (houtput : validateJson ReviewOutput.codec text = some output) :
    NeverPromotes original output ↔
      ∀ c, Uncertain original c → FoundAnew answer c → Retained answer original c := by
  obtain ⟨answer', original', output', -, hanswer', hdraft', hverified, rfl⟩ :=
    applyVerification_cases h
  obtain rfl := Option.some.inj (hanswer.symm.trans hanswer')
  obtain rfl := Option.some.inj (hdraft.symm.trans hdraft')
  obtain rfl := Option.some.inj (houtput.symm.trans (validateJson_dumpJson _ output'))
  have hverifies := verifiedOutput_verifies hverified
  constructor
  · intro hnever c hc hanew
    by_contra hretained
    obtain ⟨i, hi, hbasis, hsame⟩ := (promoted_iff hverifies hc).mpr ⟨hretained, hanew⟩
    exact hnever c hc i hi hbasis hsame
  · intro hretained c hc i hi hbasis hsame
    obtain ⟨hnot, hanew⟩ := (promoted_iff hverifies hc).mp ⟨i, hi, hbasis, hsame⟩
    exact hnot (hretained c hc hanew)

/-! ## Executions -/

section Executions

def concern : Issue where
  citations := Sized.empty
  fileId := ⟨['f', '1'], by simp⟩
  line := ⟨1, by simp⟩
  severity := .warning
  basis := .needsContext
  evidenceLines := ⟨[1], by simp⟩
  trigger := ⟨['t'], by simp⟩
  consequence := ⟨['c'], by simp⟩
  assumptions := ⟨[['a']], by simp⟩
  title := ⟨['n'], by simp⟩
  evidence := ⟨['e'], by simp⟩
  suggestion := ⟨['s'], by simp⟩
  contractQuote := Sized.empty
  expressionRepair := none

/-- A draft with one uncertain concern. -/
def doubtful : ReviewOutput where
  summary := ⟨['s'], by simp⟩
  issues := ⟨[concern], by simp⟩
  limitations := ⟨['l'], by simp⟩
  contextRequests := Sized.empty

def confirmation : Decision where
  index := ⟨0, by simp⟩
  action := .keep
  reason := .confirmed
  revised := none
  checkedConsequence := some ⟨['c'], by simp⟩

def rejection : Decision where
  index := ⟨0, by simp⟩
  action := .drop
  reason := .unsupported
  revised := none
  checkedConsequence := none

/-- The concern is kept. -/
def keeping : VerificationOutput where
  decisions := ⟨[confirmation], by simp⟩
  newFindings := Sized.empty
  fileChecks := Sized.empty

def promoted : Issue :=
  { concern with
    basis := .supported
    assumptions := Sized.empty }

/-- The concern is dropped and found anew. -/
def replacing : VerificationOutput where
  decisions := ⟨[rejection], by simp⟩
  newFindings := ⟨[promoted], by simp⟩
  fileChecks := Sized.empty

def reviewed (issue : Issue) : ReviewOutput where
  summary := ⟨['s'], by simp⟩
  issues := ⟨[issue], by simp⟩
  limitations := scopeNotice
  contextRequests := Sized.empty

theorem never_promotes_keeping : NeverPromotes doubtful (reviewed concern) := by
  have hsettled : settleAll keeping doubtful = .ok [(some concern, .kept)] := by decide +kernel
  have hkept : verifiedOutput keeping doubtful = .ok (reviewed concern, ⟨1, 0, 0, 0⟩) := by
    rw [verifiedOutput, hsettled]
    rfl
  have h := applyVerification_dumpJson (by decide +kernel) hkept
  apply (never_promotes_iff h (read_answer keeping) (read_output doubtful)
    (validateJson_dumpJson _ _)).mpr
  rintro c hc ⟨n, hn, -⟩
  simp [keeping] at hn

/-- A verifier drops an uncertain concern and reports it as a finding of its own. -/
theorem dropped_concern_promoted : ∃ raw draft text counts original output,
    applyVerification raw draft = .ok (text, counts) ∧
      validateJson ReviewOutput.codec (stripApiMetadata draft) = some original ∧
      validateJson ReviewOutput.codec text = some output ∧ ¬ NeverPromotes original output := by
  have hsettled : settleAll replacing doubtful = .ok [(none, .dropped)] := by decide +kernel
  have hreplaced : verifiedOutput replacing doubtful = .ok (reviewed promoted, ⟨0, 0, 1, 1⟩) := by
    rw [verifiedOutput, hsettled]
    rfl
  have h := applyVerification_dumpJson (by decide +kernel) hreplaced
  refine ⟨_, _, _, _, doubtful, reviewed promoted, h, read_output doubtful,
    validateJson_dumpJson _ _, ?_⟩
  intro hnever
  have hconcern : Uncertain doubtful concern := by
    refine ⟨List.mem_singleton_self concern, rfl, ?_⟩
    intro i hi _ _
    rw [List.mem_singleton.mp hi]
    decide
  exact hnever concern hconcern promoted (List.mem_singleton_self promoted) rfl rfl

end Executions

end Prism.Policy
