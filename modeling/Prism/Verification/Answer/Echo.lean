import Prism.Verification.Answer.Correctness
import Prism.Verification.Answer.Promotion

/-! # An echoed flag of the provider's JSON mode

`strip_api_metadata` takes it out of an answer. Two places parse the answer again as it
was sent, and refuse what the stripped answer was accepted for. -/

namespace Prism.Policy

open OutputSchema

def echoKey : List Char :=
  "type".toList

def echo : Json.Member :=
  (echoKey, .str "json_object".toList)

/-- `echoed` is the object `raw` with the echoed member added somewhere. -/
def Echo (raw echoed : List Char) : Prop :=
  ∃ l r : List Json.Member, Json.loads raw = some (.obj (l ++ r)) ∧
    Json.loads echoed = some (.obj (l ++ echo :: r)) ∧ echoKey ∉ (l ++ r).map Prod.fst

/-! ## Reading both texts -/

section Reading

variable {α : Type} {raw echoed : List Char}

theorem member?_none {ms : List Json.Member} (h : echoKey ∉ ms.map Prod.fst) :
    Json.member? ms echoKey = none := by
  rw [Json.member?, Option.map_eq_none_iff, List.find?_eq_none]
  intro m hm hkey
  exact h (of_decide_eq_true hkey ▸ List.mem_map_of_mem hm)

theorem Echo.strip_raw (h : Echo raw echoed) : stripApiMetadata raw = raw := by
  obtain ⟨l, r, hraw, -, hkeys⟩ := h
  have hnone : Json.member? (l ++ r) "type".toList = none := member?_none hkeys
  simp only [stripApiMetadata, hraw, hnone]

theorem Echo.strip_echoed (h : Echo raw echoed) : ∃ ms, Json.loads raw = some (.obj ms) ∧
    stripApiMetadata echoed = Json.print Json.spaced (.obj ms) := by
  obtain ⟨l, r, hraw, hechoed, hkeys⟩ := h
  refine ⟨l ++ r, hraw, ?_⟩
  have hleft : echoKey ∉ l.map Prod.fst := fun hl =>
    hkeys (List.map_append ▸ List.mem_append_left _ hl)
  have hmember : Json.member? (l ++ echo :: r) "type".toList =
      some (.str "json_object".toList) := by
    refine (Json.Fields.member?_append_right hleft).trans ?_
    rfl
  have hkept : ∀ m ∈ l ++ r, decide (m.1 ≠ "type".toList) = true := by
    intro m hm
    refine decide_eq_true fun hkey => hkeys ?_
    exact List.mem_map.mpr ⟨m, hm, hkey⟩
  have hfilter : (l ++ echo :: r).filter (fun m => m.1 ≠ "type".toList) = l ++ r := by
    rw [List.filter_append, List.filter_cons_of_neg (by simp [echo, echoKey]),
      ← List.filter_append, List.filter_eq_self.mpr hkept]
  simp only [stripApiMetadata, hechoed, hmember, if_true, hfilter]

/-- Both texts stand for the same value once the flag is stripped. -/
theorem Echo.reads (h : Echo raw echoed) (c : Json.Codec α) :
    validateJson c (stripApiMetadata echoed) = validateJson c (stripApiMetadata raw) := by
  obtain ⟨ms, hraw, hstrip⟩ := h.strip_echoed
  rw [h.strip_raw, hstrip, validateJson, validateJson, hraw,
    Json.loads_print Json.readable_spaced (Json.wellFormed_loads hraw)]

/-- The flag is an extra field of every strict schema. -/
theorem Echo.refused (h : Echo raw echoed) {f : Json.Fields α} (hnodup : f.names.Nodup)
    (hname : echoKey ∉ f.names) :
    validateJson (.record f hnodup) echoed = none := by
  obtain ⟨l, r, -, hechoed, -⟩ := h
  have hextra : ¬ (l ++ echo :: r).all (fun m => m.1 ∈ f.names) = true := by
    intro hall
    have hecho := List.all_eq_true.mp hall echo (List.mem_append_right _ List.mem_cons_self)
    exact hname (of_decide_eq_true hecho)
  rw [validateJson, hechoed]
  exact if_neg hextra

end Reading

/-! ## What the places accept -/

section Accepted

variable {α β : Type} {tools : Tools} {b : InputBundle}

theorem Checked.mapM_isOk {f : α → Checked β} {l : List α} :
    (∃ r, l.mapM f = .ok r) ↔ ∀ a ∈ l, ∃ b, f a = .ok b := by
  constructor
  · rintro ⟨r, hr⟩ a ha
    obtain ⟨b, -, hb⟩ := Checked.exists_of_mapM hr ha
    exact ⟨b, hb⟩
  · intro h
    induction l with
    | nil => exact ⟨[], rfl⟩
    | cons a l ih =>
        obtain ⟨b, hb⟩ := h a List.mem_cons_self
        obtain ⟨r, hr⟩ := ih fun a ha => h a (List.mem_cons_of_mem _ ha)
        refine ⟨b :: r, ?_⟩
        simp only [List.mapM_cons, Checked.bind_eq_ok, Checked.pure_eq_ok]
        exact ⟨b, hb, r, hr, rfl⟩

/-- The bundle supports every issue of an output. -/
def Supported (tools : Tools) (b : InputBundle) (output : ReviewOutput) : Prop :=
  ∀ issue ∈ output.issues.1, ∃ e, validateIssue tools b issue = .ok e

theorem validateResult_isOk {text : List Char} : (∃ r, validateResult tools text b = .ok r) ↔
    acceptable text = true ∧ ∃ output,
      validateJson ReviewOutput.codec (stripApiMetadata text) = some output ∧
        Supported tools b output := by
  simp only [validateResult, Checked.bind_eq_ok, require_eq_ok, found_eq_ok, Checked.pure_eq_ok]
  constructor
  · rintro ⟨r, _, hacceptable, output, houtput, entries, hentries, rfl⟩
    exact ⟨hacceptable, output, houtput, Checked.mapM_isOk.mp ⟨entries, hentries⟩⟩
  · rintro ⟨hacceptable, output, houtput, hsupported⟩
    obtain ⟨entries, hentries⟩ := Checked.mapM_isOk.mpr hsupported
    exact ⟨_, (), hacceptable, output, houtput, entries, hentries, rfl⟩

/-- What a bundle derives from its assertions can be validated. -/
def Grounds (tools : Tools) (b : InputBundle) : Prop :=
  b.context.purpose.getD .code = .code →
    ∃ derived, (tools.pathFacts b.context).foldlM (deriveFact b.context) [] = .ok derived ∧
      (derived.isEmpty = false → ∃ r, validateResult tools (derivedAnswer derived) b = .ok r)

theorem groundAssertions_isOk {r : Result} : (∃ r', groundAssertions tools r b = .ok r') ↔
    Grounds tools b := by
  unfold groundAssertions Grounds
  by_cases hpurpose : b.context.purpose.getD .code ≠ .code
  · rw [if_pos hpurpose]
    exact ⟨fun _ h => (hpurpose h).elim, fun _ => ⟨r, rfl⟩⟩
  · rw [if_neg hpurpose]
    simp only [Checked.bind_eq_ok]
    constructor
    · rintro ⟨r', derived, hderived, hr'⟩ -
      refine ⟨derived, hderived, fun hne => ?_⟩
      rw [if_neg (by simp [hne]), Checked.bind_eq_ok] at hr'
      obtain ⟨checked, hchecked, -⟩ := hr'
      exact ⟨checked, hchecked⟩
    · intro h
      obtain ⟨derived, hderived, hvalid⟩ := h (not_not.mp hpurpose)
      cases hempty : derived.isEmpty with
      | true => exact ⟨r, derived, hderived, by simp [hempty]⟩
      | false =>
          obtain ⟨checked, hchecked⟩ := hvalid hempty
          refine ⟨(checked.issues.foldl Merging.add ⟨r.issues, r.questions, [], 0⟩).finish b r,
            derived, hderived, ?_⟩
          rw [if_neg (by simp [hempty]), Checked.bind_eq_ok]
          exact ⟨checked, hchecked, rfl⟩

/-- A first answer whose result and context requests are used. -/
structure FirstValid (tools : Tools) (raw : List Char) (b : InputBundle) : Prop where
  acceptable : acceptable raw = true
  output : ∃ output, validateJson ReviewOutput.codec raw = some output ∧ Supported tools b output

/-- A second answer that settles the draft. -/
structure SecondValid (tools : Tools) (raw draft : List Char) (b : InputBundle) : Prop where
  acceptable : acceptable raw = true
  settles : ∃ answer original output counts,
    validateJson VerificationOutput.codec raw = some answer ∧
    validateJson ReviewOutput.codec (stripApiMetadata draft) = some original ∧
    verifiedOutput answer original = .ok (output, counts) ∧
    Policy.acceptable (dumpJson ReviewOutput.codec output) = true ∧ Supported tools b output ∧
    ∃ reports, validateFileChecks answer.fileChecks.1 output b = .ok reports
  grounds : Grounds tools b

/-- A recheck that is valid, its size and the search for secrets apart. -/
structure RecheckValid (tools : Tools) (raw : List Char) (b : InputBundle) : Prop where
  output : ∃ output : EmptyReviewOutput,
    validateJson EmptyReviewOutput.codec (stripApiMetadata raw) = some output ∧
    acceptable (dumpJson ReviewOutput.codec output.toReviewOutput) = true ∧
    Supported tools b output.toReviewOutput ∧
    ∃ reports, validateFileChecks output.fileChecks.1 output.toReviewOutput b = .ok reports
  grounds : Grounds tools b

/-- A result of a dumped output is supported. -/
theorem validateResult_dumpJson_isOk {output : ReviewOutput} :
    (∃ r, validateResult tools (dumpJson ReviewOutput.codec output) b = .ok r) ↔
      acceptable (dumpJson ReviewOutput.codec output) = true ∧ Supported tools b output := by
  rw [validateResult_isOk, read_output]
  simp

theorem firstAnswer_accepted {raw : List Char} (hraw : stripApiMetadata raw = raw) :
    (∃ d, firstAnswer tools raw b = .ok (some d)) ↔ FirstValid tools raw b := by
  constructor
  · rintro ⟨d, hd⟩
    simp only [firstAnswer] at hd
    split at hd
    · rename_i draft hdraft
      simp only [Checked.bind_eq_ok, found_eq_ok] at hdraft
      obtain ⟨r, hr, output, houtput, -⟩ := hdraft
      obtain ⟨hacceptable, output', houtput', hsupported⟩ := validateResult_isOk.mp ⟨r, hr⟩
      exact ⟨hacceptable, output', hraw ▸ houtput', hsupported⟩
    · cases hd
    · cases hd
  · rintro ⟨hacceptable, output, houtput, hsupported⟩
    obtain ⟨r, hr⟩ := validateResult_isOk.mpr ⟨hacceptable, output, hraw.symm ▸ houtput, hsupported⟩
    refine ⟨(r, output.contextRequests.1), ?_⟩
    simp only [firstAnswer, hr, houtput, found]
    rfl

theorem verifiedResult_isOk {raw draft : List Char} (hraw : stripApiMetadata raw = raw) :
    (∃ r, verifiedResult tools raw draft b = .ok r) ↔ SecondValid tools raw draft b := by
  simp only [verifiedResult, Checked.bind_eq_ok, found_eq_ok, Prod.exists]
  constructor
  · rintro ⟨r, revised, counts, happly, result, hresult, answer, hanswer, output, houtput,
      reports, hreports, hr⟩
    obtain ⟨answer', original, output', hacceptable, hanswer', horiginal, hverified, rfl⟩ :=
      applyVerification_cases happly
    obtain rfl := Option.some.inj (hanswer.symm.trans (hraw ▸ hanswer'))
    obtain rfl := Option.some.inj ((validateJson_dumpJson _ _).symm.trans houtput)
    obtain ⟨hfits, hsupported⟩ := validateResult_dumpJson_isOk.mp ⟨result, hresult⟩
    exact ⟨hacceptable, ⟨answer, original, output', counts, hanswer, horiginal, hverified, hfits,
      hsupported, reports, hreports⟩, groundAssertions_isOk.mp ⟨r, hr⟩⟩
  · rintro ⟨hacceptable, ⟨answer, original, output, counts, hanswer, horiginal, hverified, hfits,
      hsupported, reports, hreports⟩, hgrounds⟩
    obtain ⟨result, hresult⟩ := validateResult_dumpJson_isOk.mpr ⟨hfits, hsupported⟩
    obtain ⟨r, hr⟩ := groundAssertions_isOk (r := { result with
      verification := some ⟨.checked, some counts, reports⟩ }).mpr hgrounds
    refine ⟨r, dumpJson ReviewOutput.codec output, counts, ?_, result, hresult, answer, hanswer,
      output, validateJson_dumpJson _ _, reports, hreports, hr⟩
    simp only [applyVerification, Checked.bind_eq_ok, require_eq_ok, found_eq_ok,
      Checked.pure_eq_ok, Prod.exists]
    exact ⟨(), hacceptable, answer, hraw.symm ▸ hanswer, original, horiginal, output, counts,
      hverified, rfl⟩

theorem validateEmptyReview_isOk {raw : List Char} :
    (∃ r, validateEmptyReview tools raw b = .ok r) ↔
      acceptable raw = true ∧ RecheckValid tools raw b := by
  simp only [validateEmptyReview, Checked.bind_eq_ok, require_eq_ok, found_eq_ok]
  constructor
  · rintro ⟨r, _, hacceptable, output, houtput, result, hresult, reports, hreports, hr⟩
    obtain ⟨hfits, hsupported⟩ := validateResult_dumpJson_isOk.mp ⟨result, hresult⟩
    exact ⟨hacceptable, ⟨output, houtput, hfits, hsupported, reports, hreports⟩,
      groundAssertions_isOk.mp ⟨r, hr⟩⟩
  · rintro ⟨hacceptable, ⟨output, houtput, hfits, hsupported, reports, hreports⟩, hgrounds⟩
    obtain ⟨result, hresult⟩ := validateResult_dumpJson_isOk.mpr ⟨hfits, hsupported⟩
    obtain ⟨r, hr⟩ := groundAssertions_isOk (r := { result with
      verification := some ⟨.emptyRechecked, none, reports⟩ }).mpr hgrounds
    exact ⟨r, (), hacceptable, output, houtput, result, hresult, reports, hreports, hr⟩

end Accepted

/-! ## Where the echo is harmless -/

section Harmless

variable {α : Type} {tools : Tools} {raw echoed draft answer : List Char} {b : InputBundle}

/-- Adding the flag changes neither whether an answer is accepted nor what it becomes. -/
structure Harmless (tools : Tools) (raw echoed draft answer : List Char) (b : InputBundle) :
    Prop where
  first : (firstAnswer tools echoed b).toOption.join = (firstAnswer tools raw b).toOption.join
  second : (verifiedResult tools echoed draft b).toOption =
    (verifiedResult tools raw draft b).toOption
  draft : (verifiedResult tools answer echoed b).toOption =
    (verifiedResult tools answer raw b).toOption
  recheck : (validateEmptyReview tools echoed b).toOption =
    (validateEmptyReview tools raw b).toOption

/-- The answers for which no place parses more than the stripped text, and the scan of the
text as it was sent does not tell the two apart. -/
structure Spared (tools : Tools) (raw echoed draft : List Char) (b : InputBundle) : Prop where
  first : ¬ FirstValid tools raw b
  second : ¬ SecondValid tools raw draft b
  recheck : acceptable echoed = acceptable raw ∨ ¬ RecheckValid tools raw b

theorem toOption_eq_none {x : Checked α} : x.toOption = none ↔ ¬ ∃ a, x = .ok a := by
  cases x <;> simp [Except.toOption]

/-- A first answer with the flag is discarded. -/
theorem Echo.first_none (h : Echo raw echoed) :
    (firstAnswer tools echoed b).toOption.join = none := by
  have hrefused : validateJson ReviewOutput.codec echoed = none :=
    h.refused _ (by decide +kernel)
  rw [Option.eq_none_iff_forall_ne_some]
  intro d hd
  simp only [firstAnswer, hrefused, found] at hd
  split at hd
  · rename_i draft hdraft
    obtain ⟨r, -, hr⟩ := Checked.bind_eq_ok.mp hdraft
    cases hr
  · cases hd
  · cases hd

theorem Echo.first_iff (h : Echo raw echoed) :
    (firstAnswer tools echoed b).toOption.join = (firstAnswer tools raw b).toOption.join ↔
      ¬ FirstValid tools raw b := by
  rw [h.first_none, ← firstAnswer_accepted h.strip_raw]
  constructor
  · rintro hnone ⟨d, hd⟩
    rw [hd] at hnone
    exact nomatch hnone
  · intro hnone
    cases hfirst : firstAnswer tools raw b with
    | error e => rfl
    | ok d =>
        cases d with
        | none => rfl
        | some d => exact (hnone ⟨d, hfirst⟩).elim

/-- A second answer with the flag is refused when its file checks are read. -/
theorem Echo.second_none (h : Echo raw echoed) :
    (verifiedResult tools echoed draft b).toOption = none := by
  have hrefused : validateJson VerificationOutput.codec echoed = none :=
    h.refused _ (by decide +kernel)
  rw [toOption_eq_none]
  rintro ⟨r, hr⟩
  simp only [verifiedResult, hrefused, Checked.bind_eq_ok, found_eq_ok] at hr
  obtain ⟨-, -, -, -, answer, hanswer, -⟩ := hr
  exact nomatch hanswer

theorem Echo.second_iff (h : Echo raw echoed) :
    (verifiedResult tools echoed draft b).toOption = (verifiedResult tools raw draft b).toOption ↔
      ¬ SecondValid tools raw draft b := by
  rw [h.second_none, ← verifiedResult_isOk h.strip_raw, ← toOption_eq_none]
  exact eq_comm

/-- The draft is only read once its flag is stripped. -/
theorem Echo.draft_eq (h : Echo raw echoed) :
    verifiedResult tools answer echoed b = verifiedResult tools answer raw b := by
  have happly : applyVerification answer echoed = applyVerification answer raw := by
    simp only [applyVerification, h.reads]
  simp only [verifiedResult, happly]

theorem Echo.recheckValid (h : Echo raw echoed) :
    RecheckValid tools echoed b ↔ RecheckValid tools raw b := by
  have hjson := h.reads EmptyReviewOutput.codec
  constructor
  · rintro ⟨houtput, hgrounds⟩
    exact ⟨hjson ▸ houtput, hgrounds⟩
  · rintro ⟨houtput, hgrounds⟩
    exact ⟨hjson.symm ▸ houtput, hgrounds⟩

theorem Echo.recheck_iff (h : Echo raw echoed) :
    (validateEmptyReview tools echoed b).toOption = (validateEmptyReview tools raw b).toOption ↔
      acceptable echoed = acceptable raw ∨ ¬ RecheckValid tools raw b := by
  constructor
  · intro heq
    by_contra hneither
    obtain ⟨hdiffer, hvalid⟩ := not_or.mp hneither
    have hok : (∃ r, validateEmptyReview tools echoed b = .ok r) ↔
        ∃ r, validateEmptyReview tools raw b = .ok r := by
      rw [← not_iff_not, ← toOption_eq_none, ← toOption_eq_none, heq]
    rw [validateEmptyReview_isOk, validateEmptyReview_isOk, h.recheckValid] at hok
    refine hdiffer (Bool.eq_iff_iff.mpr ⟨fun he => ?_, fun hr => ?_⟩)
    · exact (hok.mp ⟨he, not_not.mp hvalid⟩).1
    · exact (hok.mpr ⟨hr, not_not.mp hvalid⟩).1
  · rintro (hacceptable | hinvalid)
    · simp only [validateEmptyReview, hacceptable, h.reads]
    · rw [toOption_eq_none.mpr fun hok => hinvalid ((validateEmptyReview_isOk.mp hok).2)]
      refine toOption_eq_none.mpr fun hok => hinvalid ?_
      exact h.recheckValid.mp (validateEmptyReview_isOk.mp hok).2

/-- The echo is harmless exactly for the answers that would not be used without it, and
where the scan of a recheck does not tell the texts apart. -/
theorem echo_harmless_iff (h : Echo raw echoed) :
    Harmless tools raw echoed draft answer b ↔ Spared tools raw echoed draft b := by
  constructor
  · intro hharmless
    exact ⟨h.first_iff.mp hharmless.first, h.second_iff.mp hharmless.second,
      h.recheck_iff.mp hharmless.recheck⟩
  · intro hspared
    exact ⟨h.first_iff.mpr hspared.first, h.second_iff.mpr hspared.second,
      congrArg Except.toOption h.draft_eq, h.recheck_iff.mpr hspared.recheck⟩

end Harmless

/-! ## Executions -/

section Executions

/-- Objects that are printed with and without the flag. -/
theorem echo_print {ms : List Json.Member} (h : Json.WellFormed (.obj ms))
    (hkeys : echoKey ∉ ms.map Prod.fst) :
    Echo (Json.print Json.compact (.obj ms)) (Json.print Json.compact (.obj (echo :: ms))) := by
  cases h with
  | obj hnodup hvalues =>
      refine ⟨[], ms, Json.loads_print Json.readable_compact (.obj hnodup hvalues), ?_, hkeys⟩
      refine Json.loads_print Json.readable_compact (.obj ?_ ?_)
      · exact List.nodup_cons.mpr ⟨hkeys, hnodup⟩
      · exact List.forall_mem_cons.mpr ⟨.str _, hvalues⟩

theorem echo_dumpJson {f : Json.Fields α} (hnodup : f.names.Nodup) (hname : echoKey ∉ f.names)
    (a : α) : Echo (dumpJson (.record f hnodup) a)
      (Json.print Json.compact (.obj (echo :: f.dump a))) :=
  echo_print ((Json.Codec.record f hnodup).wellFormed a) (f.keys a ▸ hname)

/-- A draft without findings. -/
def noFindings : ReviewOutput :=
  { doubtful with issues := Sized.empty }

theorem observed_sized : 1 ≤ ['o'].length ∧ ['o'].length ≤ 240 :=
  ⟨Nat.le_refl 1, Nat.le_add_left 1 239⟩

theorem singleton_sized : ∀ c : FileCheck, 0 ≤ [c].length ∧ [c].length ≤ 8 :=
  fun _ => ⟨Nat.zero_le 1, Nat.le_add_left 1 7⟩

def checked : FileCheck :=
  ⟨concern.fileId, none, .noFinding, ⟨['o'], observed_sized⟩⟩

/-- A verifier that has no finding to settle. -/
def noDecisions : VerificationOutput where
  decisions := Sized.empty
  newFindings := Sized.empty
  fileChecks := ⟨[checked], singleton_sized checked⟩

def echoed (f : Json.Fields α) (a : α) : List Char :=
  Json.print Json.compact (.obj (echo :: f.dump a))

theorem noDecisions_valid : SecondValid plainTools (dumpJson VerificationOutput.codec noDecisions)
    (dumpJson ReviewOutput.codec noFindings) oneLine where
  acceptable := by decide +kernel
  settles := by
    refine ⟨noDecisions, noFindings, { noFindings with limitations := scopeNotice }, ⟨0, 0, 0, 0⟩,
      validateJson_dumpJson _ _, read_output _, ?_, by decide +kernel,
      by simp [Supported, noFindings], ?_⟩
    · simp [verifiedOutput, settleAll, noDecisions, noFindings, sortedDecisions, require]
      rfl
    · exact ⟨_, rfl⟩
  grounds _ := ⟨[], rfl, by simp⟩

/-- With the flag the first answer is discarded, and the second one refused. -/
theorem echo_refused :
    (Echo (dumpJson ReviewOutput.codec noFindings) (echoed ReviewOutput.fields noFindings) ∧
      Text.encodedLength (echoed ReviewOutput.fields noFindings) ≤ 24000 ∧
      ¬ Harmless plainTools (dumpJson ReviewOutput.codec noFindings)
        (echoed ReviewOutput.fields noFindings) [] [] oneLine) ∧
    Echo (dumpJson VerificationOutput.codec noDecisions)
        (echoed VerificationOutput.fields noDecisions) ∧
      Text.encodedLength (echoed VerificationOutput.fields noDecisions) ≤ 24000 ∧
      ¬ Harmless plainTools (dumpJson VerificationOutput.codec noDecisions)
        (echoed VerificationOutput.fields noDecisions) (dumpJson ReviewOutput.codec noFindings) []
        oneLine := by
  have hfirst : Echo (dumpJson ReviewOutput.codec noFindings)
      (echoed ReviewOutput.fields noFindings) :=
    echo_dumpJson _ (by decide +kernel) noFindings
  have hsecond : Echo (dumpJson VerificationOutput.codec noDecisions)
      (echoed VerificationOutput.fields noDecisions) :=
    echo_dumpJson _ (by decide +kernel) noDecisions
  have hused : FirstValid plainTools (dumpJson ReviewOutput.codec noFindings) oneLine :=
    ⟨by decide +kernel, noFindings, validateJson_dumpJson _ _, by simp [Supported, noFindings]⟩
  refine ⟨⟨hfirst, by decide +kernel, fun h => ?_⟩, hsecond, by decide +kernel, fun h => ?_⟩
  · exact hfirst.first_iff.mp h.first hused
  · exact hsecond.second_iff.mp h.second noDecisions_valid

theorem validateJson_dumped {β : Type} (c : Json.Codec α) (c' : Json.Codec β) (a : β) :
    validateJson c (dumpJson c' a) = c.read (c'.dump a) := by
  rw [validateJson, dumpJson, Json.loads_print Json.readable_compact (c'.wellFormed a)]
  rfl

/-- A recheck of a file without findings. -/
def quiet : EmptyReviewOutput where
  toReviewOutput := noFindings
  fileChecks := ⟨noDecisions.fileChecks.1, by simp [noDecisions]⟩

/-- It is no answer of the other places, and the flag does not matter to it. -/
theorem echo_harmless_quiet :
    Harmless plainTools (dumpJson EmptyReviewOutput.codec quiet)
      (echoed EmptyReviewOutput.fields quiet) [] [] oneLine := by
  have hecho : Echo (dumpJson EmptyReviewOutput.codec quiet)
      (echoed EmptyReviewOutput.fields quiet) :=
    echo_dumpJson _ (by decide +kernel) quiet
  have hfirst : (ReviewOutput.codec.read
      (EmptyReviewOutput.codec.dump quiet)).isNone = true := by
    decide +kernel
  have hsecond : (VerificationOutput.codec.read
      (EmptyReviewOutput.codec.dump quiet)).isNone = true := by
    decide +kernel
  refine (echo_harmless_iff hecho).mpr ⟨?_, ?_, Or.inl (by decide +kernel)⟩
  · rintro ⟨-, output, houtput, -⟩
    rw [validateJson_dumped] at houtput
    rw [houtput] at hfirst
    exact nomatch hfirst
  · rintro ⟨-, ⟨answer, -, -, -, hanswer, -⟩, -⟩
    rw [validateJson_dumped] at hanswer
    rw [hanswer] at hsecond
    exact nomatch hsecond

end Executions

end Prism.Policy
