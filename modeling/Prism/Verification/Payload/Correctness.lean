import Prism.Model.ReviewPayload
import Prism.Verification.Answer.Correctness
import Prism.Verification.Context.Correctness
import Prism.Verification.Standards.Retrieval
import Prism.Verification.Supplement.Correctness

/-! # The payloads of paid calls fit their budget -/

namespace Prism.Policy

open List
open Json (spaced memberSize)
open Standards (StandardSnapshot Retrieved sectionsSize)

/-! ## Anchors -/

theorem KeepsEvidence.isAnchored {read : List Char → Option Source} {perFile maxInput : ℕ}
    {b c : Evidence} (h : KeepsEvidence read perFile maxInput b c) :
    Anchored c.payload.files c.anchors where
  ids := h.distinct
  anchored fid := by
    constructor
    · rintro ⟨a, ha⟩
      exact h.names fid (Option.isSome_iff_exists.mpr ⟨a, ha⟩)
    · intro hfid
      obtain ⟨f, hf, rfl⟩ := mem_map.mp hfid
      obtain ⟨path, hpath⟩ := h.anchored f hf
      exact ⟨_, hpath⟩
  lines f hf a ha n := by
    obtain ⟨path, hpath⟩ := h.anchored f hf
    obtain rfl := Option.some.inj (hpath.symm.trans ha)
    exact Iff.rfl

theorem Prepared.isAnchored {perFile : ℕ} {changes : List (List Json.Member)} {b : Evidence}
    (h : Prepared perFile changes b.payload.files b.anchors) :
    Anchored b.payload.files b.anchors where
  ids := by
    have := ids_nodup h.ids b.payload.files.length 0
    rwa [range'_zero, map_nil, append_nil] at this
  anchored fid := by
    rw [← h.names, ← Option.isSome_iff_exists]
    exact lookup_isSome_iff_mem
  lines f hf a ha n := by
    have hkeys : (b.anchors.map fun a => (a.1, a.2.lines)).lookup f.fileId = some a.lines := by
      rw [lookup_map_snd Anchor.lines, ha, Option.map_some]
    have hids : (b.payload.files.map File.fileId).Nodup := by
      have := ids_nodup h.ids b.payload.files.length 0
      rwa [range'_zero, map_nil, append_nil] at this
    rw [h.anchored] at hkeys
    obtain ⟨l₁, l₂, hsplit, -⟩ := lookup_eq_some_iff.mp hkeys
    have hmem : (f.fileId, a.lines) ∈
        b.payload.files.map fun f => (f.fileId, (f.lines.map Row.line).dedup) := by
      rw [hsplit]
      exact mem_append_right _ mem_cons_self
    obtain ⟨g, hg, heq⟩ := mem_map.mp hmem
    obtain ⟨hid, hlines⟩ := Prod.mk.inj heq
    obtain rfl := inj_on_of_nodup_map hids hg hf hid
    rw [← hlines, mem_dedup]

/-! ## Sizes -/

section Size

variable (p : Payload)

/-- A payload in which nothing stands behind the earlier answers. -/
def Payload.Early (p : Payload) : Prop :=
  p = { files := p.files, findings := p.findings, reviewMode := p.reviewMode
        feedback := p.feedback }

variable {p}

theorem size_purpose (h : p.Early) (u : Purpose) : { p with purpose := some u }.size =
    p.size + memberSize spaced ("purpose".toList, .str (purposeLabel u)) := by
  have hmembers : { p with purpose := some u }.members =
      p.members ++ [("purpose".toList, .str (purposeLabel u))] := by
    rw [h]
    simp only [Payload.members, optionalMember, Option.toList, map_cons, map_nil, append_nil]
  rw [Payload.size, hmembers]
  exact Json.encodedLength_print_snoc spaced (members_ne_nil p) _

/-- What a payload for the team's documents takes with some sections. -/
theorem size_standards (h : p.Early) (paths : List (List Char × List Char)) :
    ∃ rest, ∀ sections : List StandardSection,
      { p with
        purpose := some .standards
        filePaths := some paths
        standards := some sections }.size = rest + sectionsSize sections := by
  have hmembers : ∀ sections : List StandardSection,
      { p with
        purpose := some .standards
        filePaths := some paths
        standards := some sections }.members =
      { p with purpose := some .standards, filePaths := some paths }.members ++
        [("untrusted_standards".toList, .arr (sections.map StandardSection.toJson))] := by
    intro sections
    rw [h]
    simp only [Payload.members, optionalMember, Option.toList, map_cons, map_nil, append_nil]
  refine ⟨{ p with purpose := some .standards, filePaths := some paths }.size +
    (Text.encodedLength spaced.item + Text.encodedLength (Json.quote "untrusted_standards".toList) +
      Text.encodedLength spaced.key), fun sections => ?_⟩
  rw [Payload.size, hmembers, Nat.add_assoc]
  exact Json.encodedLength_print_snoc spaced (members_ne_nil _) _

/-- Observations are added behind what is there. -/
theorem size_observations (h : p.semanticObservations = none ∧ p.pathObservations = none ∧
    p.supplement = none) (found : List Json) (paths : Option (List Json)) :
    p.size ≤ { p with semanticObservations := some found, pathObservations := paths }.size := by
  obtain ⟨hfound, hpaths, hsupplement⟩ := h
  have hfirst : { p with semanticObservations := some found }.members =
      p.members ++ [("semantic_observations".toList, .arr found)] := by
    simp only [Payload.members, optionalMember, hfound, hpaths, hsupplement, Option.toList,
      map_cons, map_nil, append_nil]
  have hle : p.size ≤ { p with semanticObservations := some found }.size := by
    rw [Payload.size, Payload.size, hfirst]
    exact (Json.encodedLength_print_snoc spaced (members_ne_nil p) _).ge.trans' (Nat.le_add_right _ _)
  refine hle.trans ?_
  cases paths with
  | none => rw [hpaths]
  | some paths =>
      have hsecond : { p with
          semanticObservations := some found, pathObservations := some paths }.members =
          { p with semanticObservations := some found }.members ++
            [("path_observations".toList, .arr paths)] := by
        simp only [Payload.members, optionalMember, hpaths, hsupplement, Option.toList, map_cons,
          map_nil, append_nil]
      rw [Payload.size, Payload.size, hsecond]
      exact (Json.encodedLength_print_snoc spaced (members_ne_nil _) _).ge.trans'
        (Nat.le_add_right _ _)

end Size

/-! ## The sections -/

section Sections

variable {S : Type} [LinearOrder S] [Zero S]

/-- A section is passed over or taken, and is taken when it is required. -/
theorem choose_cases {limit : ℤ} {fallback : Bool} {chosen chosen' : List StandardSection}
    {s : Standards.Scored S} (h : Standards.choose limit fallback chosen s = .ok chosen') :
    chosen' = chosen ∧ s.item.required = false ∨
      chosen' = chosen ++ [s.item] ∧ (sectionsSize chosen' : ℤ) ≤ limit := by
  unfold Standards.choose at h
  split_ifs at h with hpass hlarge hrequired
  · rw [Bool.and_eq_true, Bool.not_eq_true'] at hpass
    exact .inl ⟨(Except.ok.inj h).symm, hpass.1⟩
  · exact .inl ⟨(Except.ok.inj h).symm, Bool.not_eq_true _ ▸ hrequired⟩
  · obtain rfl := Except.ok.inj h
    exact .inr ⟨rfl, not_lt.mp hlarge⟩

theorem foldlM_choose {limit : ℤ} {fallback : Bool} {scored : List (Standards.Scored S)} :
    ∀ {chosen chosen' : List StandardSection},
      scored.foldlM (Standards.choose limit fallback) chosen = .ok chosen' →
      (chosen = [] ∨ (sectionsSize chosen : ℤ) ≤ limit) →
        (chosen' = [] ∨ (sectionsSize chosen' : ℤ) ≤ limit) ∧ chosen ⊆ chosen' ∧
          ∀ s ∈ scored, s.item.required = true → s.item ∈ chosen' := by
  induction scored with
  | nil =>
      intro chosen chosen' h hfits
      obtain rfl := Except.ok.inj h
      exact ⟨hfits, Subset.refl _, fun s hs => absurd hs not_mem_nil⟩
  | cons s scored ih =>
      intro chosen chosen' h hfits
      rw [foldlM_cons] at h
      cases hfirst : Standards.choose limit fallback chosen s with
      | error e =>
          rw [hfirst] at h
          cases h
      | ok next =>
          rw [hfirst] at h
          rcases choose_cases hfirst with ⟨rfl, hoptional⟩ | ⟨rfl, hlimit⟩
          · obtain ⟨hfits', hsub, hall⟩ := ih h hfits
            refine ⟨hfits', hsub, fun t ht hrequired => ?_⟩
            rcases mem_cons.mp ht with rfl | ht
            · rw [hoptional] at hrequired
              cases hrequired
            · exact hall t ht hrequired
          · obtain ⟨hfits', hsub, hall⟩ := ih h (.inr hlimit)
            refine ⟨hfits', Subset.trans (subset_append_left _ _) hsub, fun t ht hrequired => ?_⟩
            rcases mem_cons.mp ht with rfl | ht
            · exact hsub (mem_append_right _ (mem_singleton_self _))
            · exact hall t ht hrequired

/-- The sections that are retrieved fit, and every required one is among them. -/
theorem retrieve_fits {score : StandardSection → S} {candidates : List StandardSection}
    {maxBytes : ℤ} {r : Retrieved} (h : Standards.retrieve score candidates maxBytes = .ok r) :
    (r.sections = [] ∨ (sectionsSize r.sections : ℤ) ≤ maxBytes) ∧
      ∀ s ∈ candidates, s.required = true → s ∈ r.sections := by
  unfold Standards.retrieve at h
  dsimp only at h
  cases hrun : (Standards.scoredSections score candidates).foldlM
      (Standards.choose (min maxBytes Standards.maxContext)
        (Standards.scopeFallback (Standards.scoredSections score candidates))) [] with
  | error e =>
      rw [hrun] at h
      cases h
  | ok chosen =>
      rw [hrun] at h
      obtain rfl := Except.ok.inj h
      obtain ⟨hfits, -, hall⟩ := foldlM_choose hrun (.inl rfl)
      refine ⟨hfits.imp_right fun hle => hle.trans (min_le_left _ _), fun s hs hrequired => ?_⟩
      rw [← (Standards.scoredSections_perm score candidates).mem_iff, mem_map] at hs
      obtain ⟨t, ht, rfl⟩ := hs
      exact hall t ht hrequired

end Sections

/-! ## The stages -/

section Stages

variable {S : Type} [LinearOrder S] [Zero S] {score : List Char → StandardSection → S}
  {env : Retrieval} {connected : Bool} {tools : Projections} {r : ReviewRequest}
  {b b' : Evidence}

/-- What a purpose allows. The purpose of a security review is added without a check. -/
def allowance : Purpose → ℕ
  | .code => maxInput
  | .security => maxInput + 23
  | .standards => maxInput + 12 * 1024

theorem le_allowance (u : Purpose) : maxInput ≤ allowance u := by
  cases u with
  | code => exact le_rfl
  | security => exact Nat.le_add_right maxInput 23
  | standards => exact Nat.le_add_right maxInput (12 * 1024)

/-- A bundle before its purpose is known. -/
structure Open (r : ReviewRequest) (b : Evidence) : Prop where
  size : b.payload.size ≤ maxInput
  early : b.payload.Early
  findings : b.payload.findings = r.findings
  mode : b.payload.reviewMode = r.mode
  anchored : Anchored b.payload.files b.anchors

theorem prepare_open (h : prepare r.findings r.ignored maxFile maxInput r.mode r.changes
    r.totalFiles = .ok b) : Open r b ∧ b.payload.feedback = none := by
  obtain ⟨hprepared, hsize, -, hpayload⟩ := prepare_spec h
  refine ⟨⟨hsize, ?_, ?_, ?_, hprepared.isAnchored⟩, ?_⟩
  · rw [Payload.Early, hpayload]
  · rw [hpayload]
  · rw [hpayload]
  · rw [hpayload]

theorem enrich_open (hb : prepare r.findings r.ignored maxFile maxInput r.mode r.changes
    r.totalFiles = .ok b) (h : enrich env connected maxFile maxInput b = .ok b') :
    Open r b' ∧ b'.payload.feedback = none := by
  obtain ⟨hopen, hfeedback⟩ := prepare_open hb
  unfold enrich at h
  split_ifs at h
  · cases hc : collect env maxFile maxInput b with
    | error e =>
        rw [hc] at h
        cases h
    | ok c =>
        rw [hc] at h
        obtain rfl := Except.ok.inj h
        have hkeeps := (collect_keeps hb hc).1
        refine ⟨⟨hkeeps.size, ?_, ?_, ?_, hkeeps.isAnchored⟩, ?_⟩
        · rw [Payload.Early, hkeeps.rest, hopen.early]
        · rw [hkeeps.rest]
          exact hopen.findings
        · rw [hkeeps.rest]
          exact hopen.mode
        · rw [hkeeps.rest]
          exact hfeedback
  · obtain rfl := Except.ok.inj h
    exact ⟨⟨hopen.size, hopen.early, hopen.findings, hopen.mode, hopen.anchored⟩, hfeedback⟩

theorem withFeedback_open (h : Open r b) (feedback : List Feedback) :
    Open r (b.withFeedback feedback) ∧
      (b.payload.feedback = none → (b.withFeedback feedback).payload.feedback = none ∨
        (b.withFeedback feedback).payload.feedback = some feedback) := by
  unfold Evidence.withFeedback
  dsimp only
  split_ifs with hincluded
  · refine ⟨⟨hincluded.2.1, ?_, h.findings, h.mode, h.anchored⟩, fun _ => .inr rfl⟩
    rw [Payload.Early, h.early]
  · exact ⟨⟨h.size, h.early, h.findings, h.mode, h.anchored⟩, .inl⟩

/-- What the purpose adds to a bundle. -/
structure Purposed (r : ReviewRequest) (b b' : Evidence) : Prop where
  size : b'.payload.size ≤ allowance r.purpose
  rest : { b'.payload with purpose := none, filePaths := none, standards := none } = b.payload
  purpose : b'.payload.purpose = if r.purpose = .code then none else some r.purpose
  anchors : b'.anchors = b.anchors
  security : r.purpose = .security → b'.payload.size = b.payload.size + 23
  standards : r.purpose = .standards → ∃ sections, b'.payload.standards = some sections ∧
    sections ≠ [] ∧ ∀ s ∈ r.documents.flatMap (·.candidates b.paths), s.required = true →
      s ∈ sections

theorem Payload.Early.none {p : Payload} (h : p.Early) :
    { p with purpose := none, filePaths := none, standards := none } = p := by
  rw [h]

theorem security_member :
    memberSize spaced ("purpose".toList, .str (purposeLabel .security)) = 23 := by
  decide +kernel

theorem withStandards_purposed (hpurpose : r.purpose = .standards) (hb : Open r b)
    (h : b.withStandards score r.documents = .ok b') : Purposed r b b' := by
  unfold Evidence.withStandards at h
  split_ifs at h with hroom
  split at h
  · cases h
  · next knowledge hknowledge =>
    split_ifs at h with hempty
    obtain rfl := Except.ok.inj h
    obtain ⟨hfits, hrequired⟩ := retrieve_fits hknowledge
    obtain ⟨rest, hsize⟩ := size_standards hb.early b.paths
    have hnone : b.unguided.size = rest + 2 := by
      have hbrackets : sectionsSize [] = 2 := by decide +kernel
      rw [← hbrackets]
      exact hsize []
    have hlimit := hfits.resolve_left hempty
    rw [Evidence.available, hnone] at hlimit
    constructor
    · have hsections : Payload.size { b.unguided with standards := some knowledge.sections } =
          rest + sectionsSize knowledge.sections := hsize knowledge.sections
      have hbound : rest + sectionsSize knowledge.sections ≤ maxInput + 12 * 1024 := by omega
      exact hsections.le.trans (hbound.trans_eq (congrArg allowance hpurpose).symm)
    · exact hb.early.none
    · rw [hpurpose]
      rfl
    · rfl
    · intro hsecurity
      rw [hpurpose] at hsecurity
      cases hsecurity
    · exact fun _ => ⟨knowledge.sections, rfl, hempty, hrequired⟩

theorem withPurpose_purposed (hb : Open r b)
    (h : b.withPurpose score r.purpose r.documents = .ok b') : Purposed r b b' := by
  unfold Evidence.withPurpose at h
  split at h
  · next hpurpose =>
    obtain rfl := Except.ok.inj h
    constructor
    · rw [hpurpose]
      exact hb.size
    · exact hb.early.none
    · rw [hpurpose, hb.early]
      rfl
    · rfl
    · intro hsecurity
      rw [hpurpose] at hsecurity
      cases hsecurity
    · intro hstandards
      rw [hpurpose] at hstandards
      cases hstandards
  · next hpurpose =>
    obtain rfl := Except.ok.inj h
    have hsize := size_purpose hb.early .security
    rw [security_member] at hsize
    constructor
    · have hbound := hsize.le.trans (Nat.add_le_add_right hb.size 23)
      exact hbound.trans_eq (congrArg allowance hpurpose).symm
    · exact hb.early.none
    · rw [hpurpose]
      rfl
    · rfl
    · exact fun _ => hsize
    · intro hstandards
      rw [hpurpose] at hstandards
      cases hstandards
  · next hpurpose => exact withStandards_purposed hpurpose hb h

/-- The observations are added within the limit, or left out. -/
theorem addObservations_cases (b : Evidence) (tools : Projections) :
    b.addObservations tools = b ∨ ∃ found paths, Payload.size { b.payload with
        semanticObservations := some found
        pathObservations := paths } ≤ maxInput ∧
      b.addObservations tools = { b with payload := { b.payload with
        semanticObservations := some found
        pathObservations := paths } } := by
  unfold Evidence.addObservations
  dsimp only
  split_ifs with hnothing hpaths hfits hfits
  · exact .inl rfl
  · exact .inr ⟨_, _, hfits, rfl⟩
  · exact .inl rfl
  · exact .inr ⟨_, _, hfits, rfl⟩
  · exact .inl rfl

/-- What is handed to the provider, against the bundle `e` with its context. -/
structure Payable (r : ReviewRequest) (e b : Evidence) : Prop where
  size : b.payload.size ≤ allowance r.purpose
  /-- A security review is over the limit when its purpose takes it there. -/
  security : r.purpose = .security →
    (b.payload.size ≤ maxInput ↔ (e.withFeedback r.feedback).payload.size + 23 ≤ maxInput)
  evidence : b.payload.files = e.payload.files ∧ b.payload.findings = r.findings ∧
    b.payload.reviewMode = r.mode
  feedback : b.payload.feedback = none ∨ b.payload.feedback = some r.feedback
  purpose : b.payload.purpose = if r.purpose = .code then none else some r.purpose
  anchors : b.anchors = e.anchors
  anchored : Anchored b.payload.files b.anchors
  standards : r.purpose = .standards → ∃ sections, b.payload.standards = some sections ∧
    sections ≠ [] ∧ ∀ s ∈ r.documents.flatMap (·.candidates e.paths), s.required = true →
      s ∈ sections

theorem withFeedback_same (b : Evidence) (feedback : List Feedback) :
    (b.withFeedback feedback).anchors = b.anchors ∧
      (b.withFeedback feedback).payload.files = b.payload.files := by
  unfold Evidence.withFeedback
  dsimp only
  split_ifs <;> exact ⟨rfl, rfl⟩

theorem addObservations_security (hpurpose : r.purpose = .security) (hb : Open r b)
    (h : Purposed r b b') : (b'.addObservations tools).payload.size ≤ maxInput ↔
      b.payload.size + 23 ≤ maxInput := by
  rw [← h.security hpurpose]
  have hlate : b'.payload.semanticObservations = none ∧ b'.payload.pathObservations = none ∧
      b'.payload.supplement = none := by
    have hrest := h.rest.trans hb.early
    exact ⟨congrArg Payload.semanticObservations hrest, congrArg Payload.pathObservations hrest,
      congrArg Payload.supplement hrest⟩
  rcases addObservations_cases b' tools with heq | ⟨found, paths, hfits, heq⟩
  · rw [heq]
  · rw [heq]
    exact iff_of_true hfits ((size_observations hlate found paths).trans hfits)

theorem Purposed.payable {e : Evidence} (hopen : Open r (e.withFeedback r.feedback))
    (hfeedback : (e.withFeedback r.feedback).payload.feedback = none ∨
      (e.withFeedback r.feedback).payload.feedback = some r.feedback)
    (h : Purposed r (e.withFeedback r.feedback) b) : Payable r e (b.addObservations tools) := by
  obtain ⟨hanchors, hfiles⟩ := withFeedback_same e r.feedback
  have hpaths : (e.withFeedback r.feedback).paths = e.paths := by
    rw [Evidence.paths, hanchors, Evidence.paths]
  have hsecurity : r.purpose = .security → ((b.addObservations tools).payload.size ≤ maxInput ↔
      (e.withFeedback r.feedback).payload.size + 23 ≤ maxInput) :=
    fun hpurpose => addObservations_security hpurpose hopen h
  have hstandards := h.standards
  rw [hpaths] at hstandards
  have hsame : b.payload.files = (e.withFeedback r.feedback).payload.files ∧
      b.payload.findings = (e.withFeedback r.feedback).payload.findings ∧
      b.payload.reviewMode = (e.withFeedback r.feedback).payload.reviewMode ∧
      b.payload.feedback = (e.withFeedback r.feedback).payload.feedback := by
    rw [← h.rest]
    exact ⟨rfl, rfl, rfl, rfl⟩
  have hanchored := hopen.anchored
  rw [← hsame.1, ← h.anchors] at hanchored
  have hevidence : b.payload.files = e.payload.files ∧ b.payload.findings = r.findings ∧
      b.payload.reviewMode = r.mode :=
    ⟨hsame.1.trans hfiles, hsame.2.1.trans hopen.findings, hsame.2.2.1.trans hopen.mode⟩
  rcases addObservations_cases b tools with heq | ⟨found, paths, hfits, heq⟩
  · rw [heq] at hsecurity ⊢
    exact ⟨h.size, hsecurity, hevidence, hsame.2.2.2.symm ▸ hfeedback, h.purpose,
      h.anchors.trans hanchors, hanchored, hstandards⟩
  · rw [heq] at hsecurity ⊢
    exact ⟨hfits.trans (le_allowance _), hsecurity, hevidence, hsame.2.2.2.symm ▸ hfeedback,
      h.purpose, h.anchors.trans hanchors, hanchored, hstandards⟩

/-- Where no path is shown under two names, an answer to the call is checked against a consistent
bundle. -/
theorem Payable.consistent {e : Evidence} (h : Payable r e b)
    (hpaths : (b.anchors.map fun a => a.2.path).Nodup) : Consistent b.bundle where
  ids := h.anchored.ids
  anchored fid := Option.isSome_iff_exists.trans (h.anchored.anchored fid)
  lines f hf a ha n := h.anchored.lines f hf a ha n
  paths fid fid' a a' ha ha' hpath := by
    obtain ⟨before, after, hsplit, -⟩ := lookup_eq_some_iff.mp ha
    obtain ⟨before', after', hsplit', -⟩ := lookup_eq_some_iff.mp ha'
    have hmem : (fid, a) ∈ b.anchors := by
      rw [show b.anchors = _ from hsplit]
      simp
    have hmem' : (fid', a') ∈ b.anchors := by
      rw [show b.anchors = _ from hsplit']
      simp
    exact congrArg Prod.fst (inj_on_of_nodup_map hpaths hmem hmem' hpath)

/-- The size after the context that the model asked for. -/
theorem Payable.supplemented {e : Evidence} (h : Payable r e b) {isWord : Char → Bool}
    {ignored : List (List Char)} {fetch : ℕ → List Char → Except ReadFailure Source}
    {requests : List OutputSchema.ContextRequest}
    (hrun : supplement isWord ignored fetch b requests = .ok b') :
    b'.payload.size ≤ allowance r.purpose := by
  cases hs : supplementing isWord ignored fetch b requests with
  | error x =>
      unfold supplement at hrun
      rw [hs] at hrun
      cases hrun
  | ok s =>
      obtain ⟨hspec, -⟩ := supplementing_spec h.anchored hs
      rcases supplement_cases hs hrun with ⟨-, rfl⟩ | ⟨coverage, hfits, rfl⟩ | ⟨-, coverage, rfl⟩
      · exact h.size
      · have hpurpose : s.payload.purpose = b.payload.purpose := by
          rw [← hspec.payload]
        simp only [Payload.fits, Bool.and_eq_true, decide_eq_true_eq, Nat.add_zero] at hfits
        refine hfits.2.trans ?_
        rw [Payload.maximum, hpurpose, h.purpose]
        cases r.purpose with
        | code => exact le_rfl
        | security => exact Nat.add_le_add_left (Nat.zero_le 23) maxInput
        | standards => exact le_rfl
      · exact h.size

/-- What the first paid call sends is within what the purpose of the review allows, and so is what
`recheck_empty` sends after the context that the first answer asked for. A call of `verify` sends
the draft beside that payload, and nothing bounds the two together. -/
theorem paid_payloads_fit (h : r.bundle score env connected tools = .ok b) :
    (∃ start e, prepare r.findings r.ignored maxFile maxInput r.mode r.changes r.totalFiles =
        .ok start ∧ enrich env connected maxFile maxInput start = .ok e ∧ Payable r e b) ∧
      ∀ isWord ignored fetch requests b', supplement isWord ignored fetch b requests = .ok b' →
        b'.payload.size ≤ allowance r.purpose := by
  unfold ReviewRequest.bundle at h
  cases hstart : prepare r.findings r.ignored maxFile maxInput r.mode r.changes r.totalFiles with
  | error x =>
      rw [hstart] at h
      cases h
  | ok start =>
      rw [hstart] at h
      cases he : enrich env connected maxFile maxInput start with
      | error x =>
          simp only [Except.mapError, bind, Except.bind, he] at h
          cases h
      | ok e =>
          simp only [Except.mapError, bind, Except.bind, he] at h
          cases hp : (e.withFeedback r.feedback).withPurpose score r.purpose r.documents with
          | error x =>
              rw [hp] at h
              cases h
          | ok p =>
              rw [hp] at h
              obtain rfl := Except.ok.inj h
              obtain ⟨hopen, hnone⟩ := enrich_open hstart he
              obtain ⟨hopen', hfeedback⟩ := withFeedback_open hopen r.feedback
              have hpayable : Payable r e (p.addObservations tools) :=
                (withPurpose_purposed hopen' hp).payable hopen' (hfeedback hnone)
              exact ⟨⟨start, e, rfl, he, hpayable⟩,
                fun isWord ignored fetch requests b' hrun => hpayable.supplemented hrun⟩

end Stages

/-! ## Executions -/

section Executions

/-- A security review of one changed file, without any context. -/
def securityRequest : ReviewRequest where
  changes := [appended ['b']]
  totalFiles := none
  findings := []
  ignored := []
  mode := some .junior
  purpose := .security
  feedback := [⟨['t'], "PLANNED".toList, []⟩]
  documents := []

def noProjections : Projections where
  facts _ := []
  dictionaryFacts _ := []
  pathFacts _ := []

theorem paid_payloads_fit_security : ∃ b,
    securityRequest.bundle (fun _ _ => (0 : ℕ)) threeLines false noProjections = .ok b ∧
      b.payload.purpose = some .security ∧ b.payload.size ≤ maxInput + 23 := by
  have hok : (securityRequest.bundle (fun _ _ => (0 : ℕ)) threeLines false
      noProjections).toOption.isSome = true := by
    decide +kernel
  cases hb : securityRequest.bundle (fun _ _ => (0 : ℕ)) threeLines false noProjections with
  | error e =>
      rw [hb] at hok
      cases hok
  | ok b =>
      obtain ⟨⟨_, _, _, _, hpayable⟩, -⟩ := paid_payloads_fit hb
      exact ⟨b, rfl, hpayable.purpose, hpayable.size⟩

end Executions

end Prism.Policy
