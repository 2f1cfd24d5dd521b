import Prism.Foundation.JsonSize
import Prism.Model.StandardsContext

/-! # The choice of sections for a review -/

namespace Prism.Standards

open List
open Policy (StandardSection encodedSize dumps)

variable {S : Type} [LinearOrder S] {score : StandardSection → S}
  {candidates : List StandardSection}

/-! ## Statements -/

section Statements

variable [Zero S]

/-- No candidate is required, and none is relevant. -/
def Unscoped (score : StandardSection → S) (candidates : List StandardSection) : Prop :=
  ∀ t ∈ candidates, t.required = false ∧ ¬ 0 < score t

/-- What a selection of sections keeps of the candidates. -/
structure Retrieves (score : StandardSection → S) (candidates : List StandardSection)
    (maxBytes : ℤ) (r : Retrieved) : Prop where
  /-- No candidate is chosen twice. -/
  once : r.sections <+~ candidates
  required : r.sections.filter (·.required) ~ candidates.filter (·.required)
  fits : r.sections ≠ [] → (sectionsSize r.sections : ℤ) ≤ min maxBytes maxContext
  optional : ∀ i s, r.sections[i]? = some s → s.required = false →
    (0 < score s ∨ Unscoped score candidates) ∧ i < 12
  counted : r.candidateCount = candidates.length
  omitted : r.omittedSections = candidates.length - r.sections.length

end Statements

/-! ## The order of the candidates -/

theorem before_iff {a b : Scored S} : a.before b = true ↔
    a.item.required = true ∧ b.item.required = false ∨
    a.item.required = b.item.required ∧
      (b.score < a.score ∨ a.score = b.score ∧ a.index ≤ b.index) := by
  unfold Scored.before
  by_cases hrequired : a.item.required = b.item.required
  · by_cases hscore : a.score = b.score
    · simp [hrequired, hscore]
    · simp [hrequired, hscore]
  · cases ha : a.item.required <;> cases hb : b.item.required <;> simp_all

theorem before_trans (a b c : Scored S) (hab : a.before b = true) (hbc : b.before c = true) :
    a.before c = true := by
  rw [before_iff] at hab hbc ⊢
  obtain ⟨ha, hb⟩ | ⟨hab, hscore⟩ := hab
  · obtain ⟨hb', -⟩ | ⟨hbc, -⟩ := hbc
    · exact absurd (hb.symm.trans hb') Bool.false_ne_true
    · exact .inl ⟨ha, hbc ▸ hb⟩
  · obtain ⟨hb, hc⟩ | ⟨hbc, hscore'⟩ := hbc
    · exact .inl ⟨hab ▸ hb, hc⟩
    · refine .inr ⟨hab.trans hbc, ?_⟩
      obtain hlt | ⟨heq, hle⟩ := hscore
      · obtain hlt' | ⟨heq', -⟩ := hscore'
        · exact .inl (hlt'.trans hlt)
        · exact .inl (heq' ▸ hlt)
      · obtain hlt' | ⟨heq', hle'⟩ := hscore'
        · exact .inl (heq ▸ hlt')
        · exact .inr ⟨heq.trans heq', hle.trans hle'⟩

theorem before_total (a b : Scored S) : (a.before b || b.before a) = true := by
  rw [Bool.or_eq_true, before_iff, before_iff]
  by_cases hrequired : a.item.required = b.item.required
  · obtain hlt | heq | hlt := lt_trichotomy a.score b.score
    · exact .inr (.inr ⟨hrequired.symm, .inl hlt⟩)
    · obtain hle | hle := Nat.le_total a.index b.index
      · exact .inl (.inr ⟨hrequired, .inr ⟨heq, hle⟩⟩)
      · exact .inr (.inr ⟨hrequired.symm, .inr ⟨heq.symm, hle⟩⟩)
    · exact .inl (.inr ⟨hrequired, .inl hlt⟩)
  · cases ha : a.item.required with
    | true =>
        have hb : b.item.required = false := by simpa [ha] using hrequired
        exact .inl (.inl ⟨rfl, hb⟩)
    | false =>
        have hb : b.item.required = true := by simpa [ha] using hrequired
        exact .inr (.inl ⟨hb, rfl⟩)

/-- The scored candidates are the candidates. -/
theorem scoredSections_perm (score : StandardSection → S) (candidates : List StandardSection) :
    (scoredSections score candidates).map Scored.item ~ candidates := by
  refine ((mergeSort_perm _ _).map _).trans ?_
  rw [map_map]
  exact (zipIdx_map_fst 0 candidates).symm ▸ Perm.refl _

theorem scoredSections_score :
    ∀ s ∈ scoredSections score candidates, s.score = score s.item := by
  intro s hs
  obtain ⟨⟨item, i⟩, -, rfl⟩ := mem_map.mp (mem_mergeSort.mp hs)
  rfl

/-- The required ones come first. -/
theorem scoredSections_split (score : StandardSection → S) (candidates : List StandardSection) :
    ∃ first rest, scoredSections score candidates = first ++ rest ∧
      (∀ s ∈ first, s.item.required = true) ∧ ∀ s ∈ rest, s.item.required = false := by
  have hsorted : (scoredSections score candidates).Pairwise fun a b => a.before b = true :=
    pairwise_mergeSort before_trans before_total _
  generalize scoredSections score candidates = scored at hsorted
  induction scored with
  | nil => exact ⟨[], [], rfl, by simp, by simp⟩
  | cons s scored ih =>
      obtain ⟨hs, htail⟩ := pairwise_cons.mp hsorted
      cases hrequired : s.item.required with
      | true =>
          obtain ⟨first, rest, rfl, hfirst, hrest⟩ := ih htail
          exact ⟨s :: first, rest, rfl, by simpa [hrequired] using hfirst, hrest⟩
      | false =>
          refine ⟨[], s :: scored, rfl, by simp, ?_⟩
          intro t ht
          obtain rfl | ht := mem_cons.mp ht
          · exact hrequired
          · obtain ⟨hs', -⟩ | ⟨hsame, -⟩ := before_iff.mp (hs t ht)
            · exact absurd (hrequired.symm.trans hs') Bool.false_ne_true
            · exact hsame ▸ hrequired

theorem filter_required {shown more : List StandardSection} (h : ∀ s ∈ shown, s.required = true)
    (hmore : ∀ s ∈ more, s.required = false) :
    (shown ++ more).filter (·.required) = shown := by
  rw [filter_append, filter_eq_self.mpr h, filter_eq_nil_iff.mpr (by simpa using hmore), append_nil]

theorem split_perm {first rest : List (Scored S)}
    (hscored : scoredSections score candidates = first ++ rest) :
    first.map Scored.item ++ rest.map Scored.item ~ candidates := by
  rw [← map_append, ← hscored]
  exact scoredSections_perm score candidates

/-- The candidates that come first are the required ones. -/
theorem required_perm {first rest : List (Scored S)}
    (hscored : scoredSections score candidates = first ++ rest)
    (hfirst : ∀ s ∈ first, s.item.required = true) (hrest : ∀ s ∈ rest, s.item.required = false) :
    candidates.filter (·.required) ~ first.map Scored.item := by
  have h := (split_perm hscored).symm.filter (·.required)
  rwa [filter_required (by simpa using hfirst) (by simpa using hrest)] at h

variable [Zero S]

theorem scopeFallback_iff (hne : scoredSections score candidates ≠ []) :
    scopeFallback (scoredSections score candidates) = true ↔ Unscoped score candidates := by
  have hmem : ∀ t, t ∈ candidates ↔ ∃ s ∈ scoredSections score candidates, s.item = t := by
    intro t
    rw [← (scoredSections_perm score candidates).mem_iff, mem_map]
  simp only [scopeFallback, Unscoped, Bool.and_eq_true, Bool.not_eq_true', isEmpty_eq_false_iff,
    any_eq_false, Bool.or_eq_true, decide_eq_true_eq, not_or, Bool.not_eq_true]
  rw [and_iff_right hne]
  constructor
  · intro h t ht
    obtain ⟨s, hs, rfl⟩ := (hmem t).mp ht
    obtain ⟨hrequired, hscore⟩ := h s hs
    exact ⟨hrequired, scoredSections_score s hs ▸ hscore⟩
  · intro h s hs
    obtain ⟨hrequired, hscore⟩ := h s.item ((hmem _).mpr ⟨s, hs, rfl⟩)
    exact ⟨hrequired, scoredSections_score s hs ▸ hscore⟩

/-! ## The sizes -/

theorem sectionsSize_eq {sections : List StandardSection} (hne : sections ≠ []) :
    sectionsSize sections = Json.itemsSize Json.spaced (sections.map StandardSection.toJson) := by
  have hitems : sections.map StandardSection.toJson ≠ [] := by simpa using hne
  have h := Json.encodedLength_print_arr Json.spaced hitems
  have hitem : Text.encodedLength Json.spaced.item = 2 := by decide
  rw [hitem] at h
  exact Nat.add_right_cancel h

theorem sectionsSize_perm {sections sections' : List StandardSection} (h : sections ~ sections') :
    sectionsSize sections = sectionsSize sections' := by
  by_cases hne : sections = []
  · rw [hne] at h ⊢
    rw [h.nil_eq]
  · rw [sectionsSize_eq hne, sectionsSize_eq fun h' => hne (h' ▸ h).eq_nil]
    exact ((h.map _).map _).sum_nat

theorem sectionsSize_append {sections : List StandardSection} (hne : sections ≠ [])
    (more : List StandardSection) : sectionsSize sections ≤ sectionsSize (sections ++ more) := by
  rw [sectionsSize_eq hne, sectionsSize_eq (by simp [hne]), Json.itemsSize, Json.itemsSize,
    map_append, map_append, sum_append]
  exact Nat.le_add_right _ _

/-! ## The selection -/

variable (limit : ℤ) (fallback : Bool)

/-- Required sections are all chosen, or they are too large. -/
theorem foldlM_required {first : List (Scored S)} (h : ∀ s ∈ first, s.item.required = true) :
    ∀ chosen, first.foldlM (choose limit fallback) chosen =
      if first ≠ [] ∧ limit < sectionsSize (chosen ++ first.map Scored.item) then
        .error .requiredTooLarge
      else .ok (chosen ++ first.map Scored.item) := by
  induction first with
  | nil =>
      intro chosen
      simp [pure, Except.pure]
  | cons s first ih =>
      intro chosen
      have hs : s.item.required = true := h s mem_cons_self
      have hshift : chosen ++ (s :: first).map Scored.item =
          chosen ++ [s.item] ++ first.map Scored.item := by simp
      rw [foldlM_cons, choose, hshift]
      by_cases hlarge : limit < sectionsSize (chosen ++ [s.item])
      · have hall := sectionsSize_append (show chosen ++ [s.item] ≠ [] by simp)
          (first.map Scored.item)
        rw [if_neg (by simp [hs]), if_pos hlarge, if_pos hs, if_pos ⟨cons_ne_nil _ _, by omega⟩]
        rfl
      · rw [if_neg (by simp [hs]), if_neg hlarge]
        change first.foldlM _ _ = _
        rw [ih fun t ht => h t (mem_cons_of_mem _ ht)]
        by_cases hfirst : first = []
        · simp [hfirst, hlarge]
        · simp [hfirst]

variable {limit fallback} {rest : List (Scored S)} {chosen more : List StandardSection}
  {s : Scored S}

/-- What is chosen of optional sections besides those that are chosen already. -/
structure Added (limit : ℤ) (fallback : Bool) (rest : List (Scored S))
    (chosen more : List StandardSection) : Prop where
  sub : more <+ rest.map Scored.item
  fits : more ≠ [] → (sectionsSize (chosen ++ more) : ℤ) ≤ limit
  relevant : ∀ t ∈ more, ∃ s ∈ rest, s.item = t ∧ (0 < s.score ∨ fallback = true)
  few : more ≠ [] → chosen.length + more.length ≤ 12

theorem Added.skip (h : Added limit fallback rest chosen more) :
    Added limit fallback (s :: rest) chosen more where
  sub := h.sub.cons _
  fits := h.fits
  relevant t ht := by
    obtain ⟨u, hu, hitem, hscore⟩ := h.relevant t ht
    exact ⟨u, mem_cons_of_mem _ hu, hitem, hscore⟩
  few := h.few

theorem Added.add (h : Added limit fallback rest (chosen ++ [s.item]) more)
    (hsize : (sectionsSize (chosen ++ [s.item]) : ℤ) ≤ limit)
    (hscore : 0 < s.score ∨ fallback = true) (hfew : chosen.length < 12) :
    Added limit fallback (s :: rest) chosen (s.item :: more) where
  sub := h.sub.cons_cons _
  fits _ := by
    by_cases hnil : more = []
    · rwa [hnil]
    · have hfits := h.fits hnil
      rwa [← append_cons] at hfits
  relevant t ht := by
    obtain rfl | ht := mem_cons.mp ht
    · exact ⟨s, mem_cons_self, rfl, hscore⟩
    · obtain ⟨u, hu, hitem, hscore⟩ := h.relevant t ht
      exact ⟨u, mem_cons_of_mem _ hu, hitem, hscore⟩
  few _ := by
    by_cases hnil : more = []
    · rw [hnil, length_singleton]
      exact hfew
    · have hmore := h.few hnil
      rw [length_append, length_singleton] at hmore
      rw [length_cons]
      omega

/-- Of the optional sections some are chosen, as long as they fit and there are few. -/
theorem foldlM_optional (limit : ℤ) (fallback : Bool)
    (h : ∀ s ∈ rest, s.item.required = false) :
    ∀ chosen, ∃ more, rest.foldlM (choose limit fallback) chosen = .ok (chosen ++ more) ∧
      Added limit fallback rest chosen more := by
  induction rest with
  | nil =>
      intro chosen
      exact ⟨[], by simp [pure, Except.pure], .slnil, by simp, by simp, by simp⟩
  | cons s rest ih =>
      intro chosen
      obtain ⟨hs, hrest⟩ := forall_mem_cons.mp h
      have hskip : choose limit fallback chosen s = .ok chosen →
          ∃ more, (s :: rest).foldlM (choose limit fallback) chosen = .ok (chosen ++ more) ∧
            Added limit fallback (s :: rest) chosen more := by
        intro hstep
        obtain ⟨more, hfold, hadded⟩ := ih hrest chosen
        refine ⟨more, ?_, hadded.skip⟩
        rw [foldlM_cons, hstep]
        exact hfold
      by_cases hpass : (s.score ≤ 0 && !fallback || decide (12 ≤ chosen.length)) = true
      · exact hskip (by rw [choose, if_pos (by simpa [hs] using hpass)])
      by_cases hlarge : limit < sectionsSize (chosen ++ [s.item])
      · refine hskip ?_
        rw [choose, if_neg (by simpa [hs] using hpass), if_pos hlarge, if_neg (by simp [hs])]
      · obtain ⟨more, hfold, hadded⟩ := ih hrest (chosen ++ [s.item])
        refine ⟨s.item :: more, ?_, ?_⟩
        · rw [append_cons, ← hfold, foldlM_cons, choose, if_neg (by simpa [hs] using hpass),
            if_neg hlarge]
          rfl
        · simp only [Bool.or_eq_true, Bool.and_eq_true, decide_eq_true_eq, Bool.not_eq_true',
            not_or, not_and, not_le, Bool.not_eq_false] at hpass
          refine hadded.add (not_lt.mp hlarge) ?_ hpass.2
          obtain hscore | hscore := lt_or_ge 0 s.score
          · exact .inl hscore
          · exact .inr (hpass.1 hscore)

/-! ## Main result -/

/-- The sections that are shown where the required ones are not too large. -/
theorem Added.retrieves {first : List (Scored S)} {maxBytes : ℤ}
    (hscored : scoredSections score candidates = first ++ rest)
    (hfirst : ∀ s ∈ first, s.item.required = true) (hrest : ∀ s ∈ rest, s.item.required = false)
    (hsize : first ≠ [] → (sectionsSize (first.map Scored.item) : ℤ) ≤ min maxBytes maxContext)
    (h : Added (min maxBytes maxContext) (scopeFallback (scoredSections score candidates)) rest
      (first.map Scored.item) more) {r : Retrieved}
    (hshown : r.sections = first.map Scored.item ++ more)
    (hcounted : r.candidateCount = candidates.length)
    (homitted : r.omittedSections = candidates.length - r.sections.length) :
    Retrieves score candidates maxBytes r := by
  have hoptional : ∀ t ∈ more, t.required = false := by
    intro t ht
    obtain ⟨s, hs, rfl⟩ := mem_map.mp (h.sub.subset ht)
    exact hrest s hs
  refine ⟨?_, ?_, ?_, ?_, hcounted, homitted⟩
  · rw [hshown]
    exact ((Sublist.refl _).append h.sub).subperm.trans (split_perm hscored).subperm
  · rw [hshown, filter_required (by simpa using hfirst) hoptional]
    exact (required_perm hscored hfirst hrest).symm
  · rw [hshown]
    intro hne
    by_cases hnil : more = []
    · rw [hnil, append_nil] at hne ⊢
      exact hsize (by simpa using hne)
    · exact h.fits hnil
  · intro i t ht hnot
    rw [hshown] at ht
    obtain hi | hi := lt_or_ge i (first.map Scored.item).length
    · rw [getElem?_append_left hi] at ht
      obtain ⟨s, hs, rfl⟩ := mem_map.mp (mem_of_getElem? ht)
      rw [hfirst s hs] at hnot
      cases hnot
    · rw [getElem?_append_right hi] at ht
      have hadded := mem_of_getElem? ht
      obtain ⟨s, hs, rfl, hscore⟩ := h.relevant t hadded
      have hfew := h.few (ne_nil_of_mem hadded)
      have hplace := (List.getElem?_eq_some_iff.mp ht).1
      have hmem : s ∈ scoredSections score candidates := hscored ▸ mem_append_right _ hs
      refine ⟨?_, by omega⟩
      rw [← scoredSections_score s hmem]
      exact hscore.imp_right (scopeFallback_iff (ne_nil_of_mem hmem)).mp

/-- Required sections are all shown, or the request fails because they are too large. What is
shown besides is relevant and fits, and what is left out is counted. -/
theorem retrieve_spec (score : StandardSection → S) (candidates : List StandardSection)
    (maxBytes : ℤ) :
    (retrieve score candidates maxBytes = .error .requiredTooLarge ↔
      (∃ s ∈ candidates, s.required = true) ∧
        min maxBytes maxContext < sectionsSize (candidates.filter (·.required))) ∧
    ∀ r, retrieve score candidates maxBytes = .ok r → Retrieves score candidates maxBytes r := by
  obtain ⟨first, rest, hscored, hfirst, hrest⟩ := scoredSections_split score candidates
  have hrequired := required_perm hscored hfirst hrest
  have hexists : (∃ s ∈ candidates, s.required = true) ↔ first ≠ [] := by
    rw [← length_pos_iff, ← length_map Scored.item, ← hrequired.length_eq,
      length_pos_iff_exists_mem]
    simp only [mem_filter]
  rw [hexists, sectionsSize_perm hrequired]
  unfold retrieve
  dsimp only
  generalize hfallback : scopeFallback (scoredSections score candidates) = fallback
  rw [hscored, foldlM_append]
  have hrun := foldlM_required (min maxBytes maxContext) fallback hfirst []
  rw [nil_append] at hrun
  by_cases hover : first ≠ [] ∧ min maxBytes maxContext < sectionsSize (first.map Scored.item)
  · rw [if_pos hover] at hrun
    rw [hrun]
    exact ⟨iff_of_true rfl hover, fun r hr => nomatch hr⟩
  · rw [if_neg hover] at hrun
    obtain ⟨more, hfold, hadded⟩ := foldlM_optional (min maxBytes maxContext) fallback hrest
      (first.map Scored.item)
    rw [hrun]
    change (Except.map _ (rest.foldlM _ _) = _ ↔ _) ∧ ∀ r, Except.map _ (rest.foldlM _ _) = _ → _
    rw [hfold]
    refine ⟨iff_of_false (fun h => nomatch h) hover, ?_⟩
    rintro r hr
    obtain rfl := Except.ok.inj hr
    subst hfallback
    exact hadded.retrieves hscored hfirst hrest (fun hne => not_lt.mp fun h => hover ⟨hne, h⟩) rfl
      rfl rfl

end Prism.Standards
