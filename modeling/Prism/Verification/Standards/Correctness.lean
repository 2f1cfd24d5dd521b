import Prism.Model.Standards
import Prism.Verification.ContentSafety.Correctness

/-! Which team documents the validator lets through, and what the secret filter
says of their texts. -/

namespace Prism.Standards

open ContentSafety (secret Concealed)

/-- Everything the validation asks of a document, the secret filter apart. -/
structure Checked (d : DocumentInput) : Prop where
  fields : d.fields = true
  readable : d.readable = true
  values : d.rules.all Rule.plainValue = true
  patterns : d.patterns.all isRelative = true
  indexed : indexDocument d.content ≠ []
  sources : ∀ r ∈ d.rules, r.source ∈ (indexDocument d.content).map Section.id

/-- The texts a document brings in: its title, its content, the values of its rules
and every pattern. -/
def DocumentInput.texts (d : DocumentInput) : List (List Char) :=
  d.title :: d.content :: d.rules.map Rule.value ++ d.patterns

/-- A document is accepted when it passes the checks and its dump shows no secret. -/
theorem accepts_iff (d : DocumentInput) :
    d.accepts = true ↔ Checked d ∧ ¬ secret.Occurs d.dump := by
  have hids : ((indexDocument d.content).map Section.id).isEmpty = true ↔
      indexDocument d.content = [] := by
    simp
  rw [DocumentInput.accepts, Bool.and_eq_true, ← Regex.search_iff]
  unfold DocumentInput.safe
  constructor
  · rintro ⟨hfields, hsafe⟩
    split_ifs at hsafe with hfirst hvalues hpatterns
    · simp [Except.isOk, Except.toBool] at hsafe
    · simp [Except.isOk, Except.toBool] at hsafe
    · simp [Except.isOk, Except.toBool] at hsafe
    · simp only at hsafe
      split_ifs at hsafe with hempty hsources
      · simp [Except.isOk, Except.toBool] at hsafe
      · simp [Except.isOk, Except.toBool] at hsafe
      · simp only [Bool.or_eq_true, Bool.not_eq_true', not_or, Bool.not_eq_false] at hfirst
        refine ⟨⟨hfields, hfirst.1, by simpa using hvalues, by simpa using hpatterns, ?_, ?_⟩,
          hfirst.2⟩
        · exact fun h => hempty (hids.mpr h)
        · simpa using hsources
  · rintro ⟨h, hclean⟩
    refine ⟨h.fields, ?_⟩
    have hindexed : ¬ ((indexDocument d.content).map Section.id).isEmpty = true :=
      fun hempty => h.indexed (hids.mp hempty)
    have hsources : (d.rules.all fun r => r.source ∈ (indexDocument d.content).map Section.id) =
        true := by
      simpa using h.sources
    simp only [h.readable, h.values, h.patterns, hsources, hclean, hindexed]
    rfl

private theorem texts_patternsJson (patterns : List (List Char)) :
    (patternsJson patterns).texts = patterns := by
  rw [patternsJson, Json.texts]
  induction patterns with
  | nil => rfl
  | cons p ps ih => simp [Json.itemTexts, Json.texts, ih]

/-- The dump holds every text of the document. -/
theorem texts_subset_toJson (d : DocumentInput) {t : List Char} (ht : t ∈ d.texts) :
    t ∈ d.toJson.texts := by
  have hrule : ∀ r ∈ d.rules, ∀ t ∈ r.toJson.texts,
      t ∈ (Json.arr (d.rules.map Rule.toJson)).texts := by
    intro r hr t ht
    rw [Json.texts, Json.mem_itemTexts]
    exact ⟨r.toJson, List.mem_map_of_mem hr, ht⟩
  have hvalue : ∀ r : Rule, r.value ∈ r.toJson.texts := by
    intro r
    simp [Rule.toJson, Json.texts, Json.memberTexts]
  have hpattern : ∀ r : Rule, ∀ t ∈ r.includes ++ r.excludes, t ∈ r.toJson.texts := by
    intro r t ht
    rw [List.mem_append] at ht
    simp only [Rule.toJson, Json.texts, Json.memberTexts, texts_patternsJson, List.mem_append]
    tauto
  simp only [DocumentInput.texts, DocumentInput.patterns, List.mem_append, List.mem_cons,
    List.mem_map, List.mem_flatMap] at ht
  simp only [DocumentInput.toJson, Json.texts, Json.memberTexts, texts_patternsJson,
    List.mem_append, List.mem_singleton]
  rw [← Json.texts]
  rcases ht with (rfl | rfl | ⟨r, hr, rfl⟩) | (h | h) | ⟨r, hr, ht⟩
  · simp
  · simp
  · have := hrule r hr _ (hvalue r)
    tauto
  · tauto
  · tauto
  · have := hrule r hr t (hpattern r t (List.mem_append.mpr ht))
    tauto

/-- In an accepted document every secret is a concealed assignment. -/
theorem accepted_secret {d : DocumentInput} (h : d.accepts = true) {t : List Char}
    (ht : t ∈ d.texts) : secret.Occurs t ↔ Concealed t :=
  ContentSafety.concealed_of_print ((accepts_iff d).mp h).2 (texts_subset_toJson d ht)

/-- The validator keeps secrets out of a document exactly when the document is
refused for another reason, or its dump shows a secret, or no text of it holds a
concealed assignment. -/
theorem accepted_texts_safe (d : DocumentInput) :
    (d.accepts = true → ∀ t ∈ d.texts, ¬ secret.Occurs t) ↔
      ¬ (Checked d ∧ ¬ secret.Occurs d.dump ∧ ∃ t ∈ d.texts, Concealed t) := by
  constructor
  · rintro h ⟨hchecked, hclean, t, ht, hconcealed⟩
    have haccepts := (accepts_iff d).mpr ⟨hchecked, hclean⟩
    exact h haccepts t ht ((accepted_secret haccepts ht).mpr hconcealed)
  · intro h haccepts t ht hsecret
    obtain ⟨hchecked, hclean⟩ := (accepts_iff d).mp haccepts
    exact h ⟨hchecked, hclean, t, ht, (accepted_secret haccepts ht).mp hsecret⟩

/-- A document whose content assigns a password in double quotes. -/
def quotedPassword : DocumentInput where
  title := "Rules".toList
  kind := .convention
  content := "# Rules\npassword=\"hunter22\"".toList

theorem quotedPassword_accepted :
    ¬ (quotedPassword.accepts = true → ∀ t ∈ quotedPassword.texts, ¬ secret.Occurs t) := by
  have haccepts : quotedPassword.accepts = true := by decide +kernel
  have hsecret : secret.Occurs quotedPassword.content := by decide +kernel
  intro h
  exact h haccepts _ (List.mem_cons_of_mem _ List.mem_cons_self) hsecret

end Prism.Standards
