import Prism.Foundation.Json
import Prism.Model.ContentSafety

/-! What the secret filter sees of a text that it reads inside a JSON document. -/

namespace Prism.ContentSafety

open Json (Plain escape)
open Regex (Over)

/-- Folding changes no scalar value that a string literal has to escape. -/
theorem fold_eq_self {c : Char} (h : ¬ Plain c) : fold c = c := by
  have hcases : c = '"' ∨ c = '\\' ∨ c.toNat < 32 := by
    by_contra hnone
    simp only [not_or, not_lt] at hnone
    exact h hnone
  have hupper : ¬ ('A' ≤ c ∧ c ≤ 'Z') := by
    rintro ⟨hA, hZ⟩
    rcases hcases with rfl | rfl | hlt
    · exact absurd hA (by decide)
    · exact absurd hZ (by decide)
    · have hA' : 65 ≤ c.toNat := hA
      omega
  have hother : ∀ d : Char, 128 ≤ d.toNat → c ≠ d := by
    rintro d hd rfl
    rcases hcases with rfl | rfl | hlt
    · exact absurd hd (by decide)
    · exact absurd hd (by decide)
    · omega
  rw [fold, if_neg hupper, if_neg, if_neg (hother _ (by decide)), if_neg (hother _ (by decide))]
  exact not_or.mpr ⟨hother _ (by decide), hother _ (by decide)⟩

theorem plain_of_fold {c : Char} (h : Plain (fold c)) : Plain c := by
  by_contra hc
  exact hc (fold_eq_self hc ▸ h)

section Plain

theorem over_oneOf {options : List Char} (h : options.all (fun c => Plain c) = true) :
    Over Plain (oneOf options) := by
  apply Regex.over_set
  intro c hc
  have hplain := List.all_eq_true.mp h _ (of_decide_eq_true hc)
  exact plain_of_fold (of_decide_eq_true hplain)

theorem over_literal {text : List Char} (h : text.all (fun c => Plain c) = true) :
    Over Plain (literal text) := by
  apply Regex.over_inOrder
  intro r hr
  obtain ⟨c, hc, rfl⟩ := List.mem_map.mp hr
  apply over_oneOf
  have hplain := List.all_eq_true.mp h c hc
  simpa using hplain

theorem plain_of_isLetter {c : Char} (h : isLetter c = true) : Plain c := by
  apply plain_of_fold
  simp only [isLetter, Bool.and_eq_true, decide_eq_true_eq] at h
  have hlow : 97 ≤ (fold c).toNat := h.1
  refine ⟨?_, ?_, by omega⟩ <;> intro he <;> rw [he] at hlow <;> exact absurd hlow (by decide)

theorem plain_of_isAlphanumeric {c : Char} (h : isAlphanumeric c = true) : Plain c := by
  simp only [isAlphanumeric, Bool.or_eq_true, Bool.and_eq_true, decide_eq_true_eq] at h
  rcases h with h | ⟨hlow, hhigh⟩
  · exact plain_of_isLetter h
  · have hlow' : 48 ≤ c.toNat := hlow
    have hhigh' : c.toNat ≤ 57 := hhigh
    refine ⟨?_, ?_, by omega⟩ <;> rintro rfl
    · exact absurd hlow' (by decide)
    · exact absurd hhigh' (by decide)

theorem over_privateKey : Over Plain privateKey := by
  apply Regex.over_inOrder
  simp only [List.forall_mem_cons]
  refine ⟨over_literal (by decide), Over.star (Regex.over_set ?_), over_literal (by decide),
    by simp⟩
  intro c hc
  simp only [Bool.or_eq_true, decide_eq_true_eq] at hc
  rcases hc with hc | rfl
  · exact plain_of_isLetter hc
  · decide

theorem over_credential : Over Plain credential := by
  have halnum : Over Plain (.set isAlphanumeric) :=
    Regex.over_set fun _ => plain_of_isAlphanumeric
  have hword : Over Plain (.set fun c => isAlphanumeric c || c = '_') := by
    apply Regex.over_set
    intro c hc
    simp only [Bool.or_eq_true, decide_eq_true_eq] at hc
    rcases hc with hc | rfl
    · exact plain_of_isAlphanumeric hc
    · decide
  have hdash : Over Plain (.set fun c => isAlphanumeric c || c = '_' || c = '-') := by
    apply Regex.over_set
    intro c hc
    simp only [Bool.or_eq_true, decide_eq_true_eq] at hc
    rcases hc with (hc | rfl) | rfl
    · exact plain_of_isAlphanumeric hc
    · decide
    · decide
  apply Regex.over_anyOf
  simp only [List.forall_mem_cons]
  refine ⟨?_, ?_, ?_, ?_, by simp⟩
  · apply Regex.over_inOrder
    simp only [List.forall_mem_cons]
    exact ⟨over_literal (by decide), over_oneOf (by decide), over_literal (by decide),
      halnum.atLeast 15, by simp⟩
  · apply Regex.over_inOrder
    simp only [List.forall_mem_cons]
    exact ⟨over_literal (by decide), hword.atLeast 15, by simp⟩
  · apply Regex.over_inOrder
    simp only [List.forall_mem_cons]
    exact ⟨over_literal (by decide), hdash.atLeast 12, by simp⟩
  · apply Regex.over_inOrder
    simp only [List.forall_mem_cons]
    exact ⟨over_literal (by decide), halnum.exactly 16, by simp⟩

theorem over_secretName : Over Plain secretName := by
  apply Regex.over_anyOf
  simp only [List.forall_mem_cons]
  refine ⟨over_literal (by decide), over_literal (by decide), ?_, over_literal (by decide),
    by simp⟩
  apply Regex.over_inOrder
  simp only [List.forall_mem_cons]
  exact ⟨over_literal (by decide), (over_oneOf (by decide)).opt, over_literal (by decide),
    by simp⟩

end Plain

/-- The opening of an assignment, up to and including its quote, is written with a
scalar value that JSON escapes. -/
def Rewritten (opening : List Char) : Prop :=
  ∃ c ∈ opening, c = '"' ∨ c.toNat < 32

/-- A text with a quoted assignment whose opening quote is a double quote, or which
has a control space before its opening quote. -/
def Concealed (t : List Char) : Prop :=
  ∃ opening ∈ assignmentOpening.language, ∃ value ∈ assignmentValue.language,
    opening ++ value <:+: t ∧ Rewritten opening

/-- No backslash occurs in the opening of an assignment. -/
theorem over_assignmentOpening : Over (· ≠ '\\') assignmentOpening := by
  have hspace : Over (· ≠ '\\') (.set Text.isSpace) := by
    apply Regex.over_set
    rintro c hc rfl
    exact absurd hc (by decide)
  have hquote : Over (· ≠ '\\') (.set isQuote) := by
    apply Regex.over_set
    rintro c hc rfl
    exact absurd hc (by decide)
  have hplain : ∀ c, Plain c → c ≠ '\\' := fun _ h => h.2.1
  apply Regex.over_inOrder
  simp only [List.forall_mem_cons]
  exact ⟨over_secretName.mono hplain, hspace.star, (over_oneOf (by decide)).mono hplain,
    hspace.star, hquote, by simp⟩

theorem plain_of_not_rewritten {opening : List Char}
    (ho : opening ∈ assignmentOpening.language) (h : ¬ Rewritten opening) :
    ∀ c ∈ opening, Plain c := by
  intro c hc
  refine ⟨?_, over_assignmentOpening opening ho c hc, ?_⟩
  · intro he
    exact h ⟨c, hc, Or.inl he⟩
  · by_contra hlow
    exact h ⟨c, hc, Or.inr (Nat.lt_of_not_le hlow)⟩

theorem mem_secret (m : List Char) :
    m ∈ secret.language ↔ m ∈ privateKey.language ∨ m ∈ credential.language ∨
      m ∈ (Regex.seq assignmentOpening assignmentValue).language := by
  rw [secret, Regex.mem_anyOf]
  simp

theorem Concealed.occurs {t : List Char} (h : Concealed t) : secret.Occurs t := by
  obtain ⟨opening, ho, value, hv, ht, -⟩ := h
  exact ⟨opening ++ value, ht,
    (mem_secret _).mpr (Or.inr (Or.inr (Regex.append_mem_seq ho hv)))⟩

/-- The scalar values between the quotes of an assignment. -/
private def inValue (c : Char) : Bool :=
  !(isQuote c || c = '\r' || c = '\n')

private theorem mem_assignmentValue (v : List Char) :
    v ∈ assignmentValue.language ↔
      ∃ body q, 4 ≤ body.length ∧ (∀ c ∈ body, inValue c = true) ∧ isQuote q = true ∧
        v = body ++ [q] := by
  rw [assignmentValue, Regex.mem_seq]
  constructor
  · rintro ⟨body, hbody, _, ⟨q, hq, rfl⟩, rfl⟩
    obtain ⟨hlen, hall⟩ := (Regex.mem_atLeast_set _ _ _).mp hbody
    exact ⟨body, q, hlen, hall, hq, rfl⟩
  · rintro ⟨body, q, hlen, hall, hq, rfl⟩
    exact ⟨body, (Regex.mem_atLeast_set _ _ _).mpr ⟨hlen, hall⟩, [q], ⟨q, hq, rfl⟩, rfl⟩

/-- Escaping a scalar value of a quoted value gives scalar values of one. -/
private theorem inValue_escapeChar {c : Char} (h : inValue c = true) :
    ∀ d ∈ Json.escapeChar c, inValue d = true := by
  have hdigit : ∀ n < 32, inValue (Nat.digitChar (n / 16)) = true ∧
      inValue (Nat.digitChar (n % 16)) = true := by decide
  unfold Json.escapeChar
  split_ifs with h1 h2 h3 h4 h5 h6 h7 h8
  · rw [h1] at h
    exact absurd h (by decide)
  · exact List.all_eq_true.mp (by decide)
  · rw [h3] at h
    exact absurd h (by decide)
  · rw [h4] at h
    exact absurd h (by decide)
  · exact List.all_eq_true.mp (by decide)
  · exact List.all_eq_true.mp (by decide)
  · exact List.all_eq_true.mp (by decide)
  · obtain ⟨hhigh, hlow⟩ := hdigit c.toNat h8
    simp only [List.forall_mem_cons]
    exact ⟨by decide, by decide, by decide, by decide, hhigh, hlow, by simp⟩
  · simpa using h

/-- The closing quote survives, if need be with a backslash that joins the value. -/
private theorem escape_mem_assignmentValue {v : List Char}
    (h : v ∈ assignmentValue.language) : escape v ∈ assignmentValue.language := by
  obtain ⟨body, q, hlen, hall, hq, rfl⟩ := (mem_assignmentValue v).mp h
  have hescape : ∀ d ∈ escape body, inValue d = true := by
    intro d hd
    obtain ⟨c, hc, hdc⟩ := List.mem_flatMap.mp hd
    exact inValue_escapeChar (hall c hc) d hdc
  have hlonger : 4 ≤ (escape body).length := hlen.trans (Json.length_le_escape body)
  rw [mem_assignmentValue, Json.escape_append]
  simp only [isQuote, Bool.or_eq_true, decide_eq_true_eq] at hq
  rcases hq with rfl | rfl
  · refine ⟨escape body ++ ['\\'], '"', by simp; omega, ?_, by decide, by simp; rfl⟩
    intro d hd
    rcases List.mem_append.mp hd with hd | hd
    · exact hescape d hd
    · rw [List.mem_singleton.mp hd]
      decide
  · exact ⟨escape body, '\'', hlonger, hescape, by decide, rfl⟩

/-- A secret is still one in the JSON spelling of its text, or it is a concealed
assignment. -/
theorem occurs_escape {t : List Char} (h : secret.Occurs t) :
    secret.Occurs (escape t) ∨ Concealed t := by
  obtain ⟨m, hm, hsecret⟩ := h
  have hplain : (∀ c ∈ m, Plain c) → secret.Occurs (escape t) := by
    intro hall
    refine ⟨m, ?_, hsecret⟩
    have hinfix := Json.escape_infix hm
    rwa [Json.escape_plain hall] at hinfix
  rcases (mem_secret m).mp hsecret with hkey | hcred | hassign
  · exact Or.inl (hplain (over_privateKey m hkey))
  · exact Or.inl (hplain (over_credential m hcred))
  · obtain ⟨opening, ho, value, hv, rfl⟩ := (Regex.mem_seq _ _ _).mp hassign
    by_cases hopen : Rewritten opening
    · exact Or.inr ⟨opening, ho, value, hv, hm, hopen⟩
    · left
      refine ⟨opening ++ escape value, ?_, ?_⟩
      · have hinfix := Json.escape_infix hm
        rwa [Json.escape_append, Json.escape_plain (plain_of_not_rewritten ho hopen)] at hinfix
      · rw [mem_secret]
        exact Or.inr (Or.inr (Regex.append_mem_seq ho (escape_mem_assignmentValue hv)))

/-- A document that shows no secret holds only concealed ones. -/
theorem concealed_of_print {sep : Json.Separators} {j : Json} {t : List Char}
    (hclean : ¬ secret.Occurs (j.print sep)) (ht : t ∈ j.texts) :
    secret.Occurs t ↔ Concealed t := by
  constructor
  · intro h
    rcases occurs_escape h with hshown | hconcealed
    · exact absurd (hshown.widen (Json.escape_infix_print sep j ht)) hclean
    · exact hconcealed
  · exact Concealed.occurs

end Prism.ContentSafety
