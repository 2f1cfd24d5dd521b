import Prism.Foundation.Json
import Prism.Foundation.Text

/-! How many bytes the text of a JSON value takes. -/

namespace Text

@[simp] theorem encodedLength_nil : encodedLength [] = 0 :=
  rfl

@[simp] theorem encodedLength_cons (c : Char) (s : List Char) :
    encodedLength (c :: s) = c.utf8Size + encodedLength s :=
  rfl

@[simp] theorem encodedLength_append (s t : List Char) :
    encodedLength (s ++ t) = encodedLength s + encodedLength t := by
  induction s with
  | nil => simp
  | cons c s ih => rw [List.cons_append, encodedLength_cons, encodedLength_cons, ih, Nat.add_assoc]

theorem utf8Size_ascii {c : Char} (h : c.toNat < 128) : c.utf8Size = 1 :=
  Char.utf8Size_eq_one_iff.mpr (by
    rw [UInt32.le_iff_toNat_le]
    exact Nat.le_of_lt_succ h)

theorem encodedLength_ascii {s : List Char} (h : ∀ c ∈ s, c.toNat < 128) :
    encodedLength s = s.length := by
  induction s with
  | nil => rfl
  | cons c s ih =>
      rw [encodedLength_cons, utf8Size_ascii (h c List.mem_cons_self),
        ih fun d hd => h d (List.mem_cons_of_mem c hd), List.length_cons, Nat.add_comm]

end Text

namespace Json

open Text

/-- A scalar value is spelled in at most six bytes. -/
theorem encodedLength_escapeChar (c : Char) : encodedLength (escapeChar c) ≤ 6 := by
  have hdigit : ∀ n < 16, (Nat.digitChar n).utf8Size = 1 := by decide
  unfold escapeChar
  split_ifs with h₁ h₂ h₃ h₄ h₅ h₆ h₇ hlow
  · decide
  · decide
  · decide
  · decide
  · decide
  · decide
  · decide
  · have hhigh := hdigit (c.toNat / 16) (by omega)
    have hrest := hdigit (c.toNat % 16) (by omega)
    have hplain : ('\\'.utf8Size = 1 ∧ 'u'.utf8Size = 1) ∧ '0'.utf8Size = 1 := by decide
    simp [hhigh, hrest, hplain]
  · have := c.utf8Size_le_four
    simp
    omega

theorem encodedLength_quote_le (s : List Char) :
    encodedLength (quote s) ≤ 6 * s.length + 2 := by
  have hescape : encodedLength (escape s) ≤ 6 * s.length := by
    induction s with
    | nil => exact Nat.le_refl 0
    | cons c s ih =>
        have hc := encodedLength_escapeChar c
        rw [escape, List.flatMap_cons, encodedLength_append, List.length_cons]
        rw [escape] at ih
        omega
  have hquote : '"'.utf8Size = 1 := by decide
  simp only [quote, encodedLength_append, encodedLength_cons, encodedLength_nil, hquote]
  omega

/-- A text of plain ASCII is spelled as it is. -/
theorem encodedLength_quote_plain {s : List Char} (h : ∀ c ∈ s, Plain c ∧ c.toNat < 128) :
    encodedLength (quote s) = s.length + 2 := by
  have hquote : '"'.utf8Size = 1 := by decide
  rw [quote, escape_plain fun c hc => (h c hc).1, encodedLength_append, encodedLength_cons,
    encodedLength_ascii fun c hc => (h c hc).2]
  simp only [encodedLength_cons, encodedLength_nil, hquote]
  omega

/-- What one more member adds to the text of an object. -/
def memberSize (sep : Separators) (m : List Char × Json) : ℕ :=
  encodedLength sep.item + encodedLength (quote m.1) + encodedLength sep.key +
    encodedLength (print sep m.2)

theorem encodedLength_printMembers (sep : Separators) (ms : List (List Char × Json))
    (m : List Char × Json) : encodedLength (printMembers sep (ms ++ [m])) =
      encodedLength (printMembers sep ms) + memberSize sep m := by
  induction ms with
  | nil =>
      obtain ⟨key, j⟩ := m
      simp only [List.nil_append, printMembers, encodedLength_append, memberSize]
      omega
  | cons n ms ih =>
      obtain ⟨key, j⟩ := n
      rw [List.cons_append, printMembers, printMembers, encodedLength_append, ih,
        encodedLength_append _ (printMembers sep ms), Nat.add_assoc]

theorem encodedLength_print_snoc (sep : Separators) {ms : List (List Char × Json)} (hne : ms ≠ [])
    (m : List Char × Json) : encodedLength (print sep (obj (ms ++ [m]))) =
      encodedLength (print sep (obj ms)) + memberSize sep m := by
  cases ms with
  | nil => contradiction
  | cons n ms =>
      obtain ⟨key, j⟩ := n
      simp only [List.cons_append, print, encodedLength_cons, encodedLength_append,
        encodedLength_printMembers]
      omega

/-! ## Arrays -/

/-- What some items add to the text of an array. -/
def itemsSize (sep : Separators) (js : List Json) : ℕ :=
  (js.map fun j => encodedLength sep.item + encodedLength (print sep j)).sum

theorem encodedLength_printItems (sep : Separators) (js : List Json) :
    encodedLength (printItems sep js) = itemsSize sep js + 1 := by
  induction js with
  | nil => simp [printItems, itemsSize, utf8Size_ascii]
  | cons j js ih =>
      rw [printItems, encodedLength_append, encodedLength_append, ih]
      simp only [itemsSize, List.map_cons, List.sum_cons, Nat.add_assoc]

/-- The items of an array count alike, whatever their order is. -/
theorem encodedLength_print_arr (sep : Separators) {js : List Json} (hne : js ≠ []) :
    encodedLength (print sep (arr js)) + encodedLength sep.item = itemsSize sep js + 2 := by
  cases js with
  | nil => contradiction
  | cons j js =>
      have hbracket : Char.utf8Size '[' = 1 := by decide
      simp only [print, encodedLength_cons, encodedLength_append, encodedLength_printItems,
        itemsSize, List.map_cons, List.sum_cons]
      omega

end Json
