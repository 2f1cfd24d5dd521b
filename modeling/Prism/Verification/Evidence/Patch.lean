import Prism.Foundation.UnifiedDiff
import Prism.Model.Evidence

/-! Reading the headers of genuine hunks. -/

namespace Prism.Patch

open UnifiedDiff

theorem decimal_digit {c : Char} (h : c.isDigit = true) : Text.decimal? c = some (c.toNat - 48) := by
  have hrange : 48 ≤ c.toNat ∧ c.toNat < 48 + 10 := by
    simp only [Char.isDigit, Bool.and_eq_true, decide_eq_true_eq, UInt32.le_iff_toNat_le] at h
    obtain ⟨hlow, hhigh⟩ := h
    change 48 ≤ c.toNat at hlow
    change c.toNat ≤ 57 at hhigh
    omega
  have hfirst : Text.decimalZeros.find? (fun z => z ≤ c.toNat && c.toNat < z + 10) = some 48 :=
    List.find?_cons_of_pos (by simpa using hrange)
  rw [Text.decimal?, hfirst]
  rfl

theorem isDecimal_digits (n : ℕ) : ∀ c ∈ Nat.toDigits 10 n, Text.isDecimal c = true := by
  intro c hc
  rw [Text.isDecimal, decimal_digit (Nat.isDigit_of_mem_toDigits (by decide) (by decide) hc)]
  rfl

theorem takeWhile_digits (n : ℕ) {c : Char} (hc : Text.isDecimal c = false) (rest : List Char) :
    (Nat.toDigits 10 n ++ c :: rest).takeWhile Text.isDecimal = Nat.toDigits 10 n := by
  rw [List.takeWhile_append_of_pos (isDecimal_digits n), List.takeWhile_cons_of_neg (by simp [hc]),
    List.append_nil]

theorem toDigits_ne_nil (n : ℕ) : Nat.toDigits 10 n ≠ [] := by
  exact Nat.toDigits_ne_nil

theorem after_append (pre s : List Char) : Text.after pre (pre ++ s) = some s := by
  simp [Text.after]

theorem blank_not_decimal : Text.isDecimal ' ' = false := by
  decide

theorem readRange_terse (n : ℕ) (rest : List Char) :
    readRange (Nat.toDigits 10 n ++ ' ' :: rest) =
      some (⟨Nat.toDigits 10 n, none⟩, ' ' :: rest) := by
  rw [readRange, takeWhile_digits n blank_not_decimal, List.drop_left,
    if_neg (toDigits_ne_nil n)]
  rfl

theorem readRange_counted (n m : ℕ) (rest : List Char) :
    readRange (Nat.toDigits 10 n ++ ',' :: (Nat.toDigits 10 m ++ ' ' :: rest)) =
      some (⟨Nat.toDigits 10 n, some (Nat.toDigits 10 m)⟩, ' ' :: rest) := by
  have hcomma : Text.isDecimal ',' = false := by decide
  have hafter := after_append [','] (Nat.toDigits 10 m ++ ' ' :: rest)
  rw [List.singleton_append] at hafter
  rw [readRange, takeWhile_digits n hcomma, List.drop_left, if_neg (toDigits_ne_nil n), hafter]
  simp only [takeWhile_digits m blank_not_decimal, List.drop_left, if_neg (toDigits_ne_nil m)]

/-- The number a printed range starts with. -/
def rangeStart (before count : ℕ) : ℕ :=
  if count = 0 then before else before + 1

/-- The count a printed range has. -/
def rangeCount (terse : Bool) (count : ℕ) : Option (List Char) :=
  if terse = true ∧ count = 1 then none else some (Nat.toDigits 10 count)

theorem readRange_range (terse : Bool) (before count : ℕ) (rest : List Char) :
    readRange (range terse before count ++ ' ' :: rest) =
      some (⟨Nat.toDigits 10 (rangeStart before count), rangeCount terse count⟩,
        ' ' :: rest) := by
  by_cases h : terse = true ∧ count = 1
  · rw [range, if_pos h, rangeCount, if_pos h]
    exact readRange_terse _ rest
  · rw [range, if_neg h, rangeCount, if_neg h, List.append_assoc]
    exact readRange_counted _ _ rest

/-- The header of a hunk is read back, whatever follows it. -/
theorem header?_header (h : Hunk) (old new : ℕ) (rest : List Char) :
    header? (({ h with heading := rest } : Hunk).header old new) =
      some ⟨rangeCount h.terse (h.edits.filter Edit.onBase).length,
        Nat.toDigits 10 (rangeStart new (h.edits.filter Edit.onHead).length),
        rangeCount h.terse (h.edits.filter Edit.onHead).length⟩ := by
  have ho := readRange_range h.terse old (h.edits.filter Edit.onBase).length
    ('+' :: (range h.terse new (h.edits.filter Edit.onHead).length ++ ' ' :: '@' :: '@' :: rest))
  have hn := readRange_range h.terse new (h.edits.filter Edit.onHead).length
    ('@' :: '@' :: rest)
  have hprint : ({ h with heading := rest } : Hunk).header old new = "@@ -".toList ++
      (range h.terse old (h.edits.filter Edit.onBase).length ++ ' ' :: '+' ::
        (range h.terse new (h.edits.filter Edit.onHead).length ++ ' ' :: '@' :: '@' :: rest)) := by
    change (((("@@ -".toList ++ _) ++ " +".toList) ++ _) ++ " @@".toList) ++ rest = _
    rw [List.append_assoc, List.append_assoc, List.append_assoc, List.append_assoc]
    rfl
  have hplus : ∀ s, Text.after " +".toList (' ' :: '+' :: s) = some s := after_append " +".toList
  specialize hplus (range h.terse new (h.edits.filter Edit.onHead).length ++
    ' ' :: '@' :: '@' :: rest)
  have hend : Text.after " @@".toList (' ' :: '@' :: '@' :: rest) = some rest :=
    after_append " @@".toList rest
  rw [header?, hprint, after_append]
  simp only [Option.bind_eq_bind, Option.bind_some, ho, Option.pure_def]
  rw [hplus, Option.bind_some, hn, Option.bind_some]
  change (Text.after " @@".toList (' ' :: '@' :: '@' :: rest)).bind _ = _
  rw [hend]
  rfl

theorem foldl_decimal {ds : List Char} (h : ∀ c ∈ ds, c.isDigit = true) (n : ℕ) :
    ds.foldl (fun n c => 10 * n + (Text.decimal? c).getD 0) n = Nat.ofDigitChars 10 ds n := by
  induction ds generalizing n with
  | nil => rfl
  | cons c ds ih =>
      have hc := decimal_digit (h c List.mem_cons_self)
      rw [List.foldl_cons, ih fun d hd => h d (List.mem_cons_of_mem c hd), hc, Option.getD_some,
        Nat.ofDigitChars_cons]
      rfl

/-- A number within the limit is read back. -/
theorem int_toDigits {n value : ℕ} (h : Text.int (Nat.toDigits 10 n) = some value) :
    value = n := by
  rw [Text.int] at h
  split_ifs at h
  rw [foldl_decimal fun c hc => Nat.isDigit_of_mem_toDigits (by decide) (by decide) hc,
    Nat.ofDigitChars_toDigits (by decide) (by decide)] at h
  exact (Option.some.inj h).symm

end Prism.Patch
