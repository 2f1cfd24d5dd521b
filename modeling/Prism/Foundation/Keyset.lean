import Mathlib.Data.List.Nodup
import Mathlib.Order.WithBot

/-! Pages of rows in the order of a key: each page begins behind a position and its last row is
the position of the next one. -/

namespace Keyset

open List

section Distinct

variable {α κ : Type} {key : α → κ} {rows rows' : List α}

/-- No two rows have the same key. -/
def Distinct (key : α → κ) (rows : List α) : Prop :=
  rows.Pairwise fun a b => key a ≠ key b

theorem Distinct.perm (h : Distinct key rows) (hperm : rows.Perm rows') : Distinct key rows' :=
  hperm.pairwise h Ne.symm

theorem Distinct.filter (h : Distinct key rows) (p : α → Bool) : Distinct key (rows.filter p) :=
  h.sublist filter_sublist

end Distinct

variable {α κ : Type} [LinearOrder κ] (key : α → κ)

/-- `ORDER BY key`. -/
def ordered (rows : List α) : List α :=
  rows.mergeSort fun a b => decide (key a ≤ key b)

/-- The rows behind a position, in order. -/
def seek (after : WithBot κ) (rows : List α) : List α :=
  ordered key (rows.filter fun a => decide (after < (key a : WithBot κ)))

/-- A page of `n` rows, of `n + 1` that were asked for. -/
def items {α : Type} (n : ℕ) (found : List α) : List α :=
  found.take n

/-- The last row of a page that another one follows. -/
def next {α : Type} (n : ℕ) (found : List α) : Option α :=
  if n < found.length then found[n - 1]? else none

variable {key} {rows : List α} {after : WithBot κ} {n : ℕ}

theorem ordered_perm (rows : List α) : (ordered key rows).Perm rows :=
  mergeSort_perm rows _

theorem mem_ordered {a : α} : a ∈ ordered key rows ↔ a ∈ rows :=
  mem_mergeSort

theorem mem_seek {a : α} : a ∈ seek key after rows ↔ a ∈ rows ∧ after < (key a : WithBot κ) := by
  rw [seek, mem_ordered, mem_filter, decide_eq_true_eq]

theorem ordered_pairwise (h : Distinct key rows) :
    (ordered key rows).Pairwise fun a b => key a < key b := by
  have hle : (ordered key rows).Pairwise fun a b => decide (key a ≤ key b) = true :=
    pairwise_mergeSort (fun a b c hab hbc => by simp only [decide_eq_true_eq] at *; exact hab.trans hbc)
      (fun a b => by simpa using le_total (key a) (key b)) rows
  have hne := h.perm (mergeSort_perm rows fun a b => decide (key a ≤ key b)).symm
  exact (hle.and hne).imp fun hab => lt_of_le_of_ne (of_decide_eq_true hab.1) hab.2

theorem seek_pairwise (h : Distinct key rows) (after : WithBot κ) :
    (seek key after rows).Pairwise fun a b => key a < key b :=
  ordered_pairwise (h.filter _)

/-- Two lists in the order of their keys that have the same members are the same. -/
theorem eq_of_pairwise {l l' : List α} (h : l.Pairwise fun a b => key a < key b)
    (h' : l'.Pairwise fun a b => key a < key b) (hmem : ∀ a, a ∈ l ↔ a ∈ l') : l = l' := by
  have hnodup (l : List α) (h : l.Pairwise fun a b => key a < key b) : l.Nodup :=
    h.imp fun hab heq => absurd (heq ▸ hab) (lt_irrefl _)
  refine ((perm_ext_iff_of_nodup (hnodup l h) (hnodup l' h')).mpr hmem).eq_of_pairwise
    (fun a b _ _ hab hba => absurd hab (lt_asymm hba)) h h'

section Page

variable {found : List α} (hfound : found.Pairwise fun a b => key a < key b)

theorem items_of_next_none {found : List α} (h : next n found = none) (hn : 0 < n) :
    items n found = found := by
  unfold next at h
  split at h
  · next hlt =>
    rw [getElem?_eq_none_iff] at h
    omega
  · next hlt => exact take_of_length_le (not_lt.mp hlt)

theorem next_eq_some {found : List α} {l : α} (h : next n found = some l) :
    ∃ hlt : n - 1 < found.length, found[n - 1] = l ∧ n < found.length := by
  unfold next at h
  split at h
  · next hlt =>
    obtain ⟨hlt', heq⟩ := List.getElem?_eq_some_iff.mp h
    exact ⟨hlt', heq, hlt⟩
  · cases h

theorem next_take (n : ℕ) (found : List α) : next n (found.take (n + 1)) = next n found := by
  unfold next
  rw [length_take]
  by_cases h : n < found.length
  · rw [if_pos (by omega), if_pos h, getElem?_take, if_pos (by omega)]
  · rw [if_neg (by omega), if_neg h]

theorem items_take (n : ℕ) (found : List α) : items n (found.take (n + 1)) = items n found := by
  rw [items, items, take_take, Nat.min_eq_left (Nat.le_succ n)]

include hfound

/-- The rows of a page that another one follows lie before its last one. -/
theorem mem_items_of_next {l : α} (hnext : next n found = some l) (hn : 0 < n) {a : α} :
    a ∈ items n found ↔ a ∈ found ∧ key a ≤ key l := by
  obtain ⟨hlt, rfl, -⟩ := next_eq_some hnext
  rw [pairwise_iff_getElem] at hfound
  constructor
  · intro ha
    obtain ⟨i, hi, rfl⟩ := mem_iff_getElem.mp ha
    rw [items, length_take] at hi
    refine ⟨mem_of_mem_take ha, ?_⟩
    simp only [items, getElem_take]
    rcases Nat.lt_or_ge i (n - 1) with hlt' | hge
    · exact (hfound i (n - 1) (by omega) hlt hlt').le
    · have : i = n - 1 := by omega
      subst this
      exact le_refl _
  · rintro ⟨ha, hle⟩
    obtain ⟨i, hi, rfl⟩ := mem_iff_getElem.mp ha
    have hin : i ≤ n - 1 := by
      by_contra hgt
      exact absurd (hfound (n - 1) i hlt hi (by omega)) (not_lt.mpr hle)
    exact mem_take_iff_getElem.mpr ⟨i, by omega, rfl⟩

theorem next_mem {l : α} (hnext : next n found = some l) (hn : 0 < n) : l ∈ items n found := by
  rw [mem_items_of_next hfound hnext hn]
  obtain ⟨hlt, rfl, -⟩ := next_eq_some hnext
  exact ⟨getElem_mem hlt, le_refl _⟩

end Page

/-- What is found behind a position: a page, and what is found behind its last row. -/
theorem seek_eq_items_append (h : Distinct key rows) {l : α}
    (hnext : next n (seek key after rows) = some l) (hn : 0 < n) :
    seek key after rows = items n (seek key after rows) ++ seek key (key l) rows := by
  have hpair := seek_pairwise h after
  have hitems (a : α) := mem_items_of_next hpair hnext hn (a := a)
  have hl := (mem_seek.mp ((hitems l).mp (next_mem hpair hnext hn)).1).2
  refine eq_of_pairwise hpair ?_ fun a => ?_
  · refine pairwise_append.mpr ⟨hpair.sublist (take_sublist n _), seek_pairwise h _, ?_⟩
    intro a ha b hb
    exact ((hitems a).mp ha).2.trans_lt (WithBot.coe_lt_coe.mp (mem_seek.mp hb).2)
  · rw [mem_append, hitems, mem_seek, mem_seek, WithBot.coe_lt_coe]
    constructor
    · rintro ⟨ha, hafter⟩
      rcases le_or_gt (key a) (key l) with hle | hlt
      · exact .inl ⟨⟨ha, hafter⟩, hle⟩
      · exact .inr ⟨ha, hlt⟩
    · rintro (⟨⟨ha, hafter⟩, -⟩ | ⟨ha, hlt⟩)
      · exact ⟨ha, hafter⟩
      · exact ⟨ha, hl.trans (WithBot.coe_lt_coe.mpr hlt)⟩

/-! ## Following the cursor -/

/-- The pages from a cursor on until there is no next one. -/
inductive Traversal {ε γ : Type} (page : Option γ → Except ε (List α × Option γ)) :
    Option γ → List (List α) → Prop where
  | last {c : Option γ} {found : List α} (h : page c = .ok (found, none)) :
      Traversal page c [found]
  | more {c : Option γ} {c' : γ} {found : List α} {pages : List (List α)}
      (h : page c = .ok (found, some c')) (rest : Traversal page (some c') pages) :
      Traversal page c (found :: pages)

theorem Traversal.unique {ε γ : Type} {page : Option γ → Except ε (List α × Option γ)}
    {c : Option γ}
    {pages pages' : List (List α)} (h : Traversal page c pages) (h' : Traversal page c pages') :
    pages = pages' := by
  induction h generalizing pages' with
  | last h =>
    cases h' with
    | last h' =>
      rw [h] at h'
      cases h'
      rfl
    | more h' _ =>
      rw [h] at h'
      cases h'
  | more h _ ih =>
    cases h' with
    | last h' =>
      rw [h] at h'
      cases h'
    | more h' rest =>
      rw [h] at h'
      cases h'
      rw [ih rest]

/-- Pages that are cut off what is left at their cursor make it up. -/
theorem exists_traversal {ε γ : Type} {page : Option γ → Except ε (List α × Option γ)}
    {left : Option γ → List α → Prop}
    (hpage : ∀ c found, left c found → page c = .ok (found, none) ∨
      ∃ items c' found', page c = .ok (items, some c') ∧ left (some c') found' ∧
        found = items ++ found' ∧ found'.length < found.length) :
    ∀ (c : Option γ) (found : List α), left c found → ∃ pages, Traversal page c pages ∧
      pages.flatten = found := by
  intro c found
  induction hn : found.length using Nat.strong_induction_on generalizing c found with
  | _ n ih =>
    intro hleft
    rcases hpage c found hleft with hlast | ⟨items, c', found', hmore, hleft', rfl, hlt⟩
    · exact ⟨[found], .last hlast, by simp⟩
    · obtain ⟨pages, hpages, hflat⟩ := ih found'.length (hn ▸ hlt) (some c') found' rfl hleft'
      exact ⟨items :: pages, .more hmore hpages, by rw [flatten_cons, hflat]⟩

end Keyset
