import Prism.Verification.Context.Equations

/-! # The window of lines around a line -/

namespace Prism.Policy

open List

/-! ## Ranges of lines -/

theorem mem_numbersTo_iff {first last n : ℕ} :
    n ∈ numbersTo first last ↔ first ≤ n ∧ n ≤ last := by
  rw [numbersTo, mem_range'_1]
  omega

theorem pairwise_numbersTo (first last : ℕ) : (numbersTo first last).Pairwise (· < ·) :=
  pairwise_lt_range'

theorem length_numbersTo (first last : ℕ) : (numbersTo first last).length = last + 1 - first :=
  length_range'

/-- What is left of a range when its beginning is cut off. -/
theorem drop_numbersTo (first last k : ℕ) :
    (numbersTo first last).drop k = numbersTo (first + k) last := by
  rw [numbersTo, numbersTo, drop_range', Nat.mul_one, Nat.sub_add_eq, Nat.sub_right_comm]

theorem pairwise_sortedSet (numbers : List ℕ) : (sortedSet numbers).Pairwise (· < ·) := by
  have hsorted : (sortedSet numbers).Pairwise fun a b => decide (a ≤ b) = true :=
    pairwise_mergeSort (fun a b c hab hbc => by simp at hab hbc ⊢; omega)
      (fun a b => by simp; omega) _
  have hnodup : (sortedSet numbers).Nodup := by
    rw [sortedSet, (mergeSort_perm _ _).nodup_iff]
    exact nodup_dedup _
  refine (hsorted.and hnodup).imp fun {a b} hab => ?_
  have hle := of_decide_eq_true hab.1
  have hne := hab.2
  omega

theorem length_sortedSet_le (numbers : List ℕ) : (sortedSet numbers).length ≤ numbers.length := by
  rw [sortedSet, length_mergeSort]
  exact (dedup_sublist numbers).length_le

/-! ## The innermost span -/

theorem shortest_concat {spans : List Span} {b : Span} (h : shortest spans = some b) (s : Span) :
    shortest (spans ++ [s]) =
      if s.stop - s.start < b.stop - b.start then some s else some b := by
  rw [shortest] at h
  rw [shortest, foldl_append, h]
  rfl

/-- Of spans there is a shortest one. -/
theorem exists_shortest {spans : List Span} (h : spans ≠ []) : ∃ b, shortest spans = some b ∧
    b ∈ spans ∧ ∀ t ∈ spans, b.stop - b.start ≤ t.stop - t.start := by
  induction spans using List.reverseRecOn with
  | nil => exact absurd rfl h
  | append_singleton spans s ih =>
      by_cases hnil : spans = []
      · subst hnil
        exact ⟨s, rfl, mem_singleton_self s, fun t ht => by rw [mem_singleton.mp ht]⟩
      obtain ⟨b, hb, hmem, hmin⟩ := ih hnil
      rw [shortest_concat hb]
      split
      · next hless =>
        refine ⟨s, rfl, mem_append_right _ (mem_singleton_self s), ?_⟩
        intro t ht
        rcases mem_append.mp ht with ht | ht
        · exact hless.le.trans (hmin t ht)
        · rw [mem_singleton.mp ht]
      · next hless =>
        refine ⟨b, rfl, mem_append_left _ hmem, ?_⟩
        intro t ht
        rcases mem_append.mp ht with ht | ht
        · exact hmin t ht
        · rw [mem_singleton.mp ht]
          omega

theorem shortest_eq_none {spans : List Span} (h : shortest spans = none) : spans = [] := by
  cases spans with
  | nil => rfl
  | cons s spans =>
      obtain ⟨b, hb, -⟩ := exists_shortest (cons_ne_nil s spans)
      rw [hb] at h
      cases h

/-- The span chosen is one of the spans, and none is shorter. -/
theorem shortest_spec {spans : List Span} {b : Span} (h : shortest spans = some b) :
    b ∈ spans ∧ ∀ t ∈ spans, b.stop - b.start ≤ t.stop - t.start := by
  cases spans with
  | nil => cases h
  | cons s spans =>
      obtain ⟨b', hb', hmem, hmin⟩ := exists_shortest (cons_ne_nil s spans)
      rw [hb'] at h
      cases h
      exact ⟨hmem, hmin⟩

theorem mem_spansAt {info : Info} {line : ℕ} {s : Span} :
    s ∈ spansAt info line ↔ s ∈ info.spans ∧ s.start ≤ line ∧ line ≤ s.stop := by
  rw [spansAt, mem_filter, Bool.and_eq_true, decide_eq_true_eq, decide_eq_true_eq]

/-- The innermost span around a line: it lies in every other one, or it is the first of the
shortest. -/
def Innermost (info : Info) (line : ℕ) (s : Span) : Prop :=
  s ∈ spansAt info line ∧ (shortest (spansAt info line) = some s ∨
    ∀ t ∈ spansAt info line, t.start ≤ s.start ∧ s.stop ≤ t.stop)

/-- The span chosen has the lines of the innermost one. -/
theorem Innermost.shortest {info : Info} {line : ℕ} {s : Span} (h : Innermost info line s) :
    ∃ b, shortest (spansAt info line) = some b ∧ b.start = s.start ∧ b.stop = s.stop := by
  obtain ⟨hs, hchosen | hinside⟩ := h
  · exact ⟨s, hchosen, rfl, rfl⟩
  · cases hb : Policy.shortest (spansAt info line) with
    | none =>
        rw [shortest_eq_none hb] at hs
        cases hs
    | some b =>
        obtain ⟨hmem, hmin⟩ := shortest_spec hb
        obtain ⟨hstart, hstop⟩ := hinside b hmem
        have hlength := hmin s hs
        obtain ⟨-, hb₁, hb₂⟩ := mem_spansAt.mp hmem
        obtain ⟨-, hs₁, hs₂⟩ := mem_spansAt.mp hs
        exact ⟨b, rfl, by omega, by omega⟩

/-! ## The window -/

/-- What a window around a line is to be. -/
structure Window (lines : Source) (center : ℕ) (info : Info) (numbers : List ℕ) : Prop where
  increasing : numbers.Pairwise (· < ·)
  inside : ∀ n ∈ numbers, 1 ≤ n ∧ n ≤ lines.length
  covered : center ∈ numbers
  length : numbers.length ≤ 160
  whole : ∀ s, Innermost info center s → s.stop + 1 - s.start ≤ 160 →
    ∀ n, s.start ≤ n → n ≤ s.stop → n ∈ numbers

theorem around_none {lines : Source} {center : ℕ} {info : Info}
    (h : shortest (spansAt info center) = none) :
    around lines center info = numbersTo (max 1 (center - 15)) (min lines.length (center + 15)) := by
  rw [around, h]

theorem around_short {lines : Source} {center : ℕ} {info : Info} {s : Span}
    (h : shortest (spansAt info center) = some s) (hshort : s.stop - s.start < 160)
    (hstop : s.stop ≤ lines.length) : around lines center info =
      numbersTo (max 1 (s.start - 2) + (s.stop + 1 - max 1 (s.start - 2) - 160)) s.stop := by
  rw [around, h]
  dsimp only
  rw [if_pos hshort, drop_numbersTo, length_numbersTo, Nat.min_eq_right hstop]

theorem around_long {lines : Source} {center : ℕ} {info : Info} {s : Span}
    (h : shortest (spansAt info center) = some s) (hlong : ¬ s.stop - s.start < 160) :
    around lines center info = sortedSet
      (range' s.start (min (s.start + 4) (lines.length + 1) - s.start) ++
        numbersTo (max s.start (center - 60)) (min (min s.stop (center + 60)) lines.length) ++
        numbersTo (max s.start (s.stop - 31)) (min s.stop lines.length)) := by
  rw [around, h]
  dsimp only
  rw [if_neg hlong]

theorem around_window (lines : Source) (center : ℕ) (info : Info)
    (hspans : ∀ s ∈ info.spans, s.start ≤ s.stop ∧ s.stop ≤ lines.length)
    (hcenter : 1 ≤ center ∧ center ≤ lines.length) :
    Window lines center info (around lines center info) := by
  have hinside := around_inside lines center info
  cases hs : shortest (spansAt info center) with
  | none =>
      rw [around_none hs] at hinside ⊢
      refine ⟨pairwise_numbersTo _ _, hinside, mem_numbersTo_iff.mpr (by omega), ?_, ?_⟩
      · rw [length_numbersTo]
        omega
      · intro s hinner
        obtain ⟨b, hb, -⟩ := hinner.shortest
        rw [hb] at hs
        cases hs
  | some s =>
      obtain ⟨hmem, hstart, hstop⟩ := mem_spansAt.mp (shortest_spec hs).1
      obtain ⟨-, hlast⟩ := hspans s hmem
      by_cases hshort : s.stop - s.start < 160
      · rw [around_short hs hshort hlast] at hinside ⊢
        refine ⟨pairwise_numbersTo _ _, hinside, mem_numbersTo_iff.mpr (by omega), ?_, ?_⟩
        · rw [length_numbersTo]
          omega
        · intro t hinner _ n hn₁ hn₂
          obtain ⟨b, hb, hbstart, hbstop⟩ := hinner.shortest
          obtain rfl := Option.some.inj (hs.symm.trans hb)
          have hone := t.one
          exact mem_numbersTo_iff.mpr (by omega)
      · rw [around_long hs hshort] at hinside ⊢
        refine ⟨pairwise_sortedSet _, hinside, ?_, ?_, ?_⟩
        · rw [mem_sortedSet, mem_append, mem_append]
          exact .inl (.inr (mem_numbersTo_iff.mpr (by omega)))
        · refine (length_sortedSet_le _).trans ?_
          rw [length_append, length_append, length_range', length_numbersTo, length_numbersTo]
          omega
        · intro t hinner hlength
          obtain ⟨b, hb, hbstart, hbstop⟩ := hinner.shortest
          obtain rfl := Option.some.inj (hs.symm.trans hb)
          omega

/-- A function of 160 lines in a file that goes on after it. -/
theorem around_window_longest :
    Window (replicate 200 []) 100 { spans := [⟨20, 179, ['f'], by decide⟩] }
      (around (replicate 200 []) 100 { spans := [⟨20, 179, ['f'], by decide⟩] }) := by
  apply around_window
  · intro s hs
    rw [mem_singleton.mp hs, length_replicate]
    decide
  · rw [length_replicate]
    decide

end Prism.Policy
