import Prism.Model.ContextSelection

/-! # The pool of candidates and their order -/

namespace Prism.Policy

variable {α : Type} {sources : List (List Char × Source)}

/-! ## Taking in turn -/

/-- Taking in turn from several lists loses no element, and invents none. -/
theorem mem_roundRobin {lists : List (List α)} {x : α} :
    x ∈ roundRobin lists ↔ ∃ l ∈ lists, x ∈ l := by
  simp only [roundRobin, List.mem_flatMap, List.mem_range, List.mem_filterMap]
  constructor
  · rintro ⟨k, -, l, hl, hx⟩
    exact ⟨l, hl, List.mem_of_getElem? hx⟩
  · rintro ⟨l, hl, hx⟩
    obtain ⟨k, hk⟩ := List.mem_iff_getElem?.mp hx
    refine ⟨k, ?_, l, hl, hk⟩
    have hlength : k < l.length := (List.getElem?_eq_some_iff.mp hk).1
    have hmem : l.length ∈ lists.map List.length := List.mem_map_of_mem hl
    cases hmax : (lists.map List.length).max? with
    | none =>
        rw [List.max?_eq_none_iff] at hmax
        rw [hmax] at hmem
        exact absurd hmem List.not_mem_nil
    | some most =>
        have := List.le_max?_getD_of_mem (k := 0) hmem
        rw [hmax] at this
        exact hlength.trans_le this

/-! ## Adding an index once -/

theorem addIndex_cases (result : List ℕ) (i : ℕ) :
    i ∈ result ∧ addIndex result i = result ∨ i ∉ result ∧ addIndex result i = result ++ [i] := by
  unfold addIndex
  by_cases h : i ∈ result
  · exact .inl ⟨h, if_pos h⟩
  · exact .inr ⟨h, if_neg h⟩

/-- The indices stand behind those that were there, each of them once. -/
theorem foldl_addIndex (indices : List ℕ) : ∀ {result : List ℕ}, result.Nodup →
    ∃ rest, indices.foldl addIndex result = result ++ rest ∧ (result ++ rest).Nodup ∧
      ∀ i, i ∈ result ++ rest ↔ i ∈ result ∨ i ∈ indices := by
  induction indices with
  | nil =>
      intro result h
      exact ⟨[], by simp, by simpa using h, by simp⟩
  | cons i indices ih =>
      intro result h
      rw [List.foldl_cons]
      obtain ⟨hi, heq⟩ | ⟨hi, heq⟩ := addIndex_cases result i
      · obtain ⟨rest, hfold, hnodup, hmem⟩ := ih h
        refine ⟨rest, by rw [heq, hfold], hnodup, fun j => ?_⟩
        rw [hmem, List.mem_cons]
        constructor
        · rintro (hj | hj)
          · exact .inl hj
          · exact .inr (.inr hj)
        · rintro (hj | rfl | hj)
          · exact .inl hj
          · exact .inl hi
          · exact .inr hj
      · have hnext : (result ++ [i]).Nodup :=
          List.nodup_append.mpr ⟨h, List.nodup_singleton i, by
            rintro a ha b hb rfl
            exact hi (List.mem_singleton.mp hb ▸ ha)⟩
        obtain ⟨rest, hfold, hnodup, hmem⟩ := ih hnext
        refine ⟨i :: rest, ?_, ?_, fun j => ?_⟩
        · rw [heq, hfold, List.append_assoc, List.singleton_append]
        · simpa using hnodup
        · have := hmem j
          simp only [List.append_assoc, List.singleton_append] at this
          rw [this, List.mem_append, List.mem_singleton, List.mem_cons, or_assoc]

/-! ## The pool -/

@[simp] theorem Candidate.join_key (c d : Candidate sources) : (c.join d).key = d.key := by
  unfold Candidate.join
  split <;> rfl

@[simp] theorem Candidate.join_isProtected (c d : Candidate sources) :
    (c.join d).isProtected = d.isProtected := by
  unfold Candidate.join
  split <;> rfl

theorem mem_sortedSet {numbers : List ℕ} {n : ℕ} : n ∈ sortedSet numbers ↔ n ∈ numbers := by
  rw [sortedSet, List.mem_mergeSort, List.mem_dedup]

theorem Candidate.mem_join {c d : Candidate sources} {g : ℕ} :
    g ∈ (c.join d).groups ↔ g ∈ d.groups ∨ d.key = c.key ∧ g ∈ c.groups := by
  unfold Candidate.join
  split
  · next h => simp [mem_sortedSet, h]
  · next h => simp [h]

/-- A candidate is known, or taken, or there is no room for it. -/
theorem mergeCandidate_cases (merged : List (Candidate sources)) (c : Candidate sources) :
    (c.key ∈ merged.map (·.key) ∧ mergeCandidate merged c = merged.map c.join) ∨
    (c.key ∉ merged.map (·.key) ∧ merged.length < 24 ∧ mergeCandidate merged c = merged ++ [c]) ∨
    (c.key ∉ merged.map (·.key) ∧ 24 ≤ merged.length ∧ mergeCandidate merged c = merged) := by
  have hany : (merged.any fun d => decide (d.key = c.key)) = true ↔
      c.key ∈ merged.map (·.key) := by
    simp [List.any_eq_true, List.mem_map]
  unfold mergeCandidate
  by_cases hkey : c.key ∈ merged.map (·.key)
  · exact .inl ⟨hkey, if_pos (hany.mpr hkey)⟩
  · rw [if_neg (mt hany.mp hkey)]
    by_cases hroom : merged.length < 24
    · exact .inr (.inl ⟨hkey, hroom, if_pos hroom⟩)
    · exact .inr (.inr ⟨hkey, Nat.le_of_not_lt hroom, if_neg hroom⟩)

theorem map_join_key (c : Candidate sources) (merged : List (Candidate sources)) :
    (merged.map c.join).map (·.key) = merged.map (·.key) := by
  rw [List.map_map]
  exact List.map_congr_left fun d _ => c.join_key d

/-- What a pool of merged candidates says of those it was merged from. -/
structure Merged (given merged : List (Candidate sources)) : Prop where
  few : merged.length ≤ 24
  distinct : (merged.map (·.key)).Nodup
  /-- A candidate has the queries of those that were offered for it. -/
  offered : ∀ c ∈ merged, ∀ g ∈ c.groups, ∃ d ∈ given, d.key = c.key ∧ g ∈ d.groups
  asked : (∀ d ∈ given, d.groups ≠ []) → ∀ c ∈ merged, c.groups ≠ []
  /-- Only for want of room is one left out. -/
  kept : ∀ d ∈ given, d.key ∈ merged.map (·.key) ∨ 24 ≤ merged.length

theorem merged_nil : Merged ([] : List (Candidate sources)) [] where
  few := Nat.zero_le _
  distinct := List.nodup_nil
  offered := by simp
  asked := by simp
  kept := by simp

theorem Merged.step {given merged : List (Candidate sources)} (h : Merged given merged)
    (c : Candidate sources) : Merged (given ++ [c]) (mergeCandidate merged c) := by
  obtain ⟨hkey, heq⟩ | ⟨hkey, hroom, heq⟩ | ⟨hkey, hfull, heq⟩ := mergeCandidate_cases merged c
  · rw [heq]
    constructor
    · rw [List.length_map]
      exact h.few
    · rw [map_join_key]
      exact h.distinct
    · intro d' hd' g hg
      obtain ⟨d, hd, rfl⟩ := List.mem_map.mp hd'
      rw [Candidate.join_key]
      obtain hg | ⟨hsame, hg⟩ := Candidate.mem_join.mp hg
      · obtain ⟨e, he, hsame, hge⟩ := h.offered d hd g hg
        exact ⟨e, List.mem_append_left _ he, hsame, hge⟩
      · exact ⟨c, by simp, hsame.symm, hg⟩
    · intro hgiven d' hd'
      obtain ⟨d, hd, rfl⟩ := List.mem_map.mp hd'
      have hne := h.asked (fun e he => hgiven e (List.mem_append_left _ he)) d hd
      obtain ⟨g, hg⟩ := List.exists_mem_of_ne_nil _ hne
      exact List.ne_nil_of_mem (Candidate.mem_join.mpr (.inl hg))
    · intro d hd
      rw [map_join_key, List.length_map]
      obtain hd | hd := List.mem_append.mp hd
      · exact h.kept d hd
      · rw [List.mem_singleton.mp hd]
        exact .inl hkey
  · rw [heq]
    constructor
    · rw [List.length_append]
      exact hroom
    · rw [List.map_append]
      refine List.nodup_append.mpr ⟨h.distinct, List.nodup_singleton _, ?_⟩
      rintro a ha b hb rfl
      obtain rfl : a = c.key := by simpa using hb
      exact hkey ha
    · intro d hd g hg
      obtain hd | hd := List.mem_append.mp hd
      · obtain ⟨e, he, hsame, hge⟩ := h.offered d hd g hg
        exact ⟨e, List.mem_append_left _ he, hsame, hge⟩
      · rw [List.mem_singleton.mp hd] at hg ⊢
        exact ⟨c, by simp, rfl, hg⟩
    · intro hgiven d hd
      obtain hd | hd := List.mem_append.mp hd
      · exact h.asked (fun e he => hgiven e (List.mem_append_left _ he)) d hd
      · exact hgiven d (List.mem_append_right _ hd)
    · intro d hd
      rw [List.map_append]
      obtain hd | hd := List.mem_append.mp hd
      · obtain hmem | hfull := h.kept d hd
        · exact .inl (List.mem_append_left _ hmem)
        · exact absurd hroom hfull.not_gt
      · rw [List.mem_singleton.mp hd]
        exact .inl (by simp)
  · rw [heq]
    refine { h with offered := ?_, asked := ?_, kept := ?_ }
    · intro d hd g hg
      obtain ⟨e, he, hsame, hge⟩ := h.offered d hd g hg
      exact ⟨e, List.mem_append_left _ he, hsame, hge⟩
    · exact fun hgiven => h.asked fun e he => hgiven e (List.mem_append_left _ he)
    · intro d hd
      obtain hd | hd := List.mem_append.mp hd
      · exact h.kept d hd
      · exact .inr hfull

theorem Merged.foldl (rows : List (Candidate sources)) :
    ∀ {given merged : List (Candidate sources)}, Merged given merged →
      Merged (given ++ rows) (rows.foldl mergeCandidate merged) := by
  induction rows with
  | nil =>
      intro given merged h
      simpa using h
  | cons c rows ih =>
      intro given merged h
      simpa using ih (h.step c)

/-- Candidates that are all protected, or all not, make no other kind of pool. -/
theorem foldl_protected {rows : List (Candidate sources)} (hrows : ∀ c ∈ rows, c.isProtected) :
    ∀ {merged : List (Candidate sources)}, (∀ c ∈ merged, c.isProtected) →
      ∀ c ∈ rows.foldl mergeCandidate merged, c.isProtected := by
  induction rows with
  | nil => exact fun h => h
  | cons c rows ih =>
      intro merged h
      refine ih (fun d hd => hrows d (List.mem_cons_of_mem _ hd)) ?_
      obtain ⟨-, heq⟩ | ⟨-, -, heq⟩ | ⟨-, -, heq⟩ := mergeCandidate_cases merged c
      · rw [heq]
        intro d' hd'
        obtain ⟨d, hd, rfl⟩ := List.mem_map.mp hd'
        rw [Candidate.join_isProtected]
        exact h d hd
      · rw [heq]
        intro d hd
        obtain hd | hd := List.mem_append.mp hd
        · exact h d hd
        · rw [List.mem_singleton.mp hd]
          exact hrows c List.mem_cons_self
      · rw [heq]
        exact h

/-- No candidate is taken by a full pool, and none is lost by any. -/
theorem foldl_keys (rows : List (Candidate sources)) : ∀ (merged : List (Candidate sources)),
    (∀ key ∈ merged.map (·.key), key ∈ (rows.foldl mergeCandidate merged).map (·.key)) ∧
    (24 ≤ merged.length → (∀ c ∈ merged, c.isProtected) →
      ∀ c ∈ rows.foldl mergeCandidate merged, c.isProtected) := by
  induction rows with
  | nil => exact fun merged => ⟨fun _ h => h, fun _ h => h⟩
  | cons c rows ih =>
      intro merged
      rw [List.foldl_cons]
      obtain ⟨hkeys, hall⟩ := ih (mergeCandidate merged c)
      obtain ⟨-, heq⟩ | ⟨-, hroom, heq⟩ | ⟨-, -, heq⟩ := mergeCandidate_cases merged c
      · refine ⟨fun key h => hkeys key ?_, fun hfull h => hall ?_ ?_⟩
        · rwa [heq, map_join_key]
        · rwa [heq, List.length_map]
        · rw [heq]
          intro d' hd'
          obtain ⟨d, hd, rfl⟩ := List.mem_map.mp hd'
          rw [Candidate.join_isProtected]
          exact h d hd
      · refine ⟨fun key h => hkeys key ?_, fun hfull => absurd hroom hfull.not_gt⟩
        rw [heq, List.map_append]
        exact List.mem_append_left _ h
      · rw [heq] at hkeys hall ⊢
        exact ⟨hkeys, hall⟩

end Prism.Policy
