import Mathlib.Data.Finset.Card
import Mathlib.Data.Finset.Dedup
import Prism.Model.Candidates

/-! # The list of candidates, and when it is complete -/

namespace Prism.Candidates

open List

/-! ## What GitHub has, and the pages of it -/

/-- The installations of a user and the repositories of each, as GitHub lists them. -/
structure Holdings where
  installations : List (Option Installation)
  repositories : ℕ → List (Option RemoteRepository)

/-- Answers of a hundred entries a page; the installations are asked for without a page. -/
def serve (h : Holdings) (user : ℤ) : Replies where
  user := .ok (some user)
  installations := .ok (some (h.installations.take 100))
  repositories i page := .ok (some (((h.repositories i).drop (100 * (page - 1))).take 100))

/-- The usable ones of some listed installations. -/
def accepted (appId : ℤ) (entries : List (Option Installation)) : List Installation :=
  (entries.filterMap id).filter (usable appId)

/-- The identifiers of the valid ones of some listed repositories. -/
def validIds (entries : List (Option RemoteRepository)) : List ℕ :=
  (entries.filterMap id).map RemoteRepository.id

/-! ## The entries read -/

/-- What is known of a list of items when the repositories `seen` were read: it has them all
unless they are too many, and it is marked as cut off then, or when `extra` holds. -/
structure Collected (extra : Prop) (seen : List ℕ) (s : Collecting) : Prop where
  nodup : (s.items.map CandidateRepository.githubRepositoryId).Nodup
  subset : ∀ n ∈ s.items.map CandidateRepository.githubRepositoryId, n ∈ seen
  length : s.items.length ≤ 300
  covers : seen.toFinset.card ≤ 300 →
    ∀ n ∈ seen, n ∈ s.items.map CandidateRepository.githubRepositoryId
  flag : s.truncated = true ↔ extra ∨ 300 < seen.toFinset.card

variable {extra : Prop} {seen : List ℕ} {s : Collecting}

theorem Collected.card_le (h : Collected extra seen s) : s.items.length ≤ seen.toFinset.card := by
  have hcard := Finset.card_le_card fun n hn => mem_toFinset.mpr (h.subset n (mem_toFinset.mp hn))
  rwa [toFinset_card_of_nodup h.nodup, length_map] at hcard

/-- Where none was dropped, as many were read as are listed. -/
theorem Collected.card_eq (h : Collected extra seen s) (hfew : seen.toFinset.card ≤ 300) :
    seen.toFinset.card = s.items.length := by
  refine le_antisymm ?_ h.card_le
  have hcard := Finset.card_le_card fun n hn =>
    mem_toFinset.mpr (h.covers hfew n (mem_toFinset.mp hn))
  rwa [toFinset_card_of_nodup h.nodup, length_map] at hcard

theorem toFinset_concat (seen : List ℕ) (n : ℕ) :
    (seen ++ [n]).toFinset = insert n seen.toFinset := by
  ext m
  simp

theorem Collected.add (h : Collected extra seen s) (installation : ℕ) (r : RemoteRepository) :
    Collected extra (seen ++ [r.id]) (s.add installation (some r)) := by
  unfold Collecting.add
  dsimp only
  split
  · next hany =>
    have hmem : r.id ∈ s.items.map CandidateRepository.githubRepositoryId := by
      simpa [mem_map] using hany
    have hcard : (seen ++ [r.id]).toFinset.card = seen.toFinset.card := by
      rw [toFinset_concat, Finset.insert_eq_of_mem (mem_toFinset.mpr (h.subset _ hmem))]
    refine ⟨h.nodup, fun n hn => mem_append_left _ (h.subset n hn), h.length, ?_, ?_⟩
    · intro hfew n hn
      rcases mem_append.mp hn with hn | hn
      · exact h.covers (hcard ▸ hfew) n hn
      · rw [mem_singleton.mp hn]
        exact hmem
    · rw [hcard, h.flag]
  · next hany =>
    have hnew : r.id ∉ s.items.map CandidateRepository.githubRepositoryId := by
      simpa [mem_map] using hany
    split
    · next hmax =>
      have hlength : s.items.length = 300 := le_antisymm h.length hmax
      have hmany : 300 < (seen ++ [r.id]).toFinset.card := by
        have hsub : insert r.id (s.items.map CandidateRepository.githubRepositoryId).toFinset ⊆
            (seen ++ [r.id]).toFinset := by
          rw [toFinset_concat]
          refine Finset.insert_subset_insert _ fun n hn => ?_
          exact mem_toFinset.mpr (h.subset n (mem_toFinset.mp hn))
        have hcard := Finset.card_le_card hsub
        rw [Finset.card_insert_of_notMem (fun hn => hnew (mem_toFinset.mp hn)),
          toFinset_card_of_nodup h.nodup, length_map, hlength] at hcard
        exact hcard
      refine ⟨h.nodup, fun n hn => mem_append_left _ (h.subset n hn), h.length, ?_, ?_⟩
      · intro hfew
        omega
      · exact iff_of_true rfl (.inr hmany)
    · next hmax =>
      have hroom : s.items.length < 300 := not_le.mp hmax
      have hids : (s.items ++ [candidate installation r]).map
          CandidateRepository.githubRepositoryId =
          s.items.map CandidateRepository.githubRepositoryId ++ [r.id] := by
        simp [candidate]
      have hle : seen.toFinset.card ≤ (seen ++ [r.id]).toFinset.card := by
        rw [toFinset_concat]
        exact Finset.card_le_card (Finset.subset_insert _ _)
      have hge : (seen ++ [r.id]).toFinset.card ≤ seen.toFinset.card + 1 := by
        rw [toFinset_concat]
        exact Finset.card_insert_le _ _
      constructor
      · show (map _ (s.items ++ [candidate installation r])).Nodup
        rw [hids]
        exact h.nodup.append (nodup_singleton _) (by simpa using hnew)
      · show ∀ n ∈ map _ (s.items ++ [candidate installation r]), _
        rw [hids]
        intro n hn
        rcases mem_append.mp hn with hn | hn
        · exact mem_append_left _ (h.subset n hn)
        · exact mem_append_right _ hn
      · show (s.items ++ [candidate installation r]).length ≤ 300
        rw [length_append, length_singleton]
        omega
      · show _ → ∀ n ∈ _, n ∈ map _ (s.items ++ [candidate installation r])
        rw [hids]
        intro hfew n hn
        rcases mem_append.mp hn with hn | hn
        · exact mem_append_left _ (h.covers (hle.trans hfew) n hn)
        · exact mem_append_right _ hn
      · show s.truncated = true ↔ _
        rw [h.flag]
        refine or_congr_right ⟨fun hlt => hlt.trans_le hle, fun hlt => ?_⟩
        by_contra hfew
        have := h.card_eq (not_lt.mp hfew)
        omega

theorem Collected.addAll (installation : ℕ) (entries : List (Option RemoteRepository)) :
    ∀ {seen : List ℕ} {s : Collecting}, Collected extra seen s →
      Collected extra (seen ++ validIds entries) (entries.foldl (Collecting.add installation) s) := by
  induction entries with
  | nil =>
      intro seen s h
      simpa [validIds] using h
  | cons entry entries ih =>
      intro seen s h
      cases entry with
      | none => exact ih h
      | some r =>
          have hstep := ih (h.add installation r)
          rwa [append_assoc] at hstep

/-! ## The pages read -/

theorem Collected.congr {extra' : Prop} (h : Collected extra seen s) (hextra : extra ↔ extra') :
    Collected extra' seen s :=
  { h with flag := h.flag.trans (or_congr_left hextra) }

/-- A list that may go on is marked. -/
theorem Collected.mark (h : Collected extra seen s) :
    Collected True seen { s with truncated := true } where
  nodup := h.nodup
  subset := h.subset
  length := h.length
  covers := h.covers
  flag := iff_of_true rfl (.inl trivial)

theorem validIds_append (entries entries' : List (Option RemoteRepository)) :
    validIds (entries ++ entries') = validIds entries ++ validIds entries' := by
  rw [validIds, filterMap_append, map_append, validIds, validIds]

variable {g : Holdings} {user appId : ℤ}

/-- The pages from the one behind the first `k` on. -/
theorem readPages_serve (i k m : ℕ) : ∀ {extra : Prop} {seen : List ℕ} {s : Collecting},
    Collected extra seen s → ∃ s', readPages (serve g user) i (range' (k + 1) m) s = .ok s' ∧
      Collected (extra ∨ 100 * m ≤ ((g.repositories i).drop (100 * k)).length)
        (seen ++ validIds (((g.repositories i).drop (100 * k)).take (100 * m))) s' := by
  induction m generalizing k with
  | zero =>
      intro extra seen s h
      refine ⟨_, rfl, ?_⟩
      simpa [validIds] using h.mark.congr (by simp)
  | succ m ih =>
      intro extra seen s h
      have hpage := h.addAll i (((g.repositories i).drop (100 * k)).take 100)
      rw [range'_succ]
      show ∃ s', (if (((g.repositories i).drop (100 * (k + 1 - 1))).take 100).length < 100 then
        _ else _) = Except.ok s' ∧ _
      rw [Nat.add_sub_cancel]
      split
      · next hshort =>
        rw [length_take] at hshort
        refine ⟨_, rfl, ?_⟩
        have hwhole : ((g.repositories i).drop (100 * k)).take (100 * (m + 1)) =
            ((g.repositories i).drop (100 * k)).take 100 := by
          rw [take_of_length_le (by omega), take_of_length_le (by omega)]
        rw [hwhole]
        have hend : ¬ 100 * (m + 1) ≤ ((g.repositories i).drop (100 * k)).length := by omega
        exact hpage.congr (or_iff_left hend).symm
      · next hlong =>
        rw [length_take] at hlong
        obtain ⟨s', hs', hrest⟩ := ih (k + 1) hpage
        refine ⟨s', hs', ?_⟩
        have hsplit : ((g.repositories i).drop (100 * k)).take (100 * (m + 1)) =
            ((g.repositories i).drop (100 * k)).take 100 ++
              ((g.repositories i).drop (100 * (k + 1))).take (100 * m) := by
          rw [Nat.mul_succ, Nat.add_comm, take_add, drop_drop, Nat.mul_succ]
        rw [hsplit, validIds_append, ← append_assoc]
        refine hrest.congr (or_congr_right ?_)
        rw [length_drop, length_drop] at *
        omega

theorem readInstallations_serve (is : List Installation) :
    ∀ {extra : Prop} {seen : List ℕ} {s : Collecting}, Collected extra seen s →
      ∃ s', readInstallations (serve g user) is s = .ok s' ∧
        Collected (extra ∨ ∃ i ∈ is, 300 ≤ (g.repositories i.id).length)
          (seen ++ is.flatMap fun i => validIds ((g.repositories i.id).take 300)) s' := by
  induction is with
  | nil =>
      intro extra seen s h
      exact ⟨s, rfl, by simpa using h⟩
  | cons i is ih =>
      intro extra seen s h
      obtain ⟨s₁, hs₁, hpages⟩ := @readPages_serve g user i.id 0 3 _ _ _ h
      obtain ⟨s₂, hs₂, hrest⟩ := ih hpages
      refine ⟨s₂, ?_, ?_⟩
      · show (do let s ← readPages (serve g user) i.id [1, 2, 3] s; _) = _
        rw [show [1, 2, 3] = range' (0 + 1) 3 from rfl, hs₁]
        exact hs₂
      · rw [flatMap_cons, ← append_assoc]
        simpa [or_assoc] using hrest

/-! ## When the list is complete -/

/-- The usable installations among the first hundred. -/
def firstUsable (appId : ℤ) (g : Holdings) : List Installation :=
  accepted appId (g.installations.take 100)

/-- The valid repositories of some installations. -/
def idsOf (g : Holdings) (is : List Installation) : List ℕ :=
  is.flatMap fun i => validIds (g.repositories i.id)

/-- Every valid repository of every usable installation is listed, and once. -/
structure Complete (appId : ℤ) (g : Holdings) (items : List CandidateRepository) : Prop where
  all : ∀ i ∈ accepted appId g.installations, ∀ n ∈ validIds (g.repositories i.id),
    ∃ item ∈ items, item.githubRepositoryId = n
  once : (items.map CandidateRepository.githubRepositoryId).Nodup

/-- One of the limits that mark the list is reached, or the installations behind the hundredth
have no repositories of their own. -/
def Covered (appId : ℤ) (g : Holdings) : Prop :=
  20 < (firstUsable appId g).length ∨
    (∃ i ∈ firstUsable appId g, 300 ≤ (g.repositories i.id).length) ∨
    300 < (idsOf g (firstUsable appId g)).toFinset.card ∨
    ∀ i ∈ accepted appId (g.installations.drop 100), ∀ n ∈ validIds (g.repositories i.id),
      n ∈ idsOf g (firstUsable appId g)

theorem accepted_split (appId : ℤ) (g : Holdings) : accepted appId g.installations =
    firstUsable appId g ++ accepted appId (g.installations.drop 100) := by
  rw [firstUsable, accepted, accepted, accepted, ← filter_append, ← filterMap_append,
    take_append_drop]

/-- Where the installations stay within their limits, they are read to their ends. -/
theorem read_ids {is : List Installation} (hshort : ∀ i ∈ is, (g.repositories i.id).length < 300) :
    (is.flatMap fun i => validIds ((g.repositories i.id).take 300)) = idsOf g is :=
  flatMap_congr fun i hi => by rw [take_of_length_le (hshort i hi).le]

/-- What `collect` returns, by what it read. -/
theorem collect_serve (appId user : ℤ) (g : Holdings) : ∃ s,
    collect (serve g user) appId user = .ok ⟨s.items, s.truncated,
      (g.installations.take 100).length - (firstUsable appId g).length⟩ ∧
      Collected (20 < (firstUsable appId g).length ∨
        ∃ i ∈ (firstUsable appId g).take 20, 300 ≤ (g.repositories i.id).length)
        (((firstUsable appId g).take 20).flatMap fun i =>
          validIds ((g.repositories i.id).take 300)) s := by
  have hstart : Collected (20 < (firstUsable appId g).length) []
      ⟨[], decide (maxInstallations < (firstUsable appId g).length)⟩ := by
    refine ⟨nodup_nil, fun n hn => absurd hn not_mem_nil, Nat.zero_le 300,
      fun _ n hn => absurd hn not_mem_nil, ?_⟩
    rw [decide_eq_true_eq]
    simp [maxInstallations]
  obtain ⟨s, hs, hcollected⟩ := @readInstallations_serve g user
    ((firstUsable appId g).take 20) _ _ _ hstart
  refine ⟨s, ?_, hcollected⟩
  show (if some user ≠ some user then _ else do
    let s ← readInstallations (serve g user) ((firstUsable appId g).take 20)
      ⟨[], decide (maxInstallations < (firstUsable appId g).length)⟩
    _) = _
  rw [if_neg (not_not.mpr rfl), hs]
  rfl

theorem collect_complete_iff (appId user : ℤ) (g : Holdings) :
    ∃ c, collect (serve g user) appId user = .ok c ∧
      ((c.truncated = false → Complete appId g c.items) ↔ Covered appId g) := by
  obtain ⟨s, hs, hcollected⟩ := collect_serve appId user g
  refine ⟨_, hs, ?_⟩
  dsimp only
  by_cases hmany : 20 < (firstUsable appId g).length
  · have htruncated : s.truncated = true := hcollected.flag.mpr (.inl (.inl hmany))
    exact iff_of_true (fun h => by rw [htruncated] at h; cases h) (.inl hmany)
  have htake : (firstUsable appId g).take 20 = firstUsable appId g :=
    take_of_length_le (not_lt.mp hmany)
  rw [htake] at hcollected
  by_cases hlong : ∃ i ∈ firstUsable appId g, 300 ≤ (g.repositories i.id).length
  · have htruncated : s.truncated = true := hcollected.flag.mpr (.inl (.inr hlong))
    exact iff_of_true (fun h => by rw [htruncated] at h; cases h) (.inr (.inl hlong))
  rw [read_ids fun i hi => not_le.mp fun hle => hlong ⟨i, hi, hle⟩] at hcollected
  by_cases hfull : 300 < (idsOf g (firstUsable appId g)).toFinset.card
  · have htruncated : s.truncated = true := hcollected.flag.mpr (.inr hfull)
    exact iff_of_true (fun h => by rw [htruncated] at h; cases h) (.inr (.inr (.inl hfull)))
  have hflag : s.truncated = false := by
    rw [Bool.eq_false_iff, Ne, hcollected.flag, not_or, not_or]
    exact ⟨⟨hmany, hlong⟩, hfull⟩
  constructor
  · intro hcomplete
    refine .inr (.inr (.inr fun i hi n hn => ?_))
    obtain ⟨item, hitem, rfl⟩ := (hcomplete hflag).all i
      (accepted_split appId g ▸ mem_append_right _ hi) n hn
    exact hcollected.subset _ (mem_map_of_mem hitem)
  · intro hcovered _
    have hbehind := ((hcovered.resolve_left hmany).resolve_left hlong).resolve_left hfull
    refine ⟨fun i hi n hn => ?_, hcollected.nodup⟩
    have hread : n ∈ idsOf g (firstUsable appId g) := by
      rw [accepted_split] at hi
      rcases mem_append.mp hi with hi | hi
      · exact mem_flatMap.mpr ⟨i, hi, hn⟩
      · exact hbehind i hi n hn
    exact mem_map.mp (hcollected.covers (not_lt.mp hfull) n hread)

/-! ## An installation behind the hundredth -/

/-- An installation that may be read, with one repository, behind a hundred suspended ones. -/
def crowdedHoldings : Holdings where
  installations :=
    (range 100).map (fun n => some ⟨n + 1, 7, some "2026-09-01T00:00:00Z", []⟩) ++
      [some ⟨101, 7, none, [("contents", "read"), ("pull_requests", "read"), ("issues", "read")]⟩]
  repositories i := if i = 101 then [some ⟨5, "r", "o", false, none, true⟩] else []

theorem installation_missed : ∃ c, collect (serve crowdedHoldings 100) 7 100 = .ok c ∧
    c.truncated = false ∧ ¬ Complete 7 crowdedHoldings c.items := by
  refine ⟨⟨[], false, 100⟩, by decide +kernel, rfl, fun hcomplete => ?_⟩
  have hlast : some (⟨101, 7, none, [("contents", "read"), ("pull_requests", "read"),
      ("issues", "read")]⟩ : Installation) ∈ crowdedHoldings.installations := by
    simp [crowdedHoldings]
  obtain ⟨item, hitem, -⟩ := hcomplete.all _ (mem_filter.mpr ⟨mem_filterMap.mpr ⟨_, hlast, rfl⟩,
    by decide⟩) 5 (by decide)
  cases hitem

end Prism.Candidates
