import Prism.Model.Listings
import Prism.Verification.Sync.Freshness

/-! # The pages of pull requests while they are synchronized -/

namespace Prism.Sync

open List Keyset

variable {home : UUID → UUID} {rid : UUID} {pulls pulls' : Table UUID PullRequest}

/-! ## A traversal -/

/-- A request for a page: the table it reads and its cursor. -/
structure Visit where
  pulls : Table UUID PullRequest
  cursor : Option UUID

/-- What the request returns. -/
def Visit.page (home : UUID → UUID) (rid : UUID) (v : Visit) :
    List (UUID × PullRequest) × Option UUID :=
  pageOf 50 Prod.fst (listing v.pulls (home rid) rid v.cursor)

/-- The pages of the repository `rid` from a cursor on, between rows that are stored. A connection
belongs to the workspace `home` has for it. -/
inductive Traverses (home : UUID → UUID) (rid : UUID) :
    Option UUID → Table UUID PullRequest → List Visit → Prop where
  | sync {cursor : Option UUID} {pulls pulls' : Table UUID PullRequest} {visits : List Visit}
      {now : Instant} {r : UUID} {generation : ℕ} {pr : RemotePR} {pid : UUID}
      (h : upsert pulls now (home r) r generation pr pid = .ok pulls')
      (rest : Traverses home rid cursor pulls' visits) : Traverses home rid cursor pulls visits
  | last {cursor : Option UUID} {pulls : Table UUID PullRequest}
      (h : (Visit.page home rid ⟨pulls, cursor⟩).2 = none) :
      Traverses home rid cursor pulls [⟨pulls, cursor⟩]
  | more {cursor : Option UUID} {pulls : Table UUID PullRequest} {c : UUID} {visits : List Visit}
      (h : (Visit.page home rid ⟨pulls, cursor⟩).2 = some c)
      (rest : Traverses home rid (some c) pulls visits) :
      Traverses home rid cursor pulls (⟨pulls, cursor⟩ :: visits)

/-- How often a pull request is returned. -/
def timesListed (home : UUID → UUID) (rid : UUID) (visits : List Visit) (id : UUID) : ℕ :=
  ((visits.flatMap fun v => (v.page home rid).1).map Prod.fst).count id

def updatedAt (pulls : Table UUID PullRequest) (id : UUID) : Option Instant :=
  (pulls.get id).map PullRequest.githubUpdatedAt

/-- Between the page that returned a cursor and the page asked for with it, its row is not given
another time. -/
def Steady (visits : List Visit) : Prop :=
  visits.IsChain fun v v' => ∀ c, v'.cursor = some c → updatedAt v.pulls c = updatedAt v'.pulls c

/-! ## Tables -/

/-- Every row is one of the workspace of its connection. -/
def Homed (home : UUID → UUID) (pulls : Table UUID PullRequest) : Prop :=
  ∀ id row, pulls.get id = some row → row.workspaceId = home row.repositoryConnectionId

/-- A cursor is a stored row of the repository. -/
def Placed (rid : UUID) (cursor : Option UUID) (pulls : Table UUID PullRequest) : Prop :=
  ∀ c, cursor = some c → ∃ row, pulls.get c = some row ∧ row.repositoryConnectionId = rid

theorem upsert_homed (hhomed : Homed home pulls) {now : Instant} {r : UUID} {generation : ℕ}
    {pr : RemotePR} {pid : UUID}
    (h : upsert pulls now (home r) r generation pr pid = .ok pulls') : Homed home pulls' := by
  rcases upsert_cases h with rfl | ⟨id, rfl, -⟩
  · exact hhomed
  · intro id' row hrow
    rcases (Table.get_put_eq_some ..).mp hrow with ⟨-, rfl⟩ | ⟨-, hrow⟩
    · rfl
    · exact hhomed id' row hrow

theorem Placed.keeps {cursor : Option UUID} (h : Placed rid cursor pulls)
    (hkeeps : pulls.Keeps Newer pulls') : Placed rid cursor pulls' := by
  intro c hc
  obtain ⟨row, hrow, hrid⟩ := h c hc
  obtain ⟨row', hrow', hnewer⟩ := hkeeps c row hrow
  exact ⟨row', hrow', hnewer.repository.trans hrid⟩

theorem mem_pullsOf (hhomed : Homed home pulls) {e : UUID × PullRequest} :
    e ∈ pullsOf pulls (home rid) rid ↔
      pulls.get e.1 = some e.2 ∧ e.2.repositoryConnectionId = rid := by
  obtain ⟨id, row⟩ := e
  rw [pullsOf, Table.mem_select_iff, Bool.and_eq_true, decide_eq_true_eq, decide_eq_true_eq]
  constructor
  · rintro ⟨hget, -, hrid⟩
    exact ⟨hget, hrid⟩
  · rintro ⟨hget, rfl⟩
    exact ⟨hget, hhomed id row hget, rfl⟩

theorem distinct_pullKey (wid rid : UUID) : Distinct pullKey (pullsOf pulls wid rid) := by
  refine (pairwise_map.mp (Table.nodup_keys_select pulls _)).imp fun hne heq => hne ?_
  exact congrArg Prod.snd (toLex_inj.mp (OrderDual.toDual_inj.mp heq))

/-! ## One page -/

/-- The place of the cursor in the order of the listing. -/
def Visit.position (v : Visit) : WithBot (Instant ×ₗ UUID)ᵒᵈ :=
  match v.cursor with
  | none => ⊥
  | some c =>
    match v.pulls.get c with
    | none => ⊥
    | some row => pullKey (c, row)

/-- What a visit is known to start from. -/
structure Visit.Valid (home : UUID → UUID) (rid : UUID) (v : Visit) : Prop where
  homed : Homed home v.pulls
  placed : Placed rid v.cursor v.pulls

/-- What is found behind the cursor. -/
def Visit.found (home : UUID → UUID) (rid : UUID) (v : Visit) : List (UUID × PullRequest) :=
  seek pullKey v.position (pullsOf v.pulls (home rid) rid)

theorem Visit.Valid.listing {v : Visit} (h : v.Valid home rid) :
    listing v.pulls (home rid) rid v.cursor = (v.found home rid).take 51 := by
  obtain ⟨pulls, cursor⟩ := v
  cases cursor with
  | none =>
      rw [Sync.listing, Visit.found, Visit.position, seek, filter_eq_self.mpr (fun e _ => by simp)]
  | some c =>
      obtain ⟨row, hrow, hrid⟩ := h.placed c rfl
      have hin : pullIn pulls (home rid) c = some row := by
        rw [pullIn, hrow, Option.filter_some, if_pos]
        exact decide_eq_true (hrid ▸ h.homed c row hrow)
      have hposition : Visit.position ⟨pulls, some c⟩ = pullKey (c, row) := by
        simp only [Visit.position, hrow]
      rw [Sync.listing, Visit.found, hposition]
      dsimp only
      rw [hin]
      dsimp only
      rw [if_neg (not_not.mpr hrid), seek]
      refine congrArg (fun l => (ordered pullKey l).take 51) (filter_congr fun e _ => ?_)
      rw [Bool.eq_iff_iff, decide_eq_true_eq, decide_eq_true_eq, WithBot.coe_lt_coe]
      rfl

theorem Visit.Valid.page {v : Visit} (h : v.Valid home rid) :
    v.page home rid = (items 50 (v.found home rid), (next 50 (v.found home rid)).map Prod.fst) := by
  rw [Visit.page, h.listing, pageOf, items_take, next_take]

theorem Visit.found_pairwise (v : Visit) :
    (v.found home rid).Pairwise fun e e' => pullKey e < pullKey e' :=
  seek_pairwise (distinct_pullKey _ _) _

/-- A page has a pull request at most once. -/
theorem Visit.count_items (v : Visit) (id : UUID) :
    ((items 50 (v.found home rid)).map Prod.fst).count id =
      if id ∈ (items 50 (v.found home rid)).map Prod.fst then 1 else 0 := by
  refine Nodup.count ?_
  have hnodup : ((pullsOf v.pulls (home rid) rid).map Prod.fst).Nodup :=
    Table.nodup_keys_select v.pulls _
  have hfound : ((v.found home rid).map Prod.fst).Nodup := by
    refine ((ordered_perm _).map Prod.fst).nodup_iff.mpr ?_
    exact hnodup.sublist (filter_sublist.map Prod.fst)
  exact hfound.sublist ((take_sublist 50 _).map Prod.fst)

/-- A stored pull request is on a page when it lies behind the cursor and no further than the
last row of a page that another one follows. -/
theorem Visit.Valid.count_page {v : Visit} (h : v.Valid home rid) {id : UUID} {row : PullRequest}
    (hrow : v.pulls.get id = some row) (hrid : row.repositoryConnectionId = rid) :
    ((v.page home rid).1.map Prod.fst).count id =
      if v.position < pullKey (id, row) ∧
        ∀ l, next 50 (v.found home rid) = some l → pullKey (id, row) ≤ pullKey l then 1 else 0 := by
  have hmem : id ∈ (items 50 (v.found home rid)).map Prod.fst ↔
      (id, row) ∈ items 50 (v.found home rid) := by
    constructor
    · intro hid
      obtain ⟨⟨id', row'⟩, he, rfl⟩ := mem_map.mp hid
      have hget := ((mem_pullsOf h.homed).mp (mem_seek.mp (mem_of_mem_take he)).1).1
      obtain rfl := Option.some.inj (hrow.symm.trans hget)
      exact he
    · exact fun he => mem_map.mpr ⟨_, he, rfl⟩
  have hfound : (id, row) ∈ v.found home rid ↔ v.position < pullKey (id, row) := by
    rw [Visit.found, mem_seek, mem_pullsOf h.homed]
    exact and_iff_right ⟨hrow, hrid⟩
  rw [h.page, v.count_items]
  refine if_congr ?_ rfl rfl
  rw [hmem]
  cases hnext : next 50 (v.found home rid) with
  | none =>
      rw [items_of_next_none hnext (by decide), hfound]
      simp
  | some l =>
      rw [mem_items_of_next v.found_pairwise hnext (by decide), hfound]
      simp

/-- The cursor a page returns is its last row. -/
theorem Visit.Valid.next {v : Visit} (h : v.Valid home rid) {c : UUID}
    (hc : (v.page home rid).2 = some c) : ∃ row, Keyset.next 50 (v.found home rid) = some (c, row) ∧
      v.pulls.get c = some row ∧ row.repositoryConnectionId = rid := by
  rw [h.page] at hc
  obtain ⟨⟨c', row⟩, hnext, rfl⟩ := Option.map_eq_some_iff.mp hc
  have hl := next_mem v.found_pairwise hnext (by decide)
  exact ⟨row, hnext, (mem_pullsOf h.homed).mp (mem_seek.mp (mem_of_mem_take hl)).1⟩

/-! ## The whole traversal -/

theorem Traverses.first {cursor : Option UUID} {visits : List Visit}
    (h : Traverses home rid cursor pulls visits) (hhomed : Homed home pulls)
    (hplaced : Placed rid cursor pulls) : ∃ v rest, visits = v :: rest ∧ v.cursor = cursor ∧
      v.Valid home rid ∧ pulls.Keeps Newer v.pulls := by
  induction h with
  | sync h _ ih =>
      obtain ⟨v, rest, rfl, hcursor, hvalid, hkeeps⟩ :=
        ih (upsert_homed hhomed h) (hplaced.keeps (upsert_keeps h))
      exact ⟨v, rest, rfl, hcursor, hvalid, (upsert_keeps h).trans Newer.trans hkeeps⟩
  | last h => exact ⟨_, [], rfl, rfl, ⟨hhomed, hplaced⟩, .refl Newer.refl _⟩
  | more h rest _ => exact ⟨_, _, rfl, rfl, ⟨hhomed, hplaced⟩, .refl Newer.refl _⟩

/-- A later row comes earlier in the listing. -/
theorem pullKey_le {id : UUID} {row row' : PullRequest}
    (h : row.githubUpdatedAt ≤ row'.githubUpdatedAt) : pullKey (id, row') ≤ pullKey (id, row) := by
  rw [pullKey, pullKey, OrderDual.toDual_le_toDual, Prod.Lex.toLex_le_toLex]
  rcases h.lt_or_eq with hlt | heq
  · exact .inl hlt
  · exact .inr ⟨heq, le_refl _⟩

theorem timesListed_cons (v : Visit) (visits : List Visit) (id : UUID) :
    timesListed home rid (v :: visits) id =
      ((v.page home rid).1.map Prod.fst).count id + timesListed home rid visits id := by
  rw [timesListed, flatMap_cons, map_append, count_append, timesListed]

/-- How often an unchanged pull request is returned, by its place relative to the first cursor. -/
structure Listed (home : UUID → UUID) (rid : UUID) (visits : List Visit) (id : UUID)
    (row : PullRequest) : Prop where
  least : ∀ v rest, visits = v :: rest → v.position < pullKey (id, row) →
    1 ≤ timesListed home rid visits id
  once : Steady visits → ∀ v rest, visits = v :: rest → v.position < pullKey (id, row) →
    timesListed home rid visits id = 1
  none : Steady visits → ∀ v rest, visits = v :: rest → ¬ v.position < pullKey (id, row) →
    timesListed home rid visits id = 0

theorem Traverses.listed {cursor : Option UUID} {visits : List Visit}
    (h : Traverses home rid cursor pulls visits) (hhomed : Homed home pulls)
    (hplaced : Placed rid cursor pulls) {id : UUID} {row : PullRequest}
    (hrid : row.repositoryConnectionId = rid)
    (hkept : ∀ v ∈ visits, v.pulls.get id = some row) : Listed home rid visits id row := by
  induction h with
  | sync h _ ih => exact ih (upsert_homed hhomed h) (hplaced.keeps (upsert_keeps h)) hkept
  | @last cursor pulls h =>
      have hvalid : Visit.Valid home rid ⟨pulls, cursor⟩ := ⟨hhomed, hplaced⟩
      have hnext : next 50 (Visit.found home rid ⟨pulls, cursor⟩) = none := by
        rw [hvalid.page] at h
        exact Option.map_eq_none_iff.mp h
      have hcount := hvalid.count_page (hkept _ mem_cons_self) hrid
      have htimes : timesListed home rid [⟨pulls, cursor⟩] id =
          if Visit.position ⟨pulls, cursor⟩ < pullKey (id, row) then 1 else 0 := by
        rw [timesListed_cons, hcount, hnext]
        simp [timesListed]
      constructor
      · rintro v rest ⟨⟩ hlt
        rw [htimes, if_pos hlt]
      · rintro - v rest ⟨⟩ hlt
        rw [htimes, if_pos hlt]
      · rintro - v rest ⟨⟩ hlt
        rw [htimes, if_neg hlt]
  | @more cursor pulls c visits h rest ih =>
      have hvalid : Visit.Valid home rid ⟨pulls, cursor⟩ := ⟨hhomed, hplaced⟩
      obtain ⟨lastRow, hnext, hlast, hlastRid⟩ := hvalid.next h
      have hplaced' : Placed rid (some c) pulls := by
        rintro _ ⟨⟩
        exact ⟨lastRow, hlast, hlastRid⟩
      obtain ⟨v', rest', rfl, hcursor, hvalid', hkeeps⟩ := rest.first hhomed hplaced'
      obtain ⟨lastRow', hlast', hnewer⟩ := hkeeps c lastRow hlast
      have hposition : v'.position = pullKey (c, lastRow') := by
        simp only [Visit.position, hcursor, hlast']
      have hback : pullKey (c, lastRow') ≤ pullKey (c, lastRow) := pullKey_le hnewer.updated
      have hlisted := ih hhomed hplaced' fun v hv => hkept v (mem_cons_of_mem _ hv)
      have hcount := hvalid.count_page (hkept _ mem_cons_self) hrid
      -- The next page begins no later than this one ends.
      have hsteady : Steady (⟨pulls, cursor⟩ :: v' :: rest') →
          pullKey (c, lastRow') = pullKey (c, lastRow) := by
        intro hsteady
        have hsame := (isChain_cons_cons.mp hsteady).1 c hcursor
        simp only [updatedAt, hlast, hlast', Option.map_some, Option.some.injEq] at hsame
        simp only [pullKey, hsame]
      have hreach : (∀ l, next 50 (Visit.found home rid ⟨pulls, cursor⟩) = some l →
          pullKey (id, row) ≤ pullKey l) ↔ pullKey (id, row) ≤ pullKey (c, lastRow) := by
        rw [hnext]
        exact ⟨fun hle => hle _ rfl, fun hle l hl => Option.some.inj hl ▸ hle⟩
      simp only [hreach] at hcount
      constructor
      · rintro v rest ⟨⟩ hlt
        rw [timesListed_cons, hcount]
        by_cases hle : pullKey (id, row) ≤ pullKey (c, lastRow)
        · rw [if_pos ⟨hlt, hle⟩]
          omega
        · have := hlisted.least v' rest' rfl (by
            rw [hposition, WithBot.coe_lt_coe]
            exact hback.trans_lt (not_le.mp hle))
          omega
      · rintro hchain v rest ⟨⟩ hlt
        rw [timesListed_cons, hcount]
        by_cases hle : pullKey (id, row) ≤ pullKey (c, lastRow)
        · rw [if_pos ⟨hlt, hle⟩, hlisted.none (isChain_cons_cons.mp hchain).2 v' rest' rfl (by
            rw [hposition, WithBot.coe_lt_coe, hsteady hchain]
            exact not_lt.mpr hle)]
        · rw [if_neg (fun hboth => hle hboth.2), hlisted.once (isChain_cons_cons.mp hchain).2 v' rest' rfl (by
            rw [hposition, WithBot.coe_lt_coe, hsteady hchain]
            exact not_le.mp hle)]
      · rintro hchain v rest ⟨⟩ hlt
        have hl := (mem_seek.mp (mem_of_mem_take
          (next_mem (Visit.found_pairwise ⟨pulls, cursor⟩) hnext (by decide)))).2
        have hlast : ¬ v'.position < pullKey (id, row) := by
          rw [hposition, WithBot.coe_lt_coe, hsteady hchain]
          intro hgt
          exact hlt (hl.trans (WithBot.coe_lt_coe.mpr hgt))
        rw [timesListed_cons, hcount, if_neg (fun hboth => hlt hboth.1),
          hlisted.none (isChain_cons_cons.mp hchain).2 v' rest' rfl hlast]

/-- Whatever is stored between the pages, an unchanged pull request is returned. It is returned
once when no cursor's row is given another time between two pages. -/
theorem unchanged_listed (home : UUID → UUID) (rid : UUID) (pulls : Table UUID PullRequest)
    (visits : List Visit) (hhomed : Homed home pulls)
    (h : Traverses home rid none pulls visits) (id : UUID) (row : PullRequest)
    (hrid : row.repositoryConnectionId = rid)
    (hkept : ∀ v ∈ visits, v.pulls.get id = some row) :
    1 ≤ timesListed home rid visits id ∧
      (Steady visits → timesListed home rid visits id = 1) := by
  have hplaced : Placed rid none pulls := fun _ hc => by cases hc
  obtain ⟨v, rest, hvisits, hcursor, -⟩ := h.first hhomed hplaced
  have hlisted := h.listed hhomed hplaced hrid hkept
  have hstart : v.position < pullKey (id, row) := by
    rw [Visit.position, hcursor]
    exact WithBot.bot_lt_coe _
  exact ⟨hlisted.least v rest hvisits hstart, fun hsteady => hlisted.once hsteady v rest hvisits hstart⟩

/-! ## A cursor that moves -/

section Moving

/-- The row of the pull request `n` of the repository `2`. -/
def samplePull (n : ℕ) (time : Instant) : PullRequest where
  workspaceId := 1
  repositoryConnectionId := 2
  githubPrId := n + 1
  prNumber := n + 1
  title := ""
  authorGithubUserId := none
  authorLogin := none
  state := .opened
  mergeStatus := .unknown
  isDraft := false
  baseRef := none
  headRef := none
  baseSha := none
  headSha := none
  changedFilesCount := none
  commitsCount := none
  githubCreatedAt := 0
  githubUpdatedAt := time
  closedAt := none
  mergedAt := none
  syncedAt := 0
  syncedConnectionGeneration := 1

/-- Rows whose storage order is that of the listing. -/
theorem found_sorted {v : Visit} (hsorted : (pullsOf v.pulls 1 2).Pairwise fun e e' =>
    pullKey e < pullKey e') : v.found (fun _ => 1) 2 =
      (pullsOf v.pulls 1 2).filter fun e => decide (v.position < pullKey e) := by
  rw [Visit.found, seek, ordered]
  refine mergeSort_of_pairwise ?_
  exact (hsorted.sublist filter_sublist).imp fun hlt => decide_eq_true hlt.le

def sampleRow (i : ℕ) : UUID × PullRequest :=
  (i, samplePull i (1000 - i))

/-- Fifty-one pull requests, each a little older than the one before it. -/
def samplePulls : Table UUID PullRequest where
  entries := (range 51).map fun i => ⟨i, samplePull i (1000 - i)⟩
  nodupKeys := by
    rw [NodupKeys, keys, map_map]
    exact nodup_range.map_on fun _ _ _ _ h => h

/-- What is fetched of the one on which the first page ends. -/
def sampleUpdate : RemotePR where
  id := 50
  number := 50
  title := ""
  user := none
  state := .opened
  draft := false
  base := ⟨none, none⟩
  head := ⟨none, none⟩
  merged := none
  mergedAt := none
  closedAt := none
  createdAt := 0
  updatedAt := 2000
  changedFiles := none
  commits := none

/-- The table after it is stored: the last row of the page has become the first one. -/
def movedPulls : Table UUID PullRequest :=
  samplePulls.put 49 (rowOf 0 1 2 1 sampleUpdate)

theorem pullsOf_samplePulls : pullsOf samplePulls 1 2 = (range 51).map sampleRow :=
  rfl

theorem pullsOf_movedPulls : pullsOf movedPulls 1 2 =
    (49, rowOf 0 1 2 1 sampleUpdate) :: ((range 49).map sampleRow ++ [sampleRow 50]) :=
  rfl

theorem pullKey_sampleRow_lt {i j : ℕ} (h : i < j) (hj : j < 1000) :
    pullKey (sampleRow i) < pullKey (sampleRow j) := by
  rw [pullKey, pullKey, OrderDual.toDual_lt_toDual, Prod.Lex.toLex_lt_toLex]
  refine .inl ?_
  show 1000 - j < 1000 - i
  omega

theorem pullKey_moved_lt (i : ℕ) :
    pullKey (49, rowOf 0 1 2 1 sampleUpdate) < pullKey (sampleRow i) := by
  rw [pullKey, pullKey, OrderDual.toDual_lt_toDual, Prod.Lex.toLex_lt_toLex]
  refine .inl ?_
  show 1000 - i < 2000
  omega

theorem found_first : Visit.found (fun _ => 1) 2 ⟨samplePulls, none⟩ =
    (range 51).map sampleRow := by
  rw [found_sorted, pullsOf_samplePulls, filter_eq_self]
  · intro e _
    exact decide_eq_true (WithBot.bot_lt_coe _)
  · rw [pullsOf_samplePulls]
    refine pairwise_map.mpr (pairwise_lt_range.imp_of_mem ?_)
    intro i j _ hj hlt
    have := mem_range.mp hj
    exact pullKey_sampleRow_lt hlt (by omega)

theorem found_second : Visit.found (fun _ => 1) 2 ⟨movedPulls, some 49⟩ =
    (range 49).map sampleRow ++ [sampleRow 50] := by
  have hposition : Visit.position ⟨movedPulls, some 49⟩ =
      pullKey (49, rowOf 0 1 2 1 sampleUpdate) := by
    have hget : movedPulls.get 49 = some (rowOf 0 1 2 1 sampleUpdate) := Table.get_put_self ..
    simp only [Visit.position, hget]
  have hbehind : ∀ e ∈ (range 49).map sampleRow ++ [sampleRow 50],
      pullKey (49, rowOf 0 1 2 1 sampleUpdate) < pullKey e := by
    intro e he
    rcases mem_append.mp he with he | he
    · obtain ⟨i, _, rfl⟩ := mem_map.mp he
      exact pullKey_moved_lt i
    · rw [mem_singleton.mp he]
      exact pullKey_moved_lt 50
  rw [found_sorted, pullsOf_movedPulls, hposition, filter_cons_of_neg (by simp), filter_eq_self]
  · intro e he
    exact decide_eq_true (WithBot.coe_lt_coe.mpr (hbehind e he))
  · rw [pullsOf_movedPulls]
    refine pairwise_cons.mpr ⟨hbehind, pairwise_append.mpr ⟨?_, pairwise_singleton _ _, ?_⟩⟩
    · refine pairwise_map.mpr (pairwise_lt_range.imp_of_mem ?_)
      intro i j _ hj hlt
      have := mem_range.mp hj
      exact pullKey_sampleRow_lt hlt (by omega)
    · intro e he e' he'
      obtain ⟨i, hi, rfl⟩ := mem_map.mp he
      have := mem_range.mp hi
      rw [mem_singleton.mp he']
      exact pullKey_sampleRow_lt (by omega) (by omega)

theorem homed_samplePulls : Homed (fun _ => 1) samplePulls := by
  intro id row hrow
  obtain ⟨i, _, heq⟩ := mem_map.mp (AList.mem_lookup_iff.mp hrow)
  cases heq
  rfl

theorem stored_update : upsert samplePulls 0 1 2 1 sampleUpdate 60 = .ok movedPulls :=
  rfl

theorem first_valid : Visit.Valid (fun _ => 1) 2 ⟨samplePulls, none⟩ :=
  ⟨homed_samplePulls, fun _ hc => by cases hc⟩

theorem second_valid : Visit.Valid (fun _ => 1) 2 ⟨movedPulls, some 49⟩ := by
  refine ⟨upsert_homed homed_samplePulls stored_update, ?_⟩
  rintro _ ⟨⟩
  exact ⟨_, Table.get_put_self .., rfl⟩

/-- Two pages, and the update between them. -/
def sampleVisits : List Visit :=
  [⟨samplePulls, none⟩, ⟨movedPulls, some 49⟩]

theorem traverses_sampleVisits : Traverses (fun _ => 1) 2 none samplePulls sampleVisits := by
  refine .more ?_ (.sync stored_update (.last ?_))
  · rw [first_valid.page, found_first]
    rfl
  · rw [second_valid.page, found_second]
    rfl

theorem kept_sampleVisits : ∀ v ∈ sampleVisits, v.pulls.get 0 = some (samplePull 0 1000) := by
  intro v hv
  rcases mem_cons.mp hv with rfl | hv
  · rfl
  · rw [mem_singleton.mp hv]
    rfl

theorem unchanged_listed_sample : 1 ≤ timesListed (fun _ => 1) 2 sampleVisits 0 ∧
    (Steady sampleVisits → timesListed (fun _ => 1) 2 sampleVisits 0 = 1) :=
  unchanged_listed (fun _ => 1) 2 samplePulls sampleVisits homed_samplePulls traverses_sampleVisits
    0 (samplePull 0 1000) rfl kept_sampleVisits

/-- A pull request that nothing changes is returned twice when the last one of its page is
updated before the next page is asked for. -/
theorem unchanged_listed_twice : Homed (fun _ => 1) samplePulls ∧
    Traverses (fun _ => 1) 2 none samplePulls sampleVisits ∧
    (∀ v ∈ sampleVisits, v.pulls.get 0 = some (samplePull 0 1000)) ∧
    timesListed (fun _ => 1) 2 sampleVisits 0 = 2 := by
  refine ⟨homed_samplePulls, traverses_sampleVisits, kept_sampleVisits, ?_⟩
  rw [timesListed, sampleVisits, flatMap_cons, flatMap_singleton, first_valid.page,
    second_valid.page, found_first, found_second]
  decide

end Moving

end Prism.Sync
