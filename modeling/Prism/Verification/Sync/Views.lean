import Prism.Model.PullRequest

/-! # Two views of one pull request -/

namespace Prism.Sync

/-! ## Statements -/

/-- The list endpoint and the endpoint of one pull request show the same state. The list leaves
out whether it is merged and how large it is. -/
structure Views (list single : RemotePR) : Prop where
  shared : list = { single with merged := none, changedFiles := none, commits := none }

/-- Storing two views, one after the other. -/
def storeBoth (pulls : Table UUID PullRequest) (now now' : Instant) (wid rid : UUID)
    (generation : ℕ) (first second : RemotePR) (pid pid' : UUID) : Tx (Table UUID PullRequest) := do
  let pulls ← upsert pulls now wid rid generation first pid
  upsert pulls now' wid rid generation second pid'

/-- The row with the knowledge of a list view only. -/
def listed (row : PullRequest) : PullRequest :=
  { row with
    mergeStatus := if row.mergedAt.isSome then .merged else .unknown
    changedFilesCount := none
    commitsCount := none }

/-- What the two orders store: nothing for one reason, nothing over a newer row, or the row of
the view that comes last. -/
inductive LastStored (pulls : Table UUID PullRequest) (row : PullRequest) :
    Tx (Table UUID PullRequest) → Tx (Table UUID PullRequest) → Prop where
  | refused (e) : LastStored pulls row (.error e) (.error e)
  | newer {id stored} (hget : pulls.get id = some stored)
      (hsame : stored.repositoryConnectionId = row.repositoryConnectionId ∧
        stored.prNumber = row.prNumber)
      (hnewer : row.githubUpdatedAt < stored.githubUpdatedAt) :
      LastStored pulls row (.ok pulls) (.ok pulls)
  | stored (id) : LastStored pulls row (.ok (pulls.put id row)) (.ok (pulls.put id (listed row)))

/-! ## Storing twice -/

theorem find_put_self {p : UUID → PullRequest → Bool} {id : UUID} {row : PullRequest}
    (h : p id row = true) (pulls : Table UUID PullRequest) :
    (pulls.put id row).find p = some (id, row) := by
  change List.find? _ ((id, row) :: (List.kerase id pulls.entries).map _) = _
  rw [List.find?_cons]
  simp only [h]

theorem put_put (pulls : Table UUID PullRequest) (id : UUID) (row row' : PullRequest) :
    (pulls.put id row).put id row' = pulls.put id row' :=
  AList.insert_insert pulls

theorem githubIdTaken_put (pulls : Table UUID PullRequest) (id rid : UUID) (row : PullRequest)
    (gid : ℕ) : githubIdTaken (pulls.put id row) id rid gid = githubIdTaken pulls id rid gid := by
  rw [Bool.eq_iff_iff, githubIdTaken, githubIdTaken, Table.holds_iff, Table.holds_iff]
  constructor
  · rintro ⟨k, r, hget, hp⟩
    have hk : k ≠ id := by
      rintro rfl
      simp at hp
    exact ⟨k, r, by rwa [Table.get_put_of_ne _ _ hk] at hget, hp⟩
  · rintro ⟨k, r, hget, hp⟩
    have hk : k ≠ id := by
      rintro rfl
      simp at hp
    exact ⟨k, r, by rwa [Table.get_put_of_ne _ _ hk], hp⟩

variable {pulls : Table UUID PullRequest} {now now' : Instant} {wid rid : UUID} {generation : ℕ}
  {first second : RemotePR} {pid pid' : UUID}

theorem upsert_new
    (hfind : pulls.find (fun _ row =>
      row.repositoryConnectionId = rid && row.prNumber = first.number) = none) :
    upsert pulls now wid rid generation first pid =
      if githubIdTaken pulls pid rid first.id then .error .integrityError
      else insertRow pulls pid (rowOf now wid rid generation first) := by
  unfold upsert
  rw [hfind]

theorem upsert_old {id : UUID} {row : PullRequest}
    (hfind : pulls.find (fun _ row =>
      row.repositoryConnectionId = rid && row.prNumber = first.number) = some (id, row)) :
    upsert pulls now wid rid generation first pid =
      if first.updatedAt < row.githubUpdatedAt then .ok pulls
      else if row.githubUpdatedAt = first.updatedAt ∧
          (row.headSha ≠ first.head.sha ∨ row.baseSha ≠ first.base.sha) then
        .error snapshotConflict
      else if githubIdTaken pulls id rid first.id then .error .integrityError
      else .ok (pulls.put id (rowOf now wid rid generation first)) := by
  unfold upsert
  rw [hfind]

section Same

variable (hid : first.id = second.id) (hnumber : first.number = second.number)
  (htime : first.updatedAt = second.updatedAt) (hhead : first.head.sha = second.head.sha)
  (hbase : first.base.sha = second.base.sha)

include hnumber htime hhead hbase

/-- A view is stored over another one of the same state. -/
theorem upsert_over {id : UUID} (htaken : githubIdTaken pulls id rid second.id = false) :
    upsert (pulls.put id (rowOf now wid rid generation first)) now' wid rid generation second pid' =
      .ok (pulls.put id (rowOf now' wid rid generation second)) := by
  have hfound : (pulls.put id (rowOf now wid rid generation first)).find (fun _ row =>
      row.repositoryConnectionId = rid && row.prNumber = second.number) =
        some (id, rowOf now wid rid generation first) :=
    find_put_self (by simp [rowOf, hnumber]) pulls
  have hstale : ¬ second.updatedAt < (rowOf now wid rid generation first).githubUpdatedAt := by
    change ¬ second.updatedAt < first.updatedAt
    rw [htime]
    exact lt_irrefl _
  have hconflict : ¬ ((rowOf now wid rid generation first).githubUpdatedAt = second.updatedAt ∧
      ((rowOf now wid rid generation first).headSha ≠ second.head.sha ∨
        (rowOf now wid rid generation first).baseSha ≠ second.base.sha)) := by
    rintro ⟨-, h | h⟩
    · exact h hhead
    · exact h hbase
  rw [upsert_old hfound, if_neg hstale, if_neg hconflict, githubIdTaken_put, htaken, put_put]
  rfl

include hid

/-- What is stored in the end is what the second view says, as if the first had not been there. -/
theorem storeBoth_eq :
    storeBoth pulls now now' wid rid generation first second pid pid' =
      upsert pulls now' wid rid generation second pid := by
  unfold storeBoth
  cases hfind : pulls.find (fun _ row =>
      row.repositoryConnectionId = rid && row.prNumber = second.number) with
  | none =>
      rw [upsert_new (hnumber ▸ hfind), upsert_new hfind, hid]
      cases htaken : githubIdTaken pulls pid rid second.id with
      | true => rfl
      | false =>
          unfold insertRow
          by_cases hget : (pulls.get pid).isSome
          · simp only [hget]
            rfl
          · simp only [hget]
            exact upsert_over hnumber htime hhead hbase htaken
  | some entry =>
      obtain ⟨id, row⟩ := entry
      rw [upsert_old (hnumber ▸ hfind), upsert_old hfind, hid, htime, hhead, hbase]
      by_cases hstale : second.updatedAt < row.githubUpdatedAt
      · rw [if_pos hstale, if_pos hstale]
        change upsert pulls now' wid rid generation second pid' = _
        rw [upsert_old hfind, if_pos hstale]
      rw [if_neg hstale, if_neg hstale]
      by_cases hconflict : row.githubUpdatedAt = second.updatedAt ∧
          (row.headSha ≠ second.head.sha ∨ row.baseSha ≠ second.base.sha)
      · rw [if_pos hconflict, if_pos hconflict]
        rfl
      rw [if_neg hconflict, if_neg hconflict]
      cases htaken : githubIdTaken pulls id rid second.id with
      | true => rfl
      | false => exact upsert_over hnumber htime hhead hbase htaken

end Same

/-! ## Main result -/

theorem rowOf_list {list single : RemotePR} (h : Views list single) :
    rowOf now wid rid generation list = listed (rowOf now wid rid generation single) := by
  rw [h.shared]
  simp only [rowOf, listed, mergeStatusOf]
  split <;> simp_all

theorem upsert_cases_views {list single : RemotePR} (h : Views list single) :
    LastStored pulls (rowOf now wid rid generation single)
      (upsert pulls now wid rid generation single pid)
      (upsert pulls now wid rid generation list pid) := by
  have hnumber : list.number = single.number := by rw [h.shared]
  have hid : list.id = single.id := by rw [h.shared]
  have htime : list.updatedAt = single.updatedAt := by rw [h.shared]
  have hhead : list.head.sha = single.head.sha := by rw [h.shared]
  have hbase : list.base.sha = single.base.sha := by rw [h.shared]
  cases hfind : pulls.find (fun _ row =>
      row.repositoryConnectionId = rid && row.prNumber = single.number) with
  | none =>
      rw [upsert_new hfind, upsert_new (hnumber.symm ▸ hfind), hid, rowOf_list h]
      cases githubIdTaken pulls pid rid single.id with
      | true => exact .refused _
      | false =>
          unfold insertRow
          by_cases hget : (pulls.get pid).isSome
          · simp only [hget]
            exact .refused _
          · simp only [hget]
            exact .stored _
  | some entry =>
      obtain ⟨id, row⟩ := entry
      obtain ⟨hget, hsame⟩ := Table.find_spec hfind
      simp only [Bool.and_eq_true, decide_eq_true_eq] at hsame
      rw [upsert_old hfind, upsert_old (hnumber.symm ▸ hfind), hid, htime, hhead, hbase,
        rowOf_list h]
      by_cases hstale : single.updatedAt < row.githubUpdatedAt
      · rw [if_pos hstale, if_pos hstale]
        exact .newer hget hsame hstale
      rw [if_neg hstale, if_neg hstale]
      by_cases hconflict : row.githubUpdatedAt = single.updatedAt ∧
          (row.headSha ≠ single.head.sha ∨ row.baseSha ≠ single.base.sha)
      · rw [if_pos hconflict, if_pos hconflict]
        exact .refused _
      rw [if_neg hconflict, if_neg hconflict]
      cases githubIdTaken pulls id rid single.id with
      | true => exact .refused _
      | false => exact .stored _

/-- Of two views of one state the one that is stored last is what remains: the orders agree on
everything but what only the single view knows, and that a list view does not keep. -/
theorem last_view_remains {list single : RemotePR} (h : Views list single)
    (pulls : Table UUID PullRequest) (now now' : Instant) (wid rid : UUID) (generation : ℕ)
    (pid pid' : UUID) :
    LastStored pulls (rowOf now' wid rid generation single)
      (storeBoth pulls now now' wid rid generation list single pid pid')
      (storeBoth pulls now now' wid rid generation single list pid pid') := by
  have hnumber : list.number = single.number := by rw [h.shared]
  have hid : list.id = single.id := by rw [h.shared]
  have htime : list.updatedAt = single.updatedAt := by rw [h.shared]
  have hhead : list.head.sha = single.head.sha := by rw [h.shared]
  have hbase : list.base.sha = single.base.sha := by rw [h.shared]
  rw [storeBoth_eq hid hnumber htime hhead hbase,
    storeBoth_eq hid.symm hnumber.symm htime.symm hhead.symm hbase.symm]
  exact upsert_cases_views h

/-! ## An open pull request -/

def openPull : RemotePR where
  id := 7
  number := 1
  title := "t"
  user := none
  state := .opened
  draft := false
  base := ⟨some "main", some (String.ofList (List.replicate 40 'a'))⟩
  head := ⟨some "topic", some (String.ofList (List.replicate 40 'b'))⟩
  createdAt := 1
  updatedAt := 2
  closedAt := none
  mergedAt := none
  merged := some false
  changedFiles := some 3
  commits := some 1

def listedPull : RemotePR :=
  { openPull with merged := none, changedFiles := none, commits := none }

theorem last_view_remains_open :
    LastStored ∅ (rowOf 4 1 1 1 openPull) (storeBoth ∅ 3 4 1 1 1 listedPull openPull 5 6)
      (storeBoth ∅ 3 4 1 1 1 openPull listedPull 5 6) :=
  last_view_remains ⟨rfl⟩ ∅ 3 4 1 1 1 5 6

/-- A list view that comes last erases what the single view supplied. -/
theorem list_view_erases : Views listedPull openPull ∧ ∃ pulls pulls' row row',
    storeBoth ∅ 3 4 1 1 1 listedPull openPull 5 6 = .ok pulls ∧
    storeBoth ∅ 3 4 1 1 1 openPull listedPull 5 6 = .ok pulls' ∧
    pulls.get 5 = some row ∧ pulls'.get 5 = some row' ∧
    row.mergeStatus = .notMerged ∧ row'.mergeStatus = .unknown ∧
    row.changedFilesCount = some 3 ∧ row'.changedFilesCount = none := by
  refine ⟨⟨rfl⟩, _, _, rowOf 4 1 1 1 openPull, rowOf 4 1 1 1 listedPull, rfl, rfl, ?_, ?_, rfl, rfl,
    rfl, rfl⟩
  · decide +kernel
  · decide +kernel

end Prism.Sync
