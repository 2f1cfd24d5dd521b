import Prism.Model.Jobs

/-! What each queue operation does when it does something. Callers cite these
and never unfold the operations. -/

namespace Prism.Jobs

theorem enqueue_eq_ok {jobs jobs' : Table UUID Job} {now : Instant} {jid : UUID} {kind : Kind}
    {aggregate : UUID} {wid : Option UUID} :
    enqueue jobs now jid kind aggregate wid = .ok jobs' ↔
      jobs.get jid = none ∧
      (∀ id j, jobs.get id = some j → j.kind = kind → j.aggregateId ≠ aggregate) ∧
      jobs' = jobs.put jid (queued now kind aggregate wid) := by
  unfold enqueue
  split
  · rename_i h
    rcases Bool.or_eq_true _ _ ▸ h with h | h
    · simp [Option.isSome_iff_ne_none.mp h]
    · obtain ⟨id, j, hj, hp⟩ := (Table.holds_iff ..).mp h
      simp only [Bool.and_eq_true, decide_eq_true_eq] at hp
      simp only [reduceCtorEq, ne_eq, false_iff, not_and]
      intro _ hall
      exact absurd hp.2 (hall id j hj hp.1)
  · rename_i h
    simp only [Bool.or_eq_true, not_or, Bool.not_eq_true, Option.isSome_eq_false_iff,
      Option.isNone_iff_eq_none] at h
    have hall := (Table.holds_eq_false_iff ..).mp h.2
    simp only [Except.ok.injEq]
    constructor
    · rintro rfl
      refine ⟨h.1, fun id j hj hk ha => ?_, rfl⟩
      simpa [hk, ha] using hall id j hj
    · rintro ⟨-, -, rfl⟩
      rfl

/-- A claim leases one of the available rows. -/
theorem claim_eq_some {jobs jobs' : Table UUID Job} {now : Instant} {worker : String}
    {kinds : List Kind} {locked : List UUID} {c : Claim}
    (h : claim jobs now worker kinds locked = some (c, jobs')) :
    ∃ id j, jobs.get id = some j ∧ j.state = .ready ∧ j.availableAt ≤ now ∧ j.kind ∈ kinds ∧
      c = (leased now worker j).claim id ∧ jobs' = jobs.put id (leased now worker j) := by
  simp only [claim] at h
  split at h
  · contradiction
  · rename_i id j hmin
    obtain ⟨rfl, rfl⟩ := Prod.mk.inj (Option.some.inj h)
    have hmem := List.argmin_mem (Option.mem_def.mpr hmin)
    obtain ⟨hget, hp⟩ := (Table.mem_select_iff ..).mp hmem
    simp only [Bool.and_eq_true, decide_eq_true_eq] at hp
    exact ⟨id, j, hget, hp.1.1.1, hp.1.1.2, hp.1.2, rfl, rfl⟩

theorem fence_eq_some {jobs : Table UUID Job} {now : Instant} {c : Claim} {expired : Bool}
    {j : Job} :
    fence jobs now c expired = some j ↔
      jobs.get c.id = some j ∧ j.state = .leased ∧ j.leaseGeneration = c.generation ∧
      j.claimedBy = some c.worker ∧
      ∃ leaseUntil, j.leaseUntil = some leaseUntil ∧ decide (leaseUntil ≤ now) = expired := by
  constructor
  · intro h
    unfold fence at h
    split at h
    · contradiction
    · rename_i j' hget
      split at h
      · contradiction
      · rename_i u hu
        split at h
        · contradiction
        · rename_i hlive
          simp only [ne_eq, not_or, not_not] at hlive
          split at h
          · contradiction
          · rename_i htime
            obtain rfl := Option.some.inj h
            exact ⟨hget, hlive.1, hlive.2.1, hlive.2.2, u, hu, not_not.mp htime⟩
  · rintro ⟨hget, hs, hg, hw, u, hu, htime⟩
    simp [fence, hget, hu, hs, hg, hw, htime]

theorem mem_expired {jobs : Table UUID Job} {now : Instant} {kinds : List Kind}
    {rows : List UUID} {c : Claim} (h : c ∈ expired jobs now kinds rows) :
    ∃ id j leaseUntil, jobs.get id = some j ∧ j.state = .leased ∧
      j.leaseUntil = some leaseUntil ∧ leaseUntil ≤ now ∧ j.kind ∈ kinds ∧ c = j.claim id := by
  obtain ⟨id, -, hid⟩ := List.mem_filterMap.mp h
  split at hid
  · contradiction
  · rename_i j hget
    split at hid
    · contradiction
    · rename_i u hu
      split at hid
      · rename_i hp
        exact ⟨id, j, u, hget, hp.1, hu, hp.2.1, hp.2.2, (Option.some.inj hid).symm⟩
      · contradiction

/-- A heartbeat that does something extends a live lease. -/
theorem heartbeat_cases (jobs : Table UUID Job) (now : Instant) (c : Claim) :
    heartbeat jobs now c = (false, jobs) ∨
      ∃ j, fence jobs now c false = some j ∧
        heartbeat jobs now c =
          (true, jobs.put c.id { j with leaseUntil := some (now + seconds 60) }) := by
  unfold heartbeat
  cases h : fence jobs now c false with
  | none => exact .inl rfl
  | some j => exact .inr ⟨j, rfl, rfl⟩

/-- The live fence and the recovery fence exclude each other. -/
theorem fence_exclusive {jobs : Table UUID Job} {now : Instant} {c : Claim} {j j' : Job}
    (hlive : fence jobs now c false = some j) (hrecovery : fence jobs now c true = some j') :
    False := by
  obtain ⟨hget, -, -, -, u, hu, hlt⟩ := fence_eq_some.mp hlive
  obtain ⟨hget', -, -, -, u', hu', hle⟩ := fence_eq_some.mp hrecovery
  obtain rfl := Option.some.inj (hget.symm.trans hget')
  obtain rfl := Option.some.inj (hu.symm.trans hu')
  simp [hlt] at hle

/-- A heartbeat does nothing once the lease has expired. -/
theorem heartbeat_expired {jobs : Table UUID Job} {now : Instant} {c : Claim} {j : Job}
    {u : Instant} (hget : jobs.get c.id = some j) (hu : j.leaseUntil = some u) (hle : u ≤ now) :
    heartbeat jobs now c = (false, jobs) := by
  rcases heartbeat_cases jobs now c with h | ⟨j', hfence, -⟩
  · exact h
  · obtain ⟨hget', -, -, -, u', hu', hlive⟩ := fence_eq_some.mp hfence
    obtain rfl := Option.some.inj (hget.symm.trans hget')
    obtain rfl := Option.some.inj (hu.symm.trans hu')
    exact absurd hle (of_decide_eq_false hlive)

/-- How `finish` closes the last history entry. -/
def closeAttempt (now : Instant) (outcome : AttemptOutcome) (code : Option Code) (a : Attempt) :
    Attempt :=
  { a with finishedAt := some now, outcome := some outcome, errorCode := code }

theorem finish_eq_ok {now : Instant} {j j' : Job} {code : Option Code} {retry : Bool}
    {delay : ℕ} (h : finish now j code retry delay = .ok j') :
    j.attemptHistory ≠ [] ∧
      j'.attemptHistory = j.attemptHistory.modifyLast (closeAttempt now
        (if again j code retry then .retry else if code.isSome then .failed else .succeeded)
        code) ∧
      j'.state = (if again j code retry then .ready else if code.isSome then .dead
        else .succeeded) ∧
      j'.completedAt = (if again j code retry then none else some now) ∧
      j'.availableAt = (if again j code retry
        then now + seconds (max delay (if j.attempts = 1 then 5 else 30)) else j.availableAt) ∧
      j'.leaseUntil = none ∧ j'.claimedBy = none ∧ j'.errorCode = code ∧
      j'.kind = j.kind ∧ j'.aggregateId = j.aggregateId ∧ j'.workspaceId = j.workspaceId ∧
      j'.attempts = j.attempts ∧ j'.maxAttempts = j.maxAttempts ∧
      j'.leaseGeneration = j.leaseGeneration := by
  unfold finish at h
  split at h
  · contradiction
  · rename_i hne
    obtain rfl := Except.ok.inj h
    exact ⟨hne, rfl, rfl, rfl, rfl, rfl, rfl, rfl, rfl, rfl, rfl, rfl, rfl, rfl⟩

/-- A job is queued again only by a retried failure with attempts left. -/
theorem again_iff (j : Job) (code : Option Code) (retry : Bool) :
    again j code retry = true ↔
      code.isSome = true ∧ retry = true ∧ j.attempts < j.maxAttempts := by
  simp [again, and_assoc]

theorem finish_ok {j : Job} (h : j.attemptHistory ≠ []) (now : Instant) (code : Option Code)
    (retry : Bool) (delay : ℕ) : ∃ j', finish now j code retry delay = .ok j' := by
  simp [finish, h]

end Prism.Jobs
