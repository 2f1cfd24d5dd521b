import Prism.Verification.Jobs.Equations

/-! The record invariant of a job row and the operations that keep it. -/

namespace Prism.Jobs

/-! ## Editing the last entry -/

theorem length_modifyLast {α : Type} (f : α → α) (l : List α) :
    (l.modifyLast f).length = l.length := by
  rcases List.eq_nil_or_concat l with rfl | ⟨init, a, rfl⟩
  · rfl
  · simp [List.concat_eq_append, List.modifyLast_concat]

theorem getElem?_modifyLast {α : Type} (f : α → α) (l : List α) (i : ℕ) :
    (l.modifyLast f)[i]? = if i + 1 = l.length then l[i]?.map f else l[i]? := by
  rcases List.eq_nil_or_concat l with rfl | ⟨init, a, rfl⟩
  · simp [List.modifyLast, List.modifyLast.go]
  · simp only [List.concat_eq_append, List.modifyLast_concat, List.length_append,
      List.length_singleton, Nat.add_right_cancel_iff]
    by_cases h : i = init.length
    · subst i
      simp
    · rw [if_neg h]
      rcases Nat.lt_or_gt_of_ne h with hlt | hgt
      · rw [List.getElem?_append_left hlt, List.getElem?_append_left hlt]
      · rw [List.getElem?_eq_none (by simp; omega), List.getElem?_eq_none (by simp; omega)]

theorem modifyLast_modifyLast {α : Type} (f g : α → α) (l : List α) :
    (l.modifyLast f).modifyLast g = l.modifyLast (g ∘ f) := by
  apply List.ext_getElem?
  intro i
  simp only [getElem?_modifyLast, length_modifyLast]
  split <;> simp

/-! ## The invariant -/

/-- The `CHECK` constraints of a job row and the invariant of its history. -/
structure WellFormed (j : Job) : Prop where
  max_pos : 0 < j.maxAttempts
  attempts_le : j.attempts ≤ j.maxAttempts
  attempts_lt : j.state = .ready → j.attempts < j.maxAttempts
  attempts_pos : j.state = .leased → 0 < j.attempts
  lease_until : j.state = .leased ↔ j.leaseUntil.isSome = true
  claimed_by : j.state = .leased ↔ j.claimedBy.isSome = true
  completed_at : j.state.completed = j.completedAt.isSome
  workspace : j.workspaceId.isSome = true ∨ j.kind = .processWebhook
  generation_eq : j.leaseGeneration = j.attempts
  length_eq : j.attemptHistory.length = j.attempts
  numbered : ∀ i a, j.attemptHistory[i]? = some a → a.attempt = i + 1 ∧ a.generation = i + 1
  open_iff : ∀ i a, j.attemptHistory[i]? = some a →
    (a.finishedAt = none ↔ j.state = .leased ∧ i + 1 = j.attemptHistory.length)

theorem WellFormed.history_ne_nil {j : Job} (h : WellFormed j) (hs : j.state = .leased) :
    j.attemptHistory ≠ [] := by
  have hpos := h.attempts_pos hs
  have hlen := h.length_eq
  intro hnil
  simp only [hnil, List.length_nil] at hlen
  omega

theorem WellFormed.ckJobAttempts {j : Job} (h : WellFormed j) : j.ckJobAttempts :=
  ⟨Nat.zero_le _, h.attempts_le, h.max_pos, Nat.zero_le _⟩

theorem WellFormed.ckJobLease {j : Job} (h : WellFormed j) : j.ckJobLease := by
  have huntil := h.lease_until
  have hclaimed := h.claimed_by
  by_cases hs : j.state = .leased
  · exact .inl ⟨hs, Option.isSome_iff_ne_none.mp (huntil.mp hs),
      Option.isSome_iff_ne_none.mp (hclaimed.mp hs)⟩
  · simp only [hs, false_iff, Bool.not_eq_true, Option.isSome_eq_false_iff,
      Option.isNone_iff_eq_none] at huntil hclaimed
    exact .inr ⟨hs, huntil, hclaimed⟩

theorem WellFormed.ckJobCompleted {j : Job} (h : WellFormed j) : j.ckJobCompleted := by
  unfold Job.ckJobCompleted
  rw [h.completed_at, Option.isSome_iff_ne_none]

/-- Exactly the last entry is open while the job is leased, and none otherwise. -/
theorem WellFormed.leased_iff_last_open {j : Job} (h : WellFormed j) :
    j.state = .leased ↔ ∃ a, j.attemptHistory.getLast? = some a ∧ a.finishedAt = none := by
  have hlast : ∀ a, j.attemptHistory.getLast? = some a →
      j.attemptHistory[j.attemptHistory.length - 1]? = some a := by
    intro a ha
    rwa [List.getLast?_eq_getElem?] at ha
  constructor
  · intro hs
    have hne := h.history_ne_nil hs
    obtain ⟨a, ha⟩ := Option.isSome_iff_exists.mp (List.getLast?_isSome.mpr hne)
    refine ⟨a, ha, (h.open_iff _ a (hlast a ha)).mpr ⟨hs, ?_⟩⟩
    have hpos := List.length_pos_of_ne_nil hne
    omega
  · rintro ⟨a, ha, hopen⟩
    exact ((h.open_iff _ a (hlast a ha)).mp hopen).1

theorem WellFormed.queued (now : Instant) (kind : Kind) (aggregate : UUID) (wid : Option UUID)
    (hw : wid.isSome = true ∨ kind = .processWebhook) :
    WellFormed (queued now kind aggregate wid) := by
  constructor <;> simp [Jobs.queued, JobState.completed, hw]

theorem WellFormed.leased {j : Job} (h : WellFormed j) (hs : j.state = .ready) (now : Instant)
    (worker : String) : WellFormed (leased now worker j) := by
  have hlt := h.attempts_lt hs
  have hlen := h.length_eq
  have hgen := h.generation_eq
  refine
    { max_pos := h.max_pos
      attempts_le := Nat.succ_le_of_lt hlt
      attempts_lt := by simp [Jobs.leased]
      attempts_pos := by simp [Jobs.leased]
      lease_until := by simp [Jobs.leased]
      claimed_by := by simp [Jobs.leased]
      completed_at := ?_
      workspace := h.workspace
      generation_eq := by simp [Jobs.leased, hgen]
      length_eq := by simp [Jobs.leased, hlen]
      numbered := ?_
      open_iff := ?_ }
  · have hc := h.completed_at
    simp only [hs, JobState.completed] at hc
    simpa [Jobs.leased, JobState.completed] using hc
  · intro i a ha
    simp only [Jobs.leased] at ha
    rcases Nat.lt_or_ge i j.attemptHistory.length with hi | hi
    · rw [List.getElem?_append_left hi] at ha
      exact h.numbered i a ha
    · rw [List.getElem?_append_right hi, List.getElem?_singleton] at ha
      split at ha
      · obtain rfl := Option.some.inj ha
        simp only
        omega
      · contradiction
  · intro i a ha
    simp only [Jobs.leased] at ha
    simp only [Jobs.leased, List.length_append, List.length_singleton, true_and]
    rcases Nat.lt_or_ge i j.attemptHistory.length with hi | hi
    · rw [List.getElem?_append_left hi] at ha
      have hopen := h.open_iff i a ha
      simp only [hs, reduceCtorEq, false_and, iff_false] at hopen
      simp only [hopen, false_iff]
      omega
    · rw [List.getElem?_append_right hi, List.getElem?_singleton] at ha
      split at ha
      · obtain rfl := Option.some.inj ha
        simp only [true_iff]
        omega
      · contradiction

theorem WellFormed.renewed {j : Job} (h : WellFormed j) (hs : j.state = .leased)
    (leaseUntil : Instant) : WellFormed { j with leaseUntil := some leaseUntil } :=
  { max_pos := h.max_pos
    attempts_le := h.attempts_le
    attempts_lt := h.attempts_lt
    attempts_pos := h.attempts_pos
    lease_until := by simp [hs]
    claimed_by := h.claimed_by
    completed_at := h.completed_at
    workspace := h.workspace
    generation_eq := h.generation_eq
    length_eq := h.length_eq
    numbered := h.numbered
    open_iff := h.open_iff }

/-! ## Giving a job up -/

/-- A history edit that ends an attempt and keeps its numbers. -/
structure Closing (close : Attempt → Attempt) : Prop where
  attempt : ∀ a, (close a).attempt = a.attempt
  generation : ∀ a, (close a).generation = a.generation
  finished : ∀ a, (close a).finishedAt ≠ none

/-- What `finish`, the two cancellations and the webhook worker have in common:
the job is no longer leased, its current attempt is closed, and it is queued
again only when it was leased and has attempts left. -/
structure Settled (j j' : Job) : Prop where
  kind : j'.kind = j.kind
  aggregate : j'.aggregateId = j.aggregateId
  workspace : j'.workspaceId = j.workspaceId
  max_attempts : j'.maxAttempts = j.maxAttempts
  attempts : j'.attempts = j.attempts
  generation : j'.leaseGeneration = j.leaseGeneration
  state_ne : j'.state ≠ .leased
  lease_until : j'.leaseUntil = none
  claimed_by : j'.claimedBy = none
  completed_at : j'.state.completed = j'.completedAt.isSome
  retried : j'.state = .ready → j.state = .leased ∧ j.attempts < j.maxAttempts
  history : ∃ close, Closing close ∧ j'.attemptHistory = j.attemptHistory.modifyLast close ∨
    j.state = .ready ∧ j'.attemptHistory = j.attemptHistory

private theorem settled_history {j j' : Job} (h : WellFormed j) (hs : Settled j j') :
    j'.attemptHistory.length = j.attemptHistory.length ∧
      ∀ i a, j'.attemptHistory[i]? = some a →
        a.attempt = i + 1 ∧ a.generation = i + 1 ∧ a.finishedAt ≠ none := by
  obtain ⟨close, hclose⟩ := hs.history
  rcases hclose with ⟨hclose, heq⟩ | ⟨hready, heq⟩
  · refine ⟨by rw [heq, length_modifyLast], fun i a ha => ?_⟩
    rw [heq, getElem?_modifyLast] at ha
    split at ha
    · obtain ⟨b, hb, rfl⟩ := Option.map_eq_some_iff.mp ha
      have hnum := h.numbered i b hb
      exact ⟨(hclose.attempt b).trans hnum.1, (hclose.generation b).trans hnum.2,
        hclose.finished b⟩
    · rename_i hlast
      have hnum := h.numbered i a ha
      refine ⟨hnum.1, hnum.2, fun hnone => hlast ?_⟩
      exact ((h.open_iff i a ha).mp hnone).2
  · refine ⟨by rw [heq], fun i a ha => ?_⟩
    rw [heq] at ha
    have hnum := h.numbered i a ha
    refine ⟨hnum.1, hnum.2, fun hnone => ?_⟩
    have hleased := ((h.open_iff i a ha).mp hnone).1
    simp [hready] at hleased

theorem WellFormed.settled {j j' : Job} (h : WellFormed j) (hs : Settled j j') :
    WellFormed j' := by
  obtain ⟨hlen, hentries⟩ := settled_history h hs
  refine
    { max_pos := by rw [hs.max_attempts]; exact h.max_pos
      attempts_le := by rw [hs.attempts, hs.max_attempts]; exact h.attempts_le
      attempts_lt := fun hready => by
        rw [hs.attempts, hs.max_attempts]
        exact (hs.retried hready).2
      attempts_pos := fun hleased => absurd hleased hs.state_ne
      lease_until := by simp [hs.state_ne, hs.lease_until]
      claimed_by := by simp [hs.state_ne, hs.claimed_by]
      completed_at := hs.completed_at
      workspace := by rw [hs.workspace, hs.kind]; exact h.workspace
      generation_eq := by rw [hs.generation, hs.attempts]; exact h.generation_eq
      length_eq := by rw [hlen, hs.attempts]; exact h.length_eq
      numbered := fun i a ha => ⟨(hentries i a ha).1, (hentries i a ha).2.1⟩
      open_iff := fun i a ha => ?_ }
  simp [(hentries i a ha).2.2, hs.state_ne]

theorem closing_closeAttempt (now : Instant) (outcome : AttemptOutcome) (code : Option Code) :
    Closing (closeAttempt now outcome code) :=
  ⟨fun _ => rfl, fun _ => rfl, fun _ => by simp [closeAttempt]⟩

/-- `finish` settles a leased job. -/
theorem finish_settled {now : Instant} {j j' : Job} {code : Option Code} {retry : Bool}
    {delay : ℕ} (hs : j.state = .leased) (h : finish now j code retry delay = .ok j') :
    Settled j j' := by
  obtain ⟨-, hhistory, hstate, hcompleted, -, huntil, hclaimed, -, hkind, hagg, hwid, hatt, hmax,
    hgen⟩ := finish_eq_ok h
  refine
    { kind := hkind
      aggregate := hagg
      workspace := hwid
      max_attempts := hmax
      attempts := hatt
      generation := hgen
      state_ne := ?_
      lease_until := huntil
      claimed_by := hclaimed
      completed_at := ?_
      retried := fun hready => ⟨hs, ?_⟩
      history := ⟨_, .inl ⟨closing_closeAttempt .., hhistory⟩⟩ }
  · rw [hstate]
    split <;> [skip; split] <;> simp
  · rw [hstate, hcompleted]
    split
    · rfl
    · split <;> rfl
  · rw [hstate] at hready
    split at hready
    · rename_i hagain
      exact ((again_iff ..).mp hagain).2.2
    · split at hready <;> contradiction

/-- Overriding the state of a settled job with `CANCELED` needs a completion time. -/
theorem Settled.canceled {j j' : Job} (h : Settled j j') (hc : j'.completedAt.isSome = true) :
    Settled j { j' with state := .canceled } :=
  { kind := h.kind
    aggregate := h.aggregate
    workspace := h.workspace
    max_attempts := h.max_attempts
    attempts := h.attempts
    generation := h.generation
    state_ne := by simp
    lease_until := h.lease_until
    claimed_by := h.claimed_by
    completed_at := by simp [JobState.completed, hc]
    retried := by simp
    history := h.history }

end Prism.Jobs
