import Prism.Verification.Lifecycle.Refinement

/-! The board of every reachable state is sound, and along every execution it
only moves forward. -/

namespace Prism.Lifecycle

open Prism.Jobs

private theorem commit_moves (w : World) (body : Tx Db)
    (h : ∀ db', body = .ok db' → Moves (board w) (boardOf db' w.issued)) :
    Moves (board w) (board (w.commit body).2) := by
  unfold World.commit
  split
  · exact h _ rfl
  · exact .refl

private theorem reviewBegin_step (w : World) (st : Settings) (c : Claim) (tid : UUID)
    (hsound : Sound (board w)) (hc : c ∈ w.issued) (hkind : c.kind = .explainFindings) :
    Moves (board w) (board (w.reviewBegin st c tid).2) := by
  unfold World.reviewBegin
  split
  · exact .refl
  · rename_i db hbegin
    exact reviewBegin_moves hsound hc hkind hbegin
  · rename_i plan db hbegin
    split
    · exact .refl
    · exact reviewBegin_moves hsound hc hkind hbegin

private theorem reviewReserve_step (w : World) (tid : UUID) (incoming outgoing : ℤ) :
    Moves (board w) (board (w.reviewReserve tid incoming outgoing).2) := by
  unfold World.reviewReserve
  split
  · exact .refl
  · rename_i t ht
    split
    · exact .refl
    · split
      · exact .refl
      · rename_i db hreserve
        exact moves_of_eq (reserve_board hreserve)
      · rename_i db hreserve
        exact moves_of_eq (reserve_board hreserve)

/-- Every allowed step of the system is a sequence of moves of its board. -/
theorem step_moves (w : World) (a : Action) (hsound : Sound (board w))
    (ha : World.allowed a w) : Moves (board w) (board (World.step a w).2) := by
  cases a with
  | tick elapsed => exact .single (.tick (board w) elapsed)
  | setUser uid user => exact .refl
  | setMember wid uid member => exact .refl
  | addWorkspace wid =>
      refine commit_moves w _ fun db' h => ?_
      simp only [World.addWorkspace, Tx.bind_eq_ok] at h
      obtain ⟨workspaces, -, h⟩ := h
      obtain rfl := Except.ok.inj h
      exact .refl
  | setStandards rows => exact .refl
  | connect uid wid verified rid cid sid jid =>
      exact commit_moves w _ fun db' h => connectOne_moves h
  | disconnect uid wid rid => exact commit_moves w _ fun db' h => disconnect_moves h
  | sync uid wid rid page number sid jid =>
      refine commit_moves w _ fun db' h => ?_
      obtain ⟨⟨id, db₁⟩, hbody, rfl⟩ := (Tx.map_eq_ok ..).mp h
      exact sync_moves hbody
  | analysisStart st uid wid pid rerunOf aid jid =>
      refine commit_moves w _ fun db' h => ?_
      obtain ⟨⟨id, db₁⟩, hbody, rfl⟩ := (Tx.map_eq_ok ..).mp h
      exact analysisStart_moves hbody
  | analysisCancel uid wid aid =>
      exact commit_moves w _ fun db' h => analysisCancel_moves hsound h
  | reviewStart st uid wid aid consent rerun purpose waited rid jid =>
      refine commit_moves w _ fun db' h => ?_
      obtain ⟨⟨id, db₁⟩, hbody, rfl⟩ := (Tx.map_eq_ok ..).mp h
      exact reviewStart_moves hbody
  | reviewCancel uid wid rid =>
      exact commit_moves w _ fun db' h => reviewCancel_moves hsound h
  | receive event stale did jid =>
      simp only [World.step, World.answer]
      split
      · rename_i status db h
        exact receive_moves h
      · exact .refl
  | claim worker kinds locked => exact claim_moves w worker kinds locked
  | expired kinds rows => exact expired_moves w kinds rows
  | heartbeat c => exact heartbeat_moves w c
  | syncBegin c =>
      obtain ⟨hc, hkind⟩ := ha.1 c rfl
      refine commit_moves w _ fun db' h => ?_
      obtain ⟨⟨plan, db₁⟩, hbody, rfl⟩ := (Tx.map_eq_ok ..).mp h
      exact syncBegin_moves hsound hc (hkind _ rfl) hbody
  | syncComplete c ids o expired =>
      obtain ⟨hc, hkind⟩ := ha.1 c rfl
      exact commit_moves w _ fun db' h => syncComplete_moves hsound hc (hkind _ rfl) h
  | analysisBegin st c =>
      obtain ⟨hc, hkind⟩ := ha.1 c rfl
      refine commit_moves w _ fun db' h => ?_
      obtain ⟨⟨plan, db₁⟩, hbody, rfl⟩ := (Tx.map_eq_ok ..).mp h
      exact analysisBegin_moves hsound hc (hkind _ rfl) hbody
  | analysisCheckpoint c =>
      refine commit_moves w _ fun db' h => ?_
      obtain ⟨-, -, rfl⟩ := (Tx.map_eq_ok ..).mp h
      exact .refl
  | analysisComplete c fileIds findingIds result code retry expired delay =>
      obtain ⟨hc, hkind⟩ := ha.1 c rfl
      exact commit_moves w _ fun db' h => analysisComplete_moves hsound hc (hkind _ rfl) h
  | reviewBegin st c tid =>
      obtain ⟨hc, hkind⟩ := ha.1 c rfl
      exact reviewBegin_step w st c tid hsound hc (hkind _ rfl)
  | reviewReserve tid incoming outgoing => exact reviewReserve_step w tid incoming outgoing
  | reviewCall tid =>
      simp only [World.step, World.reviewCall]
      split <;> exact .refl
  | reviewStillAuthorized tid =>
      simp only [World.step, World.reviewStillAuthorized]
      split
      · split <;> exact .refl
      · exact .refl
  | reviewComplete c result code expired incoming outgoing =>
      obtain ⟨hc, hkind⟩ := ha.1 c rfl
      exact commit_moves w _ fun db' h => reviewComplete_moves hsound hc (hkind _ rfl) h
  | webhookExecute c expired sid jid =>
      obtain ⟨hc, hkind⟩ := ha.1 c rfl
      exact commit_moves w _ fun db' h => webhook_moves hsound hc (hkind _ rfl) h

theorem step_sound (w : World) (a : Action) (hsound : Sound (board w))
    (ha : World.allowed a w) : Sound (board (World.step a w).2) :=
  hsound.moves (step_moves w a hsound ha)

variable {now : Instant} {w w' : World} {trace later : World.Trace}

/-- Soundness is an invariant of the system. -/
theorem run_sound (h : World.Run now trace w) : Sound (board w) :=
  h.invariant (fun w => Sound (board w)) (sound_empty now) step_sound

/-- From a sound state every execution moves its board forward. -/
theorem exec_later (hsound : Sound (board w))
    (h : World.Path w later w') : Later (board w) (board w') :=
  h.relates (fun w => Sound (board w)) (fun w w' => Later (board w) (board w'))
    (fun w => .refl (board w)) (fun _ _ _ => .trans) hsound step_sound
    fun w a hs ha => hs.later_moves (step_moves w a hs ha)

/-- A claim that passes a fence is the newest one of its job, and the only one of
its generation. -/
theorem fence_newest (hsound : Sound (board w)) {c c' : Claim} {expired : Bool} {job : Job}
    (hc : c ∈ w.issued) (hc' : c' ∈ w.issued) (hid : c'.id = c.id)
    (hfence : fence w.db.jobs w.db.now c expired = some job) :
    c'.generation ≤ c.generation ∧ (c'.generation = c.generation → c' = c) := by
  obtain ⟨hget, -, hgen, -⟩ := fence_eq_some.mp hfence
  obtain ⟨job', hget', hgranted⟩ := hsound.granted c' hc'
  rw [hid] at hget'
  obtain rfl := Option.some.inj (hget.symm.trans hget')
  exact ⟨hgen ▸ hgranted.generation_le, hsound.agree c' hc' c hc hid⟩

/-! ## An execution -/

def verified : VerifiedRepository := ⟨7, 9, "acme", "shop", true, some "main"⟩

/-- An owner connects a repository, whose first synchronization is queued. -/
def connecting : List Action :=
  [.addWorkspace 1, .setUser 2 ⟨20, .active, .senior⟩, .setMember 1 2 ⟨.owner, .active⟩,
    .connect 2 1 verified 3 4 5 6]

def syncClaim (generation : ℕ) (worker : String) : Claim :=
  ⟨6, 5, some 1, .syncPullRequests, generation, worker⟩

/-- A worker leases the synchronization and begins it. -/
def syncing : List Action :=
  connecting ++ [.claim "first" [.syncPullRequests] [], .syncBegin (syncClaim 1 "first")]

/-- The worker crashes, its lease is recovered, and another worker takes over. -/
def recovering : List Action :=
  syncing ++ [.tick (seconds 60), .expired [.syncPullRequests] [6],
    .syncComplete (syncClaim 1 "first") id ⟨[], some .leaseExpired, true, 5, none, false⟩ true,
    .tick (seconds 5), .claim "second" [.syncPullRequests] []]

def reach (actions : List Action) : World :=
  Transition.run World.step (World.initial 0) actions

/-! ## Coupling -/

/-- In every reachable state a unit of work is open exactly while its one job is
queued or leased, and it runs only while the job is leased; and whatever
continues, neither a terminal status nor a completed job changes. -/
theorem work_follows_job (h : World.Run now trace w) :
    (∀ kind id st, statusIn w.db kind id = some st →
      ∃ jid job, w.db.jobs.get jid = some job ∧ job.kind = kind ∧ job.aggregateId = id ∧
        (∀ jid' job', w.db.jobs.get jid' = some job' → job'.kind = kind →
          job'.aggregateId = id → jid' = jid) ∧
        (st.terminal = false ↔ job.state = .ready ∨ job.state = .leased) ∧
        (st = .running → job.state = .leased)) ∧
    (∀ jid job, w.db.jobs.get jid = some job →
      (statusIn w.db job.kind job.aggregateId).isSome = true) ∧
    ∀ later w', World.Path w later w' →
      (∀ kind id st, statusIn w.db kind id = some st → st.terminal = true →
        statusIn w'.db kind id = some st) ∧
      ∀ jid job, w.db.jobs.get jid = some job → job.state.completed = true →
        ∃ job', w'.db.jobs.get jid = some job' ∧ job'.state = job.state := by
  have hsound := run_sound h
  refine ⟨?_, ?_, ?_⟩
  · intro kind id st hst
    obtain ⟨jid, job, hjob, rfl, rfl⟩ := hsound.owned kind id st hst
    have hfollows := hsound.follows hjob hst
    refine ⟨jid, job, hjob, rfl, rfl, ?_, ?_, hfollows.running⟩
    · intro jid' job' hjob' hkind hagg
      exact hsound.unique jid' jid job' job hjob' hjob hkind hagg
    · rw [hfollows.terminal]
      cases job.state <;> simp [JobState.completed]
  · intro jid job hjob
    obtain ⟨st, hst, -⟩ := hsound.coupled jid job hjob
    exact Option.isSome_iff_exists.mpr ⟨st, hst⟩
  · intro later w' hexec
    have hlater := exec_later hsound hexec
    constructor
    · intro kind id st hst hterm
      obtain ⟨st', hst', heq⟩ := hlater.status kind id st hst
      obtain rfl := heq hterm
      exact hst'
    · intro jid job hjob hdone
      obtain ⟨job', hjob', hjl⟩ := hlater.jobs jid job hjob
      exact ⟨job', hjob', hjl.completed hdone⟩

theorem work_follows_job_syncing :
    statusIn (reach syncing).db .syncPullRequests 5 = some .running ∧
      ∃ jid job, (reach syncing).db.jobs.get jid = some job ∧ job.state = .leased := by
  have hrunning : statusIn (reach syncing).db .syncPullRequests 5 = some .running := by decide
  obtain ⟨jid, job, hjob, -, -, -, -, hleased⟩ :=
    (work_follows_job (Transition.exec_run _ syncing (by decide))).1 _ _ _ hrunning
  exact ⟨hrunning, jid, job, hjob, hleased rfl⟩

/-! ## Fencing -/

/-- In every reachable state every job row passes its checks and keeps a history
of its leases; only the newest claim of a job passes a fence, never both fences;
and an expired lease is never extended. -/
theorem leases_fenced (h : World.Run now trace w) :
    (∀ jid job, w.db.jobs.get jid = some job →
      job.ckJobAttempts ∧ job.ckJobLease ∧ job.ckJobCompleted ∧
      job.attempts = job.leaseGeneration ∧ job.leaseGeneration = job.attemptHistory.length ∧
      (∀ i a, job.attemptHistory[i]? = some a → a.attempt = i + 1 ∧ a.generation = i + 1) ∧
      (∀ i a, job.attemptHistory[i]? = some a → i + 1 < job.attemptHistory.length →
        a.finishedAt ≠ none) ∧
      (job.state = .leased ↔ ∃ a, job.attemptHistory.getLast? = some a ∧ a.finishedAt = none)) ∧
    (∀ c ∈ w.issued, ∀ expired, (fence w.db.jobs w.db.now c expired).isSome = true →
      ∀ c' ∈ w.issued, c'.id = c.id →
        c'.generation ≤ c.generation ∧ (c'.generation = c.generation → c' = c)) ∧
    (∀ c job u, w.db.jobs.get c.id = some job → job.leaseUntil = some u → u ≤ w.db.now →
      heartbeat w.db.jobs w.db.now c = (false, w.db.jobs)) ∧
    (∀ later w', World.Path w later w' →
      ∀ jid job job' u, w.db.jobs.get jid = some job → job.leaseUntil = some u →
        u ≤ w.db.now → w'.db.jobs.get jid = some job' →
        job'.leaseGeneration = job.leaseGeneration → job'.state = .leased →
        job'.leaseUntil = some u) ∧
    (∀ c, ¬((fence w.db.jobs w.db.now c false).isSome = true ∧
      (fence w.db.jobs w.db.now c true).isSome = true)) ∧
    ∀ c expired job, fence w.db.jobs w.db.now c expired = some job →
      job.attemptHistory ≠ [] ∧
        ∀ code retry delay, ∃ job', finish w.db.now job code retry delay = .ok job' := by
  have hsound := run_sound h
  refine ⟨?_, ?_, ?_, ?_, ?_, ?_⟩
  · intro jid job hjob
    have hwf := hsound.wellFormed jid job hjob
    refine ⟨hwf.ckJobAttempts, hwf.ckJobLease, hwf.ckJobCompleted, hwf.generation_eq.symm,
      hwf.generation_eq.trans hwf.length_eq.symm, hwf.numbered, ?_, hwf.leased_iff_last_open⟩
    intro i a ha hlt hopen
    have hlast := ((hwf.open_iff i a ha).mp hopen).2
    omega
  · intro c hc expired hfence c' hc' hid
    obtain ⟨job, hjob⟩ := Option.isSome_iff_exists.mp hfence
    exact fence_newest hsound hc hc' hid hjob
  · intro c job u hjob hu hle
    exact heartbeat_expired hjob hu hle
  · intro later w' hexec jid job job' u hjob hu hle hjob' hgen hs'
    obtain ⟨k, hk, hjl⟩ := (exec_later hsound hexec).jobs jid job hjob
    obtain rfl := Option.some.inj (hk.symm.trans hjob')
    have hs : job.state = .leased :=
      (hsound.wellFormed jid job hjob).lease_until.mpr (by simp [hu])
    exact hjl.expired u hu hle hs hgen hs'
  · rintro c ⟨hlive, hrecovery⟩
    obtain ⟨j, hj⟩ := Option.isSome_iff_exists.mp hlive
    obtain ⟨j', hj'⟩ := Option.isSome_iff_exists.mp hrecovery
    exact fence_exclusive hj hj'
  · intro c expired job hfence
    obtain ⟨hget, hs, -⟩ := fence_eq_some.mp hfence
    have hne := (hsound.wellFormed c.id job hget).history_ne_nil hs
    exact ⟨hne, finish_ok hne w.db.now⟩

theorem leases_fenced_recovering :
    (fence (reach recovering).db.jobs (reach recovering).db.now (syncClaim 2 "second")
      false).isSome = true ∧ (syncClaim 1 "first").generation ≤ 2 := by
  have hlive : (fence (reach recovering).db.jobs (reach recovering).db.now
      (syncClaim 2 "second") false).isSome = true := by decide
  have hnewest := (leases_fenced (Transition.exec_run _ recovering (by decide))).2.1
    (syncClaim 2 "second") (by decide) false hlive (syncClaim 1 "first") (by decide) rfl
  exact ⟨hlive, hnewest.1⟩

end Prism.Lifecycle
