import Prism.Model.Metering
import Prism.Verification.Review.Trace

/-! The account a review keeps of its provider calls. -/

namespace Prism.Meter

open ReviewWorker

/-! ## Accounts of one run -/

def inputs (reported : List (ℤ × ℤ)) : ℤ := (reported.map Prod.fst).sum

def outputs (reported : List (ℤ × ℤ)) : ℤ := (reported.map Prod.snd).sum

/-- The account of a run is honest about what its calls reported. -/
structure Honest (row : ReviewRun) (reported : List (ℤ × ℤ)) : Prop where
  input : 0 ≤ row.inputTokens ∧ row.inputTokens ≤ inputs reported
  output : 0 ≤ row.outputTokens ∧ row.outputTokens ≤ outputs reported
  completed : row.status = .completed → row.callAttempts = 2 ∧ reported.length = 2 ∧
    row.inputTokens = inputs reported ∧ row.outputTokens = outputs reported ∧
    row.usageUncertain = false
  stopped : row.status = .failed ∨ row.status = .canceled → 0 < row.callAttempts →
    row.usageUncertain = true

/-- The token counts of a run only grow. -/
structure Grown (row run : ReviewRun) : Prop where
  input : row.inputTokens ≤ run.inputTokens
  output : row.outputTokens ≤ run.outputTokens

theorem Grown.refl (row : ReviewRun) : Grown row row := ⟨le_rfl, le_rfl⟩

theorem Grown.trans (row run run' : ReviewRun) (h : Grown row run) (h' : Grown run run') :
    Grown row run' :=
  ⟨h.input.trans h'.input, h.output.trans h'.output⟩

variable {row run : ReviewRun} {reported : List (ℤ × ℤ)} {incoming outgoing : ℤ}

theorem grown_metered (incoming outgoing : ℤ) : Grown row (metered row incoming outgoing) :=
  ⟨(le_max_left ..).trans (le_max_left ..), (le_max_left ..).trans (le_max_left ..)⟩

theorem Honest.metered (h : Honest row reported) (hin : incoming ≤ inputs reported)
    (hout : outgoing ≤ outputs reported) :
    Honest (metered row incoming outgoing) reported where
  input := ⟨le_max_right .., max_le (max_le h.input.2 hin) (h.input.1.trans h.input.2)⟩
  output := ⟨le_max_right .., max_le (max_le h.output.2 hout) (h.output.1.trans h.output.2)⟩
  completed := by
    intro hs
    obtain ⟨hattempts, hlength, hi, ho, hsure⟩ := h.completed hs
    refine ⟨hattempts, hlength, ?_, ?_, hsure⟩
    · change max (max row.inputTokens incoming) 0 = inputs reported
      have := h.input.1
      omega
    · change max (max row.outputTokens outgoing) 0 = outputs reported
      have := h.output.1
      omega
  stopped := h.stopped

/-- The counters an action hands to a transaction. -/
def counters : Action → ℤ × ℤ
  | .reviewReserve _ incoming outgoing => (incoming, outgoing)
  | .reviewComplete _ _ _ _ incoming outgoing => (incoming, outgoing)
  | _ => (0, 0)

/-- What has to hold of a run that is completed without a code. -/
def Answered (a : Action) (row : ReviewRun) (reported : List (ℤ × ℤ)) : Prop :=
  ∀ c result expired incoming outgoing, a = .reviewComplete c result none expired incoming outgoing →
    row.callAttempts = 2 ∧ reported.length = 2 ∧ incoming = inputs reported ∧
      outgoing = outputs reported

theorem written_grown {w : World} {a : Action} {o : Outcome} {rid : UUID}
    (h : Written w a o rid (some row) run) : Grown row run := by
  cases h with
  | canceled => exact ⟨le_rfl, le_rfl⟩
  | began => exact ⟨le_rfl, le_rfl⟩
  | refused => exact grown_metered ..
  | @reserved tid incoming outgoing =>
      have hgrown : Grown row (metered row incoming outgoing) := grown_metered ..
      exact ⟨hgrown.input, hgrown.output⟩
  | recorded => exact grown_metered ..
  | @closed c result result' code code' expired incoming outgoing =>
      have hgrown : Grown row (metered row incoming outgoing) := grown_metered ..
      exact ⟨hgrown.input, hgrown.output⟩

/-- Every write keeps an honest account honest, given counters that do not exceed
what was reported. -/
theorem written_honest {w : World} {a : Action} {o : Outcome} {rid : UUID}
    (h : Honest row reported) (hw : Written w a o rid (some row) run)
    (hin : (counters a).1 ≤ inputs reported) (hout : (counters a).2 ≤ outputs reported)
    (hdone : Answered a row reported) : Honest run reported := by
  cases hw with
  | canceled hopen =>
      refine ⟨h.input, h.output, ?_, ?_⟩
      · intro hs
        contradiction
      · intro _ hpos
        simpa [Review.canceled] using hpos
  | began hopen hzero =>
      refine ⟨h.input, h.output, ?_, ?_⟩
      · intro hs
        contradiction
      · rintro (hs | hs) <;> contradiction
  | refused => exact h.metered hin hout
  | reserved ht hauth hattempts =>
      have hmetered := h.metered hin hout
      refine ⟨hmetered.input, hmetered.output, ?_, ?_⟩
      · intro hs
        exact absurd (hs.symm.trans hauth.running) (by simp)
      · intro _ _
        rfl
  | recorded => exact h.metered hin hout
  | closed hopen hverdict =>
      rename_i c result result' code code' expired i o
      have hmetered := h.metered hin hout
      cases code' with
      | some code' =>
          refine ⟨hmetered.input, hmetered.output, ?_, ?_⟩
          · intro hs
            contradiction
          · intro _ hpos
            simpa [closed, Nat.pos_iff_ne_zero] using hpos
      | none =>
          rcases hverdict with ⟨-, rfl, -⟩ | ⟨-, hcode⟩
          · obtain ⟨hattempts, hlength, rfl, rfl⟩ := hdone _ _ _ _ _ rfl
            refine ⟨hmetered.input, hmetered.output, ?_, ?_⟩
            · intro _
              refine ⟨hattempts, hlength, ?_, ?_, rfl⟩
              · exact le_antisymm hmetered.input.2 ((le_max_right ..).trans (le_max_left ..))
              · exact le_antisymm hmetered.output.2 ((le_max_right ..).trans (le_max_left ..))
            · rintro (hs | hs) <;> contradiction
          · contradiction

/-- A further report does not make an account of an open run dishonest. -/
theorem Honest.report (h : Honest row reported) (hopen : row.status ≠ .completed)
    (hin : 0 ≤ incoming) (hout : 0 ≤ outgoing) :
    Honest row ((incoming, outgoing) :: reported) where
  input := by
    have hle := h.input
    simp only [inputs, List.map_cons, List.sum_cons] at hle ⊢
    omega
  output := by
    have hle := h.output
    simp only [outputs, List.map_cons, List.sum_cons] at hle ⊢
    omega
  completed := fun hs => absurd hs hopen
  stopped := h.stopped

/-! ## Reports and counters -/

variable {m : Meter} {trace : Trace} {b : MeterAction} {tid rid : UUID} {u : Usage}

theorem reports_reported {rid' : UUID} :
    reports rid (⟨m, b, .reported rid' incoming outgoing⟩ :: trace) =
      if rid' = rid then (incoming, outgoing) :: reports rid trace else reports rid trace := by
  by_cases hid : rid' = rid <;> simp [reports, hid]

theorem stage_eq_waiting : u.stage = .waiting ↔ u.returned < u.started := by
  unfold Usage.stage
  split_ifs with hlt
  · exact iff_of_true rfl hlt
  · exact iff_of_false (by simp) hlt

/-- What is completed without a code has two answers. -/
theorem returned_of_completes (h : u.stage.completes none = true) : u.returned = 2 := by
  have hstage : u.stage = .running 2 := by simpa [CallStage.completes] using h
  unfold Usage.stage at hstage
  split_ifs at hstage
  exact CallStage.running.inj hstage

/-- The counters of an execution agree with its stage. -/
def StageFits : ReviewStage → Usage → Prop
  | .reading, u => u.reserved = 0
  | .reserved second, u => u.reserved = second.toNat + 1 ∧ u.started = second.toNat
  | .reviewed, u => u.reserved = 1 ∧ u.started = 1
  | .left, _ => True

/-- The counters of an execution are the sums of what its calls reported. -/
structure Summed (u : Usage) (reported : List (ℤ × ℤ)) : Prop where
  returned : u.returned = reported.length
  incoming : u.incoming = inputs reported
  outgoing : u.outgoing = outputs reported

/-! ## The invariant -/

/-- The executions that reserved a call hold their runs alone, their counters sum
up what was reported for the run, and the accounts of all runs are honest. -/
structure Accounts (trace : Trace) (m : Meter) : Prop where
  zero : ∀ tid, (m.usage tid).reserved = 0 → m.usage tid = .zero
  bounds : ∀ tid, (m.usage tid).returned ≤ (m.usage tid).started ∧
    (m.usage tid).started ≤ (m.usage tid).reserved ∧ (m.usage tid).reserved ≤ 2
  nonneg : ∀ rid, 0 ≤ inputs (reports rid trace) ∧ 0 ≤ outputs (reports rid trace)
  stage : ∀ tid t, m.world.reviewers.get tid = some t → StageFits t.stage (m.usage tid)
  holder : ∀ tid, 0 < (m.usage tid).reserved → ∃ t row,
    m.world.reviewers.get tid = some t ∧
    m.world.db.reviewRuns.get t.claim.aggregateId = some row ∧
    row.callAttempts = (m.usage tid).reserved ∧
    Summed (m.usage tid) (reports t.claim.aggregateId trace)
  single : ∀ tid tid' t t', m.world.reviewers.get tid = some t →
    m.world.reviewers.get tid' = some t' → 0 < (m.usage tid).reserved →
    0 < (m.usage tid').reserved → t.claim.aggregateId = t'.claim.aggregateId → tid = tid'
  unheld : ∀ rid, (∀ tid t, m.world.reviewers.get tid = some t → t.claim.aggregateId = rid →
    (m.usage tid).reserved = 0) → reports rid trace = []
  honest : ∀ rid row, m.world.db.reviewRuns.get rid = some row → Honest row (reports rid trace)

theorem accounts_initial (now : Instant) : Accounts [] (Meter.initial now) := by
  have hzero : ∀ tid, (Meter.initial now).usage tid = .zero := fun tid => by
    simp [usage, Meter.initial]
  constructor
  · exact fun tid _ => hzero tid
  · intro tid
    simp [hzero, Usage.zero]
  · intro rid
    simp [reports, inputs, outputs]
  · intro tid t ht
    simp [Meter.initial, World.initial] at ht
  · intro tid hpos
    simp [hzero, Usage.zero] at hpos
  · intro tid tid' t t' ht
    simp [Meter.initial, World.initial] at ht
  · intro rid _
    rfl
  · intro rid row hget
    simp [Meter.initial, World.initial, Db.empty] at hget

/-- The counters of an execution never exceed what was reported for its run. -/
theorem Accounts.counters_le (h : Accounts trace m) {t : Reviewer}
    (ht : m.world.reviewers.get tid = some t) :
    (m.usage tid).incoming ≤ inputs (reports t.claim.aggregateId trace) ∧
      (m.usage tid).outgoing ≤ outputs (reports t.claim.aggregateId trace) := by
  rcases Nat.eq_zero_or_pos (m.usage tid).reserved with hzero | hpos
  · rw [h.zero tid hzero]
    exact h.nonneg t.claim.aggregateId
  · obtain ⟨t', row, ht', -, -, hsummed⟩ := h.holder tid hpos
    obtain rfl := Option.some.inj (ht.symm.trans ht')
    exact ⟨hsummed.incoming.le, hsummed.outgoing.le⟩

/-! ## Steps -/

/-- Every execution stays, with its claim. -/
theorem moved_claim {w : World} {o : Outcome} {reviewers : Table UUID Reviewer}
    (h : Moved w o reviewers) {t : Reviewer} (ht : w.reviewers.get tid = some t) :
    ∃ t', reviewers.get tid = some t' ∧ t'.claim = t.claim := by
  have hput : ∀ tid₀ t₀ t₁, w.reviewers.get tid₀ = some t₀ → t₁.claim = t₀.claim →
      ∃ t', (w.reviewers.put tid₀ t₁).get tid = some t' ∧ t'.claim = t.claim := by
    intro tid₀ t₀ t₁ ht₀ hclaim
    by_cases hid : tid = tid₀
    · subst hid
      obtain rfl := Option.some.inj (ht.symm.trans ht₀)
      exact ⟨t₁, Table.get_put_self .., hclaim⟩
    · exact ⟨t, (Table.get_put_of_ne _ _ hid).trans ht, rfl⟩
  cases h with
  | same => exact ⟨t, ht, rfl⟩
  | began _ tid₀ c hquiet hnone =>
      have hid : tid ≠ tid₀ := by
        rintro rfl
        simp [ht] at hnone
      exact ⟨t, (Table.get_put_of_ne _ _ hid).trans ht, rfl⟩
  | left _ tid₀ t₀ hquiet ht₀ => exact hput tid₀ t₀ _ ht₀ rfl
  | reserved tid₀ t₀ second row ht₀ => exact hput tid₀ t₀ _ ht₀ rfl
  | called tid₀ c second stage ht₀ => exact hput tid₀ _ _ ht₀ rfl

/-- A quiet step leaves an execution at its stage, starts it or ends it. -/
theorem moved_stage {w : World} {o : Outcome} {reviewers : Table UUID Reviewer}
    (h : Moved w o reviewers) (hquiet : quiet o = true) {t : Reviewer}
    (ht : reviewers.get tid = some t) :
    w.reviewers.get tid = some t ∨ w.reviewers.get tid = none ∧ t.stage = .reading ∨
      t.stage = .left := by
  cases h with
  | same => exact .inl ht
  | began _ tid₀ c _ hnone =>
      rcases (Table.get_put_eq_some ..).mp ht with ⟨rfl, rfl⟩ | ⟨-, hget⟩
      · exact .inr (.inl ⟨hnone, rfl⟩)
      · exact .inl hget
  | left _ tid₀ t₀ =>
      rcases (Table.get_put_eq_some ..).mp ht with ⟨rfl, rfl⟩ | ⟨-, hget⟩
      · exact .inr (.inr rfl)
      · exact .inl hget
  | reserved => simp [quiet] at hquiet
  | called => simp [quiet] at hquiet

/-- Only a reservation changes the attempts of a run. -/
theorem written_attempts {w : World} {a : Action} {o : Outcome} (hquiet : quiet o = true)
    (h : Written w a o rid (some row) run) : run.callAttempts = row.callAttempts := by
  cases h with
  | reserved => simp [quiet] at hquiet
  | _ => rfl

/-- What the counters of an action of the plain system have to respect. -/
structure Respects (trace : Trace) (m : Meter) (a : Action) : Prop where
  counters : ∀ o rid row run, Written m.world a o rid (some row) run →
    (counters a).1 ≤ inputs (reports rid trace) ∧ (counters a).2 ≤ outputs (reports rid trace)
  answered : ∀ rid row, m.world.db.reviewRuns.get rid = some row →
    (∀ c result code expired incoming outgoing,
      a = .reviewComplete c result code expired incoming outgoing → c.aggregateId = rid) →
    Answered a row (reports rid trace)

/-- Every stored account is honest after an action whose counters respect the reports. -/
theorem Accounts.honest_step (h : Accounts trace m) {a : Action} (ha : Respects trace m a)
    (hget : (World.step a m.world).2.db.reviewRuns.get rid = some run) :
    Honest run (reports rid trace) := by
  rcases step_writes a m.world rid with hsame | ⟨run', hget', hwritten⟩
  · exact h.honest rid run (hsame ▸ hget)
  obtain rfl := Option.some.inj (hget.symm.trans hget')
  generalize (World.step a m.world).1 = o at hwritten
  cases hbefore : m.world.db.reviewRuns.get rid with
  | none =>
      rw [hbefore] at hwritten
      cases hwritten with
      | admitted hadmitted =>
          obtain ⟨snap, purpose, mode, versions, generation, key, rfl⟩ := hadmitted.new
          obtain ⟨hin, hout⟩ := h.nonneg rid
          refine ⟨⟨le_rfl, hin⟩, ⟨le_rfl, hout⟩, ?_, ?_⟩
          · intro hs
            contradiction
          · rintro (hs | hs) <;> contradiction
  | some row =>
      rw [hbefore] at hwritten
      obtain ⟨hin, hout⟩ := ha.counters o rid row run hwritten
      refine written_honest (h.honest rid row hbefore) hwritten hin hout ?_
      refine ha.answered rid row hbefore ?_
      rintro c result code expired incoming outgoing rfl
      cases hwritten <;> rfl

/-- An action without a reservation or a call keeps the invariant. -/
theorem Accounts.quiet_step (h : Accounts trace m) {a : Action} (ha : Respects trace m a)
    (hquiet : quiet (World.step a m.world).1 = true) :
    Accounts (⟨m, b, .ran (World.step a m.world).1⟩ :: trace) (m.run a).2 := by
  have hmoved := step_moved a m.world
  have hclaim : ∀ tid, 0 < (m.usage tid).reserved → ∀ t, (World.step a m.world).2.reviewers.get
      tid = some t → ∃ t₀, m.world.reviewers.get tid = some t₀ ∧ t.claim = t₀.claim := by
    intro tid hpos t ht
    obtain ⟨t₀, row, ht₀, -⟩ := h.holder tid hpos
    obtain ⟨t', ht', hc⟩ := moved_claim hmoved ht₀
    obtain rfl := Option.some.inj (ht.symm.trans ht')
    exact ⟨t₀, ht₀, hc⟩
  constructor
  · exact h.zero
  · exact h.bounds
  · exact h.nonneg
  · intro tid t ht
    rcases moved_stage hmoved hquiet ht with hold | ⟨hnone, hstage⟩ | hstage
    · exact h.stage tid t hold
    · rw [hstage]
      refine Nat.eq_zero_of_not_pos fun hpos => ?_
      obtain ⟨t₀, row, ht₀, -⟩ := h.holder tid hpos
      simp [ht₀] at hnone
    · rw [hstage]
      trivial
  · intro tid hpos
    obtain ⟨t, row, ht, hget, hattempts, hsummed⟩ := h.holder tid hpos
    obtain ⟨t', ht', hc⟩ := moved_claim hmoved ht
    rw [← hc] at hget hsummed
    rcases step_writes a m.world t'.claim.aggregateId with hsame | ⟨run, hrun, hwritten⟩
    · exact ⟨t', row, ht', hsame.trans hget, hattempts, hsummed⟩
    · rw [hget] at hwritten
      exact ⟨t', run, ht', hrun, (written_attempts hquiet hwritten).trans hattempts, hsummed⟩
  · intro tid tid' t t' ht ht' hpos hpos' hagg
    obtain ⟨t₀, ht₀, hc⟩ := hclaim tid hpos t ht
    obtain ⟨t₀', ht₀', hc'⟩ := hclaim tid' hpos' t' ht'
    rw [hc, hc'] at hagg
    exact h.single tid tid' t₀ t₀' ht₀ ht₀' hpos hpos' hagg
  · intro rid hall
    refine h.unheld rid fun tid t ht hagg => ?_
    obtain ⟨t', ht', hc⟩ := moved_claim hmoved ht
    exact hall tid t' ht' (hc ▸ hagg)
  · intro rid run hget
    exact h.honest_step ha hget

/-! ### Reservations -/

theorem reviewReserve_cases (tid : UUID) (incoming outgoing : ℤ) (w : World) :
    quiet (World.step (.reviewReserve tid incoming outgoing) w).1 = true ∨ ∃ t second,
      w.reviewers.get tid = some t ∧ World.reservation t.stage = some second ∧
      (World.step (.reviewReserve tid incoming outgoing) w).1 =
        .reserved tid t.claim.aggregateId second ∧
      (World.step (.reviewReserve tid incoming outgoing) w).2.reviewers =
        w.reviewers.put tid { t with stage := .reserved second } := by
  simp only [World.step, World.reviewReserve]
  split
  · exact .inl rfl
  · rename_i t ht
    split
    · exact .inl rfl
    · rename_i second hsecond
      split
      · exact .inl rfl
      · exact .inl rfl
      · exact .inr ⟨t, second, ht, hsecond, rfl, rfl⟩

/-- The counters of an execution that asks for a reservation. -/
theorem reservation_fits {t : Reviewer} {second : Bool} (hfits : StageFits t.stage u)
    (hstage : World.reservation t.stage = some second) (hbounds : u.started ≤ u.reserved) :
    u.reserved = second.toNat ∧ u.started = second.toNat := by
  cases hs : t.stage with
  | reading =>
      rw [hs] at hfits hstage
      obtain rfl := Option.some.inj hstage
      exact ⟨hfits, Nat.le_zero.mp (hbounds.trans hfits.le)⟩
  | reviewed =>
      rw [hs] at hfits hstage
      obtain rfl := Option.some.inj hstage
      exact hfits
  | reserved s => simp [hs, World.reservation] at hstage
  | left => simp [hs, World.reservation] at hstage

/-- The counters of an execution that reserved its next call. -/
def reserving (u : Usage) : Usage := { u with reserved := u.reserved + 1 }

/-- Nobody but the execution itself holds the run of its reservation. -/
theorem Accounts.holder_eq (h : Accounts trace m) {t t' : Reviewer} {tid' : UUID}
    (ht : m.world.reviewers.get tid = some t)
    (hrow : m.world.db.reviewRuns.get t.claim.aggregateId = some row)
    (hattempts : row.callAttempts = (m.usage tid).reserved)
    (ht' : m.world.reviewers.get tid' = some t') (hpos : 0 < (m.usage tid').reserved)
    (hagg : t'.claim.aggregateId = t.claim.aggregateId) : tid' = tid := by
  obtain ⟨t₀, row', ht₀, hrow', hattempts', -⟩ := h.holder tid' hpos
  obtain rfl := Option.some.inj (ht'.symm.trans ht₀)
  rw [hagg] at hrow'
  obtain rfl := Option.some.inj (hrow.symm.trans hrow')
  exact h.single tid' tid t' t ht' ht hpos (by omega) hagg

/-- The counters of an execution whose run is not ahead of it sum up its reports. -/
theorem Accounts.summed (h : Accounts trace m) {t : Reviewer}
    (ht : m.world.reviewers.get tid = some t)
    (hrow : m.world.db.reviewRuns.get t.claim.aggregateId = some row)
    (hattempts : row.callAttempts = (m.usage tid).reserved) :
    Summed (m.usage tid) (reports t.claim.aggregateId trace) := by
  rcases Nat.eq_zero_or_pos (m.usage tid).reserved with hzero | hpos
  · have hnone : reports t.claim.aggregateId trace = [] := by
      refine h.unheld _ fun tid' t' ht' hagg => Nat.eq_zero_of_not_pos fun hpos => ?_
      obtain rfl := h.holder_eq ht hrow hattempts ht' hpos hagg
      omega
    rw [hnone, h.zero tid hzero]
    exact ⟨rfl, rfl, rfl⟩
  · obtain ⟨t', row', ht', -, -, hsummed⟩ := h.holder tid hpos
    obtain rfl := Option.some.inj (ht.symm.trans ht')
    exact hsummed

/-- A reservation writes its run and no other. -/
theorem reserved_writes {a : Action} {w w' : World} {second : Bool}
    (hstep : World.step a w = (.reserved tid rid second, w')) : ∃ row run,
      w.db.reviewRuns.get rid = some row ∧ w'.db.reviewRuns.get rid = some run ∧
      row.callAttempts = second.toNat ∧ run.callAttempts = second.toNat + 1 ∧
      ∀ rid', rid' ≠ rid → w'.db.reviewRuns.get rid' = w.db.reviewRuns.get rid' := by
  obtain ⟨run, hrun, hattempts'⟩ := reserved_attempts (congrArg Prod.fst hstep)
  have hwrites := step_writes a w
  have hmoved := step_moved a w
  rw [hstep] at hrun hwrites hmoved
  obtain ⟨row, hrow, hattempts⟩ : ∃ row, w.db.reviewRuns.get rid = some row ∧
      row.callAttempts = second.toNat := by
    generalize w'.reviewers = reviewers at hmoved
    generalize ho : Outcome.reserved tid rid second = o at hmoved
    cases hmoved with
    | reserved tid₀ t₀ second₀ row ht₀ hstage₀ hrow hattempts =>
        obtain ⟨rfl, rfl, rfl⟩ := Outcome.reserved.inj ho
        exact ⟨row, hrow, hattempts⟩
    | same _ hquiet | began _ _ _ hquiet | left _ _ _ hquiet => simp [← ho, quiet] at hquiet
    | called => contradiction
  refine ⟨row, run, hrow, hrun, hattempts, hattempts', fun rid' hne => ?_⟩
  rcases hwrites rid' with hsame | ⟨run', hrun', hwritten⟩
  · exact hsame
  · generalize ho : Outcome.reserved tid rid second = o at hwritten
    generalize w.db.reviewRuns.get rid' = before at hwritten
    cases hwritten with
    | reserved ht₀ =>
        obtain ⟨-, hagg, -⟩ := Outcome.reserved.inj ho
        exact absurd hagg.symm hne
    | _ => contradiction

/-- The step of an execution that alone holds its run afterwards: it writes its own
counters and at most that run. -/
theorem Accounts.update (h : Accounts trace m) {m' : Meter} {trace' : Trace} {t t' : Reviewer}
    (ht : m.world.reviewers.get tid = some t) (hclaim : t'.claim = t.claim)
    (hget : m'.world.reviewers.get tid = some t')
    (hrest : ∀ tid₀, tid₀ ≠ tid → m'.world.reviewers.get tid₀ = m.world.reviewers.get tid₀)
    (husages : m'.usages = m.usages.put tid u)
    (halone : ∀ tid₀ t₀, m.world.reviewers.get tid₀ = some t₀ → 0 < (m.usage tid₀).reserved →
      t₀.claim.aggregateId = t.claim.aggregateId → tid₀ = tid)
    (hpos : 0 < u.reserved) (hbounds : u.returned ≤ u.started ∧ u.started ≤ u.reserved ∧
      u.reserved ≤ 2) (hfits : StageFits t'.stage u)
    (hrun : ∃ run, m'.world.db.reviewRuns.get t.claim.aggregateId = some run ∧
      run.callAttempts = u.reserved)
    (hother : ∀ rid, rid ≠ t.claim.aggregateId →
      m'.world.db.reviewRuns.get rid = m.world.db.reviewRuns.get rid ∧
      reports rid trace' = reports rid trace)
    (hsummed : Summed u (reports t.claim.aggregateId trace'))
    (hnonneg : ∀ rid, 0 ≤ inputs (reports rid trace') ∧ 0 ≤ outputs (reports rid trace'))
    (hhonest : ∀ rid run, m'.world.db.reviewRuns.get rid = some run →
      Honest run (reports rid trace')) : Accounts trace' m' := by
  have hself : m'.usage tid = u := by
    simp [usage, husages]
  have hold : ∀ tid₀, tid₀ ≠ tid → m'.usage tid₀ = m.usage tid₀ ∧
      m'.world.reviewers.get tid₀ = m.world.reviewers.get tid₀ := by
    intro tid₀ hid
    refine ⟨?_, hrest tid₀ hid⟩
    simp [usage, husages, Table.get_put_of_ne _ _ hid]
  constructor
  · intro tid₀ hzero
    by_cases hid : tid₀ = tid
    · subst tid₀
      rw [hself] at hzero
      omega
    · rw [(hold tid₀ hid).1] at hzero ⊢
      exact h.zero tid₀ hzero
  · intro tid₀
    by_cases hid : tid₀ = tid
    · subst tid₀
      rwa [hself]
    · rw [(hold tid₀ hid).1]
      exact h.bounds tid₀
  · exact hnonneg
  · intro tid₀ t₀ ht₀
    by_cases hid : tid₀ = tid
    · subst tid₀
      obtain rfl := Option.some.inj (hget.symm.trans ht₀)
      rwa [hself]
    · rw [(hold tid₀ hid).1]
      exact h.stage tid₀ t₀ ((hold tid₀ hid).2.symm.trans ht₀)
  · intro tid₀ hpos₀
    by_cases hid : tid₀ = tid
    · subst tid₀
      obtain ⟨run, hrun, hattempts⟩ := hrun
      rw [hself, ← hclaim] at *
      exact ⟨t', run, hget, hrun, hattempts, hsummed⟩
    · obtain ⟨husage, hreviewer⟩ := hold tid₀ hid
      rw [husage] at hpos₀ ⊢
      obtain ⟨t₀, row₀, ht₀, hrow₀, hattempts₀, hsummed₀⟩ := h.holder tid₀ hpos₀
      have hne : t₀.claim.aggregateId ≠ t.claim.aggregateId :=
        fun hagg => hid (halone tid₀ t₀ ht₀ hpos₀ hagg)
      obtain ⟨hsame, hreports⟩ := hother _ hne
      exact ⟨t₀, row₀, hreviewer.trans ht₀, hsame.trans hrow₀, hattempts₀, hreports ▸ hsummed₀⟩
  · intro tid₁ tid₂ t₁ t₂ ht₁ ht₂ hpos₁ hpos₂ hagg
    have hfind : ∀ tid₀ t₀, m'.world.reviewers.get tid₀ = some t₀ → 0 < (m'.usage tid₀).reserved →
        t₀.claim.aggregateId = t.claim.aggregateId → tid₀ = tid := by
      intro tid₀ t₀ ht₀ hpos₀ hagg₀
      by_contra hid
      obtain ⟨husage, hreviewer⟩ := hold tid₀ hid
      exact hid (halone tid₀ t₀ (hreviewer.symm.trans ht₀) (husage ▸ hpos₀) hagg₀)
    by_cases hown : t₁.claim.aggregateId = t.claim.aggregateId
    · rw [hfind tid₁ t₁ ht₁ hpos₁ hown, hfind tid₂ t₂ ht₂ hpos₂ (hagg.symm.trans hown)]
    · have hne : ∀ tid₀ t₀, m'.world.reviewers.get tid₀ = some t₀ →
          t₀.claim.aggregateId ≠ t.claim.aggregateId → tid₀ ≠ tid := by
        rintro tid₀ t₀ ht₀ hagg₀ rfl
        obtain rfl := Option.some.inj (hget.symm.trans ht₀)
        exact hagg₀ (congrArg Claim.aggregateId hclaim)
      obtain ⟨husage₁, hreviewer₁⟩ := hold tid₁ (hne tid₁ t₁ ht₁ hown)
      obtain ⟨husage₂, hreviewer₂⟩ := hold tid₂ (hne tid₂ t₂ ht₂ (hagg ▸ hown))
      exact h.single tid₁ tid₂ t₁ t₂ (hreviewer₁.symm.trans ht₁) (hreviewer₂.symm.trans ht₂)
        (husage₁ ▸ hpos₁) (husage₂ ▸ hpos₂) hagg
  · intro rid hall
    by_cases hrid : rid = t.claim.aggregateId
    · have hzero := hall tid t' hget (hclaim ▸ hrid.symm)
      rw [hself] at hzero
      omega
    · rw [(hother rid hrid).2]
      refine h.unheld rid fun tid₀ t₀ ht₀ hagg => ?_
      have hid : tid₀ ≠ tid := by
        rintro rfl
        obtain rfl := Option.some.inj (ht.symm.trans ht₀)
        exact hrid hagg.symm
      obtain ⟨husage, hreviewer⟩ := hold tid₀ hid
      exact husage ▸ hall tid₀ t₀ (hreviewer.trans ht₀) hagg
  · exact hhonest

/-- A granted reservation makes the execution the holder of its run. -/
theorem Accounts.reserve_step (h : Accounts trace m) {t : Reviewer} {second : Bool}
    {w' : World} {a : Action} (ha : Respects trace m a)
    (hstep : World.step a m.world = (.reserved tid t.claim.aggregateId second, w'))
    (ht : m.world.reviewers.get tid = some t) (hstage : World.reservation t.stage = some second)
    (hreviewers : w'.reviewers = m.world.reviewers.put tid { t with stage := .reserved second }) :
    Accounts (⟨m, b, .ran (.reserved tid t.claim.aggregateId second)⟩ :: trace)
      ((m.run a).2.setUsage tid (reserving (m.usage tid))) := by
  obtain ⟨hreserved, hstarted⟩ :=
    reservation_fits (h.stage tid t ht) hstage (h.bounds tid).2.1
  obtain ⟨row, run, hrow, hrun, hattempts, hattempts', hother⟩ := reserved_writes hstep
  have hw' : ((m.run a).2.setUsage tid (reserving (m.usage tid))).world = w' := by
    simp [setUsage, Meter.run, hstep]
  have heq : row.callAttempts = (m.usage tid).reserved := hattempts.trans hreserved.symm
  have hsummed := h.summed ht hrow heq
  have hstored : ((m.run a).2.setUsage tid (reserving (m.usage tid))).world.reviewers.get tid =
      some { t with stage := .reserved second } := by
    rw [hw', hreviewers, Table.get_put_self]
  refine h.update ht (by rfl) hstored ?_ rfl ?_ (Nat.succ_pos _)
    ?_ ?_ ?_ ?_ ?_ h.nonneg ?_
  · intro tid₀ hid
    rw [hw', hreviewers, Table.get_put_of_ne _ _ hid]
  · intro tid₀ t₀ ht₀ hpos₀ hagg
    exact h.holder_eq ht hrow heq ht₀ hpos₀ hagg
  · have hbounds := h.bounds tid
    have hle : second.toNat ≤ 1 := Bool.toNat_le second
    simp only [reserving]
    omega
  · exact ⟨congrArg (· + 1) hreserved, hstarted⟩
  · refine ⟨run, by rw [hw', hrun], ?_⟩
    simp [reserving, hattempts', hreserved]
  · intro rid hne
    exact ⟨by rw [hw', hother rid hne], rfl⟩
  · exact ⟨hsummed.returned, hsummed.incoming, hsummed.outgoing⟩
  · intro rid run hget
    exact h.honest_step ha hget

/-! ### Calls and answers -/

theorem reviewCall_cases (tid : UUID) (w : World) :
    World.step (.reviewCall tid) w = (.idle, w) ∨ ∃ c second,
      w.reviewers.get tid = some ⟨c, .reserved second⟩ ∧
      World.step (.reviewCall tid) w = (.called tid c.aggregateId second,
        w.goto tid ⟨c, .reserved second⟩ (if second then .left else .reviewed)) := by
  simp only [World.step, World.reviewCall]
  split
  · rename_i c ht
    exact .inr ⟨c, false, ht, rfl⟩
  · rename_i c ht
    exact .inr ⟨c, true, ht, rfl⟩
  · exact .inl rfl

/-- The counters of an execution that started a call. -/
def calling (u : Usage) : Usage := { u with started := u.started + 1 }

/-- An execution with a reservation holds its run alone. -/
theorem Accounts.alone (h : Accounts trace m) {t : Reviewer}
    (ht : m.world.reviewers.get tid = some t) (hpos : 0 < (m.usage tid).reserved) (tid₀ : UUID)
    (t₀ : Reviewer) (ht₀ : m.world.reviewers.get tid₀ = some t₀)
    (hpos₀ : 0 < (m.usage tid₀).reserved)
    (hagg : t₀.claim.aggregateId = t.claim.aggregateId) : tid₀ = tid :=
  h.single tid₀ tid t₀ t ht₀ ht hpos₀ hpos hagg

theorem Accounts.call_step (h : Accounts trace m) {c : Claim} {second : Bool} {o : Outcome}
    (ht : m.world.reviewers.get tid = some ⟨c, .reserved second⟩) {m' : Meter}
    (hworld : m'.world =
      m.world.goto tid ⟨c, .reserved second⟩ (if second then .left else .reviewed))
    (husages : m'.usages = m.usages.put tid (calling (m.usage tid))) :
    Accounts (⟨m, b, .ran o⟩ :: trace) m' := by
  obtain ⟨hreserved, hstarted⟩ := h.stage tid _ ht
  have hpos : 0 < (m.usage tid).reserved := by omega
  have hbounds := h.bounds tid
  obtain ⟨t', row, ht', hrow, hattempts, hsummed⟩ := h.holder tid hpos
  obtain rfl := Option.some.inj (ht.symm.trans ht')
  have hdb : m'.world.db = m.world.db := by
    rw [hworld]
    rfl
  have hstored : m'.world.reviewers.get tid =
      some ⟨c, if second then .left else .reviewed⟩ := by
    rw [hworld]
    exact Table.get_put_self ..
  refine h.update ht (by rfl) hstored ?_ husages
    (h.alone ht hpos) hpos ?_ ?_ ⟨row, by rw [hdb, hrow], hattempts⟩ ?_ ?_ h.nonneg ?_
  · intro tid₀ hid
    rw [hworld]
    exact Table.get_put_of_ne _ _ hid
  · simp only [calling]
    omega
  · cases second with
    | false => exact ⟨hreserved, congrArg (· + 1) hstarted⟩
    | true => trivial
  · intro rid _
    exact ⟨by rw [hdb], rfl⟩
  · exact ⟨hsummed.returned, hsummed.incoming, hsummed.outgoing⟩
  · intro rid run hget
    rw [hdb] at hget
    exact h.honest rid run hget

/-- The counters of an execution whose call returned. -/
def replied (u : Usage) (incoming outgoing : ℤ) : Usage :=
  { u with
    incoming := u.incoming + incoming
    outgoing := u.outgoing + outgoing
    returned := u.returned + 1 }

theorem Accounts.reply_step (h : Accounts trace m) {t : Reviewer}
    (ht : m.world.reviewers.get tid = some t) (hout : (m.usage tid).returned < (m.usage tid).started)
    (hin₀ : 0 ≤ incoming) (hout₀ : 0 ≤ outgoing) :
    Accounts (⟨m, b, .reported t.claim.aggregateId incoming outgoing⟩ :: trace)
      (m.setUsage tid (replied (m.usage tid) incoming outgoing)) := by
  have hbounds := h.bounds tid
  have hpos : 0 < (m.usage tid).reserved := by omega
  obtain ⟨t', row, ht', hrow, hattempts, hsummed⟩ := h.holder tid hpos
  obtain rfl := Option.some.inj (ht.symm.trans ht')
  have hgrown : reports t.claim.aggregateId
      (⟨m, b, .reported t.claim.aggregateId incoming outgoing⟩ :: trace) =
        (incoming, outgoing) :: reports t.claim.aggregateId trace := by
    rw [reports_reported, if_pos rfl]
  have hkept : ∀ rid, rid ≠ t.claim.aggregateId → reports rid
      (⟨m, b, .reported t.claim.aggregateId incoming outgoing⟩ :: trace) = reports rid trace := by
    intro rid hne
    rw [reports_reported, if_neg hne.symm]
  have hopen : row.status ≠ .completed := by
    intro hs
    obtain ⟨htwo, hlength, -⟩ := (h.honest _ row hrow).completed hs
    have hreturned := hsummed.returned
    omega
  have hhonest : ∀ rid run, m.world.db.reviewRuns.get rid = some run → Honest run (reports rid
      (⟨m, b, .reported t.claim.aggregateId incoming outgoing⟩ :: trace)) := by
    intro rid run hget
    by_cases hrid : rid = t.claim.aggregateId
    · subst hrid
      obtain rfl := Option.some.inj (hrow.symm.trans hget)
      rw [hgrown]
      exact (h.honest _ row hrow).report hopen hin₀ hout₀
    · rw [hkept rid hrid]
      exact h.honest rid run hget
  refine h.update ht rfl ht (fun _ _ => rfl) rfl (h.alone ht hpos) hpos ?_ ?_ ⟨row, hrow, hattempts⟩
    (fun rid hne => ⟨rfl, hkept rid hne⟩) ?_ ?_ hhonest
  · simp only [replied]
    omega
  · have hfits := h.stage tid t ht
    cases hs : t.stage <;> rw [hs] at hfits <;> exact hfits
  · rw [hgrown]
    refine ⟨congrArg (· + 1) hsummed.returned, ?_, ?_⟩
    · simp [replied, hsummed.incoming, inputs, Int.add_comm]
    · simp [replied, hsummed.outgoing, outputs, Int.add_comm]
  · intro rid
    by_cases hrid : rid = t.claim.aggregateId
    · subst hrid
      rw [hgrown]
      have hnonneg := h.nonneg t.claim.aggregateId
      simp only [inputs, outputs, List.map_cons, List.sum_cons] at hnonneg ⊢
      omega
    · rw [hkept rid hrid]
      exact h.nonneg rid

/-! ### All actions -/

/-- Recoveries and all actions without counters respect the reports. -/
theorem Accounts.respects_unmetered (h : Accounts trace m) {a : Action}
    (hunmetered : unmetered a = true) (ha : World.allowed a m.world) : Respects trace m a := by
  have hzero : counters a = (0, 0) := by
    cases a with
    | reviewReserve => simp [unmetered] at hunmetered
    | reviewComplete => simp_all [unmetered, counters]
    | _ => rfl
  refine ⟨fun o rid row run _ => ?_, fun rid row _ _ => ?_⟩
  · rw [hzero]
    exact h.nonneg rid
  · rintro c result expired incoming outgoing rfl
    have hpassed := ha.2
    simp only [unmetered, Bool.and_eq_true] at hunmetered
    simp [World.passed, hunmetered.1.1.1] at hpassed

theorem Accounts.respects_reserve (h : Accounts trace m) : Respects trace m
    (.reviewReserve tid (m.usage tid).incoming (m.usage tid).outgoing) := by
  refine ⟨fun o rid row run hwritten => ?_, fun rid row _ _ => ?_⟩
  · cases hwritten with
    | refused ht => exact h.counters_le ht
    | reserved ht => exact h.counters_le ht
  · rintro c result expired incoming outgoing ⟨⟩

theorem Accounts.respects_completion (h : Accounts trace m) {t : Reviewer}
    {result : Option Json} {code : Option Code} (ht : m.world.reviewers.get tid = some t)
    (hcode : code = none → (m.usage tid).returned = 2) :
    Respects trace m (m.completion t tid result code) := by
  refine ⟨fun o rid row run hwritten => ?_, fun rid row hrow hagg => ?_⟩
  · unfold completion at hwritten
    cases hwritten with
    | recorded => exact h.counters_le ht
    | closed => exact h.counters_le ht
  · rintro c result' expired incoming outgoing heq
    obtain ⟨-, -, rfl, -, rfl, rfl⟩ := Action.reviewComplete.inj heq
    obtain rfl := hagg _ _ _ _ _ _ rfl
    have htwo := hcode rfl
    have hbounds := h.bounds tid
    obtain ⟨t', row', ht', hrow', hattempts, hsummed⟩ := h.holder tid (by omega)
    obtain rfl := Option.some.inj (ht.symm.trans ht')
    obtain rfl := Option.some.inj (hrow.symm.trans hrow')
    exact ⟨by omega, hsummed.returned.symm.trans htwo, hsummed.incoming, hsummed.outgoing⟩

/-- Nothing happened to the executions and the runs. -/
theorem Accounts.ignore (h : Accounts trace m) : Accounts (⟨m, b, .ignored⟩ :: trace) m :=
  ⟨h.zero, h.bounds, h.nonneg, h.stage, h.holder, h.single, h.unheld, h.honest⟩

theorem accounts_step (h : Accounts trace m) (ha : allowed b m) :
    Accounts (⟨m, b, (step b m).1⟩ :: trace) (step b m).2 := by
  cases b with
  | system a =>
      refine h.quiet_step (h.respects_unmetered ha.2 ha.1) ?_
      rcases step_quiet a m.world with hquiet | ⟨tid, incoming, outgoing, rfl⟩ | ⟨tid, rfl⟩
      · exact hquiet
      · exact absurd ha.2 (by simp [unmetered])
      · exact absurd ha.2 (by simp [unmetered])
  | reserve tid =>
      have hrespects : Respects trace m
          (.reviewReserve tid (m.usage tid).incoming (m.usage tid).outgoing) := h.respects_reserve
      simp only [step, reserve]
      split
      · exact h.ignore
      rcases reviewReserve_cases tid (m.usage tid).incoming (m.usage tid).outgoing m.world with
        hquiet | ⟨t, second, ht, hstage, hout, hreviewers⟩
      · have hkept := h.quiet_step (b := .reserve tid) hrespects hquiet
        split
        · rename_i heq
          obtain ⟨hran, -⟩ := Prod.mk.inj heq
          simp [MeterOutcome.ran.inj hran, quiet] at hquiet
        · exact hkept
      · have hran : m.run (.reviewReserve tid (m.usage tid).incoming (m.usage tid).outgoing) =
            (.ran (.reserved tid t.claim.aggregateId second), _) :=
          Prod.ext (congrArg MeterOutcome.ran hout) rfl
        rw [hran]
        exact h.reserve_step hrespects (Prod.ext hout rfl) ht hstage hreviewers
  | call tid =>
      simp only [step, call]
      rcases reviewCall_cases tid m.world with hidle | ⟨c, second, ht, hcalled⟩
      · have hran : m.run (.reviewCall tid) = (.ran .idle, m) := by
          simp [Meter.run, hidle]
        rw [hran]
        exact ⟨h.zero, h.bounds, h.nonneg, h.stage, h.holder, h.single, h.unheld, h.honest⟩
      · have hran : m.run (.reviewCall tid) = (.ran (.called tid c.aggregateId second),
            ⟨m.world.goto tid ⟨c, .reserved second⟩ (if second then .left else .reviewed),
              m.usages⟩) := by
          simp [Meter.run, hcalled]
        rw [hran]
        exact h.call_step ht rfl rfl
  | reply tid incoming outgoing =>
      simp only [step, reply]
      split
      · exact h.ignore
      · rename_i t ht
        split
        · exact h.ignore
        · rename_i hstage
          exact h.reply_step ht (stage_eq_waiting.mp hstage) ha.1 ha.2
  | complete tid result code =>
      simp only [step, complete]
      split
      · exact h.ignore
      · rename_i t ht
        split
        · rename_i hstage
          refine h.quiet_step (h.respects_completion ht fun hcode =>
            returned_of_completes (hcode ▸ hstage)) ?_
          rcases step_quiet (m.completion t tid result code) m.world with
            hquiet | ⟨_, _, _, heq⟩ | ⟨_, heq⟩
          · exact hquiet
          · simp [completion] at heq
          · simp [completion] at heq
        · exact h.ignore

theorem run_accounts {now : Instant} (h : Run now trace m) : Accounts trace m := by
  induction h with
  | nil => exact accounts_initial now
  | snoc b _ hb ih => exact accounts_step ih hb

/-! ## Runs -/

/-- The metered system only does what the plain system does. -/
theorem run_world {now : Instant} (h : Run now trace m) :
    ∃ trace', World.Run now trace' m.world := by
  refine h.invariant (fun m => ∃ trace', World.Run now trace' m.world) ⟨[], .nil⟩ ?_
  rintro m b ⟨trace', hexec⟩ hb
  have hrun : ∀ a, World.allowed a m.world → ∃ trace', World.Run now trace' (m.run a).2.world :=
    fun a ha => ⟨_, hexec.snoc a ha⟩
  cases b with
  | system a => exact hrun a hb.1
  | reserve tid =>
      have hkept := hrun (.reviewReserve tid (m.usage tid).incoming (m.usage tid).outgoing)
        ⟨by simp [World.claimOf], rfl⟩
      simp only [step, reserve]
      split
      · exact ⟨trace', hexec⟩
      split
      · rename_i heq
        rwa [heq] at hkept
      · exact hkept
  | call tid =>
      have hkept := hrun (.reviewCall tid) ⟨by simp [World.claimOf], rfl⟩
      simp only [step, call]
      split
      · rename_i heq
        rwa [heq] at hkept
      · exact hkept
  | reply tid incoming outgoing =>
      simp only [step, reply]
      split
      · exact ⟨trace', hexec⟩
      · split <;> exact ⟨trace', hexec⟩
  | complete tid result code =>
      simp only [step, complete]
      split
      · exact ⟨trace', hexec⟩
      · rename_i t ht
        split
        · exact hrun _ (hb t ht)
        · exact ⟨trace', hexec⟩

private theorem run_keeps (m : Meter) (a : Action) :
    m.world.db.reviewRuns.Keeps Grown (m.run a).2.world.db.reviewRuns := by
  intro rid row hget
  rcases step_writes a m.world rid with hsame | ⟨run, hrun, hwritten⟩
  · exact ⟨row, hsame.trans hget, .refl row⟩
  · rw [hget] at hwritten
    exact ⟨run, hrun, written_grown hwritten⟩

theorem step_keeps (b : MeterAction) (m : Meter) :
    m.world.db.reviewRuns.Keeps Grown (step b m).2.world.db.reviewRuns := by
  cases b with
  | system a => exact run_keeps m a
  | reserve tid =>
      have hkept := run_keeps m (.reviewReserve tid (m.usage tid).incoming (m.usage tid).outgoing)
      simp only [step, reserve]
      split
      · exact .refl Grown.refl _
      split
      · rename_i heq
        rwa [heq] at hkept
      · exact hkept
  | call tid =>
      have hkept := run_keeps m (.reviewCall tid)
      simp only [step, call]
      split
      · rename_i heq
        rwa [heq] at hkept
      · exact hkept
  | reply tid incoming outgoing =>
      simp only [step, reply]
      split
      · exact .refl Grown.refl _
      · split <;> exact .refl Grown.refl _
  | complete tid result code =>
      simp only [step, complete]
      split
      · exact .refl Grown.refl _
      · split
        · exact run_keeps m _
        · exact .refl Grown.refl _

theorem path_keeps {m' : Meter} (h : Path m trace m') :
    m.world.db.reviewRuns.Keeps Grown m'.world.db.reviewRuns :=
  h.relates (fun _ => True)
    (fun m m' => m.world.db.reviewRuns.Keeps Grown m'.world.db.reviewRuns)
    (fun _ => .refl Grown.refl _) (fun _ _ _ => .trans Grown.trans) trivial
    (fun _ _ _ _ => trivial) (fun m b _ _ => step_keeps b m)

/-- A completed run has made two calls and counts exactly what they reported; a
failed or canceled run that made a call is marked uncertain; and token counts never
decrease. -/
theorem usage_accounted {now : Instant} (h : Run now trace m) :
    (∀ rid row, m.world.db.reviewRuns.get rid = some row →
      (row.status = .completed → row.callAttempts = 2 ∧ (reports rid trace).length = 2 ∧
        row.inputTokens = ((reports rid trace).map Prod.fst).sum ∧
        row.outputTokens = ((reports rid trace).map Prod.snd).sum ∧
        row.usageUncertain = false) ∧
      (row.status = .failed ∨ row.status = .canceled → 0 < row.callAttempts →
        row.usageUncertain = true)) ∧
    ∀ later m', Path m later m' → ∀ rid row, m.world.db.reviewRuns.get rid = some row →
      ∃ row', m'.world.db.reviewRuns.get rid = some row' ∧
        row.inputTokens ≤ row'.inputTokens ∧ row.outputTokens ≤ row'.outputTokens := by
  refine ⟨?_, ?_⟩
  · intro rid row hget
    have hhonest := (run_accounts h).honest rid row hget
    exact ⟨hhonest.completed, hhonest.stopped⟩
  · intro later m' hpath rid row hget
    obtain ⟨row', hget', hgrown⟩ := path_keeps hpath rid row hget
    exact ⟨row', hget', hgrown.input, hgrown.output⟩

/-! ## An execution -/

/-- A review is started and its execution begins. -/
def starting : List Action :=
  AnalysisWorker.analyzing ++ [
    .reviewStart AnalysisWorker.settings 2 1 8 true none .code 0 10 11,
    .claim "first" [.explainFindings] [],
    .reviewBegin AnalysisWorker.settings reviewClaim 12]

/-- It makes both of its calls and completes. -/
def accounting : List MeterAction :=
  starting.map .system ++ [
    .reserve 12, .call 12, .reply 12 3 4, .reserve 12, .call 12, .reply 12 1 2,
    .complete 12 (some (.obj [])) none]

theorem usage_accounted_accounting :
    ∃ row, (Transition.run step (initial 0) accounting).world.db.reviewRuns.get 10 = some row ∧
      row.inputTokens = 4 ∧ row.outputTokens = 6 ∧ row.usageUncertain = false := by
  have hrun : Run 0 _ _ := Transition.exec_run (initial 0) accounting (by decide +kernel)
  have hdone : ((Transition.run step (initial 0) accounting).world.db.reviewRuns.get 10).map
      (·.status) = some .completed := by decide +kernel
  obtain ⟨row, hget, hs⟩ := Option.map_eq_some_iff.mp hdone
  obtain ⟨-, -, hin, hout, hsure⟩ := ((usage_accounted hrun).1 10 row hget).1 hs
  have hreports : reports 10 (Transition.events step (initial 0) accounting) = [(1, 2), (3, 4)] := by
    decide +kernel
  rw [hreports] at hin hout
  exact ⟨row, hget, hin, hout, hsure⟩

end Prism.Meter
