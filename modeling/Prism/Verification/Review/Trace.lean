import Prism.Verification.Analysis.Trace
import Prism.Verification.Review.Semantics

/-! Reservations and provider calls along an execution. -/

namespace Prism.ReviewWorker

open World

def reserves (rid : UUID) (second : Bool) : Outcome → Bool
  | .reserved _ r s => r = rid && s = second
  | _ => false

def calls (rid : UUID) (second : Bool) : Outcome → Bool
  | .called _ r s => r = rid && s = second
  | _ => false

/-- How many calls of a kind were started for a run. -/
def callCount (rid : UUID) (second : Bool) (trace : Trace) : ℕ :=
  trace.countP fun e => calls rid second e.outcome

def reservationCount (rid : UUID) (second : Bool) (trace : Trace) : ℕ :=
  trace.countP fun e => reserves rid second e.outcome

/-- The stored `call_attempts` of a run. -/
def attempts (db : Db) (rid : UUID) : ℕ :=
  ((db.reviewRuns.get rid).map (·.callAttempts)).getD 0

theorem reservationCount_pos {rid : UUID} {second : Bool} {trace : Trace} {tid : UUID}
    {e : Transition.Event World Action Outcome} (he : e ∈ trace)
    (ho : e.outcome = .reserved tid rid second) : 0 < reservationCount rid second trace :=
  List.countP_pos_iff.mpr ⟨e, he, by simp [ho, reserves]⟩

/-- The reservations of a run are what its attempts count, and every call uses up
one of them. -/
structure Budget (trace : Trace) (w : World) : Prop where
  first : ∀ rid, reservationCount rid false trace = min (attempts w.db rid) 1
  second : ∀ rid, reservationCount rid true trace = attempts w.db rid - 1
  attempts_le : ∀ rid, attempts w.db rid ≤ 2
  calls_le : ∀ rid s, callCount rid s trace ≤ reservationCount rid s trace
  open_reservation : ∀ tid t s, w.reviewers.get tid = some t → t.stage = .reserved s →
    callCount t.claim.aggregateId s trace = 0 ∧
      ∃ e ∈ trace, e.outcome = .reserved tid t.claim.aggregateId s
  single : ∀ tid tid' t t' s, w.reviewers.get tid = some t → w.reviewers.get tid' = some t' →
    t.stage = .reserved s → t'.stage = .reserved s →
    t.claim.aggregateId = t'.claim.aggregateId → tid = tid'

theorem Budget.reservations_le {trace : Trace} {w : World} (h : Budget trace w) (rid : UUID)
    (s : Bool) : reservationCount rid s trace ≤ 1 := by
  have hle := h.attempts_le rid
  cases s with
  | false => rw [h.first]; omega
  | true => rw [h.second]; omega

/-- The attempts of a run only move through its own reservations. -/
private theorem attempts_step (a : Action) (w : World) (rid : UUID) :
    (attempts (step a w).2.db rid = attempts w.db rid ∧
      ∀ tid s, (step a w).1 ≠ .reserved tid rid s) ∨
    ∃ tid s, (step a w).1 = .reserved tid rid s ∧ attempts w.db rid = s.toNat ∧
      attempts (step a w).2.db rid = s.toNat + 1 := by
  by_cases hres : ∃ tid s, (step a w).1 = .reserved tid rid s
  · obtain ⟨tid, s, ho⟩ := hres
    have hmoved := step_moved a w
    obtain ⟨run, hget, hattempts⟩ := reserved_attempts ho
    rw [ho] at hmoved
    generalize (step a w).2.reviewers = reviewers at hmoved
    cases hmoved with
    | same _ hq => simp [quiet] at hq
    | began _ _ _ hq => simp [quiet] at hq
    | left _ _ _ hq => simp [quiet] at hq
    | reserved _ t _ row ht hstage hrow hrowattempts =>
        exact .inr ⟨tid, s, ho, by simp [attempts, hrow, hrowattempts],
          by simp [attempts, hget, hattempts]⟩
  · have hnone : ∀ tid s, (step a w).1 ≠ .reserved tid rid s := fun tid s h => hres ⟨tid, s, h⟩
    refine .inl ⟨?_, hnone⟩
    rcases step_changes a w rid with hsame | ⟨run, hget, hchange⟩
    · simp [attempts, hsame]
    · generalize hold : w.db.reviewRuns.get rid = old at hchange
      cases hchange with
      | started run hzero => simp [attempts, hold, hget, hzero]
      | worked row run hsame hattempts => simp [attempts, hold, hget, hattempts]
      | reserved tid s row run ho => exact absurd ho (hnone tid s)

private theorem reservationCount_cons (rid : UUID) (s : Bool) (trace : Trace)
    (e : Transition.Event World Action Outcome) :
    reservationCount rid s (e :: trace) =
      reservationCount rid s trace + if reserves rid s e.outcome then 1 else 0 := by
  simp [reservationCount, List.countP_cons]

private theorem callCount_cons (rid : UUID) (s : Bool) (trace : Trace)
    (e : Transition.Event World Action Outcome) :
    callCount rid s (e :: trace) =
      callCount rid s trace + if calls rid s e.outcome then 1 else 0 := by
  simp [callCount, List.countP_cons]

/-- What the attempts say about the reservations, after one step. -/
private theorem budget_attempts {trace : Trace} {w : World} (h : Budget trace w) (a : Action)
    (rid : UUID) :
    reservationCount rid false (⟨w, a, (step a w).1⟩ :: trace) =
        min (attempts (step a w).2.db rid) 1 ∧
      reservationCount rid true (⟨w, a, (step a w).1⟩ :: trace) =
        attempts (step a w).2.db rid - 1 ∧
      attempts (step a w).2.db rid ≤ 2 := by
  have hfirst := h.first rid
  have hsecond := h.second rid
  have hle := h.attempts_le rid
  simp only [reservationCount_cons]
  rcases attempts_step a w rid with ⟨hsame, hnone⟩ | ⟨tid, s, ho, hbefore, hafter⟩
  · have hno : ∀ s, reserves rid s (step a w).1 = false := by
      intro s
      cases ho : (step a w).1 with
      | reserved tid r s' =>
          by_cases hr : r = rid
          · subst r
            exact absurd ho (hnone tid s')
          · simp [reserves, hr]
      | _ => rfl
    simp [hno, hsame, hfirst, hsecond, hle]
  · rw [ho, hafter, hfirst, hsecond, hbefore]
    cases s <;> simp [reserves]

private theorem calls_quiet {o : Outcome} (h : quiet o = true) (rid : UUID) (s : Bool) :
    calls rid s o = false := by
  cases o <;> first | rfl | contradiction

/-- No execution holds an open reservation of a run that has none. -/
private theorem no_open_reservation {trace : Trace} {w : World} (h : Budget trace w) {rid : UUID}
    {s : Bool} (hzero : attempts w.db rid = s.toNat) {tid : UUID} {t : Reviewer}
    (ht : w.reviewers.get tid = some t) (hstage : t.stage = .reserved s) :
    t.claim.aggregateId ≠ rid := by
  rintro rfl
  obtain ⟨-, e, he, ho⟩ := h.open_reservation tid t s ht hstage
  have hpos := reservationCount_pos he ho
  cases s with
  | false => rw [h.first, hzero] at hpos; simp at hpos
  | true => rw [h.second, hzero] at hpos; simp at hpos

/-- An open reservation in the new table was open before, unless it is the new one. -/
private theorem old_of_put {reviewers : Table UUID Reviewer} {tid₀ tid : UUID} {t₀ t : Reviewer}
    {s : Bool} (hstage : ∀ s, t₀.stage ≠ .reserved s)
    (hget : (reviewers.put tid₀ t₀).get tid = some t) (hs : t.stage = .reserved s) :
    tid ≠ tid₀ ∧ reviewers.get tid = some t := by
  rcases (Table.get_put_eq_some ..).mp hget with ⟨-, rfl⟩ | ⟨hne, hold⟩
  · exact absurd hs (hstage s)
  · exact ⟨hne, hold⟩

private theorem calls_le_step {trace : Trace} {w : World} (h : Budget trace w) {a : Action}
    {o : Outcome} {reviewers : Table UUID Reviewer} (hm : Moved w o reviewers) (rid : UUID)
    (s : Bool) :
    callCount rid s (⟨w, a, o⟩ :: trace) ≤ reservationCount rid s (⟨w, a, o⟩ :: trace) := by
  have hle := h.calls_le rid s
  have hsame : calls rid s o = false →
      callCount rid s (⟨w, a, o⟩ :: trace) ≤ reservationCount rid s (⟨w, a, o⟩ :: trace) := by
    intro hno
    rw [callCount_cons, reservationCount_cons]
    simp only [hno, Bool.false_eq_true, if_false]
    omega
  cases hm with
  | same _ hq => exact hsame (calls_quiet hq ..)
  | began _ _ _ hq => exact hsame (calls_quiet hq ..)
  | left _ _ _ hq => exact hsame (calls_quiet hq ..)
  | reserved tid t second row ht => exact hsame rfl
  | called tid c second stage ht =>
      by_cases hcall : c.aggregateId = rid ∧ second = s
      · obtain ⟨rfl, rfl⟩ := hcall
        obtain ⟨hzero, e, he, ho⟩ := h.open_reservation tid _ second ht rfl
        have hpos := reservationCount_pos he ho
        simp only at hzero hpos
        rw [callCount_cons, reservationCount_cons, hzero]
        simp only [calls, reserves, decide_true, Bool.and_self, if_true, Bool.false_eq_true,
          if_false]
        omega
      · refine hsame (Bool.eq_false_iff.mpr fun hc => hcall ?_)
        simpa only [calls, Bool.and_eq_true, decide_eq_true_eq] using hc

private theorem open_step {trace : Trace} {w : World} (h : Budget trace w) {a : Action}
    {o : Outcome} {reviewers : Table UUID Reviewer} (hm : Moved w o reviewers) {tid : UUID}
    {t : Reviewer} {s : Bool} (ht : reviewers.get tid = some t) (hs : t.stage = .reserved s) :
    callCount t.claim.aggregateId s (⟨w, a, o⟩ :: trace) = 0 ∧
      ∃ e ∈ (⟨w, a, o⟩ :: trace : Trace), e.outcome = .reserved tid t.claim.aggregateId s := by
  have hold : w.reviewers.get tid = some t → calls t.claim.aggregateId s o = false →
      callCount t.claim.aggregateId s (⟨w, a, o⟩ :: trace) = 0 ∧
        ∃ e ∈ (⟨w, a, o⟩ :: trace : Trace), e.outcome = .reserved tid t.claim.aggregateId s := by
    intro hget hno
    obtain ⟨hzero, e, he, ho⟩ := h.open_reservation tid t s hget hs
    refine ⟨?_, e, List.mem_cons_of_mem _ he, ho⟩
    simp [callCount_cons, hzero, hno]
  cases hm with
  | same _ hq => exact hold ht (calls_quiet hq ..)
  | began _ tid₀ c hq =>
      exact hold (old_of_put (by simp) ht hs).2 (calls_quiet hq ..)
  | left _ tid₀ t₀ hq =>
      exact hold (old_of_put (by simp) ht hs).2 (calls_quiet hq ..)
  | reserved tid₀ t₀ second row ht₀ hstage hrow hattempts =>
      rcases (Table.get_put_eq_some ..).mp ht with ⟨rfl, rfl⟩ | ⟨-, hget⟩
      · obtain rfl := ReviewStage.reserved.inj hs
        have hzero : attempts w.db t₀.claim.aggregateId = second.toNat := by
          simp [attempts, hrow, hattempts]
        refine ⟨?_, _, List.mem_cons_self .., rfl⟩
        have hle := h.calls_le t₀.claim.aggregateId second
        have hcount : reservationCount t₀.claim.aggregateId second trace = 0 := by
          cases second with
          | false => rw [h.first, hzero]; simp
          | true => rw [h.second, hzero]; simp
        simp only [callCount_cons, calls, Bool.false_eq_true, if_false]
        omega
      · exact hold hget rfl
  | called tid₀ c second stage ht₀ hstage =>
      obtain ⟨hne, hget⟩ := old_of_put hstage ht hs
      refine hold hget ?_
      simp only [calls, Bool.and_eq_false_iff, decide_eq_false_iff_not]
      by_contra hsame
      simp only [not_or, not_not] at hsame
      obtain ⟨hagg, rfl⟩ := hsame
      exact hne (h.single tid tid₀ t _ second hget ht₀ hs rfl hagg.symm)

private theorem single_step {trace : Trace} {w : World} (h : Budget trace w) {o : Outcome}
    {reviewers : Table UUID Reviewer} (hm : Moved w o reviewers) {tid tid' : UUID}
    {t t' : Reviewer} {s : Bool} (ht : reviewers.get tid = some t)
    (ht' : reviewers.get tid' = some t') (hs : t.stage = .reserved s)
    (hs' : t'.stage = .reserved s) (hagg : t.claim.aggregateId = t'.claim.aggregateId) :
    tid = tid' := by
  have hput : ∀ tid₀ t₀, (∀ s, t₀.stage ≠ .reserved s) → reviewers = w.reviewers.put tid₀ t₀ →
      tid = tid' := by
    rintro tid₀ t₀ hstage rfl
    exact h.single tid tid' t t' s (old_of_put hstage ht hs).2 (old_of_put hstage ht' hs').2 hs
      hs' hagg
  cases hm with
  | same => exact h.single tid tid' t t' s ht ht' hs hs' hagg
  | began _ tid₀ c => exact hput tid₀ _ (by simp) rfl
  | left _ tid₀ t₀ => exact hput tid₀ _ (by simp) rfl
  | called tid₀ c second stage ht₀ hstage => exact hput tid₀ _ hstage rfl
  | reserved tid₀ t₀ second row ht₀ hstage hrow hattempts =>
      have hzero : attempts w.db t₀.claim.aggregateId = second.toNat := by
        simp [attempts, hrow, hattempts]
      rcases (Table.get_put_eq_some ..).mp ht with ⟨rfl, rfl⟩ | ⟨-, hget⟩ <;>
        rcases (Table.get_put_eq_some ..).mp ht' with ⟨rfl, rfl⟩ | ⟨-, hget'⟩
      · rfl
      · obtain rfl := ReviewStage.reserved.inj hs
        exact absurd hagg.symm (no_open_reservation h hzero hget' hs')
      · obtain rfl := ReviewStage.reserved.inj hs'
        exact absurd hagg (no_open_reservation h hzero hget hs)
      · exact h.single tid tid' t t' s hget hget' hs hs' hagg

/-- Every step keeps the budget. -/
theorem budget_step {trace : Trace} {w : World} (h : Budget trace w) (a : Action) :
    Budget (⟨w, a, (step a w).1⟩ :: trace) (step a w).2 :=
  have hmoved := step_moved a w
  { first := fun rid => (budget_attempts h a rid).1
    second := fun rid => (budget_attempts h a rid).2.1
    attempts_le := fun rid => (budget_attempts h a rid).2.2
    calls_le := calls_le_step h hmoved
    open_reservation := fun _ _ _ ht hs => open_step h hmoved ht hs
    single := fun _ _ _ _ _ ht ht' hs hs' hagg => single_step h hmoved ht ht' hs hs' hagg }

theorem budget_initial (now : Instant) : Budget [] (World.initial now) := by
  constructor <;> simp [reservationCount, callCount, attempts, World.initial, Db.empty]

theorem run_budget {now : Instant} {trace : Trace} {w : World} (h : World.Run now trace w) :
    Budget trace w :=
  h.induct Budget (budget_initial now) fun _ _ a hb _ => budget_step hb a

/-- A reported reservation was authorized in the state it was made in. -/
theorem reserved_authorized {a : Action} {w : World} {tid rid : UUID} {second : Bool}
    (h : (step a w).1 = .reserved tid rid second) :
    ∃ t row, w.reviewers.get tid = some t ∧ t.claim.aggregateId = rid ∧
      w.db.reviewRuns.get rid = some row ∧ row.callAttempts = second.toNat ∧
      Authorized w.db t.claim row := by
  have hmoved := step_moved a w
  rw [h] at hmoved
  generalize (step a w).2.reviewers = reviewers at hmoved
  cases hmoved with
  | same _ hq => simp [quiet] at hq
  | began _ _ _ hq => simp [quiet] at hq
  | left _ _ _ hq => simp [quiet] at hq
  | reserved _ t _ row ht hstage hrow hattempts hauth =>
      exact ⟨t, row, ht, rfl, hrow, hattempts, hauth⟩

/-- A reported call used a reservation its execution held open. -/
theorem called_reserved {a : Action} {w : World} {tid rid : UUID} {second : Bool}
    (h : (step a w).1 = .called tid rid second) :
    ∃ c, w.reviewers.get tid = some ⟨c, .reserved second⟩ ∧ c.aggregateId = rid := by
  have hmoved := step_moved a w
  rw [h] at hmoved
  generalize (step a w).2.reviewers = reviewers at hmoved
  cases hmoved with
  | same _ hq => simp [quiet] at hq
  | began _ _ _ hq => simp [quiet] at hq
  | left _ _ _ hq => simp [quiet] at hq
  | called _ c _ stage ht hstage => exact ⟨c, ht, rfl⟩

/-- No reservation of a terminal run is made, however the execution goes on. -/
theorem terminal_unreserved {w w' : World} {later : Trace}
    (hsound : Lifecycle.Sound (Lifecycle.board w)) (hexec : Path w later w') {rid : UUID} {row : ReviewRun}
    (hget : w.db.reviewRuns.get rid = some row) (hterm : row.status.terminal = true)
    {e : Transition.Event World Action Outcome} (he : e ∈ later) {tid : UUID} {second : Bool} :
    e.outcome ≠ .reserved tid rid second := by
  intro ho
  obtain ⟨⟨earlier, hbefore⟩, -, hout⟩ := hexec.passed he
  obtain ⟨t, row', -, -, hget', -, hauth⟩ := reserved_authorized (hout.symm.trans ho)
  have hlater := Lifecycle.exec_later hsound hbefore
  obtain ⟨st, hst, heq⟩ := hlater.status .explainFindings rid (Lifecycle.ofRun row.status)
    (by simp [Lifecycle.boardOf, Lifecycle.statusIn, hget])
  obtain rfl := heq (by simpa using hterm)
  simp only [Lifecycle.boardOf, Lifecycle.statusIn, hget', Option.map_some,
    Option.some.injEq] at hst
  rw [← Lifecycle.ofRun_injective hst, hauth.running] at hterm
  contradiction

/-! ## The contract -/

/-- A run has at most one call of each kind, no more than its attempts count and
never more than two; every call has a reservation of its own, made by its
execution in a state where it was authorized; a terminal run gets none. -/
theorem paid_calls_reserved {now : Instant} {trace : Trace} {w : World}
    (h : World.Run now trace w) :
    (∀ rid, callCount rid false trace ≤ 1 ∧ callCount rid true trace ≤ 1 ∧
      callCount rid false trace + callCount rid true trace ≤ attempts w.db rid ∧
      attempts w.db rid ≤ 2) ∧
    (∀ rid second, reservationCount rid second trace ≤ 1) ∧
    (∀ later e earlier tid rid second, trace = later ++ e :: earlier →
      e.outcome = .called tid rid second →
      ∃ r ∈ earlier, r.outcome = .reserved tid rid second ∧ ∃ t row,
        r.before.reviewers.get tid = some t ∧ t.claim.aggregateId = rid ∧
        r.before.db.reviewRuns.get rid = some row ∧ row.callAttempts = second.toNat ∧
        Authorized r.before.db t.claim row) ∧
    ∀ rid row, w.db.reviewRuns.get rid = some row → row.status.terminal = true →
      ∀ later w', Path w later w' →
        ∀ e ∈ later, ∀ tid second, e.outcome ≠ .reserved tid rid second := by
  have hbudget := run_budget h
  refine ⟨?_, hbudget.reservations_le, ?_, ?_⟩
  · intro rid
    have hle := hbudget.attempts_le rid
    have hfirst := hbudget.calls_le rid false
    have hsecond := hbudget.calls_le rid true
    rw [hbudget.first] at hfirst
    rw [hbudget.second] at hsecond
    omega
  · rintro later e earlier tid rid second rfl ho
    obtain ⟨hbefore, -, hout, -⟩ := h.split
    obtain ⟨c, ht, rfl⟩ := called_reserved (hout.symm.trans ho)
    obtain ⟨-, r, hr, hro⟩ := (run_budget hbefore).open_reservation tid _ second ht rfl
    obtain ⟨-, -, hrout⟩ := hbefore.passed hr
    exact ⟨r, hr, hro, reserved_authorized (hrout.symm.trans hro)⟩
  · intro rid row hget hterm later w' hexec e he tid second
    exact terminal_unreserved (Lifecycle.run_sound h) hexec hget hterm he

/-! ## An execution -/

def reviewClaim : Claim := ⟨11, 10, some 1, .explainFindings, 1, "first"⟩

/-- A review makes both of its calls. -/
def reviewing : List Action :=
  AnalysisWorker.analyzing ++ [
    .reviewStart AnalysisWorker.settings 2 1 8 true none .code 0 10 11,
    .claim "first" [.explainFindings] [], .reviewBegin AnalysisWorker.settings reviewClaim 12,
    .reviewReserve 12 0 0, .reviewCall 12, .reviewReserve 12 3 4, .reviewCall 12]

theorem paid_calls_reserved_reviewing :
    callCount 10 false (Transition.events step (World.initial 0) reviewing) +
      callCount 10 true (Transition.events step (World.initial 0) reviewing) = 2 ∧
    attempts (Lifecycle.reach reviewing).db 10 ≤ 2 := by
  have hbound :=
    (paid_calls_reserved (Transition.exec_run (initial 0) reviewing (by decide +kernel))).1 10
  exact ⟨by decide +kernel, hbound.2.2.2⟩

end Prism.ReviewWorker
