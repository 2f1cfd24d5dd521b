import Prism.Verification.Lifecycle.Trace
import Prism.Verification.Sync.Semantics
import Prism.Verification.Webhook.Semantics

/-! Deliveries along an execution: each is stored once and applied at most once. -/

namespace Prism.WebhookWorker

open World

/-! ## Events -/

/-- The call answered 202 to a delivery with this identifier. -/
def accepts (deliveryId : String) (e : Transition.Event World Action Outcome) : Bool :=
  match e.action with
  | .receive event _ _ _ => decide (event.deliveryId = deliveryId ∧ e.outcome = .answered 202)
  | _ => false

/-- The transaction committed the effect of the delivery: it held the unexpired lease of the
job, and the database it left has the effect on the one it found. -/
inductive Effective (did : UUID) (e : Transition.Event World Action Outcome) : Prop where
  | intro (c : Claim) (sid jid : UUID) (row : WebhookDelivery) (job : Job) :
      e.action = .webhookExecute c false sid jid → c.aggregateId = did →
      e.outcome = .committed → e.before.db.deliveries.get did = some row →
      Jobs.fence e.before.db.jobs e.before.db.now c false = some job →
      Effect row sid jid e.before.db (step e.action e.before).2.db → Effective did e

noncomputable instance (did : UUID) : DecidablePred (Effective did) :=
  Classical.decPred _

/-- The delivery a transaction inserted a sync run for, and the run. -/
def requests (e : Transition.Event World Action Outcome) : Option (UUID × UUID) :=
  match e.action with
  | .webhookExecute c _ sid _ =>
    if (e.before.db.syncRuns.get sid).isNone ∧
        ((step e.action e.before).2.db.syncRuns.get sid).isSome then
      some (c.aggregateId, sid)
    else none
  | _ => none

/-! ## Identifiers -/

def known (db : Db) (deliveryId : String) : Bool :=
  (Webhook.byDelivery db deliveryId).isSome

theorem known_iff {db : Db} {deliveryId : String} :
    known db deliveryId = true ↔
      ∃ did row, db.deliveries.get did = some row ∧ row.deliveryId = deliveryId := by
  rw [known, ← Bool.not_eq_false, Option.isSome_eq_false_iff, Option.isNone_iff_eq_none,
    Webhook.byDelivery_eq_none]
  simp only [ne_eq, not_forall, not_not, exists_prop]

/-- A delivery that is there after a step was there before, unless the step
received it. -/
theorem step_deliveries {a : Action} {w : World} {did : UUID} {row : WebhookDelivery}
    (hget : (step a w).2.db.deliveries.get did = some row) :
    (∃ old, w.db.deliveries.get did = some old ∧ SameDelivery old row) ∨
      w.db.deliveries.get did = none ∧ (step a w).1 = .answered 202 ∧
        known w.db row.deliveryId = false ∧ row.status = .pending ∧
        ∃ event stale jid, a = .receive event stale did jid ∧
          event.deliveryId = row.deliveryId := by
  cases hold : w.db.deliveries.get did with
  | some old =>
      obtain ⟨row', hget', hkept⟩ := step_kept (a := a) hold
      obtain rfl := Option.some.inj (hget.symm.trans hget')
      exact .inl ⟨old, rfl, hkept⟩
  | none =>
      rcases step_changes a w did with hsame | ⟨row', hget', hchange⟩
      · simp [hsame, hold] at hget
      · obtain rfl := Option.some.inj (hget.symm.trans hget')
        rw [hold] at hchange
        cases hchange with
        | received event stale jid repo hact hout hnew =>
            have hunknown : known w.db event.deliveryId = false := by simp [known, hnew]
            exact .inr ⟨rfl, hout, hunknown, rfl, event, stale, jid, hact, rfl⟩

/-- A call answered 202 makes its identifier known; nothing else does. -/
theorem known_step (a : Action) (w : World) (deliveryId : String) :
    (accepts deliveryId ⟨w, a, (step a w).1⟩ = true ∧ known w.db deliveryId = false ∧
        known (step a w).2.db deliveryId = true) ∨
      accepts deliveryId ⟨w, a, (step a w).1⟩ = false ∧
        known (step a w).2.db deliveryId = known w.db deliveryId := by
  cases haccepts : accepts deliveryId ⟨w, a, (step a w).1⟩ with
  | true =>
      left
      unfold accepts at haccepts
      split at haccepts
      · rename_i event stale did jid hact
        simp only at hact
        subst hact
        obtain ⟨rfl, hout⟩ := of_decide_eq_true haccepts
        rcases receive_step w event stale did jid with
          ⟨hne, -⟩ | ⟨-, hnew, -, repo, -, hput⟩
        · exact absurd hout hne
        · have hknown : known (step (.receive event stale did jid) w).2.db event.deliveryId = true :=
            known_iff.mpr ⟨did, Webhook.newDelivery w.db.now event repo,
              by rw [hput, Table.get_put_self], rfl⟩
          exact ⟨rfl, by simp [known, hnew], hknown⟩
      · contradiction
  | false =>
      right
      refine ⟨rfl, ?_⟩
      rw [Bool.eq_iff_iff, known_iff, known_iff]
      constructor
      · rintro ⟨did, row, hget, rfl⟩
        rcases step_deliveries hget with
          ⟨old, hold, hkept⟩ | ⟨-, hout, -, -, event, stale, jid, hact, heq⟩
        · exact ⟨did, old, hold, hkept.deliveryId.symm⟩
        · simp [accepts, hact, heq, ← hout] at haccepts
      · rintro ⟨did, row, hget, rfl⟩
        obtain ⟨row', hget', hkept⟩ := step_kept (a := a) hget
        exact ⟨did, row', hget', hkept.deliveryId⟩

/-! ## Effects -/

def processed (db : Db) (did : UUID) : Bool :=
  decide ((db.deliveries.get did).map (·.status) = some .processed)

/-- A delivery is processed by finishing its job without a code. -/
theorem closed_processed {now : Instant} {row : WebhookDelivery} {job job' : Job}
    {code : Option Code} (h : Jobs.finish now job code code.isSome (delayOf code) = .ok job') :
    (closed now row job' code).status = .processed ↔ code = none := by
  obtain ⟨-, -, hstate, -⟩ := Jobs.finish_eq_ok h
  cases code with
  | none =>
      simp only [Jobs.again, Option.isSome_none, Bool.false_and, Bool.false_eq_true,
        if_false] at hstate
      simp [closed, hstate]
  | some code =>
      simp only [closed, Option.isSome_some, if_true, reduceCtorEq, iff_false]
      split <;> simp

/-- A delivery whose job passes a fence is not settled yet. -/
theorem fence_open {w : World} (hsound : Lifecycle.Sound (Lifecycle.board w)) {c : Claim}
    (hc : c ∈ w.issued) (hkind : c.kind = .processWebhook) {expired : Bool} {job : Job}
    (hfence : Jobs.fence w.db.jobs w.db.now c expired = some job) {row : WebhookDelivery}
    (hrow : w.db.deliveries.get c.aggregateId = some row) : row.status.terminal = false := by
  obtain ⟨hget, hs, hk, hagg⟩ := Lifecycle.fence_granted hsound hc hfence
  have hstatus : Lifecycle.statusIn w.db job.kind job.aggregateId =
      some (Lifecycle.ofDelivery row.status) := by
    rw [hk, hkind, hagg]
    simp [Lifecycle.statusIn, hrow]
  have hfollows := (hsound.follows hget hstatus).terminal
  rw [hs, Lifecycle.terminal_ofDelivery] at hfollows
  exact hfollows

private theorem processed_of_open {db : Db} {did : UUID} {row : WebhookDelivery}
    (hrow : db.deliveries.get did = some row) (h : row.status.terminal = false) :
    processed db did = false := by
  simp only [processed, hrow, Option.map_some, Option.some.injEq, decide_eq_false_iff_not]
  intro hs
  simp [hs, DeliveryStatus.terminal] at h

/-- A committed effect leaves its delivery processed. -/
theorem effect_processed {db db' : Db} {c : Claim} {sid jid : UUID} {row : WebhookDelivery}
    {job : Job} (h : execute db c false sid jid = .ok db')
    (hrow : db.deliveries.get c.aggregateId = some row)
    (hjob : Jobs.fence db.jobs db.now c false = some job) (heffect : Effect row sid jid db db') :
    processed db' c.aggregateId = true := by
  rcases execute_cases h with ⟨-, hnone⟩ | ⟨row', code, targets, job', job'', hrow', hprepare, -, hend⟩
  · simp [hnone row hrow] at hjob
  obtain rfl := Option.some.inj (hrow.symm.trans hrow')
  rcases hend with ⟨hcode, -, rfl⟩ | ⟨rfl, code', db₁, happly, hfinish, rfl⟩
  · -- a delivery of a lost connection is canceled, and no run is inserted
    rcases prepare_cases hprepare with ⟨-, hpr⟩ | ⟨rfl, -⟩
    · exact absurd rfl (heffect.not_kept hpr)
    · contradiction
  · have hcode : code' = none := by
      cases apply_applied happly with
      | recovered hexp => contradiction
      | busy _ hpr => exact absurd rfl (heffect.not_kept hpr)
      | requested => rfl
      | suspended => rfl
    simp [processed, (closed_processed hfinish).mpr hcode]

/-- Committing the effect of a delivery makes it processed; nothing else does. -/
theorem processed_step {w : World} (hsound : Lifecycle.Sound (Lifecycle.board w)) (a : Action)
    (ha : World.allowed a w) (did : UUID) :
    (Effective did ⟨w, a, (step a w).1⟩ ∧ processed w.db did = false ∧
        processed (step a w).2.db did = true) ∨
      ¬Effective did ⟨w, a, (step a w).1⟩ ∧
        processed (step a w).2.db did = processed w.db did := by
  by_cases heffective : Effective did ⟨w, a, (step a w).1⟩
  · left
    obtain ⟨c, sid, jid, row, job, hact, rfl, hout, hrow, hjob, heffect⟩ := heffective
    simp only at hact hout hrow hjob heffect
    subst hact
    obtain ⟨hc, hkind⟩ := ha.1 c rfl
    have hopen := fence_open hsound hc (hkind _ rfl) hjob hrow
    refine ⟨⟨c, sid, jid, row, job, rfl, rfl, hout, hrow, hjob, heffect⟩,
      processed_of_open hrow hopen, ?_⟩
    simp only [step, World.commit] at hout heffect ⊢
    cases hbody : execute w.db c false sid jid with
    | error f => simp [hbody] at hout
    | ok db' =>
        simp only [hbody] at heffect ⊢
        exact effect_processed hbody hrow hjob heffect
  · right
    refine ⟨heffective, ?_⟩
    rcases step_changes a w did with hsame | ⟨row', hget', hchange⟩
    · rw [processed, hsame, processed]
    have hafter : processed (step a w).2.db did = decide (row'.status = .processed) := by
      simp [processed, hget']
    generalize hold : w.db.deliveries.get did = old at hchange
    rw [hafter]
    cases hchange with
    | received => simp [processed, hold, Webhook.newDelivery]
    | canceled c expired sid jid row job targets hact hagg hjob =>
        subst hact hagg
        obtain ⟨hc, hkind⟩ := ha.1 c rfl
        rw [processed_of_open hold (fence_open hsound hc (hkind _ rfl) hjob hold)]
        simp [canceled]
    | finished c expired sid jid row job job' targets code db₁ hact hagg hjob hprepare happly
        hfinish hout hdb =>
        subst hact hagg
        obtain ⟨hc, hkind⟩ := ha.1 c rfl
        rw [processed_of_open hold (fence_open hsound hc (hkind _ rfl) hjob hold),
          decide_eq_false_iff_not, closed_processed hfinish]
        rintro rfl
        have hcid : w.db.jobs.get c.id ≠ none := by simp [(Jobs.fence_eq_some.mp hjob).1]
        obtain ⟨rfl, heffect⟩ := applied_effect hprepare hcid happly hdb
        exact heffective ⟨c, sid, jid, row, job, rfl, rfl, hout, hold, hjob, heffect⟩

/-- Inserting a sync run is the effect of a delivery. -/
theorem requests_effective {a : Action} {w : World} {did sid : UUID}
    (h : requests ⟨w, a, (step a w).1⟩ = some (did, sid)) :
    Effective did ⟨w, a, (step a w).1⟩ := by
  unfold requests at h
  split at h
  · rename_i c expired sid' jid hact
    simp only at hact
    subst hact
    split at h
    · rename_i hnew
      obtain ⟨rfl, rfl⟩ := Prod.mk.inj (Option.some.inj h)
      have hne : (step (.webhookExecute c expired sid' jid) w).2.db.syncRuns ≠ w.db.syncRuns := by
        intro heq
        simp only at hnew
        rw [heq, Option.isNone_iff_eq_none] at hnew
        simp [hnew.1] at hnew
      cases hbody : execute w.db c expired sid' jid with
      | error f => simp [step, World.commit, hbody] at hne
      | ok db' =>
          simp only [step, World.commit, hbody] at hne
          rcases execute_cases hbody with
            ⟨rfl, -⟩ | ⟨row, code, targets, job, job', hrow, hprepare, hjob, hend⟩
          · exact absurd rfl hne
          rcases hend with ⟨-, -, rfl⟩ | ⟨rfl, code', db₁, happly, -, rfl⟩
          · exact absurd rfl hne
          have hcode : code' = none := by
            cases apply_applied happly with
            | recovered => exact absurd rfl hne
            | busy => exact absurd rfl hne
            | requested => rfl
            | suspended => rfl
          subst hcode
          have hcid : w.db.jobs.get c.id ≠ none := by simp [(Jobs.fence_eq_some.mp hjob).1]
          obtain ⟨rfl, heffect⟩ : expired = false ∧ Effect row sid' jid w.db { db₁ with
              jobs := db₁.jobs.put c.id job'
              deliveries := db₁.deliveries.put c.aggregateId (closed w.db.now row job' none) } :=
            applied_effect hprepare hcid happly rfl
          exact ⟨c, sid', jid, row, job, rfl, rfl, by simp [step, World.commit, hbody], hrow, hjob,
            by simpa [step, World.commit, hbody] using heffect⟩
    · contradiction
  · contradiction

/-! ## The invariant -/

/-- The trace accounts for the deliveries: one call answered 202 for each known
identifier, one effect for each processed delivery, and one for each system run. -/
structure Ingested (trace : Trace) (w : World) : Prop where
  unique : ∀ did did' row row', w.db.deliveries.get did = some row →
    w.db.deliveries.get did' = some row' → row.deliveryId = row'.deliveryId → did = did'
  accepted : ∀ deliveryId, trace.countP (accepts deliveryId) = (known w.db deliveryId).toNat
  applied : ∀ did, trace.countP (Effective did) = (processed w.db did).toNat
  requested : ∀ sid run, w.db.syncRuns.get sid = some run → run.actorType = .system →
    ∃ e ∈ trace, ∃ did, requests e = some (did, sid)

private theorem unique_step {w : World} {a : Action}
    (h : ∀ did did' row row', w.db.deliveries.get did = some row →
      w.db.deliveries.get did' = some row' → row.deliveryId = row'.deliveryId → did = did')
    {did did' : UUID} {row row' : WebhookDelivery}
    (hget : (step a w).2.db.deliveries.get did = some row)
    (hget' : (step a w).2.db.deliveries.get did' = some row')
    (heq : row.deliveryId = row'.deliveryId) : did = did' := by
  rcases step_deliveries hget with
    ⟨old, hold, hkept⟩ | ⟨-, -, hunknown, -, event, stale, jid, hact, -⟩ <;>
  rcases step_deliveries hget' with
    ⟨old', hold', hkept'⟩ | ⟨-, -, hunknown', -, event', stale', jid', hact', -⟩
  · exact h _ _ _ _ hold hold' (hkept.deliveryId.symm.trans (heq.trans hkept'.deliveryId))
  · have hknown : known w.db row'.deliveryId = true :=
      known_iff.mpr ⟨did, old, hold, hkept.deliveryId.symm.trans heq⟩
    simp [hknown] at hunknown'
  · have hknown : known w.db row.deliveryId = true :=
      known_iff.mpr ⟨did', old', hold', hkept'.deliveryId.symm.trans heq.symm⟩
    simp [hknown] at hunknown
  · rw [hact] at hact'
    exact (Action.receive.inj hact').2.2.1

private theorem requested_step {w : World} {a : Action} {sid : UUID} {run : PullRequestSyncRun}
    (hget : (step a w).2.db.syncRuns.get sid = some run) (hactor : run.actorType = .system) :
    (∃ old, w.db.syncRuns.get sid = some old ∧ old.actorType = .system) ∨
      ∃ did, requests ⟨w, a, (step a w).1⟩ = some (did, sid) := by
  rcases SyncWorker.step_changes a w sid with hsame | ⟨run', hget', hchange⟩
  · exact .inl ⟨run, hsame.symm.trans hget, hactor⟩
  · obtain rfl := Option.some.inj (hget.symm.trans hget')
    generalize hold : w.db.syncRuns.get sid = old at hchange
    cases hchange with
    | asked _ huser => simp [huser] at hactor
    | event _ c jid _ hact =>
        subst hact
        exact .inr ⟨c.aggregateId, by simp [requests, hold, hget]⟩
    | worked old _ hkept => exact .inl ⟨old, rfl, hkept.actor.symm.trans hactor⟩

theorem ingested_step {trace : Trace} {w : World}
    (hsound : Lifecycle.Sound (Lifecycle.board w)) (h : Ingested trace w) (a : Action)
    (ha : World.allowed a w) : Ingested (⟨w, a, (step a w).1⟩ :: trace) (step a w).2 := by
  refine ⟨fun _ _ _ _ => unique_step h.unique, ?_, ?_, ?_⟩
  · intro deliveryId
    have hcount := h.accepted deliveryId
    rw [List.countP_cons, hcount]
    rcases known_step a w deliveryId with ⟨haccepts, hbefore, hafter⟩ | ⟨haccepts, hsame⟩
    · simp [haccepts, hbefore, hafter]
    · simp [haccepts, hsame]
  · intro did
    have hcount := h.applied did
    rw [List.countP_cons, hcount]
    rcases processed_step hsound a ha did with ⟨heffect, hbefore, hafter⟩ | ⟨heffect, hsame⟩
    · simp [heffect, hbefore, hafter]
    · simp [heffect, hsame]
  · intro sid run hget hactor
    rcases requested_step hget hactor with ⟨old, hold, hold'⟩ | ⟨did, hrequests⟩
    · obtain ⟨e, he, did, hrequests⟩ := h.requested sid old hold hold'
      exact ⟨e, List.mem_cons_of_mem _ he, did, hrequests⟩
    · exact ⟨_, List.mem_cons_self, did, hrequests⟩

theorem ingested_initial (now : Instant) : Ingested [] (World.initial now) := by
  constructor <;> simp [known, processed, Webhook.byDelivery, World.initial, Db.empty, Table.find,
    Table.rows]

variable {now : Instant} {w : World} {trace : Trace}

theorem run_ingested (h : World.Run now trace w) : Ingested trace w := by
  have hboth := h.induct
    (fun trace w => Lifecycle.Sound (Lifecycle.board w) ∧ Ingested trace w)
    ⟨Lifecycle.sound_empty now, ingested_initial now⟩
    fun _ w a hw ha => ⟨Lifecycle.step_sound w a hw.1 ha, ingested_step hw.1 hw.2 a ha⟩
  exact hboth.2

/-! ## The contract -/

/-- What a call answers to another payload or event under a stored identifier. -/
structure Mismatched (w : World) (event : Event) (did jid : UUID) : Prop where
  seen : step (.receive event false did jid) w = (.rolledBack Webhook.deliveryMismatch, w)
  unseen : (step (.receive event true did jid) w).2 = w
  unmapped : Webhook.target w.db event = .ok none →
    (step (.receive event true did jid) w).1 = .answered 204
  mapped : Webhook.target w.db event ≠ .ok none →
    ∃ f, (step (.receive event true did jid) w).1 = .rolledBack f

/-- A delivery with another payload or event under a stored identifier is
rejected. One that does not see the stored row yet and belongs to no live
connection is answered 204; nothing is stored in any case. -/
theorem mismatch_rejected (h : Ingested trace w) {did₀ : UUID} {row : WebhookDelivery}
    (hrow : w.db.deliveries.get did₀ = some row) {event : Event}
    (hid : row.deliveryId = event.deliveryId)
    (hne : row.bodyDigest ≠ event.digest ∨ row.event ≠ event.event) (did jid : UUID) :
    Mismatched w event did jid := by
  have hstored : ∃ did', Webhook.byDelivery w.db event.deliveryId = some (did', row) := by
    cases hfind : Webhook.byDelivery w.db event.deliveryId with
    | none => exact absurd hid (Webhook.byDelivery_eq_none.mp hfind did₀ row hrow)
    | some found =>
        obtain ⟨did', row'⟩ := found
        obtain ⟨hget, hid'⟩ := Webhook.byDelivery_eq_some hfind
        obtain rfl := h.unique did₀ did' row row' hrow hget (hid.trans hid'.symm)
        obtain rfl := Option.some.inj (hrow.symm.trans hget)
        exact ⟨did₀, rfl⟩
  obtain ⟨did', hfind⟩ := hstored
  have hmismatch : Webhook.duplicate event row w.db = .error Webhook.deliveryMismatch :=
    if_pos hne
  have hstep : step (.receive event true did jid) w =
      match Webhook.target w.db event with
      | .error f => (.rolledBack f, w)
      | .ok none => (.answered 204, w)
      | .ok (some _) => (.rolledBack Webhook.deliveryMismatch, w) := by
    simp only [step, answer, Webhook.receive, if_true]
    cases Webhook.target w.db event with
    | error f => rfl
    | ok repo =>
        cases repo with
        | none => rfl
        | some repo => simp [bind, Except.bind, hfind, hmismatch]
  constructor
  · simp [step, answer, Webhook.receive, hfind, hmismatch]
  · rw [hstep]
    split <;> rfl
  · intro htarget
    rw [hstep, htarget]
  · intro htarget
    rw [hstep]
    split
    · exact ⟨_, rfl⟩
    · contradiction
    · exact ⟨_, rfl⟩

/-- Exactly one call was answered 202 for a stored identifier, the one that
stored it. -/
theorem accepted_once (h : World.Run now trace w) (deliveryId : String) :
    trace.countP (accepts deliveryId) ≤ 1 ∧
      (known w.db deliveryId = true ↔ ∃ e ∈ trace, accepts deliveryId e = true) := by
  have hcount := (run_ingested h).accepted deliveryId
  rw [← List.countP_pos_iff, hcount]
  refine ⟨Bool.toNat_le _, ?_⟩
  cases known w.db deliveryId <;> simp

theorem accepted_inserts (h : World.Run now trace w) {deliveryId : String}
    {e : Transition.Event World Action Outcome} (he : e ∈ trace)
    (haccepts : accepts deliveryId e = true) :
    known e.before.db deliveryId = false ∧
      known (step e.action e.before).2.db deliveryId = true := by
  obtain ⟨-, -, hout⟩ := h.passed he
  have hevent : (⟨e.before, e.action, (step e.action e.before).1⟩ :
      Transition.Event World Action Outcome) = e := by rw [← hout]
  rcases known_step e.action e.before deliveryId with ⟨-, hbefore, hafter⟩ | ⟨hno, -⟩
  · exact ⟨hbefore, hafter⟩
  · rw [hevent, haccepts] at hno
    contradiction

/-- A delivery is processed exactly when a committed transaction applied its
effect, and none is applied twice. -/
theorem applied_once (h : World.Run now trace w) (did : UUID) :
    trace.countP (Effective did) ≤ 1 ∧
      (processed w.db did = true ↔ ∃ e ∈ trace, Effective did e) := by
  have hcount := (run_ingested h).applied did
  constructor
  · rw [hcount]
    exact Bool.toNat_le _
  · have hpos := List.countP_pos_iff (p := fun e => decide (Effective did e)) (l := trace)
    simp only [decide_eq_true_eq] at hpos
    rw [← hpos, hcount]
    cases processed w.db did <;> simp

theorem requested_once (h : World.Run now trace w) (did : UUID) :
    trace.countP (fun e => decide ((requests e).map Prod.fst = some did)) ≤ 1 := by
  refine le_trans (List.countP_mono_left ?_) (applied_once h did).1
  intro e he hrequests
  obtain ⟨-, -, hout⟩ := h.passed he
  have hevent : (⟨e.before, e.action, (step e.action e.before).1⟩ :
      Transition.Event World Action Outcome) = e := by rw [← hout]
  obtain ⟨⟨did', sid⟩, hsome, rfl⟩ := Option.map_eq_some_iff.mp (of_decide_eq_true hrequests)
  rw [← hevent] at hsome
  rw [decide_eq_true_eq, ← hevent]
  exact requests_effective hsome

/-- What holds of the deliveries in every reachable state. -/
structure Delivered (trace : Trace) (w : World) : Prop where
  rows : ∀ did did' row row', w.db.deliveries.get did = some row →
    w.db.deliveries.get did' = some row' → row.deliveryId = row'.deliveryId → did = did'
  jobs : ∀ jid jid' job job' row row', w.db.jobs.get jid = some job →
    w.db.jobs.get jid' = some job' → job.kind = .processWebhook → job'.kind = .processWebhook →
    w.db.deliveries.get job.aggregateId = some row →
    w.db.deliveries.get job'.aggregateId = some row' →
    row.deliveryId = row'.deliveryId → jid = jid'
  accepted : ∀ deliveryId, trace.countP (accepts deliveryId) ≤ 1
  stored : ∀ deliveryId,
    known w.db deliveryId = true ↔ ∃ e ∈ trace, accepts deliveryId e = true
  inserted : ∀ deliveryId, ∀ e ∈ trace, accepts deliveryId e = true →
    known e.before.db deliveryId = false ∧
      known (step e.action e.before).2.db deliveryId = true
  mismatched : ∀ event did₀ row, w.db.deliveries.get did₀ = some row →
    row.deliveryId = event.deliveryId → (row.bodyDigest ≠ event.digest ∨ row.event ≠ event.event) →
    ∀ did jid, Mismatched w event did jid
  synced : ∀ did, trace.countP (fun e => decide ((requests e).map Prod.fst = some did)) ≤ 1
  requested : ∀ sid run, w.db.syncRuns.get sid = some run → run.actorType = .system →
    ∃ e ∈ trace, ∃ did, requests e = some (did, sid)
  applied : ∀ did, trace.countP (Effective did) ≤ 1
  processed : ∀ did, processed w.db did = true ↔ ∃ e ∈ trace, Effective did e

/-- In every reachable state a delivery identifier has one row and one job at
most and was accepted by one call, the one that stored it; a different delivery
under it is stored by none; and a delivery is processed exactly when a committed
transaction left its effect (its connections suspended, or its one system run
inserted), which happens once. -/
theorem delivered_once (h : World.Run now trace w) : Delivered trace w := by
  have hingested := run_ingested h
  refine
    { rows := hingested.unique
      jobs := ?_
      accepted := fun deliveryId => (accepted_once h deliveryId).1
      stored := fun deliveryId => (accepted_once h deliveryId).2
      inserted := fun _ _ he haccepts => accepted_inserts h he haccepts
      mismatched := ?_
      synced := requested_once h
      requested := hingested.requested
      applied := fun did => (applied_once h did).1
      processed := fun did => (applied_once h did).2 }
  · intro jid jid' job job' row row' hjob hjob' hkind hkind' hrow hrow' heq
    have hagg := hingested.unique _ _ row row' hrow hrow' heq
    exact (Lifecycle.run_sound h).unique jid jid' job job' hjob hjob'
      (hkind.trans hkind'.symm) hagg
  · intro event did₀ row hrow hid hne did jid
    exact mismatch_rejected hingested hrow hid hne did jid

/-! ## An execution -/

def opened (deliveryId : String) (number : ℕ) : Event :=
  ⟨deliveryId, .pullRequest, "opened", 9, some 7, some number, [], "digest"⟩

def deliveryClaim (jid did : UUID) (generation : ℕ) : Claim :=
  ⟨jid, did, some 1, .processWebhook, generation, "second"⟩

/-- The first synchronization is done, and a delivery is received twice and applied. -/
def delivering : List Action :=
  Lifecycle.syncing ++ [
    .syncComplete (Lifecycle.syncClaim 1 "first") id ⟨[], none, false, 5, none, false⟩ false,
    .receive (opened "one" 1) false 20 21, .receive (opened "one" 1) true 22 23,
    .claim "second" [.processWebhook] [], .webhookExecute (deliveryClaim 21 20 1) false 24 25]

theorem delivered_once_delivering :
    processed (Lifecycle.reach delivering).db 20 = true ∧
      (Transition.events step (World.initial 0) delivering).countP (Effective 20) = 1 := by
  have hprocessed : processed (Lifecycle.reach delivering).db 20 = true := by decide +kernel
  have hdelivered := delivered_once (Transition.exec_run (initial 0) delivering (by decide +kernel))
  obtain ⟨e, he, heffect⟩ := (hdelivered.processed 20).mp hprocessed
  refine ⟨hprocessed, le_antisymm (hdelivered.applied 20) (List.countP_pos_iff.mpr ⟨e, he, ?_⟩)⟩
  exact decide_eq_true heffect

/-- A call that did not see the stored row yet answers 204 to another payload whose
repository is not connected. -/
theorem stale_unmapped : ∃ trace w, World.Run 0 trace w ∧ ∃ row event,
    w.db.deliveries.get 20 = some row ∧ row.deliveryId = event.deliveryId ∧
      row.bodyDigest ≠ event.digest ∧
      step (.receive event true 30 31) w = (.answered 204, w) := by
  have hrun : World.Run 0 _ (Lifecycle.reach delivering) :=
    Transition.exec_run (initial 0) delivering (by decide +kernel)
  have hstored : ((Lifecycle.reach delivering).db.deliveries.get 20).map (fun row =>
      (row.deliveryId, row.bodyDigest)) = some ("one", "digest") := by decide +kernel
  have htarget : Webhook.target (Lifecycle.reach delivering).db
      { opened "one" 1 with repositoryId := some 8, digest := "other" } = .ok none := by
    decide +kernel
  obtain ⟨row, hrow, hvalues⟩ := Option.map_eq_some_iff.mp hstored
  obtain ⟨hid, hdigest⟩ := Prod.mk.inj hvalues
  refine ⟨_, _, hrun, row, { opened "one" 1 with repositoryId := some 8, digest := "other" },
    hrow, hid, ?_, ?_⟩
  · rw [hdigest]
    decide
  · have hstale : Webhook.receive (Lifecycle.reach delivering).db
        { opened "one" 1 with repositoryId := some 8, digest := "other" } true 30 31 =
          .ok (204, (Lifecycle.reach delivering).db) := by
      simp only [Webhook.receive, if_true, htarget, bind, Except.bind]
    exact congrArg (fun body => answer (Lifecycle.reach delivering) body) hstale

end Prism.WebhookWorker
