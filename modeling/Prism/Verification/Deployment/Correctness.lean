import Prism.Verification.Deployment.Equations

/-! What one execution does, whatever Docker does and wherever it fails. -/

namespace Prism.Deployment

open Procedure

/-! ## Starts in a log -/

/-- Every start of a log is one that the calls before it allow. -/
def EachStart (p : String → List Call → Prop) (log : List Call) : Prop :=
  ∀ newer x older, log = newer ++ .start x :: older → p x older

/-- The last head read since the migrations is the target of the image. -/
def Guarded (x : String) (older : List Call) : Prop :=
  ∃ recent i v rest o, older = recent ++ .schema i v :: rest ∧ (∀ y, .migrate y ∉ recent) ∧
    .schema x o ∈ older ∧ v.current = o.target

/-- After a failure: the image ran before, and the head is the one read before the
migration and the target of the image. -/
def Restores (x : String) (older : List Call) : Prop :=
  .failed ∈ older → ∃ after first i y b v o newer oldest, older = after ++ .failed :: first ∧
    .runningImage i (some x) ∈ first ∧ first = newer ++ .migrate y :: oldest ∧
    .schema y b ∈ oldest ∧ .schema y v ∈ after ∧ .schema x o ∈ after ∧
    v.current = b.current ∧ o.target = b.current

theorem eachStart_nil {p : String → List Call → Prop} : EachStart p [] := by
  intro newer x older h
  simp at h

theorem eachStart_cons {p : String → List Call → Prop} {c : Call} {log : List Call}
    (h : EachStart p log) (hc : ∀ x, c = .start x → p x log) : EachStart p (c :: log) := by
  intro newer x older heq
  cases newer with
  | nil =>
      obtain ⟨rfl, rfl⟩ := List.cons.inj heq
      exact hc x rfl
  | cons d newer => exact h newer x older (List.cons.inj heq).2

/-! ## The rollout -/

section Conditions

variable (files : Files) (req : Request)

/-- The schema was read before a migration that was run. -/
def Migrated (b : Schema) (log : List Call) : Prop :=
  ∃ newer oldest, log = newer ++ .migrate req.image :: oldest ∧ .schema req.image b ∈ oldest

/-- The attempt that is recorded. -/
structure Recorded (m : Machine) : Prop where
  record : ∃ r, m.record = some r ∧ r.sequence = req.sequence
  attempt : ∃ r, m.files.attempt = some r ∧ r.sequence = req.sequence

/-- Throughout the rollout, also where it raises. -/
structure Rolling (m : Machine) : Prop where
  recorded : Recorded req m
  current : m.files.current = files.current
  guarded : EachStart Guarded m.log
  failed : .failed ∉ m.log
  published : ∀ r, .published r ∉ m.log
  previous : ∀ p, m.previous = some p → ∃ i, .runningImage i (some p) ∈ m.log
  migrated : m.swapped = true → ∃ b, m.before = some b ∧ Migrated req b m.log

/-- The service runs and its record is published. -/
structure Done (m : Machine) : Prop where
  recorded : Recorded req m
  guarded : EachStart Guarded m.log
  failed : .failed ∉ m.log
  published : ∃ r, m.record = some r ∧ r.status = .success ∧ m.files.current = some r ∧
    ∀ r', .published r' ∈ m.log ↔ r' = r

/-- The rollout raised. -/
structure Failed (m : Machine) : Prop where
  recorded : Recorded req m
  current : m.files.current = files.current
  guarded : EachStart Guarded m.log
  restores : EachStart Restores m.log
  published : ∀ r, .published r ∉ m.log
  status : m.record.map (·.status) = some .failed

end Conditions

section Rollout

variable {cfg : Config} {env : Environment} {files : Files} {req : Request} {m : Machine}

theorem rolling_blind : Blind (Rolling files req) :=
  fun _ _ h => ⟨⟨h.recorded.record, h.recorded.attempt⟩, h.current, h.guarded, h.failed,
    h.published, h.previous, h.migrated⟩

theorem failed_blind : Blind (Failed files req) :=
  fun _ _ h => ⟨⟨h.recorded.record, h.recorded.attempt⟩, h.current, h.guarded, h.restores,
    h.published, h.status⟩

/-- Calls that start nothing and do not end the rollout. -/
def Call.Harmless (c : Call) : Prop :=
  (∀ x, c ≠ .start x) ∧ c ≠ .failed ∧ ∀ r, c ≠ .published r

theorem Migrated.later {b : Schema} {log : List Call} (h : Migrated req b log) (c : Call) :
    Migrated req b (c :: log) := by
  obtain ⟨newer, oldest, rfl, hb⟩ := h
  exact ⟨c :: newer, oldest, rfl, hb⟩

theorem Rolling.called (h : Rolling files req m) {c : Call} (hfailed : c ≠ .failed)
    (hpublished : ∀ r, c ≠ .published r) (hstart : ∀ x, c = .start x → Guarded x m.log) :
    Rolling files req (m.noted c) where
  recorded := ⟨h.recorded.record, h.recorded.attempt⟩
  current := h.current
  guarded := eachStart_cons h.guarded hstart
  failed hmem := by
    rcases List.mem_cons.mp hmem with heq | hmem
    · exact hfailed heq.symm
    · exact h.failed hmem
  published r hmem := by
    rcases List.mem_cons.mp hmem with heq | hmem
    · exact hpublished r heq.symm
    · exact h.published r hmem
  previous p hp := by
    obtain ⟨i, hi⟩ := h.previous p hp
    exact ⟨i, List.mem_cons_of_mem _ hi⟩
  migrated hswapped := by
    obtain ⟨b, hb, hmigrated⟩ := h.migrated hswapped
    exact ⟨b, hb, hmigrated.later c⟩

theorem Rolling.noted (h : Rolling files req m) {c : Call} (hc : c.Harmless) :
    Rolling files req (m.noted c) :=
  h.called hc.2.1 hc.2.2 fun x heq => (hc.1 x heq).elim

theorem Rolling.amended (h : Rolling files req m) {f : Record → Record}
    (hf : ∀ r, (f r).sequence = r.sequence) :
    Rolling files req { m with record := m.record.map f } where
  recorded := by
    obtain ⟨r, hr, hsequence⟩ := h.recorded.record
    exact ⟨⟨f r, by simp [hr], (hf r).trans hsequence⟩, h.recorded.attempt⟩
  current := h.current
  guarded := h.guarded
  failed := h.failed
  published := h.published
  previous := h.previous
  migrated := h.migrated

/-- Before the service is touched. -/
structure Preparing (files : Files) (req : Request) (m : Machine) : Prop where
  rolling : Rolling files req m
  unswapped : m.swapped = false

theorem preparing_blind : Blind (Preparing files req) :=
  fun _ _ h => ⟨rolling_blind _ _ h.rolling, h.unswapped⟩

theorem Preparing.noted (h : Preparing files req m) {c : Call} (hc : c.Harmless) :
    Preparing files req (m.noted c) :=
  ⟨h.rolling.noted hc, h.unswapped⟩

/-- The schema before the migration was read. -/
structure Surveyed (files : Files) (req : Request) (b : Schema) (m : Machine) : Prop where
  preparing : Preparing files req m
  before : m.before = some b
  read : .schema req.image b ∈ m.log

/-- The migration was run. -/
structure Upgraded (files : Files) (req : Request) (b : Schema) (m : Machine) : Prop where
  preparing : Preparing files req m
  before : m.before = some b
  migrated : Migrated req b m.log

theorem upgraded_blind {b : Schema} : Blind (Upgraded files req b) :=
  fun _ _ h => ⟨preparing_blind _ _ h.preparing, h.before, h.migrated⟩

theorem Surveyed.upgraded {b : Schema} (h : Surveyed files req b m) :
    Upgraded files req b (m.noted (.migrate req.image)) where
  preparing := h.preparing.noted ⟨by simp, by simp, by simp⟩
  before := h.before
  migrated := ⟨[], m.log, rfl, h.read⟩

/-- The image may be started. -/
structure Cleared (files : Files) (req : Request) (m : Machine) : Prop where
  rolling : Rolling files req m
  guarded : Guarded req.image m.log

theorem saveCurrent_meets :
    Meets (fun m => Rolling files req m ∧ ∃ r, m.record = some r ∧ r.status = .success)
      (saveCurrent env) (fun _ => Done req) fun _ => Rolling files req := by
  refine Meets.bind (R := fun record m => Rolling files req m ∧ m.record = record ∧
    ∃ r, record = some r ∧ r.status = .success) (meets_read fun m hm => ?_) fun record => ?_
  · exact ⟨hm.1, rfl, hm.2⟩
  · cases record with
    | none => exact meets_raise fun m hm => hm.1
    | some record =>
        refine Meets.bind (R := fun _ m => Recorded req m ∧ EachStart Guarded m.log ∧
          .failed ∉ m.log ∧ (∀ r, .published r ∉ m.log) ∧ m.record = some record ∧
          record.status = .success ∧ m.files.current = some record)
          (saveState_meets ?_ ?_) fun _ => note_meets ?_
        · rintro m writes ⟨hm, hrecord, r, hr, hstatus⟩
          obtain rfl := Option.some.inj hr
          exact ⟨⟨hm.recorded.record, hm.recorded.attempt⟩, hm.guarded, hm.failed, hm.published,
            hrecord, hstatus, rfl⟩
        · rintro m writes ⟨hm, -⟩
          exact ⟨⟨hm.recorded.record, hm.recorded.attempt⟩, hm.current, hm.guarded, hm.failed,
            hm.published, hm.previous, hm.migrated⟩
        · rintro m ⟨hrecorded, hguarded, hfailed, hpublished, hrecord, hstatus, hcurrent⟩
          refine ⟨⟨hrecorded.record, hrecorded.attempt⟩, eachStart_cons hguarded (by simp), ?_,
            record, hrecord, hstatus, hcurrent, fun r' => ?_⟩
          · simpa [Machine.noted] using hfailed
          · simp [Machine.noted, hpublished r']

theorem rollout_meets :
    Meets (Preparing files req) (rollout cfg env req) (fun _ => Done req)
      fun _ => Rolling files req := by
  have hrolling : ∀ (e : Exception) m, Preparing files req m → Rolling files req m :=
    fun _ _ h => h.rolling
  refine Meets.andThen (pull_meets preparing_blind fun m hm => hm.noted ?_) hrolling fun _ => ?_
  · exact ⟨by simp, by simp, by simp⟩
  refine Meets.andThen (preflight_meets preparing_blind fun m hm => hm.noted ?_) hrolling
    fun _ => ?_
  · exact ⟨by simp, by simp, by simp⟩
  refine Meets.andThen (runningImage_meets (Q := fun found m => Preparing files req m ∧
    .runningImage req.image found ∈ m.log) preparing_blind fun m found hm => ?_) hrolling
    fun previous => ?_
  · exact ⟨hm.noted ⟨by simp, by simp, by simp⟩, List.mem_cons_self⟩
  refine Meets.bind (R := fun _ => Preparing files req) (meets_write ?_) fun _ => ?_
  · rintro m ⟨hm, hfound⟩
    refine ⟨⟨⟨hm.rolling.recorded.record, hm.rolling.recorded.attempt⟩, hm.rolling.current,
      hm.rolling.guarded, hm.rolling.failed, hm.rolling.published, ?_, hm.rolling.migrated⟩,
      hm.unswapped⟩
    rintro p rfl
    exact ⟨req.image, hfound⟩
  refine Meets.andThen (schema_meets (Q := fun b m => Preparing files req m ∧
    .schema req.image b ∈ m.log) preparing_blind fun m b hm => ?_) hrolling fun before => ?_
  · exact ⟨hm.noted ⟨by simp, by simp, by simp⟩, List.mem_cons_self⟩
  refine Meets.bind (R := fun _ => Surveyed files req before) (meets_write ?_) fun _ => ?_
  · rintro m ⟨hm, hread⟩
    refine ⟨⟨⟨⟨hm.rolling.recorded.record, hm.rolling.recorded.attempt⟩, hm.rolling.current,
      hm.rolling.guarded, hm.rolling.failed, hm.rolling.published, hm.rolling.previous, ?_⟩,
      hm.unswapped⟩, rfl, hread⟩
    intro hswapped
    exact nomatch hm.unswapped.symm.trans hswapped
  refine Meets.bind (R := fun _ => Surveyed files req before)
    (meets_give (fun _ _ hm => hm) fun _ _ hm => hm.preparing.rolling) fun _ => ?_
  refine Meets.bind (amend_meets (Q := Surveyed files req before) fun m hm => ?_) fun _ => ?_
  · exact ⟨⟨hm.preparing.rolling.amended fun _ => rfl, hm.preparing.unswapped⟩, hm.before, hm.read⟩
  refine Meets.andThen (migrate_meets upgraded_blind fun m hm => hm.upgraded)
    (fun _ _ hm => hm.preparing.rolling) fun _ => ?_
  refine Meets.andThen (schema_meets (Q := fun a m => Upgraded files req before m ∧
    ∃ older, m.log = .schema req.image a :: older ∧ .schema req.image before ∈ older)
    upgraded_blind fun m a hm => ?_) (fun _ _ hm => hm.preparing.rolling) fun after => ?_
  · obtain ⟨newer, oldest, hlog, hread⟩ := hm.migrated
    refine ⟨⟨hm.preparing.noted ⟨by simp, by simp, by simp⟩, hm.before, hm.migrated.later _⟩,
      m.log, rfl, ?_⟩
    rw [hlog]
    exact List.mem_append_right _ (List.mem_cons_of_mem _ hread)
  refine Meets.bind (R := fun _ m => (Upgraded files req before m ∧
    ∃ older, m.log = .schema req.image after :: older ∧ .schema req.image before ∈ older) ∧
    after.current = before.target)
    (meets_assert (fun m heq hm => ⟨hm, heq⟩) fun m _ hm => hm.1.preparing.rolling) fun _ => ?_
  refine Meets.bind (amend_meets (Q := fun m => (Upgraded files req before m ∧
    ∃ older, m.log = .schema req.image after :: older ∧ .schema req.image before ∈ older) ∧
    after.current = before.target) fun m hm => ?_) fun _ => ?_
  · obtain ⟨⟨hupgraded, hlog⟩, heq⟩ := hm
    exact ⟨⟨⟨⟨hupgraded.preparing.rolling.amended fun _ => rfl, hupgraded.preparing.unswapped⟩,
      hupgraded.before, hupgraded.migrated⟩, hlog⟩, heq⟩
  refine Meets.bind (R := fun _ => Cleared files req) (meets_write ?_) fun _ => ?_
  · rintro m ⟨⟨hm, older, hlog, hread⟩, heq⟩
    refine ⟨⟨⟨hm.preparing.rolling.recorded.record, hm.preparing.rolling.recorded.attempt⟩,
      hm.preparing.rolling.current, hm.preparing.rolling.guarded, hm.preparing.rolling.failed,
      hm.preparing.rolling.published, hm.preparing.rolling.previous,
      fun _ => ⟨before, hm.before, hm.migrated⟩⟩, ?_⟩
    exact ⟨[], req.image, after, older, before, hlog, by simp,
      hlog ▸ List.mem_cons_of_mem _ hread, heq⟩
  refine Meets.bind (start_meets rolling_blind fun m hm => ?_) fun _ => ?_
  · refine hm.rolling.called (by simp) (by simp) fun x heq => ?_
    obtain rfl := Call.start.inj heq
    exact hm.guarded
  refine Meets.bind (healthy_meets rolling_blind fun m hm => hm.noted ?_) fun _ => ?_
  · exact ⟨by simp, by simp, by simp⟩
  refine Meets.bind (amend_meets (Q := fun m => Rolling files req m ∧
    ∃ r, m.record = some r ∧ r.status = .success) fun m hm => ?_) fun _ => saveCurrent_meets
  obtain ⟨r, hr, -⟩ := hm.recorded.record
  exact ⟨hm.amended fun _ => rfl, _, by rw [hr]; rfl, rfl⟩

end Rollout

/-! ## The recovery -/

section Recovery

variable {cfg : Config} {env : Environment} {files : Files} {req : Request} {m : Machine}

theorem Failed.called (h : Failed files req m) {c : Call} (hpublished : ∀ r, c ≠ .published r)
    (hguarded : ∀ x, c = .start x → Guarded x m.log)
    (hrestores : ∀ x, c = .start x → Restores x m.log) : Failed files req (m.noted c) where
  recorded := ⟨h.recorded.record, h.recorded.attempt⟩
  current := h.current
  guarded := eachStart_cons h.guarded hguarded
  restores := eachStart_cons h.restores hrestores
  published r hmem := by
    rcases List.mem_cons.mp hmem with heq | hmem
    · exact hpublished r heq.symm
    · exact h.published r hmem
  status := h.status

theorem Failed.noted (h : Failed files req m) {c : Call} (hc : c.Harmless) :
    Failed files req (m.noted c) :=
  h.called hc.2.2 (fun x heq => (hc.1 x heq).elim) fun x heq => (hc.1 x heq).elim

theorem Failed.amended (h : Failed files req m) {f : Record → Record}
    (hsequence : ∀ r, (f r).sequence = r.sequence) (hstatus : ∀ r, (f r).status = r.status) :
    Failed files req { m with record := m.record.map f } where
  recorded := by
    obtain ⟨r, hr, hr'⟩ := h.recorded.record
    exact ⟨⟨f r, by simp [hr], (hsequence r).trans hr'⟩, h.recorded.attempt⟩
  current := h.current
  guarded := h.guarded
  restores := h.restores
  published := h.published
  status := by
    rw [Option.map_map, ← h.status]
    exact congrFun (congrArg Option.map (funext hstatus)) m.record

/-- No start of the rollout is a restoration. -/
theorem Rolling.failing (h : Rolling files req m) :
    Failed files req
      (Machine.noted { m with record := m.record.map fun r => { r with status := .failed } }
        .failed) where
  recorded := by
    obtain ⟨r, hr, hsequence⟩ := h.recorded.record
    exact ⟨⟨{ r with status := .failed }, by simp [Machine.noted, hr], hsequence⟩,
      h.recorded.attempt⟩
  current := h.current
  guarded := eachStart_cons h.guarded (by simp)
  restores := by
    refine eachStart_cons ?_ (by simp)
    rintro newer x older heq hfailed
    refine (h.failed ?_).elim
    exact heq ▸ List.mem_append_right _ (List.mem_cons_of_mem _ hfailed)
  published r hmem := by
    rcases List.mem_cons.mp hmem with heq | hmem
    · exact nomatch heq
    · exact h.published r hmem
  status := by
    obtain ⟨r, hr, -⟩ := h.recorded.record
    simp [Machine.noted, hr]

/-- The calls before the failure, when the service was touched and ran an image before. -/
structure Ready (req : Request) (previous : String) (b : Schema) (first : List Call) : Prop where
  migrated : Migrated req b first
  running : ∃ i, .runningImage i (some previous) ∈ first

/-- After the failure some calls were made, which started nothing. -/
structure Retrying (files : Files) (req : Request) (previous : String) (after : List Call)
    (m : Machine) : Prop where
  failed : Failed files req m
  ready : ∃ b first, m.before = some b ∧ m.log = after ++ .failed :: first ∧
    Ready req previous b first

theorem retrying_blind {previous : String} {after : List Call} :
    Blind (Retrying files req previous after) :=
  fun _ _ h => ⟨failed_blind _ _ h.failed, h.ready⟩

theorem Retrying.noted {previous : String} {after : List Call}
    (h : Retrying files req previous after m) {c : Call} (hc : c.Harmless) :
    Retrying files req previous (c :: after) (m.noted c) := by
  obtain ⟨b, first, hb, hlog, hready⟩ := h.ready
  exact ⟨h.failed.noted hc, b, first, hb, by rw [Machine.noted, hlog, List.cons_append], hready⟩

/-- Two reads of the heads that agree with the one before the migration allow the start. -/
theorem Retrying.clears {previous : String} {v o b : Schema}
    (h : Retrying files req previous [.schema previous o, .schema req.image v] m)
    (hb : m.before = some b) (hv : v.current = b.current) (ho : o.target = b.current) :
    Guarded previous m.log ∧ Restores previous m.log := by
  obtain ⟨b', first, hb', hlog, ⟨newer, oldest, hfirst, hread⟩, i, hrunning⟩ := h.ready
  obtain rfl := Option.some.inj (hb'.symm.trans hb)
  constructor
  · exact ⟨[.schema previous o], req.image, v, .failed :: first, o, hlog, by simp,
      hlog ▸ List.mem_cons_self, hv.trans ho.symm⟩
  · intro _
    exact ⟨_, first, i, req.image, b', v, o, newer, oldest, hlog, hrunning, hfirst, hread,
      by simp, by simp, hv, ho⟩

theorem restore_meets {previous : String} :
    Meets (Retrying files req previous []) (restore cfg env req previous)
      (fun _ => Failed files req) fun _ => Failed files req := by
  refine Meets.andThen (schema_meets (Q := fun v => Retrying files req previous
    [.schema req.image v]) retrying_blind fun m v hm => ?_) (fun _ _ hm => hm.failed) fun v => ?_
  · exact hm.noted ⟨by simp, by simp, by simp⟩
  refine Meets.andThen (schema_meets (Q := fun o => Retrying files req previous
    [.schema previous o, .schema req.image v]) retrying_blind fun m o hm => ?_)
    (fun _ _ hm => hm.failed) fun o => ?_
  · exact hm.noted ⟨by simp, by simp, by simp⟩
  refine Meets.bind (R := fun before m => Retrying files req previous
    [.schema previous o, .schema req.image v] m ∧ m.before = before)
    (meets_read fun m hm => ⟨hm, rfl⟩) fun before => ?_
  cases before with
  | none => exact meets_raise fun m hm => hm.1.failed
  | some b =>
      by_cases hheads : v.current ≠ b.current ∨ o.target ≠ b.current
      · simp only [if_pos hheads]
        exact amend_meets fun m hm => hm.1.failed.amended (fun _ => rfl) fun _ => rfl
      · simp only [if_neg hheads]
        obtain ⟨hv, ho⟩ := not_or.mp hheads
        refine Meets.bind (start_meets failed_blind fun m hm => ?_) fun _ => ?_
        · obtain ⟨hguarded, hrestores⟩ := hm.1.clears hm.2 (not_not.mp hv) (not_not.mp ho)
          refine hm.1.failed.called (by simp) (fun x heq => ?_) fun x heq => ?_
          · obtain rfl := Call.start.inj heq
            exact hguarded
          · obtain rfl := Call.start.inj heq
            exact hrestores
        refine Meets.bind (healthy_meets failed_blind fun m hm => hm.noted ?_) fun _ => ?_
        · exact ⟨by simp, by simp, by simp⟩
        · exact amend_meets fun m hm => hm.amended (fun _ => rfl) fun _ => rfl

theorem recover_meets :
    Meets (Rolling files req) (recover cfg env req) (fun _ => Failed files req)
      fun _ => Failed files req := by
  -- The state after the first two statements, with what the variables then say of the log.
  refine Meets.bind (R := fun _ m => ∃ m₀, Rolling files req m₀ ∧
    m = { m₀ with record := m₀.record.map fun r => { r with status := .failed } })
    (meets_write fun m hm => ⟨m, hm, rfl⟩) fun _ => ?_
  refine Meets.bind (note_meets (Q := fun _ m => Failed files req m ∧ ∀ p, m.swapped = true →
    m.previous = some p → Retrying files req p [] m) ?_) fun _ => ?_
  · rintro _ ⟨m, hm, rfl⟩
    refine ⟨hm.failing, fun p hswapped hprevious => ⟨hm.failing, ?_⟩⟩
    obtain ⟨b, hb, hmigrated⟩ := hm.migrated hswapped
    exact ⟨b, m.log, hb, rfl, hmigrated, hm.previous p hprevious⟩
  refine Meets.bind (R := fun swapped m => Failed files req m ∧ ∀ p, swapped = true →
    m.previous = some p → Retrying files req p [] m) (meets_read fun m hm => hm) fun swapped => ?_
  refine Meets.bind (R := fun previous m => Failed files req m ∧ ∀ p, swapped = true →
    previous = some p → Retrying files req p [] m) (meets_read fun m hm => hm) fun previous => ?_
  match swapped, previous with
  | true, some p =>
      by_cases hp : p ≠ req.image
      · simp only [if_pos hp]
        refine Meets.attempt (restore_meets.before fun m hm => hm.2 p trivial rfl) fun _ => ?_
        exact amend_meets fun m hm => hm.amended (fun _ => rfl) fun _ => rfl
      · simp only [if_neg hp]
        exact meets_pure fun m hm => hm.1
  | true, none => exact meets_pure fun m hm => hm.1
  | false, _ => exact meets_pure fun m hm => hm.1

end Recovery

/-! ## One execution -/

section Execution

variable {cfg : Config} {env : Environment} {files : Files} {req : Request} {m : Machine}

/-- What an execution leaves, however it ends. -/
structure Outcome (files : Files) (m : Machine) : Prop where
  guarded : EachStart Guarded m.log
  restores : EachStart Restores m.log
  published : ∀ r, .published r ∈ m.log ↔ m.record = some r ∧ r.status = .success
  current : (∀ r, .published r ∈ m.log → m.files.current = some r) ∧
    ((∀ r, .published r ∉ m.log) → m.files.current = files.current)
  attempt : ∀ r, files.attempt = some r →
    ∃ r', m.files.attempt = some r' ∧ r.sequence ≤ r'.sequence

/-- The recorded sequence is not above the requested one. -/
theorem le_of_not_stale (h : ¬ Stale req files) {r : Record} (hr : files.attempt = some r) :
    r.sequence ≤ req.sequence := by
  by_contra hlt
  exact h ⟨r, hr, Or.inl (not_le.mp hlt)⟩

theorem Recorded.rises (h : Recorded req m) (hfresh : ¬ Stale req files) (r : Record)
    (hr : files.attempt = some r) : ∃ r', m.files.attempt = some r' ∧ r.sequence ≤ r'.sequence := by
  obtain ⟨r', hr', hsequence⟩ := h.attempt
  exact ⟨r', hr', hsequence ▸ le_of_not_stale hfresh hr⟩

theorem Done.outcome (h : Done req m) (hfresh : ¬ Stale req files) : Outcome files m := by
  obtain ⟨r, hrecord, hstatus, hcurrent, hpublished⟩ := h.published
  refine ⟨h.guarded, fun newer x older heq hfailed => ?_, fun r' => ?_, ⟨fun r' hr' => ?_,
    fun hnone => (hnone r ((hpublished r).mpr rfl)).elim⟩, h.recorded.rises hfresh⟩
  · refine (h.failed ?_).elim
    exact heq ▸ List.mem_append_right _ (List.mem_cons_of_mem _ hfailed)
  · rw [hpublished, hrecord]
    constructor
    · rintro rfl
      exact ⟨rfl, hstatus⟩
    · rintro ⟨hr', -⟩
      exact (Option.some.inj hr').symm
  · rw [hcurrent, (hpublished r').mp hr']

theorem Failed.outcome (h : Failed files req m) (hfresh : ¬ Stale req files) : Outcome files m where
  guarded := h.guarded
  restores := h.restores
  published r := by
    refine ⟨fun hr => (h.published r hr).elim, fun ⟨hrecord, hstatus⟩ => ?_⟩
    have := h.status
    rw [hrecord, Option.map_some, hstatus] at this
    exact nomatch this
  current := ⟨fun r hr => (h.published r hr).elim, fun _ => h.current⟩
  attempt := h.recorded.rises hfresh

theorem outcome_begin : Outcome files (.begin files) where
  guarded := eachStart_nil
  restores := eachStart_nil
  published r := by simp [Machine.begin]
  current := ⟨fun r hr => by simp [Machine.begin] at hr, fun _ => rfl⟩
  attempt r hr := ⟨r, hr, le_rfl⟩

theorem saveAttempt_meets {P : Machine → Prop}
    (hok : ∀ m writes, P m → P { m with writes, files := { m.files with attempt := m.record } })
    (herror : ∀ m writes, P m → P { m with writes }) :
    Meets P (saveAttempt env) (fun _ => P) fun _ => P := by
  refine Meets.bind (R := fun record m => P m ∧ m.record = record)
    (meets_read fun m hm => ⟨hm, rfl⟩) fun record => saveState_meets ?_ ?_
  · rintro m writes ⟨hm, rfl⟩
    exact hok m writes hm
  · rintro m writes ⟨hm, -⟩
    exact herror m writes hm

theorem saveAttempt_done :
    Meets (Done req) (saveAttempt env) (fun _ => Done req) fun _ => Done req :=
  saveAttempt_meets (fun _ _ hm => ⟨⟨hm.recorded.record, hm.recorded.record⟩, hm.guarded, hm.failed,
    hm.published⟩) fun _ _ hm => ⟨⟨hm.recorded.record, hm.recorded.attempt⟩, hm.guarded, hm.failed,
    hm.published⟩

theorem saveAttempt_failed :
    Meets (Failed files req) (saveAttempt env) (fun _ => Failed files req)
      fun _ => Failed files req :=
  saveAttempt_meets (fun _ _ hm => ⟨⟨hm.recorded.record, hm.recorded.record⟩, hm.current, hm.guarded,
    hm.restores, hm.published, hm.status⟩) fun _ _ hm => ⟨⟨hm.recorded.record,
    hm.recorded.attempt⟩, hm.current, hm.guarded, hm.restores, hm.published, hm.status⟩

theorem identity_meets {P : Machine → Prop} :
    Meets P (identity req) (fun _ => P) fun _ => P := by
  refine Meets.bind (R := fun _ => P) (meets_assert (fun _ _ hm => hm) fun _ _ hm => hm) fun _ => ?_
  refine Meets.bind (R := fun _ => P) (meets_assert (fun _ _ hm => hm) fun _ _ hm => hm) fun _ => ?_
  exact meets_assert (fun _ _ hm => hm) fun _ _ hm => hm

theorem fresh_meets :
    Meets (fun m => m = .begin files) (fresh req)
      (fun _ m => m = .begin files ∧ ¬ Stale req files) fun _ m => m = .begin files := by
  refine Meets.bind (R := fun recorded m => m = .begin files ∧ recorded = files)
    (meets_read ?_) fun recorded => meets_assert ?_ ?_
  · rintro m rfl
    exact ⟨rfl, rfl⟩
  · rintro m hfresh ⟨hm, rfl⟩
    exact ⟨hm, hfresh⟩
  · rintro m - ⟨hm, -⟩
    exact hm

/-- The first write of the attempt. -/
theorem saveRecord_meets {r : Record} (hsequence : r.sequence = req.sequence) (hstatus : r.status = .running) :
    Meets (fun m => m = { Machine.begin files with record := some r }) (saveAttempt env)
      (fun _ => Preparing files req) fun _ => Outcome files := by
  refine Meets.bind (R := fun record m => m = { Machine.begin files with record := some r } ∧
    record = some r) (meets_read fun m hm => ⟨hm, hm ▸ rfl⟩) fun record => saveState_meets ?_ ?_
  · rintro _ writes ⟨rfl, rfl⟩
    exact ⟨⟨⟨⟨r, rfl, hsequence⟩, r, rfl, hsequence⟩, rfl, eachStart_nil, List.not_mem_nil,
      fun _ => List.not_mem_nil, by simp [Machine.begin], by simp [Machine.begin]⟩, rfl⟩
  · rintro _ writes ⟨rfl, rfl⟩
    refine ⟨eachStart_nil, eachStart_nil, fun r' => ?_, ⟨fun r' hr' => ?_, fun _ => rfl⟩,
      fun r' hr' => ⟨r', hr', le_rfl⟩⟩
    · constructor
      · exact fun hr' => (List.not_mem_nil hr').elim
      · rintro ⟨hr', hsuccess⟩
        obtain rfl := Option.some.inj hr'
        exact nomatch hstatus.symm.trans hsuccess
    · exact (List.not_mem_nil hr').elim

theorem execute_meets :
    Meets (fun m => m = .begin files) (execute cfg env req) (fun _ => Outcome files)
      fun _ => Outcome files := by
  have hbegin : ∀ (e : Exception) m, m = .begin files → Outcome files m := by
    rintro _ _ rfl
    exact outcome_begin
  refine Meets.andThen identity_meets hbegin fun _ => ?_
  refine Meets.andThen (R := fun _ m => m = .begin files)
    (meets_give (fun _ _ hm => hm) fun _ _ hm => hm) hbegin fun _ => ?_
  refine Meets.andThen fresh_meets hbegin fun _ => ?_
  by_cases hfresh : Stale req files
  · refine Meets.before (I := fun _ => False) ?_ fun m hm => (hm.2 hfresh).elim
    exact ⟨fun _ hm => hm.elim⟩
  let r : Record :=
    { sequence := req.sequence
      image := req.image
      revision := req.revision
      status := .running
      stage := .prepare
      startedAt := env.started }
  refine Meets.bind (R := fun _ m => m = { Machine.begin files with record := some r })
    (meets_write ?_) fun _ => ?_
  · rintro _ ⟨rfl, -⟩
    rfl
  refine Meets.bind (saveRecord_meets rfl rfl) fun _ => ?_
  have hhandler : ∀ e, Meets (Rolling files req) (do
      recover cfg env req
      raise e : Deploy Unit) (fun _ => Done req) fun _ => Failed files req := fun e =>
    Meets.bind recover_meets fun _ => meets_raise fun _ hm => hm
  refine Meets.ensure (Meets.attempt rollout_meets hhandler) (fun _ => ?_) fun e => ?_
  · exact saveAttempt_done.weaken (fun _ hm => hm) (fun _ _ hm => hm.outcome hfresh)
      fun _ _ hm => hm.outcome hfresh
  · exact saveAttempt_failed.weaken (fun _ hm => hm) (fun _ _ hm => hm.outcome hfresh)
      fun _ _ hm => hm.outcome hfresh

/-- A stale request stops before the first command. -/
theorem execute_stale (h : Stale req files) :
    Meets (fun m => m = .begin files) (execute cfg env req) (fun _ _ => False)
      fun _ m => m = .begin files := by
  refine Meets.bind identity_meets fun _ => ?_
  refine Meets.bind (R := fun _ m => m = .begin files)
    (meets_give (fun _ _ hm => hm) fun _ _ hm => hm) fun _ => ?_
  refine Meets.bind fresh_meets fun _ => ?_
  refine Meets.before (I := fun _ => False) ?_ fun m hm => (hm.2 h).elim
  exact ⟨fun _ hm => hm.elim⟩

end Execution

end Prism.Deployment
