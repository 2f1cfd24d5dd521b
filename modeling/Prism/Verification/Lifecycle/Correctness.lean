import Prism.Verification.Lifecycle.Semantics

/-! The invariant of boards, and what no sequence of moves undoes. -/

namespace Prism.Lifecycle

open Prism.Jobs

/-! ## The invariant -/

/-- A claim was handed out for this row, and only the current one controls it. -/
structure Granted (j : Job) (c : Claim) : Prop where
  kind : c.kind = j.kind
  aggregate : c.aggregateId = j.aggregateId
  workspace : c.workspaceId = j.workspaceId
  generation_le : c.generation ≤ j.leaseGeneration
  current : c.generation = j.leaseGeneration → j.state = .leased → c = j.claim c.id

/-- The status of a unit of work as its job allows it. -/
structure Follows (st : Status) (j : Job) : Prop where
  terminal : st.terminal = j.state.completed
  running : st = .running → j.state = .leased

structure Sound (b : Board) : Prop where
  wellFormed : ∀ id j, b.jobs.get id = some j → WellFormed j
  unique : ∀ id id' j j', b.jobs.get id = some j → b.jobs.get id' = some j' →
    j.kind = j'.kind → j.aggregateId = j'.aggregateId → id = id'
  coupled : ∀ id j, b.jobs.get id = some j →
    ∃ st, b.status j.kind j.aggregateId = some st ∧ Follows st j
  owned : ∀ kind aggregate st, b.status kind aggregate = some st →
    ∃ id j, b.jobs.get id = some j ∧ j.kind = kind ∧ j.aggregateId = aggregate
  granted : ∀ c ∈ b.issued, ∃ j, b.jobs.get c.id = some j ∧ Granted j c
  agree : ∀ c ∈ b.issued, ∀ c' ∈ b.issued, c.id = c'.id → c.generation = c'.generation → c = c'

/-- The job of a unit of work is the only one that follows its status. -/
theorem Sound.follows {b : Board} (h : Sound b) {id : UUID} {j : Job} {st : Status}
    (hj : b.jobs.get id = some j) (hst : b.status j.kind j.aggregateId = some st) :
    Follows st j := by
  obtain ⟨st', hst', hfollows⟩ := h.coupled id j hj
  obtain rfl := Option.some.inj (hst.symm.trans hst')
  exact hfollows

/-- Replacing a row by one of the same work keeps what does not look at its state. -/
private theorem replaced {b : Board} (h : Sound b) {jid : UUID} {j : Job} (j' : Job)
    (hj : b.jobs.get jid = some j) (hkind : j'.kind = j.kind)
    (hagg : j'.aggregateId = j.aggregateId) :
    (∀ id id' k k', (b.jobs.put jid j').get id = some k → (b.jobs.put jid j').get id' = some k' →
      k.kind = k'.kind → k.aggregateId = k'.aggregateId → id = id') ∧
    ∀ id k, b.jobs.get id = some k → ∃ k', (b.jobs.put jid j').get id = some k' ∧
      k'.kind = k.kind ∧ k'.aggregateId = k.aggregateId := by
  constructor
  · intro id id' k k' hk hk' hkk haa
    rcases (Table.get_put_eq_some ..).mp hk with ⟨rfl, rfl⟩ | ⟨-, hold⟩ <;>
      rcases (Table.get_put_eq_some ..).mp hk' with ⟨rfl, rfl⟩ | ⟨-, hold'⟩
    · rfl
    · exact h.unique _ _ _ _ hj hold' (hkind.symm.trans hkk) (hagg.symm.trans haa)
    · exact h.unique _ _ _ _ hold hj (hkk.trans hkind) (haa.trans hagg)
    · exact h.unique _ _ _ _ hold hold' hkk haa
  · intro id k hk
    by_cases hid : id = jid
    · subst id
      obtain rfl := Option.some.inj (hj.symm.trans hk)
      exact ⟨j', Table.get_put_self .., hkind, hagg⟩
    · exact ⟨k, by rw [Table.get_put_of_ne _ _ hid]; exact hk, rfl, rfl⟩

private theorem sound_enqueue {b : Board} (h : Sound b) {jid : UUID} {kind : Kind}
    {aggregate : UUID} {wid : Option UUID} (hfree : b.jobs.get jid = none)
    (hnew : ∀ id j, b.jobs.get id = some j → j.kind = kind → j.aggregateId ≠ aggregate)
    (hst : b.status kind aggregate = none)
    (hw : wid.isSome = true ∨ kind = .processWebhook) :
    Sound { b with
      jobs := b.jobs.put jid (queued b.now kind aggregate wid)
      status := mark b.status kind aggregate .pending } := by
  have hother : ∀ id k, b.jobs.get id = some k → ¬(k.kind = kind ∧ k.aggregateId = aggregate) :=
    fun id k hk hka => hnew id k hk hka.1 hka.2
  refine
    { wellFormed := ?_, unique := ?_, coupled := ?_, owned := ?_, granted := ?_,
      agree := h.agree }
  · intro id k hk
    rcases (Table.get_put_eq_some ..).mp hk with ⟨rfl, rfl⟩ | ⟨-, hk⟩
    · exact .queued b.now kind aggregate wid hw
    · exact h.wellFormed id k hk
  · intro id id' k k' hk hk' hkk haa
    rcases (Table.get_put_eq_some ..).mp hk with ⟨rfl, rfl⟩ | ⟨-, hold⟩ <;>
      rcases (Table.get_put_eq_some ..).mp hk' with ⟨rfl, rfl⟩ | ⟨-, hold'⟩
    · rfl
    · exact absurd ⟨hkk.symm, haa.symm⟩ (hother id' k' hold')
    · exact absurd ⟨hkk, haa⟩ (hother id k hold)
    · exact h.unique id id' k k' hold hold' hkk haa
  · intro id k hk
    rcases (Table.get_put_eq_some ..).mp hk with ⟨rfl, rfl⟩ | ⟨-, hk⟩
    · exact ⟨.pending, mark_self .., rfl, by simp⟩
    · obtain ⟨st, hst', hfollows⟩ := h.coupled id k hk
      exact ⟨st, (mark_of_ne _ _ (hother id k hk)).trans hst', hfollows⟩
  · intro kind' aggregate' st hst'
    by_cases hka : kind' = kind ∧ aggregate' = aggregate
    · obtain ⟨rfl, rfl⟩ := hka
      exact ⟨jid, _, Table.get_put_self .., rfl, rfl⟩
    · obtain ⟨id, k, hk, hkk, haa⟩ := h.owned kind' aggregate' st
        ((mark_of_ne _ _ hka).symm.trans hst')
      refine ⟨id, k, ?_, hkk, haa⟩
      have hid : id ≠ jid := by
        rintro rfl
        simp [hfree] at hk
      exact (Table.get_put_of_ne _ _ hid).trans hk
  · intro c hc
    obtain ⟨k, hk, hgranted⟩ := h.granted c hc
    have hid : c.id ≠ jid := by
      intro hid
      simp [hid, hfree] at hk
    exact ⟨k, (Table.get_put_of_ne _ _ hid).trans hk, hgranted⟩

private theorem sound_lease {b : Board} (h : Sound b) {jid : UUID} {j : Job} {worker : String}
    (hj : b.jobs.get jid = some j) (hs : j.state = .ready) :
    Sound { b with
      jobs := b.jobs.put jid (leased b.now worker j)
      issued := (leased b.now worker j).claim jid :: b.issued } := by
  obtain ⟨hunique, hpersist⟩ := replaced h (leased b.now worker j) hj rfl rfl
  have holder : ∀ c ∈ b.issued, c.id = jid → c.generation < (leased b.now worker j).leaseGeneration := by
    rintro c hc rfl
    obtain ⟨k, hk, hgranted⟩ := h.granted c hc
    obtain rfl := Option.some.inj (hj.symm.trans hk)
    exact Nat.lt_succ_of_le hgranted.generation_le
  refine
    { wellFormed := ?_, unique := hunique, coupled := ?_, owned := ?_, granted := ?_,
      agree := ?_ }
  · intro id k hk
    rcases (Table.get_put_eq_some ..).mp hk with ⟨rfl, rfl⟩ | ⟨-, hk⟩
    · exact (h.wellFormed _ _ hj).leased hs b.now worker
    · exact h.wellFormed id k hk
  · intro id k hk
    rcases (Table.get_put_eq_some ..).mp hk with ⟨rfl, rfl⟩ | ⟨-, hk⟩
    · obtain ⟨st, hst, hfollows⟩ := h.coupled _ _ hj
      have hterm := hfollows.terminal
      rw [hs] at hterm
      exact ⟨st, hst, hterm, fun _ => rfl⟩
    · exact h.coupled id k hk
  · intro kind aggregate st hst
    obtain ⟨id, k, hk, rfl, rfl⟩ := h.owned kind aggregate st hst
    obtain ⟨k', hk', hkind, hagg⟩ := hpersist id k hk
    exact ⟨id, k', hk', hkind, hagg⟩
  · intro c hc
    rcases List.mem_cons.mp hc with rfl | hc
    · exact ⟨_, Table.get_put_self .., rfl, rfl, rfl, le_rfl, fun _ _ => rfl⟩
    · obtain ⟨k, hk, hgranted⟩ := h.granted c hc
      by_cases hid : c.id = jid
      · have hlt := holder c hc hid
        rw [hid] at hk ⊢
        obtain rfl := Option.some.inj (hj.symm.trans hk)
        exact ⟨_, Table.get_put_self .., hgranted.kind, hgranted.aggregate, hgranted.workspace,
          hlt.le, fun heq => absurd heq hlt.ne⟩
      · exact ⟨k, (Table.get_put_of_ne _ _ hid).trans hk, hgranted⟩
  · intro c hc c' hc' hid hgen
    rcases List.mem_cons.mp hc with rfl | hc <;> rcases List.mem_cons.mp hc' with rfl | hc'
    · rfl
    · exact absurd hgen (holder c' hc' hid.symm).ne'
    · exact absurd hgen (holder c hc hid).ne
    · exact h.agree c hc c' hc' hid hgen

private theorem sound_recover {b : Board} (h : Sound b) {jid : UUID} {j : Job}
    (hj : b.jobs.get jid = some j) (hs : j.state = .leased) :
    Sound { b with issued := j.claim jid :: b.issued } := by
  have hcurrent : ∀ c ∈ b.issued, c.id = jid → c.generation = j.leaseGeneration →
      c = j.claim jid := by
    rintro c hc rfl hgen
    obtain ⟨k, hk, hgranted⟩ := h.granted c hc
    obtain rfl := Option.some.inj (hj.symm.trans hk)
    exact hgranted.current hgen hs
  refine
    { wellFormed := h.wellFormed, unique := h.unique, coupled := h.coupled, owned := h.owned,
      granted := ?_, agree := ?_ }
  · intro c hc
    rcases List.mem_cons.mp hc with rfl | hc
    · exact ⟨j, hj, rfl, rfl, rfl, le_rfl, fun _ _ => rfl⟩
    · exact h.granted c hc
  · intro c hc c' hc' hid hgen
    rcases List.mem_cons.mp hc with rfl | hc <;> rcases List.mem_cons.mp hc' with rfl | hc'
    · rfl
    · exact (hcurrent c' hc' hid.symm hgen.symm).symm
    · exact hcurrent c hc hid hgen
    · exact h.agree c hc c' hc' hid hgen

private theorem sound_renew {b : Board} (h : Sound b) {jid : UUID} {j : Job} {u : Instant}
    (hj : b.jobs.get jid = some j) (hs : j.state = .leased) :
    Sound { b with jobs := b.jobs.put jid { j with leaseUntil := some u } } := by
  obtain ⟨hunique, hpersist⟩ :=
    replaced h { j with leaseUntil := some u } hj rfl rfl
  refine
    { wellFormed := ?_, unique := hunique, coupled := ?_, owned := ?_, granted := ?_,
      agree := h.agree }
  · intro id k hk
    rcases (Table.get_put_eq_some ..).mp hk with ⟨rfl, rfl⟩ | ⟨-, hk⟩
    · exact (h.wellFormed _ _ hj).renewed hs u
    · exact h.wellFormed id k hk
  · intro id k hk
    rcases (Table.get_put_eq_some ..).mp hk with ⟨rfl, rfl⟩ | ⟨-, hk⟩
    · obtain ⟨st, hst, hfollows⟩ := h.coupled _ _ hj
      exact ⟨st, hst, hfollows.terminal, hfollows.running⟩
    · exact h.coupled id k hk
  · intro kind aggregate st hst
    obtain ⟨id, k, hk, rfl, rfl⟩ := h.owned kind aggregate st hst
    obtain ⟨k', hk', hkind, hagg⟩ := hpersist id k hk
    exact ⟨id, k', hk', hkind, hagg⟩
  · intro c hc
    obtain ⟨k, hk, hgranted⟩ := h.granted c hc
    by_cases hid : c.id = jid
    · rw [hid] at hk ⊢
      obtain rfl := Option.some.inj (hj.symm.trans hk)
      exact ⟨_, Table.get_put_self .., hgranted.kind, hgranted.aggregate, hgranted.workspace,
        hgranted.generation_le, hgranted.current⟩
    · exact ⟨k, (Table.get_put_of_ne _ _ hid).trans hk, hgranted⟩

private theorem sound_start {b : Board} (h : Sound b) {jid : UUID} {j : Job}
    (hj : b.jobs.get jid = some j) (hs : j.state = .leased) :
    Sound { b with status := mark b.status j.kind j.aggregateId .running } := by
  refine
    { wellFormed := h.wellFormed, unique := h.unique, coupled := ?_, owned := ?_,
      granted := h.granted, agree := h.agree }
  · intro id k hk
    by_cases hka : k.kind = j.kind ∧ k.aggregateId = j.aggregateId
    · obtain rfl := h.unique id jid k j hk hj hka.1 hka.2
      obtain rfl := Option.some.inj (hj.symm.trans hk)
      exact ⟨.running, mark_self .., by rw [hs]; rfl, fun _ => hs⟩
    · obtain ⟨st, hst, hfollows⟩ := h.coupled id k hk
      exact ⟨st, (mark_of_ne _ _ hka).trans hst, hfollows⟩
  · intro kind aggregate st hst
    by_cases hka : kind = j.kind ∧ aggregate = j.aggregateId
    · exact ⟨jid, j, hj, hka.1.symm, hka.2.symm⟩
    · exact h.owned kind aggregate st ((mark_of_ne _ _ hka).symm.trans hst)

private theorem sound_settle {b : Board} (h : Sound b) {jid : UUID} {j j' : Job} {st : Status}
    (hj : b.jobs.get jid = some j) (hs : Settled j j')
    (hterm : st.terminal = j'.state.completed) (hrun : st ≠ .running) :
    Sound { b with
      jobs := b.jobs.put jid j'
      status := mark b.status j.kind j.aggregateId st } := by
  obtain ⟨hunique, hpersist⟩ := replaced h j' hj hs.kind hs.aggregate
  refine
    { wellFormed := ?_, unique := hunique, coupled := ?_, owned := ?_, granted := ?_,
      agree := h.agree }
  · intro id k hk
    rcases (Table.get_put_eq_some ..).mp hk with ⟨rfl, rfl⟩ | ⟨-, hk⟩
    · exact (h.wellFormed _ _ hj).settled hs
    · exact h.wellFormed id k hk
  · intro id k hk
    rcases (Table.get_put_eq_some ..).mp hk with ⟨rfl, rfl⟩ | ⟨hid, hk⟩
    · rw [hs.kind, hs.aggregate]
      exact ⟨st, mark_self .., hterm, fun heq => absurd heq hrun⟩
    · obtain ⟨st', hst', hfollows⟩ := h.coupled id k hk
      have hka : ¬(k.kind = j.kind ∧ k.aggregateId = j.aggregateId) :=
        fun hka => hid (h.unique id jid k j hk hj hka.1 hka.2)
      exact ⟨st', (mark_of_ne _ _ hka).trans hst', hfollows⟩
  · intro kind aggregate st' hst'
    have howned : ∃ id k, b.jobs.get id = some k ∧ k.kind = kind ∧ k.aggregateId = aggregate := by
      by_cases hka : kind = j.kind ∧ aggregate = j.aggregateId
      · exact ⟨jid, j, hj, hka.1.symm, hka.2.symm⟩
      · exact h.owned kind aggregate st' ((mark_of_ne _ _ hka).symm.trans hst')
    obtain ⟨id, k, hk, rfl, rfl⟩ := howned
    obtain ⟨k', hk', hkind, hagg⟩ := hpersist id k hk
    exact ⟨id, k', hk', hkind, hagg⟩
  · intro c hc
    obtain ⟨k, hk, hgranted⟩ := h.granted c hc
    by_cases hid : c.id = jid
    · rw [hid] at hk ⊢
      obtain rfl := Option.some.inj (hj.symm.trans hk)
      refine ⟨j', Table.get_put_self .., hgranted.kind.trans hs.kind.symm,
        hgranted.aggregate.trans hs.aggregate.symm, hgranted.workspace.trans hs.workspace.symm,
        hs.generation ▸ hgranted.generation_le, fun _ hleased => absurd hleased hs.state_ne⟩
    · exact ⟨k, (Table.get_put_of_ne _ _ hid).trans hk, hgranted⟩

/-- Every move keeps the invariant. -/
theorem Sound.move {b b' : Board} (h : Sound b) (hm : Move b b') : Sound b' := by
  cases hm with
  | tick elapsed => exact ⟨h.wellFormed, h.unique, h.coupled, h.owned, h.granted, h.agree⟩
  | enqueue jid kind aggregate wid hfree hnew hst hw => exact sound_enqueue h hfree hnew hst hw
  | lease jid j worker hj hs => exact sound_lease h hj hs
  | recover jid j hj hs => exact sound_recover h hj hs
  | renew jid j u hj hs hu hlive => exact sound_renew h hj hs
  | start jid j hj hs => exact sound_start h hj hs
  | settle jid j j' st hj hs hsettled hterm hrun => exact sound_settle h hj hsettled hterm hrun

theorem Sound.moves {b b' : Board} (h : Sound b) (hm : Moves b b') : Sound b' := by
  induction hm with
  | refl => exact h
  | tail _ hlast ih => exact ih.move hlast

theorem sound_empty (now : Instant) : Sound (board (World.initial now)) := by
  constructor <;> simp [board, boardOf, World.initial, Db.empty, statusIn]
  intro kind
  cases kind <;> simp

/-! ## What is never undone -/

/-- How a row may look later: the work is the same, a completed row stays as it
is, and neither an expired nor a given-up lease comes back at its generation. -/
structure JobLater (now : Instant) (j j' : Job) : Prop where
  kind : j'.kind = j.kind
  aggregate : j'.aggregateId = j.aggregateId
  generation_le : j.leaseGeneration ≤ j'.leaseGeneration
  completed : j.state.completed = true → j'.state = j.state
  idle : j.state ≠ .leased → j'.leaseGeneration = j.leaseGeneration → j'.state ≠ .leased
  expired : ∀ u, j.leaseUntil = some u → u ≤ now → j.state = .leased →
    j'.leaseGeneration = j.leaseGeneration → j'.state = .leased → j'.leaseUntil = some u

theorem JobLater.refl (now : Instant) (j : Job) : JobLater now j j :=
  ⟨rfl, rfl, le_rfl, fun _ => rfl, fun h _ => h, fun _ h _ _ _ _ => h⟩

theorem JobLater.trans {now now' : Instant} {j j' j'' : Job} (hnow : now ≤ now')
    (h : JobLater now j j') (h' : JobLater now' j' j'') : JobLater now j j'' := by
  refine
    { kind := h'.kind.trans h.kind
      aggregate := h'.aggregate.trans h.aggregate
      generation_le := h.generation_le.trans h'.generation_le
      completed := fun hc => ?_
      idle := fun hidle heq => ?_
      expired := fun u hu hle hs heq hs'' => ?_ }
  · have hs := h.completed hc
    exact (h'.completed (by rw [hs]; exact hc)).trans hs
  · have hmid : j'.leaseGeneration = j.leaseGeneration :=
      le_antisymm (heq ▸ h'.generation_le) h.generation_le
    exact h'.idle (h.idle hidle hmid) (heq.trans hmid.symm)
  · have hmid : j'.leaseGeneration = j.leaseGeneration :=
      le_antisymm (heq ▸ h'.generation_le) h.generation_le
    have hs' : j'.state = .leased := by
      by_contra hne
      exact h'.idle hne (heq.trans hmid.symm) hs''
    have hu' := h.expired u hu hle hs hmid hs'
    exact h'.expired u hu' (hle.trans hnow) hs' (heq.trans hmid.symm) hs''

structure Later (b b' : Board) : Prop where
  now_le : b.now ≤ b'.now
  jobs : ∀ id j, b.jobs.get id = some j →
    ∃ j', b'.jobs.get id = some j' ∧ JobLater b.now j j'
  status : ∀ kind aggregate st, b.status kind aggregate = some st →
    ∃ st', b'.status kind aggregate = some st' ∧ (st.terminal = true → st' = st)
  issued : ∀ c ∈ b.issued, c ∈ b'.issued

theorem Later.refl (b : Board) : Later b b :=
  ⟨le_rfl, fun _ j h => ⟨j, h, .refl _ j⟩, fun _ _ st h => ⟨st, h, fun _ => rfl⟩, fun _ h => h⟩

theorem Later.trans {b b' b'' : Board} (h : Later b b') (h' : Later b' b'') : Later b b'' := by
  refine ⟨h.now_le.trans h'.now_le, ?_, ?_, fun c hc => h'.issued c (h.issued c hc)⟩
  · intro id j hj
    obtain ⟨j', hj', hlater⟩ := h.jobs id j hj
    obtain ⟨j'', hj'', hlater'⟩ := h'.jobs id j' hj'
    exact ⟨j'', hj'', hlater.trans h.now_le hlater'⟩
  · intro kind aggregate st hst
    obtain ⟨st', hst', heq⟩ := h.status kind aggregate st hst
    obtain ⟨st'', hst'', heq'⟩ := h'.status kind aggregate st' hst'
    refine ⟨st'', hst'', fun hterm => ?_⟩
    obtain rfl := heq hterm
    exact heq' hterm

/-- A move that replaces one row by a later one, and statuses by equal ones where
they are terminal, only moves forward. -/
private theorem later_put {b : Board} {jid : UUID} {j j' : Job} {status issued}
    (hj : b.jobs.get jid = some j) (hlater : JobLater b.now j j')
    (hstatus : ∀ kind aggregate st, b.status kind aggregate = some st →
      ∃ st', status kind aggregate = some st' ∧ (st.terminal = true → st' = st))
    (hissued : ∀ c ∈ b.issued, c ∈ issued) :
    Later b { b with jobs := b.jobs.put jid j', status := status, issued := issued } := by
  refine ⟨le_rfl, ?_, hstatus, hissued⟩
  intro id k hk
  by_cases hid : id = jid
  · subst id
    obtain rfl := Option.some.inj (hj.symm.trans hk)
    exact ⟨j', Table.get_put_self .., hlater⟩
  · exact ⟨k, (Table.get_put_of_ne _ _ hid).trans hk, .refl _ k⟩

private theorem status_kept (b : Board) (kind : Kind) (aggregate : UUID) (st : Status)
    (h : b.status kind aggregate = some st) :
    ∃ st', b.status kind aggregate = some st' ∧ (st.terminal = true → st' = st) :=
  ⟨st, h, fun _ => rfl⟩

/-- Marking work whose job is not completed changes no terminal status. -/
private theorem status_marked {b : Board} (h : Sound b) {jid : UUID} {j : Job}
    (hj : b.jobs.get jid = some j) (hs : j.state.completed = false) (new : Status)
    (kind : Kind) (aggregate : UUID) (st : Status) (hst : b.status kind aggregate = some st) :
    ∃ st', mark b.status j.kind j.aggregateId new kind aggregate = some st' ∧
      (st.terminal = true → st' = st) := by
  by_cases hka : kind = j.kind ∧ aggregate = j.aggregateId
  · obtain ⟨rfl, rfl⟩ := hka
    have hfollows := h.follows hj hst
    refine ⟨new, mark_self .., fun hterm => ?_⟩
    rw [hfollows.terminal, hs] at hterm
    contradiction
  · exact ⟨st, (mark_of_ne _ _ hka).trans hst, fun _ => rfl⟩

/-- Every move from a sound board only moves forward. -/
theorem Sound.later {b b' : Board} (h : Sound b) (hm : Move b b') : Later b b' := by
  cases hm with
  | tick elapsed =>
      exact ⟨Nat.le_add_right .., fun _ j hj => ⟨j, hj, .refl _ j⟩, status_kept b, fun _ hc => hc⟩
  | enqueue jid kind aggregate wid hfree hnew hst hw =>
      refine ⟨le_rfl, ?_, ?_, fun _ hc => hc⟩
      · intro id j hj
        have hid : id ≠ jid := by
          rintro rfl
          simp [hfree] at hj
        exact ⟨j, (Table.get_put_of_ne _ _ hid).trans hj, .refl _ j⟩
      · intro kind' aggregate' st hst'
        have hka : ¬(kind' = kind ∧ aggregate' = aggregate) := by
          rintro ⟨rfl, rfl⟩
          simp [hst] at hst'
        exact ⟨st, (mark_of_ne _ _ hka).trans hst', fun _ => rfl⟩
  | lease jid j worker hj hs =>
      refine later_put hj ?_ (status_kept b) (fun _ hc => List.mem_cons_of_mem _ hc)
      refine
        { kind := rfl
          aggregate := rfl
          generation_le := Nat.le_succ _
          completed := by simp [hs, JobState.completed]
          idle := fun _ heq => absurd heq (Nat.succ_ne_self _)
          expired := by simp [hs] }
  | recover jid j hj hs =>
      exact ⟨le_rfl, fun _ j hj => ⟨j, hj, .refl _ j⟩, status_kept b,
        fun _ hc => List.mem_cons_of_mem _ hc⟩
  | renew jid j u hj hs hu hlive =>
      refine later_put hj ?_ (status_kept b) (fun _ hc => hc)
      refine
        { kind := rfl
          aggregate := rfl
          generation_le := le_rfl
          completed := by simp
          idle := by simp
          expired := fun u' hu' hle => ?_ }
      obtain rfl := Option.some.inj (hu.symm.trans hu')
      exact absurd hle (Nat.not_le.mpr hlive)
  | start jid j hj hs =>
      exact ⟨le_rfl, fun _ j hj => ⟨j, hj, .refl _ j⟩,
        status_marked h hj (by rw [hs]; rfl) .running, fun _ hc => hc⟩
  | settle jid j j' st hj hs hsettled hterm hrun =>
      refine later_put hj ?_ (status_marked h hj hs st) (fun _ hc => hc)
      refine
        { kind := hsettled.kind
          aggregate := hsettled.aggregate
          generation_le := hsettled.generation.ge
          completed := by simp [hs]
          idle := fun _ _ => hsettled.state_ne
          expired := fun _ _ _ _ _ hs' => absurd hs' hsettled.state_ne }

theorem Sound.later_moves {b b' : Board} (h : Sound b) (hm : Moves b b') : Later b b' := by
  induction hm with
  | refl => exact .refl b
  | tail hfirst hlast ih => exact ih.trans ((h.moves hfirst).later hlast)

end Prism.Lifecycle
