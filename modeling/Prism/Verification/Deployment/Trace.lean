import Prism.Verification.Deployment.Correctness

/-! # Deployments one after the other

Docker answers what it likes, or raises, in each of them. -/

namespace Prism.Deployment

open Procedure

variable {trace : List (Transition.Event Files Action Report)} {files : Files}

/-- What holds of every execution. -/
structure Safe (e : Transition.Event Files Action Report) : Prop where
  /-- An image is started on its own head. -/
  guarded : EachStart Guarded e.outcome.log
  /-- After a failure only the previous image is started, on the head it ran on. -/
  restores : EachStart Restores e.outcome.log
  /-- The record is published as `current.json` exactly when the attempt succeeded. -/
  published : ∀ r, .published r ∈ e.outcome.log ↔
    e.outcome.record = some r ∧ r.status = .success
  current : (∀ r, .published r ∈ e.outcome.log →
      (step e.action e.before).2.current = some r) ∧
    ((∀ r, .published r ∉ e.outcome.log) →
      (step e.action e.before).2.current = e.before.current)
  /-- A stale request does nothing. -/
  stale : Stale e.action.req e.before →
    e.outcome.commands = [] ∧ e.outcome.log = [] ∧ (step e.action e.before).2 = e.before

/-- The recorded sequence does not fall. -/
def Rises (before after : Files) : Prop :=
  ∀ r, before.attempt = some r → ∃ r', after.attempt = some r' ∧ r.sequence ≤ r'.sequence

theorem Rises.trans {before middle after : Files} (hfirst : Rises before middle)
    (hlast : Rises middle after) : Rises before after := by
  intro r hr
  obtain ⟨r', hr', hle⟩ := hfirst r hr
  obtain ⟨r'', hr'', hle'⟩ := hlast r' hr'
  exact ⟨r'', hr'', hle.trans hle'⟩

/-- The contract of one execution, for the report and the files of its step. -/
theorem step_outcome (a : Action) (before : Files) :
    ∃ m, Outcome before m ∧ (step a before).1.record = m.record ∧
      (step a before).1.log = m.log ∧ (step a before).2 = m.files := by
  have h := (@execute_meets a.cfg a.env before a.req).holds (.begin before) rfl
  unfold step
  generalize execute a.cfg a.env a.req (.begin before) = r at h ⊢
  obtain ⟨_ | _, m⟩ := r
  · exact ⟨m, h, rfl, rfl, rfl⟩
  · exact ⟨m, h, rfl, rfl, rfl⟩

theorem step_stale {a : Action} {before : Files} (hstale : Stale a.req before) :
    (step a before).1.commands = [] ∧ (step a before).1.log = [] ∧
      (step a before).2 = before := by
  have h := (@execute_stale a.cfg a.env before a.req hstale).holds (.begin before) rfl
  unfold step
  generalize execute a.cfg a.env a.req (.begin before) = r at h ⊢
  obtain ⟨_ | _, m⟩ := r
  · obtain rfl := h
    exact ⟨rfl, rfl, rfl⟩
  · exact h.elim

theorem step_rises (a : Action) (before : Files) : Rises before (step a before).2 := by
  obtain ⟨m, hm, -, -, hfiles⟩ := step_outcome a before
  exact hfiles ▸ hm.attempt

theorem step_safe (a : Action) (before : Files) : Safe ⟨before, a, (step a before).1⟩ := by
  obtain ⟨m, hm, hrecord, hlog, hfiles⟩ := step_outcome a before
  refine ⟨?_, ?_, ?_, ?_, step_stale⟩
  · exact hlog ▸ hm.guarded
  · exact hlog ▸ hm.restores
  · simpa only [hlog, hrecord] using hm.published
  · simpa only [hlog, hfiles] using hm.current

/-- Every execution is safe, and the recorded sequence does not fall to the end of the run. -/
theorem safe_deployment (h : Run trace files) :
    ∀ e ∈ trace, Safe e ∧ Rises (step e.action e.before).2 files ∧ Rises e.before files := by
  intro e he
  obtain ⟨later, earlier, rfl⟩ := List.append_of_mem he
  obtain ⟨-, -, hout, hlater⟩ := h.split
  have hend : Rises (step e.action e.before).2 files :=
    hlater.relates (fun _ => True) Rises (fun _ r hr => ⟨r, hr, le_rfl⟩)
      (fun _ _ _ => Rises.trans) trivial (fun _ _ _ _ => trivial) fun s a _ _ => step_rises a s
  refine ⟨?_, hend, (step_rises e.action e.before).trans hend⟩
  have hsafe := step_safe e.action e.before
  rwa [← hout] at hsafe

/-! ## A release that does not start -/

def digest (c : Char) : String :=
  repository ++ "@sha256:" ++ String.ofList (List.replicate 64 c)

/-- Docker with one service that runs the image `a`; the image `b` does not start. -/
def host (commands : List Command) : Except Exception String :=
  match commands with
  | ⟨args, image⟩ :: _ =>
      if args[2]? = some "--format" then
        .ok ("\x7b\"org.opencontainers.image.revision\": \"" ++
          String.ofList (List.replicate 40 'c') ++
          "\", \"org.opencontainers.image.source\": \"" ++ source ++ "\"\x7d")
      else if args[1]? = some "--format" then .ok (digest 'a')
      else if args[7]? = some "ps" then .ok "7f\n"
      else if args[14]? = some "-c" then .ok "\x7b\"current\": [\"9\"], \"target\": [\"9\"]\x7d"
      else if args[7]? = some "up" ∧ image = digest 'b' then .error (.deploy "COMMAND_FAILED")
      else .ok ""
  | [] => .ok ""

def deploying (c : Char) (sequence : ℤ) : Action where
  cfg := ⟨"compose.yaml", "unchanged", none, "http://localhost/health/ready"⟩
  env :=
    { lock := .ok ()
      docker := host
      polls := fun _ => [.ok ⟨200, "http://localhost/health/ready", "\x7b\"status\": \"ready\"\x7d"⟩]
      store := fun _ => .ok ()
      started := 0
      now := 0 }
  req := ⟨digest c, String.ofList (List.replicate 40 'c'), sequence⟩

/-- The release is rolled back, and then an older one is asked for. -/
def releases : List Action :=
  [deploying 'b' 11, deploying 'a' 10]

theorem safe_deployment_releases :
    (∀ e ∈ Transition.events step ⟨none, none⟩ releases, Safe e ∧
        Rises (step e.action e.before).2 (Transition.run step ⟨none, none⟩ releases) ∧
        Rises e.before (Transition.run step ⟨none, none⟩ releases)) ∧
      ((Transition.run step ⟨none, none⟩ releases).attempt.bind (·.rollback)) =
        some .restoredPreviousImage :=
  ⟨safe_deployment (Transition.exec_run (⟨none, none⟩ : Files) releases (by decide +kernel)),
    by decide +kernel⟩

end Prism.Deployment
