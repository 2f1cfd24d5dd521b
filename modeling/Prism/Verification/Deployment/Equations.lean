import Prism.Model.Deployment

/-! Contracts of the operations of Docker and of the writes: whatever the environment
answers, they leave their call in the log and nothing else that matters. -/

namespace Prism.Deployment

open Procedure

/-- Indifferent to the commands that were run. -/
def Blind (P : Machine → Prop) : Prop :=
  ∀ m commands, P m → P { m with commands }

def Machine.noted (m : Machine) (c : Call) : Machine :=
  { m with log := c :: m.log }

section Docker

variable {cfg : Config} {env : Environment} {sequence : ℤ} {image : String} {P : Machine → Prop}

theorem run_meets (hP : Blind P) (args : List String) :
    Meets P (run env args image) (fun _ => P) fun _ => P := by
  refine Meets.bind (R := fun _ => P) (meets_write fun m hm => hP m _ hm) fun _ => ?_
  refine Meets.bind (R := fun _ => P) (meets_read fun m hm => hm) fun _ => ?_
  exact meets_give (fun _ _ hm => hm) fun _ _ hm => hm

theorem compose_meets (hP : Blind P) (args : List String) :
    Meets P (compose cfg env args image) (fun _ => P) fun _ => P :=
  run_meets hP _

theorem task_meets (hP : Blind P) (args : List String) :
    Meets P (task cfg env sequence args image) (fun _ => P) fun _ => P := by
  have hremove : Meets P (removeTask env sequence image) (fun _ => P) fun _ => P := by
    refine Meets.attempt (F := fun _ => P) ?_ fun e => ?_
    · exact Meets.bind (run_meets hP _) fun _ => meets_pure fun _ hm => hm
    · cases e with
      | deploy code => exact meets_pure fun _ hm => hm
      | _ => exact meets_raise fun _ hm => hm
  exact Meets.ensure (J := fun _ => P) (F := fun _ => P) (compose_meets hP _)
    (fun _ => hremove) fun _ => hremove

theorem note_meets {Q : Unit → Machine → Prop} {E : Exception → Machine → Prop} {c : Call}
    (h : ∀ m, P m → Q () (m.noted c)) : Meets P (note c) Q E :=
  meets_write h

theorem pull_meets {revision : String} {Q : Machine → Prop} (hQ : Blind Q)
    (h : ∀ m, P m → Q (m.noted (.pull image revision))) :
    Meets P (pull env image revision) (fun _ => Q) fun _ => Q := by
  refine Meets.bind (note_meets (Q := fun _ => Q) h) fun _ => ?_
  refine Meets.bind (run_meets hQ _) fun _ => ?_
  refine Meets.bind (run_meets hQ _) fun _ => ?_
  refine Meets.bind (R := fun _ => Q) (meets_give (fun _ _ hm => hm) fun _ _ hm => hm) fun _ => ?_
  exact meets_assert (fun _ _ hm => hm) fun _ _ hm => hm

theorem preflight_meets {Q : Machine → Prop} (hQ : Blind Q)
    (h : ∀ m, P m → Q (m.noted (.preflight image))) :
    Meets P (preflight cfg env sequence image) (fun _ => Q) fun _ => Q := by
  refine Meets.bind (note_meets (Q := fun _ => Q) h) fun _ => ?_
  refine Meets.bind (compose_meets hQ _) fun _ => ?_
  exact Meets.bind (task_meets hQ _) fun _ => meets_pure fun _ hm => hm

theorem schema_meets {Q : Schema → Machine → Prop} (hP : Blind P)
    (h : ∀ m v, P m → Q v (m.noted (.schema image v))) :
    Meets P (schema cfg env sequence image) Q fun _ => P := by
  refine Meets.bind (task_meets hP _) fun _ => ?_
  refine Meets.bind (R := fun _ => P) (meets_give (fun _ _ hm => hm) fun _ _ hm => hm) fun _ => ?_
  refine Meets.bind (R := fun _ => P) (meets_give (fun _ _ hm => hm) fun _ _ hm => hm) fun v => ?_
  exact Meets.bind (note_meets (Q := fun _ => Q v) fun m => h m v) fun _ => meets_pure fun _ hm => hm

theorem inspect_meets {Q : Option String → Machine → Prop} (hP : Blind P)
    (h : ∀ m found, P m → Q found (m.noted (.runningImage image found)))
    (ids : List (List Char)) : Meets P (inspect env image ids) Q fun _ => P := by
  have hnoted : ∀ found, Meets P
      (do
        note (.runningImage image found)
        pure found) Q fun _ => P := fun found =>
    Meets.bind (note_meets (Q := fun _ => Q found) fun m => h m found) fun _ =>
      meets_pure fun _ hm => hm
  match ids with
  | [] => exact hnoted none
  | [id] =>
      unfold inspect
      refine Meets.bind (run_meets hP _) fun text => ?_
      refine Meets.bind (R := fun _ => P) ?_ fun _ => hnoted _
      exact meets_give (fun _ _ hm => hm) fun _ _ hm => hm
  | _ :: _ :: _ => exact meets_raise fun _ hm => hm

theorem runningImage_meets {Q : Option String → Machine → Prop} (hP : Blind P)
    (h : ∀ m found, P m → Q found (m.noted (.runningImage image found))) :
    Meets P (runningImage cfg env image) Q fun _ => P :=
  Meets.bind (compose_meets hP _) fun _ => inspect_meets hP h _

theorem migrate_meets {Q : Machine → Prop} (hQ : Blind Q)
    (h : ∀ m, P m → Q (m.noted (.migrate image))) :
    Meets P (migrate cfg env sequence image) (fun _ => Q) fun _ => Q := by
  refine Meets.bind (note_meets (Q := fun _ => Q) h) fun _ => ?_
  exact Meets.bind (task_meets hQ _) fun _ => meets_pure fun _ hm => hm

theorem start_meets {Q : Machine → Prop} (hQ : Blind Q)
    (h : ∀ m, P m → Q (m.noted (.start image))) :
    Meets P (start cfg env image) (fun _ => Q) fun _ => Q := by
  refine Meets.bind (note_meets (Q := fun _ => Q) h) fun _ => ?_
  exact Meets.bind (compose_meets hQ _) fun _ => meets_pure fun _ hm => hm

theorem poll_meets (hP : Blind P) (answer : Except Exception Response) :
    Meets P (poll cfg env image answer) (fun _ => P) fun _ => P := by
  refine Meets.attempt (F := fun _ => P) ?_ fun e => ?_
  · refine Meets.bind (compose_meets hP _) fun _ => ?_
    refine Meets.bind (R := fun _ => P) (meets_give (fun _ _ hm => hm) fun _ _ hm => hm) fun _ => ?_
    exact meets_give (fun _ _ hm => hm) fun _ _ hm => hm
  · cases e with
    | other => exact meets_raise fun _ hm => hm
    | _ => exact meets_pure fun _ hm => hm

theorem await_meets (hP : Blind P) (answers : List (Except Exception Response)) :
    Meets P (await cfg env image answers) (fun _ => P) fun _ => P := by
  induction answers with
  | nil => exact meets_raise fun _ hm => hm
  | cons answer answers ih =>
      refine Meets.bind (poll_meets hP answer) fun done => ?_
      cases done with
      | false => exact ih
      | true => exact meets_pure fun _ hm => hm

theorem healthy_meets {Q : Machine → Prop} (hQ : Blind Q)
    (h : ∀ m, P m → Q (m.noted (.healthy image))) :
    Meets P (healthy cfg env image) (fun _ => Q) fun _ => Q := by
  refine Meets.bind (note_meets (Q := fun _ => Q) h) fun _ => ?_
  exact Meets.bind (R := fun _ => Q) (meets_read fun m hm => hm) fun _ => await_meets hQ _

end Docker

section Files

variable {env : Environment} {P Q : Machine → Prop}

/-- A write of a state file is done as a whole, or raises and leaves the files. -/
theorem saveState_meets {f : Files → Files} {E : Machine → Prop}
    (hok : ∀ m writes, P m → Q { m with writes, files := f m.files })
    (herror : ∀ m writes, P m → E { m with writes }) :
    Meets P (saveState env f) (fun _ => Q) fun _ => E := by
  refine Meets.bind (R := fun _ => P) (meets_read fun m hm => hm) fun _ => ?_
  refine Meets.bind (R := fun _ m => ∃ m₀ writes, P m₀ ∧ m = { m₀ with writes })
    (meets_write fun m hm => ⟨m, _, hm, rfl⟩) fun _ => ?_
  refine Meets.bind (R := fun _ m => ∃ m₀ writes, P m₀ ∧ m = { m₀ with writes })
    (meets_give (fun _ _ hm => hm) ?_) fun _ => meets_write ?_
  · rintro _ m ⟨m₀, writes, hm₀, rfl⟩
    exact herror m₀ writes hm₀
  · rintro m ⟨m₀, writes, hm₀, rfl⟩
    exact hok m₀ writes hm₀

theorem amend_meets {f : Record → Record} {E : Exception → Machine → Prop}
    (h : ∀ m, P m → Q { m with record := m.record.map f }) :
    Meets P (amend f) (fun _ => Q) E :=
  meets_write h

end Files

end Prism.Deployment
