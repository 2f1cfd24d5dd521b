import Mathlib.Data.List.Chain
import Mathlib.Data.List.Nodup

/-! Members that replace each other: one line of successors, from the first member to
the one that has none. -/

variable {κ : Type*}

/-- The members are those of one list without repetitions; each one's successor is
the next, and the last has none. -/
structure Succession (next : κ → Option κ) (member : κ → Prop) (path : List κ) (last : κ) :
    Prop where
  members : ∀ k, member k ↔ k ∈ path ++ [last]
  distinct : (path ++ [last]).Nodup
  linked : (path ++ [last]).IsChain fun a b => next a = some b
  stops : next last = none

namespace Succession

variable {next next' : κ → Option κ} {member member' : κ → Prop} {path : List κ} {last : κ}

theorem single {k : κ} (hmember : ∀ j, member j ↔ j = k) (hnext : next k = none) :
    Succession next member [] k where
  members j := by simp [hmember]
  distinct := by simp
  linked := by simp
  stops := hnext

theorem last_member (h : Succession next member path last) : member last :=
  (h.members last).mpr (by simp)

/-- Only the last member has no successor. -/
theorem eq_last (h : Succession next member path last) {k : κ} (hk : member k)
    (hnext : next k = none) : k = last := by
  rcases List.mem_append.mp ((h.members k).mp hk) with hpath | hlast
  · obtain ⟨before, after, rfl⟩ := List.append_of_mem hpath
    have hlinked := h.linked
    rw [List.append_assoc, List.cons_append] at hlinked
    cases after with
    | nil =>
        have := (List.isChain_append_cons_cons.mp hlinked).2.1
        exact nomatch hnext.symm.trans this
    | cons j after =>
        have := (List.isChain_append_cons_cons.mp hlinked).2.1
        exact nomatch hnext.symm.trans this
  · exact List.mem_singleton.mp hlast

/-- Links and members may change as long as those of the line stay. -/
theorem congr (h : Succession next member path last) (hmember : ∀ k, member' k ↔ member k)
    (hnext : ∀ k, member k → next' k = next k) : Succession next' member' path last where
  members k := (hmember k).trans (h.members k)
  distinct := h.distinct
  linked := by
    refine h.linked.imp_of_mem_imp fun a b ha _ hab => ?_
    exact (hnext a ((h.members a).mpr ha)).trans hab
  stops := (hnext last h.last_member).trans h.stops

/-- A new member becomes the successor of the last. -/
theorem extend (h : Succession next member path last) {k : κ} (hk : ¬ member k)
    (hmember : ∀ j, member' j ↔ member j ∨ j = k)
    (hnext : ∀ j, member j → j ≠ last → next' j = next j) (hlast : next' last = some k)
    (hnew : next' k = none) : Succession next' member' (path ++ [last]) k where
  members j := by
    rw [hmember, h.members]
    simp [or_assoc]
  distinct := by
    have hfresh : k ∉ path ++ [last] := fun hmem => hk ((h.members k).mpr hmem)
    exact List.nodup_append.mpr ⟨h.distinct, by simp, fun a ha b hb => by
      rw [List.mem_singleton.mp hb]
      exact fun heq => hfresh (heq ▸ ha)⟩
  linked := by
    refine List.isChain_append.mpr ⟨?_, by simp, ?_⟩
    · refine h.linked.imp_of_mem_imp fun a b ha _ hab => ?_
      have hne : a ≠ last := fun heq => nomatch (heq ▸ h.stops).symm.trans hab
      exact (hnext a ((h.members a).mpr ha) hne).trans hab
    · intro a ha b hb
      obtain rfl : last = a := by simpa using ha
      obtain rfl : k = b := by simpa using hb
      exact hlast
  stops := hnew

end Succession
