import Mathlib.Algebra.Order.BigOperators.Group.List
import Mathlib.Algebra.Order.Ring.Nat
import Mathlib.Data.List.Nodup
import Mathlib.Logic.Relation

/-! The explicit stack of a depth-first traversal: take the newest entry, list it,
and put what follows it on top. When what follows an entry is together smaller than
the entry, the stack lists the preorder of the forest it holds. -/

namespace Worklist

variable {α β : Type*}

/-- The entries taken from a stack, at most `fuel` of them. -/
def drain (next : α → List α) : ℕ → List α → List α
  | 0, _ => []
  | _ + 1, [] => []
  | fuel + 1, a :: stack => a :: drain next fuel (next a ++ stack)

/-- What follows an entry is together smaller than it. -/
def Shrinks (next : α → List α) (size : α → ℕ) : Prop :=
  ∀ a, ((next a).map size).sum < size a

/-- The entries a traversal from one entry lists. -/
def preorder (next : α → List α) (size : α → ℕ) (a : α) : List α :=
  drain next (size a) [a]

/-- One entry follows another. -/
def Follows (next : α → List α) (a b : α) : Prop :=
  b ∈ next a

/-- One entry is reached from another. -/
abbrev Reaches (next : α → List α) : α → α → Prop :=
  Relation.ReflTransGen (Follows next)

@[simp] theorem drain_nil (next : α → List α) (fuel : ℕ) : drain next fuel [] = [] := by
  cases fuel <;> rfl

@[simp] theorem drain_succ_cons (next : α → List α) (fuel : ℕ) (a : α) (stack : List α) :
    drain next (fuel + 1) (a :: stack) = a :: drain next fuel (next a ++ stack) :=
  rfl

/-- A translation of the entries that commutes with what follows them translates the
traversal. -/
theorem drain_map {next : α → List α} {next' : β → List β} {f : α → β}
    (hf : ∀ a, next' (f a) = (next a).map f) (fuel : ℕ) (stack : List α) :
    drain next' fuel (stack.map f) = (drain next fuel stack).map f := by
  induction fuel generalizing stack with
  | zero => rfl
  | succ fuel ih =>
      cases stack with
      | nil => rfl
      | cons a stack =>
          rw [List.map_cons, drain_succ_cons, drain_succ_cons, hf, ← List.map_append, ih,
            List.map_cons]

section Shrinks

variable {next : α → List α} {size : α → ℕ}

theorem Shrinks.lt (h : Shrinks next size) {a b : α} (hb : b ∈ next a) : size b < size a := by
  have hle : size b ≤ ((next a).map size).sum := List.le_sum_of_mem (List.mem_map_of_mem hb)
  exact lt_of_le_of_lt hle (h a)

theorem Shrinks.pos (h : Shrinks next size) (a : α) : 0 < size a :=
  lt_of_le_of_lt (Nat.zero_le _) (h a)

/-- A stack is drained entry by entry, each with everything below it. -/
private theorem drain_spec (h : Shrinks next size) (fuel : ℕ) :
    (∀ stack : List α, (stack.map size).sum ≤ fuel →
      drain next fuel stack = stack.flatMap (preorder next size)) ∧
    ∀ a, size a ≤ fuel → preorder next size a = a :: (next a).flatMap (preorder next size) := by
  induction fuel using Nat.strongRecOn with
  | _ fuel ih =>
      have hone : ∀ a, size a ≤ fuel →
          preorder next size a = a :: (next a).flatMap (preorder next size) := by
        intro a ha
        obtain ⟨n, hn⟩ := Nat.exists_eq_add_of_lt (h.pos a)
        rw [Nat.zero_add] at hn
        have hsum := h a
        rw [preorder, hn, drain_succ_cons, List.append_nil,
          (ih n (by omega)).1 (next a) (by omega)]
      refine ⟨fun stack hstack => ?_, hone⟩
      cases stack with
      | nil => simp
      | cons a stack =>
          simp only [List.map_cons, List.sum_cons] at hstack
          have hpos := h.pos a
          have hsum := h a
          obtain ⟨n, rfl⟩ : ∃ n, fuel = n + 1 := ⟨fuel - 1, by omega⟩
          rw [drain_succ_cons, (ih n (by omega)).1 _ (by simp; omega), List.flatMap_append,
            List.flatMap_cons, hone a (by omega), List.cons_append]

/-- A traversal lists its entry, and then traverses what follows it. -/
theorem preorder_eq (h : Shrinks next size) (a : α) :
    preorder next size a = a :: (next a).flatMap (preorder next size) :=
  (drain_spec h (size a)).2 a le_rfl

/-- A traversal lists exactly what is reached. -/
theorem mem_preorder (h : Shrinks next size) {a b : α} :
    b ∈ preorder next size a ↔ Reaches next a b := by
  induction hn : size a using Nat.strongRecOn generalizing a with
  | _ n ih =>
      subst hn
      rw [preorder_eq h, List.mem_cons, List.mem_flatMap, Reaches,
        Relation.ReflTransGen.cases_head_iff]
      constructor
      · rintro (rfl | ⟨c, hc, hb⟩)
        · exact .inl rfl
        · exact .inr ⟨c, hc, (ih _ (h.lt hc) rfl).mp hb⟩
      · rintro (rfl | ⟨c, hc, hb⟩)
        · exact .inl rfl
        · exact .inr ⟨c, hc, (ih _ (h.lt hc) rfl).mpr hb⟩

theorem Reaches.size_le (h : Shrinks next size) {a b : α} (hab : Reaches next a b) :
    size b ≤ size a := by
  induction hab with
  | refl => exact le_rfl
  | tail _ hlast ih => exact (h.lt hlast).le.trans ih

/-- Nothing is listed twice when no entry is reached through two different ones. -/
theorem nodup_preorder (h : Shrinks next size)
    (hnext : ∀ a, (next a).Pairwise fun b c => ∀ d, Reaches next b d → ¬Reaches next c d) (a : α) :
    (preorder next size a).Nodup := by
  induction hn : size a using Nat.strongRecOn generalizing a with
  | _ n ih =>
      subst hn
      rw [preorder_eq h, List.nodup_cons]
      constructor
      · intro ha
        obtain ⟨b, hb, hba⟩ := List.mem_flatMap.mp ha
        have hle := ((mem_preorder h).mp hba).size_le h
        exact absurd (h.lt hb) (not_lt.mpr hle)
      · rw [List.nodup_flatMap]
        refine ⟨fun b hb => ih _ (h.lt hb) b rfl, (hnext a).imp fun hbc => ?_⟩
        intro d hb hc
        exact hbc d ((mem_preorder h).mp hb) ((mem_preorder h).mp hc)

end Shrinks

end Worklist
