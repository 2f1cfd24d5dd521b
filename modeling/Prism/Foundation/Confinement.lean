import Prism.Foundation.Keyset
import Prism.Foundation.Table

/-! Queries that see a part of a table. Two tables that agree on the part answer alike,
in whatever order they store their rows. -/

open Keyset

namespace Keyset

variable {α γ : Type} [LinearOrder γ] {key : α → γ} {l l' : List α}

/-- The order of an answer does not depend on how the rows are stored. -/
theorem ordered_eq_of_perm (h : l.Perm l') (hl : Distinct key l) :
    ordered key l = ordered key l' :=
  eq_of_pairwise (ordered_pairwise hl) (ordered_pairwise (hl.perm h)) fun a => by
    rw [mem_ordered, mem_ordered, h.mem_iff]

end Keyset

namespace Table

variable {κ ρ : Type} [DecidableEq κ] {p q : κ → ρ → Bool} {t t' t'' : Table κ ρ}

/-- Both tables hold the same rows of a part. -/
def AgreeOn (p : κ → ρ → Bool) (t t' : Table κ ρ) : Prop :=
  ∀ k r, p k r = true → (t.get k = some r ↔ t'.get k = some r)

theorem AgreeOn.refl (p : κ → ρ → Bool) (t : Table κ ρ) : AgreeOn p t t :=
  fun _ _ _ => Iff.rfl

theorem AgreeOn.symm (h : AgreeOn p t t') : AgreeOn p t' t :=
  fun k r hr => (h k r hr).symm

theorem AgreeOn.trans (h : AgreeOn p t t') (h' : AgreeOn p t' t'') : AgreeOn p t t'' :=
  fun k r hr => (h k r hr).trans (h' k r hr)

/-! ## Reading -/

/-- A row of the part is found under its key in both tables or in neither. -/
theorem AgreeOn.get_filter (h : AgreeOn p t t') (hq : ∀ k r, q k r = true → p k r = true) (k : κ) :
    (t.get k).filter (q k) = (t'.get k).filter (q k) := by
  apply Option.ext
  intro r
  rw [Option.filter_eq_some_iff, Option.filter_eq_some_iff]
  exact and_congr_left fun hr => h k r (hq k r hr)

theorem AgreeOn.mem_select (h : AgreeOn p t t') (hq : ∀ k r, q k r = true → p k r = true)
    (e : κ × ρ) : e ∈ t.select q ↔ e ∈ t'.select q := by
  obtain ⟨k, r⟩ := e
  rw [mem_select_iff, mem_select_iff]
  exact and_congr_left fun hr => h k r (hq k r hr)

theorem AgreeOn.select_perm (h : AgreeOn p t t') (hq : ∀ k r, q k r = true → p k r = true) :
    (t.select q).Perm (t'.select q) :=
  (List.perm_ext_iff_of_nodup (nodup_keys_select t q).of_map (nodup_keys_select t' q).of_map).mpr
    (h.mem_select hq)

variable {γ : Type} {key : κ × ρ → γ}

omit [DecidableEq κ] in
/-- Rows are told apart by a key that their primary key is a part of. -/
theorem distinct_select (hkey : ∀ e e', key e = key e' → e.1 = e'.1) (q : κ → ρ → Bool) :
    Distinct key (t.select q) := by
  have hnodup := nodup_keys_select t q
  rw [List.Nodup, List.pairwise_map] at hnodup
  exact hnodup.imp fun hne heq => hne (hkey _ _ heq)

variable [LinearOrder γ]

/-- An ordered query does not depend on how the rows are stored. -/
theorem AgreeOn.ordered_select (h : AgreeOn p t t') (hq : ∀ k r, q k r = true → p k r = true)
    (hkey : Distinct key (t.select q)) :
    ordered key (t.select q) = ordered key (t'.select q) := by
  exact ordered_eq_of_perm (h.select_perm hq) hkey

/-! ## Writing -/

/-- What is written outside of the part does not change it. -/
theorem agreeOn_put_hidden {k : κ} {r : ρ} (hr : p k r = false)
    (hold : ∀ r₀, t.get k = some r₀ → p k r₀ = false) : AgreeOn p (t.put k r) t := by
  intro k' r' hr'
  rw [get_put_eq_some]
  constructor
  · rintro (⟨rfl, rfl⟩ | ⟨-, hget⟩)
    · rw [hr] at hr'
      cases hr'
    · exact hget
  · intro hget
    refine .inr ⟨?_, hget⟩
    rintro rfl
    rw [hold r' hget] at hr'
    cases hr'

/-- The same write to both tables. -/
theorem AgreeOn.put (h : AgreeOn p t t') (k : κ) (r : ρ) : AgreeOn p (t.put k r) (t'.put k r) := by
  intro k' r' hr'
  rw [get_put_eq_some, get_put_eq_some]
  exact or_congr_right (and_congr_right fun _ => h k' r' hr')

theorem AgreeOn.discard (h : AgreeOn p t t') (q : κ → ρ → Bool) :
    AgreeOn p (t.discard q) (t'.discard q) := by
  intro k r hr
  rw [get_discard_eq_some, get_discard_eq_some]
  exact and_congr_left fun _ => h k r hr

/-- Rows outside of the part can be discarded. -/
theorem agreeOn_discard_hidden {q : κ → ρ → Bool}
    (hq : ∀ k r, t.get k = some r → q k r = true → p k r = false) : AgreeOn p (t.discard q) t := by
  intro k r hr
  rw [get_discard_eq_some]
  constructor
  · exact And.left
  · intro hget
    refine ⟨hget, ?_⟩
    by_contra hqr
    rw [hq k r hget (Bool.eq_true_of_not_eq_false hqr)] at hr
    cases hr

theorem AgreeOn.remove (h : AgreeOn p t t') (k : κ) : AgreeOn p (t.remove k) (t'.remove k) := by
  intro k' r' hr'
  rw [get_remove, get_remove]
  split_ifs
  · exact Iff.rfl
  · exact h k' r' hr'

theorem agreeOn_remove_hidden {k : κ} (hold : ∀ r₀, t.get k = some r₀ → p k r₀ = false) :
    AgreeOn p (t.remove k) t := by
  intro k' r' hr'
  rw [get_remove]
  split_ifs with hk
  · subst hk
    constructor
    · intro hnone
      cases hnone
    · intro hget
      rw [hold r' hget] at hr'
      cases hr'
  · exact Iff.rfl

end Table

namespace Keyset

variable {α γ : Type} {key : α → γ} {l l' : List α} {p : α → Bool}

theorem Distinct.nodup (h : Distinct key l) : l.Nodup :=
  h.imp fun hne heq => hne (congrArg key heq)

theorem Distinct.eq_of_key (h : Distinct key l) {a b : α} (ha : a ∈ l) (hb : b ∈ l)
    (heq : key a = key b) : a = b :=
  List.inj_on_of_nodup_map (List.pairwise_map.mpr h) ha hb heq

/-- Two lists that share the rows of a part. -/
theorem filter_perm (h : ∀ a, p a = true → (a ∈ l ↔ a ∈ l')) (hl : Distinct key l)
    (hl' : Distinct key l') : (l.filter p).Perm (l'.filter p) := by
  refine (List.perm_ext_iff_of_nodup (hl.nodup.filter p) (hl'.nodup.filter p)).mpr fun a => ?_
  rw [List.mem_filter, List.mem_filter]
  exact and_congr_left (h a)

theorem find?_eq_some_of_mem {a : α} (ha : a ∈ l) (hp : p a = true)
    (huniq : ∀ b ∈ l, p b = true → b = a) : l.find? p = some a := by
  cases hfind : l.find? p with
  | none => exact absurd hp (List.find?_eq_none.mp hfind a ha)
  | some b => rw [huniq b (List.mem_of_find?_eq_some hfind) (List.find?_some hfind)]

/-- A search for a row that is there at most once. -/
theorem find?_congr (h : ∀ a, p a = true → (a ∈ l ↔ a ∈ l'))
    (huniq : ∀ a ∈ l, ∀ b ∈ l, p a = true → p b = true → b = a) : l.find? p = l'.find? p := by
  cases hfind : l'.find? p with
  | none =>
      rw [List.find?_eq_none] at hfind ⊢
      exact fun a ha hp => hfind a ((h a hp).mp ha) hp
  | some a =>
      have hp := List.find?_some hfind
      have ha := (h a hp).mpr (List.mem_of_find?_eq_some hfind)
      exact find?_eq_some_of_mem ha hp fun b hb hpb => huniq a ha b hb hp hpb

end Keyset
