import Mathlib.Data.List.AList

/-! Keyed tables: finite maps from primary keys to rows, over `AList`. A key
occurs at most once by construction, so primary-key uniqueness is never a
proof obligation of the code that uses a table. -/

/-- A relational table whose rows are addressed by a primary key. -/
abbrev Table (κ ρ : Type*) := AList (fun _ : κ => ρ)

namespace Table

variable {κ ρ : Type*}

/-- The rows of a table together with their keys, in storage order. -/
def rows (t : Table κ ρ) : List (κ × ρ) :=
  t.entries.map fun e => (e.1, e.2)

/-- Rows accepted by a predicate on key and contents, in storage order. -/
def select (t : Table κ ρ) (p : κ → ρ → Bool) : List (κ × ρ) :=
  t.rows.filter fun e => p e.1 e.2

/-- The first row accepted by a predicate, if any. -/
def find (t : Table κ ρ) (p : κ → ρ → Bool) : Option (κ × ρ) :=
  t.rows.find? fun e => p e.1 e.2

/-- Whether some row is accepted by a predicate. -/
def holds (t : Table κ ρ) (p : κ → ρ → Bool) : Bool :=
  t.rows.any fun e => p e.1 e.2

/-- Every row replaced by what a function makes of it. -/
def mapRows (t : Table κ ρ) (f : κ → ρ → ρ) : Table κ ρ :=
  ⟨t.entries.map (.map id f), t.nodupKeys.map₂ f⟩

/-- The rows a predicate does not accept. -/
def discard (t : Table κ ρ) (p : κ → ρ → Bool) : Table κ ρ :=
  ⟨t.entries.filter fun e => !p e.1 e.2, t.nodupKeys.sublist List.filter_sublist⟩

variable [DecidableEq κ]

/-- The row stored under a key. -/
def get (t : Table κ ρ) (k : κ) : Option ρ :=
  t.lookup k

/-- Store a row under a key, replacing an earlier row of that key. -/
def put (t : Table κ ρ) (k : κ) (r : ρ) : Table κ ρ :=
  t.insert k r

/-- Forget the row stored under a key. -/
def remove (t : Table κ ρ) (k : κ) : Table κ ρ :=
  t.erase k

@[simp] theorem get_empty (k : κ) : (∅ : Table κ ρ).get k = none :=
  AList.lookup_empty k

@[simp] theorem get_put_self (t : Table κ ρ) (k : κ) (r : ρ) :
    (t.put k r).get k = some r :=
  AList.lookup_insert t

theorem get_put_of_ne (t : Table κ ρ) {k k' : κ} (r : ρ) (h : k' ≠ k) :
    (t.put k r).get k' = t.get k' :=
  AList.lookup_insert_ne h

theorem get_put (t : Table κ ρ) (k k' : κ) (r : ρ) :
    (t.put k r).get k' = if k' = k then some r else t.get k' := by
  by_cases h : k' = k
  · subst k'
    simp
  · simp [h, get_put_of_ne t r h]

theorem get_put_eq_some (t : Table κ ρ) (k k' : κ) (r r' : ρ) :
    (t.put k r).get k' = some r' ↔ k' = k ∧ r' = r ∨ k' ≠ k ∧ t.get k' = some r' := by
  rw [get_put]
  by_cases h : k' = k <;> simp [h, eq_comm]

theorem get_remove (t : Table κ ρ) (k k' : κ) :
    (t.remove k).get k' = if k' = k then none else t.get k' := by
  by_cases h : k' = k
  · rw [if_pos h, h]
    exact AList.lookup_erase k t
  · rw [if_neg h]
    exact AList.lookup_erase_ne h

theorem mem_rows_iff (t : Table κ ρ) (k : κ) (r : ρ) :
    (k, r) ∈ t.rows ↔ t.get k = some r := by
  constructor
  · intro h
    obtain ⟨e, he, heq⟩ := List.mem_map.mp h
    obtain ⟨rfl, rfl⟩ := Prod.mk.inj heq
    exact AList.mem_lookup_iff.mpr he
  · intro h
    exact List.mem_map.mpr ⟨⟨k, r⟩, AList.mem_lookup_iff.mp h, rfl⟩

theorem mem_select_iff (t : Table κ ρ) (p : κ → ρ → Bool) (k : κ) (r : ρ) :
    (k, r) ∈ t.select p ↔ t.get k = some r ∧ p k r = true := by
  simp [select, List.mem_filter, mem_rows_iff]

theorem holds_iff (t : Table κ ρ) (p : κ → ρ → Bool) :
    t.holds p = true ↔ ∃ k r, t.get k = some r ∧ p k r = true := by
  simp [holds, List.any_eq_true, mem_rows_iff]

theorem holds_eq_false_iff (t : Table κ ρ) (p : κ → ρ → Bool) :
    t.holds p = false ↔ ∀ k r, t.get k = some r → p k r = false := by
  simp [holds, List.any_eq_false, mem_rows_iff]

theorem get_mapRows (t : Table κ ρ) (f : κ → ρ → ρ) (k : κ) :
    (t.mapRows f).get k = (t.get k).map (f k) :=
  List.dlookup_map₂ k

theorem get_discard_eq_some (t : Table κ ρ) (p : κ → ρ → Bool) (k : κ) (r : ρ) :
    (t.discard p).get k = some r ↔ t.get k = some r ∧ p k r = false := by
  rw [← mem_rows_iff, ← mem_rows_iff]
  simp only [rows, discard, List.mem_map, List.mem_filter, Bool.not_eq_true']
  constructor
  · rintro ⟨e, ⟨he, hp⟩, heq⟩
    obtain ⟨rfl, rfl⟩ := Prod.mk.inj heq
    exact ⟨⟨e, he, rfl⟩, hp⟩
  · rintro ⟨⟨e, he, heq⟩, hp⟩
    obtain ⟨rfl, rfl⟩ := Prod.mk.inj heq
    exact ⟨e, ⟨he, hp⟩, rfl⟩

/-! ## Counting rows -/

omit [DecidableEq κ] in
theorem nodup_keys_select (t : Table κ ρ) (p : κ → ρ → Bool) :
    ((t.select p).map Prod.fst).Nodup := by
  have hrows : (t.rows.map Prod.fst).Nodup := by
    have hkeys : t.rows.map Prod.fst = t.keys := by
      simp [rows, AList.keys, List.keys]
    rw [hkeys]
    exact t.keys_nodup
  exact hrows.sublist (List.filter_sublist.map Prod.fst)

theorem mem_keys_select_iff (t : Table κ ρ) (p : κ → ρ → Bool) (k : κ) :
    k ∈ (t.select p).map Prod.fst ↔ ∃ r, t.get k = some r ∧ p k r = true := by
  simp [mem_select_iff]

/-- A table whose accepted rows all have accepted counterparts in another table,
but for one key, has at most one of them more. -/
theorem length_select_le_succ {t t' : Table κ ρ} {p p' : κ → ρ → Bool} (k₀ : κ)
    (h : ∀ k r, t.get k = some r → p k r = true → k ≠ k₀ →
      ∃ r', t'.get k = some r' ∧ p' k r' = true) :
    (t.select p).length ≤ (t'.select p').length + 1 := by
  have hsub : (t.select p).map Prod.fst ⊆ k₀ :: (t'.select p').map Prod.fst := by
    intro k hk
    obtain ⟨r, hget, hp⟩ := (mem_keys_select_iff t p k).mp hk
    by_cases hne : k = k₀
    · simp [hne]
    · exact List.mem_cons_of_mem _ ((mem_keys_select_iff t' p' k).mpr (h k r hget hp hne))
  simpa using (List.subperm_of_subset (nodup_keys_select t p) hsub).length_le

theorem length_select_le {t t' : Table κ ρ} {p p' : κ → ρ → Bool}
    (h : ∀ k r, t.get k = some r → p k r = true →
      ∃ r', t'.get k = some r' ∧ p' k r' = true) :
    (t.select p).length ≤ (t'.select p').length := by
  have hsub : (t.select p).map Prod.fst ⊆ (t'.select p').map Prod.fst := by
    intro k hk
    obtain ⟨r, hget, hp⟩ := (mem_keys_select_iff t p k).mp hk
    exact (mem_keys_select_iff t' p' k).mpr (h k r hget hp)
  simpa using (List.subperm_of_subset (nodup_keys_select t p) hsub).length_le

/-! ## Tables that keep their rows -/

/-- Every row is still stored, under a value related to its earlier one. -/
def Keeps (R : ρ → ρ → Prop) (t t' : Table κ ρ) : Prop :=
  ∀ k r, t.get k = some r → ∃ r', t'.get k = some r' ∧ R r r'

theorem Keeps.refl {R : ρ → ρ → Prop} (hR : ∀ r, R r r) (t : Table κ ρ) : t.Keeps R t :=
  fun _ r h => ⟨r, h, hR r⟩

theorem Keeps.trans {R : ρ → ρ → Prop} (hR : ∀ r s u, R r s → R s u → R r u)
    {t t' t'' : Table κ ρ} (h : t.Keeps R t') (h' : t'.Keeps R t'') : t.Keeps R t'' := by
  intro k r hr
  obtain ⟨r', hr', hrr'⟩ := h k r hr
  obtain ⟨r'', hr'', hrr''⟩ := h' k r' hr'
  exact ⟨r'', hr'', hR r r' r'' hrr' hrr''⟩

/-- Storing a row keeps a table when the row is related to the one it replaces. -/
theorem keeps_put {R : ρ → ρ → Prop} (hR : ∀ r, R r r) {t : Table κ ρ} {k : κ} {r : ρ}
    (h : ∀ r₀, t.get k = some r₀ → R r₀ r) : t.Keeps R (t.put k r) := by
  intro k' r' hr'
  by_cases hk : k' = k
  · subst k'
    exact ⟨r, get_put_self .., h r' hr'⟩
  · exact ⟨r', (get_put_of_ne t r hk).trans hr', hR r'⟩

/-! ## Slots -/

/-- At most one row occupies a slot. -/
def Exclusive {σ : Type*} (slot : ρ → Option σ) (t : Table κ ρ) : Prop :=
  ∀ k r k' r' s, t.get k = some r → t.get k' = some r' → slot r = some s → slot r' = some s →
    k = k'

theorem exclusive_empty {σ : Type*} (slot : ρ → Option σ) :
    Exclusive slot (∅ : Table κ ρ) := by
  intro k r k' r' s h
  simp at h

/-- Slots stay exclusive when every row that occupies one occupied it before, or is
the only one that takes a vacant one. -/
theorem Exclusive.step {σ : Type*} {slot : ρ → Option σ} {t t' : Table κ ρ}
    (h : Exclusive slot t)
    (hstep : ∀ k r s, t'.get k = some r → slot r = some s →
      (∃ r₀, t.get k = some r₀ ∧ slot r₀ = some s) ∨
      (∀ k₀ r₀, t.get k₀ = some r₀ → slot r₀ ≠ some s) ∧
        ∀ k₁, k₁ ≠ k → t'.get k₁ = t.get k₁) : Exclusive slot t' := by
  intro k r k' r' s hr hr' hs hs'
  by_contra hne
  rcases hstep k r s hr hs with ⟨r₀, hr₀, hs₀⟩ | ⟨hvacant, honly⟩
  · rcases hstep k' r' s hr' hs' with ⟨r₀', hr₀', hs₀'⟩ | ⟨hvacant', -⟩
    · exact hne (h k r₀ k' r₀' s hr₀ hr₀' hs₀ hs₀')
    · exact hvacant' k r₀ hr₀ hs₀
  · rw [honly k' (Ne.symm hne)] at hr'
    exact hvacant k' r' hr' hs'

/-! ## Searches -/

/-- A row returned by a search is stored under its key and accepted. -/
theorem find_spec {t : Table κ ρ} {p : κ → ρ → Bool} {k : κ} {r : ρ}
    (h : t.find p = some (k, r)) : t.get k = some r ∧ p k r = true := by
  refine ⟨(mem_rows_iff t k r).mp (List.mem_of_find?_eq_some h), ?_⟩
  simpa using List.find?_some h

theorem find_eq_none_iff (t : Table κ ρ) (p : κ → ρ → Bool) :
    t.find p = none ↔ ∀ k r, t.get k = some r → p k r = false := by
  simp [find, List.find?_eq_none, mem_rows_iff]

end Table
