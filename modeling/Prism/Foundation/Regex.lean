import Mathlib.Computability.Language

/-! Regular expressions whose letters are decidable classes: their languages, and
a search by derivatives. -/

inductive Regex (α : Type*) where
  | fail
  | nil
  | set (p : α → Bool)
  | alt (r s : Regex α)
  | seq (r s : Regex α)
  | star (r : Regex α)

namespace Regex

variable {α : Type*}

/-- The words an expression matches in full. -/
def language : Regex α → Language α
  | fail => 0
  | nil => 1
  | set p => {w | ∃ a, p a = true ∧ w = [a]}
  | alt r s => r.language + s.language
  | seq r s => r.language * s.language
  | star r => KStar.kstar r.language

/-- `r?`. -/
def opt (r : Regex α) : Regex α :=
  .alt r .nil

/-- `r{n}`. -/
def exactly : ℕ → Regex α → Regex α
  | 0, _ => .nil
  | n + 1, r => .seq r (exactly n r)

/-- `r{n,}`. -/
def atLeast (n : ℕ) (r : Regex α) : Regex α :=
  .seq (exactly n r) (.star r)

/-- `r|s|…`. -/
def anyOf (rs : List (Regex α)) : Regex α :=
  rs.foldr .alt .fail

/-- `rs…`. -/
def inOrder (rs : List (Regex α)) : Regex α :=
  rs.foldr .seq .nil

/-- Some factor of the word is matched in full, as `re.search` finds it. -/
def Occurs (r : Regex α) (w : List α) : Prop :=
  ∃ m, m <:+: w ∧ m ∈ r.language

section Language

theorem mem_nil (w : List α) : w ∈ (nil : Regex α).language ↔ w = [] :=
  Language.mem_one w

theorem mem_set (p : α → Bool) (w : List α) :
    w ∈ (set p).language ↔ ∃ a, p a = true ∧ w = [a] :=
  Iff.rfl

theorem mem_alt (r s : Regex α) (w : List α) :
    w ∈ (alt r s).language ↔ w ∈ r.language ∨ w ∈ s.language :=
  Language.mem_add _ _ w

theorem mem_seq (r s : Regex α) (w : List α) :
    w ∈ (seq r s).language ↔ ∃ u ∈ r.language, ∃ v ∈ s.language, u ++ v = w :=
  Language.mem_mul

theorem append_mem_seq {r s : Regex α} {u v : List α} (hu : u ∈ r.language)
    (hv : v ∈ s.language) : u ++ v ∈ (seq r s).language :=
  Language.append_mem_mul hu hv

theorem mem_anyOf (rs : List (Regex α)) (w : List α) :
    w ∈ (anyOf rs).language ↔ ∃ r ∈ rs, w ∈ r.language := by
  induction rs with
  | nil => simp [anyOf, language]
  | cons r rs ih =>
      have h := mem_alt r (anyOf rs) w
      rw [ih] at h
      simpa [anyOf] using h

/-- A repeated class matches the words over it that are long enough. -/
theorem mem_star_set (p : α → Bool) (w : List α) :
    w ∈ (star (set p)).language ↔ ∀ a ∈ w, p a = true := by
  constructor
  · intro h
    obtain ⟨words, rfl, hwords⟩ := Language.mem_kstar.mp h
    intro a ha
    obtain ⟨u, hu, hau⟩ := List.mem_flatten.mp ha
    obtain ⟨b, hb, rfl⟩ := hwords u hu
    rw [List.mem_singleton.mp hau]
    exact hb
  · intro h
    refine Language.mem_kstar.mpr ⟨w.map fun a => [a], ?_, ?_⟩
    · induction w with
      | nil => rfl
      | cons a w ih => simpa using ih fun b hb => h b (List.mem_cons_of_mem a hb)
    · intro u hu
      obtain ⟨a, ha, rfl⟩ := List.mem_map.mp hu
      exact ⟨a, h a ha, rfl⟩

theorem mem_exactly_set (n : ℕ) (p : α → Bool) (w : List α) :
    w ∈ (exactly n (set p)).language ↔ w.length = n ∧ ∀ a ∈ w, p a = true := by
  induction n generalizing w with
  | zero =>
      rw [exactly, mem_nil]
      constructor
      · rintro rfl
        simp
      · intro h
        exact List.length_eq_zero_iff.mp h.1
  | succ n ih =>
      rw [exactly, mem_seq]
      constructor
      · rintro ⟨_, ⟨a, ha, rfl⟩, v, hv, rfl⟩
        have := (ih v).mp hv
        simp_all
      · rintro ⟨hlen, hall⟩
        cases w with
        | nil => simp at hlen
        | cons a v =>
            have hv : v ∈ (exactly n (set p)).language := by
              rw [ih]
              exact ⟨by simpa using hlen, fun b hb => hall b (List.mem_cons_of_mem a hb)⟩
            exact ⟨[a], ⟨a, hall a List.mem_cons_self, rfl⟩, v, hv, rfl⟩

theorem mem_atLeast_set (n : ℕ) (p : α → Bool) (w : List α) :
    w ∈ (atLeast n (set p)).language ↔ n ≤ w.length ∧ ∀ a ∈ w, p a = true := by
  rw [atLeast, mem_seq]
  constructor
  · rintro ⟨u, hu, v, hv, rfl⟩
    rw [mem_exactly_set] at hu
    rw [mem_star_set] at hv
    refine ⟨by simp; omega, ?_⟩
    intro a ha
    exact (List.mem_append.mp ha).elim (hu.2 a) (hv a)
  · rintro ⟨hlen, hall⟩
    refine ⟨w.take n, ?_, w.drop n, ?_, List.take_append_drop n w⟩
    · rw [mem_exactly_set]
      exact ⟨by simpa using hlen, fun a ha => hall a (List.mem_of_mem_take ha)⟩
    · rw [mem_star_set]
      exact fun a ha => hall a (List.mem_of_mem_drop ha)

end Language

section Letters

/-- Every letter of every matched word satisfies `P`. -/
def Over (P : α → Prop) (r : Regex α) : Prop :=
  ∀ w ∈ r.language, ∀ a ∈ w, P a

variable {P Q : α → Prop} {r s : Regex α}

theorem Over.mono (h : ∀ a, P a → Q a) (hr : Over P r) : Over Q r :=
  fun w hw a ha => h a (hr w hw a ha)

theorem over_nil : Over P nil := by
  intro w hw a ha
  rw [(mem_nil w).mp hw] at ha
  simp at ha

theorem over_set {p : α → Bool} (h : ∀ a, p a = true → P a) : Over P (set p) := by
  rintro w ⟨b, hb, rfl⟩ a ha
  rw [List.mem_singleton.mp ha]
  exact h b hb

theorem Over.alt (hr : Over P r) (hs : Over P s) : Over P (alt r s) := by
  intro w hw
  exact ((mem_alt r s w).mp hw).elim (hr w) (hs w)

theorem Over.seq (hr : Over P r) (hs : Over P s) : Over P (seq r s) := by
  intro w hw a ha
  obtain ⟨u, hu, v, hv, rfl⟩ := (mem_seq r s w).mp hw
  exact (List.mem_append.mp ha).elim (hr u hu a) (hs v hv a)

theorem Over.star (hr : Over P r) : Over P (star r) := by
  intro w hw a ha
  obtain ⟨words, rfl, hwords⟩ := Language.mem_kstar.mp hw
  obtain ⟨u, hu, hau⟩ := List.mem_flatten.mp ha
  exact hr u (hwords u hu) a hau

theorem Over.opt (hr : Over P r) : Over P r.opt :=
  hr.alt over_nil

theorem Over.exactly (n : ℕ) (hr : Over P r) : Over P (r.exactly n) := by
  induction n with
  | zero => exact over_nil
  | succ n ih => exact hr.seq ih

theorem Over.atLeast (n : ℕ) (hr : Over P r) : Over P (r.atLeast n) :=
  (hr.exactly n).seq hr.star

theorem over_anyOf {rs : List (Regex α)} (h : ∀ r ∈ rs, Over P r) : Over P (anyOf rs) := by
  intro w hw
  obtain ⟨r, hr, hwr⟩ := (mem_anyOf rs w).mp hw
  exact h r hr w hwr

theorem over_inOrder {rs : List (Regex α)} (h : ∀ r ∈ rs, Over P r) :
    Over P (inOrder rs) := by
  induction rs with
  | nil => exact over_nil
  | cons r rs ih =>
      have hr := h r List.mem_cons_self
      exact hr.seq (ih fun s hs => h s (List.mem_cons_of_mem r hs))

end Letters

section Search

/-- The empty word is matched. -/
def nullable : Regex α → Bool
  | fail => false
  | nil => true
  | set _ => false
  | alt r s => r.nullable || s.nullable
  | seq r s => r.nullable && s.nullable
  | star _ => true

/-- `alt` that drops a failing side. -/
def orElse : Regex α → Regex α → Regex α
  | fail, s => s
  | r, fail => r
  | r, s => alt r s

/-- `seq` that fails with its first part. -/
def andThen : Regex α → Regex α → Regex α
  | fail, _ => fail
  | r, s => seq r s

/-- What remains to be matched after the letter `a`. -/
def deriv (a : α) : Regex α → Regex α
  | fail => fail
  | nil => fail
  | set p => if p a then nil else fail
  | alt r s => orElse (r.deriv a) (s.deriv a)
  | seq r s =>
    if r.nullable then orElse (andThen (r.deriv a) s) (s.deriv a) else andThen (r.deriv a) s
  | star r => andThen (r.deriv a) (star r)

/-- `re.fullmatch`, as a decision. -/
def fullmatch (r : Regex α) : List α → Bool
  | [] => r.nullable
  | a :: w => (r.deriv a).fullmatch w

/-- Some prefix of the word is matched. A failing expression stops the scan. -/
def matchesPrefix (r : Regex α) : List α → Bool
  | [] => r.nullable
  | a :: w => r.nullable || match r.deriv a with
    | fail => false
    | s => s.matchesPrefix w

/-- `re.search`, as a decision. -/
def search (r : Regex α) : List α → Bool
  | [] => r.nullable
  | a :: w => r.matchesPrefix (a :: w) || r.search w

theorem nullable_iff (r : Regex α) : r.nullable = true ↔ [] ∈ r.language := by
  induction r with
  | fail => simp [nullable, language]
  | nil => simp [nullable, language]
  | set p => simp [nullable, mem_set]
  | alt r s ihr ihs => simp [nullable, mem_alt, ihr, ihs]
  | seq r s ihr ihs =>
      rw [nullable, Bool.and_eq_true, ihr, ihs, mem_seq]
      constructor
      · rintro ⟨hr, hs⟩
        exact ⟨[], hr, [], hs, rfl⟩
      · rintro ⟨u, hu, v, hv, h⟩
        obtain ⟨rfl, rfl⟩ := List.append_eq_nil_iff.mp h
        exact ⟨hu, hv⟩
  | star r _ => simp [nullable, language, Language.nil_mem_kstar]

theorem language_orElse (r s : Regex α) : (orElse r s).language = (alt r s).language := by
  unfold orElse
  split
  · simp [language]
  · simp [language]
  · rfl

theorem language_andThen (r s : Regex α) : (andThen r s).language = (seq r s).language := by
  unfold andThen
  split
  · simp [language]
  · rfl

/-- A word of a product starts in its first factor, or the first factor is
skipped. -/
private theorem cons_mem_seq (a : α) (r s : Regex α) (w : List α) :
    a :: w ∈ (seq r s).language ↔
      (∃ u, a :: u ∈ r.language ∧ ∃ v ∈ s.language, u ++ v = w) ∨
        [] ∈ r.language ∧ a :: w ∈ s.language := by
  rw [mem_seq]
  constructor
  · rintro ⟨u, hu, v, hv, h⟩
    cases u with
    | nil => exact Or.inr ⟨hu, h ▸ hv⟩
    | cons b u =>
        obtain ⟨rfl, rfl⟩ := List.cons.inj h
        exact Or.inl ⟨u, hu, v, hv, rfl⟩
  · rintro (⟨u, hu, v, hv, rfl⟩ | ⟨hr, hs⟩)
    · exact ⟨a :: u, hu, v, hv, rfl⟩
    · exact ⟨[], hr, a :: w, hs, rfl⟩

/-- A nonempty word of an iteration starts with a nonempty word of its body. -/
private theorem cons_mem_star (a : α) (r : Regex α) (w : List α) :
    a :: w ∈ (star r).language ↔
      ∃ u, a :: u ∈ r.language ∧ ∃ v ∈ (star r).language, u ++ v = w := by
  constructor
  · intro h
    obtain ⟨words, hw, hwords⟩ := Language.mem_kstar_iff_exists_nonempty.mp h
    cases words with
    | nil => simp at hw
    | cons x words =>
        obtain ⟨hx, hne⟩ := hwords x List.mem_cons_self
        cases x with
        | nil => exact absurd rfl hne
        | cons b u =>
            obtain ⟨rfl, rfl⟩ := List.cons.inj hw
            have hrest : words.flatten ∈ (star r).language :=
              Language.join_mem_kstar fun y hy => (hwords y (List.mem_cons_of_mem _ hy)).1
            exact ⟨u, hx, words.flatten, hrest, rfl⟩
  · rintro ⟨u, hu, v, hv, rfl⟩
    obtain ⟨words, rfl, hwords⟩ := Language.mem_kstar.mp hv
    refine Language.mem_kstar.mpr ⟨(a :: u) :: words, rfl, ?_⟩
    intro y hy
    rcases List.mem_cons.mp hy with rfl | hy
    · exact hu
    · exact hwords y hy

theorem mem_deriv (a : α) (r : Regex α) (w : List α) :
    w ∈ (r.deriv a).language ↔ a :: w ∈ r.language := by
  induction r generalizing w with
  | fail => simp [deriv, language]
  | nil => simp [deriv, language]
  | set p =>
      rw [deriv, mem_set]
      split
      · rename_i ha
        rw [mem_nil]
        constructor
        · rintro rfl
          exact ⟨a, ha, rfl⟩
        · rintro ⟨b, -, hb⟩
          exact (List.cons.inj hb).2
      · rename_i ha
        simp only [language, Language.notMem_zero, false_iff]
        rintro ⟨b, hb, h⟩
        exact ha ((List.cons.inj h).1 ▸ hb)
  | alt r s ihr ihs => rw [deriv, language_orElse, mem_alt, mem_alt, ihr, ihs]
  | seq r s ihr ihs =>
      have hfirst : w ∈ (andThen (r.deriv a) s).language ↔
          ∃ u, a :: u ∈ r.language ∧ ∃ v ∈ s.language, u ++ v = w := by
        rw [language_andThen, mem_seq]
        exact exists_congr fun u => and_congr_left' (ihr u)
      rw [cons_mem_seq, deriv, ← nullable_iff]
      split
      · rename_i hn
        rw [language_orElse, mem_alt, hfirst, ihs]
        simp [hn]
      · rename_i hn
        rw [hfirst]
        simp [hn]
  | star r ih =>
      rw [cons_mem_star, deriv, language_andThen, mem_seq]
      exact exists_congr fun u => and_congr_left' (ih u)

private theorem matchesPrefix_fail (w : List α) : (fail : Regex α).matchesPrefix w = false := by
  cases w with
  | nil => rfl
  | cons a w => rfl

private theorem matchesPrefix_cons (r : Regex α) (a : α) (w : List α) :
    r.matchesPrefix (a :: w) = (r.nullable || (r.deriv a).matchesPrefix w) := by
  rw [matchesPrefix]
  split
  · rename_i h
    rw [h, matchesPrefix_fail]
  · rfl

theorem matchesPrefix_iff (r : Regex α) (w : List α) :
    r.matchesPrefix w = true ↔ ∃ m, m <+: w ∧ m ∈ r.language := by
  induction w generalizing r with
  | nil => simp [matchesPrefix, nullable_iff]
  | cons a w ih =>
      rw [matchesPrefix_cons, Bool.or_eq_true, nullable_iff, ih]
      constructor
      · rintro (h | ⟨m, hm, h⟩)
        · exact ⟨[], List.nil_prefix, h⟩
        · exact ⟨a :: m, (List.prefix_cons_inj a).mpr hm, (mem_deriv a r m).mp h⟩
      · rintro ⟨m, hm, h⟩
        cases m with
        | nil => exact Or.inl h
        | cons b m =>
            obtain ⟨rfl, htail⟩ := List.cons_prefix_cons.mp hm
            exact Or.inr ⟨m, htail, (mem_deriv b r m).mpr h⟩

/-- The search succeeds exactly on the words that contain a match. -/
theorem search_iff (r : Regex α) (w : List α) : r.search w = true ↔ r.Occurs w := by
  induction w with
  | nil => simp [search, Occurs, nullable_iff]
  | cons a w ih =>
      rw [search, Bool.or_eq_true, matchesPrefix_iff, ih]
      constructor
      · rintro (⟨m, hm, h⟩ | ⟨m, hm, h⟩)
        · exact ⟨m, hm.isInfix, h⟩
        · exact ⟨m, List.infix_cons hm, h⟩
      · rintro ⟨m, hm, h⟩
        rcases List.infix_cons_iff.mp hm with hm | hm
        · exact Or.inl ⟨m, hm, h⟩
        · exact Or.inr ⟨m, hm, h⟩

instance (r : Regex α) (w : List α) : Decidable (r.Occurs w) :=
  decidable_of_iff _ (search_iff r w)

theorem Occurs.widen {r : Regex α} {v w : List α} (h : r.Occurs v) (hvw : v <:+: w) :
    r.Occurs w := by
  obtain ⟨m, hm, hr⟩ := h
  exact ⟨m, hm.trans hvw, hr⟩

end Search

end Regex
