import Mathlib.Data.List.TakeWhile
import Prism.Model.Standards

/-! Fenced blocks of a document: which fence is open after some lines. -/

namespace Prism.Standards

open List

/-! ## Statements -/

/-- A line of a fence: a short indent, a run of one fence character, and what follows. -/
structure FenceLine (line : List Char) (c : Char) (n : ℕ) (info : List Char) : Prop where
  shape : ∃ k ≤ 3, line = replicate k ' ' ++ (replicate n c ++ info)
  kind : c = '\x60' ∨ c = '~'
  long : 3 ≤ n
  whole : info.head? ≠ some c

/-- A line that opens a block outside any. -/
def Opens (line : List Char) (c : Char) (n : ℕ) : Prop :=
  ∃ info, FenceLine line c n info ∧ (c = '\x60' → '\x60' ∉ info)

/-- A line that closes a block of the fence. -/
def Closes (line : List Char) (c : Char) (n : ℕ) : Prop :=
  ∃ m info, FenceLine line c m info ∧ n ≤ m ∧ Text.strip info = []

/-- The open fence before and after a line. -/
inductive FenceStep (line : List Char) : Option (Char × ℕ) → Option (Char × ℕ) → Prop where
  | opens {c n} (h : Opens line c n) : FenceStep line none (some (c, n))
  | outside (h : ∀ c n, ¬ Opens line c n) : FenceStep line none none
  | closes {c n} (h : Closes line c n) : FenceStep line (some (c, n)) none
  | inside {c n} (h : ¬ Closes line c n) : FenceStep line (some (c, n)) (some (c, n))

/-- The open fence before and after some lines. -/
inductive Fencing : Option (Char × ℕ) → List (List Char) → Option (Char × ℕ) → Prop where
  | nil (fence) : Fencing fence [] fence
  | cons {line fence next last lines} (hstep : FenceStep line fence next)
      (hrest : Fencing next lines last) : Fencing fence (line :: lines) last

/-- No fence is open after some lines of a document. -/
def Outside (lines : List (List Char)) : Prop :=
  Fencing none lines none

/-! ## Fence lines -/

theorem takeWhile_replicate {c : Char} (n : ℕ) {rest : List Char} (h : rest.head? ≠ some c) :
    (replicate n c ++ rest).takeWhile (· = c) = replicate n c := by
  have hrest : rest.takeWhile (· = c) = [] := by
    cases rest with
    | nil => rfl
    | cons d rest => simpa using h
  rw [takeWhile_append_of_pos (by simp), hrest, append_nil]

/-- A run of one character, and what does not go on with it. -/
theorem eq_replicate_append (c : Char) (s : List Char) :
    s = replicate (s.takeWhile (· = c)).length c ++ s.drop (s.takeWhile (· = c)).length ∧
      (s.drop (s.takeWhile (· = c)).length).head? ≠ some c := by
  have hrun : s.takeWhile (· = c) = replicate (s.takeWhile (· = c)).length c :=
    eq_replicate_iff.mpr ⟨rfl, fun d hd => by simpa using mem_takeWhile_imp hd⟩
  have hdrop : s.drop (s.takeWhile (· = c)).length = s.dropWhile (· = c) := by
    have : (s.takeWhile (· = c) ++ s.dropWhile (· = c)).drop (s.takeWhile (· = c)).length =
        s.dropWhile (· = c) := drop_left
    rwa [takeWhile_append_dropWhile] at this
  rw [hdrop, ← hrun]
  refine ⟨(takeWhile_append_dropWhile ..).symm, fun hhead => ?_⟩
  have := head?_dropWhile_not (p := fun d : Char => decide (d = c)) (l := s)
  rw [hhead] at this
  simp at this

/-- The pattern of a fence line reads its run and what follows. -/
theorem marker_eq_some {line run info : List Char} :
    marker line = some (run, info) ↔ ∃ c n, run = replicate n c ∧ FenceLine line c n info := by
  constructor
  · intro h
    obtain ⟨hline, -⟩ := eq_replicate_append ' ' line
    unfold marker at h
    generalize hindent : line.takeWhile (· = ' ') = indent at h hline
    dsimp only at h
    cases hbody : line.drop indent.length with
    | nil =>
        rw [hbody] at h
        cases h
    | cons c rest =>
        rw [hbody] at h hline
        obtain ⟨hrun, hhead⟩ := eq_replicate_append c (c :: rest)
        dsimp only at h
        split at h
        · next hfence =>
          obtain ⟨hshort, hkind, hlong⟩ := hfence
          obtain ⟨rfl, rfl⟩ := Prod.mk.inj (Option.some.inj h)
          refine ⟨c, _, ?_, ⟨indent.length, hshort, ?_⟩, hkind, hlong, hhead⟩
          · exact eq_replicate_iff.mpr ⟨rfl, fun d hd => by simpa using mem_takeWhile_imp hd⟩
          · rw [← hrun]
            exact hline
        · cases h
  · rintro ⟨c, n, rfl, ⟨k, hk, rfl⟩, hkind, hlong, hwhole⟩
    obtain ⟨m, rfl⟩ : ∃ m, n = m + 1 := ⟨n - 1, by omega⟩
    have hspace : (replicate (m + 1) c ++ info).head? ≠ some ' ' := by
      rintro h
      obtain rfl : c = ' ' := by simpa [replicate_succ] using h
      rcases hkind with h | h <;> exact absurd h (by decide)
    have hrun := takeWhile_replicate (m + 1) hwhole
    unfold marker
    rw [takeWhile_replicate k hspace]
    dsimp only
    rw [length_replicate, drop_left' length_replicate]
    rw [replicate_succ, cons_append] at hrun ⊢
    dsimp only
    rw [hrun, ← replicate_succ, length_replicate,
      if_pos ⟨hk, hkind, hlong⟩, ← cons_append, ← replicate_succ, drop_left' length_replicate]

theorem FenceLine.unique {line info info' : List Char} {c c' : Char} {n n' : ℕ}
    (h : FenceLine line c n info) (h' : FenceLine line c' n' info') :
    c = c' ∧ n = n' ∧ info = info' := by
  have hsome := marker_eq_some.mpr ⟨c, n, rfl, h⟩
  rw [marker_eq_some.mpr ⟨c', n', rfl, h'⟩] at hsome
  obtain ⟨hrun, rfl⟩ := Prod.mk.inj (Option.some.inj hsome)
  have hn : n' = n := by simpa using congrArg length hrun
  subst hn
  obtain ⟨m, rfl⟩ : ∃ m, n' = m + 1 := ⟨n' - 1, by have := h.long; omega⟩
  rw [replicate_succ, replicate_succ] at hrun
  exact ⟨(cons.inj hrun).1.symm, rfl, rfl⟩

/-! ## The open fence -/

theorem FenceStep.unique {line : List Char} {fence next next' : Option (Char × ℕ)}
    (h : FenceStep line fence next) (h' : FenceStep line fence next') : next = next' := by
  cases h with
  | opens h =>
      cases h' with
      | opens h' =>
          obtain ⟨_, h, -⟩ := h
          obtain ⟨_, h', -⟩ := h'
          obtain ⟨rfl, rfl, -⟩ := h.unique h'
          rfl
      | outside h' => exact absurd h (h' _ _)
  | outside h =>
      cases h' with
      | opens h' => exact absurd h' (h _ _)
      | outside h' => rfl
  | closes h =>
      cases h' with
      | closes h' => rfl
      | inside h' => exact absurd h h'
  | inside h =>
      cases h' with
      | closes h' => exact absurd h' h
      | inside h' => rfl

theorem Fencing.unique {fence last last' : Option (Char × ℕ)} {lines : List (List Char)}
    (h : Fencing fence lines last) (h' : Fencing fence lines last') : last = last' := by
  induction h with
  | nil =>
      cases h' with
      | nil => rfl
  | cons hstep _ ih =>
      cases h' with
      | cons hstep' hrest' =>
          obtain rfl := hstep.unique hstep'
          exact ih hrest'

theorem Fencing.snoc {fence last next : Option (Char × ℕ)} {lines : List (List Char)}
    {line : List Char} (h : Fencing fence lines last) (hstep : FenceStep line last next) :
    Fencing fence (lines ++ [line]) next := by
  induction h with
  | nil => exact .cons hstep (.nil _)
  | cons hfirst _ ih => exact .cons hfirst (ih hstep)

/-- The text of an open fence, empty where none is open. -/
inductive FenceText : Option (Char × ℕ) → List Char → Prop where
  | none : FenceText none []
  | some {c n} (h : 3 ≤ n) : FenceText (some (c, n)) (replicate n c)

theorem FenceText.eq_nil_iff {fence : Option (Char × ℕ)} {text : List Char}
    (h : FenceText fence text) : text = [] ↔ fence = .none := by
  cases h with
  | none => simp
  | some h => simp; omega

theorem nextFence_step {fence : Option (Char × ℕ)} {text : List Char} (h : FenceText fence text)
    (line : List Char) :
    ∃ next, FenceStep line fence next ∧ FenceText next (nextFence text line) := by
  unfold nextFence
  cases hmarker : marker line with
  | none =>
      have hnone : ∀ c n info, ¬ FenceLine line c n info := by
        intro c n info hline
        rw [marker_eq_some.mpr ⟨c, n, rfl, hline⟩] at hmarker
        cases hmarker
      cases h with
      | none => exact ⟨_, .outside fun c n ⟨info, hline, _⟩ => hnone c n info hline, .none⟩
      | some hlong => exact ⟨_, .inside fun ⟨m, info, hline, _⟩ => hnone _ m info hline, .some hlong⟩
  | some entry =>
      obtain ⟨run, info⟩ := entry
      obtain ⟨d, m, rfl, hline⟩ := marker_eq_some.mp hmarker
      obtain ⟨m, rfl⟩ : ∃ k, m = k + 1 := ⟨m - 1, by have := hline.long; omega⟩
      dsimp only
      cases h with
      | none =>
          rw [if_neg (by simp)]
          by_cases hopens : d = '`' → '`' ∉ info
          · rw [if_pos]
            · exact ⟨_, .opens ⟨info, hline, hopens⟩, .some hline.long⟩
            · rw [replicate_succ, head?_cons, ne_eq, Option.some.injEq]
              exact imp_iff_not_or.mp hopens
          · rw [if_neg]
            · refine ⟨_, .outside ?_, .none⟩
              rintro c n ⟨info', hline', h⟩
              obtain ⟨rfl, -, rfl⟩ := hline.unique hline'
              exact hopens h
            · rw [replicate_succ, head?_cons, ne_eq, Option.some.injEq]
              exact mt imp_iff_not_or.mpr hopens
      | @some c n hlong =>
          obtain ⟨k, rfl⟩ : ∃ k, n = k + 1 := ⟨n - 1, by omega⟩
          rw [if_pos (by simp [replicate_succ])]
          by_cases hcloses : d = c ∧ k + 1 ≤ m + 1 ∧ Text.strip info = []
          · rw [if_pos]
            · obtain ⟨rfl, hlonger, hblank⟩ := hcloses
              exact ⟨_, .closes ⟨_, info, hline, hlonger, hblank⟩, .none⟩
            · rw [length_replicate, length_replicate, replicate_succ, replicate_succ, head?_cons,
                head?_cons, Option.some.injEq]
              exact hcloses
          · rw [if_neg]
            · refine ⟨_, .inside ?_, .some hlong⟩
              rintro ⟨m', info', hline', hlonger, hblank⟩
              obtain ⟨rfl, rfl, rfl⟩ := hline.unique hline'
              exact hcloses ⟨rfl, hlonger, hblank⟩
            · rw [length_replicate, length_replicate, replicate_succ, replicate_succ, head?_cons,
                head?_cons, Option.some.injEq]
              exact hcloses

end Prism.Standards
