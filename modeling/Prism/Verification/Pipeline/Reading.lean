import Mathlib.Data.Finset.Lattice.Lemmas
import Prism.Model.Pipeline

/-! The walk of `changed_lines` accepts the lines of complete hunks, and nothing else. -/

namespace Prism.Pipeline

open Patch (header?)

/-! ## Statements -/

/-- The rest of a hunk of which `old` and `new` lines are missing and whose next line of the
head is `next`, with the hunks behind it: how many lines they add and delete, and the numbers
of the added ones. -/
inductive Reads : ℕ → ℕ → ℕ → List (List Char) → ℕ → ℕ → Finset ℕ → Prop
  | done (next : ℕ) : Reads next 0 0 [] 0 0 ∅
  | hunk {next start old new added removed : ℕ} {line : List Char} {h : Patch.Header}
      {lines : List (List Char)} {found : Finset ℕ} (header : header? line = some h)
      (counts : numbers h = some (old, start, new))
      (rest : Reads start old new lines added removed found) :
      Reads next 0 0 (line :: lines) added removed found
  | note {next old new added removed : ℕ} {text : List Char} {lines : List (List Char)}
      {found : Finset ℕ} (rest : Reads next old new lines added removed found) :
      Reads next old new (('\\' :: text) :: lines) added removed found
  | kept {next old new added removed : ℕ} {text : List Char} {lines : List (List Char)}
      {found : Finset ℕ} (rest : Reads (next + 1) old new lines added removed found) :
      Reads next (old + 1) (new + 1) ((' ' :: text) :: lines) added removed found
  | deleted {next old new added removed : ℕ} {text : List Char} {lines : List (List Char)}
      {found : Finset ℕ} (rest : Reads next old new lines added removed found) :
      Reads next (old + 1) new (('-' :: text) :: lines) added (removed + 1) found
  | added {next old new added removed : ℕ} {text : List Char} {lines : List (List Char)}
      {found : Finset ℕ} (rest : Reads (next + 1) old new lines added removed found) :
      Reads next old (new + 1) (('+' :: text) :: lines) (added + 1) removed (insert next found)

/-- As far as the lines are complete hunks, one of their headers has a number that `int`
refuses. -/
inductive Overruns : ℕ → ℕ → List (List Char) → Prop
  | here {line : List Char} {h : Patch.Header} {lines : List (List Char)}
      (header : header? line = some h) (counts : numbers h = none) :
      Overruns 0 0 (line :: lines)
  | hunk {start old new : ℕ} {line : List Char} {h : Patch.Header} {lines : List (List Char)}
      (header : header? line = some h) (counts : numbers h = some (old, start, new))
      (rest : Overruns old new lines) : Overruns 0 0 (line :: lines)
  | note {old new : ℕ} {text : List Char} {lines : List (List Char)}
      (rest : Overruns old new lines) : Overruns old new (('\\' :: text) :: lines)
  | kept {old new : ℕ} {text : List Char} {lines : List (List Char)}
      (rest : Overruns old new lines) : Overruns (old + 1) (new + 1) ((' ' :: text) :: lines)
  | deleted {old new : ℕ} {text : List Char} {lines : List (List Char)}
      (rest : Overruns old new lines) : Overruns (old + 1) new (('-' :: text) :: lines)
  | added {old new : ℕ} {text : List Char} {lines : List (List Char)}
      (rest : Overruns old new lines) : Overruns old (new + 1) (('+' :: text) :: lines)

/-- The lines with others between them that are no headers. -/
inductive Padded : List (List Char) → List (List Char) → Prop
  | nil : Padded [] []
  | keep {line : List Char} {lines padded : List (List Char)} (rest : Padded lines padded) :
      Padded (line :: lines) (line :: padded)
  | extra {line : List Char} {lines padded : List (List Char)} (plain : header? line = none)
      (rest : Padded lines padded) : Padded lines (line :: padded)

/-- At least one of the lines is a header. -/
def Headed (lines : List (List Char)) : Prop :=
  ∃ line ∈ lines, (header? line).isSome = true

/-! ## One line -/

section Step

/-- The walk stands in a hunk of which this many lines are missing. -/
structure Counts.At (c : Counts) (old new : ℕ) : Prop where
  oldLeft : c.remainingOld = old
  newLeft : c.remainingNew = new
  inHunk : c.hunk = false → old = 0 ∧ new = 0

theorem Counts.at_start : Counts.start.At 0 0 :=
  ⟨rfl, rfl, fun _ => ⟨rfl, rfl⟩⟩

/-- What one line does to the walk. -/
inductive Counts.Moved (c : Counts) : ℕ → ℕ → List Char → Counts → ℕ → ℕ → Prop
  | hunk {start old new : ℕ} {line : List Char} {h : Patch.Header}
      (header : header? line = some h) (counts : numbers h = some (old, start, new)) :
      c.Moved 0 0 line { c with
        remainingOld := old, current := start, remainingNew := new, hunk := true } old new
  | note {old new : ℕ} {text : List Char} : c.Moved old new ('\\' :: text) c old new
  | kept {old new : ℕ} {text : List Char} :
      c.Moved (old + 1) (new + 1) (' ' :: text) { c with
        current := c.current + 1, remainingNew := new, remainingOld := old } old new
  | deleted {old new : ℕ} {text : List Char} :
      c.Moved (old + 1) new ('-' :: text) { c with
        removed := c.removed + 1, remainingOld := old } old new
  | added {old new : ℕ} {text : List Char} :
      c.Moved old (new + 1) ('+' :: text) { c with
        lines := insert c.current c.lines
        current := c.current + 1
        added := c.added + 1
        remainingNew := new } old new

theorem header_sign {c : Char} (hc : c ≠ '@') (text : List Char) : header? (c :: text) = none := by
  have hafter : Text.after "@@ -".toList (c :: text) = none := by
    simp [Text.after, Ne.symm hc]
  rw [header?, hafter]
  rfl

theorem Counts.Moved.at {c c' : Counts} {old new old' new' : ℕ} {line : List Char}
    (h : c.Moved old new line c' old' new') (hat : c.At old new) : c'.At old' new' := by
  cases h with
  | hunk => exact ⟨rfl, rfl, Bool.noConfusion⟩
  | note => exact hat
  | kept =>
      refine ⟨rfl, rfl, ?_⟩
      intro hhunk
      exact absurd (hat.inHunk hhunk).1 (Nat.succ_ne_zero _)
  | deleted =>
      refine ⟨rfl, hat.newLeft, ?_⟩
      intro hhunk
      exact absurd (hat.inHunk hhunk).1 (Nat.succ_ne_zero _)
  | added =>
      refine ⟨hat.oldLeft, rfl, ?_⟩
      intro hhunk
      exact absurd (hat.inHunk hhunk).2 (Nat.succ_ne_zero _)

/-- The loop makes every move. -/
theorem Counts.Moved.read {c c' : Counts} {old new old' new' : ℕ} {line : List Char}
    (h : c.Moved old new line c' old' new') (hat : c.At old new) : c.read line = .ok c' := by
  have hhunk : (old ≠ 0 ∨ new ≠ 0) → c.hunk = true := by
    intro hne
    cases hc : c.hunk with
    | true => rfl
    | false =>
        obtain ⟨hold, hnew⟩ := hat.inHunk hc
        exact absurd hne (by simp [hold, hnew])
  have hold := hat.oldLeft
  have hnew := hat.newLeft
  cases h with
  | hunk header counts => simp [Counts.read, Counts.opened, Counts.checked, *]
  | note => simp [Counts.read, header_sign]
  | kept =>
      simp [Counts.read, header_sign, Counts.checked, hhunk (.inl (Nat.succ_ne_zero _)), hold, hnew]
  | deleted =>
      simp [Counts.read, header_sign, Counts.checked, hhunk (.inl (Nat.succ_ne_zero _)), hold, hnew]
  | added =>
      simp [Counts.read, header_sign, Counts.checked, hhunk (.inr (Nat.succ_ne_zero _)), hold, hnew]

/-- The loop makes no other move. -/
theorem Counts.moved_of_read {c c' : Counts} {old new : ℕ} {line : List Char}
    (hat : c.At old new) (h : c.read line = .ok c') :
    ∃ old' new', c.Moved old new line c' old' new' := by
  have hold := hat.oldLeft
  have hnew := hat.newLeft
  rw [Counts.read] at h
  cases hheader : header? line with
  | some header =>
      rw [hheader] at h
      simp only [Counts.opened, hold, hnew] at h
      split_ifs at h with hzero
      obtain ⟨rfl, rfl⟩ : old = 0 ∧ new = 0 := by omega
      cases hcounts : numbers header with
      | none => simp [hcounts] at h
      | some counts =>
          obtain ⟨old', start, new'⟩ := counts
          simp only [hcounts, Counts.checked] at h
          split_ifs at h
          cases h
          exact ⟨old', new', .hunk hheader hcounts⟩
  | none =>
      simp only [hheader, Counts.checked] at h
      cases line with
      | nil => simp at h
      | cons sign text =>
          simp only [List.head?_cons, Option.some.injEq] at h
          split_ifs at h with hnote hplus hneg hminus hneg hkept hneg
          · cases h
            subst hnote
            exact ⟨old, new, .note⟩
          · obtain ⟨-, rfl⟩ := hplus
            obtain ⟨new, rfl⟩ : ∃ n, new = n + 1 := ⟨new - 1, by omega⟩
            cases h
            refine ⟨old, new, ?_⟩
            convert Counts.Moved.added using 2
            omega
          · obtain ⟨-, rfl⟩ := hminus
            obtain ⟨old, rfl⟩ : ∃ n, old = n + 1 := ⟨old - 1, by omega⟩
            cases h
            refine ⟨old, new, ?_⟩
            convert Counts.Moved.deleted using 2
            omega
          · obtain ⟨-, rfl⟩ := hkept
            obtain ⟨old, rfl⟩ : ∃ n, old = n + 1 := ⟨old - 1, by omega⟩
            obtain ⟨new, rfl⟩ : ∃ n, new = n + 1 := ⟨new - 1, by omega⟩
            cases h
            refine ⟨old, new, ?_⟩
            convert Counts.Moved.kept using 2
            · omega
            · omega

/-- Where a line raises. -/
theorem Counts.read_raises_iff {c : Counts} {old new : ℕ} {line : List Char} (hat : c.At old new) :
    c.read line = .error .valueError ↔
      old = 0 ∧ new = 0 ∧ ∃ h, header? line = some h ∧ numbers h = none := by
  have hchecked : ∀ d : Counts, d.checked ≠ .error .valueError := by
    intro d
    rw [Counts.checked]
    split_ifs <;> simp
  rw [Counts.read]
  cases hheader : header? line with
  | some header =>
      simp only [Counts.opened, hat.oldLeft, hat.newLeft]
      by_cases hzero : old = 0 ∧ new = 0
      · cases hcounts : numbers header with
        | none => simp [hzero, hcounts]
        | some counts => simp [hzero, hcounts, hchecked]
      · rw [if_pos (by omega)]
        simp only [Except.error.injEq, reduceCtorEq, false_iff]
        rintro ⟨rfl, rfl, -⟩
        exact hzero ⟨rfl, rfl⟩
  | none =>
      dsimp only
      split_ifs <;> simp [hchecked]

end Step

/-! ## The walk -/

section Walk

/-- What a walk has counted and found on its way. -/
structure Counts.Gained (c c' : Counts) (added removed : ℕ) (found : Finset ℕ) : Prop where
  added : c'.added = c.added + added
  removed : c'.removed = c.removed + removed
  lines : c'.lines = c.lines ∪ found

theorem Counts.gained_refl (c : Counts) : c.Gained c 0 0 ∅ :=
  ⟨rfl, rfl, (Finset.union_empty _).symm⟩

theorem Counts.Gained.deleted {c d c' : Counts} {a r : ℕ} {found : Finset ℕ}
    (h : d.Gained c' a r found) (hadded : d.added = c.added) (hremoved : d.removed = c.removed + 1)
    (hlines : d.lines = c.lines) : c.Gained c' a (r + 1) found := by
  obtain ⟨ha, hr, hl⟩ := h
  refine ⟨by omega, by omega, ?_⟩
  rw [hl, hlines]

theorem Counts.Gained.inserted {c d c' : Counts} {a r : ℕ} {found : Finset ℕ}
    (h : d.Gained c' a r found) (hadded : d.added = c.added + 1) (hremoved : d.removed = c.removed)
    (hlines : d.lines = insert c.current c.lines) :
    c.Gained c' (a + 1) r (insert c.current found) := by
  obtain ⟨ha, hr, hl⟩ := h
  refine ⟨by omega, by omega, ?_⟩
  rw [hl, hlines, Finset.insert_union, Finset.union_insert]

/-- A walk that ends where a hunk ends has read complete hunks. -/
theorem reads_of_walk {lines : List (List Char)} {c c' : Counts} {old new : ℕ} (hat : c.At old new)
    (h : lines.foldlM Counts.read c = .ok c') (hend : c'.At 0 0) : ∃ added removed found,
      Reads c.current old new lines added removed found ∧ c.Gained c' added removed found := by
  induction lines generalizing c old new with
  | nil =>
      cases h
      obtain rfl : old = 0 := by exact_mod_cast hat.oldLeft.symm.trans hend.oldLeft
      obtain rfl : new = 0 := by exact_mod_cast hat.newLeft.symm.trans hend.newLeft
      exact ⟨0, 0, ∅, .done _, Counts.gained_refl _⟩
  | cons line lines ih =>
      rw [List.foldlM_cons] at h
      cases hread : c.read line with
      | error stop => simp [hread, bind, Except.bind] at h
      | ok d =>
          rw [hread] at h
          obtain ⟨old', new', hmoved⟩ := Counts.moved_of_read hat hread
          obtain ⟨a, r, found, hreads, hgained⟩ := ih (hmoved.at hat) h
          cases hmoved with
          | hunk header counts =>
              exact ⟨a, r, found, .hunk header counts hreads, hgained.1, hgained.2, hgained.3⟩
          | note => exact ⟨a, r, found, .note hreads, hgained⟩
          | kept => exact ⟨a, r, found, .kept hreads, hgained.1, hgained.2, hgained.3⟩
          | deleted =>
              exact ⟨a, r + 1, found, .deleted hreads, hgained.deleted rfl rfl rfl⟩
          | added =>
              exact ⟨a + 1, r, insert c.current found, .added hreads, hgained.inserted rfl rfl rfl⟩

theorem foldlM_moved {c d : Counts} {old new old' new' : ℕ} {line : List Char}
    (h : c.Moved old new line d old' new') (hat : c.At old new) (lines : List (List Char)) :
    (line :: lines).foldlM Counts.read c = lines.foldlM Counts.read d := by
  rw [List.foldlM_cons, h.read hat]
  rfl

/-- Complete hunks are walked to their end. -/
theorem walk_of_reads {next old new a r : ℕ} {lines : List (List Char)} {found : Finset ℕ}
    (h : Reads next old new lines a r found) {c : Counts} (hat : c.At old new)
    (hnext : c.current = next) :
    ∃ c', lines.foldlM Counts.read c = .ok c' ∧ c'.At 0 0 ∧ c.Gained c' a r found := by
  induction h generalizing c with
  | done next => exact ⟨c, rfl, hat, c.gained_refl⟩
  | hunk header counts rest ih =>
      have hmoved := Counts.Moved.hunk (c := c) header counts
      obtain ⟨c', hwalk, hend, hgained⟩ := ih (hmoved.at hat) rfl
      exact ⟨c', (foldlM_moved hmoved hat _).trans hwalk, hend, hgained.1, hgained.2, hgained.3⟩
  | note rest ih =>
      obtain ⟨c', hwalk, hend, hgained⟩ := ih hat hnext
      exact ⟨c', (foldlM_moved .note hat _).trans hwalk, hend, hgained⟩
  | @kept next old new a r text lines found rest ih =>
      have hmoved := @Counts.Moved.kept c old new text
      obtain ⟨c', hwalk, hend, hgained⟩ := ih (hmoved.at hat) (congrArg Nat.succ hnext)
      exact ⟨c', (foldlM_moved hmoved hat _).trans hwalk, hend, hgained.1, hgained.2, hgained.3⟩
  | @deleted next old new a r text lines found rest ih =>
      have hmoved := @Counts.Moved.deleted c old new text
      obtain ⟨c', hwalk, hend, hgained⟩ := ih (hmoved.at hat) hnext
      exact ⟨c', (foldlM_moved hmoved hat _).trans hwalk, hend, hgained.deleted rfl rfl rfl⟩
  | @added next old new a r text lines found rest ih =>
      have hmoved := @Counts.Moved.added c old new text
      obtain ⟨c', hwalk, hend, hgained⟩ := ih (hmoved.at hat) (congrArg Nat.succ hnext)
      refine ⟨c', (foldlM_moved hmoved hat _).trans hwalk, hend, ?_⟩
      exact hnext ▸ hgained.inserted rfl rfl rfl

/-- Where the walk raises, it has read complete hunks up to a header that `int` refuses. -/
theorem walk_raises_iff {lines : List (List Char)} {c : Counts} {old new : ℕ} (hat : c.At old new) :
    lines.foldlM Counts.read c = .error .valueError ↔ Overruns old new lines := by
  constructor
  · intro h
    induction lines generalizing c old new with
    | nil => cases h
    | cons line lines ih =>
        cases hread : c.read line with
        | error stop =>
            rw [List.foldlM_cons, hread] at h
            obtain rfl : stop = .valueError := Except.error.inj h
            obtain ⟨rfl, rfl, header, hheader, hcounts⟩ := (Counts.read_raises_iff hat).mp hread
            exact .here hheader hcounts
        | ok d =>
            obtain ⟨old', new', hmoved⟩ := Counts.moved_of_read hat hread
            rw [foldlM_moved hmoved hat] at h
            have hrest := ih (hmoved.at hat) h
            cases hmoved with
            | hunk header counts => exact .hunk header counts hrest
            | note => exact .note hrest
            | kept => exact .kept hrest
            | deleted => exact .deleted hrest
            | added => exact .added hrest
  · intro h
    induction h generalizing c with
    | here header counts =>
        rw [List.foldlM_cons, (Counts.read_raises_iff hat).mpr ⟨rfl, rfl, _, header, counts⟩]
        rfl
    | hunk header counts rest ih =>
        have hmoved := Counts.Moved.hunk (c := c) header counts
        exact (foldlM_moved hmoved hat _).trans (ih (hmoved.at hat))
    | note rest ih => exact (foldlM_moved .note hat _).trans (ih hat)
    | kept rest ih =>
        exact (foldlM_moved .kept hat _).trans (ih ((@Counts.Moved.kept c _ _ []).at hat))
    | deleted rest ih =>
        exact (foldlM_moved .deleted hat _).trans (ih ((@Counts.Moved.deleted c _ _ []).at hat))
    | added rest ih =>
        exact (foldlM_moved .added hat _).trans (ih ((@Counts.Moved.added c _ _ []).at hat))

/-- Only a header starts a hunk. -/
theorem read_hunk {c c' : Counts} {line : List Char} (h : c.read line = .ok c') :
    c'.hunk = (c.hunk || (header? line).isSome) := by
  have hchecked : ∀ {d d' : Counts}, d.checked = .ok d' → d' = d := by
    intro d d' hd
    rw [Counts.checked] at hd
    split_ifs at hd
    exact (Except.ok.inj hd).symm
  rw [Counts.read] at h
  cases hheader : header? line with
  | some header =>
      simp only [hheader, Counts.opened] at h
      split_ifs at h
      cases hcounts : numbers header with
      | none => simp [hcounts] at h
      | some counts =>
          rw [hcounts] at h
          rw [hchecked h]
          simp
  | none =>
      simp only [hheader] at h
      split_ifs at h
      · cases h
        simp
      all_goals
        rw [hchecked h]
        simp

theorem walk_hunk {lines : List (List Char)} {c c' : Counts}
    (h : lines.foldlM Counts.read c = .ok c') :
    c'.hunk = true ↔ c.hunk = true ∨ Headed lines := by
  induction lines generalizing c with
  | nil =>
      cases h
      simp [Headed]
  | cons line lines ih =>
      rw [List.foldlM_cons] at h
      cases hread : c.read line with
      | error stop => simp [hread, bind, Except.bind] at h
      | ok d =>
          rw [hread] at h
          rw [ih h, read_hunk hread]
          simp [Headed, or_assoc]

end Walk

/-! ## Padding -/

section Padding

theorem Padded.extras {extra lines padded : List (List Char)} (hplain : ∀ l ∈ extra, header? l = none)
    (h : Padded lines padded) : Padded lines (extra ++ padded) := by
  induction extra with
  | nil => exact h
  | cons l extra ih =>
      obtain ⟨hl, hrest⟩ := List.forall_mem_cons.mp hplain
      exact .extra hl (ih hrest)

/-- An empty line at the end can only be padding. -/
theorem Padded.chop {lines padded : List (List Char)} (h : Padded lines (padded ++ [[]]))
    (hne : [] ∉ lines) : Padded lines padded := by
  induction padded generalizing lines with
  | nil =>
      cases h with
      | keep rest => exact absurd List.mem_cons_self hne
      | extra plain rest => exact rest
  | cons line padded ih =>
      cases h with
      | keep rest => exact .keep (ih rest fun hmem => hne (List.mem_cons_of_mem _ hmem))
      | extra plain rest => exact .extra plain (ih rest hne)

/-- Padding that is read takes lines from its hunk, which are then missing where the hunk ends.
So the padded lines read as the lines do. -/
theorem Padded.reads {lines padded : List (List Char)} (h : Padded lines padded)
    {next next' old old' new new' a a' r r' : ℕ} {found found' : Finset ℕ}
    (hlines : Reads next old new lines a r found) (hpadded : Reads next' old' new' padded a' r' found')
    (hold : old' ≤ old) (hnew : new' ≤ new) :
    old' = old ∧ new' = new ∧ (next' = next → found' = found) := by
  induction h generalizing next next' old old' new new' a a' r r' found found' with
  | nil =>
      cases hlines
      cases hpadded
      exact ⟨rfl, rfl, fun _ => rfl⟩
  | @keep line lines padded rest ih =>
      cases hlines with
      | hunk header counts hlines =>
          obtain rfl := Nat.le_zero.mp hold
          obtain rfl := Nat.le_zero.mp hnew
          cases hpadded with
          | hunk header' counts' hpadded =>
              obtain rfl := Option.some.inj (header.symm.trans header')
              obtain ⟨rfl, rfl, rfl⟩ : _ = _ ∧ _ = _ ∧ _ = _ := by
                simpa using counts.symm.trans counts'
              obtain ⟨-, -, hfound⟩ := ih hlines hpadded le_rfl le_rfl
              exact ⟨rfl, rfl, fun _ => hfound rfl⟩
          | note => simp [header_sign] at header
      | note hlines =>
          cases hpadded with
          | hunk header' => simp [header_sign] at header'
          | note hpadded => exact ih hlines hpadded hold hnew
      | kept hlines =>
          cases hpadded with
          | hunk header' => simp [header_sign] at header'
          | kept hpadded =>
              obtain ⟨rfl, rfl, hfound⟩ := ih hlines hpadded (Nat.le_of_succ_le_succ hold)
                (Nat.le_of_succ_le_succ hnew)
              exact ⟨rfl, rfl, fun hnext => hfound (congrArg Nat.succ hnext)⟩
      | deleted hlines =>
          cases hpadded with
          | hunk header' => simp [header_sign] at header'
          | deleted hpadded =>
              obtain ⟨rfl, rfl, hfound⟩ := ih hlines hpadded (Nat.le_of_succ_le_succ hold) hnew
              exact ⟨rfl, rfl, hfound⟩
      | added hlines =>
          cases hpadded with
          | hunk header' => simp [header_sign] at header'
          | added hpadded =>
              obtain ⟨rfl, rfl, hfound⟩ := ih hlines hpadded hold (Nat.le_of_succ_le_succ hnew)
              refine ⟨rfl, rfl, ?_⟩
              rintro rfl
              rw [hfound rfl]
  | extra plain rest ih =>
      cases hpadded with
      | hunk header' =>
          rw [plain] at header'
          cases header'
      | note hpadded => exact ih hlines hpadded hold hnew
      | kept hpadded =>
          have hless := ih hlines hpadded (Nat.le_of_succ_le hold) (Nat.le_of_succ_le hnew)
          omega
      | deleted hpadded =>
          have hless := ih hlines hpadded (Nat.le_of_succ_le hold) hnew
          omega
      | added hpadded =>
          have hless := ih hlines hpadded hold (Nat.le_of_succ_le hnew)
          omega

/-- Padded lines do not lead to a number that `int` refuses where the lines read. -/
theorem Padded.not_overruns {lines padded : List (List Char)} (h : Padded lines padded)
    {next old old' new new' a r : ℕ} {found : Finset ℕ} (hlines : Reads next old new lines a r found)
    (hold : old' ≤ old) (hnew : new' ≤ new) : ¬Overruns old' new' padded := by
  intro hpadded
  induction h generalizing next old old' new new' a r found with
  | nil => cases hpadded
  | @keep line lines padded rest ih =>
      cases hlines with
      | hunk header counts hlines =>
          cases hpadded with
          | here header' counts' =>
              obtain rfl := Option.some.inj (header.symm.trans header')
              cases counts.symm.trans counts'
          | hunk header' counts' hpadded =>
              obtain rfl := Option.some.inj (header.symm.trans header')
              obtain ⟨rfl, rfl, rfl⟩ : _ = _ ∧ _ = _ ∧ _ = _ := by
                simpa using counts.symm.trans counts'
              exact ih hlines le_rfl le_rfl hpadded
          | _ => simp [header_sign] at header
      | note hlines =>
          cases hpadded with
          | here header' => simp [header_sign] at header'
          | hunk header' => simp [header_sign] at header'
          | note hpadded => exact ih hlines hold hnew hpadded
      | kept hlines =>
          cases hpadded with
          | here header' => simp [header_sign] at header'
          | hunk header' => simp [header_sign] at header'
          | kept hpadded => exact ih hlines (by omega) (by omega) hpadded
      | deleted hlines =>
          cases hpadded with
          | here header' => simp [header_sign] at header'
          | hunk header' => simp [header_sign] at header'
          | deleted hpadded => exact ih hlines (by omega) hnew hpadded
      | added hlines =>
          cases hpadded with
          | here header' => simp [header_sign] at header'
          | hunk header' => simp [header_sign] at header'
          | added hpadded => exact ih hlines hold (by omega) hpadded
  | extra plain rest ih =>
      cases hpadded with
      | here header' =>
          rw [plain] at header'
          cases header'
      | hunk header' =>
          rw [plain] at header'
          cases header'
      | note hpadded => exact ih hlines hold hnew hpadded
      | kept hpadded => exact ih hlines (by omega) (by omega) hpadded
      | deleted hpadded => exact ih hlines (by omega) hnew hpadded
      | added hpadded => exact ih hlines hold (by omega) hpadded

/-- `int` takes the numbers of every header of complete hunks. -/
theorem Reads.numbered {next old new a r : ℕ} {lines : List (List Char)} {found : Finset ℕ}
    (h : Reads next old new lines a r found) :
    ∀ line ∈ lines, ∀ header, header? line = some header → numbers header ≠ none := by
  have hsign : ∀ {c : Char} {text : List Char} {header : Patch.Header}, c ≠ '@' →
      header? (c :: text) = some header → numbers header ≠ none := by
    intro c text header hc hheader
    rw [header_sign hc] at hheader
    cases hheader
  induction h with
  | done => simp
  | hunk header counts rest ih =>
      refine List.forall_mem_cons.mpr ⟨fun header' hheader' => ?_, ih⟩
      obtain rfl := Option.some.inj (header.symm.trans hheader')
      simp [counts]
  | note rest ih => exact List.forall_mem_cons.mpr ⟨fun _ => hsign (by decide), ih⟩
  | kept rest ih => exact List.forall_mem_cons.mpr ⟨fun _ => hsign (by decide), ih⟩
  | deleted rest ih => exact List.forall_mem_cons.mpr ⟨fun _ => hsign (by decide), ih⟩
  | added rest ih => exact List.forall_mem_cons.mpr ⟨fun _ => hsign (by decide), ih⟩

theorem Overruns.unnumbered {old new : ℕ} {lines : List (List Char)} (h : Overruns old new lines) :
    ∃ line ∈ lines, ∃ header, header? line = some header ∧ numbers header = none := by
  induction h with
  | here header counts => exact ⟨_, List.mem_cons_self, _, header, counts⟩
  | hunk _ _ _ ih =>
      obtain ⟨line, hline, hheader⟩ := ih
      exact ⟨line, List.mem_cons_of_mem _ hline, hheader⟩
  | note _ ih =>
      obtain ⟨line, hline, hheader⟩ := ih
      exact ⟨line, List.mem_cons_of_mem _ hline, hheader⟩
  | kept _ ih =>
      obtain ⟨line, hline, hheader⟩ := ih
      exact ⟨line, List.mem_cons_of_mem _ hline, hheader⟩
  | deleted _ ih =>
      obtain ⟨line, hline, hheader⟩ := ih
      exact ⟨line, List.mem_cons_of_mem _ hline, hheader⟩
  | added _ ih =>
      obtain ⟨line, hline, hheader⟩ := ih
      exact ⟨line, List.mem_cons_of_mem _ hline, hheader⟩

end Padding

/-! ## The result -/

section Result

theorem equalsNat_int (n m : ℕ) : equalsNat n (.int m) = true ↔ m = n := by
  rw [equalsNat, decide_eq_true_eq, Int.natCast_inj]

theorem result_some_iff {c : Counts} {additions deletions : ℕ} {found : Finset ℕ} :
    c.result (.int additions) (.int deletions) = some found ↔ c.hunk = true ∧
      c.remainingNew = 0 ∧ c.remainingOld = 0 ∧ c.added = additions ∧ c.removed = deletions ∧
        c.lines = found := by
  rw [Counts.result]
  simp only [equalsNat_int]
  split_ifs with h
  · obtain ⟨hhunk, hnew, hold, hadded, hremoved⟩ := h
    simp [hhunk, hnew, hold, hadded, hremoved]
  · simp only [false_iff]
    rintro ⟨hhunk, hnew, hold, hadded, hremoved, -⟩
    exact h ⟨hhunk, hnew, hold, hadded.symm, hremoved.symm⟩

/-- The set `changed_lines` returns is the one under which the patch reads. -/
theorem changedLines_some_iff {patch : List Char} {additions deletions : ℕ} {found : Finset ℕ} :
    changedLines (.str patch) (.int additions) (.int deletions) = .ok (some found) ↔
      patch.length ≤ maxFile ∧ Headed (Text.splitlines patch) ∧
        Reads 0 0 0 (Text.splitlines patch) additions deletions found := by
  rw [changedLines]
  by_cases hlength : maxFile < patch.length
  · rw [if_pos hlength]
    simp only [Except.ok.injEq, reduceCtorEq, false_iff]
    rintro ⟨hle, -⟩
    exact absurd hlength (Nat.not_lt.mpr hle)
  rw [if_neg hlength]
  constructor
  · intro h
    cases hwalk : (Text.splitlines patch).foldlM Counts.read Counts.start with
    | error stop =>
        cases stop with
        | incomplete => simp [hwalk] at h
        | valueError => simp [hwalk] at h
    | ok c =>
        simp only [hwalk, Except.ok.injEq] at h
        obtain ⟨hhunk, hnew, hold, hadded, hremoved, hlines⟩ := result_some_iff.mp h
        have hheaded : Headed (Text.splitlines patch) := by
          simpa [Counts.start] using (walk_hunk hwalk).mp hhunk
        obtain ⟨a, r, found', hreads, hgained⟩ := reads_of_walk Counts.at_start hwalk
          ⟨hold, hnew, fun _ => ⟨rfl, rfl⟩⟩
        have ha : additions = a := by simpa [hadded, Counts.start] using hgained.added
        have hr : deletions = r := by simpa [hremoved, Counts.start] using hgained.removed
        have hfound : found = found' := by simpa [hlines, Counts.start] using hgained.lines
        exact ⟨Nat.not_lt.mp hlength, hheaded, ha ▸ hr ▸ hfound ▸ hreads⟩
  · rintro ⟨-, hheaded, hreads⟩
    obtain ⟨c, hwalk, hend, hgained⟩ := walk_of_reads hreads Counts.at_start rfl
    simp only [hwalk, Except.ok.injEq, result_some_iff]
    refine ⟨(walk_hunk hwalk).mpr (.inr hheaded), hend.newLeft, hend.oldLeft, ?_, ?_, ?_⟩
    · simpa [Counts.start] using hgained.added
    · simpa [Counts.start] using hgained.removed
    · simpa [Counts.start] using hgained.lines

theorem changedLines_raises_iff {patch : List Char} {additions deletions : Json} :
    (∃ e, changedLines (.str patch) additions deletions = .error e) ↔
      patch.length ≤ maxFile ∧ Overruns 0 0 (Text.splitlines patch) := by
  rw [changedLines, ← walk_raises_iff Counts.at_start]
  by_cases hlength : maxFile < patch.length
  · rw [if_pos hlength]
    simp [Nat.not_le.mpr hlength]
  rw [if_neg hlength]
  have hle := Nat.not_lt.mp hlength
  cases (Text.splitlines patch).foldlM Counts.read Counts.start with
  | error stop =>
      cases stop with
      | incomplete => simp
      | valueError => simp [hle]
  | ok c => simp

end Result

end Prism.Pipeline
