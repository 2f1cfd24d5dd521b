import Prism.Foundation.Text

/-! How `splitlines` cuts a line of a text whose lines end with a newline. -/

namespace Text

/-- The lines `splitlines` makes of one line and the newline behind it. -/
def pieces (line : List Char) : List (List Char) :=
  splitlines (line ++ ['\n'])

/-- The line holds no boundary, except for one carriage return at its end. -/
def Whole (line : List Char) : Prop :=
  (∀ c ∈ line, isLineBreak c = false) ∨
    ∃ body, line = body ++ ['\r'] ∧ ∀ c ∈ body, isLineBreak c = false

/-- Two spellings of a line that differ in a carriage return at the end at most. -/
def UpToReturn (code line : List Char) : Prop :=
  code = line ∨ code ++ ['\r'] = line

/-- A text without line breaks, where a test shows it. -/
theorem plain_of_all {s : List Char} (h : (s.all fun c => !isLineBreak c) = true) :
    ∀ c ∈ s, isLineBreak c = false := by
  simpa [List.all_eq_true] using h

theorem isLineBreak_newline : isLineBreak '\n' = true := by
  decide

theorem isLineBreak_return : isLineBreak '\r' = true := by
  decide

/-- A boundary that does not open the pair CR LF. -/
theorem linesAfter_cons (cur : List Char) {c : Char} {s : List Char}
    (h : c = '\r' → s.head? ≠ some '\n') :
    linesAfter cur (c :: s) =
      if isLineBreak c then cur.reverse :: linesAfter [] s else linesAfter (c :: cur) s := by
  rw [linesAfter]
  rintro t rfl rfl
  exact h rfl rfl

theorem linesAfter_plain (cur : List Char) {c : Char} (hc : isLineBreak c = false)
    (s : List Char) : linesAfter cur (c :: s) = linesAfter (c :: cur) s := by
  rw [linesAfter_cons, if_neg (by simp [hc])]
  rintro rfl
  exact Bool.noConfusion (hc.symm.trans isLineBreak_return)

theorem linesAfter_run (cur : List Char) {run : List Char}
    (h : ∀ c ∈ run, isLineBreak c = false) (s : List Char) :
    linesAfter cur (run ++ s) = linesAfter (run.reverse ++ cur) s := by
  induction run generalizing cur with
  | nil => rfl
  | cons c run ih =>
      have hc := h c List.mem_cons_self
      rw [List.cons_append, linesAfter_plain cur hc, ih _ fun d hd => h d (List.mem_cons_of_mem c hd)]
      simp

/-- The first line is what stands before the first boundary. -/
theorem linesAfter_head {s : List Char} (hs : s ≠ []) :
    ∃ p ps, (∀ c ∈ p, isLineBreak c = false) ∧
      ∀ cur, linesAfter cur s = (cur.reverse ++ p) :: ps := by
  induction s with
  | nil => exact absurd rfl hs
  | cons c s ih =>
      by_cases hpair : c = '\r' ∧ s.head? = some '\n'
      · obtain ⟨rfl, hhead⟩ := hpair
        obtain ⟨t, rfl⟩ := List.head?_eq_some_iff.mp hhead
        exact ⟨[], linesAfter [] t, by simp, fun cur => by simp [linesAfter]⟩
      · have hcons := fun cur => linesAfter_cons cur fun hc hhead => hpair ⟨hc, hhead⟩
        cases hc : isLineBreak c with
        | true => exact ⟨[], linesAfter [] s, by simp, fun cur => by simp [hcons, hc]⟩
        | false =>
            by_cases hnil : s = []
            · refine ⟨[c], [], by simpa using hc, ?_⟩
              intro cur
              simp [hnil, linesAfter, hc]
            · obtain ⟨p, ps, hp, hlines⟩ := ih hnil
              refine ⟨c :: p, ps, List.forall_mem_cons.mpr ⟨hc, hp⟩, ?_⟩
              intro cur
              rw [hcons, hc, if_neg Bool.false_ne_true, hlines]
              simp

/-- A newline ends a line, whatever stands before it. -/
theorem linesAfter_newline (cur l s : List Char) :
    linesAfter cur (l ++ '\n' :: s) = linesAfter cur (l ++ ['\n']) ++ linesAfter [] s := by
  fun_induction linesAfter cur l with
  | case1 cur h => simp [linesAfter, isLineBreak_newline]
  | case2 cur h => simp [linesAfter, isLineBreak_newline]
  | case3 cur l ih => simp [linesAfter, ih]
  | case4 cur c l hpair h ih =>
      cases l with
      | nil =>
          by_cases hc : c = '\r'
          · simp [hc, linesAfter]
          · simp [linesAfter_cons _ fun hr => absurd hr hc, h, linesAfter, isLineBreak_newline]
      | cons d l =>
          have hhead : ∀ t, c = '\r' → (d :: l ++ t).head? ≠ some '\n' := by
            rintro t rfl hd
            simp only [List.cons_append, List.head?_cons, Option.some.injEq] at hd
            exact hpair l rfl (hd ▸ rfl)
          change linesAfter cur (c :: (d :: l ++ '\n' :: s)) =
            linesAfter cur (c :: (d :: l ++ ['\n'])) ++ linesAfter [] s
          rw [linesAfter_cons _ (hhead _), linesAfter_cons _ (hhead _), if_pos h, if_pos h, ih]
          rfl
  | case5 cur c l hpair h ih =>
      have hc : c ≠ '\r' := by
        rintro rfl
        exact h isLineBreak_return
      rw [List.cons_append, List.cons_append, linesAfter_cons _ fun hr => absurd hr hc,
        linesAfter_cons _ fun hr => absurd hr hc, if_neg h, if_neg h, ih]

theorem splitlines_newline (l s : List Char) :
    splitlines (l ++ '\n' :: s) = pieces l ++ splitlines s :=
  linesAfter_newline [] l s

theorem splitlines_lines (ls : List (List Char)) :
    splitlines (ls.flatMap fun l => l ++ ['\n']) = ls.flatMap pieces := by
  induction ls with
  | nil => rfl
  | cons l ls ih => rw [List.flatMap_cons, List.flatMap_cons, List.append_assoc,
      List.singleton_append, splitlines_newline, ih]

/-- A newline at the end adds an empty line at most. -/
theorem linesAfter_last (cur l : List Char) : linesAfter cur (l ++ ['\n']) = linesAfter cur l ∨
    linesAfter cur (l ++ ['\n']) = linesAfter cur l ++ [[]] := by
  fun_induction linesAfter cur l with
  | case1 cur h =>
      have hcur : cur = [] := by simpa using h
      exact .inr (by simp [hcur, linesAfter, isLineBreak_newline])
  | case2 cur h => exact .inl (by simp [linesAfter, isLineBreak_newline])
  | case3 cur l ih => simpa [linesAfter] using ih
  | case4 cur c l hpair h ih =>
      cases l with
      | nil =>
          by_cases hc : c = '\r'
          · exact .inl (by simp [hc, linesAfter])
          · exact .inr (by simp [linesAfter_cons _ fun hr => absurd hr hc, h, linesAfter,
              isLineBreak_newline])
      | cons d l =>
          have hhead : c = '\r' → (d :: l ++ ['\n']).head? ≠ some '\n' := by
            rintro rfl hd
            simp only [List.cons_append, List.head?_cons, Option.some.injEq] at hd
            exact hpair l rfl (hd ▸ rfl)
          rw [List.cons_append, linesAfter_cons _ hhead, if_pos h]
          simpa using ih
  | case5 cur c l hpair h ih =>
      have hc : c ≠ '\r' := by
        rintro rfl
        exact h isLineBreak_return
      rw [List.cons_append, linesAfter_cons _ fun hr => absurd hr hc, if_neg h]
      exact ih

theorem splitlines_last (s : List Char) :
    splitlines (s ++ ['\n']) = splitlines s ∨ splitlines (s ++ ['\n']) = splitlines s ++ [[]] :=
  linesAfter_last [] s

/-- What stands before a line and holds no boundary belongs to its first piece. -/
theorem pieces_append {run : List Char} (h : ∀ c ∈ run, isLineBreak c = false) (l : List Char) :
    ∃ p ps, pieces l = p :: ps ∧ pieces (run ++ l) = (run ++ p) :: ps ∧
      ∀ c ∈ p, isLineBreak c = false := by
  have hne : l ++ ['\n'] ≠ [] := by simp
  obtain ⟨p, ps, hp, hlines⟩ := linesAfter_head hne
  refine ⟨p, ps, hlines [], ?_, hp⟩
  rw [pieces, splitlines, List.append_assoc, linesAfter_run [] h, hlines]
  simp

/-- A whole line is one piece. -/
theorem Whole.pieces {line : List Char} (h : Whole line) :
    ∃ code, pieces line = [code] ∧ UpToReturn code line := by
  rcases h with h | ⟨body, rfl, h⟩
  · refine ⟨line, ?_, .inl rfl⟩
    rw [Text.pieces, splitlines, linesAfter_run [] h]
    simp [linesAfter, isLineBreak_newline]
  · refine ⟨body, ?_, .inr rfl⟩
    rw [Text.pieces, splitlines, List.append_assoc, linesAfter_run [] h]
    simp [linesAfter]

/-- The first piece of any other line is not the line. -/
theorem whole_of_first {line code : List Char} {rest : List (List Char)}
    (h : pieces line = code :: rest) (hcode : UpToReturn code line) : Whole line := by
  obtain ⟨p, ps, hp, hlines⟩ := linesAfter_head (s := line ++ ['\n']) (by simp)
  have hplain : ∀ c ∈ code, isLineBreak c = false := by
    have hfirst := (hlines []).symm.trans h
    simp only [List.reverse_nil, List.nil_append, List.cons.injEq] at hfirst
    rw [← hfirst.1]
    exact hp
  rcases hcode with rfl | rfl
  · exact .inl hplain
  · exact .inr ⟨code, rfl, hplain⟩

end Text
