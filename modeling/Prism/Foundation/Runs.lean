import Prism.Foundation.Text
import Mathlib.Data.List.SplitBy

/-! Runs of related neighbours in a list, and searching a text that is joined from parts. -/

namespace List

variable {α : Type} {r : α → α → Bool}

/-- Related neighbours stay in one block, where blocks end at unrelated neighbours only. -/
theorem infix_block {part : List α} (hpart : part.IsChain fun x y => r x y) (hne : part ≠ []) :
    ∀ {blocks : List (List α)}, [] ∉ blocks →
      (blocks.IsChain fun a b => ∃ ha hb, r (a.getLast ha) (b.head hb) = false) →
      part <:+: blocks.flatten → ∃ run ∈ blocks, part <:+: run := by
  intro blocks
  induction blocks with
  | nil =>
      intro _ _ h
      exact absurd (infix_nil.mp h) hne
  | cons block blocks ih =>
      intro hnil hends h
      have htail : [] ∉ blocks := fun hmem => hnil (mem_cons_of_mem _ hmem)
      have hlater : part <:+: blocks.flatten → ∃ run ∈ block :: blocks, part <:+: run := by
        intro h
        obtain ⟨run, hrun, hinfix⟩ := ih htail hends.tail h
        exact ⟨run, mem_cons_of_mem _ hrun, hinfix⟩
      obtain ⟨pre, post, h⟩ := h
      rw [append_assoc, flatten_cons, append_eq_append_iff] at h
      obtain ⟨first, hblock, h⟩ | ⟨pre', -, h⟩ := h
      · rw [append_eq_append_iff] at h
        obtain ⟨last, rfl, -⟩ | ⟨second, hsplit, h⟩ := h
        · exact ⟨block, mem_cons_self, pre, last, by rw [hblock, append_assoc]⟩
        · by_cases hfirst : first = []
          · refine hlater ⟨[], post, ?_⟩
            rw [h, hsplit, hfirst, nil_append, nil_append]
          by_cases hsecond : second = []
          · refine ⟨block, mem_cons_self, pre, [], ?_⟩
            rw [hblock, hsplit, hsecond, append_nil, append_nil]
          -- The part would go on in the next block, whose head is not related.
          cases blocks with
          | nil => simp [hsecond] at h
          | cons next blocks =>
              exfalso
              obtain ⟨hblockne, hnext, hrel⟩ := (isChain_cons_cons.mp hends).1
              rw [hsplit, isChain_append] at hpart
              have hhead : next.head? = second.head? := by
                have := congrArg head? h
                rwa [flatten_cons, head?_append_of_ne_nil _ hnext,
                  head?_append_of_ne_nil _ hsecond] at this
              have hlast : block.getLast? = first.getLast? := by
                rw [hblock, getLast?_append_of_ne_nil _ hfirst]
              have htrue := hpart.2.2 (block.getLast hblockne)
                (hlast ▸ getLast?_eq_some_getLast hblockne) (next.head hnext)
                (hhead ▸ head?_eq_some_head hnext)
              rw [hrel] at htrue
              exact Bool.false_ne_true htrue
      · exact hlater ⟨pre', post, by rw [h, append_assoc]⟩

/-- Related neighbours lie in one of the longest runs. -/
theorem infix_splitBy {l part : List α} (hpart : part.IsChain fun x y => r x y) (hne : part ≠ [])
    (h : part <:+: l) : ∃ run ∈ l.splitBy r, part <:+: run := by
  refine infix_block hpart hne (nil_notMem_splitBy r l) (isChain_getLast_head_splitBy r l) ?_
  rwa [flatten_splitBy]

theorem splitBy_infix {l run : List α} (h : run ∈ l.splitBy r) : run <:+: l := by
  have := infix_of_mem_flatten h
  rwa [flatten_splitBy] at this

end List

namespace Text

theorem contains_iff {s part : List Char} : contains s part = true ↔ part <:+: s := by
  rw [contains, List.any_eq_true, List.infix_iff_prefix_suffix]
  simp only [List.mem_tails, List.isPrefixOf_iff_prefix, and_comm]

theorem join_append (sep : List Char) {first second : List (List Char)} (hfirst : first ≠ [])
    (hsecond : second ≠ []) :
    join sep (first ++ second) = join sep first ++ (sep ++ join sep second) := by
  unfold join
  induction first with
  | nil => exact absurd rfl hfirst
  | cons part first ih =>
      cases first with
      | nil =>
          rw [List.singleton_append, List.intercalate_cons_of_ne_nil hsecond,
            List.intercalate_singleton, List.append_assoc]
      | cons part' first =>
          rw [List.cons_append, List.intercalate_cons_of_ne_nil (by simp),
            List.intercalate_cons_of_ne_nil (by simp), ih (by simp)]
          simp only [List.append_assoc]

/-- What is joined from some of the parts is found in what is joined from all. -/
theorem join_infix (sep : List Char) {some all : List (List Char)} (h : some <:+: all) :
    join sep some <:+: join sep all := by
  obtain ⟨pre, post, rfl⟩ := h
  have hleft : ∀ {all : List (List Char)}, join sep some <:+: join sep all →
      join sep some <:+: join sep (pre ++ all) := by
    intro all hall
    by_cases hpre : pre = []
    · rwa [hpre, List.nil_append]
    by_cases hne : all = []
    · rw [hne] at hall
      rw [List.infix_nil.mp hall]
      exact List.nil_infix
    · rw [join_append sep hpre hne]
      exact (hall.trans (List.suffix_append _ _).isInfix).trans (List.suffix_append _ _).isInfix
  rw [List.append_assoc]
  refine hleft ?_
  by_cases hsome : some = []
  · rw [hsome]
    exact List.nil_infix
  by_cases hpost : post = []
  · rw [hpost, List.append_nil]
  · rw [join_append sep hsome hpost]
    exact (List.prefix_append _ _).isInfix

end Text
