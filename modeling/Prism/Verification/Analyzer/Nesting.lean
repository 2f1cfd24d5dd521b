import Mathlib.Data.List.Infix
import Prism.Verification.Analyzer.Equations

/-! The traversal of a tree and the depth it carries: the reports of `COM-003`
against a count over the ancestors of a node. -/

namespace Prism.Analyzer

open Worklist

/-! ## Positions -/

namespace Node

theorem sizes_children (n : Node) : sizes n.children < n.size := by
  cases n <;> simp [children, size, sizes]

end Node

namespace Cursor

theorem mem_next {c d : Cursor} :
    d ∈ c.next ↔ ∃ n i, (n, i) ∈ c.node.children.zipIdx ∧ n.isNamed = true ∧ d = c.child n i := by
  constructor
  · intro h
    obtain ⟨⟨n, i⟩, he, h⟩ := List.mem_filterMap.mp h
    split at h
    · rename_i hnamed
      exact ⟨n, i, he, hnamed, (Option.some.inj h).symm⟩
    · contradiction
  · rintro ⟨n, i, he, hnamed, rfl⟩
    exact List.mem_filterMap.mpr ⟨(n, i), he, by simp [hnamed]⟩

private theorem sum_next (c : Cursor) (children : List Node) (k : ℕ) :
    (((children.zipIdx k).filterMap fun e =>
      if e.1.isNamed then some (c.child e.1 e.2) else none).map size).sum ≤
      Node.sizes children := by
  induction children generalizing k with
  | nil => simp [Node.sizes]
  | cons n ns ih =>
      have hrest := ih (k + 1)
      rw [List.zipIdx_cons, List.filterMap_cons]
      cases hnamed : n.isNamed with
      | false =>
          simp only [Node.sizes, Bool.false_eq_true, if_false]
          omega
      | true =>
          have hsize : (c.child n k).size = n.size := rfl
          simp only [Node.sizes, if_true, List.map_cons, List.sum_cons, hsize]
          omega

theorem shrinks_next : Shrinks next size :=
  fun c => lt_of_le_of_lt (sum_next c c.node.children 0) c.node.sizes_children

/-- The named nodes of a tree are those a path of named children leads to. -/
theorem mem_nodes {c d : Cursor} : d ∈ c.nodes ↔ Reaches next c d :=
  mem_preorder shrinks_next

/-- Going down only adds frames. -/
theorem suffix_above {c d : Cursor} (h : Reaches next c d) : c.above <:+ d.above := by
  induction h with
  | refl => exact List.suffix_rfl
  | tail _ hlast ih =>
      obtain ⟨n, i, -, -, rfl⟩ := mem_next.mp hlast
      exact ih.trans (List.suffix_cons ..)

/-- The subtrees of two children share no position. -/
private theorem next_disjoint (c : Cursor) :
    c.next.Pairwise fun b d => ∀ e, Reaches next b e → ¬Reaches next d e := by
  have hindex : c.node.children.zipIdx.Pairwise fun a b => a.2 ≠ b.2 := by
    apply List.pairwise_map.mp
    rw [List.zipIdx_map_snd]
    exact List.nodup_range'
  refine List.Pairwise.filterMap _ ?_ hindex
  intro a b hab d hd d' hd' e he he'
  split at hd <;> split at hd' <;> simp only [reduceCtorEq, Option.some.injEq] at hd hd'
  subst hd hd'
  -- both places are the part of the frames above `e` that has their length
  have hsame : (c.child a.1 a.2).above = (c.child b.1 b.2).above :=
    (List.suffix_of_suffix_length_le (suffix_above he) (suffix_above he') le_rfl).eq_of_length rfl
  exact hab (congrArg Frame.index (List.cons.inj hsame).1)

theorem nodes_nodup (c : Cursor) : c.nodes.Nodup :=
  nodup_preorder shrinks_next next_disjoint c

/-! ## Depth -/

/-- The levels of a path up to its innermost function. -/
def levels (path : List Cursor) : ℕ :=
  (path.takeWhile fun a => !a.isFunction).countP isLevel

/-- The levels from the nearest function above a node, or the root, down to it. -/
def depth (c : Cursor) : ℕ :=
  levels c.lineage

/-- The depth a node is entered at, which is that of its parent. -/
def depthAbove (c : Cursor) : ℕ :=
  levels (lineage.above c.above)

theorem not_isLevel_of_isFunction {c : Cursor} (h : c.isFunction = true) : c.isLevel = false := by
  have htypes : ∀ t ∈ functions, t ∉ controls := by decide
  simp only [isFunction, decide_eq_true_eq] at h
  simp [isLevel, htypes _ h]

/-- The counter of the loop: entered at the depth above it, a node is left at its own. -/
theorem below_depthAbove (c : Cursor) : c.below c.depthAbove = c.depth := by
  unfold below depth depthAbove lineage levels
  cases hfunction : c.isFunction with
  | true => simp [not_isLevel_of_isFunction hfunction, hfunction]
  | false =>
      simp only [hfunction, Bool.not_false, List.takeWhile_cons_of_pos, List.countP_cons,
        Bool.false_eq_true, if_false]
      split <;> rfl

theorem depthAbove_next {c d : Cursor} (h : d ∈ c.next) : d.depthAbove = c.depth := by
  obtain ⟨n, i, -, -, rfl⟩ := mem_next.mp h
  rfl

end Cursor

/-! ## The loop -/

theorem enter_depthAbove (c : Cursor) :
    enter (c, c.depthAbove) = c.next.map fun d => (d, d.depthAbove) := by
  unfold enter
  rw [c.below_depthAbove]
  refine List.map_congr_left fun d hd => ?_
  rw [Cursor.depthAbove_next hd]

/-- The loop takes the named nodes in the order of the source, each with the depth
it is entered at. -/
theorem visited_eq (root : Node) :
    visited root = (Cursor.root root).nodes.map fun c => (c, c.depthAbove) :=
  drain_map enter_depthAbove root.size [Cursor.root root]

theorem visited_fst (root : Node) :
    (visited root).map Prod.fst = (Cursor.root root).nodes := by
  rw [visited_eq, List.map_map]
  exact List.map_id' _

/-- The reports of the loop are the levels of depth five. -/
theorem nesting_eq (root : Node) :
    (nesting root).map Prod.snd =
      (Cursor.root root).nodes.filter fun c => c.isLevel && c.depth = 5 := by
  unfold nesting
  rw [visited_eq, List.filter_map, List.map_map, List.map_map]
  simp only [Function.comp_def, List.map_id', Cursor.below_depthAbove, Bool.and_comm]

/-! ## Paths -/

namespace Cursor

/-- The innermost function a node stands in. -/
def home (c : Cursor) : Option Cursor :=
  c.lineage.find? isFunction

theorem length_lt_of_mem {a : Cursor} {frames : List Frame} (h : a ∈ lineage.above frames) :
    a.above.length < frames.length := by
  induction frames with
  | nil => simp [lineage.above] at h
  | cons f fs ih =>
      rcases List.mem_cons.mp h with rfl | h
      · exact Nat.lt_succ_self _
      · exact (ih h).trans (Nat.lt_succ_self _)

/-- The path of an ancestor ends the path it is on, and what comes before is deeper. -/
theorem lineage_split {a : Cursor} {frames : List Frame} (h : a ∈ lineage.above frames) :
    ∃ lower, lineage.above frames = lower ++ a.lineage ∧
      ∀ b ∈ lower, a.above.length < b.above.length := by
  induction frames with
  | nil => simp [lineage.above] at h
  | cons f fs ih =>
      rcases List.mem_cons.mp h with rfl | h
      · exact ⟨[], rfl, by simp⟩
      · obtain ⟨lower, hlower, hdeeper⟩ := ih h
        refine ⟨⟨fs, f.parent⟩ :: lower, by simp [lineage.above, hlower], ?_⟩
        intro b hb
        rcases List.mem_cons.mp hb with rfl | hb
        · exact length_lt_of_mem h
        · exact hdeeper b hb

theorem length_le_of_mem_lineage {a c : Cursor} (h : a ∈ c.lineage) :
    a.above.length ≤ c.above.length := by
  rcases List.mem_cons.mp h with rfl | h
  · exact le_rfl
  · exact (length_lt_of_mem h).le

/-- Below a level of the same function the depth is greater. -/
theorem depth_lt {a c : Cursor} (h : a ∈ lineage.above c.above) (hhome : a.home = c.home)
    (hc : c.isLevel = true) : a.depth < c.depth := by
  obtain ⟨lower, hlower, hdeeper⟩ := lineage_split h
  have hpath : c.lineage = (c :: lower) ++ a.lineage := by
    rw [lineage, hlower, List.cons_append]
  have hlong : ∀ b ∈ c :: lower, a.above.length < b.above.length := by
    intro b hb
    rcases List.mem_cons.mp hb with rfl | hb
    · exact length_lt_of_mem h
    · exact hdeeper b hb
  -- a function between the two would be the home of the lower one only
  have hbetween : ∀ b ∈ c :: lower, b.isFunction = false := by
    intro b hb
    by_contra hfunction
    rw [Bool.not_eq_false] at hfunction
    obtain ⟨f, hf⟩ := Option.isSome_iff_exists.mp
      (List.find?_isSome.mpr ⟨b, hb, hfunction⟩)
    have hhomec : c.home = some f := by
      rw [home, hpath, List.find?_append, hf, Option.some_or]
    have hhomea : a.home = some f := hhome.trans hhomec
    have hle := length_le_of_mem_lineage (List.mem_of_find?_eq_some hhomea)
    have hlt := hlong f (List.mem_of_find?_eq_some hf)
    omega
  have hcount : c.depth = (c :: lower).countP isLevel + a.depth := by
    unfold depth levels
    rw [hpath, List.takeWhile_append_of_pos (by simpa using hbetween), List.countP_append]
  rw [hcount, List.countP_cons_of_pos hc]
  omega

/-- Of two nodes of one path, one is an ancestor of the other or they are the same. -/
theorem lineage_total {leaf a c : Cursor} (ha : a ∈ leaf.lineage) (hc : c ∈ leaf.lineage) :
    a = c ∨ a ∈ lineage.above c.above ∨ c ∈ lineage.above a.above := by
  have hsuffix : ∀ {b : Cursor}, b ∈ leaf.lineage → b.lineage <:+ leaf.lineage := by
    intro b hb
    rcases List.mem_cons.mp hb with rfl | hb
    · exact List.suffix_rfl
    · obtain ⟨lower, hlower, -⟩ := lineage_split hb
      exact ⟨leaf :: lower, congrArg (leaf :: ·) hlower.symm⟩
  rcases List.suffix_or_suffix_of_suffix (hsuffix ha) (hsuffix hc) with h | h
  · rcases List.mem_cons.mp (h.subset (List.mem_cons_self ..)) with h | h
    · exact .inl h
    · exact .inr (.inl h)
  · rcases List.mem_cons.mp (h.subset (List.mem_cons_self ..)) with h | h
    · exact .inl h.symm
    · exact .inr (.inr h)

end Cursor

/-! ## The rule -/

/-- The other checks of `evaluate_additional` report rules of their own. -/
theorem reportedAt_nesting {language : Language} {root : Node}
    {evaluated notEvaluated : List String} {out : Additional}
    (h : evaluateAdditional language root evaluated notEvaluated = some out) :
    out.reportedAt "COM-003" = (nesting root).map Prod.snd := by
  have hrule : "COM-003" ∉ settledRules language := by cases language <;> decide
  rw [(evaluateAdditional_settled h).reportedAt hrule, Additional.reportedAt]
  congr 1
  refine List.filter_eq_self.mpr fun e he => ?_
  obtain ⟨entry, -, rfl⟩ := List.mem_map.mp he
  rfl

theorem mem_nesting {root : Node} {c : Cursor} :
    c ∈ (nesting root).map Prod.snd ↔ Reaches Cursor.next (Cursor.root root) c ∧
      c.type ∈ controls ∧ c.chained = false ∧ c.depth = 5 := by
  rw [nesting_eq, List.mem_filter, Cursor.mem_nodes]
  simp [Cursor.isLevel, and_assoc]

/-- `evaluate_additional` reports `COM-003` once at each control node that is not
chained and is the fifth such node from its innermost function, or the root, down,
and at nothing else; so on one path it is reported at most once for one function. -/
theorem nesting_exact (root : Node) :
    (∀ language evaluated notEvaluated out,
      evaluateAdditional language root evaluated notEvaluated = some out →
      out.reportedAt "COM-003" = (nesting root).map Prod.snd) ∧
    ((nesting root).map Prod.snd).Nodup ∧
    (∀ c, c ∈ (nesting root).map Prod.snd ↔ Reaches Cursor.next (Cursor.root root) c ∧
      c.type ∈ controls ∧ c.chained = false ∧ c.depth = 5) ∧
    ∀ leaf c d : Cursor, c ∈ leaf.lineage → d ∈ leaf.lineage → c.home = d.home →
      c ∈ (nesting root).map Prod.snd → d ∈ (nesting root).map Prod.snd → c = d := by
  refine ⟨fun _ _ _ _ => reportedAt_nesting, ?_, fun c => mem_nesting, ?_⟩
  · rw [nesting_eq]
    exact (Cursor.nodes_nodup _).filter _
  · intro leaf c d hc hd hhome hreportc hreportd
    obtain ⟨-, hcontrolc, hchainc, hdepthc⟩ := mem_nesting.mp hreportc
    obtain ⟨-, hcontrold, hchaind, hdepthd⟩ := mem_nesting.mp hreportd
    rcases Cursor.lineage_total hc hd with h | h | h
    · exact h
    · have hlt := Cursor.depth_lt h hhome (by simp [Cursor.isLevel, hcontrold, hchaind])
      omega
    · have hlt := Cursor.depth_lt h hhome.symm (by simp [Cursor.isLevel, hcontrolc, hchainc])
      omega

/-- Conditions in conditions, around a call. -/
def conditions : ℕ → Node
  | 0 => .named ⟨"call", [], 0, 0, 1, []⟩ []
  | n + 1 => .named ⟨"if_statement", [], 0, 0, 1, []⟩
      [.named ⟨"block", ["consequence"], 0, 0, 1, []⟩ [conditions n]]

theorem nesting_exact_conditions :
    ∃ c, (nesting (conditions 7)).map Prod.snd = [c] ∧ c.chained = false ∧ c.depth = 5 := by
  obtain ⟨-, -, hexact, -⟩ := nesting_exact (conditions 7)
  have hone : ((nesting (conditions 7)).map Prod.snd).length = 1 := by decide +kernel
  obtain ⟨c, hc⟩ := List.length_eq_one_iff.mp hone
  obtain ⟨-, -, hchained, hdepth⟩ := (hexact c).mp (hc ▸ List.mem_singleton_self c)
  exact ⟨c, hc, hchained, hdepth⟩

end Prism.Analyzer
