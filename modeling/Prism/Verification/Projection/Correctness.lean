import Prism.Verification.Projection.Equations

/-! # Soundness of the projection

What the projection of an asserted call gives is what the call returns, where the functions it
runs through are described and confuse no names. -/

namespace Prism.PathObservations

open Python
open Prism.Semantics (Admissible interpret interpret_value)

/-! ## What the projection relies on -/

mutual

/-- No range is a value of its own where the projection reads an expression, and the functions
that are called are among `S`. -/
def within (functions S : List Name) : Expr → Bool
  | .dict items => withinItems functions S items
  | .list elts => withinAll functions S elts
  | .boolOp _ first rest => within functions S first && withinAll functions S rest
  | .compare left _ comparators => within functions S left && withinAll functions S comparators
  | .call _ (.attribute target _) args _ =>
    within functions S target && withinAll functions S args
  | .call _ (.name id _) args keywords =>
    if id ∈ functions then
      decide (id ∈ S) && withinAll functions S args && withinKeywords functions S keywords
    else builtin? id ≠ some .range
  | _ => true

def withinAll (functions S : List Name) : List Expr → Bool
  | [] => true
  | e :: es => within functions S e && withinAll functions S es

def withinKeywords (functions S : List Name) : List (Option Name × Expr) → Bool
  | [] => true
  | (_, e) :: es => within functions S e && withinKeywords functions S es

def withinItems (functions S : List Name) : List (Option Expr × Expr) → Bool
  | [] => true
  | (_, e) :: es => within functions S e && withinItems functions S es

end

mutual

def stmtWithin (functions S : List Name) : Stmt → Bool
  | .ret _ value => value.elim true (within functions S)
  | .assign _ [.name _ store] value => store && within functions S value
  | .cond _ test body orelse =>
    within functions S test && blockWithin functions S body && blockWithin functions S orelse
  | _ => true

def blockWithin (functions S : List Name) : List Stmt → Bool
  | [] => true
  | s :: rest => stmtWithin functions S s && blockWithin functions S rest

end

/-- The functions of `S` are described, call no others of the module, and bind no name of one;
their defaults call none. -/
structure SelfContained (functions : List FunctionDef) (S : List Name) : Prop where
  builtin : ∀ f ∈ functions, builtin? f.name = none
  described : ∀ f ∈ functions, f.name ∈ S → f.described = true
  locals : ∀ f ∈ functions, f.name ∈ S → ∀ id ∈ functions.map FunctionDef.name, id ∉ f.locals
  defaults : ∀ f ∈ functions, f.name ∈ S →
    withinAll (functions.map FunctionDef.name) [] f.defaults = true
  body : ∀ f ∈ functions, f.name ∈ S →
    blockWithin (functions.map FunctionDef.name) S f.body = true

def AllWhole (vs : List Value) : Prop :=
  ∀ v ∈ vs, Whole v

def MembersWhole {κ : Type} (items : List (κ × Value)) : Prop :=
  ∀ m ∈ items, Whole m.2

/-- A function at work: the names of its scope, and the calls it makes. -/
structure Frame (callP : Caller) (callR : Callee) (scope : Scope) (S : List Name)
    (σ : Bindings) : Prop where
  builtin : ∀ id f, builtin? id = some f → σ.lookup id = none
  whole : ∀ id v, σ.lookup id = some v → Whole v
  unshadowed : Unshadowed scope
  locals : ∀ id ∈ scope.functions, id ∉ scope.locals
  call : ∀ id ∈ S, ∀ args keywords, AllWhole args → MembersWhole keywords →
    Sound Whole (callP id args keywords) (callR id args keywords)

/-! ## Expressions -/

section Expressions

variable {callP : Caller} {callR : Callee} {scope : Scope} {S : List Name} {σ : Bindings}

theorem step_sound {α : Type} {P : α → Prop} {r : Projected α} {o : Python.Outcome α}
    (h : Sound P r o) : Sound P (step >>= fun _ => r) o :=
  .after fun _ => h

theorem Frame.admissible (hframe : Frame callP callR scope S σ) : Admissible σ where
  builtin := hframe.builtin
  value id _ _ _ hid := nomatch hframe.whole id _ hid

/-- What is left to the interpreter. -/
theorem leaf_sound (hframe : Frame callP callR scope S σ) {node : Expr}
    (hnode : isLeaf node = true) :
    Sound Whole (interpreted σ node) (evaluateIn callR scope σ node) := by
  intro p v p' hok
  unfold interpreted at hok
  cases hread : interpret σ 0 node with
  | error e =>
      rw [hread] at hok
      cases hok
  | ok u =>
      rw [hread] at hok
      obtain ⟨rfl, -⟩ := Prod.mk.inj (Except.ok.inj hok)
      obtain ⟨w, hw, hlisted⟩ := interpret_value hframe.admissible hread
      have hwhole := evaluate_whole hframe.whole hnode hw
      obtain rfl := hwhole.eq_of_reads hlisted
      exact ⟨evaluateIn_evaluate hframe.unshadowed node hw, hwhole⟩

theorem identical_sound (v w : Value) : Sound (fun _ => True) (identical v w) (v.identical w) := by
  cases w with
  | none => cases v <;> exact .pure trivial
  | bool b => cases v <;> exact .pure trivial
  | _ => cases v <;> exact sound_unsupported _

theorem compared_sound (op : Comparison) (v w : Value) :
    Sound Whole (compared op v w) (compareValues op v w) := by
  cases op with
  | eq => exact .pure (.bool _)
  | notEq => exact .pure (.bool _)
  | is => exact (identical_sound v w).bind fun b _ => .pure (.bool b)
  | isNot => exact (identical_sound v w).bind fun b _ => .pure (.bool _)
  | other => exact sound_unsupported _

theorem whole_getD {v : Value} {items : List (Str × Value)} (hitems : Whole (.dict items)) (k : Str)
    (hv : Whole v) : Whole ((items.lookup k).getD v) := by
  cases hlookup : items.lookup k with
  | none => exact hv
  | some w =>
      obtain ⟨before, after, rfl, -⟩ := List.lookup_eq_some_iff.mp hlookup
      cases hitems with
      | dict h => exact h (k, w) (by simp)

theorem got_sound {v : Value} {args : List Value} (hv : Whole v) (hargs : AllWhole args) :
    Sound Whole (got v args) (v.member args) := by
  unfold got
  split
  · exact .pure (whole_getD hv _ .none)
  · exact .pure (whole_getD hv _ (hargs _ (by simp)))
  · exact sound_unsupported _

theorem membersWhole_nil {κ : Type} : MembersWhole ([] : List (κ × Value)) := by
  rintro m ⟨⟩

theorem membersWhole_setItem {κ : Type} [DecidableEq κ] {items : List (κ × Value)}
    (hitems : MembersWhole items) (k : κ) {v : Value} (hv : Whole v) :
    MembersWhole (setItem items k v) := by
  intro m hm
  unfold setItem at hm
  split at hm
  · obtain ⟨m', hm', rfl⟩ := List.mem_map.mp hm
    split
    · exact hv
    · exact hitems m' hm'
  · rcases List.mem_append.mp hm with hm | hm
    · exact hitems m hm
    · rw [List.mem_singleton.mp hm]
      exact hv

/-- Forms that neither the projection nor the interpreter reads. -/
theorem unread_sound {P : Value → Prop} {node : Expr} (o : Python.Outcome Value)
    (h : interpret σ 0 node = .error .unsupported) : Sound P (interpreted σ node) o := by
  intro p v p' hok
  rw [interpreted, h] at hok
  cases hok

mutual

theorem value_sound (hframe : Frame callP callR scope S σ) (node : Expr)
    (h : within scope.functions S node = true) :
    Sound Whole (value callP scope.functions σ node) (evaluateIn callR scope σ node) := by
  rw [value.eq_def]
  refine step_sound ?_
  match node, h with
  | .dict items, h =>
    dsimp only
    split_ifs with hmany htext
    · exact unread_sound _ rfl
    · rw [evaluateIn]
      exact (itemsValue_sound hframe items h htext membersWhole_nil).bind
        fun _ hstored => .pure (.dict hstored)
    · exact sound_unsupported _
  | .list elts, h =>
    dsimp only
    split_ifs
    · exact unread_sound _ rfl
    · rw [evaluateIn]
      exact (allValue_sound hframe elts h).bind fun vs _ => .pure (.list vs)
  | .boolOp or first rest, h =>
    rw [within, Bool.and_eq_true] at h
    rw [evaluateIn]
    exact (value_sound hframe first h.1).bind fun v hv => restValue_sound hframe rest h.2 hv
  | .compare left [op] [right], h =>
    rw [within, withinAll, Bool.and_eq_true, Bool.and_eq_true] at h
    rw [evaluateIn]
    exact (value_sound hframe left h.1).bind fun v _ =>
      (value_sound hframe right h.2.1).bind fun w _ => compared_sound op v w
  | .call span (.attribute target attr) args keywords, h =>
    rw [within, Bool.and_eq_true] at h
    dsimp only
    split_ifs with hget
    · obtain ⟨rfl, hnone⟩ := hget
      rw [List.isEmpty_iff.mp hnone, evaluateIn, if_pos rfl]
      exact (value_sound hframe target h.1).bind fun v hv =>
        (allValue_sound hframe args h.2).bind fun vs hvs => got_sound hv hvs
    · exact unread_sound _ (by cases keywords <;> rfl)
  | .call span (.name id store) args keywords, h =>
    dsimp only
    split_ifs with hid hbad
    · exact sound_unsupported _
    · rw [within, if_pos hid, Bool.and_eq_true, Bool.and_eq_true, decide_eq_true_eq] at h
      obtain ⟨⟨hS, hargs⟩, hkeywords⟩ := h
      have htarget : target? scope id = some (.function id) := by
        simp [target?, hframe.locals id hid, hid]
      rw [evaluateIn, htarget]
      exact (allValue_sound hframe args hargs).bind fun vs hvs =>
        (keywordsValue_sound hframe keywords hkeywords
            (Bool.eq_false_iff.mpr fun hnone => hbad (.inr hnone)) membersWhole_nil).bind
          fun kws hkws => hframe.call id hS vs kws hvs hkws
    · rw [within, if_neg hid] at h
      exact leaf_sound hframe h
  | .constant _, _ | .name _ _, _ | .unaryOp _ _, _ | .binOp _ _ _, _ | .attribute _ _, _
  | .subscript _ _ _, _ | .tuple _, _ | .namedExpr _ _, _ | .other _ _ _, _
  | .compare _ [] _, _ | .compare _ (_ :: _ :: _) _, _ | .compare _ [_] [], _
  | .compare _ [_] (_ :: _ :: _), _ => exact leaf_sound hframe rfl
  | .call _ (.constant _) _ _, _ | .call _ (.unaryOp _ _) _ _, _ | .call _ (.boolOp _ _ _) _ _, _
  | .call _ (.binOp _ _ _) _ _, _ | .call _ (.compare _ _ _) _ _, _
  | .call _ (.call _ _ _ _) _ _, _ | .call _ (.subscript _ _ _) _ _, _ | .call _ (.dict _) _ _, _
  | .call _ (.list _) _ _, _ | .call _ (.tuple _) _ _, _ | .call _ (.namedExpr _ _) _ _, _
  | .call _ (.other _ _ _) _ _, _ => exact leaf_sound hframe rfl

theorem restValue_sound (hframe : Frame callP callR scope S σ) {or : Bool} (rest : List Expr)
    (h : withinAll scope.functions S rest = true) {v : Value} (hv : Whole v) :
    Sound Whole (valueRest callP scope.functions σ or v rest)
      (evaluateRestIn callR scope σ or v rest) := by
  match rest, h with
  | [], _ =>
    rw [valueRest, evaluateRestIn]
    exact .pure hv
  | e :: es, h =>
    rw [withinAll, Bool.and_eq_true] at h
    rw [valueRest, evaluateRestIn]
    split_ifs
    · exact .pure hv
    · exact (value_sound hframe e h.1).bind fun w hw => restValue_sound hframe es h.2 hw

theorem allValue_sound (hframe : Frame callP callR scope S σ) (es : List Expr)
    (h : withinAll scope.functions S es = true) :
    Sound AllWhole (valueAll callP scope.functions σ es) (evaluateAllIn callR scope σ es) := by
  match es, h with
  | [], _ =>
    rw [valueAll, evaluateAllIn]
    exact .pure fun _ hv => nomatch hv
  | e :: es, h =>
    rw [withinAll, Bool.and_eq_true] at h
    rw [valueAll, evaluateAllIn]
    exact (value_sound hframe e h.1).bind fun v hv =>
      (allValue_sound hframe es h.2).bind fun vs hvs => .pure (List.forall_mem_cons.mpr ⟨hv, hvs⟩)

theorem keywordsValue_sound (hframe : Frame callP callR scope S σ)
    (keywords : List (Option Name × Expr)) (h : withinKeywords scope.functions S keywords = true)
    (hnamed : keywords.any (·.1.isNone) = false) {stored : List (Name × Value)}
    (hstored : MembersWhole stored) :
    Sound MembersWhole (valueKeywords callP scope.functions σ stored keywords)
      (evaluateKeywordsIn callR scope σ stored keywords) := by
  match keywords, h, hnamed with
  | [], _, _ =>
    rw [valueKeywords, evaluateKeywordsIn]
    exact .pure hstored
  | (some id, e) :: rest, h, hnamed =>
    rw [withinKeywords, Bool.and_eq_true] at h
    rw [valueKeywords, evaluateKeywordsIn]
    exact (value_sound hframe e h.1).bind fun v hv =>
      keywordsValue_sound hframe rest h.2 hnamed (membersWhole_setItem hstored id hv)

theorem itemsValue_sound (hframe : Frame callP callR scope S σ)
    (items : List (Option Expr × Expr)) (h : withinItems scope.functions S items = true)
    (htext : items.all isText = true) {stored : List (Str × Value)}
    (hstored : MembersWhole stored) :
    Sound MembersWhole (valueItems callP scope.functions σ stored items)
      (evaluateItemsIn callR scope σ stored items) := by
  match items, h, htext with
  | [], _, _ =>
    rw [valueItems, evaluateItemsIn]
    exact .pure hstored
  | (some (.constant (.str k)), e) :: rest, h, htext =>
    rw [withinItems, Bool.and_eq_true] at h
    rw [valueItems, evaluateItemsIn, keyOf]
    refine .given fun p v p' hok => ?_
    obtain ⟨hkey, -⟩ := (value_sound hframe (.constant (.str k)) rfl) p v p' hok
    obtain rfl := pure_inj hkey
    exact (value_sound hframe e h.1).bind fun w hw =>
      itemsValue_sound hframe rest h.2 htext (membersWhole_setItem hstored k hw)

end

end Expressions

/-! ## Statements -/

section Statements

variable {callP : Caller} {callR : Callee} {scope : Scope} {S : List Name}

theorem Frame.assign {σ : Bindings} (hframe : Frame callP callR scope S σ) {id : Name}
    (hid : id ∈ scope.locals) {v : Value} (hv : Whole v) :
    Frame callP callR scope S ((id, v) :: σ) where
  builtin id' f hf := by
    have hne : id' ≠ id := fun heq => (hframe.unshadowed id' f hf).1 (heq ▸ hid)
    rw [List.lookup_cons, beq_false_of_ne hne]
    exact hframe.builtin id' f hf
  whole id' w hw := by
    rw [List.lookup_cons] at hw
    split at hw
    · exact Option.some.inj hw ▸ hv
    · exact hframe.whole id' w hw
  unshadowed := hframe.unshadowed
  locals := hframe.locals
  call := hframe.call

/-- The names that some nodes bind are local. -/
def Local (scope : Scope) (nodes : List Node) : Prop :=
  ∀ id, Node.name id true ∈ nodes → id ∈ scope.locals

theorem local_append {nodes nodes' : List Node} :
    Local scope (nodes ++ nodes') ↔ Local scope nodes ∧ Local scope nodes' := by
  simp only [Local, List.mem_append]
  exact ⟨fun h => ⟨fun id hid => h id (.inl hid), fun id hid => h id (.inr hid)⟩,
    fun h id hid => hid.elim (h.1 id) (h.2 id)⟩

theorem local_plain {nodes : List Node} : Local scope (.plain :: nodes) ↔ Local scope nodes := by
  simp [Local]

def Ends (callP : Caller) (callR : Callee) (scope : Scope) (S : List Name) : Flow → Prop
  | .next σ => Frame callP callR scope S σ
  | .returned v => Whole v

/-- The statements without others under them. -/
theorem flat_sound {σ : Bindings} (hframe : Frame callP callR scope S σ) (name : Name) {s : Stmt}
    (hflat : ∀ line test body orelse, s ≠ .cond line test body orelse)
    (h : stmtWithin scope.functions S s = true) (hlocal : Local scope s.nodes) :
    Sound (Ends callP callR scope S) (statement callP scope.functions name σ s)
      (execute callR scope σ s) := by
  rw [statement.eq_def]
  split
  · next line e =>
    rw [execute]
    exact (value_sound hframe e h).bind fun v hv => .pure hv
  · next line id store e =>
    rw [stmtWithin, Bool.and_eq_true] at h
    obtain ⟨rfl, he⟩ := h
    rw [execute]
    exact (value_sound hframe e he).bind fun v hv =>
      .pure (hframe.assign (hlocal id (by simp [Stmt.nodes, nodesOf, Expr.nodes])) hv)
  · next line test body orelse => exact absurd rfl (hflat line test body orelse)
  · rw [execute, evaluateIn]
    exact .pure hframe
  · exact sound_unsupported _

mutual

theorem statement_sound {σ : Bindings} (hframe : Frame callP callR scope S σ) (name : Name)
    (s : Stmt) (h : stmtWithin scope.functions S s = true) (hlocal : Local scope s.nodes) :
    Sound (Ends callP callR scope S) (statement callP scope.functions name σ s)
      (execute callR scope σ s) := by
  match s, h, hlocal with
  | .cond line test body orelse, h, hlocal =>
    rw [stmtWithin, Bool.and_eq_true, Bool.and_eq_true] at h
    rw [Stmt.nodes, local_plain, local_append, local_append] at hlocal
    obtain ⟨⟨htest, hbody⟩, horelse⟩ := h
    rw [statement, execute]
    refine (value_sound hframe test htest).bind fun v _ => .after fun _ => ?_
    split_ifs
    · exact block_sound hframe name body hbody hlocal.1.2
    · exact block_sound hframe name orelse horelse hlocal.2
  | .ret _ _, h, hlocal | .assign _ _ _, h, hlocal | .expr _ _, h, hlocal
  | .assertion _ _ _, h, hlocal | .other _ _ _ _ _, h, hlocal =>
    exact flat_sound hframe name (fun _ _ _ _ heq => nomatch heq) h hlocal

theorem block_sound {σ : Bindings} (hframe : Frame callP callR scope S σ) (name : Name)
    (stmts : List Stmt) (h : blockWithin scope.functions S stmts = true)
    (hlocal : Local scope (stmtNodes stmts)) :
    Sound (Ends callP callR scope S) (block callP scope.functions name σ stmts)
      (executeAll callR scope σ stmts) := by
  match stmts, h, hlocal with
  | [], _, _ =>
    rw [block, executeAll]
    exact .pure hframe
  | s :: rest, h, hlocal =>
    rw [blockWithin, Bool.and_eq_true] at h
    rw [stmtNodes, local_append] at hlocal
    rw [block, executeAll]
    refine .after fun _ => .after fun _ => ?_
    refine (statement_sound hframe name s h.1 hlocal.1).bind fun flow hflow => ?_
    cases flow with
    | next σ' => exact block_sound hflow name rest h.2 hlocal.2
    | returned v => exact .pure hflow

end

end Statements

/-! ## Calls -/

section Calls

variable {functions : List FunctionDef} {S : List Name} {f : FunctionDef}
  {defaults args : List Value} {keywords : List (Name × Value)}

theorem mem_of_lookup {σ : Bindings} {id : Name} {v : Value} (h : σ.lookup id = some v) :
    (id, v) ∈ σ := by
  obtain ⟨before, after, rfl, -⟩ := List.lookup_eq_some_iff.mp h
  simp

theorem mem_parameters {id : Name} {v : Value} (h : (id, v) ∈ parameters f defaults args keywords) :
    (id, v) ∈ keywords ∨ id ∈ f.args ∧ (v ∈ args ∨ v ∈ defaults) := by
  rcases List.mem_append.mp h with h | h
  · rcases List.mem_append.mp h with h | h
    · exact .inl h
    · obtain ⟨hid, hv⟩ := List.of_mem_zip (List.mem_reverse.mp h)
      exact .inr ⟨hid, .inl hv⟩
  · obtain ⟨hid, hv⟩ := List.of_mem_zip (List.mem_reverse.mp h)
    exact .inr ⟨List.mem_of_mem_drop hid, .inr hv⟩

theorem parameters_whole (hkeywords : MembersWhole keywords) (hargs : AllWhole args)
    (hdefaults : AllWhole defaults) {id : Name} {v : Value}
    (h : (parameters f defaults args keywords).lookup id = some v) : Whole v := by
  rcases mem_parameters (mem_of_lookup h) with hmem | ⟨-, hmem | hmem⟩
  · exact hkeywords _ hmem
  · exact hargs v hmem
  · exact hdefaults v hmem

theorem parameters_known (hknown : ∀ id ∈ keywords.map Prod.fst, id ∈ f.args) {id : Name}
    {v : Value} (h : (parameters f defaults args keywords).lookup id = some v) : id ∈ f.args := by
  rcases mem_parameters (mem_of_lookup h) with hmem | ⟨hmem, -⟩
  · exact hknown id (List.mem_map_of_mem hmem)
  · exact hmem

/-- Defaults are evaluated outside of any function, and call none. -/
theorem defaults_frame (hS : SelfContained functions S) (callP : Caller) :
    Frame callP (fun _ _ _ => leftOpen) ⟨[], functions.map FunctionDef.name⟩ [] [] where
  builtin _ _ _ := rfl
  whole _ _ h := nomatch h
  unshadowed id b hb := by
    refine ⟨List.not_mem_nil, fun hid => ?_⟩
    obtain ⟨g, hg, rfl⟩ := List.mem_map.mp hid
    rw [hS.builtin g hg] at hb
    cases hb
  locals _ _ := List.not_mem_nil
  call _ hid := nomatch hid

/-- The body of a function starts with its parameters. -/
theorem body_frame (hS : SelfContained functions S) (hf : f ∈ functions) (hname : f.name ∈ S)
    {callP : Caller} {callR : Callee}
    (hcall : ∀ id ∈ S, ∀ args keywords, AllWhole args → MembersWhole keywords →
      Sound Whole (callP id args keywords) (callR id args keywords))
    (hknown : ∀ id ∈ keywords.map Prod.fst, id ∈ f.args)
    (hstored : ∀ id ∈ f.nodes.filterMap Node.stored, isBuiltin id = false)
    (hparams : ∀ id ∈ f.args, isBuiltin id = false) (hkeywords : MembersWhole keywords)
    (hargs : AllWhole args) (hdefaults : AllWhole defaults) :
    Frame callP callR ⟨f.locals, functions.map FunctionDef.name⟩ S
      (parameters f defaults args keywords) where
  builtin id b hb := by
    cases hlookup : (parameters f defaults args keywords).lookup id with
    | none => rfl
    | some v =>
        have hfree := hparams id (parameters_known hknown hlookup)
        simp [isBuiltin, hb] at hfree
  whole id v h := parameters_whole hkeywords hargs hdefaults h
  unshadowed id b hb := by
    refine ⟨fun hid => ?_, ((defaults_frame hS callP).unshadowed id b hb).2⟩
    have hfree : isBuiltin id = false := by
      rcases List.mem_append.mp hid with hid | hid
      · exact hparams id hid
      · refine hstored id ?_
        rw [FunctionDef.nodes, List.filterMap_append]
        exact List.mem_append_right _ hid
    simp [isBuiltin, hb] at hfree
  locals id hid := hS.locals f hf hname id hid
  call := hcall

theorem bind_eq (hlength : args.length ≤ f.args.length)
    (hknown : ∀ id ∈ keywords.map Prod.fst, id ∈ f.args)
    (hapart : ∀ id ∈ keywords.map Prod.fst, id ∉ f.args.take args.length)
    (hbound : ∀ id ∈ f.args, (parameters f defaults args keywords).lookup id ≠ none) :
    f.bind defaults args keywords = pure (parameters f defaults args keywords) := by
  have hkeys : ¬ ∃ id ∈ keywords.map Prod.fst, id ∉ f.args ∨ id ∈ f.args.take args.length := by
    rintro ⟨id, hid, hunknown | htwice⟩
    · exact hunknown (hknown id hid)
    · exact hapart id hid htwice
  have hall : ¬ ∃ id ∈ f.args, (parameters f defaults args keywords).lookup id = none := by
    rintro ⟨id, hid, hnone⟩
    exact hbound id hid hnone
  exact (if_neg (Nat.not_lt.mpr hlength)).trans ((if_neg hkeys).trans (if_neg hall))

/-- What a projected call gives is what the call returns, under any limit on the number of
active calls that the projection keeps to. The induction is on the levels of calls left. -/
theorem call_sound (hS : SelfContained functions S) {left n : ℕ} (hle : left ≤ n) {id : Name}
    (hid : id ∈ S) (hargs : AllWhole args) (hkeywords : MembersWhole keywords) :
    Sound Whole (call functions left id args keywords)
      (callFunction functions n id args keywords) := by
  induction left generalizing n id args keywords with
  | zero => exact sound_unsupported _
  | succ left ih =>
      obtain ⟨n, rfl⟩ : ∃ m, n = m + 1 := ⟨n - 1, by omega⟩
      simp only [call, callFunction]
      cases hfind : functions.find? fun f => f.name = id with
      | none => exact sound_unsupported _
      | some f =>
          have hf := List.mem_of_find?_eq_some hfind
          have hname := List.find?_some hfind
          obtain rfl : f.name = id := of_decide_eq_true hname
          simp only [hS.described f hf hid, if_true]
          split_ifs with hform hknown hapart hbuiltin
          · exact sound_unsupported _
          · exact sound_unsupported _
          · exact sound_unsupported _
          · exact sound_unsupported _
          · push Not at hknown hapart hbuiltin
            refine (allValue_sound (defaults_frame hS _) f.defaults
              (hS.defaults f hf hid)).bind fun defaults hdefaults => ?_
            split_ifs with hmissing
            · exact sound_unsupported _
            · push Not at hmissing
              rw [bind_eq hknown.2.1 hknown.2.2 hapart hmissing, pure_bind]
              have hframe := body_frame hS hf hid
                (fun id hid args keywords hargs hkeywords =>
                  ih (Nat.le_of_succ_le_succ hle) hid hargs hkeywords)
                hknown.2.2 (fun id h => by simpa using hbuiltin.1 id h)
                (fun id h => by simpa using hbuiltin.2 id h) hkeywords hargs hdefaults
              have hlocal : Local ⟨f.locals, functions.map FunctionDef.name⟩ (stmtNodes f.body) :=
                fun id hid => List.mem_append_right _
                  (List.mem_filterMap.mpr ⟨.name id true, hid, rfl⟩)
              refine (block_sound hframe f.name f.body (hS.body f hf hid) hlocal).bind
                fun flow hflow => ?_
              cases flow with
              | next σ => exact sound_unsupported _
              | returned v => exact .pure hflow

end Calls

/-! ## Literals -/

section Literals

variable {callR callR' : Callee} {scope scope' : Scope} {σ σ' : Bindings} {functions : List Name}

mutual

/-- A literal has one value, wherever it stands. -/
theorem evaluateIn_literal (e : Expr) (h : reaches e = false) :
    evaluateIn callR scope σ e = evaluateIn callR' scope' σ' e := by
  match e, h with
  | .constant _, _ => simp only [evaluateIn]
  | .unaryOp .usub operand, h =>
    simp only [evaluateIn]
    rw [evaluateIn_literal operand h]
  | .boolOp or first rest, h =>
    rw [reaches, Bool.or_eq_false_iff] at h
    simp only [evaluateIn]
    rw [evaluateIn_literal first h.1]
    exact bind_congr fun v => evaluateRestIn_literal rest h.2
  | .binOp left op right, h =>
    rw [reaches, Bool.or_eq_false_iff] at h
    simp only [evaluateIn]
    rw [evaluateIn_literal left h.1, evaluateIn_literal right h.2]
  | .compare left [op] [right], h =>
    simp only [reaches, reachesAny, Bool.or_false, Bool.or_eq_false_iff] at h
    simp only [evaluateIn]
    rw [evaluateIn_literal left h.1, evaluateIn_literal right h.2]
  | .dict items, h =>
    simp only [evaluateIn]
    rw [evaluateItemsIn_literal items h]
  | .list elts, h =>
    simp only [evaluateIn]
    rw [evaluateAllIn_literal elts h]
  | .unaryOp .other _, _ | .tuple _, _ | .other _ _ _, _ | .compare _ [] _, _
  | .compare _ (_ :: _ :: _) _, _ | .compare _ [_] [], _ | .compare _ [_] (_ :: _ :: _), _ =>
    simp only [evaluateIn]

theorem evaluateRestIn_literal {or : Bool} {v : Value} (es : List Expr)
    (h : reachesAny es = false) :
    evaluateRestIn callR scope σ or v es = evaluateRestIn callR' scope' σ' or v es := by
  match es, h with
  | [], _ => simp only [evaluateRestIn]
  | e :: es, h =>
    rw [reachesAny, Bool.or_eq_false_iff] at h
    rw [evaluateRestIn, evaluateRestIn, evaluateIn_literal e h.1]
    split_ifs
    · rfl
    · exact bind_congr fun w => evaluateRestIn_literal es h.2

theorem evaluateAllIn_literal (es : List Expr) (h : reachesAny es = false) :
    evaluateAllIn callR scope σ es = evaluateAllIn callR' scope' σ' es := by
  match es, h with
  | [], _ => simp only [evaluateAllIn]
  | e :: es, h =>
    rw [reachesAny, Bool.or_eq_false_iff] at h
    rw [evaluateAllIn, evaluateAllIn, evaluateIn_literal e h.1, evaluateAllIn_literal es h.2]

theorem evaluateItemsIn_literal {stored : List (Str × Value)} (items : List (Option Expr × Expr))
    (h : reachesItems items = false) :
    evaluateItemsIn callR scope σ stored items = evaluateItemsIn callR' scope' σ' stored items := by
  match items, h with
  | [], _ => simp only [evaluateItemsIn]
  | (none, e) :: rest, _ => simp only [evaluateItemsIn, keyOf]
  | (some k, e) :: rest, h =>
    rw [reachesItems, Bool.or_eq_false_iff, Bool.or_eq_false_iff] at h
    rw [evaluateItemsIn, evaluateItemsIn]
    cases keyOf (some k) with
    | none => rfl
    | some key =>
      dsimp only
      rw [evaluateIn_literal e h.1.2]
      exact bind_congr fun w => evaluateItemsIn_literal rest h.2

end

theorem evaluateKeywordsIn_literal {stored : List (Name × Value)}
    (keywords : List (Option Name × Expr)) (h : reachesAny (keywords.map Prod.snd) = false) :
    evaluateKeywordsIn callR scope σ stored keywords =
      evaluateKeywordsIn callR' scope' σ' stored keywords := by
  induction keywords generalizing stored with
  | nil => simp only [evaluateKeywordsIn]
  | cons k rest ih =>
      obtain ⟨key, e⟩ := k
      rw [List.map_cons, reachesAny, Bool.or_eq_false_iff] at h
      cases key with
      | none => simp only [evaluateKeywordsIn]
      | some id =>
          rw [evaluateKeywordsIn, evaluateKeywordsIn, evaluateIn_literal e h.1]
          exact bind_congr fun w => ih h.2

mutual

/-- There is no call in a literal. -/
theorem within_literal (e : Expr) (h : reaches e = false) : within functions [] e = true := by
  match e, h with
  | .dict items, h => exact withinItems_literal items h
  | .list elts, h => exact withinAll_literal elts h
  | .boolOp _ first rest, h | .compare first _ rest, h =>
    rw [reaches, Bool.or_eq_false_iff] at h
    rw [within, within_literal first h.1, withinAll_literal rest h.2]
    rfl
  | .constant _, _ | .unaryOp _ _, _ | .binOp _ _ _, _ | .tuple _, _ | .other _ _ _, _ => rfl

theorem withinAll_literal (es : List Expr) (h : reachesAny es = false) :
    withinAll functions [] es = true := by
  match es, h with
  | [], _ => rfl
  | e :: es, h =>
    rw [reachesAny, Bool.or_eq_false_iff] at h
    rw [withinAll, within_literal e h.1, withinAll_literal es h.2]
    rfl

theorem withinItems_literal (items : List (Option Expr × Expr)) (h : reachesItems items = false) :
    withinItems functions [] items = true := by
  match items, h with
  | [], _ => rfl
  | (none, e) :: rest, h =>
    rw [reachesItems, Bool.or_eq_false_iff] at h
    rw [withinItems, within_literal e h.1, withinItems_literal rest h.2]
    rfl
  | (some k, e) :: rest, h =>
    rw [reachesItems, Bool.or_eq_false_iff, Bool.or_eq_false_iff] at h
    rw [withinItems, within_literal e h.1.2, withinItems_literal rest h.2]
    rfl

end

theorem withinKeywords_literal (keywords : List (Option Name × Expr))
    (h : reachesAny (keywords.map Prod.snd) = false) :
    withinKeywords functions [] keywords = true := by
  induction keywords with
  | nil => rfl
  | cons k rest ih =>
      rw [List.map_cons, reachesAny, Bool.or_eq_false_iff] at h
      rw [withinKeywords, within_literal k.2 h.1, ih h.2]
      rfl

end Literals

/-! ## Observations -/

section Observations

variable {functions : List FunctionDef} {S : List Name}

theorem length_setItem_le {κ : Type} [DecidableEq κ] (items : List (κ × Value)) (k : κ)
    (v : Value) : (setItem items k v).length ≤ items.length + 1 := by
  unfold setItem
  split <;> simp

/-- Only keywords with a name give items. -/
theorem length_valueKeywords_le {callP : Caller} {names : List Name} {σ : Bindings}
    (keywords : List (Option Name × Expr)) {stored kws : List (Name × Value)} {p p' : Progress}
    (h : valueKeywords callP names σ stored keywords p = .ok (kws, p')) :
    kws.length ≤ stored.length + keywords.countP (·.1.isSome) := by
  induction keywords generalizing stored p with
  | nil =>
      rw [valueKeywords] at h
      obtain ⟨rfl, -⟩ := Prod.mk.inj (Except.ok.inj h)
      exact Nat.le_add_right _ _
  | cons k rest ih =>
      obtain ⟨key, e⟩ := k
      cases key with
      | none =>
          rw [valueKeywords] at h
          rw [List.countP_cons_of_neg (by simp)]
          exact ih h
      | some id =>
          rw [valueKeywords] at h
          obtain ⟨v, p₁, -, h⟩ := bind_eq_ok h
          have hrest := ih h
          have hset := length_setItem_le stored id v
          rw [List.countP_cons_of_pos (by simp)]
          omega

/-- Where as many items are found as keywords are written, each has a name. -/
theorem named_of_length {callP : Caller} {names : List Name} {σ : Bindings}
    {keywords : List (Option Name × Expr)} {kws : List (Name × Value)} {p p' : Progress}
    (h : valueKeywords callP names σ [] keywords p = .ok (kws, p'))
    (hlength : kws.length = keywords.length) : keywords.any (·.1.isNone) = false := by
  have hle := length_valueKeywords_le keywords h
  rw [List.length_nil, Nat.zero_add, hlength] at hle
  have hall := List.countP_eq_length.mp (hle.antisymm' List.countP_le_length)
  rw [List.any_eq_false]
  intro k hk
  simpa [Option.isSome_iff_ne_none] using hall k hk

/-- What a projection reports, against the meaning of the module. -/
structure Observed (functions : List FunctionDef) (id : Name) (args : List Expr)
    (keywords : List (Option Name × Expr)) (expected : Expr) (o : Projection) : Prop where
  arguments : ∀ callR scope σ, evaluateAllIn callR scope σ args = pure o.arguments
  keywords : ∀ callR scope σ, evaluateKeywordsIn callR scope σ [] keywords = pure o.keywords
  asserted : ∀ callR scope σ, evaluateIn callR scope σ expected = pure o.assertedValue
  value : ∀ n, 4 ≤ n → callFunction functions n id o.arguments o.keywords = pure o.value

theorem project_observed (hS : SelfContained functions S) {id : Name} (hid : id ∈ S)
    {args : List Expr} {keywords : List (Option Name × Expr)} {expected : Expr}
    (hargs : reachesAny args = false) (hkeywords : reachesAny (keywords.map Prod.snd) = false)
    (hexpected : reaches expected = false) {o : Projection} {p p' : Progress}
    (h : project functions id args keywords expected p = .ok (some o, p')) :
    Observed functions id args keywords expected o := by
  have hframe := defaults_frame hS (call functions 4)
  obtain ⟨vs, p₁, hvs, h⟩ := bind_eq_ok h
  obtain ⟨kws, p₂, hkws, h⟩ := bind_eq_ok h
  split_ifs at h with hlength
  · cases (Prod.mk.inj (Except.ok.inj h)).1
  obtain ⟨w, p₃, hw, h⟩ := bind_eq_ok h
  obtain ⟨v, p₄, hv, h⟩ := bind_eq_ok h
  obtain ⟨heq, -⟩ := Prod.mk.inj (Except.ok.inj h)
  obtain rfl := Option.some.inj heq
  have hnamed := named_of_length hkws (not_not.mp hlength)
  obtain ⟨hvs, hwhole⟩ := allValue_sound hframe args (withinAll_literal args hargs) _ _ _ hvs
  obtain ⟨hkws, hwhole'⟩ := keywordsValue_sound hframe keywords
    (withinKeywords_literal keywords hkeywords) hnamed membersWhole_nil _ _ _ hkws
  obtain ⟨hw, -⟩ := value_sound hframe expected (within_literal expected hexpected) _ _ _ hw
  exact {
    arguments _ _ _ := (evaluateAllIn_literal args hargs).trans hvs
    keywords _ _ _ := (evaluateKeywordsIn_literal keywords hkeywords).trans hkws
    asserted _ _ _ := (evaluateIn_literal expected hexpected).trans hw
    value n hn := (call_sound hS hn hid hwhole hwhole' _ _ _ hv).1 }

/-- The comparison with a value that exists once. -/
theorem identical_eq {v expected : Value} (h : isCopied expected = false) :
    v.identical expected = pure (isSame v expected) := by
  cases expected with
  | none => cases v <;> rfl
  | bool b => cases v <;> rfl
  | _ => cases h

/-- What is reported of an assertion, against the meaning of the module. -/
structure Faithful (functions : List FunctionDef) (test : Expr) (o : Observation) : Prop where
  call : ∃ asserted op expected, test = .compare asserted [op] [expected] ∧
    ∀ n, 4 ≤ n → ∀ scope σ, scope.functions = functions.map FunctionDef.name →
      o.function ∉ scope.locals →
      evaluateIn (callFunction functions n) scope σ asserted = pure o.value ∧
        evaluateIn (callFunction functions n) scope σ expected = pure o.assertedValue
  test : ∀ n, 4 ≤ n → ∀ scope σ, scope.functions = functions.map FunctionDef.name →
    o.function ∉ scope.locals →
    evaluateIn (callFunction functions n) scope σ test = pure (.bool o.matchesAssertion)

/-- A call that returns is one of a function of the module. -/
theorem name_of_callFunction {n : ℕ} {id : Name} {args : List Value}
    {keywords : List (Name × Value)} {v : Value}
    (h : callFunction functions n id args keywords = pure v) :
    id ∈ functions.map FunctionDef.name := by
  cases n with
  | zero => cases h
  | succ n =>
      simp only [callFunction] at h
      cases hfind : functions.find? fun f => f.name = id with
      | none =>
          rw [hfind] at h
          cases h
      | some f =>
          have hname := List.find?_some hfind
          exact List.mem_map.mpr ⟨f, List.mem_of_find?_eq_some hfind, of_decide_eq_true hname⟩

/-- The literals of an assertion and the projection that is reported of it. -/
theorem observe_cases {line : ℕ} {test : Expr} {o : Observation}
    (h : observe functions line test = .ok (some o)) :
    ∃ span id store args keywords op expected p p',
      test = .compare (.call span (.name id store) args keywords) [op] [expected] ∧
      (op = .eq ∨ op = .is ∧ isCopied p.assertedValue = false) ∧ reachesAny args = false ∧
      reachesAny (keywords.map Prod.snd) = false ∧ reaches expected = false ∧
      project functions id args keywords expected {} = .ok (some p, p') ∧
      o.testLine = line ∧ o.function = id ∧ o.value = p.value ∧
      o.assertedValue = p.assertedValue ∧
      o.matchesAssertion = matched op p.value p.assertedValue := by
  unfold observe at h
  split at h
  case h_2 => cases h
  case h_1 span id store args keywords op expected =>
    split_ifs at h with hop hliteral
    · cases h
    · rw [Bool.not_eq_true, Bool.or_eq_false_iff, Bool.or_eq_false_iff] at hliteral
      obtain ⟨⟨hargs, hkeywords⟩, hexpected⟩ := hliteral
      cases hrun : project functions id args keywords expected {} with
      | error e =>
          rw [StateT.run, hrun] at h
          cases h
      | ok result =>
          obtain ⟨found, p'⟩ := result
          rw [StateT.run, hrun] at h
          cases found with
          | none => cases h
          | some p =>
              change (if op = .is ∧ isCopied p.assertedValue = true then Except.ok none
                else Except.ok (some _)) = _ at h
              split_ifs at h with hcopied
              · cases h
              · obtain rfl := Option.some.inj (Except.ok.inj h)
                refine ⟨span, id, store, args, keywords, op, expected, p, p', rfl, ?_, hargs,
                  hkeywords, hexpected, hrun, rfl, rfl, rfl, rfl, rfl⟩
                rcases hop with rfl | rfl
                · exact .inl rfl
                · exact .inr ⟨rfl, Bool.eq_false_iff.mpr fun hc => hcopied ⟨rfl, hc⟩⟩
    · cases h

theorem observe_faithful {line : ℕ} {test : Expr} {o : Observation}
    (h : observe functions line test = .ok (some o)) (hS : SelfContained functions S)
    (ho : o.function ∈ S) : Faithful functions test o := by
  obtain ⟨span, id, store, args, keywords, op, expected, p, p', rfl, hop, hargs, hkeywords,
    hexpected, hrun, -, hid, hvalue, hasserted, hmatches⟩ := observe_cases h
  obtain rfl := hid
  have hobserved := project_observed hS ho hargs hkeywords hexpected hrun
  have hcall : ∀ n, 4 ≤ n → ∀ scope σ, scope.functions = functions.map FunctionDef.name →
      o.function ∉ scope.locals → evaluateIn (callFunction functions n) scope σ
        (.call span (.name o.function store) args keywords) = pure o.value := by
    intro n hn scope σ hscope hlocal
    have hvalue' := hobserved.value n hn
    have htarget : target? scope o.function = some (.function o.function) := by
      rw [target?, if_neg hlocal, hscope, if_pos (name_of_callFunction hvalue')]
    rw [evaluateIn, hobserved.arguments, pure_bind, hobserved.keywords, pure_bind, htarget, hvalue]
    exact hvalue'
  have hexpect : ∀ n scope σ, evaluateIn (callFunction functions n) scope σ expected =
      pure o.assertedValue := fun n scope σ => hasserted ▸ hobserved.asserted _ scope σ
  refine ⟨⟨_, op, expected, rfl, fun n hn scope σ hscope hlocal =>
    ⟨hcall n hn scope σ hscope hlocal, hexpect n scope σ⟩⟩, fun n hn scope σ hscope hlocal => ?_⟩
  rw [evaluateIn, hcall n hn scope σ hscope hlocal, pure_bind, hexpect, pure_bind]
  rw [← hvalue, ← hasserted] at hmatches
  rcases hop with rfl | ⟨rfl, hcopied⟩
  · rw [compareValues, hmatches, matched, if_neg (by decide)]
  · rw [← hasserted] at hcopied
    rw [compareValues, identical_eq hcopied, pure_bind, hmatches, matched, if_pos rfl]

/-! ## Files -/

/-- Every observation is one of an assertion of the file, and at most six are made. -/
theorem observeAll_spec (tests : List (ℕ × Expr)) {found os : List Observation}
    (h : observeAll functions found tests = .ok os) (hfew : found.length < 6) :
    os.length ≤ 6 ∧ ∀ o ∈ os, o ∈ found ∨ ∃ test, (o.testLine, test) ∈ tests ∧
      observe functions o.testLine test = .ok (some o) := by
  induction tests generalizing found with
  | nil =>
      obtain rfl := Except.ok.inj h
      exact ⟨hfew.le, fun o ho => .inl ho⟩
  | cons t rest ih =>
      obtain ⟨line, test⟩ := t
      have hpassed : observeAll functions found rest = .ok os → os.length ≤ 6 ∧ ∀ o ∈ os,
          o ∈ found ∨ ∃ test', (o.testLine, test') ∈ (line, test) :: rest ∧
            observe functions o.testLine test' = .ok (some o) := by
        intro hrest
        obtain ⟨hlength, hos⟩ := ih hrest hfew
        exact ⟨hlength, fun o ho => (hos o ho).imp_right fun ⟨test', hmem, hobserve⟩ =>
          ⟨test', List.mem_cons_of_mem _ hmem, hobserve⟩⟩
      have hmade : ∀ o, observe functions line test = .ok (some o) → ∃ test',
          (o.testLine, test') ∈ (line, test) :: rest ∧
            observe functions o.testLine test' = .ok (some o) := by
        intro o hobserve
        obtain ⟨-, -, -, -, -, -, -, -, -, -, -, -, -, -, -, rfl, -⟩ := observe_cases hobserve
        exact ⟨test, List.mem_cons_self, hobserve⟩
      rw [observeAll] at h
      split at h
      · exact hpassed h
      · exact hpassed h
      · exact hpassed h
      · exact hpassed h
      · cases h
      · next o hobserve =>
        split_ifs at h with hfull
        · obtain rfl := Except.ok.inj h
          refine ⟨by simp; omega, fun o' ho' => ?_⟩
          rcases List.mem_append.mp ho' with ho' | ho'
          · exact .inl ho'
          · rw [List.mem_singleton.mp ho']
            exact .inr (hmade o hobserve)
        · obtain ⟨hlength, hos⟩ := ih h (by simp; omega)
          refine ⟨hlength, fun o' ho' => ?_⟩
          rcases hos o' ho' with ho' | ⟨test', hmem, hobserve'⟩
          · rcases List.mem_append.mp ho' with ho' | ho'
            · exact .inl ho'
            · rw [List.mem_singleton.mp ho']
              exact .inr (hmade o hobserve)
          · exact .inr ⟨test', List.mem_cons_of_mem _ hmem, hobserve'⟩

/-- A module of functions with different names. -/
theorem filterMap_function {tree : List TopLevel}
    (h : (tree.filterMap TopLevel.function?).length = tree.length) :
    tree = (tree.filterMap TopLevel.function?).map TopLevel.function := by
  induction tree with
  | nil => rfl
  | cons t rest ih =>
      cases t with
      | function f =>
          simp only [List.filterMap_cons, TopLevel.function?, List.length_cons,
            Nat.succ.injEq] at h
          simp only [List.filterMap_cons, TopLevel.function?, List.map_cons, ← ih h]
      | other nodes =>
          have hle := List.length_filterMap_le TopLevel.function? rest
          simp only [List.filterMap_cons, TopLevel.function?, List.length_cons] at h
          omega

theorem moduleObservations_spec {tree : List TopLevel} {os : List Observation}
    (h : moduleObservations tree = .ok os) : os.length ≤ 6 ∧
      os.Pairwise (fun o o' => o.matchesAssertion = true → o'.matchesAssertion = true) ∧
      ∀ o ∈ os, ∃ functions test, tree = functions.map TopLevel.function ∧
        (functions.map FunctionDef.name).Nodup ∧ (o.testLine, test) ∈ assertions functions ∧
        observe functions o.testLine test = .ok (some o) := by
  unfold moduleObservations at h
  dsimp only at h
  split_ifs at h with hmany hdistinct
  · obtain rfl := Except.ok.inj h
    exact ⟨Nat.zero_le _, .nil, fun _ ho => nomatch ho⟩
  · cases hall : observeAll (tree.filterMap TopLevel.function?) []
      (assertions (tree.filterMap TopLevel.function?)) with
    | error e =>
        rw [hall] at h
        cases h
    | ok found =>
        rw [hall] at h
        obtain rfl := Except.ok.inj h
        obtain ⟨hlength, hfound⟩ := observeAll_spec _ hall (by simp)
        refine ⟨?_, ?_, fun o ho => ?_⟩
        · have hperm := List.filter_append_perm (fun o : Observation => !o.matchesAssertion) found
          simp only [Bool.not_not] at hperm
          exact hperm.length_eq.trans_le hlength
        · refine List.pairwise_append.mpr ⟨List.pairwise_of_forall_mem_list fun o ho _ _ hm => ?_,
            List.pairwise_of_forall_mem_list fun _ _ o ho _ => (List.mem_filter.mp ho).2,
            fun _ _ o ho _ => (List.mem_filter.mp ho).2⟩
          have hviolated := (List.mem_filter.mp ho).2
          rw [hm] at hviolated
          cases hviolated
        · have hmem : o ∈ found := by
            rcases List.mem_append.mp ho with ho | ho <;> exact (List.mem_filter.mp ho).1
          rcases hfound o hmem with ho | ⟨test, htest, hobserve⟩
          · cases ho
          · exact ⟨_, test, filterMap_function (not_not.mp fun hne => hmany (.inr hne)),
              hdistinct, htest, hobserve⟩
  · obtain rfl := Except.ok.inj h
    exact ⟨Nat.zero_le _, .nil, fun _ ho => nomatch ho⟩

/-- The observations of a file report what its assertions come to, the violated ones first. -/
theorem projection_sound {parse : List Char → Option (List TopLevel)} {file : Policy.File}
    {os : List Observation} (h : pythonObservations parse file = .ok os) :
    os.length ≤ 6 ∧
      os.Pairwise (fun o o' => o.matchesAssertion = true → o'.matchesAssertion = true) ∧
      ∀ o ∈ os, ∃ functions test,
        parse (sourceOf file) = some (functions.map TopLevel.function) ∧
        (functions.map FunctionDef.name).Nodup ∧ (o.testLine, test) ∈ assertions functions ∧
        ∀ S, SelfContained functions S → o.function ∈ S → Faithful functions test o := by
  unfold pythonObservations at h
  split_ifs at h with hrows hlong
  · obtain rfl := Except.ok.inj h
    exact ⟨Nat.zero_le _, .nil, fun _ ho => nomatch ho⟩
  · obtain rfl := Except.ok.inj h
    exact ⟨Nat.zero_le _, .nil, fun _ ho => nomatch ho⟩
  · split at h
    · cases h
    · next tree htree =>
      cases hmodule : moduleObservations tree with
      | error e =>
          rw [hmodule] at h
          cases h
      | ok found =>
          rw [hmodule] at h
          obtain rfl := Except.ok.inj h
          obtain ⟨hlength, hsorted, hfound⟩ := moduleObservations_spec hmodule
          refine ⟨hlength, hsorted, fun o ho => ?_⟩
          obtain ⟨functions, test, rfl, hdistinct, htest, hobserve⟩ := hfound o ho
          exact ⟨functions, test, htree, hdistinct, htest,
            fun S hS hoS => observe_faithful hobserve hS hoS⟩

end Observations

/-! ## One file -/

section Pick

def var (id : String) : Expr :=
  .name id.toList false

def plain (name : String) (args : List String) (defaults : List Expr) (body : List Stmt) :
    FunctionDef :=
  ⟨name.toList, [], [], args.map String.toList, [], none, none, defaults, [], 1, body⟩

/-- `"a"` -/
def letter : Expr :=
  .constant (.str [⟨97, by decide⟩])

/-- `pick({"a": 5}) == 3` -/
def pickTest : Expr :=
  .compare (.call ⟨9, 9⟩ (var "pick") [.dict [(some letter, .constant (.int 5))]] []) [.eq]
    [.constant (.int 3)]

/-- `def top(n, most=3)`, `def pick(d, k="a")`, which calls it, and a test of `pick`. -/
def pickModule : List FunctionDef :=
  [plain "top" ["n", "most"] [.constant (.int 3)]
      [.cond 2 (.compare (var "n") [.eq] [.constant (.int 0)]) [.ret 3 (some (var "most"))] [],
        .ret 4 (some (.call ⟨4, 4⟩ (var "min") [var "n", var "most"] []))],
    plain "pick" ["d", "k"] [letter]
      [.assign 6 [.name "n".toList true]
          (.call ⟨6, 6⟩ (.attribute (var "d") "get".toList) [var "k"] []),
        .ret 7 (some (.call ⟨7, 7⟩ (var "top") [var "n"] []))],
    plain "test" [] [] [.assertion 9 pickTest none]]

def pickLines : List String :=
  ["def top(n, most=3):", "    if n == 0:", "        return most", "    return min(n, most)",
    "def pick(d, k=\"a\"):", "    n = d.get(k)", "    return top(n)", "def test():",
    "    assert pick(\x7b\"a\": 5\x7d) == 3"]

def pickFile : Policy.File where
  fileId := ['f']
  language := "py".toList
  role := .changed
  lines := (pickLines.zipIdx 1).map fun (text, n) => ⟨n, text.toList, true⟩

/-- What `ast.parse` makes of this text. -/
def pickParse (source : List Char) : Option (List TopLevel) :=
  if source = Text.join ['\n'] (pickLines.map String.toList) then
    some (pickModule.map .function)
  else none

theorem selfContained_pick : SelfContained pickModule ["top".toList, "pick".toList] where
  builtin := by decide +kernel
  described := by decide +kernel
  locals := by decide +kernel
  defaults := by decide +kernel
  body := by decide +kernel

theorem projection_sound_pick :
    evaluateIn (callFunction pickModule 1000) ⟨[], pickModule.map FunctionDef.name⟩ [] pickTest =
      pure (.bool true) := by
  have hsource : pickParse (sourceOf pickFile) = some (pickModule.map .function) :=
    if_pos (by decide +kernel)
  have hone : (pythonObservations pickParse pickFile).toOption.map
      (List.map fun o => (o.function, o.matchesAssertion)) = some [("pick".toList, true)] := by
    decide +kernel
  cases hos : pythonObservations pickParse pickFile with
  | error e =>
      rw [hos] at hone
      cases hone
  | ok os =>
      rw [hos] at hone
      obtain ⟨o, rfl, ho⟩ := List.map_eq_singleton_iff.mp (Option.some.inj hone)
      obtain ⟨hname, hmatches⟩ := Prod.mk.inj ho
      obtain ⟨functions, test, hparse, -, htest, hfaithful⟩ :=
        (projection_sound hos).2.2 o List.mem_cons_self
      have hinjective : Function.Injective TopLevel.function := fun _ _ h => TopLevel.function.inj h
      obtain rfl := hinjective.list_map (Option.some.inj (hsource.symm.trans hparse))
      obtain ⟨-, rfl⟩ := Prod.mk.inj (List.mem_singleton.mp htest)
      have hevaluates := (hfaithful _ selfContained_pick (by rw [hname]; decide +kernel)).test 1000
        (by decide) ⟨[], pickModule.map FunctionDef.name⟩ [] rfl List.not_mem_nil
      rwa [hmatches] at hevaluates

end Pick

end Prism.PathObservations
