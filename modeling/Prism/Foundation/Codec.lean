import Prism.Foundation.JsonRoundTrip
import Prism.Foundation.Text

/-! Typed values of a JSON document: strict readers beside the printers whose output
they accept. -/

namespace Json

abbrev Member := List Char × Json

/-- How the values of a type are written as JSON and read back. A reader takes its
texts from the document, a default apart, which holds no text but the empty one. -/
structure Codec (α : Type) where
  read : Json → Option α
  dump : α → Json
  strings : α → List (List Char)
  read_dump : ∀ a, read (dump a) = some a
  wellFormed : ∀ a, WellFormed (dump a)
  strings_read : ∀ {j a t}, read j = some a → t ∈ strings a → t ≠ [] → t ∈ texts j
  strings_dump : ∀ {a t}, t ∈ strings a → t ∈ texts (dump a)

namespace Codec

variable {α β : Type}

def text : Codec (List Char) where
  read
    | .str t => some t
    | _ => none
  dump := .str
  strings t := [t]
  read_dump _ := rfl
  wellFormed := .str
  strings_read := by
    intro j a t h ht _
    cases j <;> simp at h
    simpa [texts, h] using ht
  strings_dump ht := ht

def int : Codec ℤ where
  read
    | .int n => some n
    | _ => none
  dump := .int
  strings _ := []
  read_dump _ := rfl
  wellFormed := .int
  strings_read := by simp
  strings_dump := by simp

/-- A text that names one of the values of an enumeration. -/
def label (options : List α) (name : α → List Char) (all : ∀ a, a ∈ options)
    (distinct : ∀ a b, name a = name b → a = b) : Codec α where
  read
    | .str t => options.find? fun a => name a = t
    | _ => none
  dump a := .str (name a)
  strings _ := []
  read_dump a := by
    have hsome : (options.find? fun b => name b = name a).isSome := by
      apply List.find?_isSome.mpr
      exact ⟨a, all a, by simp⟩
    obtain ⟨b, hb⟩ := Option.isSome_iff_exists.mp hsome
    have hname : name b = name a := by simpa using List.find?_some hb
    exact hb.trans (congrArg some (distinct b a hname))
  wellFormed _ := .str _
  strings_read := by simp
  strings_dump := by simp

theorem mapM_read_dump (c : Codec α) (l : List α) : (l.map c.dump).mapM c.read = some l := by
  induction l with
  | nil => rfl
  | cons a l ih => simp [ih, c.read_dump]

theorem mapM_strings (c : Codec α) {js : List Json} {l : List α} (h : js.mapM c.read = some l)
    {a : α} (ha : a ∈ l) : ∃ j ∈ js, c.read j = some a := by
  induction js generalizing l with
  | nil =>
      obtain rfl : [] = l := by simpa using h
      contradiction
  | cons j js ih =>
      simp only [List.mapM_cons, Option.bind_eq_bind, Option.bind_eq_some_iff, Option.pure_def,
        Option.some.injEq] at h
      obtain ⟨b, hb, l', hl', rfl⟩ := h
      rcases List.mem_cons.mp ha with rfl | ha
      · exact ⟨j, List.mem_cons_self, hb⟩
      · obtain ⟨i, hi, hread⟩ := ih hl' ha
        exact ⟨i, List.mem_cons_of_mem j hi, hread⟩

def list (c : Codec α) : Codec (List α) where
  read
    | .arr js => js.mapM c.read
    | _ => none
  dump l := .arr (l.map c.dump)
  strings l := l.flatMap c.strings
  read_dump l := c.mapM_read_dump l
  wellFormed l := by
    apply WellFormed.arr
    intro j hj
    obtain ⟨a, -, rfl⟩ := List.mem_map.mp hj
    exact c.wellFormed a
  strings_read := by
    intro j l t h ht hne
    cases j with
    | arr js =>
        obtain ⟨a, ha, hta⟩ := List.mem_flatMap.mp ht
        obtain ⟨j, hj, hread⟩ := c.mapM_strings h ha
        exact mem_itemTexts.mpr ⟨j, hj, c.strings_read hread hta hne⟩
    | null | bool _ | int _ | float _ | str _ | obj _ => simp at h
  strings_dump := by
    intro l t ht
    obtain ⟨a, ha, hta⟩ := List.mem_flatMap.mp ht
    exact mem_itemTexts.mpr ⟨c.dump a, List.mem_map_of_mem ha, c.strings_dump hta⟩

/-- The values that pass a check. -/
def restrict (c : Codec α) (p : α → Prop) [DecidablePred p] : Codec {a // p a} where
  read j := (c.read j).bind fun a => if h : p a then some ⟨a, h⟩ else none
  dump a := c.dump a.1
  strings a := c.strings a.1
  read_dump a := by simp [c.read_dump, a.2]
  wellFormed a := c.wellFormed a.1
  strings_read := by
    intro j a t h ht hne
    obtain ⟨b, hb, hcheck⟩ := Option.bind_eq_some_iff.mp h
    split_ifs at hcheck with hp
    obtain rfl := Option.some.inj hcheck
    exact c.strings_read hb ht hne
  strings_dump := c.strings_dump

/-- A value or `null`. -/
def nullable (c : Codec α) (h : ∀ a, c.dump a ≠ .null) : Codec (Option α) where
  read
    | .null => some none
    | j => (c.read j).map some
  dump
    | none => .null
    | some a => c.dump a
  strings
    | none => []
    | some a => c.strings a
  read_dump a := by
    cases a with
    | none => rfl
    | some a =>
        simp only
        split
        · rename_i heq
          exact absurd heq (h a)
        · rw [c.read_dump]
          rfl
  wellFormed a := by
    cases a with
    | none => exact .null
    | some a => exact c.wellFormed a
  strings_read := by
    intro j a t h ht hne
    cases a with
    | none => contradiction
    | some a =>
        split at h
        · simp at h
        · obtain ⟨b, hb, heq⟩ := Option.map_eq_some_iff.mp h
          obtain rfl := Option.some.inj heq
          exact c.strings_read hb ht hne
  strings_dump := by
    intro a t ht
    cases a with
    | none => contradiction
    | some a => exact c.strings_dump ht

end Codec

/-- How some members of an object are read and written. The laws hold as long as no
name is used twice. -/
structure Fields (α : Type) where
  names : List (List Char)
  read : List Member → Option α
  dump : α → List Member
  strings : α → List (List Char)
  keys : ∀ a, (dump a).map Prod.fst = names
  read_dump : names.Nodup → ∀ a ms, (∀ n ∈ names, member? ms n = member? (dump a) n) →
    read ms = some a
  wellFormed : ∀ a, ∀ m ∈ dump a, WellFormed m.2
  strings_read : ∀ {ms a t}, read ms = some a → t ∈ strings a → t ≠ [] → t ∈ memberTexts ms
  strings_dump : ∀ {a t}, t ∈ strings a → t ∈ memberTexts (dump a)

namespace Fields

variable {α β : Type}

theorem member?_mem {ms : List Member} {n : List Char} {j : Json} (h : member? ms n = some j) :
    (n, j) ∈ ms := by
  obtain ⟨m, hm, rfl⟩ := Option.map_eq_some_iff.mp h
  have hkey : m.1 = n := by simpa using List.find?_some hm
  exact hkey ▸ List.mem_of_find?_eq_some hm

theorem member?_append_left {ms ms' : List Member} {n : List Char} (h : n ∈ ms.map Prod.fst) :
    member? (ms ++ ms') n = member? ms n := by
  have hsome : (ms.find? fun m => m.1 = n).isSome := by
    obtain ⟨m, hm, rfl⟩ := List.mem_map.mp h
    exact List.find?_isSome.mpr ⟨m, hm, by simp⟩
  obtain ⟨m, hm⟩ := Option.isSome_iff_exists.mp hsome
  simp [member?, List.find?_append, hm]

theorem member?_append_right {ms ms' : List Member} {n : List Char} (h : n ∉ ms.map Prod.fst) :
    member? (ms ++ ms') n = member? ms' n := by
  have hnone : (ms.find? fun m => m.1 = n) = none := by
    apply List.find?_eq_none.mpr
    intro m hm hkey
    exact h (List.mem_map.mpr ⟨m, hm, of_decide_eq_true hkey⟩)
  simp [member?, List.find?_append, hnone]

/-- One member, which may have a default. -/
def one (name : List Char) (c : Codec α) (default : Option α)
    (hdefault : ∀ a ∈ default, ∀ t ∈ c.strings a, t = []) : Fields α where
  names := [name]
  read ms := match member? ms name with
    | none => default
    | some j => c.read j
  dump a := [(name, c.dump a)]
  strings := c.strings
  keys _ := rfl
  read_dump := by
    intro _ a ms h
    have hname : member? [(name, c.dump a)] name = some (c.dump a) := by
      simp [member?]
    rw [h name List.mem_cons_self, hname]
    exact c.read_dump a
  wellFormed a m hm := by
    rw [List.mem_singleton.mp hm]
    exact c.wellFormed a
  strings_read := by
    intro ms a t h ht hne
    split at h
    · exact absurd (hdefault a h t ht) hne
    · rename_i j hj
      exact mem_memberTexts.mpr ⟨_, member?_mem hj, c.strings_read h ht hne⟩
  strings_dump := by
    intro a t ht
    exact mem_memberTexts.mpr ⟨_, List.mem_cons_self, c.strings_dump ht⟩

/-- A member that has to be present. -/
def required (name : List Char) (c : Codec α) : Fields α :=
  one name c none (by simp)

/-- A member that stands for `a` when it is absent. -/
def optional (name : List Char) (c : Codec α) (a : α) (h : ∀ t ∈ c.strings a, t = []) : Fields α :=
  one name c (some a) (by simpa using h)

def both (f : Fields α) (g : Fields β) : Fields (α × β) where
  names := f.names ++ g.names
  read ms := (f.read ms).bind fun a => (g.read ms).map fun b => (a, b)
  dump ab := f.dump ab.1 ++ g.dump ab.2
  strings ab := f.strings ab.1 ++ g.strings ab.2
  keys ab := by rw [List.map_append, f.keys, g.keys]
  read_dump := by
    rintro hnodup ⟨a, b⟩ ms h
    obtain ⟨hf, hg, hdisjoint⟩ := List.nodup_append.mp hnodup
    have hfirst : f.read ms = some a := by
      apply f.read_dump hf
      intro n hn
      rw [h n (List.mem_append_left _ hn)]
      exact member?_append_left (f.keys a ▸ hn)
    have hsecond : g.read ms = some b := by
      apply g.read_dump hg
      intro n hn
      rw [h n (List.mem_append_right _ hn)]
      apply member?_append_right
      rw [f.keys a]
      exact fun hmem => hdisjoint n hmem n hn rfl
    simp [hfirst, hsecond]
  wellFormed ab m hm := by
    rcases List.mem_append.mp hm with hm | hm
    · exact f.wellFormed ab.1 m hm
    · exact g.wellFormed ab.2 m hm
  strings_read := by
    intro ms ab t h ht hne
    simp only [Option.bind_eq_some_iff, Option.map_eq_some_iff] at h
    obtain ⟨a, ha, b, hb, rfl⟩ := h
    rcases List.mem_append.mp ht with ht | ht
    · exact f.strings_read ha ht hne
    · exact g.strings_read hb ht hne
  strings_dump := by
    intro ab t ht
    rw [mem_memberTexts]
    rcases List.mem_append.mp ht with ht | ht
    · obtain ⟨m, hm, htm⟩ := mem_memberTexts.mp (f.strings_dump ht)
      exact ⟨m, List.mem_append_left _ hm, htm⟩
    · obtain ⟨m, hm, htm⟩ := mem_memberTexts.mp (g.strings_dump ht)
      exact ⟨m, List.mem_append_right _ hm, htm⟩

/-- The same members for a type that is put together from them. -/
def build (f : Fields α) (make : α → β) (parts : β → α) (h : ∀ b, make (parts b) = b)
    (h' : ∀ a, parts (make a) = a) : Fields β where
  names := f.names
  read ms := (f.read ms).map make
  dump b := f.dump (parts b)
  strings b := f.strings (parts b)
  keys b := f.keys (parts b)
  read_dump := by
    intro hnodup b ms hms
    rw [f.read_dump hnodup (parts b) ms hms, Option.map_some, h]
  wellFormed b := f.wellFormed (parts b)
  strings_read := by
    intro ms b t hread ht hne
    obtain ⟨a, ha, rfl⟩ := Option.map_eq_some_iff.mp hread
    rw [h' a] at ht
    exact f.strings_read ha ht hne
  strings_dump ht := f.strings_dump ht

end Fields

/-- An object of the given members and no others. -/
def Codec.record {α : Type} (f : Fields α) (h : f.names.Nodup) : Codec α where
  read
    | .obj ms => if ms.all fun m => m.1 ∈ f.names then f.read ms else none
    | _ => none
  dump a := .obj (f.dump a)
  strings := f.strings
  read_dump a := by
    have hall : (f.dump a).all (fun m => m.1 ∈ f.names) = true := by
      apply List.all_eq_true.mpr
      intro m hm
      have hkey : m.1 ∈ (f.dump a).map Prod.fst := List.mem_map_of_mem hm
      simpa [f.keys a] using hkey
    exact (if_pos hall).trans (f.read_dump h a _ fun _ _ => rfl)
  wellFormed a := .obj (f.keys a ▸ h) (f.wellFormed a)
  strings_read := by
    intro j a t hread ht hne
    cases j with
    | obj ms =>
        simp only at hread
        split_ifs at hread
        exact f.strings_read hread ht hne
    | null | bool _ | int _ | float _ | str _ | arr _ => simp at hread
  strings_dump ht := f.strings_dump ht

end Json
