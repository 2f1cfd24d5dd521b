import Mathlib.Data.Int.Notation
import Mathlib.Data.List.Infix

/-! JSON values and their text. -/

/-- A JSON value. Texts are lists of scalar values; a number that is not written
as an integer keeps its literal. -/
inductive Json where
  | null
  | bool (b : Bool)
  | int (n : ℤ)
  | float (literal : List Char)
  | str (text : List Char)
  | arr (items : List Json)
  | obj (members : List (List Char × Json))

namespace Json

/-- Induction over a value, with the hypothesis for everything directly inside an
array or an object. -/
@[elab_as_elim, induction_eliminator]
theorem induct {P : Json → Prop} (null : P null) (bool : ∀ b, P (bool b)) (int : ∀ n, P (int n))
    (float : ∀ literal, P (float literal)) (str : ∀ text, P (str text))
    (arr : ∀ js, (∀ j ∈ js, P j) → P (arr js))
    (obj : ∀ ms, (∀ m ∈ ms, P m.2) → P (obj ms)) (j : Json) : P j :=
  Json.rec null bool int float str arr obj
    (fun _ h => absurd h List.not_mem_nil)
    (fun _ _ hj hjs _ h => (List.mem_cons.mp h).elim (fun e => e ▸ hj) (hjs _))
    (fun _ h => absurd h List.not_mem_nil)
    (fun _ _ hm hms _ h => (List.mem_cons.mp h).elim (fun e => e ▸ hm) (hms _))
    (fun _ _ hj => hj) j

/-- A scalar value that a string literal spells by itself. -/
def Plain (c : Char) : Prop :=
  c ≠ '"' ∧ c ≠ '\\' ∧ 32 ≤ c.toNat

instance (c : Char) : Decidable (Plain c) :=
  inferInstanceAs (Decidable (_ ∧ _ ∧ _))

/-- The spelling of one scalar value inside a string literal. -/
def escapeChar (c : Char) : List Char :=
  if c = '"' then ['\\', '"']
  else if c = '\\' then ['\\', '\\']
  else if c = '\n' then ['\\', 'n']
  else if c = '\r' then ['\\', 'r']
  else if c = '\t' then ['\\', 't']
  else if c = '\x08' then ['\\', 'b']
  else if c = '\x0c' then ['\\', 'f']
  else if c.toNat < 32 then
    ['\\', 'u', '0', '0', Nat.digitChar (c.toNat / 16), Nat.digitChar (c.toNat % 16)]
  else [c]

def escape (s : List Char) : List Char :=
  s.flatMap escapeChar

/-- A string literal. -/
def quote (s : List Char) : List Char :=
  '"' :: escape s ++ ['"']

/-- What a printer puts between two items and after a key. -/
structure Separators where
  item : List Char
  key : List Char

/-- `model_dump_json()`. -/
def compact : Separators :=
  ⟨[','], [':']⟩

/-- `json.dumps(value, ensure_ascii=False)`. -/
def spaced : Separators :=
  ⟨[',', ' '], [':', ' ']⟩

def printInt : ℤ → List Char
  | .ofNat n => Nat.toDigits 10 n
  | .negSucc n => '-' :: Nat.toDigits 10 (n + 1)

mutual

def print (sep : Separators) : Json → List Char
  | null => ['n', 'u', 'l', 'l']
  | bool true => ['t', 'r', 'u', 'e']
  | bool false => ['f', 'a', 'l', 's', 'e']
  | int n => printInt n
  | float literal => literal
  | str text => quote text
  | arr [] => ['[', ']']
  | arr (j :: js) => '[' :: (print sep j ++ printItems sep js)
  | obj [] => ['{', '}']
  | obj ((key, j) :: ms) => '{' :: (quote key ++ sep.key ++ print sep j ++ printMembers sep ms)

/-- The items after the first one, with the closing bracket. -/
def printItems (sep : Separators) : List Json → List Char
  | [] => [']']
  | j :: js => sep.item ++ print sep j ++ printItems sep js

/-- The members after the first one, with the closing brace. -/
def printMembers (sep : Separators) : List (List Char × Json) → List Char
  | [] => ['}']
  | (key, j) :: ms =>
    sep.item ++ quote key ++ sep.key ++ print sep j ++ printMembers sep ms

end

mutual

/-- The texts a value holds, its keys apart. -/
def texts : Json → List (List Char)
  | str text => [text]
  | arr js => itemTexts js
  | obj ms => memberTexts ms
  | null | bool _ | int _ | float _ => []

def itemTexts : List Json → List (List Char)
  | [] => []
  | j :: js => texts j ++ itemTexts js

def memberTexts : List (List Char × Json) → List (List Char)
  | [] => []
  | (_, j) :: ms => texts j ++ memberTexts ms

end

theorem mem_itemTexts {t : List Char} {js : List Json} :
    t ∈ itemTexts js ↔ ∃ j ∈ js, t ∈ texts j := by
  induction js with
  | nil => simp [itemTexts]
  | cons j js ih => simp [itemTexts, ih]

theorem mem_memberTexts {t : List Char} {ms : List (List Char × Json)} :
    t ∈ memberTexts ms ↔ ∃ m ∈ ms, t ∈ texts m.2 := by
  induction ms with
  | nil => simp [memberTexts]
  | cons m ms ih => simp [memberTexts, ih]

section Escape

theorem escapeChar_plain {c : Char} (h : Plain c) : escapeChar c = [c] := by
  obtain ⟨hquote, hslash, hctrl⟩ := h
  have hsmall : ∀ d : Char, d.toNat < 32 → c ≠ d := by
    rintro d hd rfl
    omega
  rw [escapeChar, if_neg hquote, if_neg hslash, if_neg (hsmall _ (by decide)),
    if_neg (hsmall _ (by decide)), if_neg (hsmall _ (by decide)), if_neg (hsmall _ (by decide)),
    if_neg (hsmall _ (by decide)), if_neg (by omega)]

theorem escape_plain {s : List Char} (h : ∀ c ∈ s, Plain c) : escape s = s := by
  induction s with
  | nil => rfl
  | cons c s ih =>
      have hs := ih fun d hd => h d (List.mem_cons_of_mem c hd)
      have hc := escapeChar_plain (h c List.mem_cons_self)
      rw [escape] at hs ⊢
      rw [List.flatMap_cons, hc, hs]
      rfl

theorem escape_append (s t : List Char) : escape (s ++ t) = escape s ++ escape t :=
  List.flatMap_append

theorem escape_infix {s t : List Char} (h : s <:+: t) : escape s <:+: escape t := by
  obtain ⟨pre, post, rfl⟩ := h
  rw [escape_append, escape_append]
  exact ⟨escape pre, escape post, rfl⟩

theorem length_le_escape (s : List Char) : s.length ≤ (escape s).length := by
  induction s with
  | nil => simp
  | cons c s ih =>
      have hc : 1 ≤ (escapeChar c).length := by
        unfold escapeChar
        split_ifs <;> simp
      rw [escape, List.flatMap_cons, List.length_append, List.length_cons]
      rw [escape] at ih
      omega

end Escape

section Print

private theorem print_infix_items (sep : Separators) {j : Json} {js : List Json}
    (h : j ∈ js) : print sep j <:+: printItems sep js := by
  induction js with
  | nil => simp at h
  | cons i js ih =>
      rw [printItems]
      rcases List.mem_cons.mp h with rfl | h
      · exact ⟨sep.item, printItems sep js, rfl⟩
      · exact (ih h).trans (List.suffix_append _ _).isInfix

private theorem print_infix_members (sep : Separators) {m : List Char × Json}
    {ms : List (List Char × Json)} (h : m ∈ ms) : print sep m.2 <:+: printMembers sep ms := by
  induction ms with
  | nil => simp at h
  | cons n ms ih =>
      rw [printMembers]
      rcases List.mem_cons.mp h with rfl | h
      · exact ⟨sep.item ++ quote m.1 ++ sep.key, printMembers sep ms, by simp⟩
      · exact (ih h).trans (List.suffix_append _ _).isInfix

/-- An item of an array is printed inside it. -/
theorem print_infix_arr (sep : Separators) {j : Json} {js : List Json} (h : j ∈ js) :
    print sep j <:+: print sep (arr js) := by
  cases js with
  | nil => simp at h
  | cons i js =>
      rw [print]
      apply List.infix_cons
      rcases List.mem_cons.mp h with rfl | h
      · exact (List.prefix_append _ _).isInfix
      · exact (print_infix_items sep h).trans (List.suffix_append _ _).isInfix

/-- A member of an object is printed inside it. -/
theorem print_infix_obj (sep : Separators) {m : List Char × Json}
    {ms : List (List Char × Json)} (h : m ∈ ms) : print sep m.2 <:+: print sep (obj ms) := by
  cases ms with
  | nil => simp at h
  | cons n ms =>
      rw [print]
      apply List.infix_cons
      rcases List.mem_cons.mp h with rfl | h
      · exact ⟨quote m.1 ++ sep.key, printMembers sep ms, by simp⟩
      · exact (print_infix_members sep h).trans (List.suffix_append _ _).isInfix

/-- Every string of a value is printed as a literal. -/
theorem quote_infix_print (sep : Separators) (j : Json) {t : List Char} (h : t ∈ texts j) :
    quote t <:+: print sep j := by
  induction j with
  | null => simp [texts] at h
  | bool b => simp [texts] at h
  | int n => simp [texts] at h
  | float literal => simp [texts] at h
  | str text =>
      rw [texts, List.mem_singleton] at h
      rw [h, print]
  | arr js ih =>
      obtain ⟨j, hj, ht⟩ := mem_itemTexts.mp h
      exact (ih j hj ht).trans (print_infix_arr sep hj)
  | obj ms ih =>
      obtain ⟨m, hm, ht⟩ := mem_memberTexts.mp h
      exact (ih m hm ht).trans (print_infix_obj sep hm)

/-- The spelling of every string of a value occurs in its text. -/
theorem escape_infix_print (sep : Separators) (j : Json) {t : List Char} (h : t ∈ texts j) :
    escape t <:+: print sep j := by
  have hquote : escape t <:+: quote t := ⟨['"'], ['"'], rfl⟩
  exact hquote.trans (quote_infix_print sep j h)

end Print

end Json
