import Mathlib

/-!
# Joining texts with a separator

A loop that appends parenthesised texts, skips the empty ones and puts `||`
after every text that is not the last of the list leaves a trailing separator
when the list ends in empty texts; the code drops it afterwards.  The result is
the plain join of the non-empty texts.
-/

namespace Butterfly.Foundation

def paren (text : String) : String := "(" ++ text ++ ")"

def orText : List String → String
  | [] => ""
  | [text] => paren text
  | text :: texts => paren text ++ "||" ++ orText texts

def orLoopFrom : List String → String → String
  | [], r => r
  | text :: texts, r =>
      if text = "" then orLoopFrom texts r
      else orLoopFrom texts (r ++ paren text ++ if texts = [] then "" else "||")

def popBack (r : String) : String := String.ofList r.toList.dropLast

/-- Two `pop_back`s if `back()` is a bar; an empty string has no bar to read. -/
def dropBars (r : String) : String :=
  if r.toList.getLast? = some '|' then popBack (popBack r) else r

def orLoop (texts : List String) : String := dropBars (orLoopFrom texts "")

def trailing (texts : List String) : String :=
  if texts.getLast? = some "" ∧ texts.any (· ≠ "") then "||" else ""

theorem orText_cons_of_ne_nil {texts : List String} (h : texts ≠ [])
    (text : String) :
    orText (text :: texts) = paren text ++ "||" ++ orText texts := by
  cases texts with
  | nil => exact absurd rfl h
  | cons next texts => rfl

theorem trailing_of_filter_eq_nil {texts : List String}
    (h : texts.filter (· ≠ "") = []) : trailing texts = "" := by
  have hany : texts.any (· ≠ "") = false := by
    rw [List.filter_eq_nil_iff] at h
    simpa using h
  simp only [trailing, hany, Bool.false_eq_true, and_false, if_false]

theorem trailing_of_filter_ne_nil {texts : List String}
    (h : texts.filter (· ≠ "") ≠ []) :
    trailing texts = if texts.getLast? = some "" then "||" else "" := by
  have hany : texts.any (· ≠ "") = true := by
    obtain ⟨text, htext⟩ := List.exists_mem_of_ne_nil _ h
    rw [List.mem_filter] at htext
    exact List.any_eq_true.mpr ⟨text, htext⟩
  simp only [trailing, hany, and_true]

theorem orLoopFrom_eq (texts : List String) (r : String) :
    orLoopFrom texts r =
      r ++ orText (texts.filter (· ≠ "")) ++ trailing texts := by
  induction texts generalizing r with
  | nil => simp [orLoopFrom, orText, trailing]
  | cons text texts ih =>
      by_cases htext : text = ""
      · subst htext
        rw [orLoopFrom, if_pos rfl, ih]
        cases texts with
        | nil => simp [trailing]
        | cons next texts => simp [trailing, List.getLast?_cons_cons]
      · have hfilter : (text :: texts).filter (· ≠ "") =
            text :: texts.filter (· ≠ "") := by
          simp [htext]
        rw [orLoopFrom, if_neg htext, ih, hfilter]
        cases texts with
        | nil => simp [trailing, orText, htext]
        | cons next texts =>
            have hlast : trailing (text :: next :: texts) = _ :=
              trailing_of_filter_ne_nil (by rw [hfilter]; simp)
            rw [List.getLast?_cons_cons] at hlast
            by_cases hrest : (next :: texts).filter (· ≠ "") = []
            · -- Everything behind `text` is empty, so its separator is left over.
              have hempty : (next :: texts).getLast? = some "" := by
                have hmem := List.getLast_mem (List.cons_ne_nil next texts)
                rw [List.filter_eq_nil_iff] at hrest
                rw [List.getLast?_eq_getLast_of_ne_nil (List.cons_ne_nil next texts)]
                simpa using hrest _ hmem
              rw [trailing_of_filter_eq_nil hrest, hrest, hlast, if_pos hempty]
              simp [orText]
            · rw [trailing_of_filter_ne_nil hrest, hlast,
                orText_cons_of_ne_nil hrest]
              simp [String.append_assoc]

theorem orText_getLast {texts : List String} (h : texts ≠ []) :
    (orText texts).toList.getLast? = some ')' := by
  induction texts with
  | nil => exact absurd rfl h
  | cons text texts ih =>
      cases texts with
      | nil =>
          rw [orText, paren, String.toList_append, List.getLast?_append]
          rfl
      | cons next texts =>
          rw [orText_cons_of_ne_nil (List.cons_ne_nil _ _),
            String.toList_append, List.getLast?_append,
            ih (List.cons_ne_nil _ _)]
          rfl

/-- The loop and the final repair compute the join of the non-empty texts. -/
theorem orLoop_eq (texts : List String) :
    orLoop texts = orText (texts.filter (· ≠ "")) := by
  rw [orLoop, orLoopFrom_eq, String.empty_append]
  by_cases hfilter : texts.filter (· ≠ "") = []
  · rw [trailing_of_filter_eq_nil hfilter, hfilter]
    simp [orText, dropBars]
  · have hlast := orText_getLast hfilter
    by_cases htrailing : trailing texts = ""
    · rw [htrailing, String.append_empty, dropBars, hlast]
      simp
    · have hbars : trailing texts = "||" := by
        unfold trailing at htrailing ⊢
        split at htrailing
        · next h => rw [if_pos h]
        · exact absurd rfl htrailing
      rw [hbars, dropBars, if_pos (by simp), popBack, popBack]
      apply String.toList_injective
      simp [List.dropLast_append_of_ne_nil]

theorem orText_eq_empty_iff (texts : List String) :
    orText texts = "" ↔ texts = [] := by
  constructor
  · intro h
    by_contra hne
    have hlast := orText_getLast hne
    rw [h] at hlast
    simp at hlast
  · rintro rfl
    rfl

theorem orLoop_eq_empty_iff (texts : List String) :
    orLoop texts = "" ↔ ∀ text ∈ texts, text = "" := by
  rw [orLoop_eq, orText_eq_empty_iff, List.filter_eq_nil_iff]
  simp

theorem orText_eq_intercalate (texts : List String) :
    orText texts = "||".intercalate (texts.map paren) := by
  induction texts with
  | nil => rfl
  | cons text texts ih =>
      cases texts with
      | nil => simp [orText]
      | cons next texts =>
          rw [orText_cons_of_ne_nil (List.cons_ne_nil _ _), ih, List.map_cons, List.map_cons,
            List.map_cons, String.intercalate_cons_cons]

/-! ## Accesses to the last character -/

/-- `back()`, which an empty string does not have. -/
def back? (r : String) : Option Char := r.toList.getLast?

def popBack? (r : String) : Option String := if r = "" then none else some (popBack r)

def dropBars? (r : String) : Option String := do
  let c ← back? r
  if c = '|' then do
    let r ← popBack? r
    popBack? r
  else some r

def orLoop? (texts : List String) : Option String := dropBars? (orLoopFrom texts "")

@[simp] theorem dropBars?_empty : dropBars? "" = none := rfl

/-- The bars come in twos. -/
theorem dropBars?_append {r : String} (h : r.toList.getLast? = some ')') (bars : String)
    (hbars : bars = "" ∨ bars = "||") : dropBars? (r ++ bars) = some (dropBars (r ++ bars)) := by
  have hne : r ≠ "" := by
    rintro rfl
    cases h
  rcases hbars with rfl | rfl
  · simp [dropBars?, dropBars, back?, h]
  · have hpop : popBack (r ++ "||") = r ++ "|" := by
      apply String.toList_injective
      simp [popBack, List.dropLast_append_of_ne_nil]
    simp [dropBars?, dropBars, back?, popBack?, hpop]

theorem trailing_cases (texts : List String) : trailing texts = "" ∨ trailing texts = "||" := by
  unfold trailing
  split
  · exact .inr rfl
  · exact .inl rfl

/-- The checked loop has a result just when it has joined something. -/
theorem orLoop?_eq (texts : List String) :
    orLoop? texts = if orLoop texts = "" then none else some (orLoop texts) := by
  unfold orLoop?
  by_cases hempty : orLoop texts = ""
  · rw [if_pos hempty]
    rw [orLoop_eq, orText_eq_empty_iff] at hempty
    rw [orLoopFrom_eq, hempty, trailing_of_filter_eq_nil hempty]
    rfl
  · rw [if_neg hempty, orLoop]
    rw [orLoop_eq, orText_eq_empty_iff] at hempty
    rw [orLoopFrom_eq, String.empty_append]
    exact dropBars?_append (orText_getLast hempty) _ (trailing_cases texts)

/-! ## The texts a join is made of -/

inductive Joins : String → List String → Prop
  | text (text : String) : Joins text [text]
  | join (parts : List (String × List String)) : parts ≠ [] →
      (∀ part ∈ parts, Joins part.1 part.2) →
      Joins (orText (parts.map Prod.fst)) (parts.flatMap Prod.snd)

theorem joins_orText {texts : List String} (h : texts ≠ []) :
    Joins (orText texts) texts := by
  have hjoin := Joins.join (texts.map fun text => (text, [text]))
    (by simpa using h) (by simpa using fun text _ => .text text)
  simpa [Function.comp_def, List.flatMap_map] using hjoin

theorem joins_orLoop_map {groups : List (List String)}
    (h : orLoop (groups.map orLoop) ≠ "") :
    ∃ atoms, Joins (orLoop (groups.map orLoop)) atoms ∧
      ∀ a, a ∈ atoms ↔ a ∈ groups.flatten.filter (· ≠ "") := by
  have hparts : (groups.map orLoop).filter (· ≠ "") =
      ((groups.filter (orLoop · ≠ "")).map fun texts =>
        (orLoop texts, texts.filter (· ≠ ""))).map Prod.fst := by
    rw [List.filter_map, List.map_map]
    rfl
  have hne : groups.filter (orLoop · ≠ "") ≠ [] := by
    intro hnil
    rw [Ne, orLoop_eq, orText_eq_empty_iff, hparts, hnil] at h
    exact h rfl
  refine ⟨((groups.filter (orLoop · ≠ "")).map fun texts =>
    (orLoop texts, texts.filter (· ≠ ""))).flatMap Prod.snd, ?_, ?_⟩
  · rw [orLoop_eq, hparts]
    refine .join _ (by simpa using hne) ?_
    intro part hpart
    obtain ⟨texts, htexts, rfl⟩ := List.mem_map.mp hpart
    rw [List.mem_filter, decide_eq_true_eq, orLoop_eq, Ne, orText_eq_empty_iff] at htexts
    rw [orLoop_eq]
    exact joins_orText htexts.2
  · intro a
    simp only [List.flatMap_map, List.mem_flatMap, List.mem_filter, decide_eq_true_eq,
      List.mem_flatten]
    constructor
    · rintro ⟨texts, ⟨htexts, -⟩, ha, hempty⟩
      exact ⟨⟨texts, htexts, ha⟩, hempty⟩
    · rintro ⟨⟨texts, htexts, ha⟩, hempty⟩
      refine ⟨texts, ⟨htexts, ?_⟩, ha, hempty⟩
      rw [Ne, orLoop_eq_empty_iff]
      exact fun hall => hempty (hall a ha)

/-- What holds of a join when `||` is a disjunction of well-formed texts. -/
theorem Joins.holds {text : String} {atoms : List String} (h : Joins text atoms)
    (wellFormed holds : String → Prop)
    (hwell : ∀ {texts}, texts ≠ [] → (∀ text ∈ texts, wellFormed text) →
      wellFormed (orText texts))
    (hor : ∀ {texts}, texts ≠ [] → (∀ text ∈ texts, wellFormed text) →
      (holds (orText texts) ↔ ∃ text ∈ texts, holds text))
    (hatoms : ∀ a ∈ atoms, wellFormed a) :
    wellFormed text ∧ (holds text ↔ ∃ a ∈ atoms, holds a) := by
  induction h with
  | text text =>
      simp only [List.mem_singleton, forall_eq] at hatoms
      simpa using hatoms
  | join parts hne _ ih =>
      have hparts : ∀ part ∈ parts, wellFormed part.1 ∧
          (holds part.1 ↔ ∃ a ∈ part.2, holds a) := by
        intro part hpart
        exact ih part hpart fun a ha => hatoms a (List.mem_flatMap.mpr ⟨part, hpart, ha⟩)
      have hne' : parts.map Prod.fst ≠ [] := by simpa using hne
      have htexts : ∀ text ∈ parts.map Prod.fst, wellFormed text := by
        intro text htext
        obtain ⟨part, hpart, rfl⟩ := List.mem_map.mp htext
        exact (hparts part hpart).1
      refine ⟨hwell hne' htexts, (hor hne' htexts).trans ?_⟩
      constructor
      · rintro ⟨text, htext, hholds⟩
        obtain ⟨part, hpart, rfl⟩ := List.mem_map.mp htext
        obtain ⟨a, ha, hholds'⟩ := (hparts part hpart).2.mp hholds
        exact ⟨a, List.mem_flatMap.mpr ⟨part, hpart, ha⟩, hholds'⟩
      · rintro ⟨a, ha, hholds⟩
        obtain ⟨part, hpart, ha⟩ := List.mem_flatMap.mp ha
        exact ⟨part.1, List.mem_map_of_mem hpart, (hparts part hpart).2.mpr ⟨a, ha, hholds⟩⟩

end Butterfly.Foundation
