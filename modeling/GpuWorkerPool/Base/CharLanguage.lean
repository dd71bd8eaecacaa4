import Mathlib.Computability.Language

/-!
Languages over characters as a regular expression writes them: classes, repetitions of a class, and
segments that each follow a separator. Membership is read off the shape of the text, and a text
whose segments do not contain the separator is taken apart by splitting it there.
-/

namespace Base

open Computability

/-- `[p]`: one character of a class. -/
def charClass (p : Char → Bool) : Language Char := {text | ∃ c, p c ∧ text = [c]}

section Classes

variable {p q : Char → Bool} {text : List Char}

/-- `[p]*` -/
theorem mem_charClass_kstar : text ∈ (charClass p)∗ ↔ text.all p := by
  rw [Language.mem_kstar]
  constructor
  · rintro ⟨parts, rfl, hparts⟩
    rw [List.all_eq_true]
    intro c hc
    obtain ⟨part, hpart, hmem⟩ := List.mem_flatten.mp hc
    obtain ⟨d, hd, rfl⟩ := hparts part hpart
    rwa [List.mem_singleton.mp hmem]
  · intro hall
    refine ⟨text.map fun c => [c], ?_, ?_⟩
    · rw [← List.flatMap_def, List.flatMap_singleton']
    · intro part hpart
      obtain ⟨c, hc, rfl⟩ := List.mem_map.mp hpart
      exact ⟨c, List.all_eq_true.mp hall c hc, rfl⟩

/-- `[p][q]*` -/
theorem mem_charClass_mul_kstar :
    text ∈ charClass p * (charClass q)∗ ↔ ∃ c rest, text = c :: rest ∧ p c ∧ rest.all q := by
  rw [Language.mem_mul]
  constructor
  · rintro ⟨first, ⟨c, hc, rfl⟩, rest, hrest, rfl⟩
    exact ⟨c, rest, rfl, hc, mem_charClass_kstar.mp hrest⟩
  · rintro ⟨c, rest, rfl, hc, hrest⟩
    exact ⟨[c], ⟨c, hc, rfl⟩, rest, mem_charClass_kstar.mpr hrest, rfl⟩

/-- `[p]+` -/
theorem mem_charClass_plus :
    text ∈ charClass p * (charClass p)∗ ↔ text ≠ [] ∧ text.all p := by
  rw [mem_charClass_mul_kstar]
  constructor
  · rintro ⟨c, rest, rfl, hc, hrest⟩
    exact ⟨List.cons_ne_nil _ _, by rw [List.all_cons, hc, hrest]; rfl⟩
  · intro ⟨hne, hall⟩
    obtain ⟨c, rest, rfl⟩ := List.exists_cons_of_ne_nil hne
    rw [List.all_cons, Bool.and_eq_true] at hall
    exact ⟨c, rest, rfl, hall.1, hall.2⟩

end Classes

/-- A separator and then a text of the language. -/
def following (separator : Char) (segments : Language Char) : Language Char :=
  charClass (fun c => c = separator) * segments

section Segments

variable {separator : Char} {segments : Language Char} {text : List Char}

theorem mem_following :
    text ∈ following separator segments ↔ ∃ segment ∈ segments, text = separator :: segment := by
  rw [following, Language.mem_mul]
  constructor
  · rintro ⟨first, ⟨c, hc, rfl⟩, segment, hsegment, rfl⟩
    exact ⟨segment, hsegment, by rw [of_decide_eq_true hc]; rfl⟩
  · rintro ⟨segment, hsegment, rfl⟩
    exact ⟨[separator], ⟨separator, decide_eq_true rfl, rfl⟩, segment, hsegment, rfl⟩

theorem mem_following_kstar :
    text ∈ (following separator segments)∗ ↔
      ∃ parts : List (List Char), (∀ part ∈ parts, part ∈ segments) ∧
        text = parts.flatMap fun part => separator :: part := by
  rw [Language.mem_kstar]
  constructor
  · rintro ⟨texts, rfl, htexts⟩
    induction texts with
    | nil => exact ⟨[], by simp, rfl⟩
    | cons first rest ih =>
        rw [List.forall_mem_cons] at htexts
        obtain ⟨segment, hsegment, rfl⟩ := mem_following.mp htexts.1
        obtain ⟨parts, hparts, hrest⟩ := ih htexts.2
        exact ⟨segment :: parts, List.forall_mem_cons.mpr ⟨hsegment, hparts⟩, by
          rw [List.flatten_cons, hrest, List.flatMap_cons]⟩
  · rintro ⟨parts, hparts, rfl⟩
    refine ⟨parts.map fun part => separator :: part, by rw [List.flatMap_def], ?_⟩
    intro part hpart
    obtain ⟨segment, hsegment, rfl⟩ := List.mem_map.mp hpart
    exact mem_following.mpr ⟨segment, hparts segment hsegment, rfl⟩

theorem intercalate_cons_eq (first : List Char) (rest : List (List Char)) :
    [separator].intercalate (first :: rest) =
      first ++ rest.flatMap fun part => separator :: part := by
  induction rest generalizing first with
  | nil => simp [List.intercalate]
  | cons second rest ih =>
      rw [List.intercalate_cons_cons, ih, List.flatMap_cons]
      simp

/-- Splitting a text at the separator finds its segments. -/
theorem splitOn_eq_iff {first : List Char} {rest : List (List Char)}
    (hfree : ∀ part ∈ first :: rest, separator ∉ part) :
    text.splitOn separator = first :: rest ↔
      text = first ++ rest.flatMap fun part => separator :: part := by
  rw [← intercalate_cons_eq]
  constructor
  · intro h
    rw [← h, List.intercalate_splitOn]
  · rintro rfl
    exact List.splitOn_intercalate separator hfree (List.cons_ne_nil _ _)

end Segments

end Base
