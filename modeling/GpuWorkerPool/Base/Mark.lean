import Mathlib.Data.List.Perm.Basic
import Mathlib.Data.List.Count

/-!
Openings and their closings, in the order in which several parties make them. When each party
opens once and then closes what it opened, the closings are a rearrangement of the openings; they
are in the same order when nothing is opened while something else is still open.
-/

namespace Base

/-- Something was opened, or closed. -/
inductive Mark (α : Type) where
  | opened (a : α)
  | closed (a : α)
  deriving DecidableEq

namespace Mark

variable {α β : Type}

def label : Mark α → α
  | opened a => a
  | closed a => a

@[simp] theorem label_opened (a : α) : (opened a).label = a := rfl

@[simp] theorem label_closed (a : α) : (closed a).label = a := rfl

def map (f : α → β) : Mark α → Mark β
  | opened a => opened (f a)
  | closed a => closed (f a)

/-- What was opened, in order. -/
def opens : List (Mark α) → List α
  | [] => []
  | opened a :: rest => a :: opens rest
  | closed _ :: rest => opens rest

/-- What was closed, in order. -/
def closes : List (Mark α) → List α
  | [] => []
  | opened _ :: rest => closes rest
  | closed a :: rest => a :: closes rest

/-- Nothing, or one opening and its closing. -/
def Paired (marks : List (Mark α)) : Prop := marks = [] ∨ ∃ a, marks = [opened a, closed a]

/-- Whenever something is opened, all that was opened before has been closed. -/
def InStep (marks : List (Mark α)) : Prop :=
  ∀ earlier a later, marks = earlier ++ opened a :: later →
    ∀ b ∈ opens earlier, b ∈ closes earlier

/-- What the mark opens. -/
def opened? : Mark α → Option α
  | opened a => some a
  | closed _ => none

/-- What the mark closes. -/
def closed? : Mark α → Option α
  | opened _ => none
  | closed a => some a

theorem opens_filterMap (f : β → Option (Mark α)) (items : List β) :
    opens (items.filterMap f) = items.filterMap fun item => (f item).bind opened? := by
  induction items with
  | nil => rfl
  | cons item rest ih =>
      rw [List.filterMap_cons, List.filterMap_cons]
      rcases f item with _ | _ | _
      · exact ih
      · exact congrArg _ ih
      · exact ih

theorem closes_filterMap (f : β → Option (Mark α)) (items : List β) :
    closes (items.filterMap f) = items.filterMap fun item => (f item).bind closed? := by
  induction items with
  | nil => rfl
  | cons item rest ih =>
      rw [List.filterMap_cons, List.filterMap_cons]
      rcases f item with _ | _ | _
      · exact ih
      · exact ih
      · exact congrArg _ ih

theorem mem_opens {marks : List (Mark α)} {a : α} : a ∈ opens marks ↔ opened a ∈ marks := by
  induction marks with
  | nil => simp [opens]
  | cons mark rest ih => cases mark <;> simp [opens, ih]

theorem Paired.map {marks : List (Mark α)} (h : Paired marks) (f : α → β) :
    Paired (marks.map (Mark.map f)) := by
  rcases h with rfl | ⟨a, rfl⟩
  · exact Or.inl rfl
  · exact Or.inr ⟨f a, rfl⟩

section Parties

variable {ι : Type} [DecidableEq ι] (party : α → ι)

/-- What one party did. -/
def ofParty (i : ι) (marks : List (Mark α)) : List (Mark α) :=
  marks.filter fun mark => party mark.label = i

variable {party}

theorem count_ofParty [DecidableEq α] (mark : Mark α) (marks : List (Mark α)) :
    (ofParty party (party mark.label) marks).count mark = marks.count mark :=
  List.count_filter (by simp)

theorem count_opens [DecidableEq α] (marks : List (Mark α)) (a : α) :
    (opens marks).count a = marks.count (opened a) := by
  induction marks with
  | nil => rfl
  | cons mark rest ih => cases mark <;> simp [opens, List.count_cons, ih]

theorem count_closes [DecidableEq α] (marks : List (Mark α)) (a : α) :
    (closes marks).count a = marks.count (closed a) := by
  induction marks with
  | nil => rfl
  | cons mark rest ih => cases mark <;> simp [closes, List.count_cons, ih]

/-- Parties that each close what they open close together what they open together. -/
theorem closes_perm_opens [DecidableEq α] {marks : List (Mark α)}
    (h : ∀ i, Paired (ofParty party i marks)) : (closes marks).Perm (opens marks) := by
  refine List.perm_iff_count.mpr fun a => ?_
  have hclosed : (ofParty party (party a) marks).count (closed a) = marks.count (closed a) :=
    count_ofParty (closed a) marks
  have hopened : (ofParty party (party a) marks).count (opened a) = marks.count (opened a) :=
    count_ofParty (opened a) marks
  rw [count_closes, count_opens, ← hclosed, ← hopened]
  rcases h (party a) with hnone | ⟨b, hpair⟩
  · rw [hnone]
    rfl
  · rw [hpair]
    by_cases hab : b = a <;> simp [hab]

theorem ofParty_cons (i : ι) (mark : Mark α) (marks : List (Mark α)) :
    ofParty party i (mark :: marks) =
      if party mark.label = i then mark :: ofParty party i marks else ofParty party i marks := by
  by_cases h : party mark.label = i <;> simp [ofParty, h]

/-- The first party to open is the first to close, and does nothing more. -/
theorem first_pair {a b : α} {rest : List (Mark α)}
    (h : ∀ i, Paired (ofParty party i (opened a :: closed b :: rest))) :
    b = a ∧ ofParty party (party a) rest = [] := by
  have hb := h (party b)
  rw [ofParty_cons, ofParty_cons, label_opened, label_closed, if_pos rfl] at hb
  by_cases hparty : party a = party b
  · rw [if_pos hparty] at hb
    rcases hb with hnone | ⟨c, hpair⟩
    · exact absurd hnone (by simp)
    · simp only [List.cons.injEq, opened.injEq, closed.injEq] at hpair
      obtain ⟨rfl, rfl, hrest⟩ := hpair
      exact ⟨rfl, hrest⟩
  · rw [if_neg hparty] at hb
    rcases hb with hnone | ⟨c, hpair⟩
    · exact absurd hnone (by simp)
    · exact absurd (List.cons.inj hpair).1 (by simp)

/-- When nothing is opened while something else is open, the closings are in order too. -/
theorem closes_eq_opens : {marks : List (Mark α)} → (∀ i, Paired (ofParty party i marks)) →
    InStep marks → closes marks = opens marks
  | [], _, _ => rfl
  | closed a :: rest, h, _ => by
      have ha := h (party a)
      rw [ofParty_cons, label_closed, if_pos rfl] at ha
      rcases ha with hnone | ⟨b, hpair⟩
      · exact absurd hnone (by simp)
      · exact absurd (List.cons.inj hpair).1 (by simp)
  | [opened a], h, _ => by
      have ha := h (party a)
      rw [ofParty_cons, label_opened, if_pos rfl] at ha
      rcases ha with hnone | ⟨b, hpair⟩
      · exact absurd hnone (by simp)
      · exact absurd (List.cons.inj hpair).2 (by simp [ofParty])
  | opened a :: opened b :: rest, _, hstep =>
      absurd (hstep [opened a] b rest rfl a (by simp [opens])) (by simp [closes])
  | opened a :: closed b :: rest, h, hstep => by
      obtain ⟨rfl, hnone⟩ := first_pair h
      have hrest : ∀ i, Paired (ofParty party i rest) := by
        intro i
        have hi := h i
        rw [ofParty_cons, ofParty_cons, label_opened, label_closed] at hi
        by_cases hparty : party b = i
        · exact Or.inl (hparty ▸ hnone)
        · rwa [if_neg hparty, if_neg hparty] at hi
      have hrestStep : InStep rest := by
        rintro earlier c later rfl d hd
        have hmem := hstep (opened b :: closed b :: earlier) c later rfl d
          (List.mem_cons_of_mem _ hd)
        rcases List.mem_cons.mp hmem with rfl | hclosed
        · have hopened : opened d ∈ ofParty party (party d) (earlier ++ opened c :: later) :=
            List.mem_filter.mpr ⟨List.mem_append_left _ (mem_opens.mp hd), by simp [label]⟩
          exact absurd (hnone ▸ hopened) List.not_mem_nil
        · exact hclosed
      show b :: closes rest = b :: opens rest
      rw [closes_eq_opens hrest hrestStep]

end Parties

end Mark

end Base
