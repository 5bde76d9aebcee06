import HomeScenes.Text.Blank
import Mathlib.Data.List.DropRight

/-!
# Texts without the blanks around them

What is left of a text without the blanks around it is the one part of it that lies between blanks
and neither starts nor ends with one.
-/

namespace HomeScenes.Text

/-- The text is the core with blanks around it, and the core neither starts nor ends with one. -/
structure Trimmed (cs core : List Char) : Prop where
  around : ∃ before after, cs = before ++ core ++ after ∧
    (∀ c ∈ before, isBlank c = true) ∧ ∀ c ∈ after, isBlank c = true
  first : ∀ c ∈ core.head?, isBlank c = false
  last : ∀ c ∈ core.getLast?, isBlank c = false

theorem head_trimStart {cs : List Char} {c : Char} (h : c ∈ (trimStart cs).head?) :
    isBlank c = false := by
  rw [trimStart, ← List.find?_not_eq_head?_dropWhile] at h
  simpa using List.find?_some h

theorem trimStart_blanks {before : List Char} (blanks : ∀ c ∈ before, isBlank c = true)
    {cs : List Char} (first : ∀ c ∈ cs.head?, isBlank c = false) :
    trimStart (before ++ cs) = cs := by
  rw [trimStart, List.dropWhile_append_of_pos blanks]
  cases cs with
  | nil => rfl
  | cons c cs => exact List.dropWhile_cons_of_neg (by simp [first c rfl])

theorem trimmed_trim (cs : List Char) : Trimmed cs (trim cs) where
  around := by
    have back : trim cs ++ (trimStart cs).rtakeWhile isBlank = trimStart cs :=
      List.rdropWhile_append_rtakeWhile
    refine ⟨cs.takeWhile isBlank, (trimStart cs).rtakeWhile isBlank, ?_,
      fun c => List.mem_takeWhile_imp, fun c => List.mem_rtakeWhile_imp⟩
    rw [List.append_assoc, back, trimStart, List.takeWhile_append_dropWhile]
  first c h := by
    obtain ⟨rest, split⟩ : trim cs <+: trimStart cs := List.rdropWhile_prefix isBlank _
    have lead : c ∈ (trimStart cs).head? := by
      rw [← split, List.head?_append, Option.mem_def.mp h]
      rfl
    exact head_trimStart lead
  last c h := by
    rw [trim, List.getLast?_reverse] at h
    exact head_trimStart h

theorem Trimmed.eq_trim {cs core : List Char} (h : Trimmed cs core) : core = trim cs := by
  obtain ⟨before, after, rfl, front, back⟩ := h.around
  have last : ∀ c ∈ core.reverse.head?, isBlank c = false := by
    intro c own
    rw [List.head?_reverse] at own
    exact h.last c own
  cases core with
  | nil =>
    have all : trimStart (before ++ [] ++ after) = [] := by
      rw [List.append_nil, trimStart, List.dropWhile_eq_nil_iff]
      intro c own
      exact (List.mem_append.mp own).elim (front c) (back c)
    rw [trim, all]
    rfl
  | cons c core =>
    have ahead : trimStart (before ++ (c :: core) ++ after) = c :: core ++ after := by
      rw [List.append_assoc]
      exact trimStart_blanks front h.first
    have behind : trimStart (c :: core ++ after).reverse = (c :: core).reverse := by
      rw [List.reverse_append]
      exact trimStart_blanks (fun c own => back c (List.mem_reverse.mp own)) last
    rw [trim, ahead, behind, List.reverse_reverse]

namespace Trimmed

variable {cs core : List Char}

theorem exists_visible (h : Trimmed cs core) (any : 1 ≤ core.length) :
    ∃ c ∈ cs, isBlank c = false := by
  obtain ⟨before, after, rfl, -, -⟩ := h.around
  cases core with
  | nil => cases any
  | cons c core => exact ⟨c, by simp, h.first c rfl⟩

/-- Nothing is trimmed from a text that neither starts nor ends with a blank. -/
theorem eq_self (h : Trimmed cs core) (first : ∀ c ∈ cs.head?, isBlank c = false)
    (last : ∀ c ∈ cs.getLast?, isBlank c = false) : core = cs :=
  h.eq_trim.trans (Trimmed.eq_trim ⟨⟨[], [], by simp, by simp, by simp⟩, first, last⟩).symm

/-- Blanks around a text do not change what is left without them. -/
theorem padded (h : Trimmed cs core) {before after : List Char}
    (front : ∀ c ∈ before, isBlank c = true) (back : ∀ c ∈ after, isBlank c = true) :
    Trimmed (before ++ cs ++ after) core where
  around := by
    obtain ⟨first, last, rfl, lead, trail⟩ := h.around
    refine ⟨before ++ first, last ++ after, by simp only [List.append_assoc], fun c listed => ?_,
      fun c listed => ?_⟩
    · exact (List.mem_append.mp listed).elim (front c) (lead c)
    · exact (List.mem_append.mp listed).elim (trail c) (back c)
  first := h.first
  last := h.last

end Trimmed

end HomeScenes.Text
