import Schematron.Text.Blank
import Mathlib.Data.List.DropRight

/-!
# Trimmed texts

A text is what trimming leaves of it between blanks (`exists_eq_trim`). Trimming looks at nothing but
the two ends (`trim_eq_self`), and blanks that are added there change nothing.
-/
namespace Schematron.Text
variable {b : Char} {cs : List Char}

theorem trim_eq (cs : List Char) : trim cs = (cs.dropWhile isBlank).rdropWhile isBlank := rfl

/-- A text is what trimming leaves of it, between blanks. -/
theorem exists_eq_trim (cs : List Char) : ∃ pre post, cs = pre ++ trim cs ++ post ∧
    (∀ c ∈ pre, isBlank c = true) ∧ ∀ c ∈ post, isBlank c = true := by
  refine ⟨cs.takeWhile isBlank, (trimStart cs).rtakeWhile isBlank, ?_,
    fun c hc => List.mem_takeWhile_imp hc, fun c hc => List.mem_rtakeWhile_imp hc⟩
  rw [List.append_assoc, trim_eq, trimStart, List.rdropWhile_append_rtakeWhile,
    List.takeWhile_append_dropWhile]

theorem trim_cons (hb : isBlank b = true) : trim (b :: cs) = trim cs := by
  rw [trim_eq, List.dropWhile_cons_of_pos hb, ← trim_eq]

theorem trim_concat (hb : isBlank b = true) : trim (cs ++ [b]) = trim cs := by
  rw [trim_eq, trim_eq, List.dropWhile_append, List.dropWhile_cons_of_pos hb]
  split
  · rename_i hempty
    rw [List.isEmpty_iff.1 hempty]
    rfl
  · rw [List.rdropWhile_concat_pos _ _ _ hb]

theorem trim_append_left {pre : List Char} (h : ∀ c ∈ pre, isBlank c = true) :
    trim (pre ++ cs) = trim cs := by
  induction pre with
  | nil => rfl
  | cons c pre ih =>
    rw [List.cons_append, trim_cons (h c List.mem_cons_self)]
    exact ih fun c' hc' => h c' (List.mem_cons_of_mem c hc')

theorem trim_append_right {post : List Char} (h : ∀ c ∈ post, isBlank c = true) :
    trim (cs ++ post) = trim cs := by
  induction post using List.reverseRecOn with
  | nil => rw [List.append_nil]
  | append_singleton post c ih =>
    rw [← List.append_assoc, trim_concat (h c (by simp))]
    exact ih fun c' hc' => h c' (List.mem_append_left _ hc')

theorem isBlank_of_head?_trim {c : Char} (h : c ∈ (trim cs).head?) : isBlank c = false := by
  have hhead := List.head?_dropWhile_not isBlank cs
  obtain ⟨post, hpost⟩ := List.rdropWhile_prefix isBlank (cs.dropWhile isBlank)
  rw [← hpost, ← trim_eq, List.head?_append, Option.mem_def.1 h] at hhead
  exact hhead

theorem isBlank_of_getLast?_trim {c : Char} (h : c ∈ (trim cs).getLast?) : isBlank c = false := by
  obtain ⟨hne, rfl⟩ := List.mem_getLast?_eq_getLast h
  have hlast := List.rdropWhile_last_not isBlank (cs.dropWhile isBlank) hne
  rwa [Bool.not_eq_true] at hlast

/-- Trimming leaves a text that has no blanks at its ends. -/
theorem trim_eq_self (hhead : ∀ c ∈ cs.head?, isBlank c = false)
    (hlast : ∀ c ∈ cs.getLast?, isBlank c = false) : trim cs = cs := by
  have hstart : cs.dropWhile isBlank = cs := by
    cases cs with
    | nil => rfl
    | cons c cs => rw [List.dropWhile_cons_of_neg (by simp [hhead c rfl])]
  rw [trim_eq, hstart, List.rdropWhile_eq_self_iff]
  intro hne
  simp [hlast _ (List.getLast?_eq_some_getLast hne)]

/-- Trimming leaves the first character where it is not a blank. -/
theorem head?_trim {c : Char} (h : isBlank c = false) : (trim (c :: cs)).head? = some c := by
  obtain ⟨post, hpost⟩ := List.rdropWhile_prefix isBlank (c :: cs)
  rw [trim_eq, List.dropWhile_cons_of_neg (by simp [h])]
  cases htrim : (c :: cs).rdropWhile isBlank with
  | nil =>
    have hblank := List.rdropWhile_eq_nil_iff.1 htrim c List.mem_cons_self
    rw [h] at hblank
    cases hblank
  | cons d ds =>
    rw [htrim] at hpost
    cases hpost
    rfl

theorem trim_trim (cs : List Char) : trim (trim cs) = trim cs :=
  trim_eq_self (fun _ => isBlank_of_head?_trim) fun _ => isBlank_of_getLast?_trim

end Schematron.Text
