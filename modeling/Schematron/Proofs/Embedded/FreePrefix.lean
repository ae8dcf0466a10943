import Mathlib.Data.List.Nodup
import Mathlib.Data.List.Range
import Schematron.Rules.Embedded

/-!
# A prefix for the target namespace

Where a grammar has no prefix for its target namespace, one is searched for in a series of
candidates. The candidates are all different, so a list of declarations cannot bind one more of them
than it is long: the search ends (`searches_unusedPrefix`), and at a prefix that is free
(`binds_unusedPrefix`).
-/
namespace Schematron.Embedded
open Xml

theorem toList_candidate (n : Nat) :
    (candidate n).toList = "tns".toList ++ if n = 0 then [] else Nat.toDigits 10 n := by
  by_cases h : n = 0
  · simp [candidate, h]
  · simp [candidate, h, ToString.toString, Nat.repr_eq_ofList_toDigits]

theorem candidate_injective : Function.Injective candidate := by
  intro m n h
  have hdigits : (if m = 0 then [] else Nat.toDigits 10 m) =
      if n = 0 then [] else Nat.toDigits 10 n := by
    have hlist := congrArg String.toList h
    rw [toList_candidate, toList_candidate] at hlist
    exact List.append_cancel_left hlist
  by_cases hm : m = 0
  · by_cases hn : n = 0
    · rw [hm, hn]
    · simp only [hm, hn, if_true, if_false] at hdigits
      exact absurd hdigits.symm Nat.toDigits_ne_nil
  · by_cases hn : n = 0
    · simp only [hm, hn, if_true, if_false] at hdigits
      exact absurd hdigits Nat.toDigits_ne_nil
    · simp only [hm, hn, if_false] at hdigits
      calc
        m = Nat.ofDigitChars 10 (Nat.toDigits 10 m) 0 := Nat.ofDigitChars_ten_toDigits.symm
        _ = Nat.ofDigitChars 10 (Nat.toDigits 10 n) 0 := by rw [hdigits]
        _ = n := Nat.ofDigitChars_ten_toDigits

theorem colon_notMem_candidate (n : Nat) : ':' ∉ (candidate n).toList := by
  rw [toList_candidate, List.mem_append]
  rintro (h | h)
  · revert h
    decide
  · by_cases hn : n = 0
    · simp [hn] at h
    · rw [if_neg hn] at h
      have hdigit := Nat.isDigit_of_mem_toDigits (by omega) (by omega) h
      revert hdigit
      decide

/-- The search as it runs, with nothing to bound it: from candidate `n` on, it looks at so many
candidates, of which all but the last one are bound, and ends at that one. -/
inductive Searches (ns : List Namespace) : Nat → Nat → String → Prop where
  | found {n : Nat} (h : binds ns (candidate n) = false) : Searches ns n 1 (candidate n)
  | next {n looks : Nat} {pre : String} (h : binds ns (candidate n) = true)
      (rest : Searches ns (n + 1) looks pre) : Searches ns n (looks + 1) pre

namespace Searches
variable {ns : List Namespace} {n looks : Nat} {pre : String}

theorem free (h : Searches ns n looks pre) : binds ns pre = false := by
  induction h with
  | found h => exact h
  | next _ _ ih => exact ih

theorem exists_candidate (h : Searches ns n looks pre) : ∃ m, pre = candidate m := by
  induction h with
  | found _ => exact ⟨_, rfl⟩
  | next _ _ ih => exact ih

/-- A search runs in one way. -/
theorem unique (h : Searches ns n looks pre) {looks' : Nat} {pre' : String}
    (h' : Searches ns n looks' pre') : looks' = looks ∧ pre' = pre := by
  induction h generalizing looks' with
  | found hfree =>
    cases h' with
    | found _ => exact ⟨rfl, rfl⟩
    | next hbound _ =>
      rw [hfree] at hbound
      cases hbound
  | next hbound _ ih =>
    cases h' with
    | found hfree =>
      rw [hfree] at hbound
      cases hbound
    | next _ rest =>
      obtain ⟨rfl, rfl⟩ := ih rest
      exact ⟨rfl, rfl⟩

end Searches

/-- Where one of the candidates up to its bound is free, a bounded search is the search. -/
theorem searches_freeFrom {ns : List Namespace} {n fuel : Nat}
    (h : ∃ k ≤ fuel, binds ns (candidate (n + k)) = false) :
    ∃ looks ≤ fuel + 1, Searches ns n looks (freeFrom ns n fuel) := by
  obtain ⟨k, hk, hfree⟩ := h
  induction fuel generalizing n k with
  | zero =>
    obtain rfl : k = 0 := by omega
    exact ⟨1, by omega, .found hfree⟩
  | succ fuel ih =>
    cases hb : binds ns (candidate n) with
    | false =>
      rw [freeFrom, hb]
      exact ⟨1, by omega, .found hb⟩
    | true =>
      cases k with
      | zero =>
        rw [Nat.add_zero, hb] at hfree
        cases hfree
      | succ k =>
        have hshift : n + (k + 1) = n + 1 + k := by omega
        rw [hshift] at hfree
        obtain ⟨looks, hlooks, hrest⟩ := ih k (by omega) hfree
        rw [freeFrom, if_pos hb]
        exact ⟨looks + 1, by omega, .next hb hrest⟩

theorem mem_prefixes_of_binds {ns : List Namespace} {pre : String} (h : binds ns pre = true) :
    pre ∈ ns.filterMap (·.namespacePrefix) := by
  obtain ⟨n, hn, hp⟩ := List.any_eq_true.1 h
  exact List.mem_filterMap.2 ⟨n, hn, by simpa using hp⟩

/-- Declarations bind fewer candidates than there are declarations and one more. -/
theorem exists_free_candidate (ns : List Namespace) :
    ∃ k ≤ ns.length, binds ns (candidate k) = false := by
  by_contra hfree
  have hall : ∀ k ≤ ns.length, binds ns (candidate k) = true := by
    intro k hk
    by_contra hb
    exact hfree ⟨k, hk, Bool.eq_false_iff.2 hb⟩
  have hsub : (List.range (ns.length + 1)).map candidate ⊆ ns.filterMap (·.namespacePrefix) := by
    intro pre hpre
    obtain ⟨k, hk, rfl⟩ := List.mem_map.1 hpre
    exact mem_prefixes_of_binds (hall k (Nat.lt_succ_iff.1 (List.mem_range.1 hk)))
  have hnodup : ((List.range (ns.length + 1)).map candidate).Nodup :=
    List.nodup_range.map candidate_injective
  have hle := hnodup.length_le_of_subset hsub
  have hshort := List.length_filterMap_le (·.namespacePrefix) ns
  simp only [List.length_map, List.length_range] at hle
  omega

/-- One candidate more than there are declarations is enough. -/
theorem searches_unusedPrefix (ns : List Namespace) :
    ∃ looks ≤ ns.length + 1, Searches ns 0 looks (unusedPrefix ns) := by
  obtain ⟨k, hk, hfree⟩ := exists_free_candidate ns
  apply searches_freeFrom
  exact ⟨k, hk, (Nat.zero_add k).symm ▸ hfree⟩

theorem binds_unusedPrefix (ns : List Namespace) : binds ns (unusedPrefix ns) = false := by
  obtain ⟨looks, _, h⟩ := searches_unusedPrefix ns
  exact h.free

theorem colon_notMem_unusedPrefix (ns : List Namespace) : ':' ∉ (unusedPrefix ns).toList := by
  obtain ⟨looks, _, h⟩ := searches_unusedPrefix ns
  obtain ⟨m, hm⟩ := h.exists_candidate
  rw [hm]
  exact colon_notMem_candidate m

end Schematron.Embedded
