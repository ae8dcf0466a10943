import Mathlib.Data.List.MinMax
import Mathlib.Data.List.Nodup
import Mathlib.Data.List.Perm.Basic
import Schematron.Proofs.Sequencing
import Schematron.Proofs.Xml.Attributes
import Schematron.Rules.Expansion

/-!
# Parameters replaced at once

Instantiation replaces the parameters of an instance one after the other, longer names first, each
in what the earlier ones have left. `instantiate_simultaneous` says when this is the same as one
scan of each value from left to right, in which the longest name that matches at a mark gives way to its
value and the value is not looked at again: no name may begin in the value of a parameter, and no
value may complete a name that the text before it begins. The order of the parameters then means
nothing. Without such a condition the value of one parameter is taken for a use of another.
-/
namespace Schematron.Expansion
open Xml Sequencing
open Text.Scan (after? after?_append eq_append_of_after?)

def startsWith (cs : List Char) (p : String × String) : Bool := p.1.toList.isPrefixOf cs

/-- The parameter with the longest name among those that a text starts with. -/
def longest? (params : List (String × String)) (cs : List Char) : Option (String × String) :=
  (params.filter (startsWith cs)).argmax (·.1.length)

/-- One scan from left to right: where a parameter is chosen, its value stands in place of its name,
and the scan goes on after the name; `skip` characters belong to a name that is replaced already. -/
def scanFrom (choose : List Char → Option (String × String)) : (skip : Nat) → List Char → List Char
  | _, [] => []
  | skip + 1, _ :: cs => scanFrom choose skip cs
  | 0, c :: cs =>
    match choose (c :: cs) with
    | some p => p.2.toList ++ scanFrom choose (p.1.length - 1) cs
    | none => c :: scanFrom choose 0 cs

def simultaneous (params : List (String × String)) (value : String) : String :=
  String.ofList (scanFrom (longest? params) 0 value.toList)

/-- Whether a name stands at the start of a text, or the text is the start of the name. -/
def meets (name cs : List Char) : Bool := name.isPrefixOf cs || cs.isPrefixOf name

/-- Whether no name of a parameter begins in a text, be it that the text ends in the name. -/
def isInert (params : List (String × String)) : List Char → Bool
  | [] => true
  | c :: cs => params.all (fun p => ! meets p.1.toList (c :: cs)) && isInert params cs

/-- Whether no value can complete a name of which a text up to its next mark is the start: where the
text goes on with a mark, and the name is longer, no value agrees with what the name lacks. -/
def keepsApart (params : List (String × String)) : List Char → Bool
  | [] => true
  | c :: cs =>
    ((cs.dropWhile (· != '$')).isEmpty ||
      params.all fun p =>
        match after? (c :: cs.takeWhile (· != '$')) p.1.toList with
        | some (d :: rest) => params.all fun q => ! meets (d :: rest) q.2.toList
        | _ => true) &&
      keepsApart params cs

/-- The name of a parameter with its mark: the mark stands at the start and nowhere else. -/
def IsMarked (name : String) : Prop := ∃ cs, name.toList = '$' :: cs ∧ '$' ∉ cs

theorem IsMarked.toList_ne_nil {name : String} (h : IsMarked name) : name.toList ≠ [] := by
  obtain ⟨cs, hname, _⟩ := h
  simp [hname]

theorem after?_isSome {w cs : List Char} : (after? w cs).isSome = true ↔ w <+: cs := by
  constructor
  · intro h
    obtain ⟨r, hr⟩ := Option.isSome_iff_exists.1 h
    exact ⟨r, (eq_append_of_after? hr).symm⟩
  · rintro ⟨r, rfl⟩
    rw [after?_append]
    rfl

theorem meets_eq_false {name cs : List Char} :
    meets name cs = false ↔ ¬ name <+: cs ∧ ¬ cs <+: name := by
  rw [meets, Bool.or_eq_false_iff, Bool.eq_false_iff, Bool.eq_false_iff, ne_eq, ne_eq,
    List.isPrefixOf_iff_prefix, List.isPrefixOf_iff_prefix]

theorem replaceFrom_drop (word value : List Char) (skip : Nat) (cs : List Char) :
    replaceFrom word value skip cs = replaceFrom word value 0 (cs.drop skip) := by
  induction skip generalizing cs with
  | zero => rfl
  | succ skip ih =>
    cases cs with
    | nil => rfl
    | cons c cs => exact ih cs

theorem replaceFrom_of_match {word value r : List Char} (hne : word ≠ []) :
    replaceFrom word value 0 (word ++ r) = value ++ replaceFrom word value 0 r := by
  obtain ⟨c, cs, rfl⟩ := List.exists_cons_of_ne_nil hne
  have hafter : after? (c :: cs) (c :: (cs ++ r)) = some r := after?_append (c :: cs) r
  rw [List.cons_append, replaceFrom, hafter]
  simp only [List.length_cons, Nat.add_sub_cancel]
  rw [replaceFrom_drop, List.drop_left]

theorem replaceFrom_cons {word value cs : List Char} {c : Char} (h : ¬ word <+: c :: cs) :
    replaceFrom word value 0 (c :: cs) = c :: replaceFrom word value 0 cs := by
  have hafter : after? word (c :: cs) = none := by
    rw [← Option.not_isSome_iff_eq_none, after?_isSome]
    exact h
  rw [replaceFrom, hafter]

/-- A text in which no name begins stays as it is, whatever follows it. -/
theorem replaceFrom_inert {params : List (String × String)} {p : String × String} (hp : p ∈ params)
    {value x : List Char} (h : isInert params x = true) (r : List Char) :
    replaceFrom p.1.toList value 0 (x ++ r) = x ++ replaceFrom p.1.toList value 0 r := by
  induction x with
  | nil => rfl
  | cons c x ih =>
    rw [isInert, Bool.and_eq_true] at h
    have hno : ¬ p.1.toList <+: c :: (x ++ r) := by
      intro hname
      have hmeets := List.all_eq_true.1 h.1 p hp
      rw [Bool.not_eq_true', meets_eq_false] at hmeets
      rcases List.prefix_or_prefix_of_prefix hname (List.prefix_append (c :: x) r) with h | h
      · exact hmeets.1 h
      · exact hmeets.2 h
    rw [List.cons_append, replaceFrom_cons hno, ih h.2, List.cons_append]

def first? (params : List (String × String)) (cs : List Char) : Option (String × String) :=
  params.find? (startsWith cs)

theorem scanFrom_drop (choose : List Char → Option (String × String)) (skip : Nat)
    (cs : List Char) : scanFrom choose skip cs = scanFrom choose 0 (cs.drop skip) := by
  induction skip generalizing cs with
  | zero => rfl
  | succ skip ih =>
    cases cs with
    | nil => rfl
    | cons c cs => exact ih cs

theorem scanFrom_congr {choose choose' : List Char → Option (String × String)}
    (h : ∀ cs, choose cs = choose' cs) (cs : List Char) :
    scanFrom choose 0 cs = scanFrom choose' 0 cs := by
  rw [funext h]

theorem scanFrom_of_match {choose : List Char → Option (String × String)} {p : String × String}
    {r : List Char} (hne : p.1.toList ≠ []) (h : choose (p.1.toList ++ r) = some p) :
    scanFrom choose 0 (p.1.toList ++ r) = p.2.toList ++ scanFrom choose 0 r := by
  obtain ⟨c, cs, hname⟩ := List.exists_cons_of_ne_nil hne
  have hlength : p.1.length - 1 = cs.length := by
    rw [← String.length_toList, hname]
    rfl
  rw [hname, List.cons_append] at h ⊢
  rw [scanFrom, h]
  simp only [hlength]
  rw [scanFrom_drop, List.drop_left]

theorem scanFrom_cons {choose : List Char → Option (String × String)} {c : Char} {cs : List Char}
    (h : choose (c :: cs) = none) : scanFrom choose 0 (c :: cs) = c :: scanFrom choose 0 cs := by
  rw [scanFrom, h]

theorem startsWith_iff {cs : List Char} {p : String × String} :
    startsWith cs p = true ↔ p.1.toList <+: cs := List.isPrefixOf_iff_prefix

section
variable {params : List (String × String)}

theorem first?_eq_none_of_ne (hmarked : ∀ p ∈ params, IsMarked p.1) {c : Char} (hc : '$' ≠ c)
    (cs : List Char) : first? params (c :: cs) = none := by
  rw [first?, List.find?_eq_none]
  intro p hp hstart
  obtain ⟨name, hname, _⟩ := hmarked p hp
  rw [startsWith_iff, hname, List.cons_prefix_cons] at hstart
  exact hc hstart.1

/-- A text without marks stays as it is. -/
theorem scanFrom_plain (hmarked : ∀ p ∈ params, IsMarked p.1) {x : List Char} (hx : '$' ∉ x)
    (r : List Char) : scanFrom (first? params) 0 (x ++ r) = x ++ scanFrom (first? params) 0 r := by
  induction x with
  | nil => rfl
  | cons c x ih =>
    rw [List.mem_cons, not_or] at hx
    rw [List.cons_append, scanFrom_cons (first?_eq_none_of_ne hmarked hx.1 _), ih hx.2,
      List.cons_append]

theorem startsWith_of_first? {cs : List Char} {p : String × String}
    (h : first? params cs = some p) : p ∈ params ∧ p.1.toList <+: cs :=
  ⟨List.mem_of_find?_eq_some h, startsWith_iff.1 (List.find?_some h)⟩

theorem keepsApart_of_append {all : List (String × String)} {x r : List Char}
    (h : keepsApart all (x ++ r) = true) : keepsApart all r = true := by
  induction x with
  | nil => exact h
  | cons c x ih =>
    rw [List.cons_append, keepsApart, Bool.and_eq_true] at h
    exact ih h.2

/-- No name stands at a mark of a scanned text that did not stand there before the scan. -/
theorem not_prefix_scanFrom (hmarked : ∀ p ∈ params, IsMarked p.1)
    {all : List (String × String)} (hparams : ∀ p ∈ params, p ∈ all) {p : String × String}
    (hp : p ∈ all) {name : List Char} (hname : p.1.toList = '$' :: name) (hplain : '$' ∉ name)
    {cs : List Char} (hcs : keepsApart all ('$' :: cs) = true) (hno : ¬ name <+: cs) :
    ¬ name <+: scanFrom (first? params) 0 cs := by
  intro hhead
  have hsplit : cs.takeWhile (· != '$') ++ cs.dropWhile (· != '$') = cs :=
    List.takeWhile_append_dropWhile
  have hstart : '$' ∉ cs.takeWhile (· != '$') := by
    intro hmem
    simpa using List.all_eq_true.1 List.all_takeWhile '$' hmem
  rw [← hsplit, scanFrom_plain hmarked hstart] at hhead
  rcases List.prefix_or_prefix_of_prefix hhead (List.prefix_append _ _) with h | ⟨rest, rfl⟩
  · exact hno (h.trans (List.takeWhile_prefix _))
  rw [List.prefix_append_right_inj] at hhead
  match rest with
  | [] =>
    rw [List.append_nil] at hno
    exact hno (List.takeWhile_prefix _)
  | d :: rest =>
    -- what the name lacks after the text up to the next mark would stand where that mark is scanned
    match hdrop : cs.dropWhile (· != '$') with
    | [] =>
      rw [hdrop] at hhead
      cases List.prefix_nil.1 hhead
    | m :: after =>
      have hlack : after? ('$' :: cs.takeWhile (· != '$')) p.1.toList = some (d :: rest) := by
        rw [hname]
        exact after?_append _ _
      rw [keepsApart, Bool.and_eq_true, hdrop, List.isEmpty_cons, Bool.false_or] at hcs
      have hvalues := List.all_eq_true.1 hcs.1 p hp
      rw [hlack] at hvalues
      rw [hdrop] at hhead
      cases hfirst : first? params (m :: after) with
      | some q =>
        obtain ⟨hq, r, hr⟩ := startsWith_of_first? hfirst
        have hmeets := List.all_eq_true.1 hvalues q (hparams q hq)
        rw [Bool.not_eq_true', meets_eq_false] at hmeets
        rw [← hr] at hfirst hhead
        rw [scanFrom_of_match (hmarked q hq).toList_ne_nil hfirst] at hhead
        rcases List.prefix_or_prefix_of_prefix hhead (List.prefix_append _ _) with h | h
        · exact hmeets.1 h
        · exact hmeets.2 h
      | none =>
        have hmark : m = '$' := by
          have h := List.head_dropWhile_not (· != '$') (l := cs) (by simp [hdrop])
          simpa [hdrop] using h
        rw [scanFrom_cons hfirst, List.cons_prefix_cons, hmark] at hhead
        rw [hhead.1] at hplain
        exact hplain (by simp)

/-- The marks that are left in a scanned text are those at which no parameter stands, so replacing
one more parameter is the same as scanning for it too. -/
theorem replaceFrom_scanFrom {all : List (String × String)} (hmarked : ∀ p ∈ all, IsMarked p.1)
    (hinert : ∀ p ∈ all, isInert all p.2.toList = true) (hparams : ∀ p ∈ params, p ∈ all)
    {p : String × String} (hp : p ∈ all) {cs : List Char} (hcs : keepsApart all cs = true) :
    replaceFrom p.1.toList p.2.toList 0 (scanFrom (first? params) 0 cs) =
      scanFrom (first? (params ++ [p])) 0 cs := by
  have hmarked' : ∀ q ∈ params, IsMarked q.1 := fun q hq => hmarked q (hparams q hq)
  have hne (q : String × String) (hq : q ∈ all) : q.1.toList ≠ [] := (hmarked q hq).toList_ne_nil
  -- a match skips a whole name, so the induction is on the length of what is left
  induction hn : cs.length using Nat.strong_induction_on generalizing cs with | _ n ih
  match cs with
  | [] => rfl
  | c :: cs =>
    have ih {r : List Char} (hless : r.length < (c :: cs).length) (hr : keepsApart all r = true) :=
      ih r.length (hn ▸ hless) hr rfl
    have hadd : first? (params ++ [p]) (c :: cs) =
        (first? params (c :: cs)).or (first? [p] (c :: cs)) := List.find?_append
    cases hfirst : first? params (c :: cs) with
    | some q =>
      obtain ⟨hq, r, hr⟩ := startsWith_of_first? hfirst
      have hqne := hne q (hparams q hq)
      have hlength : r.length < (c :: cs).length := by
        have := List.length_pos_iff.2 hqne
        rw [← hr, List.length_append]
        omega
      rw [hfirst, Option.some_or] at hadd
      rw [← hr] at hfirst hadd hcs ⊢
      rw [scanFrom_of_match hqne hfirst, scanFrom_of_match hqne hadd,
        replaceFrom_inert hp (hinert q (hparams q hq)),
        ih hlength (keepsApart_of_append hcs)]
    | none =>
      rw [hfirst, Option.none_or] at hadd
      rw [scanFrom_cons hfirst]
      by_cases hstart : p.1.toList <+: c :: cs
      · obtain ⟨name, hname, hplain⟩ := hmarked p hp
        obtain ⟨r, hr⟩ := hstart
        have hlone : first? [p] (c :: cs) = some p := by
          rw [first?, List.find?_cons_of_pos (startsWith_iff.2 ⟨r, hr⟩)]
        have hlength : r.length < (c :: cs).length := by
          have := List.length_pos_iff.2 (hne p hp)
          rw [← hr, List.length_append]
          omega
        rw [hlone, ← hr] at hadd
        rw [← hr] at hcs ⊢
        rw [scanFrom_of_match (hne p hp) hadd]
        rw [hname, List.cons_append, List.cons.injEq] at hr
        obtain ⟨rfl, rfl⟩ := hr
        rw [scanFrom_plain hmarked' hplain, ← List.cons_append, ← hname,
          replaceFrom_of_match (hne p hp), ih hlength (keepsApart_of_append hcs)]
      · have hlone : first? [p] (c :: cs) = none := by
          rw [first?, List.find?_cons_of_neg (by rwa [startsWith_iff]), List.find?_nil]
        have hno : ¬ p.1.toList <+: c :: scanFrom (first? params) 0 cs := by
          obtain ⟨name, hname, hplain⟩ := hmarked p hp
          rw [hname, List.cons_prefix_cons] at hstart ⊢
          rintro ⟨rfl, hhead⟩
          exact not_prefix_scanFrom hmarked' hparams hp hname hplain hcs
            (fun h => hstart ⟨rfl, h⟩) hhead
        rw [hlone] at hadd
        have htail : keepsApart all ([c] ++ cs) = true := hcs
        rw [scanFrom_cons hadd, replaceFrom_cons hno,
          ih (Nat.lt_succ_self cs.length) (keepsApart_of_append htail)]

theorem scanFrom_nil (cs : List Char) : scanFrom (first? []) 0 cs = cs := by
  induction cs with
  | nil => rfl
  | cons c cs ih => rw [scanFrom_cons rfl, ih]

end

section
variable {params : List (String × String)} {cs : List Char}

/-- Of two names at the start of one text, the one with more bytes has more characters. -/
theorem length_le_of_size_le {a b : String} (ha : a.toList <+: cs) (hb : b.toList <+: cs)
    (h : b.utf8ByteSize ≤ a.utf8ByteSize) : b.length ≤ a.length := by
  rcases List.prefix_or_prefix_of_prefix hb ha with hba | ⟨r, hr⟩
  · simpa only [String.length_toList] using hba.length_le
  · have hsplit : b = a ++ String.ofList r := by
      apply String.toList_inj.1
      rw [String.toList_append, String.toList_ofList, hr]
    rw [hsplit, String.utf8ByteSize_append] at h
    have hempty : String.ofList r = "" := String.utf8ByteSize_eq_zero_iff.1 (by omega)
    rw [hsplit, hempty, String.append_empty]

theorem longest?_eq_none (h : ∀ p ∈ params, ¬ p.1.toList <+: cs) : longest? params cs = none := by
  rw [longest?, List.argmax_eq_none, List.filter_eq_nil_iff]
  intro p hp
  rw [startsWith_iff]
  exact h p hp

/-- Of distinct names, one that is at least as long as all others is the longest. -/
theorem longest?_eq_some (hdistinct : (params.map (·.1)).Nodup) {p : String × String}
    (hp : p ∈ params) (hstart : p.1.toList <+: cs)
    (hlongest : ∀ q ∈ params, q.1.toList <+: cs → q.1.length ≤ p.1.length) :
    longest? params cs = some p := by
  have hmem : p ∈ params.filter (startsWith cs) :=
    List.mem_filter.2 ⟨hp, startsWith_iff.2 hstart⟩
  cases hq : longest? params cs with
  | none =>
    rw [longest?, List.argmax_eq_none] at hq
    rw [hq] at hmem
    cases hmem
  | some q =>
    obtain ⟨hqmem, hqstart⟩ := List.mem_filter.1 (List.argmax_mem hq)
    rw [startsWith_iff] at hqstart
    have hle : p.1.length ≤ q.1.length :=
      List.le_of_mem_argmax (f := fun p : String × String => p.1.length) hmem hq
    have hge := hlongest q hqmem hqstart
    have hname : q.1 = p.1 := by
      apply String.toList_inj.1
      apply (List.prefix_of_prefix_length_le hqstart hstart ?_).eq_of_length_le
      · simpa only [String.length_toList] using hle
      · simpa only [String.length_toList] using hge
    rw [List.inj_on_of_nodup_map hdistinct hqmem hp hname]

theorem longest?_spec {p : String × String} (h : longest? params cs = some p) :
    p ∈ params ∧ p.1.toList <+: cs ∧
      ∀ q ∈ params, q.1.toList <+: cs → q.1.length ≤ p.1.length := by
  obtain ⟨hp, hstart⟩ := List.mem_filter.1 (List.argmax_mem h)
  refine ⟨hp, startsWith_iff.1 hstart, fun q hq hqstart => ?_⟩
  have hmem : q ∈ params.filter (startsWith cs) :=
    List.mem_filter.2 ⟨hq, startsWith_iff.2 hqstart⟩
  exact List.le_of_mem_argmax (f := fun p : String × String => p.1.length) hmem h

/-- The order of the parameters means nothing. -/
theorem longest?_perm {params' : List (String × String)} (hperm : params'.Perm params)
    (hdistinct : (params.map (·.1)).Nodup) (cs : List Char) :
    longest? params' cs = longest? params cs := by
  cases h : longest? params' cs with
  | some p =>
    obtain ⟨hp, hstart, hlongest⟩ := longest?_spec h
    exact (longest?_eq_some hdistinct (hperm.mem_iff.1 hp) hstart
      fun q hq => hlongest q (hperm.mem_iff.2 hq)).symm
  | none =>
    rw [longest?, List.argmax_eq_none, List.filter_eq_nil_iff] at h
    refine (longest?_eq_none fun p hp hstart => ?_).symm
    exact h p (hperm.mem_iff.2 hp) (startsWith_iff.2 hstart)

/-- Where longer names come first, the first name that matches is the longest one. -/
theorem first?_mergeSort (hdistinct : (params.map (·.1)).Nodup) (cs : List Char) :
    first? (params.mergeSort longerFirst) cs = longest? params cs := by
  have hperm : (params.mergeSort longerFirst).Perm params := List.mergeSort_perm params longerFirst
  cases h : first? (params.mergeSort longerFirst) cs with
  | none =>
    rw [first?, List.find?_eq_none] at h
    refine (longest?_eq_none fun p hp hstart => ?_).symm
    exact h p (hperm.mem_iff.2 hp) (startsWith_iff.2 hstart)
  | some p =>
    obtain ⟨hp, hstart⟩ := startsWith_of_first? h
    refine (longest?_eq_some hdistinct (hperm.mem_iff.1 hp) hstart fun q hq hqstart => ?_).symm
    have hsorted : (params.mergeSort longerFirst).Pairwise fun a b => longerFirst a b = true := by
      apply List.pairwise_mergeSort
      · intro a b c hab hbc
        simp only [longerFirst, decide_eq_true_eq] at hab hbc ⊢
        exact hbc.trans hab
      · intro a b
        simpa [longerFirst] using Nat.le_total b.1.utf8ByteSize a.1.utf8ByteSize
    obtain ⟨_, before, after, hsplit, hbefore⟩ := List.find?_eq_some_iff_append.1 h
    rw [hsplit, List.pairwise_append, List.pairwise_cons] at hsorted
    rw [← hperm.mem_iff, hsplit, List.mem_append, List.mem_cons] at hq
    rcases hq with hq | rfl | hq
    · have hno := hbefore q hq
      rw [startsWith_iff.2 hqstart] at hno
      cases hno
    · exact Nat.le_refl _
    · have hsize := hsorted.2.1.1 q hq
      exact length_le_of_size_le hstart hqstart (by simpa [longerFirst] using hsize)

end

/-- Parameters that may be replaced one after the other in some values: marks stand only before
names, no name begins in the value of a parameter, and none goes on where the next mark stands. -/
structure Independent (params : List (String × String)) (values : List String) : Prop where
  marked : ∀ p ∈ params, IsMarked p.1
  inert : ∀ p ∈ params, isInert params p.2.toList = true
  apart : ∀ v ∈ values, keepsApart params v.toList = true

theorem toList_substituteValue (params : List (String × String)) (value : String) :
    (substituteValue params value).toList =
      params.foldl (fun cs p => replaceFrom p.1.toList p.2.toList 0 cs) value.toList := by
  induction params generalizing value with
  | nil => rfl
  | cons p params ih =>
    have h := ih (replaceAll p.1 p.2 value)
    rw [replaceAll, String.toList_ofList] at h
    exact h

/-- Parameters replaced one after the other are those that one scan finds. -/
theorem foldl_replaceFrom {all : List (String × String)} {values : List String} {value : String}
    (h : Independent all values) (hvalue : value ∈ values) (done params : List (String × String))
    (hall : ∀ p ∈ done ++ params, p ∈ all) :
    params.foldl (fun cs p => replaceFrom p.1.toList p.2.toList 0 cs)
        (scanFrom (first? done) 0 value.toList) =
      scanFrom (first? (done ++ params)) 0 value.toList := by
  induction params generalizing done with
  | nil => rw [List.append_nil, List.foldl_nil]
  | cons p params ih =>
    have hsplit : done ++ p :: params = done ++ [p] ++ params := by simp
    have hdone : ∀ q ∈ done, q ∈ all := fun q hq => hall q (List.mem_append_left _ hq)
    have hp : p ∈ all := hall p (List.mem_append_right _ List.mem_cons_self)
    rw [List.foldl_cons, replaceFrom_scanFrom h.marked h.inert hdone hp (h.apart value hvalue),
      ih (done ++ [p]) (hsplit ▸ hall), hsplit]

/-- Distinct parameters are replaced as in one scan, in whatever order they are given. -/
theorem substituteValue_mergeSort {all params : List (String × String)} {values : List String}
    (h : Independent all values) {value : String} (hvalue : value ∈ values)
    (hperm : params.Perm all) (hdistinct : (all.map (·.1)).Nodup) :
    substituteValue (params.mergeSort longerFirst) value = simultaneous all value := by
  have hsorted : (params.mergeSort longerFirst).Perm all :=
    (List.mergeSort_perm params longerFirst).trans hperm
  have hfold := foldl_replaceFrom h hvalue [] (params.mergeSort longerFirst)
    fun p hp => hsorted.mem_iff.1 hp
  have hchoice (cs : List Char) :
      first? ([] ++ params.mergeSort longerFirst) cs = longest? all cs := by
    rw [List.nil_append, first?_mergeSort ((hperm.map _).nodup_iff.2 hdistinct),
      longest?_perm hperm hdistinct]
  rw [scanFrom_nil, ← toList_substituteValue, scanFrom_congr hchoice] at hfold
  rw [simultaneous, ← hfold, String.ofList_toList]

mutual

def mapValues (f : String → String) : Node → Node
  | .text s => .text s
  | .element t cs =>
    .element { t with attributes := t.attributes.map fun a => { a with value := f a.value } }
      (mapValuesAll f cs)

def mapValuesAll (f : String → String) : List Node → List Node
  | [] => []
  | n :: ns => mapValues f n :: mapValuesAll f ns

end

def valuesOf (ns : List Node) : List String :=
  (Node.elementsOf ns).flatMap fun e => e.tag.attributes.map (·.value)

def ownElements (pattern : Element) : List Element :=
  pattern.elements.filter fun e => ! e.is schematronUri "param"

/-- An instance of a template whose attribute values are rewritten by a function. -/
def instanceBy (f : String → String) (pattern template : Element) : Element where
  tag := { pattern.tag with
    attributes := pattern.tag.attributes.filter fun a => ! a.name.isPlain "is-a" }
  children := appendAll ((ownElements pattern).map Element.toNode)
    (mapValuesAll f template.children)

mutual

theorem substitute_eq_mapValues {params : List (String × String)} {f : String → String} :
    (n : Node) → (∀ v ∈ valuesOf [n], substituteValue params v = f v) →
      substitute params n = mapValues f n
  | .text _, _ => rfl
  | .element t cs, h => by
    have hsplit : valuesOf [.element t cs] = t.attributes.map (·.value) ++ valuesOf cs := by
      simp [valuesOf, Node.elementsOf, Node.elements]
    rw [hsplit] at h
    have hattributes (a : Attribute) (ha : a ∈ t.attributes) :
        substituteValue params a.value = f a.value :=
      h a.value (List.mem_append_left _ (List.mem_map_of_mem ha))
    have hchildren := substituteAll_eq_mapValuesAll cs fun v hv => h v (List.mem_append_right _ hv)
    rw [substitute, mapValues, hchildren]
    congr 2
    apply List.map_congr_left
    intro a ha
    rw [hattributes a ha]

theorem substituteAll_eq_mapValuesAll {params : List (String × String)} {f : String → String} :
    (ns : List Node) → (∀ v ∈ valuesOf ns, substituteValue params v = f v) →
      substituteAll params ns = mapValuesAll f ns
  | [], _ => rfl
  | n :: ns, h => by
    have hsplit : valuesOf (n :: ns) = valuesOf [n] ++ valuesOf ns := by
      simp [valuesOf, Node.elementsOf]
    rw [hsplit] at h
    rw [substituteAll, mapValuesAll,
      substitute_eq_mapValues n fun v hv => h v (List.mem_append_left _ hv),
      substituteAll_eq_mapValuesAll ns fun v hv => h v (List.mem_append_right _ hv)]

end

/-- Two instances that differ in the order of their parameters only. -/
structure Reordered (pattern pattern' : Element) : Prop where
  tag : pattern'.tag = pattern.tag
  own : ownElements pattern' = ownElements pattern
  params : (pattern'.childrenNamed schematronUri "param").Perm
    (pattern.childrenNamed schematronUri "param")

theorem Reordered.mapM_parameter? {pattern pattern' : Element} (h : Reordered pattern pattern')
    {params : List (String × String)}
    (hparams : (pattern.childrenNamed schematronUri "param").mapM parameter? = .ok params) :
    ∃ params', (pattern'.childrenNamed schematronUri "param").mapM parameter? = .ok params' ∧
      params'.Perm params := by
  obtain ⟨params', hparams', hperm⟩ := List.perm_comp_forall₂ h.params (mapM_eq_ok.1 hparams)
  exact ⟨params', mapM_eq_ok.2 hparams', hperm⟩

theorem Reordered.instanceBy_eq {pattern pattern' : Element} (h : Reordered pattern pattern')
    (f : String → String) (template : Element) :
    instanceBy f pattern' template = instanceBy f pattern template := by
  rw [instanceBy, instanceBy, h.tag, h.own]

theorem instantiate_eq_instanceBy {pattern template : Element} {params all : List (String × String)}
    (hparams : (pattern.childrenNamed schematronUri "param").mapM parameter? = .ok params)
    (hperm : params.Perm all) (hdistinct : (all.map (·.1)).Nodup)
    (h : Independent all (valuesOf template.children)) :
    instantiate pattern template = .ok (instanceBy (simultaneous all) pattern template) := by
  have hsorted : parameters? pattern = .ok (params.mergeSort longerFirst) := by
    rw [parameters?, hparams]
    rfl
  have hchildren : substituteAll (params.mergeSort longerFirst) template.children =
      mapValuesAll (simultaneous all) template.children :=
    substituteAll_eq_mapValuesAll template.children fun v hv =>
      substituteValue_mergeSort h hv hperm hdistinct
  rw [instantiate, hsorted, ok_bind, hchildren]
  rfl

/-- An instance whose parameters have distinct names and are independent in the values of the
template is the template with all parameters replaced in one scan of each value, in whatever order
the parameters are written. -/
theorem instantiate_simultaneous {pattern template : Element} {params : List (String × String)}
    (hparams : (pattern.childrenNamed schematronUri "param").mapM parameter? = .ok params)
    (hdistinct : (params.map (·.1)).Nodup)
    (h : Independent params (valuesOf template.children)) :
    instantiate pattern template = .ok (instanceBy (simultaneous params) pattern template) ∧
      ∀ pattern', Reordered pattern pattern' →
        instantiate pattern' template = instantiate pattern template := by
  have hinstance := instantiate_eq_instanceBy hparams (.refl params) hdistinct h
  refine ⟨hinstance, fun pattern' hreordered => ?_⟩
  obtain ⟨params', hparams', hperm⟩ := hreordered.mapM_parameter? hparams
  rw [hinstance, instantiate_eq_instanceBy hparams' hperm hdistinct h,
    hreordered.instanceBy_eq]

def template (context test : String) : Element where
  tag := ⟨.inNamespace schematronUri "sch" "pattern", [], [⟨.plain "abstract", "true"⟩]⟩
  children := [schNode "rule" [("context", context)] [schNode "assert" [("test", test)] []]]

def instanceWith (params : List (String × String)) : Element where
  tag := ⟨.inNamespace schematronUri "sch" "pattern", [], [⟨.plain "is-a", "template"⟩]⟩
  children := params.map fun p => schNode "param" [("name", p.1), ("value", p.2)] []

/-- One name is the start of another, and both stand next to other names. -/
theorem instantiate_simultaneous_rows :
    let pattern := instanceWith [("row", "tr"), ("rows", "tbody"), ("cell", "td")]
    let params := [("$row", "tr"), ("$rows", "tbody"), ("$cell", "td")]
    let rule := template "$rows/$row" "$row$cell or $rows[1]"
    (pattern.childrenNamed schematronUri "param").mapM parameter? = .ok params ∧
      (params.map (·.1)).Nodup ∧ Independent params (valuesOf rule.children) ∧
      instantiate pattern rule = .ok (instanceBy (simultaneous params) pattern rule) ∧
      (∀ pattern', Reordered pattern pattern' →
        instantiate pattern' rule = instantiate pattern rule) ∧
      valuesOf (instanceBy (simultaneous params) pattern rule).children =
        ["tbody/tr", "trtd or tbody[1]"] := by
  intro pattern params rule
  have hparams : (pattern.childrenNamed schematronUri "param").mapM parameter? = .ok params := rfl
  have hdistinct : (params.map (·.1)).Nodup := by decide
  have hindependent : Independent params (valuesOf rule.children) :=
    { marked := by
        simp only [params, List.forall_mem_cons]
        exact ⟨⟨_, rfl, by decide⟩, ⟨_, rfl, by decide⟩, ⟨_, rfl, by decide⟩, by simp⟩
      inert := by decide +kernel
      apart := by decide +kernel }
  obtain ⟨hinstance, horder⟩ := instantiate_simultaneous hparams hdistinct hindependent
  exact ⟨hparams, hdistinct, hindependent, hinstance, horder, by decide +kernel⟩

/-- Without such a condition the value of a parameter is taken for a use of another one: where `$x`
stands for `$y` and `$y` for `b`, instantiation puts `b` in place of `$x`. -/
theorem not_forall_instantiate_simultaneous :
    ¬ ∀ (pattern template : Element) (params : List (String × String)),
      (pattern.childrenNamed schematronUri "param").mapM parameter? = .ok params →
      (params.map (·.1)).Nodup →
      instantiate pattern template = .ok (instanceBy (simultaneous params) pattern template) := by
  intro h
  have hparams : ((instanceWith [("x", "$y"), ("y", "b")]).childrenNamed schematronUri
      "param").mapM parameter? = .ok [("$x", "$y"), ("$y", "b")] := rfl
  have hone := h (instanceWith [("x", "$y"), ("y", "b")]) (template "$x" "$y") _ hparams (by decide)
  have hsorted : parameters? (instanceWith [("x", "$y"), ("y", "b")]) =
      .ok [("$x", "$y"), ("$y", "b")] := by
    rw [parameters?, hparams]
    exact congrArg Except.ok (List.mergeSort_of_pairwise (by decide +kernel))
  have hsequence : (instantiate (instanceWith [("x", "$y"), ("y", "b")])
      (template "$x" "$y")).toOption.map (fun e => valuesOf e.children) = some ["b", "b"] := by
    rw [instantiate, hsorted]
    decide +kernel
  rw [hone] at hsequence
  exact absurd hsequence (by decide +kernel)

end Schematron.Expansion
