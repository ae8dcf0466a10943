import Schematron.Proofs.Compilation.Completeness
import Schematron.Proofs.Selection.Closed
import Schematron.Proofs.Text.Trimming

/-!
# Branches of a context

A bar splits a context exactly where the text before it is closed (`branchesFrom_append_bar`,
`branchesFrom_append_inner`). So a context is whole or has a first branch (`isWhole_or_split`), and
what is said of selections follows branch by branch: a selection is its own selection, and closed
contexts may be joined before they are selected or afterwards, as in the union of a pattern.
-/
namespace Schematron.Selection
open Text Place

variable {a b cs : List Char}

/-- What is selected by the branches of a context. -/
def selection (cs : List Char) : List Char := joinBranches ((branches cs).map ofBranch)

theorem toList_ofContext (context : String) :
    (ofContext context).toList = selection context.toList := String.toList_ofList

theorem branchesFrom_ne_nil (p : Place) (cs : List Char) : branchesFrom p cs ≠ [] := by
  cases cs with
  | nil => simp [branchesFrom]
  | cons c cs =>
    unfold branchesFrom
    split
    · simp
    · split <;> simp

/-- A character that does not split a text begins its first branch. -/
theorem branchesFrom_cons {p : Place} {c : Char} {b : List Char} {bs : List (List Char)}
    (hc : c ≠ '|' ∨ p.isTop = false) (h : branchesFrom (p.step c) cs = b :: bs) :
    branchesFrom p (c :: cs) = (c :: b) :: bs := by
  have hsplit : ¬ (decide (c = '|') && p.isTop) = true := by
    rcases hc with hc | hp <;> simp_all
  rw [branchesFrom, if_neg hsplit, h]

theorem branchesFrom_bar {p : Place} (hp : p.isTop = true) (cs : List Char) :
    branchesFrom p ('|' :: cs) = [] :: branchesFrom p cs := by
  simp [branchesFrom, hp]

/-- A bar after a text that is closed splits. -/
theorem branchesFrom_append_bar {p : Place} (h : p.after a = {}) (b : List Char) :
    branchesFrom p (a ++ '|' :: b) = branchesFrom p a ++ branches b := by
  induction a generalizing p with
  | nil =>
    cases h
    exact branchesFrom_bar rfl b
  | cons c a ih =>
    obtain ⟨x, xs, hx⟩ := List.exists_cons_of_ne_nil (branchesFrom_ne_nil (p.step c) a)
    have ih := ih h
    rw [hx] at ih
    by_cases hc : c ≠ '|' ∨ p.isTop = false
    · rw [branchesFrom_cons hc hx, List.cons_append, branchesFrom_cons hc ih]
      rfl
    · obtain ⟨rfl, hp⟩ : c = '|' ∧ p.isTop = true := by simpa using hc
      have hstep : p.step '|' = p := by
        rw [isTop_iff.1 hp]
        rfl
      rw [hstep] at hx ih
      rw [branchesFrom_bar hp, List.cons_append, branchesFrom_bar hp, ih, hx]
      rfl

/-- A bar after a text that is not closed stays inside of a branch. -/
theorem branchesFrom_append_inner {p : Place} (h : (p.after a).isTop = false) (b : List Char) :
    ∃ xs x y ys, branchesFrom p a = xs ++ [x] ∧
      branchesFrom ((p.after a).step '|') b = y :: ys ∧
      branchesFrom p (a ++ '|' :: b) = xs ++ (x ++ '|' :: y) :: ys := by
  induction a generalizing p with
  | nil =>
    obtain ⟨y, ys, hy⟩ := List.exists_cons_of_ne_nil (branchesFrom_ne_nil (p.step '|') b)
    exact ⟨[], [], y, ys, rfl, hy, branchesFrom_cons (.inr h) hy⟩
  | cons c a ih =>
    obtain ⟨xs, x, y, ys, ha, hb, hab⟩ := ih h
    by_cases hc : c ≠ '|' ∨ p.isTop = false
    · cases xs with
      | nil => exact ⟨[], c :: x, y, ys, branchesFrom_cons hc ha, hb, branchesFrom_cons hc hab⟩
      | cons z xs =>
        exact ⟨(c :: z) :: xs, x, y, ys, branchesFrom_cons hc ha, hb, branchesFrom_cons hc hab⟩
    · obtain ⟨rfl, hp⟩ : c = '|' ∧ p.isTop = true := by simpa using hc
      have hstep : p.step '|' = p := by
        rw [isTop_iff.1 hp]
        rfl
      rw [hstep] at ha hab
      refine ⟨[] :: xs, x, y, ys, ?_, hb, ?_⟩
      · rw [branchesFrom_bar hp, ha, List.cons_append]
      · rw [List.cons_append, branchesFrom_bar hp, hab, List.cons_append]

/-- Nothing is lost when a text is split. -/
theorem intercalate_branchesFrom (p : Place) (cs : List Char) :
    ['|'].intercalate (branchesFrom p cs) = cs := by
  induction cs generalizing p with
  | nil => rfl
  | cons c cs ih =>
    by_cases hc : c ≠ '|' ∨ p.isTop = false
    · obtain ⟨b, bs, hb⟩ := List.exists_cons_of_ne_nil (branchesFrom_ne_nil (p.step c) cs)
      have ih := ih (p.step c)
      rw [hb] at ih
      rw [branchesFrom_cons hc hb, ← ih]
      cases bs <;> simp [List.intercalate_cons_cons]
    · obtain ⟨rfl, hp⟩ : c = '|' ∧ p.isTop = true := by simpa using hc
      obtain ⟨b, bs, hb⟩ := List.exists_cons_of_ne_nil (branchesFrom_ne_nil p cs)
      have ih := ih p
      rw [hb] at ih
      rw [branchesFrom_bar hp, hb, List.intercalate_cons_cons, ih]
      rfl

def IsWhole (cs : List Char) : Prop := ∀ x y, cs = x ++ '|' :: y → ¬ IsClosed x

theorem branchesFrom_of_isTop_eq_false {p : Place}
    (h : ∀ x y, cs = x ++ '|' :: y → (p.after x).isTop = false) : branchesFrom p cs = [cs] := by
  induction cs generalizing p with
  | nil => rfl
  | cons c cs ih =>
    have hc : c ≠ '|' ∨ p.isTop = false := by
      by_cases hc : c = '|'
      · subst hc
        exact .inr (h [] cs rfl)
      · exact .inl hc
    refine branchesFrom_cons hc (ih fun x y hx => ?_)
    exact h (c :: x) y (congrArg (c :: ·) hx)

theorem branches_of_isWhole (h : IsWhole cs) : branches cs = [cs] := by
  refine branchesFrom_of_isTop_eq_false fun x y hx => ?_
  have hopen := h x y hx
  rwa [isClosed_iff_isTop, Bool.not_eq_true] at hopen

/-- A text is whole, or a bar splits it after its first branch. -/
theorem isWhole_or_split (cs : List Char) :
    IsWhole cs ∨ ∃ x y, cs = x ++ '|' :: y ∧ IsWhole x ∧ IsClosed x := by
  by_cases hwhole : IsWhole cs
  · exact .inl hwhole
  · simp only [IsWhole, not_forall, not_not] at hwhole
    obtain ⟨x, y, rfl, hx⟩ := hwhole
    rcases isWhole_or_split x with hwhole | ⟨x', y', rfl, hwhole, hclosed⟩
    · exact .inr ⟨x, y, rfl, hwhole, hx⟩
    · exact .inr ⟨x', y' ++ '|' :: y, by simp, hwhole, hclosed⟩
termination_by cs.length

theorem isMark_of_isBlank {c : Char} (h : isBlank c = true) : isMark c = false := by
  by_contra hmark
  simp only [isMark, isQuote, isOpening, isClosing, Bool.not_eq_false, Bool.or_eq_true,
    beq_iff_eq] at hmark
  rcases hmark with ((rfl | rfl) | (rfl | rfl)) | (rfl | rfl) <;> revert h <;> decide

theorem isClosed_append_left {pre : List Char} (hpre : ∀ c ∈ pre, isBlank c = true) :
    IsClosed (pre ++ cs) ↔ IsClosed cs := by
  induction pre with
  | nil => rfl
  | cons c pre ih =>
    obtain ⟨hc, hpre⟩ := List.forall_mem_cons.1 hpre
    rw [List.cons_append, isClosed_cons (isMark_of_isBlank hc), ih hpre]

theorem isClosed_append_right {post : List Char} (hpost : ∀ c ∈ post, isBlank c = true) :
    IsClosed (cs ++ post) ↔ IsClosed cs := by
  induction post using List.reverseRecOn with
  | nil => rw [List.append_nil]
  | append_singleton post c ih =>
    obtain ⟨hpost, hc⟩ := List.forall_mem_append.1 hpost
    rw [← List.append_assoc, isClosed_concat (isMark_of_isBlank (hc c List.mem_cons_self)), ih hpost]

theorem isClosed_trim : IsClosed (trim cs) ↔ IsClosed cs := by
  obtain ⟨pre, post, hcs, hpre, hpost⟩ := exists_eq_trim cs
  conv_rhs => rw [hcs]
  rw [isClosed_append_right hpost, isClosed_append_left hpre]

theorem IsWhole.trim (h : IsWhole cs) : IsWhole (trim cs) := by
  obtain ⟨pre, post, hcs, hpre, -⟩ := exists_eq_trim cs
  intro x y hx hclosed
  refine h (pre ++ x) (y ++ post) ?_ ((isClosed_append_left hpre).2 hclosed)
  rw [hcs, hx]
  simp

theorem IsWhole.cons {c : Char} (h : IsWhole cs) (hc : isMark c = false) (hbar : c ≠ '|') :
    IsWhole (c :: cs) := by
  intro x y hx hclosed
  cases x with
  | nil => exact hbar (List.cons.inj hx).1
  | cons d x =>
    obtain ⟨rfl, rfl⟩ := List.cons.inj hx
    exact h x y rfl ((isClosed_cons hc).1 hclosed)

theorem IsWhole.concat {c : Char} (h : IsWhole cs) (hbar : c ≠ '|') : IsWhole (cs ++ [c]) := by
  intro x y hx
  rcases List.eq_nil_or_concat y with rfl | ⟨y, d, rfl⟩
  · exact absurd (List.append_inj_right' hx rfl) (by simpa using hbar)
  · rw [List.concat_eq_append, ← List.cons_append, ← List.append_assoc] at hx
    exact h x y (List.append_inj_left' hx rfl)

theorem isWhole_ofBranch (h : IsWhole cs) : IsWhole (ofBranch cs) := by
  unfold ofBranch
  dsimp only
  split
  · exact h.trim
  · exact (h.trim.cons (by decide) (by decide)).cons (by decide) (by decide)

theorem isClosed_ofBranch (h : IsClosed cs) : IsClosed (ofBranch cs) := by
  unfold ofBranch
  dsimp only
  split
  · exact isClosed_trim.2 h
  · exact (isClosed_cons (by decide)).2 ((isClosed_cons (by decide)).2 (isClosed_trim.2 h))

theorem ofBranch_cons {c : Char} (hc : isBlank c = true) : ofBranch (c :: cs) = ofBranch cs := by
  rw [ofBranch, trim_cons hc, ← ofBranch]

theorem ofBranch_concat {c : Char} (hc : isBlank c = true) :
    ofBranch (cs ++ [c]) = ofBranch cs := by
  rw [ofBranch, trim_concat hc, ← ofBranch]

theorem isRooted_ofBranch (cs : List Char) : isRooted (ofBranch cs) = true := by
  unfold ofBranch
  dsimp only
  split
  · assumption
  · rfl

theorem trim_ofBranch (cs : List Char) : Text.trim (ofBranch cs) = ofBranch cs := by
  unfold ofBranch
  dsimp only
  split
  · exact trim_trim cs
  · refine trim_eq_self ?_ fun c hc => ?_
    · rintro c ⟨⟩
      decide
    · cases ht : Text.trim cs with
      | nil =>
        rw [ht] at hc
        cases hc
        decide
      | cons d t =>
        rw [ht, List.getLast?_cons_cons, List.getLast?_cons_cons, ← ht] at hc
        exact isBlank_of_getLast?_trim hc

theorem ofBranch_ofBranch (cs : List Char) : ofBranch (ofBranch cs) = ofBranch cs := by
  conv_lhs => rw [ofBranch]
  simp [trim_ofBranch, isRooted_ofBranch]

theorem joinBranches_append {xs ys : List (List Char)} (hx : xs ≠ []) (hy : ys ≠ []) :
    joinBranches (xs ++ ys) = joinBranches xs ++ [' ', '|', ' '] ++ joinBranches ys := by
  induction xs with
  | nil => exact absurd rfl hx
  | cons x xs ih =>
    cases xs with
    | nil =>
      obtain ⟨y, ys, rfl⟩ := List.exists_cons_of_ne_nil hy
      rfl
    | cons z xs =>
      have ih := ih (by simp)
      calc joinBranches (x :: z :: xs ++ ys)
          = x ++ [' ', '|', ' '] ++ joinBranches (z :: xs ++ ys) := rfl
        _ = joinBranches (x :: z :: xs) ++ [' ', '|', ' '] ++ joinBranches ys := by
          rw [ih, ← List.append_assoc, ← List.append_assoc]
          rfl

theorem selection_append_bar (h : IsClosed a) (b : List Char) :
    selection (a ++ '|' :: b) = selection a ++ [' ', '|', ' '] ++ selection b := by
  have htop := isTop_iff.1 (isClosed_iff_isTop.1 h)
  have hne (cs : List Char) : (branches cs).map ofBranch ≠ [] := by
    rw [Ne, List.map_eq_nil_iff]
    exact branchesFrom_ne_nil {} cs
  have hsplit : branches (a ++ '|' :: b) = branches a ++ branches b := branchesFrom_append_bar htop b
  rw [selection, hsplit, List.map_append, joinBranches_append (hne a) (hne b)]
  rfl

theorem selection_of_isWhole (h : IsWhole cs) : selection cs = ofBranch cs := by
  rw [selection, branches_of_isWhole h]
  rfl

theorem selection_cons_blank {c : Char} (hc : isBlank c = true) (cs : List Char) :
    selection (c :: cs) = selection cs := by
  obtain ⟨b, bs, hb⟩ := List.exists_cons_of_ne_nil (branchesFrom_ne_nil {} cs)
  have hbar : c ≠ '|' := by
    rintro rfl
    revert hc
    decide
  have hstep : Place.step {} c = {} := step_other (isMark_of_isBlank hc)
  have hsplit : branches (c :: cs) = (c :: b) :: bs :=
    branchesFrom_cons (.inl hbar) (by rw [hstep, hb])
  rw [selection, selection, hsplit, branches, hb, List.map_cons, List.map_cons, ofBranch_cons hc]

/-- A selection is its own selection. The induction is on the length of the context, of which the
first branch is taken off. -/
theorem selection_selection (cs : List Char) : selection (selection cs) = selection cs := by
  rcases isWhole_or_split cs with hwhole | ⟨x, y, rfl, hwhole, hclosed⟩
  · rw [selection_of_isWhole hwhole, selection_of_isWhole (isWhole_ofBranch hwhole),
      ofBranch_ofBranch]
  · have hspace : isBlank ' ' = true := by decide
    have hfirst : IsClosed (ofBranch x ++ [' ']) :=
      (isClosed_concat (by decide)).2 (isClosed_ofBranch hclosed)
    calc selection (selection (x ++ '|' :: y))
        = selection ((ofBranch x ++ [' ']) ++ '|' :: (' ' :: selection y)) := by
          rw [selection_append_bar hclosed, selection_of_isWhole hwhole]
          simp
      _ = selection (ofBranch x ++ [' ']) ++ [' ', '|', ' '] ++ selection (selection y) := by
          rw [selection_append_bar hfirst, selection_cons_blank hspace]
      _ = ofBranch x ++ [' ', '|', ' '] ++ selection y := by
          rw [selection_of_isWhole ((isWhole_ofBranch hwhole).concat (by decide)),
            ofBranch_concat hspace, ofBranch_ofBranch, selection_selection y]
      _ = selection (x ++ '|' :: y) := by
          rw [selection_append_bar hclosed, selection_of_isWhole hwhole]
termination_by cs.length

theorem ofContext_ofContext (c : String) : ofContext (ofContext c) = ofContext c := by
  apply String.toList_inj.1
  rw [toList_ofContext, toList_ofContext, selection_selection]

theorem ofContext_append_bar {a : String} (h : IsClosed a.toList) (b : String) :
    ofContext (a ++ "|" ++ b) = ofContext a ++ " | " ++ ofContext b := by
  apply String.toList_inj.1
  have hjoined : (a ++ "|" ++ b).toList = a.toList ++ '|' :: b.toList := by simp
  rw [toList_ofContext, hjoined, selection_append_bar h]
  simp [toList_ofContext]

/-- Closed contexts may be joined before they are selected or afterwards. -/
theorem ofContext_intercalate {contexts : List String} (hne : contexts ≠ [])
    (h : ∀ c ∈ contexts, IsClosed c.toList) :
    ofContext ("|".intercalate contexts) = " | ".intercalate (contexts.map ofContext) := by
  induction contexts with
  | nil => exact absurd rfl hne
  | cons c cs ih =>
    cases cs with
    | nil => simp
    | cons d ds =>
      obtain ⟨hc, hcs⟩ := List.forall_mem_cons.1 h
      have ih := ih (by simp) hcs
      rw [String.intercalate_cons_cons, ofContext_append_bar hc, ih]
      simp only [List.map_cons, String.intercalate_cons_cons]

end Schematron.Selection

namespace Schematron.Compilation
open Sequencing Xml

def contexts (pattern : Element) : List String :=
  (pattern.childrenNamed schematronUri "rule").filterMap (·.attr "context")

theorem selections_eq (e : Element) : selections e = (contexts e).map Selection.ofContext := by
  rw [selections, contexts, List.map_filterMap, List.filterMap_eq_flatMap_toList]

theorem selection_of_contexts {check : String → Except TransformError Unit} {e : Element}
    {p : Pattern} (h : pattern check e = .ok p) :
    p.selection = (unionOf ((contexts e).map Selection.ofContext)).map Expression.mk := by
  rw [selection_of_pattern h, ← selections_eq]
  simp only [pattern, bind_eq_ok] at h
  obtain ⟨rules, hrules, _, _, _, _, h⟩ := h
  cases h
  rw [sources_of_rules hrules]

/-- The union of the selections of closed contexts is the selection of the contexts joined. -/
theorem unionOf_contexts {cs : List String} (h : ∀ c ∈ cs, Selection.IsClosed c.toList) :
    unionOf (cs.map Selection.ofContext) =
      if cs = [] then none else some (Selection.ofContext ("|".intercalate cs)) := by
  cases cs with
  | nil => rfl
  | cons c cs =>
    rw [Selection.ofContext_intercalate (by simp) h]
    rfl

end Schematron.Compilation

namespace Schematron.Selection
open Xml

/-- A selection is its own selection; contexts are selected one by one where they are joined after a
closed one, hence the union of a pattern with closed contexts is the selection of the contexts
joined; and a bar after a text that is not closed stays inside of a branch. -/
theorem ofContext_branch_by_branch :
    (∀ c, ofContext (ofContext c) = ofContext c) ∧
    (∀ a b : String, IsClosed a.toList →
      ofContext (a ++ "|" ++ b) = ofContext a ++ " | " ++ ofContext b) ∧
    (∀ (check : String → Except TransformError Unit) (e : Element) (p : Pattern),
      Compilation.pattern check e = .ok p →
      (∀ c ∈ Compilation.contexts e, IsClosed c.toList) →
      p.selection = if Compilation.contexts e = [] then none
        else some ⟨ofContext ("|".intercalate (Compilation.contexts e))⟩) ∧
    ∀ a b : List Char, ¬ IsClosed a → ∃ xs x y ys, branches a = xs ++ [x] ∧
      branches (a ++ '|' :: b) = xs ++ (x ++ '|' :: y) :: ys ∧ ['|'].intercalate (y :: ys) = b := by
  refine ⟨ofContext_ofContext, fun a b h => ofContext_append_bar h b, ?_, ?_⟩
  · intro check e p hp hclosed
    rw [Compilation.selection_of_contexts hp, Compilation.unionOf_contexts hclosed]
    split <;> rfl
  · intro a b hopen
    rw [isClosed_iff_isTop, Bool.not_eq_true] at hopen
    obtain ⟨xs, x, y, ys, ha, hb, hab⟩ := branchesFrom_append_inner hopen b
    refine ⟨xs, x, y, ys, ha, hab, ?_⟩
    rw [← hb, intercalate_branchesFrom]

/-- The contexts of two rules, with bars in a literal and in brackets. -/
def barredContexts : List String := ["item[@kind = 'a|b']", "id('x')/part[p | q]"]

def barredPattern : Element where
  tag := ⟨.inNamespace schematronUri "s" "pattern", [], []⟩
  children := barredContexts.map fun c =>
    .element ⟨.inNamespace schematronUri "s" "rule", [], [⟨.plain "context", c⟩]⟩ []

theorem ofContext_branch_by_branch_barred :
    (∃ p, Compilation.pattern (fun _ => (.ok () : Except TransformError Unit)) barredPattern =
        .ok p ∧
      p.selection = some ⟨ofContext ("|".intercalate barredContexts)⟩) ∧
    ofContext ("item[@kind = 'a|b']" ++ "|" ++ "note") =
      ofContext "item[@kind = 'a|b']" ++ " | " ++ ofContext "note" ∧
    ∃ xs x y ys, branches "item[@kind = 'a".toList = xs ++ [x] ∧
      branches ("item[@kind = 'a".toList ++ '|' :: "b']".toList) = xs ++ (x ++ '|' :: y) :: ys ∧
      ['|'].intercalate (y :: ys) = "b']".toList := by
  obtain ⟨-, hjoined, hunion, hinner⟩ := ofContext_branch_by_branch
  have hclosed : ∀ c ∈ barredContexts, IsClosed c.toList := by
    simp only [isClosed_iff_isTop]
    decide +kernel
  have hopen : ¬ IsClosed "item[@kind = 'a".toList := by
    rw [isClosed_iff_isTop]
    decide +kernel
  have hcontexts : Compilation.contexts barredPattern = barredContexts := by decide +kernel
  refine ⟨?_, hjoined _ "note" (hclosed _ (by simp [barredContexts])), hinner _ _ hopen⟩
  obtain ⟨p, hp⟩ : ∃ p, Compilation.pattern (fun _ => (.ok () : Except TransformError Unit))
      barredPattern = .ok p := Sequencing.exists_of_isSome (by decide +kernel)
  have hselection := hunion _ _ p hp (by rwa [hcontexts])
  rw [hcontexts] at hselection
  exact ⟨p, hp, hselection⟩

end Schematron.Selection
