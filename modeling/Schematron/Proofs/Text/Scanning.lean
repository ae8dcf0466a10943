import Schematron.Text.Scan

/-!
# What scanners take

Each of the basic scanners on a text that starts with what it looks for: it takes that much and
leaves the rest. On any text, `Yields` says that all values of a scanner have a property, and
`Leaves` that it leaves the end of the text.
-/
namespace Schematron.Text.Scan
variable {α β : Type}

@[simp] theorem bind_run (x : Scan α) (f : α → Scan β) (cs : List Char) :
    (x >>= f) cs = (x cs).bind fun p => f p.1 p.2 := rfl

@[simp] theorem pure_run (a : α) (cs : List Char) : (pure a : Scan α) cs = some (a, cs) := rfl

@[simp] theorem map_run (f : α → β) (x : Scan α) (cs : List Char) :
    (f <$> x) cs = (x cs).bind fun p => some (f p.1, p.2) := rfl

theorem dropWhile_append {p : Char → Bool} {w rest : List Char} (hw : w.all p = true)
    (hrest : rest.head?.any p = false) :
    (w ++ rest).takeWhile p = w ∧ (w ++ rest).dropWhile p = rest := by
  induction w with
  | nil => cases rest <;> simp_all
  | cons c w ih =>
    simp only [List.all_cons, Bool.and_eq_true] at hw
    simp [hw.1, ih hw.2]

/-- A run ends where the first character of another class stands. -/
theorem run_append {p : Char → Bool} {w rest : List Char} (hw : w.all p = true)
    (hrest : rest.head?.any p = false) : run p (w ++ rest) = some (w, rest) := by
  obtain ⟨htake, hdrop⟩ := dropWhile_append hw hrest
  rw [run, htake, hdrop]

theorem run1_append {p : Char → Bool} {w rest : List Char} (hne : w ≠ []) (hw : w.all p = true)
    (hrest : rest.head?.any p = false) : run1 p (w ++ rest) = some (w, rest) := by
  obtain ⟨htake, hdrop⟩ := dropWhile_append hw hrest
  simp [run1, htake, hdrop, hne]

theorem run_nil {p : Char → Bool} {rest : List Char} (hrest : rest.head?.any p = false) :
    run p rest = some ([], rest) := by
  have h : run p ([] ++ rest) = some ([], rest) := run_append rfl hrest
  exact h

theorem tryWord_append (w : String) (rest : List Char) :
    tryWord w (w.toList ++ rest) = some (true, rest) := by
  rw [tryWord, after?_append]

theorem tryWord_eq_false {w : String} {cs : List Char} (h : after? w.toList cs = none) :
    tryWord w cs = some (false, cs) := by
  rw [tryWord, h]

/-- A word with a character that a text does not have is nowhere in the text. -/
theorem splitBefore_eq_none {w cs : List Char} {c : Char} (hw : c ∈ w) (hcs : c ∉ cs) :
    splitBefore w cs = none := by
  induction cs with
  | nil =>
    cases w with
    | nil => cases hw
    | cons d w => rfl
  | cons d cs ih =>
    have hafter : after? w (d :: cs) = none := by
      cases h : after? w (d :: cs) with
      | none => rfl
      | some r =>
        rw [eq_append_of_after? h] at hcs
        exact absurd (List.mem_append_left r hw) hcs
    rw [splitBefore, hafter, ih fun h => hcs (List.mem_cons_of_mem d h)]
    rfl

theorem many_of_none {item : Scan α} {cs : List Char} (h : item cs = none) :
    many item cs = some ([], cs) := by
  rw [many, h]

theorem many_of_some {item : Scan α} {cs r : List Char} {a : α} (h : item cs = some (a, r))
    (hless : r.length < cs.length) :
    many item cs = (many item r).map fun p => (a :: p.1, p.2) := by
  rw [many, h]
  simp [hless]

/-- Items that are written one after the other are taken one by one, up to a text that does not
start with an item. What follows an item has a property on which the item may rely. -/
theorem many_append_of {item : Scan α} {written : β → List Char} {value : β → α} {bs : List β}
    {rest : List Char} {P : List Char → Prop}
    (hitem : ∀ b ∈ bs, written b ≠ [] ∧ ∀ r, P r → item (written b ++ r) = some (value b, r))
    (hwritten : ∀ b ∈ bs, ∀ r, P (written b ++ r)) (hend : P rest) (hrest : item rest = none) :
    many item (bs.flatMap written ++ rest) = some (bs.map value, rest) := by
  induction bs with
  | nil => exact many_of_none hrest
  | cons b bs ih =>
    obtain ⟨hne, hb⟩ := hitem b List.mem_cons_self
    have hless : (bs.flatMap written ++ rest).length <
        (written b ++ (bs.flatMap written ++ rest)).length := by
      have := List.length_pos_iff.2 hne
      simp only [List.length_append]
      omega
    have hfollows : P (bs.flatMap written ++ rest) := by
      cases bs with
      | nil => exact hend
      | cons c bs =>
        rw [List.flatMap_cons, List.append_assoc]
        exact hwritten c (by simp) _
    rw [List.flatMap_cons, List.append_assoc, many_of_some (hb _ hfollows) hless,
      ih (fun c hc => hitem c (List.mem_cons_of_mem b hc))
        fun c hc => hwritten c (List.mem_cons_of_mem b hc)]
    rfl

theorem many_append {item : Scan α} {written : β → List Char} {value : β → α} {bs : List β}
    {rest : List Char}
    (hitem : ∀ b ∈ bs, written b ≠ [] ∧ ∀ r, item (written b ++ r) = some (value b, r))
    (hrest : item rest = none) :
    many item (bs.flatMap written ++ rest) = some (bs.map value, rest) :=
  many_append_of (P := fun _ => True)
    (fun b hb => ⟨(hitem b hb).1, fun r _ => (hitem b hb).2 r⟩) (fun _ _ _ => trivial) trivial hrest

/-- Every value that a scanner reads has a property. -/
def Yields (x : Scan α) (P : α → Prop) : Prop := ∀ cs a r, x cs = some (a, r) → P a

section
variable {x : Scan α} {f : α → Scan β} {P : α → Prop} {Q : β → Prop}

theorem Yields.bind (hx : x.Yields P) (hf : ∀ a, P a → (f a).Yields Q) : (x >>= f).Yields Q := by
  intro cs b r h
  rw [bind_run, Option.bind_eq_some_iff] at h
  obtain ⟨⟨a, r'⟩, ha, hb⟩ := h
  exact hf a (hx cs a r' ha) r' b r hb

/-- What comes first makes no difference. -/
theorem yields_bind (hf : ∀ a, (f a).Yields Q) : (x >>= f).Yields Q :=
  Yields.bind (fun _ _ _ _ => trivial) fun a (_ : True) => hf a

theorem yields_pure {a : α} (h : P a) : (pure a : Scan α).Yields P := by
  intro cs b r hb
  cases hb
  exact h

theorem yields_fail : (fail : Scan α).Yields P := by
  intro cs a r h
  cases h

theorem yields_ite {c : Prop} [Decidable c] {y : Scan α} (hx : c → x.Yields P)
    (hy : ¬ c → y.Yields P) : (if c then x else y).Yields P := by
  split
  · exact hx ‹_›
  · exact hy ‹_›

/-- What holds of every item holds of all items of a repetition. -/
theorem yields_many (hx : x.Yields P) : Yields (many x) fun as => ∀ a ∈ as, P a := by
  intro cs as r h
  induction cs using many.induct x generalizing as with
  | case1 cs hnone =>
    rw [many_of_none hnone] at h
    cases h
    simp
  | case2 cs a r' hsome hless ih =>
    rw [many_of_some hsome hless, Option.map_eq_some_iff] at h
    obtain ⟨p, hp, heq⟩ := h
    cases heq
    exact List.forall_mem_cons.2 ⟨hx cs a r' hsome, ih p.1 hp⟩
  | case3 cs a r' hsome hless =>
    rw [many, hsome] at h
    simp only [hless, if_false] at h
    cases h
    simpa using hx cs a _ hsome

theorem yields_run (p : Char → Bool) : (run p).Yields fun w => w.all p = true := by
  intro cs w r h
  cases h
  exact List.all_takeWhile

end

/-- What a scanner leaves is the end of the text. -/
def Leaves (x : Scan α) : Prop := ∀ cs a r, x cs = some (a, r) → r <:+ cs

section
variable {x : Scan α} {f : α → Scan β}

theorem leaves_bind (hx : x.Leaves) (hf : ∀ a, (f a).Leaves) : (x >>= f).Leaves := by
  intro cs b r h
  rw [bind_run, Option.bind_eq_some_iff] at h
  obtain ⟨⟨a, r'⟩, ha, hb⟩ := h
  exact (hf a r' b r hb).trans (hx cs a r' ha)

theorem leaves_pure (a : α) : (pure a : Scan α).Leaves := by
  intro cs b r h
  cases h
  exact List.suffix_refl cs

theorem leaves_fail : (fail : Scan α).Leaves := by
  intro cs a r h
  cases h

theorem leaves_ite {c : Prop} [Decidable c] {y : Scan α} (hx : x.Leaves) (hy : y.Leaves) :
    (if c then x else y).Leaves := by
  split
  · exact hx
  · exact hy

theorem leaves_run (p : Char → Bool) : (run p).Leaves := by
  intro cs w r h
  cases h
  exact List.dropWhile_suffix p

theorem leaves_satisfy (p : Char → Bool) : (satisfy p).Leaves := by
  intro cs c r h
  cases cs with
  | nil => cases h
  | cons d cs =>
    rw [satisfy] at h
    split at h
    · cases h
      exact List.suffix_cons ..
    · cases h

theorem leaves_tryWord (w : String) : (tryWord w).Leaves := by
  intro cs b r h
  rw [tryWord] at h
  split at h
  · rename_i rest hafter
    cases h
    exact ⟨w.toList, (eq_append_of_after? hafter).symm⟩
  · cases h
    exact List.suffix_refl cs

/-- What holds of every item in a text, as far as the characters of the text have a property, holds
of all items of a repetition. -/
theorem forall_mem_many {p : Char → Bool} {P : α → Prop} (hleaves : x.Leaves)
    (hx : ∀ cs a r, cs.all p = true → x cs = some (a, r) → P a) {cs r : List Char} {as : List α}
    (hcs : cs.all p = true) (h : many x cs = some (as, r)) : ∀ a ∈ as, P a := by
  induction cs using many.induct x generalizing as with
  | case1 cs hnone =>
    rw [many_of_none hnone] at h
    cases h
    simp
  | case2 cs a r' hsome hless ih =>
    rw [many_of_some hsome hless, Option.map_eq_some_iff] at h
    obtain ⟨q, hq, heq⟩ := h
    cases heq
    have hr' : r'.all p = true :=
      List.all_eq_true.2 fun c hc => List.all_eq_true.1 hcs c ((hleaves cs a r' hsome).mem hc)
    exact List.forall_mem_cons.2 ⟨hx cs a r' hcs hsome, ih hr' hq⟩
  | case3 cs a r' hsome hless =>
    rw [many, hsome] at h
    simp only [hless, if_false] at h
    cases h
    simpa using hx cs a _ hcs hsome

end

end Schematron.Text.Scan
