import Mathlib.Data.List.Forall2

/-!
# Sequences of steps that may fail

Laws of `Except` that take a run apart: a sequence succeeds exactly where each of its steps does,
and a step applied to a list succeeds exactly where it does on each member.
-/
namespace Schematron.Sequencing
variable {ε α β : Type}

@[simp] theorem ok_bind (a : α) (f : α → Except ε β) : (Except.ok a >>= f) = f a := rfl

@[simp] theorem error_bind (e : ε) (f : α → Except ε β) : (Except.error e >>= f) = .error e := rfl

@[simp] theorem pure_eq_ok (a : α) : (pure a : Except ε α) = .ok a := rfl

@[simp] theorem map_ok (f : α → β) (a : α) : f <$> (Except.ok a : Except ε α) = .ok (f a) := rfl

@[simp] theorem map_error (f : α → β) (e : ε) :
    f <$> (Except.error e : Except ε α) = .error e := rfl

theorem bind_eq_ok {x : Except ε α} {f : α → Except ε β} {b : β} :
    x >>= f = .ok b ↔ ∃ a, x = .ok a ∧ f a = .ok b := by
  cases x <;> simp

theorem check_bind_eq_ok {x : Except ε Unit} {f : Unit → Except ε β} {b : β} :
    x >>= f = .ok b ↔ x = .ok () ∧ f () = .ok b := by
  cases x <;> simp

theorem map_eq_ok {x : Except ε α} {f : α → β} {b : β} :
    f <$> x = .ok b ↔ ∃ a, x = .ok a ∧ f a = b := by
  cases x <;> simp

@[simp] theorem mapError_eq_ok {ε' : Type} {f : ε → ε'} {x : Except ε α} {a : α} :
    x.mapError f = .ok a ↔ x = .ok a := by
  cases x <;> simp [Except.mapError]

theorem mapError_map {ε' : Type} (g : ε → ε') (f : α → β) (x : Except ε α) :
    (f <$> x).mapError g = f <$> x.mapError g := by
  cases x <;> rfl

/-- A result that can be tested is there. -/
theorem exists_of_any {x : Except ε α} {p : α → Bool} (h : x.toOption.any p = true) :
    ∃ a, x = .ok a ∧ p a = true := by
  cases x with
  | error e => cases h
  | ok a => exact ⟨a, rfl, h⟩

theorem eq_ok_of_toOption {x : Except ε α} {a : α} (h : x.toOption = some a) : x = .ok a := by
  cases x with
  | error e => cases h
  | ok b => exact congrArg Except.ok (Option.some.inj h)

theorem toOption_eq_some {x : Except ε α} {a : α} : x.toOption = some a ↔ x = .ok a := by
  cases x <;> simp [Except.toOption]

theorem exists_of_isSome {x : Except ε α} (h : x.toOption.isSome = true) : ∃ a, x = .ok a := by
  cases x with
  | error e => cases h
  | ok a => exact ⟨a, rfl⟩

def Succeeds (x : Except ε α) : Prop := ∃ a, x = .ok a

theorem exists_eq_ok {x : Except ε α} : (∃ a, x = .ok a) ↔ Succeeds x := Iff.rfl

theorem succeeds_pure (a : α) : Succeeds (pure a : Except ε α) := ⟨a, rfl⟩

theorem succeeds_bind {x : Except ε α} {f : α → Except ε β} :
    Succeeds (x >>= f) ↔ ∃ a, x = .ok a ∧ Succeeds (f a) := by
  cases x <;> simp [Succeeds]

theorem succeeds_map {x : Except ε α} {f : α → β} : Succeeds (f <$> x) ↔ Succeeds x := by
  cases x <;> simp [Succeeds]

/-- What is done with each result may as well be done with the list of results. -/
theorem mapM_map_comm {γ : Type} (f : α → Except ε β) (g : β → γ) (as : List α) :
    as.mapM (fun a => g <$> f a) = List.map g <$> as.mapM f := by
  induction as with
  | nil => rfl
  | cons a as ih =>
    rw [List.mapM_cons, ih]
    simp only [List.mapM_cons, map_eq_pure_bind, bind_assoc, pure_bind, List.map_cons]

/-- A step succeeds on a list exactly where it succeeds on each member. -/
theorem mapM_eq_ok {f : α → Except ε β} {as : List α} {bs : List β} :
    as.mapM f = .ok bs ↔ List.Forall₂ (fun a b => f a = .ok b) as bs := by
  induction as generalizing bs with
  | nil => simp [eq_comm]
  | cons a as ih =>
    rw [List.mapM_cons, bind_eq_ok]
    constructor
    · rintro ⟨b, hb, h⟩
      obtain ⟨bs', hbs, h⟩ := bind_eq_ok.1 h
      cases h
      exact .cons hb (ih.1 hbs)
    · intro h
      cases h with
      | cons hb hbs => exact ⟨_, hb, bind_eq_ok.2 ⟨_, ih.2 hbs, rfl⟩⟩

theorem exists_of_mem_mapM {f : α → Except ε β} {as : List α} {bs : List β} {b : β}
    (h : as.mapM f = .ok bs) (hb : b ∈ bs) : ∃ a ∈ as, f a = .ok b := by
  induction mapM_eq_ok.1 h with
  | nil => cases hb
  | @cons a b' as' bs' ha has ih =>
    rcases List.mem_cons.1 hb with rfl | hb
    · exact ⟨a, List.mem_cons_self, ha⟩
    · obtain ⟨a', hm, ha'⟩ := ih (mapM_eq_ok.2 has) hb
      exact ⟨a', List.mem_cons_of_mem a hm, ha'⟩

theorem ok_of_mem_mapM {f : α → Except ε β} {as : List α} {bs : List β} {a : α}
    (h : as.mapM f = .ok bs) (ha : a ∈ as) : ∃ b, f a = .ok b := by
  induction mapM_eq_ok.1 h with
  | nil => cases ha
  | @cons a' b as' bs' hb hbs ih =>
    rcases List.mem_cons.1 ha with rfl | ha
    · exact ⟨b, hb⟩
    · exact ih (mapM_eq_ok.2 hbs) ha

theorem succeeds_mapM {f : α → Except ε β} {as : List α} :
    Succeeds (as.mapM f) ↔ ∀ a ∈ as, Succeeds (f a) := by
  constructor
  · rintro ⟨bs, h⟩ a ha
    exact ok_of_mem_mapM h ha
  · intro h
    induction as with
    | nil => exact succeeds_pure []
    | cons a as ih =>
      obtain ⟨b, hb⟩ := h a List.mem_cons_self
      obtain ⟨bs, hbs⟩ := ih fun a' ha => h a' (List.mem_cons_of_mem a ha)
      exact ⟨b :: bs, mapM_eq_ok.2 (.cons hb (mapM_eq_ok.1 hbs))⟩

/-- What the results hold in order is what the members say that theirs holds. -/
theorem flatMap_of_mapM {γ : Type} {f : α → Except ε β} {as : List α} {bs : List β}
    {g : α → List γ} {g' : β → List γ} (h : as.mapM f = .ok bs)
    (hg : ∀ a b, f a = .ok b → g' b = g a) : bs.flatMap g' = as.flatMap g := by
  induction mapM_eq_ok.1 h with
  | nil => rfl
  | @cons a b as bs hab has ih =>
    rw [List.flatMap_cons, List.flatMap_cons, hg a b hab, ih (mapM_eq_ok.2 has)]

/-- A step that succeeds on a list succeeds on any part of it that its results tell apart, and gives
that part of the results. -/
theorem mapM_filter {f : α → Except ε β} {p : α → Bool} {q : β → Bool} {as : List α} {bs : List β}
    (h : as.mapM f = .ok bs) (hq : ∀ a b, f a = .ok b → q b = p a) :
    (as.filter p).mapM f = .ok (bs.filter q) := by
  rw [mapM_eq_ok] at h ⊢
  induction h with
  | nil => exact .nil
  | @cons a b as bs hab _ ih =>
    have hb := hq a b hab
    cases hp : p a with
    | true =>
      rw [List.filter_cons_of_pos hp, List.filter_cons_of_pos (hb.trans hp)]
      exact .cons hab ih
    | false =>
      rw [List.filter_cons_of_neg (by simp [hp]), List.filter_cons_of_neg (by simp [hb, hp])]
      exact ih

/-- Steps that agree on the members of a list agree on the list. -/
theorem mapM_congr {f g : α → Except ε β} {as : List α} (h : ∀ a ∈ as, f a = g a) :
    as.mapM f = as.mapM g := by
  induction as with
  | nil => rfl
  | cons a as ih =>
    have htail := ih fun b hb => h b (List.mem_cons_of_mem a hb)
    rw [List.mapM_cons, List.mapM_cons, h a List.mem_cons_self, htail]

/-- Steps that succeed on all members of a list succeed on the list. -/
theorem mapM_eq_ok_map {f : α → Except ε β} {g : α → β} {as : List α}
    (h : ∀ a ∈ as, f a = .ok (g a)) : as.mapM f = .ok (as.map g) := by
  rw [mapM_eq_ok, List.forall₂_map_right_iff]
  exact List.forall₂_same.2 h

/-- Checks of a list succeed exactly where the check of each member does. -/
theorem forM_eq_ok {f : α → Except ε Unit} {as : List α} :
    forM as f = .ok () ↔ ∀ a ∈ as, f a = .ok () := by
  induction as with
  | nil => simp
  | cons a as ih => simp [check_bind_eq_ok, ih]

/-- Checks of a list fail as the check of some member does. -/
theorem exists_of_forM_eq_error {f : α → Except ε Unit} {as : List α} {e : ε}
    (h : forM as f = .error e) : ∃ a ∈ as, f a = .error e := by
  induction as with
  | nil => cases h
  | cons a as ih =>
    rw [List.forM_cons] at h
    cases ha : f a with
    | error e' =>
      rw [ha] at h
      cases h
      exact ⟨a, List.mem_cons_self, ha⟩
    | ok u =>
      rw [ha] at h
      obtain ⟨b, hb, hfb⟩ := ih h
      exact ⟨b, List.mem_cons_of_mem a hb, hfb⟩

theorem mapM_append_eq_ok {f : α → Except ε β} {as as' : List α} {bs : List β} :
    (as ++ as').mapM f = .ok bs ↔
      ∃ xs ys, as.mapM f = .ok xs ∧ as'.mapM f = .ok ys ∧ bs = xs ++ ys := by
  rw [List.mapM_append]
  simp only [bind_eq_ok, pure_eq_ok, Except.ok.injEq]
  constructor
  · rintro ⟨xs, hx, ys, hy, rfl⟩
    exact ⟨xs, ys, hx, hy, rfl⟩
  · rintro ⟨xs, ys, hx, hy, rfl⟩
    exact ⟨xs, hx, ys, hy, rfl⟩

/-- A step on all members of lists is a step on each list. -/
theorem mapM_flatten_eq_ok {f : α → Except ε β} {ass : List (List α)} {bs : List β} :
    ass.flatten.mapM f = .ok bs ↔
      ∃ bss, ass.mapM (fun as => as.mapM f) = .ok bss ∧ bs = bss.flatten := by
  induction ass generalizing bs with
  | nil => simp [eq_comm]
  | cons as ass ih =>
    rw [List.flatten_cons, mapM_append_eq_ok]
    constructor
    · rintro ⟨xs, ys, hx, hy, rfl⟩
      obtain ⟨yss, hyss, rfl⟩ := ih.1 hy
      refine ⟨xs :: yss, ?_, rfl⟩
      rw [List.mapM_cons, hx, hyss]
      rfl
    · rintro ⟨bss, hb, rfl⟩
      rw [List.mapM_cons] at hb
      obtain ⟨xs, hx, hb⟩ := bind_eq_ok.1 hb
      obtain ⟨yss, hyss, hb⟩ := bind_eq_ok.1 hb
      cases hb
      exact ⟨xs, yss.flatten, hx, ih.2 ⟨yss, hyss, rfl⟩, rfl⟩

/-- Where two results agree in some respect, steps that ask for no more than that agree after
them. -/
theorem bind_eq_bind_of_map {γ : Type} {x y : Except ε α} {g : α → β} {f f' : α → Except ε γ}
    (h : g <$> x = g <$> y) (hf : ∀ a b, x = .ok a → y = .ok b → g a = g b → f a = f' b) :
    x >>= f = y >>= f' := by
  cases x with
  | error e =>
    cases y with
    | error e' =>
      cases h
      rfl
    | ok b => cases h
  | ok a =>
    cases y with
    | error e' => cases h
    | ok b => exact hf a b rfl rfl (Except.ok.inj h)

/-- A step that rewrites the selected members of a list only, to selected ones. -/
structure ActsOn (p : α → Bool) (step : α → Except ε (List α)) : Prop where
  outside : ∀ a, p a = false → step a = .ok [a]
  inside : ∀ a as, p a = true → step a = .ok as → ∀ b ∈ as, p b = true

namespace ActsOn
variable {p : α → Bool} {step : α → Except ε (List α)}

/-- What is selected in the result comes from what was selected. -/
theorem filter_flatten_mapM (h : ActsOn p step) (as : List α) :
    (fun parts => parts.flatten.filter p) <$> as.mapM step =
      List.flatten <$> (as.filter p).mapM step := by
  induction as with
  | nil => rfl
  | cons a as ih =>
    cases hp : p a with
    | false =>
      rw [List.filter_cons_of_neg (by simp [hp]), ← ih, List.mapM_cons, h.outside a hp]
      cases as.mapM step <;> simp [hp]
    | true =>
      rw [List.filter_cons_of_pos hp, List.mapM_cons, List.mapM_cons]
      cases hstep : step a with
      | error e => rfl
      | ok part =>
        have hpart : part.filter p = part := List.filter_eq_self.2 (h.inside a part hp hstep)
        cases has : as.mapM step <;> cases hfilter : (as.filter p).mapM step <;>
          simp_all

/-- What is not selected stays as it is. -/
theorem filter_not_flatten (h : ActsOn p step) {as : List α} {parts : List (List α)}
    (hok : as.mapM step = .ok parts) :
    parts.flatten.filter (! p ·) = as.filter (! p ·) := by
  induction mapM_eq_ok.1 hok with
  | nil => rfl
  | @cons a part as parts hstep hrest ih =>
    rw [List.flatten_cons, List.filter_append, ih (mapM_eq_ok.2 hrest)]
    cases hp : p a with
    | false =>
      rw [h.outside a hp] at hstep
      cases hstep
      simp [hp]
    | true =>
      have hpart : part.filter (! p ·) = [] := by
        rw [List.filter_eq_nil_iff]
        intro b hb
        simp [h.inside a part hp hstep b hb]
      simp [hp, hpart]

end ActsOn

end Schematron.Sequencing
