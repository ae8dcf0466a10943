import Schematron.Proofs.Expansion.Interference

/-!
# What a rule takes over

In a rule that extends others, the children of the rule that an `sch:extends` names stand in its
place, and they are flattened in the same way. The rules are found by their ids, so nothing but a
limit on nesting ends this where rules extend one another in a circle. `extend_flattens` says that
the limit does no more than that: every run ends; what it gives is what flattening without a limit
gives; and where every reference leads to a rule, a run fails exactly if some chain of extensions is
longer than the limit allows.
-/
namespace Schematron.Expansion
open Xml Sequencing

variable {rules : List (String × Element)}

def isExtends : Node → Bool
  | .text _ => false
  | .element t _ => isSch t "extends"

theorem exists_of_isExtends {n : Node} (h : isExtends n = true) :
    ∃ t cs, n = .element t cs ∧ isSch t "extends" = true := by
  cases n with
  | text s => cases h
  | element t cs => exact ⟨t, cs, rfl, h⟩

def Extends (ns : List Node) (id : String) : Prop :=
  ∃ t cs, .element t cs ∈ ns ∧ isSch t "extends" = true ∧ t.attr "rule" = some id

/-- The flattened form of nodes: in place of each reference to a rule stands the flattened form of
the children of that rule, and everything else stays in its place. -/
inductive Flattens (rules : List (String × Element)) : List Node → List Node → Prop where
  | nil : Flattens rules [] []
  | keep {n ns out} (other : isExtends n = false) (rest : Flattens rules ns out) :
      Flattens rules (n :: ns) (n :: out)
  | take {t cs ns id rule body out} (extends_ : isSch t "extends" = true)
      (named : t.attr "rule" = some id) (inForce : lookup? rules id = some rule)
      (inner : Flattens rules rule.children body) (rest : Flattens rules ns out) :
      Flattens rules (.element t cs :: ns) (body ++ out)

/-- Nodes have at most one flattened form. -/
theorem Flattens.unique {ns out out' : List Node} (h : Flattens rules ns out)
    (h' : Flattens rules ns out') : out = out' := by
  induction h generalizing out' with
  | nil =>
    cases h'
    rfl
  | keep other _ ih =>
    cases h' with
    | keep _ rest => rw [ih rest]
    | take extends_ => exact absurd (other.symm.trans extends_) (by decide)
  | take extends_ named inForce _ _ ihinner ihrest =>
    cases h' with
    | keep other => exact absurd (other.symm.trans extends_) (by decide)
    | take _ named' inForce' inner rest =>
      rw [named] at named'
      cases named'
      rw [inForce] at inForce'
      cases inForce'
      rw [ihinner inner, ihrest rest]

theorem Flattens.isExtends_eq_false {ns out : List Node} (h : Flattens rules ns out) :
    ∀ n ∈ out, isExtends n = false := by
  induction h with
  | nil => simp
  | keep other _ ih => simpa [other] using ih
  | take _ _ _ _ _ ihinner ihrest =>
    intro n hn
    rcases List.mem_append.1 hn with hn | hn
    · exact ihinner n hn
    · exact ihrest n hn

/-- Ids of rules that extend one another: the nodes extend the first, and each rule extends the
next. -/
inductive Chain (rules : List (String × Element)) : List Node → List String → Prop where
  | nil {ns} : Chain rules ns []
  | cons {ns id rule ids} (extends_ : Extends ns id) (inForce : lookup? rules id = some rule)
      (further : Chain rules rule.children ids) : Chain rules ns (id :: ids)

theorem Chain.mono {ns ns' : List Node} {ids : List String} (h : Chain rules ns ids)
    (hsub : ns ⊆ ns') : Chain rules ns' ids := by
  cases h with
  | nil => exact .nil
  | cons extends_ inForce further =>
    obtain ⟨t, cs, hmem, he, hr⟩ := extends_
    exact .cons ⟨t, cs, hsub hmem, he, hr⟩ inForce further

section
variable {f : String → Except TransformError (List Node)}

theorem flattenChild_of_other {n : Node} (h : isExtends n = false) :
    flattenChild f n = .ok [n] := by
  cases n with
  | text s => rfl
  | element t cs =>
    have ht : isSch t "extends" = false := h
    simp [flattenChild, ht]

theorem flattenChild_of_named {t : Tag} {cs : List Node} {id : String}
    (he : isSch t "extends" = true) (hr : t.attr "rule" = some id) :
    flattenChild f (.element t cs) = f id := by
  simp [flattenChild, he, hr]

/-- A reference that gives something names a rule, and gives what that rule does. -/
theorem flattenChild_extends_eq_ok {n : Node} {out : List Node} (hn : isExtends n = true)
    (h : flattenChild f n = .ok out) :
    ∃ t cs id, n = .element t cs ∧ isSch t "extends" = true ∧ t.attr "rule" = some id ∧
      f id = .ok out := by
  obtain ⟨t, cs, rfl, he⟩ := exists_of_isExtends hn
  cases hr : t.attr "rule" with
  | none => simp [flattenChild, he, hr] at h
  | some id => exact ⟨t, cs, id, rfl, he, hr, (flattenChild_of_named he hr).symm.trans h⟩

theorem flattenChildren_cons_eq_ok {n : Node} {ns out : List Node} :
    flattenChildren f (n :: ns) = .ok out ↔ ∃ own rest, flattenChild f n = .ok own ∧
      flattenChildren f ns = .ok rest ∧ out = own ++ rest := by
  simp only [flattenChildren, bind_eq_ok, pure_eq_ok, Except.ok.injEq]
  constructor
  · rintro ⟨own, hown, rest, hrest, rfl⟩
    exact ⟨own, rest, hown, hrest, rfl⟩
  · rintro ⟨own, rest, hown, hrest, rfl⟩
    exact ⟨own, hown, rest, hrest, rfl⟩

theorem flattenChildren_eq_self {ns : List Node} (h : ∀ n ∈ ns, isExtends n = false) :
    flattenChildren f ns = .ok ns := by
  induction ns with
  | nil => rfl
  | cons n ns ih =>
    have hn := flattenChild_of_other (f := f) (h n List.mem_cons_self)
    have hns := ih fun m hm => h m (List.mem_cons_of_mem n hm)
    exact flattenChildren_cons_eq_ok.2 ⟨[n], ns, hn, hns, rfl⟩

theorem ok_of_extends {ns out : List Node} {id : String} (h : flattenChildren f ns = .ok out)
    (hid : Extends ns id) : ∃ body, f id = .ok body := by
  obtain ⟨t, cs, hmem, he, hr⟩ := hid
  induction ns generalizing out with
  | nil => cases hmem
  | cons n ns ih =>
    obtain ⟨own, rest, hown, hrest, rfl⟩ := flattenChildren_cons_eq_ok.1 h
    rcases List.mem_cons.1 hmem with rfl | hmem
    · exact ⟨own, (flattenChild_of_named he hr).symm.trans hown⟩
    · exact ih hrest hmem

theorem exists_of_flattenChildren_eq_error {ns : List Node} {e : TransformError}
    (h : flattenChildren f ns = .error e) : ∃ n ∈ ns, flattenChild f n = .error e := by
  induction ns with
  | nil => cases h
  | cons n ns ih =>
    cases hn : flattenChild f n with
    | error e' =>
      simp only [flattenChildren, hn, error_bind] at h
      cases h
      exact ⟨n, List.mem_cons_self, hn⟩
    | ok own =>
      cases hns : flattenChildren f ns with
      | error e' =>
        simp only [flattenChildren, hn, hns, ok_bind, error_bind] at h
        cases h
        obtain ⟨m, hm, hfm⟩ := ih hns
        exact ⟨m, List.mem_cons_of_mem n hm, hfm⟩
      | ok rest => simp [flattenChildren, hn, hns] at h

end

theorem extended_eq_ok_iff {left : Nat} {id : String} {body : List Node} :
    extended rules left id = .ok body ↔ ∃ rule rest, lookup? rules id = some rule ∧
      left = rest + 1 ∧ flattenChildren (extended rules rest) rule.children = .ok body := by
  cases hl : lookup? rules id with
  | none => cases left <;> simp [extended, hl]
  | some rule => cases left <;> simp [extended, hl]

theorem Flattens.of_ok {left : Nat} {ns out : List Node}
    (h : flattenChildren (extended rules left) ns = .ok out) : Flattens rules ns out := by
  induction left using Nat.strongRecOn generalizing ns out with
  | ind left ih =>
    induction ns generalizing out with
    | nil =>
      cases h
      exact .nil
    | cons n ns ihns =>
      obtain ⟨own, rest, hown, hrest, rfl⟩ := flattenChildren_cons_eq_ok.1 h
      cases hn : isExtends n with
      | false =>
        rw [flattenChild_of_other hn] at hown
        cases hown
        exact .keep hn (ihns hrest)
      | true =>
        obtain ⟨t, cs, id, rfl, he, hr, hgives⟩ := flattenChild_extends_eq_ok hn hown
        obtain ⟨rule, fewer, hl, rfl, hbody⟩ := extended_eq_ok_iff.1 hgives
        exact .take he hr hl (ih fewer (Nat.lt_succ_self fewer) hbody) (ihns hrest)

theorem Chain.length_le_of_ok {left : Nat} {ns out : List Node} {ids : List String}
    (hc : Chain rules ns ids) (h : flattenChildren (extended rules left) ns = .ok out) :
    ids.length ≤ left := by
  induction hc generalizing left out with
  | nil => exact Nat.zero_le left
  | cons extends_ inForce _ ih =>
    obtain ⟨body, hgives⟩ := ok_of_extends h extends_
    obtain ⟨rule, fewer, hl, rfl, hbody⟩ := extended_eq_ok_iff.1 hgives
    rw [inForce] at hl
    cases hl
    exact Nat.succ_le_succ (ih hbody)

/-- Nodes with a flattened form are flattened within any limit that their chains keep. -/
theorem Flattens.ok {left : Nat} {ns out : List Node} (h : Flattens rules ns out)
    (hlimit : ∀ ids, Chain rules ns ids → ids.length ≤ left) :
    flattenChildren (extended rules left) ns = .ok out := by
  induction h generalizing left with
  | nil => rfl
  | keep other _ ih =>
    have hrest := ih fun ids hc => hlimit ids (hc.mono (List.subset_cons_self ..))
    exact flattenChildren_cons_eq_ok.2 ⟨_, _, flattenChild_of_other other, hrest, rfl⟩
  | @take t cs ns id rule body out extends_ named inForce _ _ ihinner ihrest =>
    have hextends : Extends (.element t cs :: ns) id :=
      ⟨t, cs, List.mem_cons_self, extends_, named⟩
    have hpos : 0 < left := hlimit [id] (.cons hextends inForce .nil)
    obtain ⟨fewer, rfl⟩ : ∃ fewer, left = fewer + 1 := ⟨left - 1, by omega⟩
    have hfewer : ∀ ids, Chain rules rule.children ids → ids.length ≤ fewer := fun ids hc =>
      Nat.le_of_succ_le_succ (hlimit (id :: ids) (.cons hextends inForce hc))
    have hinner := ihinner hfewer
    have hrest := ihrest fun ids hc => hlimit ids (hc.mono (List.subset_cons_self ..))
    have hown : flattenChild (extended rules (fewer + 1)) (.element t cs) = .ok body :=
      (flattenChild_of_named extends_ named).trans
        (extended_eq_ok_iff.2 ⟨rule, fewer, inForce, rfl, hinner⟩)
    exact flattenChildren_cons_eq_ok.2 ⟨body, out, hown, hrest, rfl⟩

/-- Flattening with a limit succeeds exactly where there is a flattened form and no chain of
extensions is longer than the limit, and it gives that form. -/
theorem flattenChildren_eq_ok_iff {left : Nat} {ns out : List Node} :
    flattenChildren (extended rules left) ns = .ok out ↔
      Flattens rules ns out ∧ ∀ ids, Chain rules ns ids → ids.length ≤ left :=
  ⟨fun h => ⟨.of_ok h, fun _ hc => hc.length_le_of_ok h⟩, fun h => h.1.ok h.2⟩

def nestedTooDeep : TransformError :=
  .malformed ("sch:extends nested deeper than " ++ toString maxExtends ++ " rules")

/-- A run of flattening that ends with a result: nodes are read in order, the children of a rule
that is taken over are one level deeper, and no rule is taken over below the limit. How long a run
may go on is not said, so what has a result here has it after finitely many steps. -/
inductive Ends (rules : List (String × Element)) :
    (depth : Nat) → List Node → Except TransformError (List Node) → Prop where
  | nil {depth} : Ends rules depth [] (.ok [])
  | keep {depth n ns result} (other : isExtends n = false) (rest : Ends rules depth ns result) :
      Ends rules depth (n :: ns) ((n :: ·) <$> result)
  | unnamed {depth t cs ns} (extends_ : isSch t "extends" = true) (named : t.attr "rule" = none) :
      Ends rules depth (.element t cs :: ns)
        (.error (.malformed "sch:extends requires @rule or @href"))
  | unknown {depth t cs ns id} (extends_ : isSch t "extends" = true)
      (named : t.attr "rule" = some id) (unknown : lookup? rules id = none) :
      Ends rules depth (.element t cs :: ns) (.error (.unknownAbstract .rule id))
  | tooDeep {depth t cs ns id rule} (extends_ : isSch t "extends" = true)
      (named : t.attr "rule" = some id) (inForce : lookup? rules id = some rule)
      (limit : maxExtends ≤ depth) : Ends rules depth (.element t cs :: ns) (.error nestedTooDeep)
  | fails {depth t cs ns id rule e} (extends_ : isSch t "extends" = true)
      (named : t.attr "rule" = some id) (inForce : lookup? rules id = some rule)
      (limit : depth < maxExtends) (inner : Ends rules (depth + 1) rule.children (.error e)) :
      Ends rules depth (.element t cs :: ns) (.error e)
  | takes {depth t cs ns id rule body result} (extends_ : isSch t "extends" = true)
      (named : t.attr "rule" = some id) (inForce : lookup? rules id = some rule)
      (limit : depth < maxExtends) (inner : Ends rules (depth + 1) rule.children (.ok body))
      (rest : Ends rules depth ns result) :
      Ends rules depth (.element t cs :: ns) ((body ++ ·) <$> result)

/-- A reference to a rule ends if the children of that rule and the nodes after it do. -/
theorem Ends.reference {depth left : Nat} {t : Tag} {cs ns : List Node} {id : String}
    {result : Except TransformError (List Node)} (h : depth + left = maxExtends)
    (he : isSch t "extends" = true) (hr : t.attr "rule" = some id)
    (inner : ∀ fewer, left = fewer + 1 → ∀ rule : Element, Ends rules (depth + 1) rule.children
      (flattenChildren (extended rules fewer) rule.children))
    (rest : Ends rules depth ns result) :
    Ends rules depth (.element t cs :: ns)
      (extended rules left id >>= fun body => (body ++ ·) <$> result) := by
  cases hl : lookup? rules id with
  | none =>
    have hgives : extended rules left id = .error (.unknownAbstract .rule id) := by
      cases left <;> simp only [extended, hl]
    rw [hgives, error_bind]
    exact .unknown he hr hl
  | some rule =>
    cases left with
    | zero =>
      have hgives : extended rules 0 id = .error nestedTooDeep := by
        simp only [extended, hl, nestedTooDeep]
      rw [hgives, error_bind]
      exact .tooDeep he hr hl (by omega)
    | succ left =>
      have hgives : extended rules (left + 1) id =
          flattenChildren (extended rules left) rule.children := by
        simp only [extended, hl]
      have hinner := inner left rfl rule
      rw [hgives]
      cases hbody : flattenChildren (extended rules left) rule.children with
      | error e =>
        rw [hbody] at hinner
        exact .fails he hr hl (by omega) hinner
      | ok body =>
        rw [hbody] at hinner
        exact .takes he hr hl (by omega) hinner rest

/-- Every run ends, also where rules extend one another in a circle, and gives what flattening
gives. -/
theorem ends_flattenChildren (rules : List (String × Element)) {depth left : Nat}
    (h : depth + left = maxExtends) (ns : List Node) :
    Ends rules depth ns (flattenChildren (extended rules left) ns) := by
  -- the levels that are left go down with every rule that is taken over
  induction left using Nat.strongRecOn generalizing depth ns with
  | ind left ih =>
    induction ns with
    | nil => exact .nil
    | cons n ns ihns =>
      cases hn : isExtends n with
      | false =>
        simp only [flattenChildren, flattenChild_of_other hn, ok_bind]
        exact .keep hn ihns
      | true =>
        obtain ⟨t, cs, rfl, he⟩ := exists_of_isExtends hn
        cases hr : t.attr "rule" with
        | none =>
          simp only [flattenChildren, flattenChild, he, hr, if_true, error_bind]
          exact .unnamed he hr
        | some id =>
          simp only [flattenChildren, flattenChild_of_named he hr]
          refine .reference h he hr (fun fewer hfewer rule => ?_) ihns
          have hdeeper : depth + 1 + fewer = maxExtends := by omega
          exact ih fewer (by omega) hdeeper rule.children

/-- Lists of nodes that flattening nodes may come to: themselves, and the children of every rule
that they use. -/
inductive Reaches (rules : List (String × Element)) (ns : List Node) : List Node → Prop where
  | here : Reaches rules ns ns
  | base {id rule} (used : Uses rules ns id) (inForce : lookup? rules id = some rule) :
      Reaches rules ns rule.children

def Resolves (rules : List (String × Element)) (ns : List Node) : Prop :=
  ∀ body, Reaches rules ns body → ∀ t cs, .element t cs ∈ body → isSch t "extends" = true →
    ∃ id rule, t.attr "rule" = some id ∧ lookup? rules id = some rule

def Cyclic (rules : List (String × Element)) (ns : List Node) : Prop :=
  ∃ id rule, Uses rules ns id ∧ lookup? rules id = some rule ∧ Uses rules rule.children id

theorem Resolves.base {ns : List Node} {id : String} {rule : Element} (h : Resolves rules ns)
    (hid : Uses rules ns id) (hl : lookup? rules id = some rule) : Resolves rules rule.children := by
  intro body hbody
  cases hbody with
  | here => exact h _ (.base hid hl)
  | base used inForce => exact h _ (.base (.through hid hl used) inForce)

/-- Where flattening fails, a reference to a rule that is there does. -/
theorem Resolves.exists_of_error {left : Nat} {ns : List Node} {e : TransformError}
    (hres : Resolves rules ns) (h : flattenChildren (extended rules left) ns = .error e) :
    ∃ t cs id rule, .element t cs ∈ ns ∧ isSch t "extends" = true ∧ t.attr "rule" = some id ∧
      lookup? rules id = some rule ∧ extended rules left id = .error e := by
  obtain ⟨n, hmem, hn⟩ := exists_of_flattenChildren_eq_error h
  cases hother : isExtends n with
  | false =>
    rw [flattenChild_of_other hother] at hn
    cases hn
  | true =>
    obtain ⟨t, cs, rfl, he⟩ := exists_of_isExtends hother
    obtain ⟨id, rule, hr, hl⟩ := hres ns .here t cs hmem he
    rw [flattenChild_of_named he hr] at hn
    exact ⟨t, cs, id, rule, hmem, he, hr, hl, hn⟩

/-- Where every reference leads to a rule, flattening fails only beyond the limit, at the end of a
chain that is too long. -/
theorem Resolves.exists_chain {left : Nat} {ns : List Node} {e : TransformError}
    (hres : Resolves rules ns) (h : flattenChildren (extended rules left) ns = .error e) :
    e = nestedTooDeep ∧ ∃ ids, Chain rules ns ids ∧ left < ids.length := by
  induction left generalizing ns with
  | zero =>
    obtain ⟨t, cs, id, rule, hmem, he, hr, hl, hgives⟩ := hres.exists_of_error h
    simp only [extended, hl] at hgives
    cases hgives
    exact ⟨rfl, [id], .cons ⟨t, cs, hmem, he, hr⟩ hl .nil, Nat.zero_lt_one⟩
  | succ left ih =>
    obtain ⟨t, cs, id, rule, hmem, he, hr, hl, hgives⟩ := hres.exists_of_error h
    simp only [extended, hl] at hgives
    obtain ⟨rfl, ids, hc, hlt⟩ := ih (hres.base (.direct hmem he hr) hl) hgives
    exact ⟨rfl, id :: ids, .cons ⟨t, cs, hmem, he, hr⟩ hl hc, Nat.succ_lt_succ hlt⟩

/-- A chain of a rule that nodes use is the end of a longer chain of the nodes. -/
theorem Uses.exists_chain {ns : List Node} {id : String} {rule : Element} {ids : List String}
    (h : Uses rules ns id) (hl : lookup? rules id = some rule) (hc : Chain rules rule.children ids) :
    ∃ longer, Chain rules ns longer ∧ ids.length < longer.length := by
  induction h generalizing rule ids with
  | direct child extends_ named =>
    exact ⟨_, .cons ⟨_, _, child, extends_, named⟩ hl hc, Nat.lt_succ_self _⟩
  | through used inForce further ihused ihfurther =>
    obtain ⟨longer, hlonger, hlt⟩ := ihfurther hl hc
    obtain ⟨longest, hlongest, hlt'⟩ := ihused inForce hlonger
    exact ⟨longest, hlongest, Nat.lt_trans hlt hlt'⟩

/-- A circle of rules has chains of any length. -/
theorem Cyclic.exists_chain {ns : List Node} (h : Cyclic rules ns) (k : Nat) :
    ∃ ids, Chain rules ns ids ∧ k < ids.length := by
  obtain ⟨id, rule, hused, hl, hself⟩ := h
  have hround : ∃ ids, Chain rules rule.children ids ∧ k ≤ ids.length := by
    induction k with
    | zero => exact ⟨[], .nil, Nat.le_refl 0⟩
    | succ k ih =>
      obtain ⟨ids, hc, hle⟩ := ih
      obtain ⟨longer, hlonger, hlt⟩ := hself.exists_chain hl hc
      exact ⟨longer, hlonger, by omega⟩
  obtain ⟨ids, hc, hle⟩ := hround
  obtain ⟨longer, hlonger, hlt⟩ := hused.exists_chain hl hc
  exact ⟨longer, hlonger, by omega⟩

theorem extend_eq_ok_iff {rule out : Element} : extend rules rule = .ok out ↔
    out.tag = rule.tag ∧ Flattens rules rule.children out.children ∧
      ∀ ids, Chain rules rule.children ids → ids.length ≤ maxExtends := by
  simp only [extend, bind_eq_ok, pure_eq_ok, Except.ok.injEq, flattenChildren_eq_ok_iff]
  constructor
  · rintro ⟨cs, ⟨hform, hlimit⟩, rfl⟩
    exact ⟨rfl, hform, hlimit⟩
  · rintro ⟨htag, hform, hlimit⟩
    exact ⟨out.children, ⟨hform, hlimit⟩, by rw [← htag]⟩

/-- Where every reference leads to a rule, a rule that cannot be extended has a chain of extensions
beyond the limit. -/
theorem Resolves.extend_eq_error {rule : Element} {e : TransformError}
    (hres : Resolves rules rule.children) (h : extend rules rule = .error e) :
    e = nestedTooDeep ∧ ∃ ids, Chain rules rule.children ids ∧ maxExtends < ids.length := by
  cases hflat : flattenChildren (extended rules maxExtends) rule.children with
  | ok cs => simp [extend, hflat] at h
  | error e' =>
    simp only [extend, hflat, error_bind] at h
    cases h
    exact hres.exists_chain hflat

/-- Extending a rule always ends. If it succeeds, the children of the rule are replaced by their
flattened form. Where every reference leads to a rule, it succeeds exactly if no chain of extensions
is longer than the limit; so it fails, with an error that says so, wherever a circle is reached. -/
theorem extend_flattens (rules : List (String × Element)) (rule : Element) :
    (∃ result, Ends rules 0 rule.children result ∧
      extend rules rule = (fun cs => { rule with children := cs }) <$> result) ∧
    (∀ out, extend rules rule = .ok out → out.tag = rule.tag ∧
      ∀ cs, Flattens rules rule.children cs ↔ cs = out.children) ∧
    (Resolves rules rule.children →
      ((∃ out, extend rules rule = .ok out) ↔
        ∀ ids, Chain rules rule.children ids → ids.length ≤ maxExtends) ∧
      (Cyclic rules rule.children → extend rules rule = .error nestedTooDeep)) := by
  refine ⟨?_, ?_, fun hres => ⟨?_, ?_⟩⟩
  · refine ⟨_, ends_flattenChildren rules (Nat.zero_add maxExtends) rule.children, ?_⟩
    cases h : flattenChildren (extended rules maxExtends) rule.children <;> simp [extend, h]
  · intro out h
    obtain ⟨htag, hform, _⟩ := extend_eq_ok_iff.1 h
    refine ⟨htag, fun cs => ⟨fun hcs => hcs.unique hform, ?_⟩⟩
    rintro rfl
    exact hform
  · constructor
    · rintro ⟨out, h⟩
      exact (extend_eq_ok_iff.1 h).2.2
    · intro hlimit
      cases h : extend rules rule with
      | ok out => exact ⟨out, rfl⟩
      | error e =>
        obtain ⟨_, ids, hc, hlong⟩ := hres.extend_eq_error h
        exact absurd (hlimit ids hc) (Nat.not_le.2 hlong)
  · intro hcyclic
    obtain ⟨ids, hc, hlong⟩ := hcyclic.exists_chain maxExtends
    cases h : extend rules rule with
    | ok out => exact absurd ((extend_eq_ok_iff.1 h).2.2 ids hc) (Nat.not_le.2 hlong)
    | error e => rw [(hres.extend_eq_error h).1]

/-- Whether the references of nodes, and of every rule of a table, name rules of the table. -/
def isClosed (rules : List (String × Element)) (ns : List Node) : Bool :=
  (ns :: rules.map (·.2.children)).all fun body => (body.filterMap Node.element?).all fun e =>
    ! isSch e.tag "extends" || ((e.attr "rule").bind (lookup? rules)).isSome

theorem resolves_of_isClosed {ns : List Node} (h : isClosed rules ns = true) :
    Resolves rules ns := by
  intro body hbody t cs hmem he
  have hlisted : body ∈ ns :: rules.map (·.2.children) := by
    cases hbody with
    | here => exact List.mem_cons_self
    | @base id rule _ inForce =>
      obtain ⟨p, hp, rfl⟩ := Option.map_eq_some_iff.1 inForce
      have hp := List.mem_reverse.1 (List.mem_of_find?_eq_some hp)
      exact List.mem_cons_of_mem _ (List.mem_map_of_mem hp)
  have hchild : (⟨t, cs⟩ : Element) ∈ body.filterMap Node.element? :=
    List.mem_filterMap.2 ⟨_, hmem, rfl⟩
  have hnamed := List.all_eq_true.1 (List.all_eq_true.1 h body hlisted) _ hchild
  rw [he, Bool.not_true, Bool.false_or] at hnamed
  obtain ⟨rule, hrule⟩ := Option.isSome_iff_exists.1 hnamed
  obtain ⟨id, hr, hl⟩ := Option.bind_eq_some_iff.1 hrule
  exact ⟨id, rule, hr, hl⟩

def ruleWith (children : List Node) : Element where
  tag := ⟨.inNamespace schematronUri "sch" "rule", [], []⟩
  children := children

def extendsRule (id : String) : Node := schNode "extends" [("rule", id)] []

def assertThat (test : String) : Node := schNode "assert" [("test", test)] []

/-- Rules of which one extends another one twice, and one extends itself. -/
def sectionRules : List (String × Element) :=
  [("named", ruleWith [assertThat "@name"]),
    ("titled", ruleWith [extendsRule "named", assertThat "title", extendsRule "named"]),
    ("nested", ruleWith [assertThat "section", extendsRule "nested"])]

/-- What a reference names is put in each time, and a rule that extends itself cannot be used. -/
theorem extend_flattens_section :
    (∃ out, extend sectionRules (ruleWith [extendsRule "titled", assertThat "para"]) = .ok out ∧
      Resolves sectionRules [extendsRule "titled", assertThat "para"] ∧
      (∀ ids, Chain sectionRules [extendsRule "titled", assertThat "para"] ids →
        ids.length ≤ maxExtends) ∧
      (∀ cs, Flattens sectionRules [extendsRule "titled", assertThat "para"] cs ↔
        cs = out.children) ∧
      testsOf out.children = ["@name", "title", "@name", "para"]) ∧
    Resolves sectionRules [extendsRule "nested"] ∧ Cyclic sectionRules [extendsRule "nested"] ∧
    extend sectionRules (ruleWith [extendsRule "nested"]) = .error nestedTooDeep := by
  obtain ⟨out, hout, htests⟩ := exists_of_any (p := fun out : Element =>
    testsOf out.children == ["@name", "title", "@name", "para"])
    (x := extend sectionRules (ruleWith [extendsRule "titled", assertThat "para"]))
    (by decide +kernel)
  have hcyclic : Cyclic sectionRules [extendsRule "nested"] :=
    ⟨"nested", ruleWith [assertThat "section", extendsRule "nested"],
      .direct List.mem_cons_self rfl rfl, rfl,
      .direct (List.mem_cons_of_mem _ List.mem_cons_self) rfl rfl⟩
  have htitled : Resolves sectionRules [extendsRule "titled", assertThat "para"] :=
    resolves_of_isClosed (by decide +kernel)
  have hnested : Resolves sectionRules [extendsRule "nested"] :=
    resolves_of_isClosed (by decide +kernel)
  obtain ⟨_, hform, hlimit⟩ :=
    extend_flattens sectionRules (ruleWith [extendsRule "titled", assertThat "para"])
  obtain ⟨_, _, hcircle⟩ := extend_flattens sectionRules (ruleWith [extendsRule "nested"])
  exact ⟨⟨out, hout, htitled, (hlimit htitled).1.1 ⟨out, hout⟩, (hform out hout).2,
    eq_of_beq htests⟩, hnested, hcyclic, (hcircle hnested).2 hcyclic⟩

/-- So many rules of which each but the last extends the next, and the last has an assertion. -/
def ladder (n : Nat) : List (String × Element) :=
  (List.range n).map fun i => (toString i,
    ruleWith [if i + 1 < n then extendsRule (toString (i + 1)) else assertThat "@name"])

-- a chain may be as long as the limit and no longer
example : ((extend (ladder 32) (ruleWith [extendsRule "0"])).toOption.map fun out =>
    testsOf out.children) = some ["@name"] := by decide +kernel

example : (extend (ladder 33) (ruleWith [extendsRule "0"])).toOption.isNone = true := by
  decide +kernel

end Schematron.Expansion
