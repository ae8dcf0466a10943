import Schematron.Proofs.Compilation.Phases
import Schematron.Proofs.Expansion.Patterns

/-!
# Complete schemas

A schema is complete if its elements have the attributes that they need, if the phase that is asked
for and every diagnostic that a test asks for are there, and if all its expressions are accepted.
This is said of a tree, without a compiler, and of active patterns only. A schema can be compiled
exactly if it is complete, and what is not active does not matter (`ofSchema_iff_isComplete`).
-/
namespace Schematron.Compilation
open Sequencing Xml

/-- Whether an element stands for a value in a message. -/
def isInsertion (e : Element) : Bool :=
  e.is schematronUri "value-of" || e.is schematronUri "name"

/-- The insertions of a message are at any depth, but not inside of one another. -/
inductive Inserted : List Node → Element → Prop where
  | here {ns : List Node} {e : Element} (he : e.toNode ∈ ns) (hi : isInsertion e = true) :
      Inserted ns e
  | inside {ns : List Node} {outer e : Element} (houter : outer.toNode ∈ ns)
      (hi : isInsertion outer = false) (he : Inserted outer.children e) : Inserted ns e

def isTest (e : Element) : Bool := e.is schematronUri "assert" || e.is schematronUri "report"

def selections (pattern : Element) : List String :=
  (pattern.childrenNamed schematronUri "rule").flatMap fun r =>
    ((r.attr "context").map Selection.ofContext).toList

def askedBy (pattern : Element) : List String :=
  (pattern.childrenNamed schematronUri "rule").flatMap fun r =>
    (r.elements.filter isTest).flatMap fun t => (t.attr "diagnostics").elim [] Text.words

def diagnosticElements (schema : Element) : List Element :=
  (schema.childrenNamed schematronUri "diagnostics").flatMap
    (·.childrenNamed schematronUri "diagnostic")

/-- The phase that a schema is compiled for, if that is not the phase of all patterns. -/
def selectedPhase? (asked : Option String) (schema : Element) : Option Element :=
  ((effectivePhase asked schema).filter (· != "#ALL")).bind fun id =>
    (schema.childrenNamed schematronUri "phase").find? (·.attr "id" == some id)

/-- Whether a phase has a pattern; all patterns are there without a phase. -/
def isActiveIn (phase : Option Element) (pattern : Element) : Bool :=
  phase.all fun p => (pattern.attr "id").any (lists p)

def activePatterns (asked : Option String) (schema : Element) : List Element :=
  (schema.childrenNamed schematronUri "pattern").filter (isActiveIn (selectedPhase? asked schema))

section
variable (ok : String → Prop)

structure CompleteLet (e : Element) : Prop where
  name : ∃ name, e.attr "name" = some name
  value : ∃ source ∈ e.attr "value", ok source

structure CompleteInsertion (e : Element) : Prop where
  value : e.is schematronUri "value-of" = true → ∃ source ∈ e.attr "select", ok source
  name : e.is schematronUri "name" = true → ∀ source ∈ e.attr "path", ok source

def CompleteMessage (ns : List Node) : Prop := ∀ e, Inserted ns e → CompleteInsertion ok e

structure CompleteTest (e : Element) : Prop where
  test : ∃ source ∈ e.attr "test", ok source
  subject : ∀ source ∈ e.attr "subject", ok source
  message : CompleteMessage ok e.children

structure CompleteRule (e : Element) : Prop where
  context : ∃ context ∈ e.attr "context", ok (Selection.ofContext context)
  subject : ∀ source ∈ e.attr "subject", ok source
  lets : ∀ b ∈ e.childrenNamed schematronUri "let", CompleteLet ok b
  tests : ∀ t ∈ e.elements, isTest t = true → CompleteTest ok t

structure CompletePattern (e : Element) : Prop where
  rules : ∀ r ∈ e.childrenNamed schematronUri "rule", CompleteRule ok r
  selection : ∀ union ∈ unionOf (selections e), ok union
  lets : ∀ b ∈ e.childrenNamed schematronUri "let", CompleteLet ok b

structure CompleteDiagnostic (e : Element) : Prop where
  id : ∃ id, e.attr "id" = some id
  message : CompleteMessage ok e.children

/-- Whether a tree is a complete schema for the phase that is asked for. -/
structure IsComplete (asked : Option String) (e : Element) : Prop where
  isSchema : e.is schematronUri "schema" = true
  namespaces : ∀ n ∈ e.childrenNamed schematronUri "ns",
    (∃ pre, n.attr "prefix" = some pre) ∧ ∃ uri, n.attr "uri" = some uri
  phase : ∀ id ∈ effectivePhase asked e, id ≠ "#ALL" →
    ∃ p ∈ e.childrenNamed schematronUri "phase", p.attr "id" = some id
  lets : ∀ b ∈ e.childrenNamed schematronUri "let", CompleteLet ok b
  phaseLets : ∀ p ∈ selectedPhase? asked e,
    ∀ b ∈ p.childrenNamed schematronUri "let", CompleteLet ok b
  patterns : ∀ p ∈ activePatterns asked e, CompletePattern ok p
  diagnostics : ∀ d ∈ diagnosticElements e, CompleteDiagnostic ok d
  declared : ∀ p ∈ activePatterns asked e, ∀ id ∈ askedBy p,
    ∃ d ∈ diagnosticElements e, d.attr "id" = some id
  nameOfNode : ok "name()"

end

theorem inserted_cons {n : Node} {ns : List Node} {e : Element} :
    Inserted (n :: ns) e ↔ Inserted [n] e ∨ Inserted ns e := by
  constructor
  · intro h
    cases h with
    | here he hi =>
      rcases List.mem_cons.1 he with rfl | he
      · exact .inl (.here List.mem_cons_self hi)
      · exact .inr (.here he hi)
    | inside houter hi he =>
      rcases List.mem_cons.1 houter with rfl | houter
      · exact .inl (.inside List.mem_cons_self hi he)
      · exact .inr (.inside houter hi he)
  · have hsub (ms : List Node) (hms : ∀ m ∈ ms, m ∈ n :: ns) (h : Inserted ms e) :
        Inserted (n :: ns) e := by
      cases h with
      | here he hi => exact .here (hms _ he) hi
      | inside houter hi he => exact .inside (hms _ houter) hi he
    rintro (h | h)
    · exact hsub [n] (by simp) h
    · exact hsub ns (fun m hm => List.mem_cons_of_mem n hm) h

theorem not_inserted_text {s : String} {e : Element} : ¬ Inserted [.text s] e := by
  intro h
  cases h with
  | here he hi => cases List.mem_singleton.1 he
  | inside houter hi he => cases List.mem_singleton.1 houter

/-- An insertion is the only one of a message of its own; other markup has those of its content. -/
theorem inserted_element {t : Tag} {cs : List Node} {e : Element} :
    Inserted [.element t cs] e ↔
      if isInsertion ⟨t, cs⟩ then e = ⟨t, cs⟩ else Inserted cs e := by
  have heq {x : Element} (hx : x.toNode ∈ [Node.element t cs]) : x = ⟨t, cs⟩ := by
    cases List.mem_singleton.1 hx
    rfl
  constructor
  · intro h
    cases h with
    | here he hi =>
      obtain rfl := heq he
      rw [if_pos hi]
    | inside houter hi he =>
      obtain rfl := heq houter
      rwa [if_neg (by simp [hi])]
  · cases hi : isInsertion ⟨t, cs⟩ with
    | true =>
      rintro rfl
      exact .here List.mem_cons_self hi
    | false =>
      have hself : Element.toNode ⟨t, cs⟩ ∈ [Node.element t cs] := List.mem_cons_self
      exact fun he => .inside hself hi he

section
variable {ok : String → Prop}

theorem completeMessage_nil : CompleteMessage ok [] := by
  intro e h
  cases h with
  | here he hi => cases he
  | inside houter hi he => cases houter

theorem completeMessage_cons {n : Node} {ns : List Node} :
    CompleteMessage ok (n :: ns) ↔ CompleteMessage ok [n] ∧ CompleteMessage ok ns := by
  constructor
  · intro h
    exact ⟨fun e he => h e (inserted_cons.2 (.inl he)), fun e he => h e (inserted_cons.2 (.inr he))⟩
  · rintro ⟨hn, hns⟩ e he
    exact (inserted_cons.1 he).elim (hn e) (hns e)

theorem completeMessage_text {s : String} : CompleteMessage ok [.text s] :=
  fun _ h => absurd h not_inserted_text

theorem completeMessage_element {t : Tag} {cs : List Node} : CompleteMessage ok [.element t cs] ↔
    if isInsertion ⟨t, cs⟩ then CompleteInsertion ok ⟨t, cs⟩ else CompleteMessage ok cs := by
  simp only [CompleteMessage, inserted_element]
  split <;> simp

theorem completeInsertion_value {e : Element} (h : e.is schematronUri "value-of" = true) :
    CompleteInsertion ok e ↔ ∃ source ∈ e.attr "select", ok source := by
  have hname : e.is schematronUri "name" = false := QName.is_of_ne h (by decide)
  constructor
  · exact fun he => he.value h
  · exact fun hselect => ⟨fun _ => hselect, by simp [hname]⟩

theorem completeInsertion_name {e : Element} (h : e.is schematronUri "name" = true) :
    CompleteInsertion ok e ↔ ∀ source ∈ e.attr "path", ok source := by
  have hvalue : e.is schematronUri "value-of" = false := QName.is_of_ne h (by decide)
  constructor
  · exact fun he => he.name h
  · exact fun hpath => ⟨by simp [hvalue], fun _ => hpath⟩

end

section
variable {check : String → Except TransformError Unit}

def Accepted (check : String → Except TransformError Unit) (source : String) : Prop :=
  check source = .ok ()

theorem need_eq_ok {cause : TransformError} {o : Option String} {v : String} :
    (need cause o : Except TransformError String) = .ok v ↔ o = some v := by
  cases o <;> simp [need, throw_eq_ok]

theorem succeeds_expression {source : String} :
    Succeeds (expression check source) ↔ Accepted check source := by
  constructor
  · rintro ⟨x, h⟩
    exact (expression_eq_ok h).1
  · exact fun h => ⟨⟨source⟩, check_bind_eq_ok.2 ⟨h, rfl⟩⟩

theorem succeeds_expression? {source : Option String} :
    Succeeds (expression? check source) ↔ ∀ s ∈ source, Accepted check s := by
  cases source with
  | none => simp [expression?, Succeeds]
  | some s => simp [expression?, succeeds_map, succeeds_expression]

theorem succeeds_binding {e : Element} :
    Succeeds (binding check e) ↔ CompleteLet (Accepted check) e := by
  simp only [binding, succeeds_bind, need_eq_ok, succeeds_pure, and_true, exists_eq_ok,
    succeeds_expression]
  constructor
  · rintro ⟨name, hname, hvalue⟩
    exact ⟨⟨name, hname⟩, hvalue⟩
  · rintro ⟨⟨name, hname⟩, hvalue⟩
    exact ⟨name, hname, hvalue⟩

theorem succeeds_bindings {e : Element} : Succeeds (bindings check e) ↔
    ∀ b ∈ e.childrenNamed schematronUri "let", CompleteLet (Accepted check) b := by
  simp only [bindings, succeeds_mapM, succeeds_binding]

mutual

-- The cases are those of `part`; only markup that is no insertion is looked into.

theorem succeeds_part (n : Node) :
    Succeeds (part check n) ↔ CompleteMessage (Accepted check) [n] := by
  cases n with
  | text s =>
    rw [part]
    exact iff_of_true (succeeds_pure _) completeMessage_text
  | element t cs =>
    rw [part, completeMessage_element]
    cases hvalue : t.name.is schematronUri "value-of" with
    | true =>
      have hinsertion : isInsertion ⟨t, cs⟩ = true := by
        simp [isInsertion, Element.is, Element.name, hvalue]
      rw [if_pos rfl, if_pos hinsertion, completeInsertion_value (e := ⟨t, cs⟩) hvalue]
      simp only [succeeds_bind, need_eq_ok, succeeds_pure, and_true, exists_eq_ok,
        succeeds_expression]
      rfl
    | false =>
      cases hname : t.name.is schematronUri "name" with
      | true =>
        have hinsertion : isInsertion ⟨t, cs⟩ = true := by
          simp [isInsertion, Element.is, Element.name, hname]
        rw [if_neg (by simp), if_pos rfl, if_pos hinsertion,
          completeInsertion_name (e := ⟨t, cs⟩) hname]
        simp only [succeeds_bind, succeeds_pure, and_true, exists_eq_ok, succeeds_expression?]
        rfl
      | false =>
        have hinsertion : isInsertion ⟨t, cs⟩ = false := by
          simp [isInsertion, Element.is, Element.name, hvalue, hname]
        rw [if_neg (by simp), if_neg (by simp), if_neg (by simp [hinsertion])]
        exact succeeds_parts cs

theorem succeeds_parts (ns : List Node) :
    Succeeds (parts check ns) ↔ CompleteMessage (Accepted check) ns := by
  cases ns with
  | nil =>
    rw [parts]
    exact iff_of_true (succeeds_pure _) completeMessage_nil
  | cons n ns =>
    rw [parts, completeMessage_cons, ← succeeds_part n, ← succeeds_parts ns]
    simp only [succeeds_bind, succeeds_pure, and_true, exists_eq_ok, exists_and_right]

end

theorem succeeds_test {kind : TestKind} {e : Element} :
    Succeeds (test check kind e) ↔ CompleteTest (Accepted check) e := by
  simp only [test, succeeds_bind, need_eq_ok, succeeds_pure, and_true, exists_eq_ok,
    exists_and_right, succeeds_expression, succeeds_expression?, succeeds_parts]
  constructor
  · rintro ⟨source, hsource, htest, hsubject, hmessage⟩
    exact ⟨⟨source, hsource, htest⟩, hsubject, hmessage⟩
  · rintro ⟨⟨source, hsource, htest⟩, hsubject, hmessage⟩
    exact ⟨source, hsource, htest, hsubject, hmessage⟩

/-- What is compiled as a test is a test. -/
theorem map_snd_testKind? (es : List Element) :
    (es.filterMap fun e => (testKind? e).map fun k => (k, e)).map (·.2) = es.filter isTest := by
  rw [List.map_filterMap, ← List.filterMap_eq_filter]
  apply List.filterMap_congr
  intro e _
  cases ha : e.is schematronUri "assert" <;> cases hr : e.is schematronUri "report" <;>
    simp [testKind?, isTest, Option.guard, ha, hr]

theorem succeeds_tests {es : List Element} : Succeeds (tests check es) ↔
    ∀ e ∈ es, isTest e = true → CompleteTest (Accepted check) e := by
  simp only [tests, succeeds_mapM, succeeds_test]
  rw [← List.forall_mem_map (f := Prod.snd) (P := CompleteTest (Accepted check)),
    map_snd_testKind?]
  simp only [List.mem_filter, and_imp]

theorem succeeds_rule {e : Element} :
    Succeeds (rule check e) ↔ CompleteRule (Accepted check) e := by
  simp only [rule, succeeds_bind, need_eq_ok, succeeds_pure, and_true, exists_eq_ok,
    exists_and_right, succeeds_expression, succeeds_expression?, succeeds_tests, succeeds_bindings]
  constructor
  · rintro ⟨context, hcontext, htests, hselection, hsubject, hlets⟩
    exact ⟨⟨context, hcontext, hselection⟩, hsubject, hlets, htests⟩
  · rintro ⟨⟨context, hcontext, hselection⟩, hsubject, hlets, htests⟩
    exact ⟨context, hcontext, htests, hselection, hsubject, hlets⟩

theorem source_of_rule {e : Element} {r : Rule} (h : rule check e = .ok r) :
    [r.selection.source] = ((e.attr "context").map Selection.ofContext).toList := by
  simp only [rule, bind_eq_ok, need_eq_ok] at h
  obtain ⟨context, hcontext, ts, _, selection, hs, subject, _, lets, _, h⟩ := h
  cases h
  rw [hcontext, (expression_eq_ok hs).2]
  rfl

theorem sources_of_rules {e : Element} {rules : List Rule}
    (h : (e.childrenNamed schematronUri "rule").mapM (rule check) = .ok rules) :
    rules.map (·.selection.source) = selections e := by
  rw [selections, List.map_eq_flatMap]
  exact flatMap_of_mapM h fun _ _ => source_of_rule

theorem succeeds_pattern {e : Element} :
    Succeeds (pattern check e) ↔ CompletePattern (Accepted check) e := by
  simp only [pattern, succeeds_bind, succeeds_pure, and_true, exists_eq_ok, exists_and_right,
    succeeds_expression?, succeeds_bindings]
  constructor
  · rintro ⟨rules, hrules, hselection, hlets⟩
    rw [sources_of_rules hrules] at hselection
    exact ⟨fun r hr => succeeds_rule.1 (ok_of_mem_mapM hrules hr), hselection, hlets⟩
  · rintro ⟨hrules, hselection, hlets⟩
    obtain ⟨rules, h⟩ := succeeds_mapM.2 fun r hr => succeeds_rule.2 (hrules r hr)
    rw [← sources_of_rules h] at hselection
    exact ⟨rules, h, hselection, hlets⟩

theorem succeeds_diagnostic {e : Element} :
    Succeeds (diagnostic check e) ↔ CompleteDiagnostic (Accepted check) e := by
  simp only [diagnostic, succeeds_bind, need_eq_ok, succeeds_pure, and_true, exists_eq_ok,
    exists_and_right, succeeds_parts]
  constructor
  · rintro ⟨hid, hmessage⟩
    exact ⟨hid, hmessage⟩
  · rintro ⟨hid, hmessage⟩
    exact ⟨hid, hmessage⟩

theorem succeeds_namespaceBinding {e : Element} :
    Succeeds (namespaceBinding e : Except TransformError (String × String)) ↔
      (∃ pre, e.attr "prefix" = some pre) ∧ ∃ uri, e.attr "uri" = some uri := by
  unfold namespaceBinding
  cases e.attr "prefix" <;> cases e.attr "uri" <;> simp [Succeeds, throw_eq_ok]

theorem succeeds_phase? {asked : Option String} {e : Element} :
    Succeeds (phase? e asked : Except TransformError (Option (String × Element))) ↔
      ∀ id ∈ effectivePhase asked e, id ≠ "#ALL" →
        ∃ p ∈ e.childrenNamed schematronUri "phase", p.attr "id" = some id := by
  rw [phase?_eq]
  cases heffective : effectivePhase asked e with
  | none => simp [Succeeds]
  | some id =>
    by_cases hall : id = "#ALL"
    · simp [hall, Succeeds, Option.filter]
    · have hfilter : (some id).filter (· != "#ALL") = some id := by
        simp [Option.filter, hall]
      simp only [hfilter]
      cases hfind : (e.childrenNamed schematronUri "phase").find? (·.attr "id" == some id) with
      | none =>
        simpa [Succeeds, throw_eq_ok, hall] using hfind
      | some p =>
        have hid : p.attr "id" = some id := by
          simpa using List.find?_some hfind
        refine iff_of_true (succeeds_pure _) ?_
        intro _ hrequest _
        obtain rfl := Option.mem_some_iff.1 hrequest
        exact ⟨p, List.mem_of_find?_eq_some hfind, hid⟩

theorem map_snd_phase? {asked : Option String} {e : Element} {phase : Option (String × Element)}
    (h : phase? e asked = (.ok phase : Except TransformError _)) :
    phase.map (·.2) = selectedPhase? asked e := by
  rw [phase?_eq] at h
  unfold selectedPhase?
  cases hid : (effectivePhase asked e).filter (· != "#ALL") with
  | none =>
    rw [hid] at h
    cases h
    rfl
  | some id =>
    simp only [hid] at h
    rw [Option.bind_some]
    cases hfind : (e.childrenNamed schematronUri "phase").find? (·.attr "id" == some id) with
    | none => simp [hfind, throw_eq_ok] at h
    | some p =>
      simp only [hfind] at h
      cases h
      rfl

theorem phase?_of_selectedPhase? {m : Type → Type} [Monad m] [MonadExceptOf TransformError m]
    {asked : Option String} {e p : Element} (h : selectedPhase? asked e = some p) :
    ∃ id, (phase? e asked : m _) = pure (some (id, p)) := by
  obtain ⟨id, hid, hfind⟩ := Option.bind_eq_some_iff.1 h
  refine ⟨id, ?_⟩
  simp only [phase?_eq, hid, hfind]

theorem isActive_eq (phase : Option (String × Element)) :
    isActive phase = isActiveIn (phase.map (·.2)) := by
  funext e
  cases phase with
  | none => rfl
  | some p => simp only [isActive, isActiveIn, Option.all_some, Option.map_some, contains_activeIds]

theorem succeeds_phaseBindings {phase : Option (String × Element)} :
    Succeeds (phaseBindings check phase) ↔ ∀ p ∈ phase.map (·.2),
      ∀ b ∈ p.childrenNamed schematronUri "let", CompleteLet (Accepted check) b := by
  cases phase with
  | none => simp [phaseBindings, Succeeds]
  | some p => simp [phaseBindings, succeeds_bindings]

theorem diagnostics_of_test {kind : TestKind} {e : Element} {t : Test}
    (h : test check kind e = .ok t) :
    t.diagnostics = (e.attr "diagnostics").elim [] Text.words := by
  simp only [test, bind_eq_ok] at h
  obtain ⟨source, _, x, _, subject, _, message, _, h⟩ := h
  cases h
  rfl

theorem diagnostics_of_rule {e : Element} {r : Rule} (h : rule check e = .ok r) :
    r.tests.flatMap (·.diagnostics) = (e.elements.filter isTest).flatMap fun t =>
      (t.attr "diagnostics").elim [] Text.words := by
  simp only [rule, bind_eq_ok] at h
  obtain ⟨context, _, ts, hts, selection, _, subject, _, lets, _, h⟩ := h
  cases h
  rw [← map_snd_testKind?, List.flatMap_map]
  exact flatMap_of_mapM hts fun _ _ => diagnostics_of_test

theorem askedBy_of_pattern {e : Element} {p : Pattern} (h : pattern check e = .ok p) :
    (p.rules.flatMap fun r => r.tests.flatMap (·.diagnostics)) = askedBy e := by
  simp only [pattern, bind_eq_ok] at h
  obtain ⟨rules, hrules, selection, _, lets, _, h⟩ := h
  cases h
  exact flatMap_of_mapM hrules fun _ _ => diagnostics_of_rule

theorem id_of_diagnostic {e : Element} {d : String × List MessagePart}
    (h : diagnostic check e = .ok d) : [d.1] = (e.attr "id").toList := by
  simp only [diagnostic, bind_eq_ok, need_eq_ok] at h
  obtain ⟨id, hid, message, _, h⟩ := h
  cases h
  rw [hid]
  rfl

theorem missingDiagnostic?_eq_none {es ds : List Element} {patterns : List Pattern}
    {diagnostics : List (String × List MessagePart)} (hes : es.mapM (pattern check) = .ok patterns)
    (hds : ds.mapM (diagnostic check) = .ok diagnostics) :
    missingDiagnostic? patterns diagnostics = none ↔
      ∀ p ∈ es, ∀ id ∈ askedBy p, ∃ d ∈ ds, d.attr "id" = some id := by
  have hids : diagnostics.map (·.1) = ds.flatMap fun d => (d.attr "id").toList := by
    rw [List.map_eq_flatMap]
    exact flatMap_of_mapM hds fun _ _ => id_of_diagnostic
  have hany (id : String) : diagnostics.any (·.1 == id) = true ↔
      ∃ d ∈ ds, d.attr "id" = some id := by
    have hmem : id ∈ diagnostics.map (·.1) ↔ ∃ d ∈ ds, d.attr "id" = some id := by
      simp [hids, List.mem_flatMap]
    rw [← hmem]
    simp
  simp only [missingDiagnostic?, flatMap_of_mapM hes fun _ _ => askedBy_of_pattern,
    List.find?_eq_none, List.mem_flatMap, Bool.not_eq_true', Bool.not_eq_false, hany]
  constructor
  · exact fun h p hp id hid => h id ⟨p, hp, hid⟩
  · rintro h id ⟨p, hp, hid⟩
    exact h p hp id hid

/-- A schema compiles exactly if it is complete. -/
theorem succeeds_schema {asked : Option String} {e : Element} :
    Succeeds (schema check asked e) ↔ IsComplete (Accepted check) asked e := by
  constructor
  · rintro ⟨v, h⟩
    obtain ⟨phase, hphase, hv⟩ := schema_eq_ok_iff.1 h
    obtain ⟨own, added, hown, hadded, _⟩ := hv.lets
    have hpatterns := hv.patterns
    rw [isActive_eq, map_snd_phase? hphase] at hpatterns
    constructor
    case isSchema => exact hv.isSchema
    case namespaces =>
      exact fun n hn => succeeds_namespaceBinding.1 (ok_of_mem_mapM hv.namespaces hn)
    case phase => exact succeeds_phase?.1 ⟨phase, hphase⟩
    case lets => exact succeeds_bindings.1 ⟨own, hown⟩
    case phaseLets =>
      rw [← map_snd_phase? hphase]
      exact succeeds_phaseBindings.1 ⟨added, hadded⟩
    case patterns => exact fun p hp => succeeds_pattern.1 (ok_of_mem_mapM hpatterns hp)
    case diagnostics => exact fun d hd => succeeds_diagnostic.1 (ok_of_mem_mapM hv.diagnostics hd)
    case declared => exact (missingDiagnostic?_eq_none hpatterns hv.diagnostics).1 hv.noneMissing
    case nameOfNode => exact succeeds_expression.1 ⟨_, hv.nameOfNode⟩
  · intro h
    obtain ⟨namespaces, hnamespaces⟩ :=
      succeeds_mapM.2 fun n hn => succeeds_namespaceBinding.2 (h.namespaces n hn)
    obtain ⟨own, hown⟩ := succeeds_bindings.2 h.lets
    obtain ⟨phase, hphase⟩ := succeeds_phase?.2 h.phase
    have hphaseLets := h.phaseLets
    rw [← map_snd_phase? hphase] at hphaseLets
    obtain ⟨added, hadded⟩ := succeeds_phaseBindings.2 hphaseLets
    obtain ⟨patterns, hpatterns⟩ :=
      succeeds_mapM.2 fun p hp => succeeds_pattern.2 (h.patterns p hp)
    obtain ⟨diagnostics, hdiagnostics⟩ :=
      succeeds_mapM.2 fun d hd => succeeds_diagnostic.2 (h.diagnostics d hd)
    obtain ⟨nameOfNode, hname⟩ := succeeds_expression.2 h.nameOfNode
    have hmissing := (missingDiagnostic?_eq_none hpatterns hdiagnostics).2 h.declared
    let v : Validator := {
      title := titleOf e
      schemaVersion := e.attr "schemaVersion"
      phase := phase.elim allPhases (·.1)
      namespaces
      lets := own ++ added
      patterns, diagnostics, nameOfNode }
    refine ⟨v, schema_eq_ok_iff.2 ⟨phase, hphase, ?_⟩⟩
    have hactive : ((e.childrenNamed schematronUri "pattern").filter (isActive phase)).mapM
        (pattern check) = .ok patterns := by
      rw [isActive_eq, map_snd_phase? hphase]
      exact hpatterns
    exact ⟨h.isSchema, hnamespaces, ⟨own, added, hown, hadded, rfl⟩, hactive, hdiagnostics, hmissing,
      hname, rfl, rfl, rfl⟩

end

def activePart (asked : Option String) (e : Element) : Element :=
  { e with children := e.children.filter fun n => n.element?.all fun p =>
      ! p.is schematronUri "pattern" || isActiveIn (selectedPhase? asked e) p }

theorem childrenNamed_activePart {asked : Option String} {e : Element} (l : String) :
    (activePart asked e).childrenNamed schematronUri l =
      (e.childrenNamed schematronUri l).filter fun p =>
        ! p.is schematronUri "pattern" || isActiveIn (selectedPhase? asked e) p := by
  rw [Element.childrenNamed, Element.elements, activePart,
    Expansion.elements_filter (q := fun p => ! p.is schematronUri "pattern" ||
      isActiveIn (selectedPhase? asked e) p) fun _ _ => rfl,
    List.filter_filter, Element.childrenNamed, Element.elements, List.filter_filter]
  simp only [Bool.and_comm]

theorem childrenNamed_activePart_of_ne {asked : Option String} {e : Element} {l : String}
    (hl : l ≠ "pattern") : (activePart asked e).childrenNamed schematronUri l =
      e.childrenNamed schematronUri l := by
  rw [childrenNamed_activePart, List.filter_eq_self]
  intro p hp
  have hother : p.is schematronUri "pattern" = false :=
    QName.is_of_ne (List.mem_filter.1 hp).2 hl.symm
  rw [hother]
  rfl

theorem childrenNamed_activePart_pattern {asked : Option String} {e : Element} :
    (activePart asked e).childrenNamed schematronUri "pattern" = activePatterns asked e := by
  rw [childrenNamed_activePart, activePatterns]
  apply List.filter_congr
  intro p hp
  rw [(List.mem_filter.1 hp).2]
  rfl

/-- Patterns that are not active do not matter: not for whether a schema compiles, nor for what it
compiles to, nor for the expressions that the compiler looks at. -/
theorem schema_activePart {m : Type → Type} [Monad m] [LawfulMonad m]
    [MonadExceptOf TransformError m] (check : String → m Unit) (asked : Option String)
    (e : Element) : schema check asked (activePart asked e) = schema check asked e := by
  cases hselected : selectedPhase? asked e with
  | none =>
    have hself : activePart asked e = e := by
      simp [activePart, hselected, isActiveIn]
    rw [hself]
  | some p =>
    have hnamed {l : String} (hl : l ≠ "pattern") :
        (activePart asked e).childrenNamed schematronUri l = e.childrenNamed schematronUri l :=
      childrenNamed_activePart_of_ne hl
    have hbindings : bindings check (activePart asked e) = bindings check e := by
      rw [bindings, hnamed (by decide), bindings]
    have htitle : titleOf (activePart asked e) = titleOf e := by
      rw [titleOf, Element.firstChild_eq_head?, hnamed (by decide), ← Element.firstChild_eq_head?,
        titleOf]
    have hphase : (phase? (activePart asked e) asked : m _) = phase? e asked := by
      rw [phase?, hnamed (by decide), phase?]
      rfl
    obtain ⟨id, hid⟩ := phase?_of_selectedPhase? (m := m) hselected
    have hactive : ((activePart asked e).childrenNamed schematronUri "pattern").filter
        (isActive (some (id, p))) =
          (e.childrenNamed schematronUri "pattern").filter (isActive (some (id, p))) := by
      rw [childrenNamed_activePart_pattern, activePatterns, hselected, isActive_eq,
        List.filter_filter]
      simp
    simp only [schema, hphase, hid, pure_bind, hactive, hbindings, htitle]
    rw [hnamed (by decide), hnamed (by decide)]
    rfl

end Schematron.Compilation

namespace Schematron.Processor
variable {D : Type}

/-- Whether an expression can be handed to a processor and is not refused by it. -/
def Accepts (p : Processor D) (source : String) : Prop :=
  Char.ofNat 0 ∉ source.toList ∧ p.refusal source = none

theorem compileExpression_eq_ok {p : Processor D} {source : String} :
    p.compileExpression source = .ok () ↔ p.Accepts source := by
  unfold compileExpression argument Accepts
  by_cases hnul : Char.ofNat 0 ∈ source.toList
  · simp [hnul]
  · cases p.refusal source <;> simp [hnul]

end Schematron.Processor

namespace Schematron.Validator

/-- For any processor, a tree compiles for a phase exactly if it is a complete schema for it, and
what stands in patterns that are not active changes neither the validator nor the error. -/
theorem ofSchema_iff_isComplete {D : Type} (p : Processor D) (asked : Option String)
    (e : Xml.Element) :
    ((∃ v, ofSchema p asked e = .ok v) ↔ Compilation.IsComplete p.Accepts asked e) ∧
      ofSchema p asked (Compilation.activePart asked e) = ofSchema p asked e := by
  constructor
  · have haccepted : Compilation.Accepted (fun source =>
        (p.compileExpression source).mapError TransformError.ofXPath) = p.Accepts := by
      funext source
      rw [Compilation.Accepted, Sequencing.mapError_eq_ok, Processor.compileExpression_eq_ok]
    rw [← haccepted, ← Compilation.succeeds_schema]
    simp only [ofSchema, Sequencing.mapError_eq_ok, Sequencing.exists_eq_ok]
  · simp only [ofSchema, Compilation.schema_activePart]

end Schematron.Validator
