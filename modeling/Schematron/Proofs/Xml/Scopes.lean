import Schematron.Proofs.Xml.Scanned
import Schematron.Proofs.Xml.Tags

/-!
# Names and their bindings

A name is written with the first prefix that is bound to its namespace. It is read back where that
prefix is bound to the same namespace, whatever else is in scope. So what matters of a scope is what
it binds each prefix to (`lookup?`), and an element that declares what its parent does not bind in
the same way has the same bindings as before (`lookup?_rewritten`).
-/
namespace Schematron.Xml
open Schematron.Text Scan

def lookup? (scope : List Namespace) (p : Option String) : Option Namespace :=
  scope.find? (·.namespacePrefix == p)

theorem lookup?_eq_some {scope : List Namespace} {p : Option String} {m : Namespace}
    (h : lookup? scope p = some m) : m ∈ scope ∧ m.namespacePrefix = p :=
  ⟨List.mem_of_find?_eq_some h, by simpa using List.find?_some h⟩

theorem lookup?_eq_none {scope : List Namespace} {p : Option String} :
    lookup? scope p = none ↔ ∀ m ∈ scope, m.namespacePrefix ≠ p := by
  simp [lookup?]

/-- Where no prefix is bound twice, every binding is the one of its prefix. -/
theorem lookup?_of_mem {scope : List Namespace} (h : (scope.map (·.namespacePrefix)).Nodup)
    {m : Namespace} (hm : m ∈ scope) : lookup? scope m.namespacePrefix = some m := by
  induction scope with
  | nil => cases hm
  | cons n scope ih =>
    rw [List.map_cons, List.nodup_cons] at h
    rcases List.mem_cons.1 hm with rfl | hm
    · simp [lookup?]
    · have hne : n.namespacePrefix ≠ m.namespacePrefix := by
        intro heq
        exact h.1 (heq ▸ List.mem_map_of_mem hm)
      rw [lookup?, List.find?_cons_of_neg (by simpa using hne)]
      exact ih h.2 hm

theorem lookup?_inherit (own inherited : List Namespace) (p : Option String) :
    lookup? (inherited.foldl (fun scope m =>
        if scope.any (·.namespacePrefix == m.namespacePrefix) then scope else scope ++ [m]) own) p =
      (lookup? own p).or (lookup? inherited p) := by
  induction inherited generalizing own with
  | nil => simp [lookup?]
  | cons m inherited ih =>
    rw [List.foldl_cons, ih]
    by_cases hp : m.namespacePrefix = p
    · subst hp
      have hm : lookup? (m :: inherited) m.namespacePrefix = some m := by simp [lookup?]
      split
      · rename_i hany
        cases hown : lookup? own m.namespacePrefix with
        | some n => rfl
        | none =>
          rw [lookup?_eq_none] at hown
          simp only [List.any_eq_true, beq_iff_eq] at hany
          obtain ⟨n, hn, heq⟩ := hany
          exact absurd heq (hown n hn)
      · simp [lookup?, List.find?_append]
    · have hm : lookup? (m :: inherited) p = lookup? inherited p := by simp [lookup?, hp]
      rw [hm]
      split
      · rfl
      · simp [lookup?, List.find?_append, hp]

/-- A prefix is bound by an element or else inherited. -/
theorem lookup?_scopeWith (own inherited : List Namespace) (p : Option String) :
    lookup? (scopeWith own inherited) p = (lookup? own p).or (lookup? inherited p) := by
  rw [scopeWith]
  split
  · rename_i hempty
    rw [List.isEmpty_iff.1 hempty]
    rfl
  · exact lookup?_inherit own inherited p

theorem mem_inherit {own inherited : List Namespace} {m : Namespace}
    (h : m ∈ inherited.foldl (fun scope m =>
      if scope.any (·.namespacePrefix == m.namespacePrefix) then scope else scope ++ [m]) own) :
    m ∈ own ∨ m ∈ inherited := by
  induction inherited generalizing own with
  | nil => exact .inl h
  | cons n inherited ih =>
    rw [List.mem_cons]
    rcases ih h with h | h
    · dsimp only at h
      split at h
      · exact .inl h
      · rcases List.mem_append.1 h with h | h
        · exact .inl h
        · exact .inr (.inl (List.mem_singleton.1 h))
    · exact .inr (.inr h)

theorem mem_scopeWith {own inherited : List Namespace} {m : Namespace}
    (h : m ∈ scopeWith own inherited) : m ∈ own ∨ m ∈ inherited := by
  rw [scopeWith] at h
  split at h
  · exact .inr h
  · exact mem_inherit h

/-- What an element binds in another way than its parent is enough to declare, where the parent has
the bindings that it had. -/
theorem lookup?_rewritten {scope inherited inherited' : List Namespace}
    (hscope : (scope.map (·.namespacePrefix)).Nodup)
    (hparent : (inherited.map (·.namespacePrefix)).Nodup)
    (hkept : ∀ p, lookup? scope p = none → lookup? inherited p = none)
    (hsame : ∀ p, lookup? inherited' p = lookup? inherited p) (p : Option String) :
    lookup? (scopeWith (scope.filter (! inherited.contains ·)) inherited') p = lookup? scope p := by
  have hnew : ((scope.filter (! inherited.contains ·)).map (·.namespacePrefix)).Nodup :=
    hscope.sublist (List.filter_sublist.map _)
  rw [lookup?_scopeWith, hsame]
  cases hp : lookup? scope p with
  | none =>
    have hnone : lookup? (scope.filter (! inherited.contains ·)) p = none := by
      rw [lookup?_eq_none] at hp ⊢
      exact fun m hm => hp m (List.mem_of_mem_filter hm)
    rw [hnone, hkept p hp]
    rfl
  | some m =>
    obtain ⟨hm, rfl⟩ := lookup?_eq_some hp
    by_cases hin : m ∈ inherited
    · -- the parent binds the prefix in the same way, so it is not declared again
      have hnone : lookup? (scope.filter (! inherited.contains ·)) m.namespacePrefix = none := by
        rw [lookup?_eq_none]
        intro n hn hprefixed
        obtain ⟨hn, hnot⟩ := List.mem_filter.1 hn
        have heq := lookup?_of_mem hscope hn
        rw [hprefixed, hp, Option.some.injEq] at heq
        subst heq
        simp [hin] at hnot
      rw [hnone, lookup?_of_mem hparent hin]
      rfl
    · have hmem : m ∈ scope.filter (! inherited.contains ·) := by simp [hm, hin]
      rw [lookup?_of_mem hnew hmem]
      rfl

structure Namespace.IsBinding (m : Namespace) : Prop where
  name : m.namespacePrefix.all isNamePart = true
  ne_xml : m.namespacePrefix ≠ some "xml"
  uri_ne_xml : m.uri ≠ xmlUri
  uri_ne_xmlns : m.uri ≠ xmlnsUri

theorem isBinding_declare? {n : RawName} {value : String} {own own' : List Namespace}
    (hn : n.IsWritable) (hown : ∀ m ∈ own, m.IsBinding) (h : declare? n value own = some own') :
    ∀ m ∈ own', m.IsBinding := by
  have hnew {m : Namespace} (hm : m.IsBinding) : ∀ m' ∈ own ++ [m], m'.IsBinding := by
    simpa [or_imp, forall_and] using ⟨hown, hm⟩
  unfold declare? at h
  split at h
  · split at h
    · cases h
    rename_i hxmlns
    split at h
    · split at h
      · cases h
        exact hown
      · cases h
    rename_i hlocal
    split at h
    · cases h
    rename_i hxml
    split at h
    · cases h
    cases h
    exact hnew ⟨hn.2, by simpa using hlocal, by simpa using hxml, by simpa using hxmlns⟩
  · split at h
    · cases h
    rename_i huri
    cases h
    simp only [Bool.or_eq_true, beq_iff_eq, not_or] at huri
    exact hnew ⟨rfl, by simp, huri.1, huri.2⟩

theorem isBinding_declarations {values : List (RawName × String)} {own own' : List Namespace}
    (hvalues : ∀ v ∈ values, v.1.IsWritable) (hown : ∀ m ∈ own, m.IsBinding)
    (h : values.foldlM (fun own (m, v) => declare? m v own) own = some own') :
    ∀ m ∈ own', m.IsBinding := by
  induction values generalizing own with
  | nil =>
    cases h
    exact hown
  | cons v values ih =>
    rw [List.foldlM_cons, Option.bind_eq_bind, Option.bind_eq_some_iff] at h
    obtain ⟨next, hnext, h⟩ := h
    exact ih (fun w hw => hvalues w (List.mem_cons_of_mem v hw))
      (isBinding_declare? (hvalues v List.mem_cons_self) hown hnext) h

/-- The prefixes that are declared; the default namespace has none. -/
def Namespace.prefixes (ns : List Namespace) : List String := ns.filterMap (·.namespacePrefix)

theorem nodup_prefixes_concat {ns : List Namespace} {n : Namespace}
    (hns : (Namespace.prefixes ns).Nodup)
    (hnew : ∀ m ∈ ns, m.namespacePrefix ≠ n.namespacePrefix) :
    (Namespace.prefixes (ns ++ [n])).Nodup := by
  rw [Namespace.prefixes, List.filterMap_append]
  cases hn : n.namespacePrefix with
  | none => simpa [Namespace.prefixes, hn] using hns
  | some p =>
    have hfresh : ∀ q ∈ Namespace.prefixes ns, q ≠ p := by
      rintro q hq rfl
      obtain ⟨m, hm, hmq⟩ := List.mem_filterMap.1 hq
      exact hnew m hm (hmq.trans hn.symm)
    rw [List.filterMap_cons_some hn, List.nodup_append]
    refine ⟨hns, List.nodup_singleton p, fun q hq p' hp' => ?_⟩
    rw [List.mem_singleton.1 hp']
    exact hfresh q hq

theorem nodup_prefixes_declare? {n : RawName} {value : String} {own own' : List Namespace}
    (hown : (Namespace.prefixes own).Nodup) (h : declare? n value own = some own') :
    (Namespace.prefixes own').Nodup := by
  unfold declare? at h
  split at h
  · split at h
    · cases h
    split at h
    · split at h
      · cases h
        exact hown
      · cases h
    split at h
    · cases h
    split at h
    · cases h
    rename_i hfresh
    cases h
    exact nodup_prefixes_concat hown (by simpa using hfresh)
  · split at h
    · cases h
    · cases h
      simpa [Namespace.prefixes] using hown

theorem nodup_prefixes_declarations {values : List (RawName × String)} {own own' : List Namespace}
    (hown : (Namespace.prefixes own).Nodup)
    (h : values.foldlM (fun own (m, v) => declare? m v own) own = some own') :
    (Namespace.prefixes own').Nodup := by
  induction values generalizing own with
  | nil =>
    cases h
    exact hown
  | cons v values ih =>
    rw [List.foldlM_cons, Option.bind_eq_bind, Option.bind_eq_some_iff] at h
    obtain ⟨next, hnext, h⟩ := h
    exact ih (nodup_prefixes_declare? hown hnext) h

theorem nodup_prefixes_inherit {own : List Namespace} (hown : (Namespace.prefixes own).Nodup)
    (inherited : List Namespace) : (Namespace.prefixes (inherited.foldl (fun scope m =>
      if scope.any (·.namespacePrefix == m.namespacePrefix) then scope else scope ++ [m])
        own)).Nodup := by
  induction inherited generalizing own with
  | nil => exact hown
  | cons m inherited ih =>
    rw [List.foldl_cons]
    apply ih
    split
    · exact hown
    · rename_i hfresh
      exact nodup_prefixes_concat hown (by simpa using hfresh)

/-- Of what an element binds in another way than its parent, no prefix is bound twice. -/
theorem nodup_prefixes_scopeWith {own : List Namespace} (hown : (Namespace.prefixes own).Nodup)
    (inherited : List Namespace) :
    (Namespace.prefixes ((scopeWith own inherited).filter (! inherited.contains ·))).Nodup := by
  rw [scopeWith]
  split
  · have hnone : inherited.filter (! inherited.contains ·) = [] := by simp
    rw [hnone]
    exact List.nodup_nil
  · exact (nodup_prefixes_inherit hown inherited).sublist (List.filter_sublist.filterMap _)

/-- A written declaration is read as it was written. -/
theorem declare?_raw {n : Namespace} (hn : n.IsBinding) {own : List Namespace}
    (hnew : ∀ m ∈ own, m.namespacePrefix ≠ n.namespacePrefix) :
    declare? n.raw.name n.uri own = some (own ++ [n]) := by
  obtain ⟨p, uri⟩ := n
  obtain ⟨_, hxml, hne, hne'⟩ := hn
  cases p with
  | none => simp [Namespace.raw, declare?, hne, hne']
  | some p =>
    have hlocal : p ≠ "xml" := fun h => hxml (congrArg some h)
    simp [Namespace.raw, declare?, hne, hne', hlocal]
    simpa using hnew

theorem declarations_raw {ns own : List Namespace} (hns : ∀ n ∈ ns, n.IsBinding)
    (hdistinct : ((own ++ ns).map (·.namespacePrefix)).Nodup) :
    (ns.map fun n => (n.raw.name, n.uri)).foldlM (fun own (m, v) => declare? m v own) own =
      some (own ++ ns) := by
  induction ns generalizing own with
  | nil => simp
  | cons n ns ih =>
    have hnew : ∀ m ∈ own, m.namespacePrefix ≠ n.namespacePrefix := by
      rw [List.map_append, List.nodup_append] at hdistinct
      intro m hm
      exact hdistinct.2.2 _ (List.mem_map_of_mem hm) _ (by simp)
    have hsplit : own ++ n :: ns = (own ++ [n]) ++ ns := by simp
    rw [hsplit] at hdistinct ⊢
    rw [← ih (fun m hm => hns m (List.mem_cons_of_mem n hm)) hdistinct, List.map_cons,
      List.foldlM_cons]
    simp only [declare?_raw (hns n List.mem_cons_self) hnew]
    rfl

def Attribute.content (a : Attribute) : (Option String × String) × String :=
  (a.name.expanded, a.value)

@[simp] theorem expanded_nameIn (scope : List Namespace) (uri : Option String) (l : String) :
    (nameIn scope uri l).expanded = (uri, l) := by
  unfold nameIn
  split
  · rfl
  · split <;> rfl

/-- A name with the prefix that names of its namespace have in a scope. -/
def QName.renamed (scope : List Namespace) (q : QName) : QName :=
  nameIn scope q.namespaceUri q.localName

def Tag.renamed (scope : List Namespace) (t : Tag) : ScopedTag :=
  ⟨t.name.renamed scope, scope, t.attributes.map fun a => ⟨a.name.renamed scope, a.value⟩⟩

@[simp] theorem QName.expanded_renamed (scope : List Namespace) (q : QName) :
    (q.renamed scope).expanded = q.expanded := expanded_nameIn scope q.namespaceUri q.localName

theorem Tag.content_renamed (scope : List Namespace) (t : Tag) :
    (t.renamed scope).attributes.map Attribute.content = t.attributes.map Attribute.content := by
  rw [Tag.renamed, List.map_map]
  refine List.map_congr_left fun a _ => ?_
  rw [Function.comp, Attribute.content, QName.expanded_renamed, Attribute.content]

structure QName.IsNamedIn (scope : List Namespace) (q : QName) : Prop where
  eq : q = nameIn scope q.namespaceUri q.localName
  localName : isNamePart q.localName = true
  bound : ∀ u, q.namespaceUri = some u → u = xmlUri ∨ ∃ m ∈ scope, m.uri = u

theorem isNamedIn_nameIn {scope : List Namespace} {uri : Option String} {l : String}
    (hl : isNamePart l = true) (hbound : ∀ u, uri = some u → u = xmlUri ∨ ∃ m ∈ scope, m.uri = u) :
    (nameIn scope uri l).IsNamedIn scope := by
  have hexpanded := expanded_nameIn scope uri l
  simp only [QName.expanded, Prod.mk.injEq] at hexpanded
  obtain ⟨huri, hlocal⟩ := hexpanded
  exact ⟨by rw [huri, hlocal], by rwa [hlocal], by rwa [huri]⟩

/-- The prefix of a name is one that is bound to its namespace. -/
theorem QName.IsNamedIn.exists_binding {scope : List Namespace} {q : QName}
    (h : q.IsNamedIn scope) {u : String} (hu : q.namespaceUri = some u) (hne : u ≠ xmlUri) :
    ∃ m ∈ scope, m.uri = u ∧ q.namespacePrefix = m.namespacePrefix := by
  obtain ⟨m, hm, hmu⟩ := (h.bound u hu).resolve_left hne
  cases hfind : scope.find? (·.uri == u) with
  | none => exact absurd hmu (by simpa using List.find?_eq_none.1 hfind m hm)
  | some n =>
    refine ⟨n, List.mem_of_find?_eq_some hfind, by simpa using List.find?_some hfind, ?_⟩
    rw [h.eq, hu]
    simp [nameIn, hne, hfind]

theorem QName.IsNamedIn.isWritable {scope : List Namespace} {q : QName} (h : q.IsNamedIn scope)
    (hscope : ∀ m ∈ scope, m.IsBinding) : q.IsWritable := by
  refine ⟨?_, h.localName⟩
  cases hu : q.namespaceUri with
  | none =>
    rw [h.eq, hu]
    rfl
  | some u =>
    by_cases hne : u = xmlUri
    · have hxml : isNamePart "xml" = true := by decide
      rw [h.eq, hu, hne]
      simpa [nameIn] using hxml
    · obtain ⟨m, hm, _, hpre⟩ := h.exists_binding hu hne
      rw [hpre]
      exact (hscope m hm).name

theorem resolve?_eq (scope : List Namespace) (pre : String) :
    resolve? scope pre = match lookup? scope (if pre.isEmpty then none else some pre) with
      | some m => some (some m.uri)
      | none => if pre.isEmpty then some none else none := rfl

/-- A written prefix is found again. -/
theorem resolve?_raw {scope : List Namespace} {q : QName}
    (hq : q.namespacePrefix.all isNamePart = true) :
    resolve? scope q.raw.pre = match lookup? scope q.namespacePrefix with
      | some m => some (some m.uri)
      | none => if q.namespacePrefix.isNone then some none else none := by
  cases hp : q.namespacePrefix with
  | none => simp [resolve?_eq, QName.raw, hp]
  | some p =>
    have hne : p ≠ "" := ne_empty_of_isNamePart (by simpa [hp] using hq)
    simp [resolve?_eq, QName.raw, hp, hne]

/-- What holds of a tag that has been read below an element with the given bindings. -/
structure ScopedTag.IsSound (inherited : List Namespace) (t : ScopedTag) : Prop where
  bindings : ∀ m ∈ t.scope, m.IsBinding
  /-- No prefix loses its binding. -/
  inherits : ∀ p, lookup? t.scope p = none → lookup? inherited p = none
  name : t.name.IsNamedIn t.scope
  name_ne_xml : t.name.namespaceUri ≠ some xmlUri
  /-- A name has no namespace only where there is no default namespace. -/
  unbound : t.name.namespaceUri = none → lookup? t.scope none = none
  attributes : ∀ a ∈ t.attributes, a.name.IsNamedIn t.scope ∧ a.name.localName ≠ "xmlns"
  distinct : (t.attributes.map (·.name.expanded)).Nodup
  /-- No prefix is declared twice. -/
  declared : (Namespace.prefixes (t.scope.filter (! inherited.contains ·))).Nodup

theorem exists_of_resolve? {scope : List Namespace} {pre : String} {uri : Option String}
    (h : resolve? scope pre = some uri) :
    (∃ m ∈ scope, uri = some m.uri) ∨ uri = none ∧ lookup? scope none = none := by
  rw [resolve?_eq] at h
  split at h
  · rename_i m hm
    cases h
    exact .inl ⟨m, (lookup?_eq_some hm).1, rfl⟩
  · split at h
    · rename_i hnone hempty
      cases h
      rw [if_pos hempty] at hnone
      exact .inr ⟨rfl, hnone⟩
    · cases h

theorem isNamedIn_attributeName? {scope : List Namespace} {n : RawName} {q : QName}
    (hn : n.IsWritable) (h : attributeName? scope n = some q) :
    q.IsNamedIn scope ∧ q.localName = n.localName := by
  have hlocal (uri : Option String) : (nameIn scope uri n.localName).localName = n.localName :=
    congrArg Prod.snd (expanded_nameIn scope uri n.localName)
  unfold attributeName? at h
  split at h
  · cases h
    exact ⟨isNamedIn_nameIn hn.2 (by simp), hlocal _⟩
  split at h
  · cases h
    have hplain : (nameIn scope none n.localName).IsNamedIn scope :=
      isNamedIn_nameIn hn.2 (by simp)
    exact ⟨hplain, rfl⟩
  · obtain ⟨uri, huri, rfl⟩ := Option.map_eq_some_iff.1 h
    refine ⟨isNamedIn_nameIn hn.2 fun u hu => ?_, hlocal _⟩
    rcases exists_of_resolve? huri with ⟨m, hm, rfl⟩ | ⟨rfl, _⟩
    · cases hu
      exact .inr ⟨m, hm, rfl⟩
    · cases hu

theorem isNamedIn_attributes? {scope : List Namespace} {values : List (RawName × String)}
    {done as : List Attribute} (hvalues : ∀ v ∈ values, v.1.IsWritable ∧ v.1.isDeclaration = false)
    (hdone : ∀ a ∈ done, a.name.IsNamedIn scope ∧ a.name.localName ≠ "xmlns")
    (hdistinct : (done.map (·.name.expanded)).Nodup)
    (h : attributes? scope done values = some as) :
    (∀ a ∈ as, a.name.IsNamedIn scope ∧ a.name.localName ≠ "xmlns") ∧
      (as.map (·.name.expanded)).Nodup := by
  induction values generalizing done with
  | nil =>
    cases h
    exact ⟨hdone, hdistinct⟩
  | cons v values ih =>
    obtain ⟨hv, hvalues⟩ := List.forall_mem_cons.1 hvalues
    rw [attributes?, Option.bind_eq_bind, Option.bind_eq_some_iff] at h
    obtain ⟨q, hq, h⟩ := h
    obtain ⟨hnamed, hlocal⟩ := isNamedIn_attributeName? hv.1 hq
    have hne : q.localName ≠ "xmlns" := by
      have hdeclaration := hv.2
      rw [RawName.isDeclaration, Bool.or_eq_false_iff, beq_eq_false_iff_ne] at hdeclaration
      rw [hlocal]
      simpa using hdeclaration.2
    split at h
    · cases h
    rename_i hnew
    refine ih hvalues ?_ ?_ h
    · exact List.forall_mem_append.2 ⟨hdone, List.forall_mem_singleton.2 ⟨hnamed, hne⟩⟩
    · rw [List.map_append, List.nodup_append]
      refine ⟨hdistinct, by simp, ?_⟩
      simp only [List.any_eq_true, Bool.and_eq_true, beq_iff_eq, not_exists, not_and] at hnew
      intro e he e' he' heq
      obtain ⟨a, ha, rfl⟩ := List.mem_map.1 he
      rw [List.map_singleton, List.mem_singleton] at he'
      subst he'
      simp only [QName.expanded, Prod.mk.injEq] at heq
      exact hnew a ha heq.1 heq.2

theorem isSound_scopedTag? {inherited : List Namespace} {n : RawName}
    {values : List (RawName × String)} {t : ScopedTag} (hinherited : ∀ m ∈ inherited, m.IsBinding)
    (hn : n.IsWritable) (hvalues : ∀ v ∈ values, v.1.IsWritable)
    (h : scopedTag? inherited n values = some t) : t.IsSound inherited := by
  unfold scopedTag? at h
  split at h
  · cases h
  simp only [Option.bind_eq_bind, Option.bind_eq_some_iff, Option.pure_def] at h
  obtain ⟨own, hown, uri, huri, as, has, h⟩ := h
  cases h
  have hbindings : ∀ m ∈ scopeWith own inherited, m.IsBinding := by
    have hall := isBinding_declarations (fun v hv => hvalues v (List.mem_of_mem_filter hv))
      (by simp) hown
    intro m hm
    exact (mem_scopeWith hm).elim (hall m) (hinherited m)
  have hnone : (Namespace.prefixes []).Nodup := List.nodup_nil
  have hprefixes := nodup_prefixes_declarations hnone hown
  have hattributes := isNamedIn_attributes? (fun v hv => ?_) (by simp) (by simp) has
  have hexpanded := expanded_nameIn (scopeWith own inherited) uri n.localName
  simp only [QName.expanded, Prod.mk.injEq] at hexpanded
  have hbound := exists_of_resolve? huri
  refine ⟨hbindings, fun p hp => ?_, isNamedIn_nameIn hn.2 fun u hu => ?_, ?_, fun hnone => ?_,
    hattributes.1, hattributes.2, nodup_prefixes_scopeWith hprefixes inherited⟩
  · rw [lookup?_scopeWith, Option.or_eq_none_iff] at hp
    exact hp.2
  · rcases hbound with ⟨m, hm, rfl⟩ | ⟨rfl, _⟩
    · cases hu
      exact .inr ⟨m, hm, rfl⟩
    · cases hu
  · rw [hexpanded.1]
    rcases hbound with ⟨m, hm, rfl⟩ | ⟨rfl, _⟩
    · simpa using (hbindings m hm).uri_ne_xml
    · simp
  · rw [hexpanded.1] at hnone
    rcases hbound with ⟨m, hm, rfl⟩ | ⟨_, h⟩
    · cases hnone
    · exact h
  · obtain ⟨hv, hdeclaration⟩ := List.mem_filter.1 hv
    exact ⟨hvalues v hv, by simpa using hdeclaration⟩

def ScopedTag.toTag (inherited : List Namespace) (t : ScopedTag) : Tag :=
  ⟨t.name, t.scope.filter (! inherited.contains ·), t.attributes⟩

section
variable {scope scope' : List Namespace} (hbindings : ∀ m ∈ scope, m.IsBinding)
  (hdistinct : (scope.map (·.namespacePrefix)).Nodup)
  (hsame : ∀ p, lookup? scope' p = lookup? scope p)
include hbindings hdistinct hsame

/-- The prefix that a name in a scope is written with is bound to its namespace. -/
theorem QName.IsNamedIn.resolve?_raw {q : QName} (h : q.IsNamedIn scope) {u : String}
    (hu : q.namespaceUri = some u) (hne : u ≠ xmlUri) :
    resolve? scope' q.raw.pre = some (some u) := by
  obtain ⟨m, hm, hmu, hpre⟩ := h.exists_binding hu hne
  rw [Xml.resolve?_raw (h.isWritable hbindings).1, hsame, hpre, lookup?_of_mem hdistinct hm, ← hmu]

/-- A name in a scope is read again as the name of an attribute, if it does not rely on the default
namespace. -/
theorem QName.IsNamedIn.attributeName?_raw {q : QName} (h : q.IsNamedIn scope)
    (hprefixed : q.namespaceUri.isSome → q.namespacePrefix.isSome) :
    attributeName? scope' q.raw = some (q.renamed scope') := by
  cases hu : q.namespaceUri with
  | none =>
    have hq : q = .plain q.localName := by rw [h.eq, hu]; rfl
    rw [hq]
    rfl
  | some u =>
    by_cases hne : u = xmlUri
    · have hq : q = ⟨some xmlUri, some "xml", q.localName⟩ := by
        rw [h.eq, hu, hne]
        simp [nameIn]
      rw [hq]
      rfl
    · obtain ⟨p, hp⟩ := Option.isSome_iff_exists.1 (hprefixed (by simp [hu]))
      have hpart : isNamePart p = true := by simpa [hp] using (h.isWritable hbindings).1
      have hxml : p ≠ "xml" := by
        obtain ⟨m, hm, _, hpre⟩ := h.exists_binding hu hne
        rw [hp] at hpre
        rintro rfl
        exact (hbindings m hm).ne_xml hpre.symm
      have hresolve := h.resolve?_raw hbindings hdistinct hsame hu hne
      have hraw : q.raw = ⟨p, q.localName⟩ := by simp [QName.raw, hp]
      rw [hraw] at hresolve ⊢
      simp [attributeName?, hxml, ne_empty_of_isNamePart hpart, hresolve, QName.renamed, hu]

end

/-- A tag that can be read again: its values hold no line ends and tabs, and no name in it relies on
a prefix that names of its kind cannot have. -/
structure Tag.IsFaithful (t : Tag) : Prop where
  uris : ∀ n ∈ t.namespaces, IsXmlValue n.uri
  values : ∀ a ∈ t.attributes, IsXmlValue a.value
  /-- The default namespace is not that of attributes. -/
  prefixed : ∀ a ∈ t.attributes, a.name.namespaceUri.isSome → a.name.namespacePrefix.isSome
  name : t.name.namespacePrefix ≠ some "xmlns"
  names : ∀ a ∈ t.attributes, a.name.namespacePrefix ≠ some "xmlns"

namespace ScopedTag.IsSound
variable {inherited : List Namespace} {t : ScopedTag}

theorem isWritable (h : t.IsSound inherited) (hfaithful : (t.toTag inherited).IsFaithful) :
    (t.toTag inherited).IsWritable where
  name := h.name.isWritable h.bindings
  namespaces n hn :=
    ⟨(h.bindings n (List.mem_of_mem_filter hn)).name, (hfaithful.uris n hn).isXmlText⟩
  attributes a ha :=
    ⟨(h.attributes a ha).1.isWritable h.bindings, (hfaithful.values a ha).isXmlText⟩

theorem isDeclaration_attributes (h : t.IsSound inherited)
    (hfaithful : (t.toTag inherited).IsFaithful) :
    ∀ a ∈ t.attributes, a.raw.name.isDeclaration = false := by
  intro a ha
  have hlocal := (h.attributes a ha).2
  have hpre := hfaithful.names a ha
  rw [RawName.isDeclaration, Bool.or_eq_false_iff, beq_eq_false_iff_ne, beq_eq_false_iff_ne]
  refine ⟨?_, hlocal⟩
  cases hp : a.name.namespacePrefix with
  | none => simp [Attribute.raw, QName.raw, hp]
  | some p => simpa [Attribute.raw, QName.raw, hp] using hpre

/-- A tag is read again with the prefixes that its names now have, where its parent has the bindings
that it had. -/
theorem scopedTag?_rewritten (h : t.IsSound inherited)
    (hfaithful : (t.toTag inherited).IsFaithful)
    (hdistinct : (t.scope.map (·.namespacePrefix)).Nodup)
    {scope' inherited' : List Namespace}
    (hscope' : scope' = scopeWith (t.toTag inherited).namespaces inherited')
    (hsame : ∀ p, lookup? scope' p = lookup? t.scope p) :
    scopedTag? inherited' t.name.raw (t.toTag inherited).values =
      some ((t.toTag inherited).renamed scope') := by
  have hfilter := Tag.filter_isDeclaration (t := t.toTag inherited)
    (h.isDeclaration_attributes hfaithful)
  have hown : ((t.toTag inherited).namespaces.map fun n => (n.raw.name, n.uri)).foldlM
      (fun own (m, v) => declare? m v own) [] = some (t.toTag inherited).namespaces := by
    refine declarations_raw (fun n hn => h.bindings n (List.mem_of_mem_filter hn)) ?_
    exact hdistinct.sublist (List.filter_sublist.map _)
  have hresolve : resolve? scope' t.name.raw.pre = some t.name.namespaceUri := by
    cases hu : t.name.namespaceUri with
    | none =>
      have hpre : t.name.namespacePrefix = none := by
        rw [h.name.eq, hu]
        rfl
      rw [Xml.resolve?_raw (by simp [hpre]), hpre, hsame, h.unbound hu]
      rfl
    | some u =>
      have hne : u ≠ xmlUri := fun heq => h.name_ne_xml (by rw [hu, heq])
      exact h.name.resolve?_raw h.bindings hdistinct hsame hu hne
  have hattributes : attributes? scope' [] (t.attributes.map fun a => (a.raw.name, a.value)) =
      some ([] ++ t.attributes.map fun a => ⟨a.name.renamed scope', a.value⟩) := by
    refine attributes?_raw (fun a ha => ?_) (by simpa using h.distinct)
    exact (h.attributes a ha).1.attributeName?_raw h.bindings hdistinct hsame
      (hfaithful.prefixed a ha)
  have hpre : t.name.raw.pre ≠ "xmlns" := by
    have hne := hfaithful.name
    cases hp : t.name.namespacePrefix with
    | none => simp [QName.raw, hp]
    | some p => simpa [QName.raw, ScopedTag.toTag, hp] using hne
  have hlocal : t.name.raw.localName = t.name.localName := rfl
  have hsplit : (t.toTag inherited).attributes = t.attributes := rfl
  simp only [scopedTag?, hfilter.1, hfilter.2, hown, ← hscope', hresolve, hsplit, hattributes,
    hlocal, Option.bind_eq_bind, Option.bind_some, List.nil_append]
  rw [if_neg (by simpa using hpre)]
  rfl

end ScopedTag.IsSound

end Schematron.Xml
