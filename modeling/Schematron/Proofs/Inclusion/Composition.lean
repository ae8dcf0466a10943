import Schematron.Proofs.Inclusion.Chains

/-!
# What inclusion puts together

Where an expansion succeeds it is a substitution: each reference gives way to the expansion of what
it names, and all other nodes stay where they are. What a reference gives way to depends on the
reference and on the location of the document that it is written in, not on the chain that led
there, since a shorter chain forbids fewer targets (`follow_mono`). So a whole document is put in as
it would be expanded by itself (`expand_eq_substitute`).
-/
namespace Schematron.Inclusion
open Xml Sequencing

/-- The declarations of a list without those of a prefix that is declared before. -/
def firstDeclarations : List Namespace → List Namespace
  | [] => []
  | n :: ns => n :: (firstDeclarations ns).filter (·.namespacePrefix != n.namespacePrefix)

/-- The declarations of an element that a child of it does not make itself. -/
def gained (ns : List Namespace) (t : Tag) : List Namespace :=
  (firstDeclarations ns).filter fun n =>
    ! t.namespaces.any (·.namespacePrefix == n.namespacePrefix)

/-- Adds a child of a root in the place of the root. A text is joined to the text before it. -/
def addChild (root : Tag) (done : List Node) : Node → List Node
  | .text s => Node.appendText s done
  | .element t cs =>
    done ++ [.element { t with namespaces := t.namespaces ++ gained root.namespaces t } cs]

/-- Adds what takes the place of a reference: the root as one element if it is included and no
schema, otherwise its children. -/
def Reference.put (r : Reference) (done : List Node) (root : Element) : List Node :=
  if r = .insert ∧ root.is schematronUri "schema" = false then done ++ [root.toNode]
  else root.children.foldl (addChild root.tag) done

theorem foldl_declarations (ns own : List Namespace) :
    ns.foldl (fun own n =>
      if own.any (·.namespacePrefix == n.namespacePrefix) then own else own ++ [n]) own =
    own ++ (firstDeclarations ns).filter fun n =>
      ! own.any (·.namespacePrefix == n.namespacePrefix) := by
  induction ns generalizing own with
  | nil => simp [firstDeclarations]
  | cons n ns ih =>
    rw [List.foldl_cons, ih, firstDeclarations]
    by_cases hn : own.any (·.namespacePrefix == n.namespacePrefix) = true
    · -- what has another prefix than `n` need not be told apart, since `n` is declared already
      have hfilter (m : Namespace) :
          ((! own.any (·.namespacePrefix == m.namespacePrefix)) &&
            m.namespacePrefix != n.namespacePrefix) =
          ! own.any (·.namespacePrefix == m.namespacePrefix) := by
        by_cases hm : m.namespacePrefix = n.namespacePrefix
        · simp [hm, hn]
        · simp [hm]
      rw [if_pos hn, List.filter_cons_of_neg (by simpa using hn), List.filter_filter]
      simp only [hfilter]
    · have hfilter (m : Namespace) :
          (! (own ++ [n]).any (·.namespacePrefix == m.namespacePrefix)) =
          ((! own.any (·.namespacePrefix == m.namespacePrefix)) &&
            m.namespacePrefix != n.namespacePrefix) := by
        rw [List.any_append, Bool.not_or]
        congr 1
        simp [bne, Bool.beq_comm]
      rw [if_neg hn, List.filter_cons_of_pos (by simpa using hn), List.filter_filter]
      simp only [hfilter, List.append_assoc, List.singleton_append]

theorem inherit_eq (ns : List Namespace) (t : Tag) :
    inherit ns t = { t with namespaces := t.namespaces ++ gained ns t } := by
  rw [inherit, foldl_declarations, gained]

theorem spliceChildren_eq_foldl (root : Tag) (done cs : List Node) :
    spliceChildren root.namespaces done cs = cs.foldl (addChild root) done := by
  fun_induction spliceChildren root.namespaces done cs with
  | case1 done => rfl
  | case2 done s rest ih => rw [ih, List.foldl_cons, addChild]
  | case3 done t cs rest ih => rw [ih, List.foldl_cons, addChild, inherit_eq]

theorem add_eq_put (r : Reference) (done : List Node) (root : Element) :
    r.add done root = r.put done root := by
  unfold Reference.add Reference.put
  cases r <;> cases root.is schematronUri "schema" <;> simp [spliceChildren_eq_foldl]

mutual

/-- Adds a node in which every reference is replaced by the root that is given for it. -/
def substituteNode (σ : Tag → Element) (done : List Node) : Node → List Node
  | .text s => done ++ [.text s]
  | .element t cs =>
    match Reference.of? t with
    | some r => r.put done (σ t)
    | none => done ++ [.element t (substituteNodes σ [] cs)]

def substituteNodes (σ : Tag → Element) (done : List Node) : List Node → List Node
  | [] => done
  | n :: ns => substituteNodes σ (substituteNode σ done n) ns

end

def substitute (σ : Tag → Element) (e : Element) : Element :=
  { e with children := substituteNodes σ [] e.children }

mutual

theorem expandNode_eq_substituteNode {f : Context → Tag → Except TransformError Element}
    {c : Context} {σ : Tag → Element} {done out : List Node} {n : Node}
    (hσ : ∀ tag ∈ references n, ∀ e, f c tag = .ok e → σ tag = e)
    (h : expandNode f c done n = .ok out) : out = substituteNode σ done n := by
  match n with
  | .text s =>
    cases h
    rfl
  | .element t cs =>
    rw [references] at hσ
    cases hr : Reference.of? t with
    | some r =>
      have href : isReference t = true := by
        rw [isReference, hr]
        rfl
      cases hp : otherParse? t with
      | some p => simp [expandNode, hr, hp] at h
      | none =>
        simp only [expandNode, hr, hp] at h
        obtain ⟨e, he, h⟩ := bind_eq_ok.1 h
        cases h
        rw [if_pos href] at hσ
        rw [add_eq_put, ← hσ t List.mem_cons_self e he]
        simp only [substituteNode, hr]
    | none =>
      simp only [expandNode, hr] at h
      obtain ⟨cs', hcs, h⟩ := bind_eq_ok.1 h
      cases h
      rw [isReference_of_none hr, if_neg (by simp)] at hσ
      rw [expandNodes_eq_substituteNodes hσ hcs]
      simp only [substituteNode, hr]

/-- Nodes that can be expanded are expanded by substitution. -/
theorem expandNodes_eq_substituteNodes {f : Context → Tag → Except TransformError Element}
    {c : Context} {σ : Tag → Element} {done out : List Node} {ns : List Node}
    (hσ : ∀ tag ∈ referencesOf ns, ∀ e, f c tag = .ok e → σ tag = e)
    (h : expandNodes f c done ns = .ok out) : out = substituteNodes σ done ns := by
  match ns with
  | [] =>
    cases h
    rfl
  | n :: ns =>
    obtain ⟨next, hn, h⟩ := bind_eq_ok.1 h
    rw [referencesOf] at hσ
    have hhead := expandNode_eq_substituteNode
      (fun tag htag => hσ tag (List.mem_append_left _ htag)) hn
    have htail := expandNodes_eq_substituteNodes
      (fun tag htag => hσ tag (List.mem_append_right _ htag)) h
    rw [htail, hhead, substituteNodes]

end

mutual

theorem expandNode_mono {f g : Context → Tag → Except TransformError Element} {c d : Context}
    (hfg : ∀ tag e, f c tag = .ok e → g d tag = .ok e) {done out : List Node} {n : Node}
    (h : expandNode f c done n = .ok out) : expandNode g d done n = .ok out := by
  match n with
  | .text s => exact h
  | .element t cs =>
    cases hr : Reference.of? t with
    | some r =>
      cases hp : otherParse? t with
      | some p => simp [expandNode, hr, hp] at h
      | none =>
        simp only [expandNode, hr, hp] at h ⊢
        obtain ⟨e, he, h⟩ := bind_eq_ok.1 h
        exact bind_eq_ok.2 ⟨e, hfg t e he, h⟩
    | none =>
      simp only [expandNode, hr] at h ⊢
      obtain ⟨cs', hcs, h⟩ := bind_eq_ok.1 h
      exact bind_eq_ok.2 ⟨cs', expandNodes_mono hfg hcs, h⟩

theorem expandNodes_mono {f g : Context → Tag → Except TransformError Element} {c d : Context}
    (hfg : ∀ tag e, f c tag = .ok e → g d tag = .ok e) {done out : List Node} {ns : List Node}
    (h : expandNodes f c done ns = .ok out) : expandNodes g d done ns = .ok out := by
  match ns with
  | [] => exact h
  | n :: ns =>
    obtain ⟨next, hn, h⟩ := bind_eq_ok.1 h
    exact bind_eq_ok.2 ⟨next, expandNode_mono hfg hn, expandNodes_mono hfg h⟩

end

variable {resolver : Resolver}

/-- A reference that can be followed gives the same on a shorter chain and under a larger bound. -/
theorem follow_mono {m n : Nat} {c d : Context} (hmn : m ≤ n) (hbase : d.base = c.base)
    (hchain : d.chain ⊆ c.chain) {tag : Tag} {e : Element} (h : follow resolver m c tag = .ok e) :
    follow resolver n d tag = .ok e := by
  induction m generalizing n c d tag e with
  | zero =>
    obtain ⟨_, _, _, hzero, _⟩ := follow_eq_ok h
    cases hzero
  | succ m ih =>
    obtain ⟨n, rfl⟩ : ∃ k, n = k + 1 := ⟨n - 1, by omega⟩
    obtain ⟨_, t, root, hsucc, hload, children, hchildren, rfl⟩ := follow_eq_ok h
    cases hsucc
    obtain ⟨ht, hnew, hopen⟩ := load_eq_ok.1 hload
    have hload' : load resolver d tag = .ok (t, root) :=
      load_eq_ok.2 ⟨hbase ▸ ht, fun hmem => hnew (hchain hmem), hopen⟩
    have hbase' : (d.enter t).base = (c.enter t).base := by simp only [Context.enter, hbase]
    have hchain' : (d.enter t).chain ⊆ (c.enter t).chain :=
      List.append_subset.2 ⟨List.subset_append_of_subset_left _ hchain, List.subset_append_right _ _⟩
    have hsame : expandNodes (follow resolver n) (d.enter t) [] root.children = .ok children :=
      expandNodes_mono (fun tag e => ih (by omega) hbase' hchain') hchildren
    simp [follow, hload', hsame]

def replacement (resolver : Resolver) (b : Base) (tag : Tag) : Element :=
  (follow resolver resolver.depth ⟨b, []⟩ tag).toOption.getD default

theorem replacement_eq {n : Nat} {c : Context} {tag : Tag} {e : Element}
    (hn : n ≤ resolver.depth) (h : follow resolver n c tag = .ok e) :
    replacement resolver c.base tag = e := by
  have hfollow : follow resolver resolver.depth ⟨c.base, []⟩ tag = .ok e :=
    follow_mono (c := c) (d := ⟨c.base, []⟩) hn rfl (List.nil_subset _) h
  rw [replacement, hfollow]
  rfl

/-- An expansion that succeeds is the substitution of `σ b tag` for each reference `tag` in a
document at `b`, on every chain of inclusions. What `σ` gives for a reference is what the reference
names, substituted in turn relative to where that is; for a whole document, that is what its own
expansion gives. -/
theorem expand_eq_substitute {base : Base} {e out : Element}
    (h : expand resolver base e = .ok out) :
    ∃ σ : Base → Tag → Element, out = substitute (σ base) e ∧
      ∀ ts b ms tag, Chain resolver base e.children ts b ms → tag ∈ referencesOf ms →
        ∃ t root, target b tag = .ok t ∧ Opens resolver t root ∧
          σ b tag = substitute (σ { b with url := some t.url }) root ∧
          (t.fragment = none →
            expand resolver { b with url := some t.url } root = .ok (σ b tag)) := by
  obtain ⟨children, hchildren, h⟩ := bind_eq_ok.1 h
  cases h
  refine ⟨replacement resolver, ?_, ?_⟩
  · have hroot : ∀ tag ∈ referencesOf e.children, ∀ root,
        follow resolver resolver.depth (.start base) tag = .ok root →
          replacement resolver base tag = root :=
      fun tag _ root hfollow => replacement_eq (c := .start base) (Nat.le_refl _) hfollow
    rw [substitute, ← expandNodes_eq_substituteNodes hroot hchildren]
  · intro ts b ms tag hchain htag
    obtain ⟨_, m, hm, hok⟩ := isOk_of_chain ⟨children, hchildren⟩ hchain
    obtain ⟨_, out, hfollow⟩ := expandNodes_isOk.1 hok tag htag
    obtain rfl : replacement resolver b tag = out := replacement_eq hm hfollow
    obtain ⟨k, t, root, rfl, hload, children', hchildren', hout⟩ := follow_eq_ok hfollow
    obtain ⟨ht, _, hopen⟩ := load_eq_ok.1 hload
    have hk : k ≤ resolver.depth := Nat.le_of_succ_le hm
    refine ⟨t, root, ht, hopen, ?_, ?_⟩
    · rw [hout, substitute, expandNodes_eq_substituteNodes (fun _ _ _ => replacement_eq hk) hchildren']
      rfl
    · -- an expansion that starts at the document has a shorter chain, so it can do no less
      intro hwhole
      have hbase' : (Context.start { b with url := some t.url }).base =
          ((Context.along base ts b).enter t).base := rfl
      have hchain' : (Context.start { b with url := some t.url }).chain ⊆
          ((Context.along base ts b).enter t).chain := by
        have hrender : t.render = t.url.render := by rw [Target.render, hwhole]
        simp [Context.start, Context.enter, hrender]
      have hsame : expandNodes (follow resolver resolver.depth)
          (.start { b with url := some t.url }) [] root.children = .ok children' :=
        expandNodes_mono (fun _ _ => follow_mono hk hbase' hchain') hchildren'
      rw [hout]
      exact bind_eq_ok.2 ⟨children', hsame, rfl⟩

def splicingSchema : Element where
  tag := ⟨.inNamespace schematronUri "sch" "schema", [], []⟩
  children := [.text "first ", includeNode "rules/a.sch"]

/-- The schema starts with a text and includes a document from its own directory. -/
def splicedDocuments : Resolver := .ofList [
  ("http://example.com/rules/a.sch",
    "<s:schema xmlns:s='http://purl.oclc.org/dsdl/schematron' xmlns:q='urn:q'>" ++
      "second<s:include href='b.sch'/></s:schema>"),
  ("http://example.com/rules/b.sch",
    "<s:pattern xmlns:s='http://purl.oclc.org/dsdl/schematron'/>")]

def outline (ns : List Node) : List (String ⊕ List Namespace) :=
  ns.map fun
    | .text s => .inl s
    | .element t _ => .inr t.namespaces

/-- The text of the schema is joined to the one before the reference, and the pattern gains the
declaration that it does not make itself. -/
theorem expand_splicingSchema : ∃ out,
    expand splicedDocuments includingBase splicingSchema = .ok out ∧
      (outline out.children ==
        [.inl "first second", .inr [⟨some "s", schematronUri⟩, ⟨some "q", "urn:q"⟩]]) = true :=
  exists_of_any (by decide +kernel)

theorem expand_eq_substitute_spliced : ∃ out,
    expand splicedDocuments includingBase splicingSchema = .ok out ∧
    ∃ σ : Base → Tag → Element, out = substitute (σ includingBase) splicingSchema ∧
      ∀ ts b ms tag, Chain splicedDocuments includingBase splicingSchema.children ts b ms →
        tag ∈ referencesOf ms → ∃ t root, target b tag = .ok t ∧ Opens splicedDocuments t root ∧
          σ b tag = substitute (σ { b with url := some t.url }) root ∧
          (t.fragment = none →
            expand splicedDocuments { b with url := some t.url } root = .ok (σ b tag)) := by
  obtain ⟨out, h, _⟩ := expand_splicingSchema
  exact ⟨out, h, expand_eq_substitute h⟩

end Schematron.Inclusion
