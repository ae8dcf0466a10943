import Mathlib.Data.List.Nodup
import Schematron.Proofs.Inclusion.References
import Schematron.Proofs.Xml.Attributes

/-!
# Chains of inclusions

Following references leads from the nodes of a document to those of another one, and `Chain` says
which targets are met on the way. The names of the targets that are being expanded are such a chain
with the base before it, so what a reference leads to is loaded only if its name is new. A resolver
that serves finitely many documents has finitely many names to give, hence the recursion ends, and
it ends before the bound in its definition is reached (`unbounded_follow`).

`expand_of_serves` says what comes out: a cycle is reported only for a target that is already on the
chain, and the expansion succeeds exactly if each reference on each chain can be loaded and no chain
meets a name twice.
-/
namespace Schematron.Inclusion
open Xml Sequencing

mutual

/-- The references of a node in document order, without those inside other references. -/
def references : Node → List Tag
  | .text _ => []
  | .element t cs => if isReference t then [t] else referencesOf cs

def referencesOf : List Node → List Tag
  | [] => []
  | n :: ns => references n ++ referencesOf ns

end

section
variable (f : Context → Tag → Except TransformError Element) (c : Context)

/-- Whether a reference can be followed: it asks for parsing as XML, and following it succeeds. -/
def attend (t : Tag) : Except TransformError Unit :=
  match otherParse? t with
  | some p => .error (.unsupported ("xi:include with parse=\"" ++ p ++ "\""))
  | none => (fun _ => ()) <$> f c t

mutual

theorem expandNode_attend (done : List Node) (n : Node) :
    (fun _ => ()) <$> expandNode f c done n = forM (references n) (attend f c) := by
  match n with
  | .text s => rfl
  | .element t cs =>
    cases hr : Reference.of? t with
    | some r =>
      have href : isReference t = true := by
        rw [isReference, hr]
        rfl
      rw [references, if_pos href, List.forM_cons, List.forM_nil]
      cases hp : otherParse? t with
      | some p => simp [expandNode, attend, hr, hp]
      | none => cases hf : f c t <;> simp [expandNode, attend, hr, hp, hf]
    | none =>
      have ih := expandNodes_attend [] cs
      rw [references, isReference_of_none hr, if_neg (by simp), ← ih]
      cases hcs : expandNodes f c [] cs <;> simp [expandNode, hr, hcs]

/-- Whether nodes can be expanded depends on their references alone, which are met in document
order. -/
theorem expandNodes_attend (done : List Node) (ns : List Node) :
    (fun _ => ()) <$> expandNodes f c done ns = forM (referencesOf ns) (attend f c) := by
  match ns with
  | [] => rfl
  | n :: ns =>
    have hn := expandNode_attend done n
    rw [referencesOf, List.forM_append, ← hn]
    cases h : expandNode f c done n with
    | error e => simp [expandNodes, h]
    | ok next => simpa [expandNodes, h] using expandNodes_attend next ns

end

variable {f c}

theorem expandNodes_isOk {done ns : List Node} :
    (∃ out, expandNodes f c done ns = .ok out) ↔
      ∀ t ∈ referencesOf ns, otherParse? t = none ∧ ∃ e, f c t = .ok e := by
  have hattend (t : Tag) : attend f c t = .ok () ↔ otherParse? t = none ∧ ∃ e, f c t = .ok e := by
    cases hp : otherParse? t <;> simp [attend, hp, map_eq_ok]
  simp only [← hattend, ← forM_eq_ok, ← expandNodes_attend f c done ns, map_eq_ok, and_true]

/-- Nodes that cannot be expanded have a reference that asks for something else than XML, or that
cannot be followed. -/
theorem expandNodes_eq_error {done ns : List Node} {error : TransformError}
    (h : expandNodes f c done ns = .error error) :
    ∃ t ∈ referencesOf ns, (∃ details, error = .unsupported details) ∨ f c t = .error error := by
  have hmap : (fun _ => ()) <$> expandNodes f c done ns = .error error := by rw [h]; rfl
  rw [expandNodes_attend] at hmap
  obtain ⟨t, ht, hattend⟩ := exists_of_forM_eq_error hmap
  refine ⟨t, ht, ?_⟩
  unfold attend at hattend
  split at hattend
  · cases hattend
    exact .inl ⟨_, rfl⟩
  · cases hf : f c t with
    | ok e => simp [hf] at hattend
    | error e =>
      rw [hf] at hattend
      cases hattend
      exact .inr rfl

end

mutual

theorem expandNode_congr {f g : Context → Tag → Except TransformError Element} {c : Context}
    (h : f c = g c) (done : List Node) (n : Node) : expandNode f c done n = expandNode g c done n := by
  match n with
  | .text s => rfl
  | .element t cs => rw [expandNode, expandNode, h, expandNodes_congr h [] cs]

theorem expandNodes_congr {f g : Context → Tag → Except TransformError Element} {c : Context}
    (h : f c = g c) (done : List Node) (ns : List Node) :
    expandNodes f c done ns = expandNodes g c done ns := by
  match ns with
  | [] => rfl
  | n :: ns =>
    rw [expandNodes, expandNodes, expandNode_congr h done n]
    congr 1
    funext next
    exact expandNodes_congr h next ns

end

def Opens (resolver : Resolver) (t : Target) (e : Element) : Prop :=
  ∃ text href, resolver.fetch t.url = .ok text ∧ select href t text = .ok e

theorem onChain_iff {chain : List String} {t : Target} :
    onChain chain t = true ↔ t.render ∈ chain := by
  cases h : t.fragment with
  | none => simp [onChain, Target.render, h]
  | some id => simp [onChain, h]

/-- The reference is named only where no element has the id. -/
theorem select_eq_ok {href href' : String} {t : Target} {text : String} {e : Element}
    (h : select href t text = .ok e) : select href' t text = .ok e := by
  unfold select at h ⊢
  cases hd : Document.parse? text with
  | none => simp [hd] at h
  | some d =>
    cases hf : t.fragment with
    | none => simpa [hd, hf] using h
    | some id =>
      cases hid : d.elementById id with
      | none => simp [hd, hf, hid] at h
      | some e' => simpa [hd, hf, hid] using h

theorem Opens.unique {resolver : Resolver} {t : Target} {e e' : Element} (h : Opens resolver t e)
    (h' : Opens resolver t e') : e = e' := by
  obtain ⟨text, href, hfetch, hselect⟩ := h
  obtain ⟨text', href', hfetch', hselect'⟩ := h'
  rw [hfetch] at hfetch'
  cases hfetch'
  rw [select_eq_ok hselect] at hselect'
  exact Except.ok.inj hselect'

/-- What a reference names is loaded exactly if it can be opened and its name is not on the chain. -/
theorem load_eq_ok {resolver : Resolver} {c : Context} {tag : Tag} {t : Target} {e : Element} :
    load resolver c tag = .ok (t, e) ↔
      target c.base tag = .ok t ∧ t.render ∉ c.chain ∧ Opens resolver t e := by
  cases ht : target c.base tag with
  | error error => simp [load, ht]
  | ok t' =>
    by_cases hchain : t'.render ∈ c.chain
    · have hon := onChain_iff.2 hchain
      simp only [load, ht, ok_bind, hon, if_true]
      constructor
      · intro h
        cases h
      · rintro ⟨h, hnot, _⟩
        cases h
        exact absurd hchain hnot
    · have hon : onChain c.chain t' = false := by
        rw [← Bool.not_eq_true, onChain_iff]
        exact hchain
      simp only [load, ht, ok_bind, hon]
      constructor
      · intro h
        obtain ⟨text, hfetch, h⟩ := bind_eq_ok.1 h
        obtain ⟨e', hselect, h⟩ := bind_eq_ok.1 h
        cases h
        exact ⟨rfl, hchain, text, _, hfetch, hselect⟩
      · rintro ⟨h, _, text, href, hfetch, hselect⟩
        cases h
        simp [hfetch, select_eq_ok hselect]

theorem target_ne_includeCycle {base : Base} {tag : Tag} {s : String} :
    target base tag ≠ .error (.includeCycle s) := by
  intro h
  unfold target at h
  cases hhref : tag.attr "href" with
  | none => simp [hhref] at h; cases h
  | some href =>
    simp only [hhref] at h
    cases hb : base.url with
    | some b => cases hj : b.join href <;> simp [hb, hj, Except.mapError] at h
    | none => cases ho : Url.ofSystemId? base.directory href <;> simp [hb, ho] at h

theorem select_ne_includeCycle {href : String} {t : Target} {text s : String} :
    select href t text ≠ .error (.includeCycle s) := by
  intro h
  unfold select at h
  split at h
  · cases h
  · split at h
    · cases h
    · split at h <;> cases h

/-- Loading reports a cycle only for a target on the chain, unless the resolver itself does. -/
theorem load_eq_includeCycle {resolver : Resolver} {c : Context} {tag : Tag} {s : String}
    (h : load resolver c tag = .error (.includeCycle s)) :
    ∃ t, target c.base tag = .ok t ∧
      (t.render = s ∧ s ∈ c.chain ∨ resolver.fetch t.url = .error (.includeCycle s)) := by
  cases ht : target c.base tag with
  | error error =>
    simp only [load, ht, error_bind] at h
    cases h
    exact absurd ht target_ne_includeCycle
  | ok t =>
    refine ⟨t, rfl, ?_⟩
    cases hon : onChain c.chain t with
    | true =>
      simp only [load, ht, ok_bind, hon, if_true] at h
      cases h
      exact .inl ⟨rfl, onChain_iff.1 hon⟩
    | false =>
      simp only [load, ht, ok_bind, hon] at h
      cases hfetch : resolver.fetch t.url with
      | error error =>
        right
        rw [hfetch] at h
        cases h
        rfl
      | ok text =>
        rw [hfetch] at h
        cases hselect : select ((tag.attr "href").getD "") t text with
        | ok e => simp [hselect] at h
        | error error =>
          simp only [ok_bind, hselect] at h
          cases h
          exact absurd hselect select_ne_includeCycle

/-- Following references to the given targets, one after the other, leads from the nodes of a
document at a base to the given nodes of another one. -/
inductive Chain (resolver : Resolver) (base : Base) (ns : List Node) :
    List Target → Base → List Node → Prop where
  | start : Chain resolver base ns [] base ns
  | step {ts b ms tag t e} (chain : Chain resolver base ns ts b ms) (named : tag ∈ referencesOf ms)
      (resolved : target b tag = .ok t) (opened : Opens resolver t e) :
      Chain resolver base ns (ts ++ [t]) { b with url := some t.url } e.children

/-- The names of a base and of the targets on a chain from it. -/
def chainNames (base : Base) (ts : List Target) : List String :=
  (base.url.map (·.render)).toList ++ ts.map Target.render

theorem chainNames_concat (base : Base) (ts : List Target) (t : Target) :
    chainNames base (ts ++ [t]) = chainNames base ts ++ [t.render] := by
  simp [chainNames]

/-- A reference that can be loaded: it asks for parsing as XML, it has a location that can be
resolved, and there is an element at that location. -/
def Loadable (resolver : Resolver) (base : Base) (tag : Tag) : Prop :=
  otherParse? tag = none ∧ ∃ t e, target base tag = .ok t ∧ Opens resolver t e

/-- A resolver serves documents of a list: what it answers is among them, and its depth leaves room
for all targets in them. -/
structure Resolver.Serves (resolver : Resolver) (documents : List (String × String)) : Prop where
  answers : ∀ u text, resolver.fetch u = .ok text → (u.render, text) ∈ documents
  deep : (documents.flatMap targetNames).length < resolver.depth

theorem serves_ofList (documents : List (String × String)) :
    (Resolver.ofList documents).Serves documents where
  answers u text h := by
    simp only [Resolver.ofList] at h
    split at h
    · rename_i d hd
      cases h
      have hname : d.1 = u.render := by simpa using List.find?_some hd
      rw [← hname]
      exact List.mem_of_find?_eq_some hd
    · cases h
  deep := Nat.lt_succ_self _

def room (names chain : List String) : Nat := (names.filter fun n => ! chain.contains n).length

theorem room_le (names chain : List String) : room names chain ≤ names.length :=
  List.length_filter_le _ _

theorem room_concat_lt {names chain : List String} {n : String} (hn : n ∈ names)
    (hchain : n ∉ chain) : room names (chain ++ [n]) < room names chain := by
  have hsplit : names.filter (fun m => ! (chain ++ [n]).contains m) =
      (names.filter fun m => ! chain.contains m).filter (· != n) := by
    rw [List.filter_filter]
    congr 1
    funext m
    by_cases hm : m = n <;> simp [hm]
  rw [room, hsplit, room, List.length_filter_lt_length_iff_exists]
  exact ⟨n, by simp [hn, hchain], by simp⟩

variable {resolver : Resolver} {documents : List (String × String)}

/-- What can be opened has one of the names that the documents give. -/
theorem mem_targetNames (h : resolver.Serves documents) {t : Target} {e : Element}
    (hopen : Opens resolver t e) : t.render ∈ documents.flatMap targetNames := by
  obtain ⟨text, href, hfetch, hselect⟩ := hopen
  refine List.mem_flatMap.2 ⟨_, h.answers _ _ hfetch, ?_⟩
  unfold select at hselect
  cases hd : Document.parse? text with
  | none => simp [hd] at hselect
  | some d =>
    cases hf : t.fragment with
    | none => simp [targetNames, hd, Target.render, hf]
    | some id =>
      cases hid : d.elementById id with
      | none => simp [hd, hf, hid] at hselect
      | some e' => simp [targetNames, hd, Target.render, hf, Document.mem_ids_of_elementById hid]

/-- Whatever is loaded takes up a name that was free. -/
theorem room_enter_lt (h : resolver.Serves documents) {c : Context} {tag : Tag} {t : Target}
    {e : Element} (hload : load resolver c tag = .ok (t, e)) :
    room (documents.flatMap targetNames) (c.enter t).chain <
      room (documents.flatMap targetNames) c.chain := by
  obtain ⟨_, hnew, hopen⟩ := load_eq_ok.1 hload
  exact room_concat_lt (mem_targetNames h hopen) hnew

/-- A reference in the contents of what another one names, and where each is followed. -/
def Nested (resolver : Resolver) (inner outer : Context × Tag) : Prop :=
  ∃ t e, load resolver outer.1 outer.2 = .ok (t, e) ∧ inner.1 = outer.1.enter t ∧
    inner.2 ∈ referencesOf e.children

theorem wellFounded_nested (h : resolver.Serves documents) : WellFounded (Nested resolver) := by
  refine Subrelation.wf ?_ (measure fun p : Context × Tag =>
    room (documents.flatMap targetNames) p.1.chain).wf
  rintro ⟨c', tag'⟩ ⟨c, tag⟩ ⟨t, e, hload, rfl, _⟩
  exact room_enter_lt h hload

/-- A function follows references without a bound on the chain: what it makes of a reference is what
the reference names, expanded by the function itself. -/
def Unbounded (resolver : Resolver) (f : Context → Tag → Except TransformError Element) : Prop :=
  ∀ c tag, f c tag = do
    let (t, e) ← load resolver c tag
    return { e with children := ← expandNodes f (c.enter t) [] e.children }

/-- As long as the bound is larger than the number of free names, it does not matter. -/
theorem follow_eq_follow (h : resolver.Serves documents) {m n : Nat} {c : Context}
    (hm : room (documents.flatMap targetNames) c.chain < m)
    (hn : room (documents.flatMap targetNames) c.chain < n) :
    follow resolver m c = follow resolver n c := by
  induction m generalizing n c with
  | zero => omega
  | succ m ih =>
    obtain ⟨n, rfl⟩ : ∃ k, n = k + 1 := ⟨n - 1, by omega⟩
    funext tag
    rw [follow, follow]
    cases hload : load resolver c tag with
    | error error => rfl
    | ok p =>
      obtain ⟨t, e⟩ := p
      have hless := room_enter_lt h hload
      have hsame := ih (c := c.enter t) (n := n) (by omega) (by omega)
      simp only [ok_bind, expandNodes_congr hsame]

theorem unbounded_follow (h : resolver.Serves documents) :
    Unbounded resolver (follow resolver resolver.depth) := by
  intro c tag
  have hc := Nat.lt_of_le_of_lt (room_le _ c.chain) h.deep
  rw [follow_eq_follow h hc (Nat.lt_succ_of_lt hc)]
  rfl

section
variable {base : Base} {ns : List Node}

def Context.along (base : Base) (ts : List Target) (b : Base) : Context := ⟨b, chainNames base ts⟩

theorem along_nil (base : Base) : Context.along base [] base = .start base := by
  simp [Context.along, Context.start, chainNames]

theorem enter_along (base : Base) (ts : List Target) (b : Base) (t : Target) :
    (Context.along base ts b).enter t =
      .along base (ts ++ [t]) { b with url := some t.url } := by
  simp [Context.along, Context.enter, chainNames_concat]

theorem nodup_chainNames_concat {ts : List Target} {t : Target} :
    (chainNames base (ts ++ [t])).Nodup ↔
      (chainNames base ts).Nodup ∧ t.render ∉ chainNames base ts := by
  rw [chainNames_concat, ← List.concat_eq_append, List.nodup_concat, and_comm]

theorem room_chainNames_lt (h : resolver.Serves documents) {ts : List Target} {t : Target}
    {e : Element} (hopen : Opens resolver t e) (hnew : t.render ∉ chainNames base ts) :
    room (documents.flatMap targetNames) (chainNames base (ts ++ [t])) <
      room (documents.flatMap targetNames) (chainNames base ts) := by
  rw [chainNames_concat]
  exact room_concat_lt (mem_targetNames h hopen) hnew

/-- A reference that is followed leads one step on. -/
theorem follow_eq_ok {n : Nat} {c : Context} {tag : Tag} {out : Element}
    (h : follow resolver n c tag = .ok out) :
    ∃ m t e, n = m + 1 ∧ load resolver c tag = .ok (t, e) ∧
      ∃ children, expandNodes (follow resolver m) (c.enter t) [] e.children = .ok children ∧
        out = { e with children := children } := by
  cases n with
  | zero =>
    obtain ⟨t, _, h⟩ := bind_eq_ok.1 h
    cases h
  | succ m =>
    obtain ⟨⟨t, e⟩, hload, h⟩ := bind_eq_ok.1 h
    obtain ⟨children, hchildren, h⟩ := bind_eq_ok.1 h
    cases h
    exact ⟨m, t, e, rfl, hload, children, hchildren, rfl⟩

/-- Where nodes can be expanded, every chain from them leads to nodes that can be expanded, past
targets with different names. -/
theorem isOk_of_chain {n : Nat} {ts : List Target} {b : Base} {ms : List Node}
    (hok : ∃ out, expandNodes (follow resolver n) (.start base) [] ns = .ok out)
    (hchain : Chain resolver base ns ts b ms) :
    (chainNames base ts).Nodup ∧
      ∃ m ≤ n, ∃ out, expandNodes (follow resolver m) (.along base ts b) [] ms = .ok out := by
  induction hchain with
  | start =>
    refine ⟨?_, n, Nat.le_refl n, ?_⟩
    · cases h : base.url <;> simp [chainNames, h]
    · rwa [along_nil]
  | @step ts b ms tag t e hchain htag ht hopen ih =>
    obtain ⟨hnodup, m, hm, hms⟩ := ih
    obtain ⟨_, e', hfollow⟩ := expandNodes_isOk.1 hms tag htag
    obtain ⟨k, t', e'', rfl, hload, children, hchildren, _⟩ := follow_eq_ok hfollow
    obtain ⟨ht', hnew, hopen'⟩ := load_eq_ok.1 hload
    obtain rfl : t = t' := Except.ok.inj (ht.symm.trans ht')
    obtain rfl := hopen.unique hopen'
    rw [enter_along] at hchildren
    exact ⟨nodup_chainNames_concat.2 ⟨hnodup, hnew⟩, k, Nat.le_of_succ_le hm, children, hchildren⟩

theorem loadable_of_isOk {n : Nat} {c : Context} {ms : List Node} {tag : Tag}
    (hok : ∃ out, expandNodes (follow resolver n) c [] ms = .ok out) (htag : tag ∈ referencesOf ms) :
    Loadable resolver c.base tag := by
  obtain ⟨hparse, e, hfollow⟩ := expandNodes_isOk.1 hok tag htag
  obtain ⟨_, t, e', _, hload, _⟩ := follow_eq_ok hfollow
  obtain ⟨ht, _, hopen⟩ := load_eq_ok.1 hload
  exact ⟨hparse, t, e', ht, hopen⟩

/-- Where all references on all chains can be loaded and no chain meets a name twice, the nodes that
a chain leads to can be expanded. The induction is on the bound, which every step on the chain uses
up as it uses up a name. -/
theorem isOk_of_loadable (h : resolver.Serves documents)
    (hall : ∀ ts b ms, Chain resolver base ns ts b ms →
      (chainNames base ts).Nodup ∧ ∀ tag ∈ referencesOf ms, Loadable resolver b tag)
    {n : Nat} {ts : List Target} {b : Base} {ms : List Node}
    (hchain : Chain resolver base ns ts b ms)
    (hroom : room (documents.flatMap targetNames) (chainNames base ts) < n) :
    ∃ out, expandNodes (follow resolver n) (.along base ts b) [] ms = .ok out := by
  induction n generalizing ts b ms with
  | zero => omega
  | succ n ih =>
    rw [expandNodes_isOk]
    intro tag htag
    obtain ⟨hparse, t, e, ht, hopen⟩ := (hall ts b ms hchain).2 tag htag
    have hnext := hchain.step htag ht hopen
    obtain ⟨_, hnew⟩ := nodup_chainNames_concat.1 (hall _ _ _ hnext).1
    have hload : load resolver (.along base ts b) tag = .ok (t, e) :=
      load_eq_ok.2 ⟨ht, hnew, hopen⟩
    have hless := room_chainNames_lt h hopen hnew
    obtain ⟨children, hchildren⟩ := ih hnext (by omega)
    rw [← enter_along] at hchildren
    exact ⟨hparse, { e with children := children }, by simp [follow, hload, hchildren]⟩

/-- A cycle is reported for a target whose name is on the chain that leads to it, unless the
resolver itself reports it. -/
theorem chain_of_includeCycle (h : resolver.Serves documents) {n : Nat} {ts : List Target}
    {b : Base} {done ms : List Node} {s : String} (hchain : Chain resolver base ns ts b ms)
    (hroom : room (documents.flatMap targetNames) (chainNames base ts) < n)
    (herror : expandNodes (follow resolver n) (.along base ts b) done ms =
      .error (.includeCycle s)) :
    ∃ ts b ms tag t, Chain resolver base ns ts b ms ∧ tag ∈ referencesOf ms ∧
      target b tag = .ok t ∧ (t.render = s ∧ s ∈ chainNames base ts ∨
        resolver.fetch t.url = .error (.includeCycle s)) := by
  induction n generalizing ts b done ms with
  | zero => omega
  | succ n ih =>
    obtain ⟨tag, htag, ⟨_, hother⟩ | hfollow⟩ := expandNodes_eq_error herror
    · cases hother
    -- either the reference itself fails, or one in what it names, on a chain that is longer by one
    cases hload : load resolver (.along base ts b) tag with
    | error error =>
      simp only [follow, hload, error_bind, Except.error.injEq] at hfollow
      subst hfollow
      obtain ⟨t, ht, hcause⟩ := load_eq_includeCycle hload
      exact ⟨ts, b, ms, tag, t, hchain, htag, ht, hcause⟩
    | ok p =>
      obtain ⟨t, e⟩ := p
      obtain ⟨ht, hnew, hopen⟩ := load_eq_ok.1 hload
      have hless := room_chainNames_lt h hopen hnew
      cases hchildren : expandNodes (follow resolver n) ((Context.along base ts b).enter t) []
          e.children with
      | ok children => simp [follow, hload, hchildren] at hfollow
      | error error =>
        simp only [follow, hload, ok_bind, hchildren, error_bind, Except.error.injEq] at hfollow
        subst hfollow
        rw [enter_along] at hchildren
        exact ih (hchain.step htag ht hopen) (by omega) hchildren

end

/-- A resolver that serves finitely many documents is asked for one inside the other only finitely
often, whatever the tree, and the bound on the chain is never met. A cycle is reported only for a
target that is the base or on the chain of inclusions that leads to it. The expansion succeeds
exactly if every reference on every chain can be loaded and no chain meets a target twice, or the
base. -/
theorem expand_of_serves (h : resolver.Serves documents) (base : Base) (e : Element) :
    WellFounded (Nested resolver) ∧ Unbounded resolver (follow resolver resolver.depth) ∧
    (∀ s, expand resolver base e = .error (.includeCycle s) →
      ∃ ts b ms tag t, Chain resolver base e.children ts b ms ∧ tag ∈ referencesOf ms ∧
        target b tag = .ok t ∧ (t.render = s ∧ s ∈ chainNames base ts ∨
          resolver.fetch t.url = .error (.includeCycle s))) ∧
    ((∃ out, expand resolver base e = .ok out) ↔
      ∀ ts b ms, Chain resolver base e.children ts b ms →
        (chainNames base ts).Nodup ∧ ∀ tag ∈ referencesOf ms, Loadable resolver b tag) := by
  have hroom := Nat.lt_of_le_of_lt (room_le _ (chainNames base [])) h.deep
  have hexpand : expand resolver base e = do
      let children ←
        expandNodes (follow resolver resolver.depth) (.along base [] base) [] e.children
      return { e with children } := by
    rw [along_nil]
    rfl
  refine ⟨wellFounded_nested h, unbounded_follow h, ?_, ?_, ?_⟩
  · intro s herror
    cases hchildren : expandNodes (follow resolver resolver.depth) (.along base [] base) []
        e.children with
    | ok children => simp [hexpand, hchildren] at herror
    | error error =>
      simp only [hexpand, hchildren, error_bind, Except.error.injEq] at herror
      subst herror
      exact chain_of_includeCycle h .start hroom hchildren
  · -- what has been expanded was expanded along every chain
    rintro ⟨out, hout⟩ ts b ms hchain
    rw [hexpand] at hout
    obtain ⟨children, hchildren, _⟩ := bind_eq_ok.1 hout
    rw [along_nil] at hchildren
    obtain ⟨hnodup, m, _, hok⟩ := isOk_of_chain ⟨children, hchildren⟩ hchain
    exact ⟨hnodup, fun tag htag => loadable_of_isOk hok htag⟩
  · -- the free names are fewer than the bound at the start, and each step of a chain takes up one
    intro hall
    obtain ⟨children, hchildren⟩ := isOk_of_loadable h hall .start hroom
    exact ⟨{ e with children := children }, by simp [hexpand, hchildren]⟩

def includeNode (href : String) : Node := schNode "include" [("href", href)] []

/-- A schema that includes one document directly and through another one. -/
def sharingSchema : Element where
  tag := ⟨.inNamespace schematronUri "sch" "schema", [], []⟩
  children := [includeNode "rules/a.sch", includeNode "rules/b.sch"]

/-- The first of the documents includes the second one, relative to where it is itself. -/
def sharedDocuments : List (String × String) := [
  ("http://example.com/rules/a.sch",
    "<s:pattern xmlns:s='http://purl.oclc.org/dsdl/schematron'><s:include href='b.sch'/></s:pattern>"),
  ("http://example.com/rules/b.sch",
    "<s:rule xmlns:s='http://purl.oclc.org/dsdl/schematron' context='item'/>")]

/-- A document on two chains is no cycle. -/
theorem expand_of_serves_shared : (Resolver.ofList sharedDocuments).Serves sharedDocuments ∧
    (∃ out, expand (.ofList sharedDocuments) includingBase sharingSchema = .ok out) ∧
    ∀ ts b ms, Chain (.ofList sharedDocuments) includingBase sharingSchema.children ts b ms →
      (chainNames includingBase ts).Nodup ∧
        ∀ tag ∈ referencesOf ms, Loadable (.ofList sharedDocuments) b tag := by
  have hserves := serves_ofList sharedDocuments
  have hok : ∃ out, expand (.ofList sharedDocuments) includingBase sharingSchema = .ok out :=
    exists_of_isSome (by decide +kernel)
  exact ⟨hserves, hok, (expand_of_serves hserves includingBase sharingSchema).2.2.2.1 hok⟩

end Schematron.Inclusion
