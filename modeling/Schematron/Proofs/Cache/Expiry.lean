import Schematron.Proofs.Cache.Provenance

/-!
# Expired downloads

Disk gives no expired download, but memory looks only at the time at which a download was put in.
That was a time at which the download had not expired (`entered_of_holds`), so what a look-up
answers has not expired, or memory has had it from before it expired on, for less than its lifetime.
-/
namespace Schematron

namespace Timestamp
variable {a b t t' : Timestamp} {d : Duration}

theorem of_plus? (h : t.plus? d = some t') :
    t' = ⟨t.seconds + ((t.nanos + d.nanos) / Duration.perSecond : Nat),
      (t.nanos + d.nanos) % Duration.perSecond⟩ := by
  unfold plus? ofSeconds? at h
  dsimp only at h
  split at h
  · cases h
    rfl
  · cases h

theorem nanos_plus?_lt (h : t.plus? d = some t') : t'.nanos < Duration.perSecond := by
  rw [of_plus? h]
  exact Nat.mod_lt _ (by decide)

theorem isAfter_plus? (h : t.plus? d = some t') : t.isAfter t' = false := by
  have ht := of_plus? h
  simp only [Duration.perSecond] at ht
  subst ht
  simp only [isAfter, Bool.or_eq_false_iff, Bool.and_eq_false_imp, decide_eq_false_iff_not,
    beq_iff_eq]
  omega

theorem nanosSince_eq (ha : a.nanos < Duration.perSecond) (hb : b.nanos < Duration.perSecond) :
    a.nanosSince b =
      (a.seconds - b.seconds) * (Duration.perSecond : Nat) + ((a.nanos : Int) - b.nanos) := by
  have ha' : ¬ Duration.perSecond ≤ a.nanos := by omega
  have hb' : ¬ Duration.perSecond ≤ b.nanos := by omega
  simp [nanosSince, ha', hb']

/-- Less time has passed since a later time, unless there are leap seconds. -/
theorem nanosSince_le_nanosSince {now : Timestamp} (h : a.isAfter b = false)
    (hnow : now.nanos < Duration.perSecond) (ha : a.nanos < Duration.perSecond)
    (hb : b.nanos < Duration.perSecond) : now.nanosSince b ≤ now.nanosSince a := by
  rw [nanosSince_eq hnow ha, nanosSince_eq hnow hb]
  simp only [isAfter, Bool.or_eq_false_iff, Bool.and_eq_false_imp, decide_eq_false_iff_not,
    beq_iff_eq] at h
  simp only [Duration.perSecond] at *
  omega

end Timestamp

namespace Cache

namespace Operation
variable {p : Policy} {now : Timestamp} {k : String} {r : Resource} {op : Operation}

def Asks (k : String) : Operation → Prop
  | .get url | .put url _ _ _ => key url = k
  | .remove _ | .purge | .clear | .restart | .forget _ => False

theorem Stores.asks (h : op.Stores p now k r) : op.Asks k := by
  cases op with
  | put _ _ _ _ => exact h.1
  | get _ | remove _ | purge | clear | restart | forget _ => exact h.elim

/-- A download that is stored expires its lifetime later. -/
theorem Stores.expiresAt (h : op.Stores p now k r) :
    now.plus? (Metadata.lifetime p.lifetime) = some r.metadata.expiresAt := by
  cases op with
  | put url data etag lastModified =>
    obtain ⟨m, hm, rfl⟩ := Option.map_eq_some_iff.1 h.2
    obtain ⟨expiresAt, hplus, hpure⟩ := Option.bind_eq_some_iff.1 hm
    cases hpure
    exact hplus
  | get _ | remove _ | purge | clear | restart | forget _ => exact h.elim

theorem Stores.isExpired (h : op.Stores p now k r) : r.metadata.isExpired now = false :=
  Timestamp.isAfter_plus? h.expiresAt

end Operation

namespace Store
variable {p : Policy} {ops : List (Timestamp × Operation)} {now t : Timestamp} {url k : String}
variable {r : Resource}

/-- An operation at a time answered with a download that had not expired then, and memory has not
lost it since. -/
def Entered (p : Policy) (k : String) (r : Resource) (t : Timestamp) :
    List (Timestamp × Operation) → Prop :=
  Since
    (fun xs o => o.1 = t ∧ o.2.Asks k ∧ r.metadata.isExpired t = false ∧
      ((after p xs).step p o.1 o.2).1.download? = some r)
    (fun o => o.2.Loses p o.1 k)

theorem entered_of_holds (h : (after p ops).memory.Holds k r t) : Entered p k r t ops := by
  induction ops using List.reverseRecOn with
  | nil => cases h
  | append_singleton ops o ih =>
    rw [after_concat] at h
    rcases memory_step h with ⟨hold, hkept⟩ | ⟨rfl, -, hfresh, ⟨url, hkey, hop⟩, hanswer⟩ |
      ⟨rfl, hstored, hanswer⟩
    · exact (ih hold).concat hkept
    · have hasks : o.2.Asks k := by
        rw [hop]
        exact hkey
      exact Since.last ⟨rfl, hasks, hfresh, hanswer⟩
    · exact Since.last ⟨rfl, hstored.asks, hstored.isExpired, hanswer⟩

theorem fresh_or_entered_of_get (h : ((after p ops).get p now url).1 = .ok (some r)) :
    r.metadata.isExpired now = false ∨
      ∃ t, Memory.isLive p.memory now t = true ∧ Entered p (key url) r t ops := by
  rcases get_cases (after p ops) p now url with ⟨r', hhit, hget⟩ | ⟨r', hhit, hget⟩ | ⟨hno, -⟩
  · rw [hget] at h
    cases h
    obtain ⟨t, hholds, hlive⟩ := Memory.holds_of_get? hhit
    exact .inr ⟨t, hlive, entered_of_holds hholds⟩
  · rw [hget] at h
    cases h
    obtain ⟨-, hfresh, -⟩ := Disk.holds_of_get hhit
    exact .inl hfresh
  · exact absurd h (hno r)

/-- An expired download is answered for less than the lifetime in memory after it has expired; this
does not count leap seconds. -/
theorem overdue_lt_of_get (h : ((after p ops).get p now url).1 = .ok (some r))
    (hnow : now.nanos < Duration.perSecond) (hops : ∀ o ∈ ops, o.1.nanos < Duration.perSecond) :
    r.metadata.isExpired now = false ∨
      now.nanosSince r.metadata.expiresAt < (p.memory.seconds * Duration.perSecond : Nat) := by
  rcases fresh_or_entered_of_get h with hfresh | ⟨t, hlive, hentered⟩
  · exact .inl hfresh
  · right
    obtain ⟨xs, ⟨t', op⟩, ys, hops', ⟨rfl, -, hfresh, -⟩, -⟩ := hentered
    obtain ⟨_, ⟨_, _⟩, _, -, hstored, -⟩ := written_of_get h
    have hdate := Timestamp.nanos_plus?_lt hstored.expiresAt
    have hclock := hops (t', op) (by simp [hops'])
    have hle := Timestamp.nanosSince_le_nanosSince hfresh hnow hclock hdate
    have hlt := of_decide_eq_true hlive
    exact Int.lt_of_le_of_lt hle hlt

/-- A look-up answers a download that has not expired, or one that an earlier operation answered
before it expired, and that memory has had from then on, for less than the lifetime in memory. -/
theorem get_answers_fresh_or_remembered (h : ((after p ops).get p now url).1 = .ok (some r)) :
    r.metadata.isExpired now = false ∨
      ∃ xs t op ys, ops = xs ++ (t, op) :: ys ∧ op.Asks (key url) ∧
        ((after p xs).step p t op).1.download? = some r ∧ r.metadata.isExpired t = false ∧
        Memory.isLive p.memory now t = true ∧ ∀ o ∈ ys, ¬ o.2.Loses p o.1 (key url) := by
  rcases fresh_or_entered_of_get h with hfresh | ⟨t, hlive, hentered⟩
  · exact .inl hfresh
  · obtain ⟨xs, ⟨t', op⟩, ys, hops, ⟨rfl, hasks, hfresh, hanswer⟩, hkept⟩ := hentered
    exact .inr ⟨xs, t', op, ys, hops, hasks, hanswer, hfresh, hlive, hkept⟩

/-- The first process puts a download; a second one, with the default settings, asks for it half an
hour before it expires, and a quarter of an hour after that. -/
def promotedOps : List (Timestamp × Operation) := [
  (⟨1767225600, 0⟩, .put "https://example.com/a.sch" [97] none none),
  (⟨1767225601, 0⟩, .restart),
  (⟨1767310200, 0⟩, .get "https://example.com/a.sch")]

def promotedResource : Resource where
  data := [97]
  metadata := {
    url := "https://example.com/a.sch", storedAt := ⟨1767225600, 0⟩, expiresAt := ⟨1767312000, 0⟩
    size := 1 }

theorem get_answers_fresh_or_remembered_promoted :
    ((after {} promotedOps).get {} ⟨1767312900, 0⟩ "https://example.com/a.sch").1 =
        .ok (some promotedResource) ∧
      promotedResource.metadata.isExpired ⟨1767312900, 0⟩ = true ∧
      ∃ xs t op ys, promotedOps = xs ++ (t, op) :: ys ∧
        op.Asks (key "https://example.com/a.sch") ∧
        ((after {} xs).step {} t op).1.download? = some promotedResource ∧
        promotedResource.metadata.isExpired t = false ∧
        Memory.isLive {} ⟨1767312900, 0⟩ t = true ∧
        ∀ o ∈ ys, ¬ o.2.Loses {} o.1 (key "https://example.com/a.sch") := by
  have hget : ((after {} promotedOps).get {} ⟨1767312900, 0⟩ "https://example.com/a.sch").1 =
      .ok (some promotedResource) := by decide +kernel
  have hexpired : promotedResource.metadata.isExpired ⟨1767312900, 0⟩ = true := by decide
  rcases get_answers_fresh_or_remembered hget with hfresh | hremembered
  · rw [hexpired] at hfresh
    cases hfresh
  · exact ⟨hget, hexpired, hremembered⟩

/-- A download is put where none is kept for any time on disk. -/
def outdatedOps : List (Timestamp × Operation) :=
  [(⟨1767225600, 0⟩, .put "https://example.com/a.sch" [120] none none)]

def outdatedResource : Resource where
  data := [120]
  metadata := {
    url := "https://example.com/a.sch", storedAt := ⟨1767225600, 0⟩, expiresAt := ⟨1767225600, 0⟩
    size := 1 }

/-- A look-up does not always answer a download that has not expired. -/
theorem not_forall_get_answers_fresh :
    ¬ ∀ (p : Policy) (ops : List (Timestamp × Operation)) (now : Timestamp) (url : String)
      (r : Resource), Chronological ops now → ((after p ops).get p now url).1 = .ok (some r) →
      r.metadata.isExpired now = false := by
  intro hall
  have hclock : Chronological outdatedOps ⟨1767225602, 0⟩ := by decide
  have hget : ((after (.ofSettings 0 100 3600) outdatedOps).get (.ofSettings 0 100 3600)
      ⟨1767225602, 0⟩ "https://example.com/a.sch").1 = .ok (some outdatedResource) := by
    decide +kernel
  have hfresh : outdatedResource.metadata.isExpired ⟨1767225602, 0⟩ = false :=
    hall _ _ _ _ _ hclock hget
  exact absurd hfresh (by decide)

end Store

end Cache

end Schematron
