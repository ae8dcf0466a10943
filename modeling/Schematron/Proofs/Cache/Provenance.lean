import Schematron.Proofs.Cache.Tiers

/-!
# Where a cached download comes from

Both tiers address downloads by the key of the URL and never look at the URL in the metadata, so a
cache answers with what was stored last under the key. All that memory and disk hold under a key is
the download that was stored under it last, if nothing has dropped it since (`Written`); every
operation keeps it so (`Store.written_of_holds`). Where no two URLs share the key, this is the
download that was stored last for the URL itself.
-/
namespace Schematron.Cache

/-- A download was stored under a key, and has not been replaced or dropped since. -/
def Written (p : Policy) (k : String) (r : Resource) : List (Timestamp × Operation) → Prop :=
  Since (fun _ o => o.2.Stores p o.1 k r) (fun o => o.2.Replaces p o.1 k)

namespace Operation
variable {p : Policy} {now : Timestamp} {k : String} {r : Resource} {op : Operation}

def putUrl? : Operation → Option String
  | put url _ _ _ => some url
  | get _ | remove _ | purge | clear | restart | forget _ => none

theorem Replaces.loses (h : op.Replaces p now k) : op.Loses p now k := by
  cases op with
  | restart | forget _ => exact h.elim
  | get _ | put _ _ _ _ | remove _ | purge | clear => exact h

end Operation

namespace Store
variable {p : Policy} {ops : List (Timestamp × Operation)} {now : Timestamp} {url : String}
variable {r : Resource}

theorem written_of_holds (p : Policy) (ops : List (Timestamp × Operation)) (k : String) :
    (∀ r, (after p ops).disk.Holds k r → Written p k r ops) ∧
      ∀ r t, (after p ops).memory.Holds k r t → Written p k r ops := by
  induction ops using List.reverseRecOn with
  | nil =>
    constructor
    · intro r h
      cases h.1
    · intro r t h
      cases h
  | append_singleton ops o ih =>
    obtain ⟨hdisk, hmemory⟩ := ih
    rw [after_concat]
    constructor
    · intro r h
      rcases disk_step (sound_after p ops) h with ⟨hold, hkept⟩ | hstored
      · exact (hdisk r hold).concat hkept
      · exact Since.last hstored
    · intro r t h
      rcases memory_step h with ⟨hold, hkept⟩ | ⟨-, hfound, -, ⟨url, -, hop⟩, -⟩ | ⟨-, hstored, -⟩
      · exact (hmemory r t hold).concat fun hr => hkept hr.loses
      · refine (hdisk r hfound).concat ?_
        rw [hop]
        exact id
      · exact Since.last hstored

/-- What a look-up answers was stored last under the key of the URL. -/
theorem written_of_get (h : ((after p ops).get p now url).1 = .ok (some r)) :
    Written p (key url) r ops := by
  obtain ⟨hdisk, hmemory⟩ := written_of_holds p ops (key url)
  rcases get_cases (after p ops) p now url with ⟨r', hhit, hget⟩ | ⟨r', hhit, hget⟩ | ⟨hno, -⟩
  · rw [hget] at h
    cases h
    obtain ⟨t, hholds, -⟩ := Memory.holds_of_get? hhit
    exact hmemory r t hholds
  · rw [hget] at h
    cases h
    obtain ⟨hholds, -, -⟩ := Disk.holds_of_get hhit
    exact hdisk r hholds
  · exact absurd h (hno r)

/-- What a look-up answers is what the last put answered that stored a download under the key of the
URL: nothing under this key has been stored, removed or cleared since. If no other URL with this key
was put, then this put was for the URL itself. -/
theorem get_answers_last_put (h : ((after p ops).get p now url).1 = .ok (some r)) :
    ∃ xs at' url' data etag lastModified ys,
      ops = xs ++ (at', .put url' data etag lastModified) :: ys ∧ key url' = key url ∧
      ((∀ o ∈ ops, ∀ u ∈ o.2.putUrl?, key u = key url → u = url) → url' = url) ∧
      ((after p xs).put p at' url' data etag lastModified).1 = .ok r ∧
      (∀ o ∈ ys, ¬ o.2.Replaces p o.1 (key url)) ∧
      (r.data = data ∧ r.metadata.url = url' ∧ r.metadata.storedAt = at' ∧
        r.metadata.size = data.length ∧ r.metadata.etag = etag ∧
        r.metadata.lastModified = lastModified) := by
  obtain ⟨xs, ⟨at', op⟩, ys, rfl, hstored, hkept⟩ := written_of_get h
  cases op with
  | put url' data etag lastModified =>
    obtain ⟨hkey, hdownload⟩ := hstored
    have hput := (put_eq_ok (s := after p xs)).2 hdownload
    refine ⟨xs, at', url', data, etag, lastModified, ys, rfl, hkey, fun honly => ?_, hput, hkept,
      Policy.of_download hdownload⟩
    exact honly _ (List.mem_append_right xs List.mem_cons_self) url' rfl hkey
  | get _ | remove _ | purge | clear | restart | forget _ => exact hstored.elim

/-- A download is put twice; then another process opens the directory. -/
def replacedOps : List (Timestamp × Operation) := [
  (⟨1767225600, 0⟩, .put "https://example.com/a.sch" [97] none none),
  (⟨1767225601, 0⟩, .put "https://example.com/a.sch" [98] (some "v2") none),
  (⟨1767225602, 0⟩, .restart)]

def replacedResource : Resource where
  data := [98]
  metadata := {
    url := "https://example.com/a.sch", storedAt := ⟨1767225601, 0⟩, expiresAt := ⟨1767312001, 0⟩
    size := 1, etag := some "v2" }

/-- The new process answers with the second download, from disk. -/
theorem get_answers_last_put_replaced :
    ((after {} replacedOps).get {} ⟨1767225603, 0⟩ "https://example.com/a.sch").1 =
        .ok (some replacedResource) ∧
      (∀ o ∈ replacedOps, ∀ u ∈ o.2.putUrl?,
        key u = key "https://example.com/a.sch" → u = "https://example.com/a.sch") ∧
      ∃ xs at' data etag lastModified ys,
        replacedOps =
          xs ++ (at', .put "https://example.com/a.sch" data etag lastModified) :: ys ∧
        ((after {} xs).put {} at' "https://example.com/a.sch" data etag lastModified).1 =
          .ok replacedResource ∧
        (∀ o ∈ ys, ¬ o.2.Replaces {} o.1 (key "https://example.com/a.sch")) ∧
        replacedResource.data = data ∧ replacedResource.metadata.storedAt = at' := by
  have hget : ((after {} replacedOps).get {} ⟨1767225603, 0⟩ "https://example.com/a.sch").1 =
      .ok (some replacedResource) := by rfl
  have honly : ∀ o ∈ replacedOps, ∀ u ∈ o.2.putUrl?,
      key u = key "https://example.com/a.sch" → u = "https://example.com/a.sch" := by
    simp [replacedOps, Operation.putUrl?]
  obtain ⟨xs, at', url', data, etag, lastModified, ys, hops, _, hurl, hput, hkept, hresource⟩ :=
    get_answers_last_put hget
  obtain rfl := hurl honly
  exact ⟨hget, honly, xs, at', data, etag, lastModified, ys, hops, hput, hkept, hresource.1,
    hresource.2.2.1⟩

/-- Two URLs with one key. -/
def collidingUrls : String × String :=
  ("https://example.com/2bf7b1f65fffd30f.sch", "https://example.com/37b35ba664edd596.sch")

def collidingOps : List (Timestamp × Operation) := [
  (⟨1767225600, 0⟩, .put collidingUrls.1 [97] none none),
  (⟨1767225601, 0⟩, .put collidingUrls.2 [98] none none)]

def collidingResource : Resource where
  data := [98]
  metadata := {
    url := collidingUrls.2, storedAt := ⟨1767225601, 0⟩, expiresAt := ⟨1767312001, 0⟩, size := 1 }

/-- A look-up does not always answer what was put last for the very URL: for the first of the two
URLs it answers the download of the second. -/
theorem not_forall_get_answers_own_put :
    ¬ ∀ (p : Policy) (ops : List (Timestamp × Operation)) (now : Timestamp) (url : String)
      (r : Resource), Chronological ops now → ((after p ops).get p now url).1 = .ok (some r) →
      ∃ xs at' data etag lastModified ys,
        ops = xs ++ (at', .put url data etag lastModified) :: ys ∧
        ((after p xs).put p at' url data etag lastModified).1 = .ok r ∧
        ∀ o ∈ ys, o.2 ≠ .remove url ∧ o.2 ≠ .clear ∧
          ∀ data' etag' lastModified', o.2 ≠ .put url data' etag' lastModified' := by
  intro hall
  have hclock : Chronological collidingOps ⟨1767225602, 0⟩ := by decide
  have hget : ((after {} collidingOps).get {} ⟨1767225602, 0⟩ collidingUrls.1).1 =
      .ok (some collidingResource) := by decide +kernel
  obtain ⟨xs, at', data, etag, lastModified, ys, -, hput, -⟩ := hall _ _ _ _ _ hclock hget
  have hurl : collidingUrls.2 = collidingUrls.1 := (Policy.of_download (put_eq_ok.1 hput)).2.1
  exact absurd hurl (by decide)

end Store

end Schematron.Cache
