import Schematron.Configuration.Derived
import Schematron.Configuration.Layers
import Schematron.Proofs.Cache.Expiry

/-!
# Lifetimes on disk

The hours for which downloads are kept become seconds in 64 bits, then milliseconds, and then a date.
Hours that are too many for 63 bits of milliseconds are replaced by a day (`keptSeconds`). As long as
the seconds fit 64 bits and the end is a date, a download expires exactly when it has been kept for
these seconds.
-/
namespace Schematron

namespace Timestamp
variable {t t' : Timestamp} {n : Nat}

/-- A date and a time of day as a clock tells them, in no leap second. -/
structure IsDate (t : Timestamp) : Prop where
  earliest_le : earliest ≤ t.seconds
  le_latest : t.seconds ≤ latest
  nanos_lt : t.nanos < Duration.perSecond

theorem plus?_ofParts (h : t.IsDate) (hend : t.seconds + n ≤ latest) :
    t.plus? (.ofParts n 0) = some ⟨t.seconds + n, t.nanos⟩ := by
  have hseconds : (t.nanos + n * Duration.perSecond) / Duration.perSecond = n := by
    rw [Nat.add_mul_div_right _ _ (by decide), Nat.div_eq_of_lt h.nanos_lt, Nat.zero_add]
  have hnanos : (t.nanos + n * Duration.perSecond) % Duration.perSecond = t.nanos := by
    rw [Nat.add_mul_mod_self_right, Nat.mod_eq_of_lt h.nanos_lt]
  have hstart : earliest ≤ t.seconds + n := by
    have := h.earliest_le
    omega
  simp [plus?, ofSeconds?, Duration.ofParts, hseconds, hnanos, hstart, hend]

/-- A time lies after the end of so many seconds exactly if more time has passed. -/
theorem isAfter_iff_lt_nanosSince (ht : t.nanos < Duration.perSecond)
    (ht' : t'.nanos < Duration.perSecond) : t'.isAfter ⟨t.seconds + n, t.nanos⟩ = true ↔
      ((n * Duration.perSecond : Nat) : Int) < t'.nanosSince t := by
  rw [nanosSince_eq ht' ht]
  simp only [isAfter, Bool.or_eq_true, Bool.and_eq_true, decide_eq_true_eq, beq_iff_eq]
  simp only [Duration.perSecond] at *
  omega

end Timestamp

namespace Cache

/-- For how many seconds downloads are kept: for the hours that are asked for, or for a day if these
are too many milliseconds for 63 bits. -/
def keptSeconds (hours : Nat) : Nat :=
  if hours * 3600 * 1000 < Number.capacity 63 then hours * 3600 else 86400

theorem keptSeconds_pos {hours : Nat} (h : hours ≠ 0) : 0 < keptSeconds hours := by
  unfold keptSeconds
  split <;> omega

theorem toNat_secondsOfHours {hours : Nat} (h : hours * 3600 < Number.capacity 64) :
    (secondsOfHours (UInt64.ofNat hours)).toNat = hours * 3600 := by
  have hcapacity : Number.capacity 64 = 18446744073709551616 := rfl
  rw [hcapacity] at h
  have hword : hours < 18446744073709551616 := by omega
  have hhours : (UInt64.ofNat hours).toNat = hours := by
    rw [UInt64.toNat_ofNat']
    exact Nat.mod_eq_of_lt hword
  rw [secondsOfHours, UInt64.toNat_mul, hhours]
  exact Nat.mod_eq_of_lt h

theorem lifetime_ofSettings {hours : Nat} (h : hours * 3600 < Number.capacity 64)
    (memoryEntries memorySeconds : Nat) :
    (Policy.ofSettings hours memoryEntries memorySeconds).lifetime = .ofParts (hours * 3600) 0 := by
  rw [Policy.ofSettings, toNat_secondsOfHours h]

theorem lifetime_ofParts (hours : Nat) :
    Metadata.lifetime (.ofParts (hours * 3600) 0) = .ofParts (keptSeconds hours) 0 := by
  have hmillis : hours * 3600 * Duration.perSecond < Number.capacity 63 * 1000000 ↔
      hours * 3600 * 1000 < Number.capacity 63 := by
    have hsplit : hours * 3600 * Duration.perSecond = hours * 3600 * 1000 * 1000000 := by
      rw [Nat.mul_assoc _ 1000]
      rfl
    rw [hsplit]
    exact Nat.mul_lt_mul_right (by decide)
  simp only [Metadata.lifetime, keptSeconds, Duration.ofParts, Nat.add_zero, hmillis]
  split <;> rfl

end Cache

namespace Configuration
variable {c : Configuration}

theorem hours_ne_zero_of_check (hcheck : c.check = .ok c) (henabled : c.caching.enabled = true) :
    c.caching.hours ≠ 0 := by
  intro hhours
  have hfault : c.fault? ≠ none := by
    cases hthreads : c.validation.threads with
    | none => simp [fault?, hthreads, henabled, hhours]
    | some n =>
      simp only [fault?, hthreads, henabled, hhours]
      split_ifs <;> simp_all
  unfold check at hcheck
  split at hcheck
  · cases hcheck
  · next hnone => exact hfault hnone

end Configuration

namespace Cache.Store
variable {c : Configuration} {now : Timestamp}

theorem download?_of_configuration (hfits : c.caching.hours * 3600 < Number.capacity 64)
    (hnow : now.IsDate) (hend : now.seconds + keptSeconds c.caching.hours ≤ Timestamp.latest)
    (url : String) (data : Bytes) (etag lastModified : Option String) :
    c.cachePolicy.download? now url data etag lastModified = some {
      data
      metadata := {
        url, storedAt := now, expiresAt := ⟨now.seconds + keptSeconds c.caching.hours, now.nanos⟩
        size := data.length, etag, lastModified } } := by
  have hplus : now.plus? (Metadata.lifetime c.cachePolicy.lifetime) =
      some ⟨now.seconds + keptSeconds c.caching.hours, now.nanos⟩ := by
    rw [Configuration.cachePolicy, lifetime_ofSettings hfits, lifetime_ofParts]
    exact Timestamp.plus?_ofParts hnow hend
  simp [Policy.download?, Metadata.ofDownload?, hplus]

/-- With a configuration that a run can have, a download is stored, has not expired by then, and
expires when the seconds for which it is kept have passed. -/
theorem put_expires_when_kept (hcheck : c.check = .ok c) (henabled : c.caching.enabled = true)
    (hfits : c.caching.hours * 3600 < Number.capacity 64) (hnow : now.IsDate)
    (hend : now.seconds + keptSeconds c.caching.hours ≤ Timestamp.latest)
    (s : Store) (url : String) (data : Bytes) (etag lastModified : Option String) :
    c.cachePolicy.lifetime = .ofParts (c.caching.hours * 3600) 0 ∧
      ∃ r, (s.put c.cachePolicy now url data etag lastModified).1 = .ok r ∧
        r.metadata.storedAt = now ∧
        r.metadata.expiresAt = ⟨now.seconds + keptSeconds c.caching.hours, now.nanos⟩ ∧
        r.metadata.expiresAt.isAfter now = true ∧ r.metadata.isExpired now = false ∧
        ∀ t : Timestamp, t.nanos < Duration.perSecond → (r.metadata.isExpired t = true ↔
          ((keptSeconds c.caching.hours * Duration.perSecond : Nat) : Int) < t.nanosSince now) := by
  have hkept : 0 < keptSeconds c.caching.hours :=
    keptSeconds_pos (Configuration.hours_ne_zero_of_check hcheck henabled)
  have hdownload := download?_of_configuration hfits hnow hend url data etag lastModified
  have hlater : Timestamp.isAfter ⟨now.seconds + keptSeconds c.caching.hours, now.nanos⟩ now = true
      := by
    simp only [Timestamp.isAfter, Bool.or_eq_true, decide_eq_true_eq]
    omega
  have hplus : now.plus? (.ofParts (keptSeconds c.caching.hours) 0) =
      some ⟨now.seconds + keptSeconds c.caching.hours, now.nanos⟩ :=
    Timestamp.plus?_ofParts hnow hend
  refine ⟨lifetime_ofSettings hfits _ _, _, put_eq_ok.2 hdownload, rfl, rfl, hlater,
    Timestamp.isAfter_plus? hplus, fun t ht => ?_⟩
  exact Timestamp.isAfter_iff_lt_nanosSince hnow.nanos_lt ht

def hoursOnly (hours : Nat) : Configuration := { caching := { directory := "cache", hours } }

theorem put_expires_when_kept_two_days :
    (hoursOnly 48).check = .ok (hoursOnly 48) ∧ (hoursOnly 48).caching.enabled = true ∧
      48 * 3600 < Number.capacity 64 ∧ Timestamp.IsDate ⟨1767225600, 0⟩ ∧
      1767225600 + (keptSeconds 48 : Int) ≤ Timestamp.latest ∧
      (hoursOnly 48).cachePolicy.lifetime = .ofParts (48 * 3600) 0 ∧
      ∃ r, (put {} (hoursOnly 48).cachePolicy ⟨1767225600, 0⟩ "https://example.com/a.sch" [120]
          none none).1 = .ok r ∧
        r.metadata.storedAt = ⟨1767225600, 0⟩ ∧
        r.metadata.expiresAt = ⟨1767225600 + (keptSeconds 48 : Int), 0⟩ ∧
        r.metadata.expiresAt.isAfter ⟨1767225600, 0⟩ = true ∧
        r.metadata.isExpired ⟨1767225600, 0⟩ = false ∧
        ∀ t : Timestamp, t.nanos < Duration.perSecond → (r.metadata.isExpired t = true ↔
          ((keptSeconds 48 * Duration.perSecond : Nat) : Int) <
            t.nanosSince ⟨1767225600, 0⟩) := by
  have hcheck : (hoursOnly 48).check = .ok (hoursOnly 48) := by rfl
  have hfits : 48 * 3600 < Number.capacity 64 := by decide
  have hnow : Timestamp.IsDate ⟨1767225600, 0⟩ := ⟨by decide, by decide, by decide⟩
  have hend : 1767225600 + (keptSeconds 48 : Int) ≤ Timestamp.latest := by decide
  exact ⟨hcheck, rfl, hfits, hnow, hend,
    put_expires_when_kept (c := hoursOnly 48) hcheck rfl hfits hnow hend {}
      "https://example.com/a.sch" [120] none none⟩

/-- Not every download expires when the hours that are set have passed. -/
theorem not_forall_put_expires_when_set :
    ¬ ∀ (c : Configuration) (now : Timestamp) (s : Store) (url : String) (data : Bytes),
      c.check = .ok c → c.caching.enabled = true → c.caching.hours < Number.capacity 64 →
      now.IsDate → ∃ r, (s.put c.cachePolicy now url data none none).1 = .ok r ∧
        r.metadata.expiresAt.nanosSince now =
          (c.caching.hours * 3600 * Duration.perSecond : Nat) := by
  intro hall
  have hcheck : (hoursOnly 2562047788016).check = .ok (hoursOnly 2562047788016) := by rfl
  have hnow : Timestamp.IsDate ⟨1767225600, 0⟩ := ⟨by decide, by decide, by decide⟩
  obtain ⟨r, hput, hkept⟩ := hall (hoursOnly 2562047788016) ⟨1767225600, 0⟩ {}
    "https://example.com/a.sch" [120] hcheck rfl (by decide) hnow
  have hdownload := download?_of_configuration (c := hoursOnly 2562047788016) (by decide) hnow
    (by decide) "https://example.com/a.sch" [120] none none
  rw [put_eq_ok.1 hput, Option.some_inj] at hdownload
  rw [hdownload] at hkept
  exact absurd hkept (by decide)

end Cache.Store

end Schematron
