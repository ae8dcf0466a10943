import Schematron.Proofs.Cache.Provenance
import Mathlib.Data.Set.Card

/-!
# Purging

A look-up treats an expired download as absent, whether it is still on disk or not. So a disk from
which expired downloads have been removed answers every later look-up as before
(`Disk.sameFrom_removals`), and no operation tells the two disks apart but another purge
(`Store.SameFrom.step`). A purge counts what it removes, where there is an index to go through.
-/
namespace Schematron

namespace Timestamp
variable {a b c : Timestamp}

theorem isAfter_of_isAfter_of_le (h : a.isAfter c = true) (hab : a.isAfter b = false) :
    b.isAfter c = true := by
  simp only [isAfter, Bool.or_eq_true, Bool.and_eq_true, decide_eq_true_eq, beq_iff_eq,
    Bool.or_eq_false_iff, Bool.and_eq_false_imp, decide_eq_false_iff_not] at h hab ⊢
  omega

/-- Not being after is transitive. -/
theorem isAfter_eq_false_trans (hab : a.isAfter b = false) (hbc : b.isAfter c = false) :
    a.isAfter c = false := by
  cases h : a.isAfter c with
  | false => rfl
  | true => rw [isAfter_of_isAfter_of_le h hab] at hbc; cases hbc

end Timestamp

namespace Cache

theorem KeyMap.isSome_get? {α : Type} {m : KeyMap α} {k : String} :
    (m.get? k).isSome = true ↔ k ∈ m.map (·.1) := by
  simp only [KeyMap.get?, Option.isSome_map, List.find?_isSome, beq_iff_eq, List.mem_map]

namespace Disk
variable {d d' d'' : Disk} {t now : Timestamp} {k : String} {ks : List String}

/-- What a look-up answers depends on what stands under the key. -/
theorem get_congr (hmetadata : d.metadata.get? k = d'.metadata.get? k)
    (hbody : d.body? k = d'.body? k) : (d.get now k).1 = (d'.get now k).1 := by
  simp only [get, hmetadata, hbody]
  split
  · rfl
  · rfl
  · split <;> rfl

theorem answer_put (d : Disk) (now : Timestamp) (k k' : String) (data : Bytes) (m : Metadata) :
    ((d.put k data m).get now k').1 =
      if k' = k then .ok (if m.isExpired now then none else some ⟨data, m⟩)
      else (d.get now k').1 := by
  have hmetadata : (d.put k data m).metadata.get? k' =
      if k' = k then some (some m) else d.metadata.get? k' :=
    KeyMap.get?_insert d.metadata k k' (some m)
  have hbody := body?_put d k k' data m
  by_cases hk : k' = k
  · simp only [hk, if_true] at hmetadata hbody ⊢
    simp only [get, hmetadata, hbody]
    split <;> rfl
  · simp only [hk, if_false] at hmetadata hbody ⊢
    exact get_congr hmetadata hbody

theorem answer_remove (d : Disk) (now : Timestamp) (k k' : String) :
    ((d.remove k).get now k').1 = if k' = k then .ok none else (d.get now k').1 := by
  have hmetadata : (d.remove k).metadata.get? k' =
      if k' = k then none else d.metadata.get? k' := KeyMap.get?_erase d.metadata k k'
  have hbody := body?_remove d k k'
  by_cases hk : k' = k
  · simp only [hk, if_true] at hmetadata ⊢
    simp only [get, hmetadata]
  · simp only [hk, if_false] at hmetadata hbody ⊢
    exact get_congr hmetadata hbody

theorem answer_removals (d : Disk) (now : Timestamp) (ks : List String) (k : String) :
    ((ks.foldl remove d).get now k).1 = if k ∈ ks then .ok none else (d.get now k).1 := by
  induction ks generalizing d with
  | nil => rfl
  | cons k' ks ih =>
    rw [List.foldl_cons, ih, answer_remove]
    by_cases hks : k ∈ ks
    · simp [hks]
    · by_cases hk : k = k' <;> simp [hks, hk]

/-- An expired download is treated as absent from then on. -/
theorem answer_of_hasExpired (h : d.hasExpired t k = true) (ht : t.isAfter now = false) :
    (d.get now k).1 = .ok none := by
  unfold hasExpired at h
  split at h
  · rename_i m hm
    have hexpired : m.isExpired now = true := Timestamp.isAfter_of_isAfter_of_le h ht
    simp [get, hm, hexpired]
  · cases h

theorem Sound.hasDirectory (hd : d.Sound) (h : d.hasExpired t k = true) :
    d.hasDirectory = true := by
  cases hdir : d.hasDirectory with
  | true => rfl
  | false =>
    rw [hasExpired, hd hdir] at h
    cases h

/-- A look-up removes nothing but what has expired. -/
theorem expired_of_get (d : Disk) (now : Timestamp) (k : String) : ∃ ks : List String,
    (∀ k ∈ ks, d.hasExpired now k = true) ∧ (d.get now k).2 = ks.foldl remove d := by
  cases hm : d.metadata.get? k with
  | none => exact ⟨[], nofun, by simp [get, hm]⟩
  | some m =>
    cases m with
    | none => exact ⟨[], nofun, by simp [get, hm]⟩
    | some m =>
      by_cases hexpired : m.isExpired now = true
      · refine ⟨[k], ?_, by simp [get, hm, hexpired]⟩
        simp [hasExpired, hm, hexpired]
      · exact ⟨[], nofun, by simp [get, hm, hexpired]⟩

theorem expired_of_purge (d : Disk) (now : Timestamp) : ∃ ks : List String,
    (∀ k ∈ ks, d.hasExpired now k = true) ∧ (d.purge now).2 = ks.foldl remove d := by
  cases hi : d.index with
  | none => exact ⟨[], nofun, by simp [purge, hi]⟩
  | some m =>
    exact ⟨(m.map (·.1)).filter (d.hasExpired now), fun k hk => (List.mem_filter.1 hk).2,
      by simp [purge, hi]⟩

/-- Two disks answer all look-ups from a time on alike. -/
structure SameFrom (t : Timestamp) (d d' : Disk) : Prop where
  hasDirectory : d.hasDirectory = d'.hasDirectory
  answer : ∀ now k, t.isAfter now = false → (d.get now k).1 = (d'.get now k).1

namespace SameFrom

theorem refl (t : Timestamp) (d : Disk) : d.SameFrom t d := ⟨rfl, fun _ _ _ => rfl⟩

theorem symm (h : d.SameFrom t d') : d'.SameFrom t d :=
  ⟨h.hasDirectory.symm, fun now k ht => (h.answer now k ht).symm⟩

theorem trans (h : d.SameFrom t d') (h' : d'.SameFrom t d'') : d.SameFrom t d'' :=
  ⟨h.hasDirectory.trans h'.hasDirectory,
    fun now k ht => (h.answer now k ht).trans (h'.answer now k ht)⟩

theorem later (h : d.SameFrom t d') (ht : t.isAfter now = false) : d.SameFrom now d' :=
  ⟨h.hasDirectory, fun now' k hnow => h.answer now' k (Timestamp.isAfter_eq_false_trans ht hnow)⟩

theorem put (h : d.SameFrom t d') (k : String) (data : Bytes) (m : Metadata) :
    (d.put k data m).SameFrom t (d'.put k data m) :=
  ⟨rfl, fun now k' ht => by rw [answer_put, answer_put, h.answer now k' ht]⟩

theorem remove (h : d.SameFrom t d') (k : String) : (d.remove k).SameFrom t (d'.remove k) :=
  ⟨rfl, fun now k' ht => by rw [answer_remove, answer_remove, h.answer now k' ht]⟩

theorem clear (h : d.SameFrom t d') :
    d.clear.1 = d'.clear.1 ∧ d.clear.2.SameFrom t d'.clear.2 := by
  unfold Disk.clear
  rw [h.hasDirectory]
  split
  · exact ⟨rfl, refl t _⟩
  · exact ⟨rfl, h⟩

end SameFrom

/-- Removing something makes a directory and an index. -/
theorem removals_cons (d : Disk) (k : String) (ks : List String) :
    ((k :: ks).foldl remove d).hasDirectory = true ∧
      ((k :: ks).foldl remove d).index.isSome = true := by
  induction ks generalizing d k with
  | nil => exact ⟨rfl, rfl⟩
  | cons k' ks ih => exact ih (d.remove k) k'

/-- Removing what has expired makes no difference from then on. -/
theorem sameFrom_removals (hd : d.Sound) (h : ∀ k ∈ ks, d.hasExpired now k = true) :
    (ks.foldl remove d).SameFrom now d where
  hasDirectory := by
    cases ks with
    | nil => rfl
    | cons k ks =>
      rw [(removals_cons d k ks).1, hd.hasDirectory (h k List.mem_cons_self)]
  answer := by
    intro now' k hnow
    rw [answer_removals]
    split
    · rename_i hk
      exact (answer_of_hasExpired (h k hk) hnow).symm
    · rfl

/-- Bodies stand at most once in the index, which is there if there is a directory that anything
stands in. -/
structure IsIndexed (d : Disk) : Prop where
  nodup : ((d.index.getD []).map (·.1)).Nodup
  index_eq_none : d.hasDirectory = false → d.index = none
  metadata_eq_nil : d.index = none → d.metadata = []

namespace IsIndexed

theorem sound (hd : d.IsIndexed) : d.Sound := fun hdir =>
  hd.metadata_eq_nil (hd.index_eq_none hdir)

theorem nodup_erase (hd : d.IsIndexed) (k : String) :
    (((d.index.getD []).erase k).map (·.1)).Nodup :=
  hd.nodup.sublist (List.filter_sublist.map _)

theorem put (hd : d.IsIndexed) (k : String) (data : Bytes) (m : Metadata) :
    (d.put k data m).IsIndexed where
  nodup := by
    have hk : k ∉ ((d.index.getD []).erase k).map (·.1) := by simp [KeyMap.erase]
    have hnodup := hd.nodup_erase k
    simp only [Disk.put, Option.getD_some, KeyMap.insert, List.map_append, List.map_cons,
      List.map_nil, List.nodup_append]
    refine ⟨hnodup, List.nodup_singleton k, ?_⟩
    rintro a ha b hb rfl
    exact hk (List.mem_singleton.1 hb ▸ ha)
  index_eq_none := nofun
  metadata_eq_nil := nofun

theorem remove (hd : d.IsIndexed) (k : String) : (d.remove k).IsIndexed where
  nodup := hd.nodup_erase k
  index_eq_none := nofun
  metadata_eq_nil := nofun

theorem removals (hd : d.IsIndexed) (ks : List String) : (ks.foldl Disk.remove d).IsIndexed := by
  induction ks generalizing d with
  | nil => exact hd
  | cons k ks ih => exact ih (hd.remove k)

theorem clear (hd : d.IsIndexed) : d.clear.2.IsIndexed := by
  unfold Disk.clear
  split
  · exact ⟨List.nodup_nil, nofun, fun _ => rfl⟩
  · exact hd

/-- What has expired stands in an index, so removing it makes none. -/
theorem index_removals (hd : d.IsIndexed) (h : ∀ k ∈ ks, d.hasExpired now k = true) :
    (ks.foldl Disk.remove d).index.isSome = d.index.isSome := by
  cases ks with
  | nil => rfl
  | cons k ks =>
    have hindex : d.index.isSome = true := by
      cases hi : d.index with
      | some m => rfl
      | none =>
        have hexpired := h k List.mem_cons_self
        rw [hasExpired, hd.metadata_eq_nil hi] at hexpired
        cases hexpired
    rw [(removals_cons d k ks).2, hindex]

theorem index_clear (hd : d.IsIndexed) : d.clear.2.index = none := by
  unfold Disk.clear
  split
  · rfl
  · rename_i hdir
    exact hd.index_eq_none (by simpa using hdir)

/-- A purge of a directory with an index answers the number of expired downloads. -/
theorem purge_eq_ok (hd : d.IsIndexed) (h : d.index.isSome = true) :
    (d.purge now).1 =
      .ok {k | ∃ r, d.Holds k r ∧ r.metadata.isExpired now = true}.ncard := by
  obtain ⟨m, hm⟩ := Option.isSome_iff_exists.1 h
  have hexpired (k : String) : k ∈ (m.map (·.1)).filter (d.hasExpired now) ↔
      ∃ r, d.Holds k r ∧ r.metadata.isExpired now = true := by
    have hbody : (d.body? k).isSome = true ↔ k ∈ m.map (·.1) := by
      simp only [body?, hm, Option.bind_some, KeyMap.isSome_get?]
    rw [List.mem_filter, ← hbody]
    constructor
    · rintro ⟨hsome, hold⟩
      obtain ⟨data, hdata⟩ := Option.isSome_iff_exists.1 hsome
      unfold hasExpired at hold
      split at hold
      · rename_i md hmd
        exact ⟨⟨data, md⟩, ⟨hmd, hdata⟩, hold⟩
      · cases hold
    · rintro ⟨r, ⟨hmd, hdata⟩, hold⟩
      exact ⟨by simp [hdata], by simpa [hasExpired, hmd] using hold⟩
  have hset : {k | ∃ r, d.Holds k r ∧ r.metadata.isExpired now = true} =
      ((m.map (·.1)).filter (d.hasExpired now)).toFinset := by
    ext k
    rw [Set.mem_ofPred_eq, ← hexpired, List.mem_toFinset.symm.trans Finset.mem_coe.symm]
  have hnodup : ((m.map (·.1)).filter (d.hasExpired now)).Nodup := by
    have hkeys := hd.nodup
    rw [hm] at hkeys
    exact hkeys.filter _
  rw [hset, Set.ncard_coe_finset, List.toFinset_card_of_nodup hnodup]
  simp [purge, hm]

end IsIndexed

theorem purge_eq_error (h : d.index = none) :
    (d.purge now).1 = .error (.cache "Failed to read cache index") := by
  simp [purge, h]

end Disk

def Answer.isPurged : Answer → Bool
  | .purged _ => true
  | _ => false

namespace Operation

def Writes (p : Policy) (now : Timestamp) : Operation → Prop
  | .put url data etag lastModified =>
    (p.download? now url data etag lastModified).isSome = true
  | .remove _ => True
  | .get _ | .purge | .clear | .restart | .forget _ => False

def Clears : Operation → Prop
  | .clear => True
  | .get _ | .put _ _ _ _ | .remove _ | .purge | .restart | .forget _ => False

end Operation

namespace Store
variable {s s' : Store} {p : Policy} {t now : Timestamp} {op : Operation}
variable {ops : List (Timestamp × Operation)}

/-- Two caches answer everything from a time on alike, but for purges. -/
structure SameFrom (t : Timestamp) (s s' : Store) : Prop where
  memory : s.memory = s'.memory
  disk : s.disk.SameFrom t s'.disk
  sound : s.disk.Sound
  sound' : s'.disk.Sound

theorem disk_get (hd : s.disk.Sound) (p : Policy) (now : Timestamp) (url : String) :
    (s.get p now url).2.disk.SameFrom now s.disk := by
  rcases get_cases s p now url with ⟨r, -, hget⟩ | ⟨r, -, hget⟩ | ⟨-, hget⟩
  · rw [hget]
    exact .refl now s.disk
  · rw [hget]
    exact .refl now s.disk
  · obtain ⟨ks, hks, hdisk⟩ := s.disk.expired_of_get now (key url)
    rw [hget]
    dsimp only
    rw [hdisk]
    exact Disk.sameFrom_removals hd hks

theorem disk_purge (hd : s.disk.Sound) (now : Timestamp) :
    (s.purge now).2.disk.SameFrom now s.disk := by
  obtain ⟨ks, hks, hdisk⟩ := s.disk.expired_of_purge now
  simp only [purge, hdisk]
  exact Disk.sameFrom_removals hd hks

/-- The cache after a purge is as good as the one before. -/
theorem sameFrom_purge (hd : s.disk.Sound) (now : Timestamp) :
    (s.purge now).2.SameFrom now s :=
  ⟨rfl, disk_purge hd now, sound_step hd {} now .purge, hd⟩

namespace SameFrom

theorem get (h : s.SameFrom t s') (ht : t.isAfter now = false) (p : Policy) (url : String) :
    (s.get p now url).1 = (s'.get p now url).1 ∧
      (s.get p now url).2.memory = (s'.get p now url).2.memory := by
  have hanswer := h.disk.answer now (key url) ht
  rcases hd : s.disk.get now (key url) with ⟨answer, disk⟩
  rcases hd' : s'.disk.get now (key url) with ⟨answer', disk'⟩
  rw [hd, hd'] at hanswer
  obtain rfl : answer = answer' := hanswer
  simp only [Store.get, h.memory, hd, hd']
  split
  · exact ⟨rfl, h.memory⟩
  · split <;> simp_all

/-- An operation answers alike, unless it is a purge, and leaves caches that go on doing so. -/
theorem step (h : s.SameFrom t s') (ht : t.isAfter now = false) (p : Policy) (op : Operation) :
    ((s.step p now op).1 = (s'.step p now op).1 ∨
      (s.step p now op).1.isPurged = true ∧ (s'.step p now op).1.isPurged = true) ∧
      (s.step p now op).2.SameFrom now (s'.step p now op).2 := by
  have hsound := sound_step h.sound p now op
  have hsound' := sound_step h.sound' p now op
  have hdisk := h.disk.later ht
  cases op with
  | get url =>
    obtain ⟨hanswer, hmemory⟩ := h.get ht p url
    have hget := (disk_get h.sound p now url).trans
      (hdisk.trans (disk_get h.sound' p now url).symm)
    exact ⟨.inl (congrArg Answer.found hanswer), hmemory, hget, hsound, hsound'⟩
  | put url data etag lastModified =>
    cases hr : p.download? now url data etag lastModified with
    | none =>
      have herror : (s.put p now url data etag lastModified).1 =
          (s'.put p now url data etag lastModified).1 := by
        have hm := Option.map_eq_none_iff.1 hr
        simp [Store.put, hm]
      refine ⟨.inl (congrArg Answer.stored herror), ?_⟩
      simp only [Store.step, put_of_no_download hr]
      exact ⟨h.memory, hdisk, h.sound, h.sound'⟩
    | some r =>
      simp only [Store.step, put_of_download hr, h.memory] at hsound hsound' ⊢
      exact ⟨.inl trivial, rfl, hdisk.put (key url) r.data r.metadata, hsound, hsound'⟩
  | remove url =>
    have hmemory : (s.remove url).memory = (s'.remove url).memory := by
      simp only [Store.remove, h.memory]
    exact ⟨.inl rfl, hmemory, hdisk.remove (key url), hsound, hsound'⟩
  | purge =>
    have hpurge := (disk_purge h.sound now).trans (hdisk.trans (disk_purge h.sound' now).symm)
    exact ⟨.inr ⟨rfl, rfl⟩, h.memory, hpurge, hsound, hsound'⟩
  | clear =>
    obtain ⟨hanswer, hclear⟩ := hdisk.clear
    exact ⟨.inl (congrArg Answer.cleared hanswer), rfl, hclear, hsound, hsound'⟩
  | restart => exact ⟨.inl rfl, rfl, hdisk, hsound, hsound'⟩
  | forget url =>
    have hmemory : s.memory.forget (key url) = s'.memory.forget (key url) := by rw [h.memory]
    exact ⟨.inl rfl, hmemory, hdisk, hsound, hsound'⟩

theorem run (h : s.SameFrom t s') (p : Policy)
    (hclock : (t :: ops.map (·.1)).Pairwise fun t t' => t.isAfter t' = false) :
    (s.run p ops).1.filter (! ·.isPurged) = (s'.run p ops).1.filter (! ·.isPurged) := by
  induction ops generalizing s s' t with
  | nil => rfl
  | cons o ops ih =>
    obtain ⟨now, op⟩ := o
    obtain ⟨hfirst, hlater⟩ := List.pairwise_cons.1 hclock
    obtain ⟨hanswer, hnext⟩ := h.step (hfirst now List.mem_cons_self) p op
    have hrest := ih hnext hlater
    simp only [Store.run, List.filter_cons]
    rcases hanswer with heq | ⟨hpurged, hpurged'⟩
    · rw [heq, hrest]
    · simp [hpurged, hpurged', hrest]

end SameFrom

theorem isIndexed_step (hd : s.disk.IsIndexed) (p : Policy) (now : Timestamp) (op : Operation) :
    (s.step p now op).2.disk.IsIndexed := by
  cases op with
  | get url =>
    obtain ⟨ks, hks⟩ := s.removals_of_get p now url
    simp only [step, hks]
    exact hd.removals ks
  | put url data etag lastModified =>
    cases hr : p.download? now url data etag lastModified with
    | none =>
      simp only [step, put_of_no_download hr]
      exact hd
    | some r =>
      simp only [step, put_of_download hr]
      exact hd.put (key url) r.data r.metadata
  | remove url => exact hd.remove (key url)
  | purge =>
    obtain ⟨ks, hks⟩ := s.disk.removals_of_purge now
    simp only [step, purge, hks]
    exact hd.removals ks
  | clear => exact hd.clear
  | restart => exact hd
  | forget url => exact hd

/-- There is an index after an operation that writes to it, and after any other but a clearing one if
there was one before. -/
theorem index_step (hd : s.disk.IsIndexed) (p : Policy) (now : Timestamp) (op : Operation) :
    (s.step p now op).2.disk.index.isSome = true ↔
      op.Writes p now ∨ (s.disk.index.isSome = true ∧ ¬ op.Clears) := by
  cases op with
  | get url =>
    have hindex : (s.get p now url).2.disk.index.isSome = s.disk.index.isSome := by
      rcases get_cases s p now url with ⟨r, -, hget⟩ | ⟨r, -, hget⟩ | ⟨-, hget⟩
      · rw [hget]
      · rw [hget]
      · obtain ⟨ks, hks, hdisk⟩ := s.disk.expired_of_get now (key url)
        rw [hget]
        dsimp only
        rw [hdisk, hd.index_removals hks]
    simp [step, hindex, Operation.Writes, Operation.Clears]
  | put url data etag lastModified =>
    cases hr : p.download? now url data etag lastModified with
    | none => simp [step, put_of_no_download hr, Operation.Writes, Operation.Clears, hr]
    | some r => simp [step, put_of_download hr, Disk.put, Operation.Writes, hr]
  | remove url => simp [step, remove, Disk.remove, Operation.Writes]
  | purge =>
    obtain ⟨ks, hks, hdisk⟩ := s.disk.expired_of_purge now
    simp [step, purge, hdisk, hd.index_removals hks, Operation.Writes, Operation.Clears]
  | clear => simp [step, clear, hd.index_clear, Operation.Writes, Operation.Clears]
  | restart => simp [step, restart, Operation.Writes, Operation.Clears]
  | forget url => simp [step, Operation.Writes, Operation.Clears]

theorem isIndexed_after (p : Policy) (ops : List (Timestamp × Operation)) :
    (after p ops).disk.IsIndexed := by
  induction ops using List.reverseRecOn with
  | nil => exact ⟨List.nodup_nil, fun _ => rfl, fun _ => rfl⟩
  | append_singleton ops o ih =>
    rw [after_concat]
    exact isIndexed_step ih p o.1 o.2

/-- Something has been written to the index, and it has not been cleared since. -/
def HasIndex (p : Policy) : List (Timestamp × Operation) → Prop :=
  Since (fun _ o => o.2.Writes p o.1) (fun o => o.2.Clears)

theorem index_after (p : Policy) (ops : List (Timestamp × Operation)) :
    (after p ops).disk.index.isSome = true ↔ HasIndex p ops := by
  induction ops using List.reverseRecOn with
  | nil =>
    constructor
    · exact nofun
    · rintro ⟨xs, x, ys, hops, -, -⟩
      simp at hops
  | append_singleton ops o ih =>
    rw [after_concat, index_step (isIndexed_after p ops), ih, HasIndex, Since.concat_iff]

/-- A purge at any point makes no difference to what any operation that follows answers, but for
purges. It answers the number of downloads on disk that have expired by then, or fails where there is
no index to go through: where nothing has been stored or removed since the directory was cleared. -/
theorem purge_invisible (p : Policy) (xs ys : List (Timestamp × Operation)) (now : Timestamp)
    (hclock : (now :: ys.map (·.1)).Pairwise fun t t' => t.isAfter t' = false) :
    (run {} p (xs ++ (now, .purge) :: ys)).1.filter (! ·.isPurged) =
        (run {} p (xs ++ ys)).1.filter (! ·.isPurged) ∧
      (HasIndex p xs → ((after p xs).purge now).1 = .ok {k | ∃ r,
        (after p xs).disk.Holds k r ∧ r.metadata.isExpired now = true}.ncard) ∧
      (¬ HasIndex p xs → ((after p xs).purge now).1 =
        .error (.cache "Failed to read cache index")) := by
  have hindexed := isIndexed_after p xs
  refine ⟨?_, fun hindex => ?_, fun hindex => ?_⟩
  · have hrest := (sameFrom_purge hindexed.sound now).run p hclock
    rw [run_append, run_append, List.filter_append, List.filter_append]
    exact congrArg _ hrest
  · exact hindexed.purge_eq_ok ((index_after p xs).2 hindex)
  · refine Disk.purge_eq_error ?_
    rw [← Option.not_isSome_iff_eq_none, index_after]
    exact hindex

def hourly : Policy := { lifetime := .ofParts 3600 0 }

def halfHourOps : List (Timestamp × Operation) := [
  (⟨1767225600, 0⟩, .put "https://example.com/a.sch" [97] none none),
  (⟨1767227400, 0⟩, .put "https://example.com/b.sch" [98] none none)]

def askedOps : List (Timestamp × Operation) := [
  (⟨1767229202, 0⟩, .restart),
  (⟨1767229203, 0⟩, .get "https://example.com/a.sch"),
  (⟨1767229204, 0⟩, .get "https://example.com/b.sch")]

theorem purge_invisible_half_hour :
    ((⟨1767229201, 0⟩ : Timestamp) :: askedOps.map (·.1)).Pairwise
        (fun t t' => t.isAfter t' = false) ∧
      HasIndex hourly halfHourOps ∧
      ((after hourly halfHourOps).purge ⟨1767229201, 0⟩).1 = .ok 1 ∧
      (run {} hourly (halfHourOps ++ (⟨1767229201, 0⟩, .purge) :: askedOps)).1.filter
          (! ·.isPurged) =
        (run {} hourly (halfHourOps ++ askedOps)).1.filter (! ·.isPurged) ∧
      ((after hourly halfHourOps).purge ⟨1767229201, 0⟩).1 = .ok {k | ∃ r,
        (after hourly halfHourOps).disk.Holds k r ∧
          r.metadata.isExpired ⟨1767229201, 0⟩ = true}.ncard := by
  have hclock : ((⟨1767229201, 0⟩ : Timestamp) :: askedOps.map (·.1)).Pairwise
      (fun t t' => t.isAfter t' = false) := by decide
  have hindex : HasIndex hourly halfHourOps := (index_after _ _).1 (by decide +kernel)
  obtain ⟨hrest, hcount, -⟩ := purge_invisible hourly halfHourOps askedOps _ hclock
  exact ⟨hclock, hindex, by decide +kernel, hrest, hcount hindex⟩

/-- A purge does not always answer the number of expired downloads: it fails before anything has been
stored. -/
theorem not_forall_purge_counts :
    ¬ ∀ (p : Policy) (ops : List (Timestamp × Operation)) (now : Timestamp),
      Chronological ops now → ((after p ops).purge now).1 = .ok {k | ∃ r,
        (after p ops).disk.Holds k r ∧ r.metadata.isExpired now = true}.ncard := by
  intro hall
  have hcount := hall {} [] ⟨1767225600, 0⟩ (by decide)
  have hfails : ((after {} []).purge ⟨1767225600, 0⟩).1 =
      .error (.cache "Failed to read cache index") := rfl
  rw [hfails] at hcount
  cases hcount

end Store

end Cache

end Schematron
