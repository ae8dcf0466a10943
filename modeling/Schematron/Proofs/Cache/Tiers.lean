import Schematron.Cache.Store
import Mathlib.Data.List.Induction

/-!
# The two tiers of a cache

What memory and disk hold under a key, and where it comes from. After an operation memory holds what
it held before, what the operation has found on disk, or what it has stored (`Store.memory_step`);
disk holds what it held before or what the operation has stored (`Store.disk_step`).
-/
namespace Schematron.Cache

theorem KeyMap.mem_of_get? {α : Type} {m : KeyMap α} {k : String} {a : α} (h : m.get? k = some a) :
    (k, a) ∈ m := by
  obtain ⟨⟨k', a'⟩, hfind, rfl⟩ := Option.map_eq_some_iff.1 h
  have hk := List.find?_some hfind
  obtain rfl : k' = k := by simpa using hk
  exact List.mem_of_find?_eq_some hfind

namespace Memory
variable {m : Memory} {b : MemoryBounds} {now t : Timestamp} {k k' : String} {r r' : Resource}

/-- A download was put into memory under a key at a time, and is still there. -/
def Holds (m : Memory) (k : String) (r : Resource) (t : Timestamp) : Prop := (k, r, t) ∈ m.entries

theorem holds_of_get? (h : m.get? b now k = some r) :
    ∃ t, m.Holds k r t ∧ isLive b now t = true := by
  obtain ⟨⟨r', t⟩, hfilter, rfl⟩ := Option.map_eq_some_iff.1 h
  obtain ⟨hget, hlive⟩ := Option.filter_eq_some_iff.1 hfilter
  exact ⟨t, KeyMap.mem_of_get? hget, hlive⟩

theorem holds_forget : (m.forget k).Holds k' r t ↔ m.Holds k' r t ∧ k' ≠ k := by
  simp [Holds, forget, KeyMap.erase]

theorem holds_of_holds_put (h : (m.put b now k r).Holds k' r' t) :
    (m.Holds k' r' t ∧ k' ≠ k) ∨ (k' = k ∧ r' = r ∧ t = now) := by
  have hothers : ∀ e ∈ (m.live b now).erase k, e ∈ m.entries ∧ e.1 ≠ k := by
    intro e he
    obtain ⟨hlive, hne⟩ := List.mem_filter.1 he
    exact ⟨(List.mem_filter.1 hlive).1, by simpa using hne⟩
  unfold put at h
  dsimp only at h
  split at h
  · rcases List.mem_append.1 h with hold | hnew
    · obtain ⟨hmem, hne⟩ := List.mem_filter.1 hold
      exact .inl ⟨(hothers _ hmem).1, by simpa using hne⟩
    · simp only [List.mem_singleton, Prod.mk.injEq] at hnew
      exact .inr hnew
  · exact .inl (hothers _ h)

end Memory

namespace Disk
variable {d : Disk} {now : Timestamp} {k k' : String} {r : Resource}

def Holds (d : Disk) (k : String) (r : Resource) : Prop :=
  d.metadata.get? k = some (some r.metadata) ∧ d.body? k = some r.data

/-- There is nothing on disk where there is no directory. -/
def Sound (d : Disk) : Prop := d.hasDirectory = false → d.metadata = []

theorem Sound.not_holds (hd : d.Sound) (hdir : d.hasDirectory = false) : ¬ d.Holds k r := by
  intro h
  have hget := h.1
  rw [hd hdir] at hget
  cases hget

theorem body?_eq (d : Disk) (k : String) : d.body? k = (d.index.getD []).get? k := by
  cases hi : d.index <;> simp [body?, hi, KeyMap.get?]

theorem body?_put (d : Disk) (k k' : String) (data : Bytes) (m : Metadata) :
    (d.put k data m).body? k' = if k' = k then some data else d.body? k' := by
  rw [body?_eq, body?_eq]
  exact KeyMap.get?_insert (d.index.getD []) k k' data

theorem body?_remove (d : Disk) (k k' : String) :
    (d.remove k).body? k' = if k' = k then none else d.body? k' := by
  rw [body?_eq, body?_eq]
  exact KeyMap.get?_erase (d.index.getD []) k k'

theorem holds_put {data : Bytes} {m : Metadata} :
    (d.put k data m).Holds k' r ↔ if k' = k then r = ⟨data, m⟩ else d.Holds k' r := by
  have hmetadata : (d.put k data m).metadata.get? k' =
      if k' = k then some (some m) else d.metadata.get? k' :=
    KeyMap.get?_insert d.metadata k k' (some m)
  simp only [Holds, body?_put, hmetadata]
  by_cases hk : k' = k
  · obtain ⟨data', m'⟩ := r
    simp [hk, eq_comm, and_comm]
  · simp [hk]

theorem holds_remove : (d.remove k).Holds k' r ↔ d.Holds k' r ∧ k' ≠ k := by
  have hmetadata : (d.remove k).metadata.get? k' =
      if k' = k then none else d.metadata.get? k' := KeyMap.get?_erase d.metadata k k'
  simp only [Holds, body?_remove, hmetadata]
  by_cases hk : k' = k <;> simp [hk]

theorem holds_of_holds_removals {ks : List String} (h : (ks.foldl remove d).Holds k' r) :
    d.Holds k' r := by
  induction ks generalizing d with
  | nil => exact h
  | cons k ks ih => exact (holds_remove.1 (ih h)).1

theorem Sound.removals (hd : d.Sound) (ks : List String) : (ks.foldl remove d).Sound := by
  induction ks generalizing d with
  | nil => exact hd
  | cons k ks ih => exact ih (d := d.remove k) nofun

/-- What a look-up finds on disk has not expired, and stays there. -/
theorem holds_of_get {d' : Disk} (h : d.get now k = (.ok (some r), d')) :
    d.Holds k r ∧ r.metadata.isExpired now = false ∧ d' = d := by
  unfold get at h
  split at h
  · cases h
  · cases h
  · rename_i m hm
    split at h
    · cases h
    · rename_i hexpired
      obtain ⟨hbody, rfl⟩ := Prod.mk.inj h
      obtain ⟨data, hdata, rfl⟩ := Option.map_eq_some_iff.1 (Except.ok.inj hbody)
      exact ⟨⟨hm, hdata⟩, by simpa using hexpired, rfl⟩

/-- A look-up removes what it finds expired, and changes nothing else. -/
theorem removals_of_get (d : Disk) (now : Timestamp) (k : String) :
    ∃ ks : List String, (d.get now k).2 = ks.foldl remove d := by
  unfold get
  split
  · exact ⟨[], rfl⟩
  · exact ⟨[], rfl⟩
  · split
    · exact ⟨[k], rfl⟩
    · exact ⟨[], rfl⟩

theorem removals_of_purge (d : Disk) (now : Timestamp) :
    ∃ ks : List String, (d.purge now).2 = ks.foldl remove d := by
  unfold purge
  split
  · exact ⟨[], rfl⟩
  · exact ⟨_, rfl⟩

theorem Sound.not_holds_clear (hd : d.Sound) : ¬ d.clear.2.Holds k r := by
  unfold clear
  split
  · intro h
    cases h.1
  · rename_i hdir
    exact hd.not_holds (by simpa using hdir)

theorem Sound.clear (hd : d.Sound) : d.clear.2.Sound := by
  unfold Disk.clear
  split
  · exact nofun
  · exact hd

end Disk

/-- The download that a put stores, if there is a date for its end. -/
def Policy.download? (p : Policy) (now : Timestamp) (url : String) (data : Bytes)
    (etag lastModified : Option String) : Option Resource :=
  (Metadata.ofDownload? now url data.length p.lifetime).map fun m =>
    ⟨data, { m with etag, lastModified }⟩

theorem Policy.of_download {p : Policy} {now : Timestamp} {url : String} {data : Bytes}
    {etag lastModified : Option String} {r : Resource}
    (h : p.download? now url data etag lastModified = some r) :
    r.data = data ∧ r.metadata.url = url ∧ r.metadata.storedAt = now ∧
      r.metadata.size = data.length ∧ r.metadata.etag = etag ∧
      r.metadata.lastModified = lastModified := by
  obtain ⟨m, hm, rfl⟩ := Option.map_eq_some_iff.1 h
  obtain ⟨expiresAt, -, hpure⟩ := Option.bind_eq_some_iff.1 hm
  cases hpure
  exact ⟨rfl, rfl, rfl, rfl, rfl, rfl⟩

namespace Operation

def Stores (p : Policy) (now : Timestamp) (k : String) (r : Resource) : Operation → Prop
  | .put url data etag lastModified =>
    key url = k ∧ p.download? now url data etag lastModified = some r
  | .get _ | .remove _ | .purge | .clear | .restart | .forget _ => False

/-- An operation stores something under a key, or drops what is stored there. -/
def Replaces (p : Policy) (now : Timestamp) (k : String) : Operation → Prop
  | .put url data etag lastModified =>
    key url = k ∧ (p.download? now url data etag lastModified).isSome = true
  | .remove url => key url = k
  | .clear => True
  | .get _ | .purge | .restart | .forget _ => False

/-- An operation leaves nothing in memory that was there under a key before. -/
def Loses (p : Policy) (now : Timestamp) (k : String) : Operation → Prop
  | .restart => True
  | .forget url => key url = k
  | op => op.Replaces p now k

end Operation

def Answer.download? : Answer → Option Resource
  | .found (.ok r) => r
  | .stored (.ok r) => some r
  | _ => none

namespace Store
variable {s : Store} {p : Policy} {now t : Timestamp} {op : Operation} {k url : String}
variable {r : Resource}

theorem put_of_download {data : Bytes} {etag lastModified : Option String}
    (h : p.download? now url data etag lastModified = some r) :
    s.put p now url data etag lastModified =
      (.ok r, ⟨s.memory.put p.memory now (key url) r, s.disk.put (key url) r.data r.metadata⟩) := by
  obtain ⟨m, hm, rfl⟩ := Option.map_eq_some_iff.1 h
  simp [put, hm]

theorem put_eq_ok {data : Bytes} {etag lastModified : Option String} :
    (s.put p now url data etag lastModified).1 = .ok r ↔
      p.download? now url data etag lastModified = some r := by
  cases hm : Metadata.ofDownload? now url data.length p.lifetime <;>
    simp [put, Policy.download?, hm]

theorem put_of_no_download {data : Bytes} {etag lastModified : Option String}
    (h : p.download? now url data etag lastModified = none) :
    (s.put p now url data etag lastModified).2 = s := by
  have hm := Option.map_eq_none_iff.1 h
  simp [put, hm]

/-- What a look-up does: it finds a download in memory, which stays as it is, or finds one on disk
and puts it into memory, or finds nothing. -/
theorem get_cases (s : Store) (p : Policy) (now : Timestamp) (url : String) :
    (∃ r, s.memory.get? p.memory now (key url) = some r ∧ s.get p now url = (.ok (some r), s)) ∨
    (∃ r, s.disk.get now (key url) = (.ok (some r), s.disk) ∧
      s.get p now url = (.ok (some r), ⟨s.memory.put p.memory now (key url) r, s.disk⟩)) ∨
    ((∀ r, (s.get p now url).1 ≠ .ok (some r)) ∧
      (s.get p now url).2 = { s with disk := (s.disk.get now (key url)).2 }) := by
  cases hm : s.memory.get? p.memory now (key url) with
  | some r => exact .inl ⟨r, rfl, by simp [get, hm]⟩
  | none =>
    rcases hd : s.disk.get now (key url) with ⟨answer, disk⟩
    cases answer with
    | error e => exact .inr (.inr (by simp [get, hm, hd]))
    | ok found =>
      cases found with
      | none => exact .inr (.inr (by simp [get, hm, hd]))
      | some r =>
        obtain ⟨_, _, rfl⟩ := Disk.holds_of_get hd
        exact .inr (.inl ⟨r, rfl, by simp [get, hm, hd]⟩)

theorem removals_of_get (s : Store) (p : Policy) (now : Timestamp) (url : String) :
    ∃ ks : List String, (s.get p now url).2.disk = ks.foldl Disk.remove s.disk := by
  rcases get_cases s p now url with ⟨r, -, hget⟩ | ⟨r, -, hget⟩ | ⟨-, hget⟩
  · rw [hget]
    exact ⟨[], rfl⟩
  · rw [hget]
    exact ⟨[], rfl⟩
  · rw [hget]
    exact s.disk.removals_of_get now (key url)

/-- What memory holds after an operation was there before and has not been lost, has been found on
disk, or has been stored. -/
theorem memory_step (h : (s.step p now op).2.memory.Holds k r t) :
    (s.memory.Holds k r t ∧ ¬ op.Loses p now k) ∨
    (t = now ∧ s.disk.Holds k r ∧ r.metadata.isExpired now = false ∧
      (∃ url, key url = k ∧ op = .get url) ∧ (s.step p now op).1.download? = some r) ∨
    (t = now ∧ op.Stores p now k r ∧ (s.step p now op).1.download? = some r) := by
  cases op with
  | get url =>
    have hloses : ¬ (Operation.get url).Loses p now k := fun hl => hl
    rcases get_cases s p now url with ⟨r', -, hget⟩ | ⟨r', hdisk, hget⟩ | ⟨-, hget⟩
    · simp only [step, hget] at h ⊢
      exact .inl ⟨h, hloses⟩
    · simp only [step, hget] at h ⊢
      rcases Memory.holds_of_holds_put h with ⟨hold, -⟩ | ⟨rfl, rfl, rfl⟩
      · exact .inl ⟨hold, hloses⟩
      · obtain ⟨hholds, hfresh, -⟩ := Disk.holds_of_get hdisk
        exact .inr (.inl ⟨rfl, hholds, hfresh, ⟨url, rfl, rfl⟩, rfl⟩)
    · simp only [step, hget] at h
      exact .inl ⟨h, hloses⟩
  | put url data etag lastModified =>
    cases hr : p.download? now url data etag lastModified with
    | none =>
      have hloses : ¬ (Operation.put url data etag lastModified).Loses p now k := by
        rintro ⟨-, hsome⟩
        simp [hr] at hsome
      simp only [step, put_of_no_download hr] at h
      exact .inl ⟨h, hloses⟩
    | some r' =>
      simp only [step, put_of_download hr] at h ⊢
      rcases Memory.holds_of_holds_put h with ⟨hold, hne⟩ | ⟨rfl, rfl, rfl⟩
      · exact .inl ⟨hold, fun hl => hne hl.1.symm⟩
      · exact .inr (.inr ⟨rfl, ⟨rfl, hr⟩, rfl⟩)
  | remove url =>
    obtain ⟨hold, hne⟩ := Memory.holds_forget.1 h
    exact .inl ⟨hold, fun hl => hne hl.symm⟩
  | purge => exact .inl ⟨h, fun hl => hl⟩
  | clear => cases h
  | restart => cases h
  | forget url =>
    obtain ⟨hold, hne⟩ := Memory.holds_forget.1 h
    exact .inl ⟨hold, fun hl => hne hl.symm⟩

/-- What disk holds after an operation was there before and has not been replaced, or has been
stored. -/
theorem disk_step (hd : s.disk.Sound) (h : (s.step p now op).2.disk.Holds k r) :
    (s.disk.Holds k r ∧ ¬ op.Replaces p now k) ∨ op.Stores p now k r := by
  cases op with
  | get url =>
    obtain ⟨ks, hks⟩ := s.removals_of_get p now url
    simp only [step, hks] at h
    exact .inl ⟨Disk.holds_of_holds_removals h, fun hr => hr⟩
  | put url data etag lastModified =>
    cases hr : p.download? now url data etag lastModified with
    | none =>
      have hreplaces : ¬ (Operation.put url data etag lastModified).Replaces p now k := by
        rintro ⟨-, hsome⟩
        simp [hr] at hsome
      simp only [step, put_of_no_download hr] at h
      exact .inl ⟨h, hreplaces⟩
    | some r' =>
      simp only [step, put_of_download hr, Disk.holds_put] at h
      split at h
      · rename_i hk
        subst hk h
        exact .inr ⟨rfl, hr⟩
      · rename_i hk
        exact .inl ⟨h, fun hreplaces => hk hreplaces.1.symm⟩
  | remove url =>
    obtain ⟨hold, hne⟩ := Disk.holds_remove.1 h
    exact .inl ⟨hold, fun hr => hne hr.symm⟩
  | purge =>
    obtain ⟨ks, hks⟩ := s.disk.removals_of_purge now
    simp only [step, purge, hks] at h
    exact .inl ⟨Disk.holds_of_holds_removals h, fun hr => hr⟩
  | clear => exact absurd h hd.not_holds_clear
  | restart => exact .inl ⟨h, fun hr => hr⟩
  | forget url => exact .inl ⟨h, fun hr => hr⟩

theorem sound_step (hd : s.disk.Sound) (p : Policy) (now : Timestamp) (op : Operation) :
    (s.step p now op).2.disk.Sound := by
  cases op with
  | get url =>
    obtain ⟨ks, hks⟩ := s.removals_of_get p now url
    simp only [step, hks]
    exact hd.removals ks
  | put url data etag lastModified =>
    cases hr : p.download? now url data etag lastModified with
    | none =>
      simp only [step, put_of_no_download hr]
      exact hd
    | some r =>
      simp only [step, put_of_download hr]
      exact nofun
  | remove url => exact nofun
  | purge =>
    obtain ⟨ks, hks⟩ := s.disk.removals_of_purge now
    simp only [step, purge, hks]
    exact hd.removals ks
  | clear => exact hd.clear
  | restart => exact hd
  | forget url => exact hd

end Store

def Chronological (ops : List (Timestamp × Operation)) (now : Timestamp) : Prop :=
  (ops.map (·.1) ++ [now]).Pairwise fun t t' => t.isAfter t' = false

instance (ops : List (Timestamp × Operation)) (now : Timestamp) :
    Decidable (Chronological ops now) :=
  inferInstanceAs (Decidable (List.Pairwise _ _))

/-- Something happened in a history, and what would undo it has not happened since. -/
def Since {α : Type} (happens : List α → α → Prop) (undoes : α → Prop) (history : List α) : Prop :=
  ∃ xs x ys, history = xs ++ x :: ys ∧ happens xs x ∧ ∀ y ∈ ys, ¬ undoes y

theorem Since.last {α : Type} {happens : List α → α → Prop} {undoes : α → Prop} {xs : List α}
    {x : α} (h : happens xs x) : Since happens undoes (xs ++ [x]) :=
  ⟨xs, x, [], rfl, h, nofun⟩

theorem Since.concat {α : Type} {happens : List α → α → Prop} {undoes : α → Prop} {xs : List α}
    {x : α} (h : Since happens undoes xs) (hx : ¬ undoes x) : Since happens undoes (xs ++ [x]) := by
  obtain ⟨before, e, later, rfl, he, hlater⟩ := h
  refine ⟨before, e, later ++ [x], by simp, he, fun y hy => ?_⟩
  rcases List.mem_append.1 hy with hy | hy
  · exact hlater y hy
  · rwa [List.mem_singleton.1 hy]

theorem Since.concat_iff {α : Type} {happens : List α → α → Prop} {undoes : α → Prop} {xs : List α}
    {x : α} : Since happens undoes (xs ++ [x]) ↔
      happens xs x ∨ (Since happens undoes xs ∧ ¬ undoes x) := by
  constructor
  · rintro ⟨before, e, later, heq, he, hlater⟩
    rcases List.eq_nil_or_concat later with rfl | ⟨later, y, rfl⟩
    · obtain ⟨rfl, hx⟩ := List.append_inj' heq rfl
      cases hx
      exact .inl he
    · have heq' : xs ++ [x] = (before ++ e :: later) ++ [y] := by simpa using heq
      obtain ⟨rfl, hx⟩ := List.append_inj' heq' rfl
      cases hx
      exact .inr ⟨⟨before, e, later, rfl, he, fun y hy => hlater y (by simp [hy])⟩,
        hlater x (by simp)⟩
  · rintro (h | ⟨h, hx⟩)
    · exact .last h
    · exact h.concat hx

namespace Store

def after (p : Policy) (ops : List (Timestamp × Operation)) : Store := (run {} p ops).2

theorem run_append (s : Store) (p : Policy) (xs ys : List (Timestamp × Operation)) :
    s.run p (xs ++ ys) = ((s.run p xs).1 ++ ((s.run p xs).2.run p ys).1,
      ((s.run p xs).2.run p ys).2) := by
  induction xs generalizing s with
  | nil => rfl
  | cons x xs ih => simp [run, ih]

theorem after_concat (p : Policy) (ops : List (Timestamp × Operation)) (o : Timestamp × Operation) :
    after p (ops ++ [o]) = ((after p ops).step p o.1 o.2).2 := by
  simp [after, run_append, run]

theorem sound_after (p : Policy) (ops : List (Timestamp × Operation)) :
    (after p ops).disk.Sound := by
  induction ops using List.reverseRecOn with
  | nil => exact fun _ => rfl
  | append_singleton ops o ih =>
    rw [after_concat]
    exact sound_step ih p o.1 o.2

end Store

end Schematron.Cache
