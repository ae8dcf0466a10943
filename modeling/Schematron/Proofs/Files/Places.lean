import Schematron.Files.System
import Schematron.Proofs.Sequencing

/-!
# The places that paths lead to

Writing files changes what some places hold, and may let a path that led nowhere lead somewhere. A
file system has grown from another one (`Grows`) if files are all that has come to it, at places that
held a file or nothing. A path that led to a place, or failed for another reason than that something
on its way is missing, does the same afterwards (`Grows.locate`). Where everything stands in a
directory, the place that a path leads to never holds a link (`isLink_locate`).
-/
namespace Schematron

def FileEntry.isLink : FileEntry → Bool
  | .link _ => true
  | _ => false

namespace FileSystem

/-- What stands anywhere stands in a directory. -/
def IsTree (fs : FileSystem) : Prop :=
  ∀ place, (fs.find? place).isSome = true → fs.find? place.dropLast = some .directory

/-- Files are all that one file system has more than another one, and neither a directory nor a link
has given way to them. -/
def Grows (fs fs' : FileSystem) : Prop :=
  ∀ place, fs'.find? place = fs.find? place ∨
    fs.find? place ≠ some .directory ∧ (fs.find? place).any FileEntry.isLink = false ∧
      ∃ data, fs'.find? place = some (.file data)

@[simp] theorem find?_nil (fs : FileSystem) : fs.find? [] = some .directory := rfl

theorem ne_nil_of_find?_ne {fs : FileSystem} {place : Place} (h : fs.find? place ≠ some .directory) :
    place ≠ [] := by
  rintro rfl
  exact h fs.find?_nil

namespace Grows
variable {fs fs' : FileSystem}

theorem refl (fs : FileSystem) : Grows fs fs := fun _ => .inl rfl

theorem find?_directory (h : Grows fs fs') {place : Place} :
    fs'.find? place = some .directory ↔ fs.find? place = some .directory := by
  obtain hsame | ⟨hno, _, data, hdata⟩ := h place
  · rw [hsame]
  · rw [hdata]
    simp [hno]

theorem find?_link (h : Grows fs fs') {place : Place} {t : String}
    (ht : fs.find? place = some (.link t)) : fs'.find? place = some (.link t) := by
  obtain hsame | ⟨_, hno, _⟩ := h place
  · rw [hsame, ht]
  · rw [ht] at hno
    cases hno

/-- What is there and is no link stays so. -/
theorem find?_entry (h : Grows fs fs') {place : Place} {e : FileEntry}
    (he : fs.find? place = some e) (hlink : e.isLink = false) :
    ∃ e', fs'.find? place = some e' ∧ e'.isLink = false := by
  obtain hsame | ⟨_, _, data, hdata⟩ := h place
  · exact ⟨e, hsame.trans he, hlink⟩
  · exact ⟨.file data, hdata, rfl⟩

end Grows

/-- A step into a directory leads to what stands there under its name. -/
theorem follow_entry {fs : FileSystem} {links : Nat} {place : Place} {n : String} {ns : List String}
    (hdirectory : fs.find? place = some .directory) (hsame : n ≠ ".") (hup : n ≠ "..")
    (hshort : ¬ maxNameBytes < n.utf8ByteSize) :
    fs.follow links place (n :: ns) =
      match fs.find? (place ++ [n]) with
      | none => if ns.isEmpty then .ok (place ++ [n]) else .error .notFound
      | some (.link t) =>
        match links with
        | 0 => .error .tooManyLinks
        | links + 1 => fs.follow links (if Path.isAbsolute t then [] else place) (steps t ++ ns)
      | some _ => fs.follow links (place ++ [n]) ns := by
  rewrite [follow, if_neg (by simp [hdirectory]), if_neg (by simpa using hsame),
    if_neg (by simpa using hup), if_neg hshort]
  rcases fs.find? (place ++ [n]) with _ | ⟨_ | _ | t⟩
  · rfl
  · rfl
  · rfl
  · cases links <;> rfl

/-- A path that led somewhere, or failed for another reason than that something on its way is
missing, does the same when files have come. -/
theorem Grows.follow {fs fs' : FileSystem} (h : Grows fs fs') {links : Nat} {place : Place}
    {ns : List String} (hfound : fs.follow links place ns ≠ .error .notFound) :
    fs'.follow links place ns = fs.follow links place ns := by
  have hdirectory {place : Place} (hno : ¬ (fs.find? place != some .directory) = true) :
      fs'.find? place = some .directory := by
    rw [h.find?_directory]
    simpa using hno
  fun_induction FileSystem.follow fs links place ns with
  | case1 links place => rw [FileSystem.follow]
  | case2 links place n ns hno =>
    have hno' : fs'.find? place ≠ some .directory := by
      rw [ne_eq, h.find?_directory]
      simpa using hno
    rw [FileSystem.follow, if_pos (by simpa using hno')]
  | case3 links place n ns hplace hn ih =>
    rw [FileSystem.follow]
    simp [hdirectory hplace, hn, ih hfound]
  | case4 links place n ns hplace hn hup ih =>
    rw [FileSystem.follow]
    simp [hdirectory hplace, hn, hup, ih hfound]
  | case5 links place n ns hplace hn hup hlong =>
    rw [FileSystem.follow]
    simp [hdirectory hplace, hn, hup, hlong]
  | case6 links place n ns hplace hn hup hshort hnone hlast =>
    rw [follow_entry (hdirectory hplace) (by simpa using hn) (by simpa using hup) hshort]
    obtain hsame | ⟨_, _, data, hdata⟩ := h (place ++ [n])
    · simp [hsame, hnone, hlast]
    · rw [List.isEmpty_iff.1 hlast, hdata, FileSystem.follow]
  | case7 links place n ns hplace hn hup hshort hnone hmore => exact absurd rfl hfound
  | case8 place n ns hplace hn hup hshort t hlink =>
    rw [follow_entry (hdirectory hplace) (by simpa using hn) (by simpa using hup) hshort,
      h.find?_link hlink]
  | case9 place n ns hplace hn hup hshort t hlink links ih =>
    rw [follow_entry (hdirectory hplace) (by simpa using hn) (by simpa using hup) hshort,
      h.find?_link hlink]
    exact ih hfound
  | case10 links place n ns hplace hn hup hshort e hno hentry ih =>
    obtain ⟨e', he', hlink'⟩ := h.find?_entry hentry (by cases e <;> simp_all [FileEntry.isLink])
    rw [follow_entry (hdirectory hplace) (by simpa using hn) (by simpa using hup) hshort, he']
    cases e' with
    | link t => cases hlink'
    | file data => exact ih hfound
    | directory => exact ih hfound

/-- The place that steps lead to holds no link. -/
theorem isLink_follow {fs : FileSystem} (htree : fs.IsTree) {links : Nat} {place p : Place}
    {ns : List String} (hplace : (fs.find? place).any FileEntry.isLink = false)
    (h : fs.follow links place ns = .ok p) : (fs.find? p).any FileEntry.isLink = false := by
  fun_induction FileSystem.follow fs links place ns with
  | case1 links place =>
    cases h
    exact hplace
  | case3 links place n ns _ hn ih => exact ih hplace h
  | case4 links place n ns hdirectory hn hup ih =>
    refine ih ?_ h
    have hparent : fs.find? place.dropLast = some .directory := htree place (by simp_all)
    rw [hparent]
    rfl
  | case6 links place n ns hplace hn hup hshort hnone hlast =>
    cases h
    rw [hnone]
    rfl
  | case9 place n ns hdirectory hn hup hshort t hlink links ih =>
    refine ih ?_ h
    split <;> simp_all [FileEntry.isLink]
  | case10 links place n ns hplace hn hup hshort e hno hentry ih =>
    refine ih ?_ h
    rw [hentry]
    cases e <;> simp_all [FileEntry.isLink]
  | _ => cases h

def pathFault? (path : String) : Option FileError :=
  if path.toList.contains (Char.ofNat 0) then some .interiorNul
  else if path.isEmpty then some .notFound
  else if maxPathBytes < path.utf8ByteSize then some .nameTooLong
  else none

def startOf (fs : FileSystem) (directory path : String) : Except FileError Place :=
  if Path.isAbsolute path then .ok [] else fs.follow maxLinks [] (steps directory)

theorem locate_eq (fs : FileSystem) (directory path : String) :
    fs.locate directory path =
      match pathFault? path with
      | some e => .error e
      | none => fs.startOf directory path >>= fun start => fs.follow maxLinks start (steps path) := by
  unfold locate pathFault?
  split
  · rfl
  split
  · rfl
  split
  · rfl
  unfold startOf
  cases Path.isAbsolute path <;> rfl

theorem Grows.startOf {fs fs' : FileSystem} (h : Grows fs fs') {directory path : String}
    (hfound : fs.startOf directory path ≠ .error .notFound) :
    fs'.startOf directory path = fs.startOf directory path := by
  unfold FileSystem.startOf at hfound ⊢
  cases habsolute : Path.isAbsolute path with
  | true => rfl
  | false =>
    rw [habsolute] at hfound
    exact h.follow hfound

theorem Grows.locate {fs fs' : FileSystem} (h : Grows fs fs') {directory path : String}
    (hfound : fs.locate directory path ≠ .error .notFound) :
    fs'.locate directory path = fs.locate directory path := by
  rw [locate_eq] at hfound ⊢
  rw [locate_eq]
  cases hfault : pathFault? path with
  | some e => rfl
  | none =>
    simp only [hfault] at hfound
    cases hstart : fs.startOf directory path with
    | error e =>
      rw [hstart] at hfound
      have hsame : fs'.startOf directory path = _ := h.startOf (by rw [hstart]; exact hfound)
      rw [hsame, hstart]
      rfl
    | ok start =>
      rw [hstart] at hfound
      have hsame : fs'.startOf directory path = _ := h.startOf (by rw [hstart]; simp)
      rw [hsame, hstart]
      exact h.follow hfound

theorem isLink_locate {fs : FileSystem} (htree : fs.IsTree) {directory path : String} {p : Place}
    (h : fs.locate directory path = .ok p) : (fs.find? p).any FileEntry.isLink = false := by
  rw [locate_eq] at h
  cases hfault : pathFault? path with
  | some e =>
    rw [hfault] at h
    cases h
  | none =>
    rw [hfault] at h
    obtain ⟨start, hstart, hp⟩ := Sequencing.bind_eq_ok.1 h
    refine isLink_follow htree ?_ hp
    unfold startOf at hstart
    cases habsolute : Path.isAbsolute path with
    | true =>
      rw [habsolute] at hstart
      cases hstart
      rfl
    | false =>
      rw [habsolute] at hstart
      exact isLink_follow htree rfl hstart

/-- What a path leads to, once the place is known. -/
theorem entry_of_locate {fs : FileSystem} {directory path : String} {p : Place}
    (h : fs.locate directory path = .ok p) :
    fs.entry directory path = (fs.find? p).elim (.error .notFound) .ok := by
  rw [entry, h, Sequencing.ok_bind]
  cases fs.find? p <;> rfl

theorem write_of_locate {fs : FileSystem} {directory path : String} {p : Place} {data : Bytes}
    (h : fs.locate directory path = .ok p) : fs.write directory path data =
      if fs.find? p = some .directory then .error .isDirectory else .ok (fs.put p (.file data)) := by
  rw [write, h, Sequencing.ok_bind]
  rcases fs.find? p with _ | ⟨_ | _ | _⟩ <;> rfl

theorem write_of_error {fs : FileSystem} {directory path : String} {e : FileError} {data : Bytes}
    (h : fs.locate directory path = .error e) : fs.write directory path data = .error e := by
  rw [write, h]
  rfl

def isRootName (name : String) : Bool :=
  (pathFault? name).isNone && steps name == [name] && name != "." && name != ".." &&
    decide (name.utf8ByteSize ≤ maxNameBytes)

theorem startOf_root (fs : FileSystem) (path : String) : fs.startOf "/" path = .ok [] := by
  have hslash : steps "/" = ["."] := by decide +kernel
  simp [startOf, hslash, follow]

theorem follow_rootName {fs : FileSystem} {name : String} (hname : isRootName name = true)
    (hlink : (fs.find? [name]).any FileEntry.isLink = false) (links : Nat) :
    fs.follow links [] (steps name) = .ok [name] := by
  simp only [isRootName, Bool.and_eq_true, beq_iff_eq, bne_iff_ne, decide_eq_true_eq] at hname
  obtain ⟨⟨⟨⟨-, hsteps⟩, hsame⟩, hup⟩, hsize⟩ := hname
  rw [hsteps, follow_entry fs.find?_nil hsame hup (Nat.not_lt.2 hsize), List.nil_append]
  cases hentry : fs.find? [name] with
  | none => rfl
  | some e =>
    cases e with
    | link t => simp [hentry, FileEntry.isLink] at hlink
    | file data => simp [follow]
    | directory => simp [follow]

theorem locate_root {fs : FileSystem} {name : String} (hname : isRootName name = true) :
    fs.locate "/" name = fs.follow maxLinks [] (steps name) := by
  simp only [isRootName, Bool.and_eq_true, Option.isNone_iff_eq_none] at hname
  simp only [locate_eq, hname.1.1.1.1, startOf_root, Sequencing.ok_bind]

/-- In the root directory, a name that is no link stands for itself. -/
theorem locate_rootName {fs : FileSystem} {name : String} (hname : isRootName name = true)
    (hlink : (fs.find? [name]).any FileEntry.isLink = false) : fs.locate "/" name = .ok [name] := by
  rw [locate_root hname, follow_rootName hname hlink]

/-- In the root directory, a link to a name stands for what the name stands for. -/
theorem locate_rootLink {fs : FileSystem} {name target : String} (hname : isRootName name = true)
    (hlink : fs.find? [name] = some (.link target)) (htarget : isRootName target = true)
    (hend : (fs.find? [target]).any FileEntry.isLink = false) :
    fs.locate "/" name = .ok [target] := by
  have hfollow := follow_rootName htarget hend (maxLinks - 1)
  rw [locate_root hname]
  simp only [isRootName, Bool.and_eq_true, beq_iff_eq, bne_iff_ne, decide_eq_true_eq] at hname
  obtain ⟨⟨⟨⟨-, hsteps⟩, hsame⟩, hup⟩, hsize⟩ := hname
  rw [hsteps, follow_entry fs.find?_nil hsame hup (Nat.not_lt.2 hsize), List.nil_append, hlink]
  simpa [maxLinks] using hfollow

/-- A file system is a tree if each of its entries stands in a directory. -/
theorem isTree_of_entries {fs : FileSystem}
    (h : ∀ e ∈ fs.entries, fs.find? e.1.dropLast = some .directory) : fs.IsTree := by
  intro place hsome
  cases place with
  | nil => rfl
  | cons n ns =>
    simp only [find?, List.isEmpty_cons, Bool.false_eq_true, if_false, Option.isSome_map,
      List.find?_isSome, beq_iff_eq] at hsome
    obtain ⟨e, he, hplace⟩ := hsome
    rw [← hplace]
    exact h e he

end FileSystem
end Schematron
