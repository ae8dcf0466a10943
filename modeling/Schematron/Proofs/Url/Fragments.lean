import Mathlib.Data.List.DropRight
import Schematron.Proofs.Sequencing
import Schematron.Proofs.Xml.Scanning
import Schematron.Url.Parser

/-!
# Fragments of URLs

A fragment after a text changes nothing in what is read of it: every reader stops at the `#` at the
latest, or leaves it to the next one, and so a reference with a fragment leads to where it leads
without it (`join_fragment`). The fragment itself comes out as it is written in a URL
(`writtenFragment`). For a name that is the name itself if it is in ASCII, and no name otherwise.

There is one exception. A lone `@` is an empty host where it ends a text, but not before a fragment;
it leads to a URL that has neither a host nor a path.
-/
namespace Schematron.Url
open Xml Sequencing

def writtenFragment (s : String) : String := String.ofList (percentEncode fragmentSet s.toList)

theorem percent_mem_encodeChar {set : EncodeSet} {c : Char} (h : set c = true) :
    '%' ∈ encodeChar set c := by
  have hne : String.utf8EncodeChar c ≠ [] := by
    intro hnil
    have hlength := String.length_utf8EncodeChar c
    rw [hnil] at hlength
    exact absurd hlength (Nat.ne_of_lt c.utf8Size_pos)
  obtain ⟨b, bs, hbytes⟩ := List.exists_cons_of_ne_nil hne
  simp [encodeChar, h, hbytes, encodeByte]

theorem percentEncode_eq_self {set : EncodeSet} {cs : List Char} (h : ∀ c ∈ cs, set c = false) :
    percentEncode set cs = cs := by
  induction cs with
  | nil => rfl
  | cons c cs ih =>
    have hc : encodeChar set c = [c] := by simp [encodeChar, h c]
    have hcs := ih fun d hd => h d (List.mem_cons_of_mem c hd)
    rw [percentEncode] at hcs
    rw [percentEncode, List.flatMap_cons, hc, hcs]
    rfl

theorem percent_mem_percentEncode {set : EncodeSet} {cs : List Char} {c : Char} (hc : c ∈ cs)
    (h : set c = true) : '%' ∈ percentEncode set cs :=
  List.mem_flatMap.2 ⟨c, hc, percent_mem_encodeChar h⟩

/-- What can be checked of the characters up to a number, one by one, is true of them. -/
theorem of_forall_ofNat {n : Nat} {P : Char → Prop} (h : ∀ m < n, P (Char.ofNat m)) {c : Char}
    (hc : c.toNat < n) : P c := by
  have hP := h c.toNat hc
  rwa [Char.ofNat_toNat] at hP

/-- Of the characters of a name, those beyond ASCII are encoded in a fragment. -/
theorem fragmentSet_of_isNameChar {c : Char} (h : isNameChar c = true) :
    fragmentSet c = decide (0x80 ≤ c.toNat) := by
  by_cases hc : c.toNat < 0x80
  · have hascii : ∀ m < 0x80, isNameChar (Char.ofNat m) = true →
        fragmentSet (Char.ofNat m) = false := by decide
    rw [of_forall_ofNat (P := fun c => isNameChar c = true → fragmentSet c = false) hascii hc h]
    simp [hc]
  · have hbeyond : 0x7E < c.toNat := by omega
    simp [fragmentSet, controlSet, hbeyond, Nat.le_of_not_lt hc]

/-- A name in ASCII is its own fragment. -/
theorem writtenFragment_eq_self {s : String} (h : isNamePart s = true)
    (hascii : ∀ c ∈ s.toList, c.toNat < 0x80) : writtenFragment s = s := by
  obtain ⟨-, hall, -⟩ := isNamePart_iff.1 h
  have hset : ∀ c ∈ s.toList, fragmentSet c = false := by
    intro c hc
    rw [fragmentSet_of_isNameChar (List.all_eq_true.1 hall c hc), decide_eq_false_iff_not]
    exact Nat.not_le.2 (hascii c hc)
  rw [writtenFragment, percentEncode_eq_self hset, String.ofList_toList]

/-- The fragment of any other name is no name, for it has a percent sign. -/
theorem isNamePart_writtenFragment {s : String} (h : isNamePart s = true)
    (hbeyond : ¬ ∀ c ∈ s.toList, c.toNat < 0x80) : isNamePart (writtenFragment s) = false := by
  obtain ⟨-, hall, -⟩ := isNamePart_iff.1 h
  push Not at hbeyond
  obtain ⟨c, hc, hlarge⟩ := hbeyond
  have hset : fragmentSet c = true := by
    rw [fragmentSet_of_isNameChar (List.all_eq_true.1 hall c hc), decide_eq_true_eq]
    exact hlarge
  have hpercent := percent_mem_percentEncode hc hset
  by_contra hname
  rw [Bool.not_eq_false, isNamePart_iff, writtenFragment, String.toList_ofList] at hname
  exact absurd (List.all_eq_true.1 hname.2.1 _ hpercent) (by decide)

section
variable {cs f : List Char} {p : Char → Bool} {u : Url}

theorem takeWhile_fragment (h : p '#' = false) :
    (cs ++ '#' :: f).takeWhile p = cs.takeWhile p := by
  induction cs with
  | nil => simp [h]
  | cons c cs ih => cases hc : p c <;> simp [hc, ih]

theorem dropWhile_fragment (h : p '#' = false) :
    (cs ++ '#' :: f).dropWhile p = cs.dropWhile p ++ '#' :: f := by
  induction cs with
  | nil => simp [h]
  | cons c cs ih => cases hc : p c <;> simp [hc, ih]

theorem hash_notMem_dropWhile (h : '#' ∉ cs) : '#' ∉ cs.dropWhile p :=
  fun hmem => h ((List.dropWhile_sublist p).mem hmem)

theorem finish_fragment (h : '#' ∉ cs) (scheme : String) (a : Option Authority) (path : Path) :
    finish scheme a path (cs ++ '#' :: f) = (finish scheme a path cs).withFragment f := by
  have hall : ∀ c ∈ cs, (c != '#') = true := by
    rintro c hc
    rw [bne_iff_ne]
    rintro rfl
    exact h hc
  have htake : (cs ++ '#' :: f).takeWhile (· != '#') = cs.takeWhile (· != '#') :=
    takeWhile_fragment rfl
  have hdrop : (cs ++ '#' :: f).dropWhile (· != '#') = '#' :: f := by
    rw [dropWhile_fragment rfl, List.dropWhile_eq_nil_iff.2 hall]
    rfl
  simp only [finish, queryAndFragment, htake, hdrop, withFragment]

theorem isSlash_hash (kind : Kind) : isSlash kind '#' = false := by
  cases kind <;> rfl

/-- A reader that gives what it has read and what is left leaves a fragment, unread. -/
structure LeavesFragment (read : List Char → List String × List Char) : Prop where
  append : ∀ {cs f}, '#' ∉ cs → read (cs ++ '#' :: f) = ((read cs).1, (read cs).2 ++ '#' :: f)
  hash_notMem : ∀ {cs}, '#' ∉ cs → '#' ∉ (read cs).2

theorem LeavesFragment.finish {read : List Char → List String × List Char}
    (hread : LeavesFragment read) (h : '#' ∉ cs) (scheme : String) (a : Option Authority) :
    Url.finish scheme a (.segments (read (cs ++ '#' :: f)).1) (read (cs ++ '#' :: f)).2 =
      (Url.finish scheme a (.segments (read cs).1) (read cs).2).withFragment f := by
  rw [hread.append h, finish_fragment (hread.hash_notMem h)]

theorem leavesFragment_addSegments (kind : Kind) (done : List String) (current : List Char) :
    LeavesFragment (addSegments kind done current) where
  append {cs f} h := by
    induction cs generalizing done current with
    | nil => simp [addSegments, isSlash_hash, endsPath]
    | cons c cs ih =>
      have hcs : '#' ∉ cs := List.not_mem_of_not_mem_cons h
      rw [List.cons_append]
      unfold addSegments
      split_ifs
      · exact ih _ _ hcs
      · rfl
      · exact ih _ _ hcs
      · exact ih _ _ hcs
  hash_notMem {cs} h := by
    fun_induction addSegments kind done current cs with
    | case1 => exact List.not_mem_nil
    | case3 => exact h
    | case2 _ _ c cs _ ih | case4 _ _ c cs _ _ _ ih | case5 _ _ c cs _ _ _ ih =>
      exact ih (List.not_mem_of_not_mem_cons h)

theorem leavesFragment_readPath (kind : Kind) (done : List String) :
    LeavesFragment (readPath kind done) where
  append h := by simp only [readPath, (leavesFragment_addSegments kind done []).append h]
  hash_notMem h := (leavesFragment_addSegments kind done []).hash_notMem h

theorem addSegment_nil (kind : Kind) : addSegment kind [] [] false = [""] := by
  cases kind <;> decide +kernel

theorem leavesFragment_pathStart (kind : Kind) : LeavesFragment (pathStart kind) where
  append {cs f} h := by
    cases cs with
    | nil =>
      cases kind with
      | other => rfl
      | file | special =>
        simp [pathStart, readPath, addSegments, addSegment_nil, isSlash, endsPath, Kind.isSpecial,
          fileSegments]
    | cons c cs =>
      have hcs : '#' ∉ cs := List.not_mem_of_not_mem_cons h
      simp only [List.cons_append, pathStart]
      split_ifs
      · exact (leavesFragment_readPath kind []).append hcs
      · rfl
      · exact (leavesFragment_readPath kind []).append h
  hash_notMem {cs} h := by
    cases cs with
    | nil => cases kind <;> exact List.not_mem_nil
    | cons c cs =>
      have hcs : '#' ∉ cs := List.not_mem_of_not_mem_cons h
      simp only [pathStart]
      split_ifs
      · exact (leavesFragment_readPath kind []).hash_notMem hcs
      · exact h
      · exact (leavesFragment_readPath kind []).hash_notMem h

def HasPlace (u : Url) : Prop := u.authority = some ⟨"", "", none⟩ → u.path ≠ .segments []

/-- A reader reads a fragment after a text as the fragment of the URL that it reads. -/
def TakesFragment (read : List Char → Except UrlError Url) : Prop :=
  ∀ {cs f u}, '#' ∉ cs → u.HasPlace → read cs = .ok u →
    read (cs ++ '#' :: f) = .ok (u.withFragment f)

theorem ok_fragment {v w : Url} (hread : Except.ok v = (.ok u : Except UrlError Url))
    (h : w = v.withFragment f) : (.ok w : Except UrlError Url) = .ok (u.withFragment f) := by
  rw [h, Except.ok.inj hread]

/-- Only of a lone `@` it matters whether it ends the text. -/
theorem readAuthority_isEnd {scheme : String} {kind : Kind} {cs : List Char} (h : cs ≠ ['@'])
    (isEnd : Bool) : readAuthority scheme kind cs isEnd = readAuthority scheme kind cs true := by
  simp [readAuthority, h]

theorem Host.parse_nil : Host.parse [] = .error .emptyHost := by
  simp only [Host.parse, percentDecode, Utf8.decodeFrom]
  rfl

/-- What is read of a lone `@` is empty, and it has no special scheme. -/
theorem readAuthority_at {scheme : String} {kind : Kind} {a : Authority}
    (h : readAuthority scheme kind ['@'] true = .ok a) : a = ⟨"", "", none⟩ ∧ kind = .other := by
  cases kind with
  | special => cases h
  | file =>
    obtain ⟨host, hhost, -⟩ := bind_eq_ok (x := Host.parse []).1 h
    rw [Host.parse_nil] at hhost
    cases hhost
  | other =>
    cases h
    exact ⟨rfl, rfl⟩

theorem takesFragment_afterSlashes (scheme : String) : TakesFragment (afterSlashes scheme) := by
  intro cs f u h hplace hread
  obtain ⟨a, hauthority, hread⟩ := bind_eq_ok.1 hread
  obtain rfl := Except.ok.inj hread
  unfold afterSlashes
  dsimp only at hauthority hplace ⊢
  generalize hp : (fun c => ! (isSlash (Kind.ofScheme scheme) c || endsPath c)) = p at *
  have hend : p '#' = false := by simp [← hp, endsPath]
  have hpath := leavesFragment_pathStart (Kind.ofScheme scheme)
  have hrest : '#' ∉ cs.dropWhile p := hash_notMem_dropWhile h
  have hauthority' : readAuthority scheme (Kind.ofScheme scheme) (cs.takeWhile p) false =
      .ok a := by
    by_cases hat : cs.takeWhile p = ['@']
    · cases hempty : (cs.dropWhile p).isEmpty with
      | false => rwa [hempty] at hauthority
      | true =>
        -- then there is neither a host nor a path
        rw [hat, hempty] at hauthority
        obtain ⟨rfl, hkind⟩ := readAuthority_at hauthority
        rw [List.isEmpty_iff.1 hempty, hkind] at hplace
        exact absurd rfl (hplace rfl)
    · rw [readAuthority_isEnd hat] at hauthority ⊢
      exact hauthority
  have hnonempty : (cs.dropWhile p ++ '#' :: f).isEmpty = false := by simp
  rw [takeWhile_fragment hend, dropWhile_fragment hend, hnonempty, hauthority']
  exact congrArg Except.ok (hpath.finish hrest scheme (some a))

theorem takesFragment_fileAfterSlashes : TakesFragment fileAfterSlashes := by
  intro cs f u h _ hread
  unfold fileAfterSlashes at hread ⊢
  dsimp only at hread ⊢
  generalize hp : (fun c => ! (isSlash .file c || endsPath c)) = p at *
  have hend : p '#' = false := by simp [← hp, endsPath]
  have hrest : '#' ∉ cs.dropWhile p := hash_notMem_dropWhile h
  rw [takeWhile_fragment hend, dropWhile_fragment hend]
  split_ifs at hread ⊢ with hlocal hempty
  · exact ok_fragment hread ((leavesFragment_readPath .file []).finish hrest "file" _)
  · exact ok_fragment hread ((leavesFragment_readPath .file []).finish h "file" _)
  · obtain ⟨host, hhost, hread⟩ := bind_eq_ok.1 hread
    rw [hhost]
    have hpath := leavesFragment_pathStart .file
    simp only [hpath.append hrest]
    exact ok_fragment hread (finish_fragment (hpath.hash_notMem hrest) "file" _ _)

theorem startsWithDriveLetter_fragment (cs f : List Char) :
    startsWithDriveLetter (cs ++ '#' :: f) = startsWithDriveLetter cs := by
  match cs with
  | [] => cases f <;> simp [startsWithDriveLetter, isDriveLetter]
  | [a] => simp [startsWithDriveLetter, isDriveLetter]
  | [a, b] => simp [startsWithDriveLetter]
  | a :: b :: c :: cs => rfl

theorem rooted_fragment (h : '#' ∉ cs) (base : Option Url) (host : Authority) :
    readFileUrl.rooted base host (cs ++ '#' :: f) =
      (readFileUrl.rooted base host cs).withFragment f := by
  unfold readFileUrl.rooted
  dsimp only
  rw [startsWithDriveLetter_fragment]
  exact (leavesFragment_readPath .file _).finish h "file" _

theorem withQuery_fragment (h : '#' ∉ cs) (u : Url) :
    u.withQuery (cs ++ '#' :: f) = (u.withQuery cs).withFragment f :=
  finish_fragment h _ _ _

/-- A file reference that starts with a slash, of which there may be two. -/
theorem readFileUrl_slash_fragment {base : Option Url} {a : Char} (hslash : isSlash .file a = true)
    (h : '#' ∉ cs) (hplace : u.HasPlace) (hread : readFileUrl base (a :: cs) = .ok u) :
    readFileUrl base (a :: (cs ++ '#' :: f)) = .ok (u.withFragment f) := by
  have hrooted := rooted_fragment (f := f) h base ((base.bind (·.authority)).getD ⟨"", "", none⟩)
  cases cs with
  | nil =>
    simp only [readFileUrl, hslash, if_true] at hread
    obtain rfl := Except.ok.inj hread
    simpa [readFileUrl, hslash, isSlash_hash] using hrooted
  | cons b r =>
    have hr : '#' ∉ r := List.not_mem_of_not_mem_cons h
    cases hslash' : isSlash .file b with
    | true =>
      simp only [readFileUrl, hslash, hslash', if_true] at hread
      simpa [readFileUrl, hslash, hslash'] using takesFragment_fileAfterSlashes hr hplace hread
    | false =>
      simp only [readFileUrl, hslash, hslash', if_true] at hread
      obtain rfl := Except.ok.inj hread
      simpa [readFileUrl, hslash, hslash'] using hrooted

theorem takesFragment_readFileUrl (base : Option Url) : TakesFragment (readFileUrl base) := by
  intro cs f u h hplace hread
  have hfresh := (leavesFragment_readPath .file []).finish (f := f) h "file" (some ⟨"", "", none⟩)
  match cs, base with
  | [], none => exact ok_fragment hread hfresh
  | [], some base =>
    cases hread
    rfl
  | a :: r, base =>
    have hr : '#' ∉ r := List.not_mem_of_not_mem_cons h
    have hhash : (a == '#') = false :=
      beq_eq_false_iff_ne.2 (List.ne_of_not_mem_cons h).symm
    cases hslash : isSlash .file a with
    | true => exact readFileUrl_slash_fragment hslash hr hplace hread
    | false =>
      cases base with
      | none =>
        simp only [readFileUrl, hslash] at hread
        obtain rfl := Except.ok.inj hread
        simpa [readFileUrl, hslash] using hfresh
      | some base =>
        have hdrive := startsWithDriveLetter_fragment (a :: r) f
        rw [List.cons_append] at hdrive
        simp only [readFileUrl, hslash, hhash, List.cons_append, hdrive, Bool.false_eq_true,
          if_false] at hread ⊢
        split_ifs at hread ⊢
        · exact ok_fragment hread (withQuery_fragment h base)
        · exact ok_fragment hread hfresh
        · exact ok_fragment hread ((leavesFragment_readPath .file _).finish h "file" _)

/-- A path that continues given segments. -/
theorem continued_fragment (h : '#' ∉ cs) (base : Url) (done : List String) :
    finish base.scheme base.authority
        (.segments (readPath (.ofScheme base.scheme) done (cs ++ '#' :: f)).1)
        (readPath (.ofScheme base.scheme) done (cs ++ '#' :: f)).2 =
      (finish base.scheme base.authority
        (.segments (readPath (.ofScheme base.scheme) done cs).1)
        (readPath (.ofScheme base.scheme) done cs).2).withFragment f :=
  (leavesFragment_readPath (.ofScheme base.scheme) done).finish h base.scheme base.authority

/-- A reference that starts with a slash of either kind, of which there may be more. -/
theorem relative_slash_fragment {base : Url} {a : Char} (hslash : (a == '/' || a == '\\') = true)
    (h : '#' ∉ a :: cs) (hplace : u.HasPlace) (hread : relative base (a :: cs) = .ok u) :
    relative base (a :: (cs ++ '#' :: f)) = .ok (u.withFragment f) := by
  have hcs : '#' ∉ cs := List.not_mem_of_not_mem_cons h
  have hhash : (a == '#') = false := beq_eq_false_iff_ne.2 (List.ne_of_not_mem_cons h).symm
  have hquery : (a == '?') = false := by
    rw [beq_eq_false_iff_ne]
    rintro rfl
    cases hslash
  simp only [relative, hquery, hhash, hslash, Bool.false_eq_true, if_false, if_true] at hread ⊢
  cases cs with
  | nil => exact ok_fragment hread (continued_fragment hcs base [])
  | cons b r =>
    have hr : '#' ∉ r := List.not_mem_of_not_mem_cons hcs
    have hrest : '#' ∉ (a :: b :: r).dropWhile fun c => c == '/' || c == '\\' :=
      hash_notMem_dropWhile h
    have hdrop : (a :: b :: r ++ '#' :: f).dropWhile (fun c => c == '/' || c == '\\') =
        (a :: b :: r).dropWhile (fun c => c == '/' || c == '\\') ++ '#' :: f :=
      dropWhile_fragment rfl
    simp only [List.cons_append] at hdrop ⊢
    dsimp only at hread
    split_ifs at hread ⊢
    · exact takesFragment_afterSlashes _ hr hplace hread
    · rw [hdrop]
      exact takesFragment_afterSlashes _ hrest hplace hread
    · exact ok_fragment hread (continued_fragment hcs base [])

theorem takesFragment_relative (base : Url) : TakesFragment (relative base) := by
  intro cs f u h hplace hread
  cases cs with
  | nil =>
    cases hread
    rfl
  | cons a r =>
    have hhash : (a == '#') = false :=
      beq_eq_false_iff_ne.2 (List.ne_of_not_mem_cons h).symm
    cases hslash : a == '/' || a == '\\' with
    | true => exact relative_slash_fragment hslash h hplace hread
    | false =>
      simp only [relative, hhash, hslash, List.cons_append, Bool.false_eq_true, if_false] at hread ⊢
      split_ifs at hread ⊢
      · exact ok_fragment hread (withQuery_fragment h base)
      · exact ok_fragment hread (continued_fragment h base _)

theorem head?_fragment_eq_slash : (cs ++ '#' :: f).head? = some '/' ↔ cs.head? = some '/' := by
  cases cs <;> simp

theorem general_slash {scheme : String} (h : cs.head? ≠ some '/') : general scheme ('/' :: cs) =
    .ok (finish scheme none (.segments (readPath .other [] cs).1) (readPath .other [] cs).2) := by
  unfold general
  split <;> simp_all

theorem general_plain {scheme : String} (h : cs.head? ≠ some '/') : general scheme cs =
    .ok (finish scheme none
      (.opaquePath (String.ofList (percentEncode controlSet (cs.takeWhile fun c => ! endsPath c))))
      (cs.dropWhile fun c => ! endsPath c)) := by
  unfold general
  split <;> simp_all

theorem takesFragment_general (scheme : String) : TakesFragment (general scheme) := by
  intro cs f u h hplace hread
  by_cases hslash : cs.head? = some '/'
  · obtain ⟨r, rfl⟩ := List.head?_eq_some_iff.1 hslash
    have hr : '#' ∉ r := List.not_mem_of_not_mem_cons h
    by_cases hslashes : r.head? = some '/'
    · obtain ⟨r', rfl⟩ := List.head?_eq_some_iff.1 hslashes
      have hr' : '#' ∉ r' := List.not_mem_of_not_mem_cons hr
      exact takesFragment_afterSlashes scheme hr' hplace hread
    · rw [general_slash hslashes] at hread
      rw [List.cons_append, general_slash (head?_fragment_eq_slash.not.2 hslashes)]
      exact ok_fragment hread ((leavesFragment_readPath .other []).finish hr scheme none)
  · rw [general_plain hslash] at hread
    have hend : (! endsPath '#') = false := rfl
    rw [general_plain (head?_fragment_eq_slash.not.2 hslash),
      takeWhile_fragment (p := fun c => ! endsPath c) hend,
      dropWhile_fragment (p := fun c => ! endsPath c) hend]
    exact ok_fragment hread (finish_fragment (hash_notMem_dropWhile h) scheme none _)

theorem takesFragment_withScheme (base : Option Url) (scheme : String) :
    TakesFragment (withScheme base scheme) := by
  intro cs f u h hplace hread
  unfold withScheme at hread ⊢
  have hslashes : ((fun c => c == '/' || c == '\\') '#') = false := rfl
  have hrest : '#' ∉ cs.dropWhile fun c => c == '/' || c == '\\' := hash_notMem_dropWhile h
  cases hkind : Kind.ofScheme scheme with
  | file =>
    rw [hkind] at hread
    exact takesFragment_readFileUrl _ h hplace hread
  | other =>
    rw [hkind] at hread
    exact takesFragment_general scheme h hplace hread
  | special =>
    simp only [hkind] at hread ⊢
    rw [takeWhile_fragment hslashes, dropWhile_fragment hslashes]
    split at hread
    · split_ifs at hread ⊢
      · exact takesFragment_relative _ h hplace hread
      · exact takesFragment_afterSlashes scheme hrest hplace hread
    · exact takesFragment_afterSlashes scheme hrest hplace hread

theorem scheme?_fragment (cs f : List Char) : scheme? (cs ++ '#' :: f) =
    (scheme? cs).map fun p => (p.1, p.2 ++ '#' :: f) := by
  have hhash : (fun c : Char => c.isAlphanum || c == '+' || c == '-' || c == '.') '#' = false := by
    decide
  unfold scheme?
  dsimp only
  rw [takeWhile_fragment hhash, dropWhile_fragment hhash]
  generalize hrest : cs.dropWhile _ = rest
  match rest with
  | [] => simp
  | c :: r =>
    by_cases hcolon : c = ':'
    · subst hcolon
      cases cs with
      | nil => cases hrest
      | cons a cs =>
        cases ha : a.isAlpha <;> simp [ha]
    · simp [hcolon]

theorem hash_notMem_of_scheme? {scheme : String} {r : List Char} (h : '#' ∉ cs)
    (hscheme : scheme? cs = some (scheme, r)) : '#' ∉ r := by
  intro hmem
  unfold scheme? at hscheme
  dsimp only at hscheme
  split at hscheme
  · rename_i r' hrest
    split_ifs at hscheme
    obtain ⟨-, rfl⟩ := Prod.mk.inj (Option.some.inj hscheme)
    have hdrop : '#' ∉ ':' :: r' := hrest ▸ hash_notMem_dropWhile h
    exact hdrop (List.mem_cons_of_mem ':' hmem)
  · cases hscheme

end

section
variable {s i : String} {u : Url}

theorem clean_eq (s : String) : clean s =
    ((s.toList.dropWhile fun c => c.toNat ≤ 0x20).rdropWhile fun c => c.toNat ≤ 0x20).filter
      fun c => c != '\t' && c != '\n' && c != '\r' := rfl

theorem hash_notMem_clean (h : '#' ∉ s.toList) : '#' ∉ clean s := by
  rw [clean_eq]
  intro hmem
  exact hash_notMem_dropWhile h ((List.rdropWhile_prefix _ _).mem (List.mem_filter.1 hmem).1)

/-- A text that does not end in a blank is not cut at its end. -/
theorem rdropWhile_eq_self {cs : List Char} (h : ∀ c ∈ cs.getLast?, 0x20 < c.toNat) :
    cs.rdropWhile (fun c => c.toNat ≤ 0x20) = cs := by
  rw [List.rdropWhile_eq_self_iff]
  intro hne
  rw [decide_eq_true_eq, Nat.not_le]
  exact h _ (List.getLast?_eq_some_getLast hne)

/-- A text that does not end in a blank is cleaned without regard to a fragment that follows. -/
theorem clean_fragment (hs : ∀ c ∈ s.toList.getLast?, 0x20 < c.toNat)
    (hi : ∀ c ∈ i.toList, 0x20 < c.toNat) :
    clean (s ++ "#" ++ i) = clean s ++ '#' :: i.toList := by
  have htoList : (s ++ "#" ++ i).toList = s.toList ++ '#' :: i.toList := by simp
  have hfragment : ∀ c ∈ '#' :: i.toList, 0x20 < c.toNat := by
    intro c hc
    rcases List.mem_cons.1 hc with rfl | hc
    · decide
    · exact hi c hc
  have hend : ∀ c ∈ (s.toList.dropWhile fun c => c.toNat ≤ 0x20).getLast?, 0x20 < c.toNat := by
    intro c hc
    have hlast : c ∈ (s.toList.takeWhile (fun c => c.toNat ≤ 0x20) ++
        s.toList.dropWhile fun c => c.toNat ≤ 0x20).getLast? :=
      List.mem_getLast?_append_of_mem_getLast? hc
    rw [List.takeWhile_append_dropWhile] at hlast
    exact hs c hlast
  have hend' : ∀ c ∈ ((s.toList.dropWhile fun c => c.toNat ≤ 0x20) ++ '#' :: i.toList).getLast?,
      0x20 < c.toNat := by
    intro c hc
    rw [List.getLast?_append_cons] at hc
    exact hfragment c (List.mem_of_getLast? hc)
  have hfilter : ('#' :: i.toList).filter (fun c => c != '\t' && c != '\n' && c != '\r') =
      '#' :: i.toList := by
    rw [List.filter_eq_self]
    intro c hc
    have hc := hfragment c hc
    simp only [Bool.and_eq_true, bne_iff_ne]
    refine ⟨⟨?_, ?_⟩, ?_⟩ <;> (rintro rfl; exact absurd hc (by decide))
  rw [clean_eq, clean_eq, htoList, dropWhile_fragment (by decide), rdropWhile_eq_self hend,
    rdropWhile_eq_self hend', List.filter_append, hfilter]

/-- An absolute URL with a fragment. -/
theorem parse_fragment (hs : '#' ∉ s.toList) (hlast : ∀ c ∈ s.toList.getLast?, 0x20 < c.toNat)
    (hi : ∀ c ∈ i.toList, 0x20 < c.toNat) (hplace : u.HasPlace) (h : parse s = .ok u) :
    parse (s ++ "#" ++ i) = .ok (u.withFragment i.toList) := by
  unfold parse at h ⊢
  rw [clean_fragment hlast hi, scheme?_fragment]
  have hclean := hash_notMem_clean hs
  cases hscheme : scheme? (clean s) with
  | none => simp [hscheme] at h
  | some p =>
    obtain ⟨scheme, r⟩ := p
    rw [hscheme] at h
    exact takesFragment_withScheme none scheme (hash_notMem_of_scheme? hclean hscheme) hplace h

/-- A reference without a scheme that is no fragment is read relative to the base. -/
theorem join_eq_relative {base : Url} (hscheme : scheme? (clean s) = none)
    (hhead : (clean s).head? ≠ some '#') : base.join s =
      if base.isOpaque then .error .relativeToOpaque
      else if base.scheme == "file" then readFileUrl (some base) (clean s)
      else relative base (clean s) := by
  simp only [join, hscheme]
  split
  · rename_i hclean
    rw [hclean] at hhead
    exact absurd rfl hhead
  · rfl

/-- A reference with a fragment leads to where it leads without it. -/
theorem join_fragment {base : Url} (hs : '#' ∉ s.toList)
    (hlast : ∀ c ∈ s.toList.getLast?, 0x20 < c.toNat) (hi : ∀ c ∈ i.toList, 0x20 < c.toNat)
    (hplace : u.HasPlace) (h : base.join s = .ok u) :
    base.join (s ++ "#" ++ i) = .ok (u.withFragment i.toList) := by
  have hclean := clean_fragment hlast hi
  have hnone := hash_notMem_clean hs
  have hscheme := scheme?_fragment (clean s) i.toList
  rw [← hclean] at hscheme
  cases hs' : scheme? (clean s) with
  | some p =>
    obtain ⟨scheme, r⟩ := p
    have hr := hash_notMem_of_scheme? hnone hs'
    simp only [join, hs'] at h
    simp only [join, hscheme, hs', Option.map_some]
    exact takesFragment_withScheme _ scheme hr hplace h
  | none =>
    have hhead : (clean s).head? ≠ some '#' := fun hmem => hnone (List.mem_of_head? hmem)
    rw [join_eq_relative hs' hhead] at h
    rw [hs', Option.map_none] at hscheme
    cases hcs : clean s with
    | nil =>
      -- then the text with its fragment is a fragment of the base
      have hbase : u = base.withoutFragment := by
        rw [hcs] at h
        split_ifs at h <;> cases h <;> rfl
      rw [hcs] at hclean
      simp only [join, hbase, hclean]
      rfl
    | cons c cs =>
      have hhead' : (clean (s ++ "#" ++ i)).head? ≠ some '#' := by
        rw [hclean]
        rwa [hcs] at hhead ⊢
      rw [join_eq_relative hscheme hhead', hclean]
      split_ifs at h ⊢
      · exact takesFragment_readFileUrl _ hnone hplace h
      · exact takesFragment_relative base hnone hplace h

end

end Schematron.Url
