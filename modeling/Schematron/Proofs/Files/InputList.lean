import Schematron.Files.InputList
import Schematron.Proofs.Text.Trimming
import Schematron.Proofs.Text.Utf8

/-!
# Reading lists of inputs

A list of inputs reads as the paths that were written, however they are padded and whatever comments
and blank lines stand between them, and nothing after the first empty line is looked at. Reading fails
exactly if a line before the first empty one is not text. `read_written` says both.
-/
namespace Schematron.InputList
open Sequencing

variable {line l rest : Bytes} {s : String}

theorem linesFrom_break (h : lineFeed ∉ l) : linesFrom line (l ++ lineFeed :: rest) =
    withoutReturn (line ++ l) :: linesFrom [] rest := by
  induction l generalizing line with
  | nil => simp [linesFrom]
  | cons b l ih =>
    obtain ⟨hb, hl⟩ := List.ne_and_not_mem_of_not_mem_cons h
    rw [List.cons_append, linesFrom, if_neg (Ne.symm hb), ih hl, List.append_assoc]
    rfl

theorem linesFrom_end (h : lineFeed ∉ l) :
    linesFrom line l = if (line ++ l).isEmpty then [] else [line ++ l] := by
  induction l generalizing line with
  | nil => rw [linesFrom, List.append_nil]
  | cons b l ih =>
    obtain ⟨hb, hl⟩ := List.ne_and_not_mem_of_not_mem_cons h
    rw [linesFrom, if_neg (Ne.symm hb), ih hl, List.append_assoc]
    rfl

theorem path?_push_return (s : String) : path? (s.push '\r') = path? s := by
  have htrim : Text.trimmed (s.push '\r') = Text.trimmed s := by
    rw [Text.trimmed, Text.trimmed, String.toList_push, Text.trim_concat (by decide)]
  rw [path?, path?, htrim]

/-- The carriage return at the end of a line makes no difference. -/
theorem withoutReturn_encode (s : String) :
    ∃ s', withoutReturn (Utf8.encode s) = Utf8.encode s' ∧ path? s' = path? s := by
  unfold withoutReturn
  split
  · rename_i hlast
    obtain ⟨l, hl⟩ := List.getLast?_eq_some_iff.1 hlast
    obtain ⟨s', rfl, rfl⟩ := (Utf8.encode_eq_concat (by decide)).1 hl
    rw [hl, List.dropLast_concat]
    exact ⟨s', rfl, (path?_push_return s').symm⟩
  · exact ⟨s, rfl, rfl⟩

theorem withoutReturn_eq_encode (h : withoutReturn l = Utf8.encode s) :
    ∃ s', l = Utf8.encode s' := by
  unfold withoutReturn at h
  split at h
  · rename_i hlast
    obtain ⟨l, rfl⟩ := List.getLast?_eq_some_iff.1 hlast
    rw [List.dropLast_concat] at h
    rw [h]
    exact ⟨_, (Utf8.encode_push (b := carriageReturn) (by decide)).symm⟩
  · exact ⟨s, h⟩

theorem withoutReturn_eq_nil : withoutReturn l = [] ↔ l = [] ∨ l = [carriageReturn] := by
  unfold withoutReturn
  split
  · rename_i hlast
    obtain ⟨l, rfl⟩ := List.getLast?_eq_some_iff.1 hlast
    simp
  · rename_i hlast
    constructor
    · exact .inl
    · rintro (rfl | rfl)
      · rfl
      · exact absurd rfl hlast

/-- What may stand before a line feed without ending the list. -/
structure IsLine (l : Bytes) : Prop where
  unbroken : lineFeed ∉ l
  ne_nil : l ≠ []
  ne_return : l ≠ [carriageReturn]

theorem read_break (h : lineFeed ∉ l) :
    read (l ++ lineFeed :: rest) = ofLines (withoutReturn l :: linesFrom [] rest) := by
  rw [read, linesFrom_break h, List.nil_append]

theorem read_line (h : IsLine (Utf8.encode s)) :
    read (Utf8.encode s ++ lineFeed :: rest) = ((path? s).toList ++ ·) <$> read rest := by
  obtain ⟨s', hs', hpath⟩ := withoutReturn_encode s
  have hne : Utf8.encode s' ≠ [] := by
    rw [← hs', Ne, withoutReturn_eq_nil, not_or]
    exact ⟨h.ne_nil, h.ne_return⟩
  rw [read_break h.unbroken, hs', ofLines, if_neg (by simpa using hne), Utf8.decode_encode]
  dsimp only
  rw [hpath]
  rfl

theorem read_stop (h : l = [] ∨ l = [carriageReturn]) : read (l ++ lineFeed :: rest) = .ok [] := by
  have hunbroken : lineFeed ∉ l := by
    rcases h with rfl | rfl <;> decide
  rw [read_break hunbroken, withoutReturn_eq_nil.2 h]
  rfl

def IsFaulty (l : Bytes) : Prop := ∀ s, l ≠ Utf8.encode s

theorem ofLines_fault {ls : List Bytes} (h : IsFaulty l) : ofLines (l :: ls) = .error .notText := by
  have hne : l ≠ [] := h ""
  cases hdecode : Utf8.decode l with
  | error e => rw [ofLines, if_neg (by simpa using hne), hdecode]
  | ok s => exact absurd (Utf8.decode_eq_ok.1 hdecode) (h s)

theorem read_fault (hl : lineFeed ∉ l) (h : IsFaulty l) :
    read (l ++ lineFeed :: rest) = .error .notText := by
  rw [read_break hl]
  refine ofLines_fault fun s hs => ?_
  obtain ⟨s', hs'⟩ := withoutReturn_eq_encode hs
  exact h s' hs'

theorem read_last (h : lineFeed ∉ Utf8.encode s) : read (Utf8.encode s) = .ok (path? s).toList := by
  rw [read, linesFrom_end h, List.nil_append]
  by_cases hs : s = ""
  · subst hs
    rfl
  · have hne : Utf8.encode s ≠ [] := fun hnil => hs (Utf8.encode_injective hnil)
    rw [if_neg (by simpa using hne), ofLines, if_neg (by simpa using hne), Utf8.decode_encode]
    exact congrArg Except.ok (List.append_nil _)

theorem read_last_fault (hl : lineFeed ∉ l) (h : IsFaulty l) : read l = .error .notText := by
  have hne : l ≠ [] := h ""
  rw [read, linesFrom_end hl, List.nil_append, if_neg (by simpa using hne)]
  exact ofLines_fault h

/-- Blanks that do not end a line. -/
structure Padding where
  text : String
  blank : ∀ c ∈ text.toList, Text.isBlank c = true
  unbroken : '\n' ∉ text.toList
  no_return : '\r' ∉ text.toList

def Padding.bare : Padding := ⟨"", by simp, by simp, by simp⟩

structure Entry where
  path : String
  ne_empty : path ≠ ""
  unbroken : '\n' ∉ path.toList
  head : ∀ c ∈ path.toList.head?, Text.isBlank c = false ∧ c ≠ '#'
  last : ∀ c ∈ path.toList.getLast?, Text.isBlank c = false

/-- What may stand on a line before the list ends. -/
inductive Line where
  | entry (before : Padding) (entry : Entry) (after : Padding)
  | comment (before : Padding) (text : String) (unbroken : '\n' ∉ text.toList)
  | blank (padding : Padding) (ne_empty : padding.text ≠ "")

namespace Line

def text : Line → String
  | entry before e after => before.text ++ e.path ++ after.text
  | comment before text _ => before.text ++ "#" ++ text
  | blank padding _ => padding.text

def entries : Line → List Entry
  | entry _ e _ => [e]
  | comment .. | blank .. => []

end Line

inductive LineEnd where
  | feed
  | returnFeed
  deriving DecidableEq, Repr

def LineEnd.bytes : LineEnd → Bytes
  | feed => [lineFeed]
  | returnFeed => [carriageReturn, lineFeed]

/-- What may follow the lines of a list. -/
inductive Tail where
  | nothing
  /-- One more line, which nothing ends. -/
  | unended (l : Line)
  /-- An empty line and anything after it. -/
  | stop (e : LineEnd) (rest : Bytes)

namespace Tail

def bytes : Tail → Bytes
  | nothing => []
  | unended l => Utf8.encode l.text
  | stop e rest => e.bytes ++ rest

def entries : Tail → List Entry
  | unended l => l.entries
  | nothing | stop .. => []

end Tail

/-- A way to write a list of inputs. -/
structure Written where
  lines : List (Line × LineEnd)
  tail : Tail

namespace Written

def bytes (w : Written) : Bytes :=
  w.lines.flatMap (fun l => Utf8.encode l.1.text ++ l.2.bytes) ++ w.tail.bytes

def entries (w : Written) : List Entry := w.lines.flatMap (·.1.entries) ++ w.tail.entries

end Written

/-- Every list of paths can be written. -/
theorem exists_written (es : List Entry) : ∃ w : Written, w.entries = es := by
  refine ⟨⟨es.map fun e => (.entry .bare e .bare, .feed), .nothing⟩, ?_⟩
  simp [Written.entries, Tail.entries, List.flatMap_map, Line.entries]

theorem Entry.path?_eq (e : Entry) : path? e.path = some e.path := by
  have htrim : Text.trimmed e.path = e.path := by
    rw [Text.trimmed, Text.trim_eq_self (fun c hc => (e.head c hc).1) e.last, String.ofList_toList]
  have hhead : e.path.toList.head? ≠ some '#' := fun h => (e.head '#' h).2 rfl
  rw [path?, htrim, if_neg (by simp [e.ne_empty, hhead])]

theorem path?_padded (before after : Padding) (s : String) :
    path? (before.text ++ s ++ after.text) = path? s := by
  have htrim : Text.trimmed (before.text ++ s ++ after.text) = Text.trimmed s := by
    rw [Text.trimmed, Text.trimmed, String.toList_append, String.toList_append,
      Text.trim_append_right after.blank, Text.trim_append_left before.blank]
  rw [path?, path?, htrim]

/-- A line is read as what it lists. -/
theorem Line.path?_text (l : Line) : (path? l.text).toList = l.entries.map (·.path) := by
  cases l with
  | entry before e after =>
    rw [text, path?_padded, e.path?_eq]
    rfl
  | comment before text unbroken =>
    have hhead : (Text.trimmed (before.text ++ "#" ++ text)).toList.head? = some '#' := by
      rw [Text.trimmed, String.toList_ofList, String.toList_append, String.toList_append,
        List.append_assoc, Text.trim_append_left before.blank]
      exact Text.head?_trim (by decide)
    rw [Line.text, path?, if_pos (by simp [hhead])]
    rfl
  | blank padding ne_empty =>
    have htrim : Text.trimmed padding.text = "" := by
      rw [Text.trimmed, ← List.append_nil padding.text.toList, Text.trim_append_left padding.blank]
      rfl
    rw [text, path?, htrim]
    rfl

theorem Line.unbroken (l : Line) : '\n' ∉ l.text.toList := by
  cases l with
  | entry before e after =>
    simp [text, before.unbroken, e.unbroken, after.unbroken]
  | comment before text unbroken => simp [Line.text, before.unbroken, unbroken]
  | blank padding ne_empty => exact padding.unbroken

theorem Line.exists_ne_return (l : Line) : ∃ c ∈ l.text.toList, c ≠ '\r' := by
  cases l with
  | entry before e after =>
    obtain ⟨c, hc⟩ : ∃ c, c ∈ e.path.toList.head? := by
      cases hpath : e.path.toList with
      | nil => exact absurd (String.toList_eq_nil_iff.1 hpath) e.ne_empty
      | cons c cs => exact ⟨c, rfl⟩
    refine ⟨c, ?_, ?_⟩
    · simp [text, List.mem_of_mem_head? hc]
    · rintro rfl
      cases (e.head '\r' hc).1
  | comment before text unbroken => exact ⟨'#', by simp [Line.text], by decide⟩
  | blank padding ne_empty =>
    obtain ⟨c, hc⟩ := List.exists_mem_of_ne_nil padding.text.toList
      (by simpa using ne_empty)
    exact ⟨c, hc, fun hreturn => padding.no_return (hreturn ▸ hc)⟩

theorem isLine_encode (hunbroken : '\n' ∉ s.toList) (h : ∃ c ∈ s.toList, c ≠ '\r') :
    IsLine (Utf8.encode s) := by
  obtain ⟨c, hc, hne⟩ := h
  refine ⟨fun hmem => hunbroken ((Utf8.mem_encode (by decide)).1 hmem), ?_, ?_⟩
  · intro hnil
    have hs : s = "" := Utf8.encode_injective hnil
    rw [hs] at hc
    cases hc
  · intro hreturn
    have hs : s = "\r" := Utf8.encode_injective hreturn
    rw [hs] at hc
    exact hne (List.mem_singleton.1 hc)

/-- A line that ends is read before what follows it. -/
theorem read_cons (l : Line) (e : LineEnd) :
    read (Utf8.encode l.text ++ e.bytes ++ rest) =
      (l.entries.map (·.path) ++ ·) <$> read rest := by
  obtain ⟨c, hc, hne⟩ := l.exists_ne_return
  rw [← l.path?_text]
  cases e with
  | feed =>
    rw [LineEnd.bytes, List.append_assoc]
    exact read_line (isLine_encode l.unbroken ⟨c, hc, hne⟩)
  | returnFeed =>
    have hpush : Utf8.encode l.text ++ LineEnd.returnFeed.bytes ++ rest =
        Utf8.encode (l.text.push '\r') ++ lineFeed :: rest := by
      rw [show '\r' = Char.ofNat carriageReturn.toNat by rfl, Utf8.encode_push (by decide)]
      simp [LineEnd.bytes]
    have hunbroken : '\n' ∉ (l.text.push '\r').toList := by
      simp [l.unbroken]
    rw [hpush, read_line (isLine_encode hunbroken ⟨c, by simp [hc], hne⟩), path?_push_return]

theorem read_tail (t : Tail) : read t.bytes = .ok (t.entries.map (·.path)) := by
  cases t with
  | nothing => rfl
  | unended l =>
    have hunbroken : lineFeed ∉ Utf8.encode l.text := fun hmem =>
      l.unbroken ((Utf8.mem_encode (by decide)).1 hmem)
    rw [Tail.bytes, read_last hunbroken, l.path?_text]
    rfl
  | stop e rest =>
    cases e with
    | feed => exact read_stop (l := []) (.inl rfl)
    | returnFeed => exact read_stop (l := [carriageReturn]) (.inr rfl)

theorem read_bytes (w : Written) : read w.bytes = .ok (w.entries.map (·.path)) := by
  obtain ⟨lines, tail⟩ := w
  induction lines with
  | nil => exact read_tail tail
  | cons l lines ih =>
    have hbytes : Written.bytes ⟨l :: lines, tail⟩ =
        Utf8.encode l.1.text ++ l.2.bytes ++ Written.bytes ⟨lines, tail⟩ := by
      simp [Written.bytes]
    rw [hbytes, read_cons, ih, map_ok]
    simp [Written.entries]

/-- Some line before the first empty one is no text. -/
def HasFault (data : Bytes) : Prop :=
  ∃ (lines : List Bytes) (l rest : Bytes), (∀ k ∈ lines, IsLine k) ∧ lineFeed ∉ l ∧ IsFaulty l ∧
    (rest = [] ∨ rest.head? = some lineFeed) ∧
      data = lines.flatMap (· ++ [lineFeed]) ++ l ++ rest

theorem HasFault.cons (hl : IsLine l) (h : HasFault rest) : HasFault (l ++ lineFeed :: rest) := by
  obtain ⟨lines, faulty, after, hlines, hunbroken, hfaulty, hafter, rfl⟩ := h
  exact ⟨l :: lines, faulty, after, List.forall_mem_cons.2 ⟨hl, hlines⟩, hunbroken, hfaulty, hafter,
    by simp⟩

theorem read_of_hasFault {data : Bytes} (h : HasFault data) : read data = .error .notText := by
  obtain ⟨lines, l, rest, hlines, hunbroken, hfaulty, hrest, rfl⟩ := h
  induction lines with
  | nil =>
    rw [List.flatMap_nil, List.nil_append]
    cases rest with
    | nil => rw [List.append_nil, read_last_fault hunbroken hfaulty]
    | cons b rest =>
      obtain rfl : b = lineFeed := by simpa using hrest
      exact read_fault hunbroken hfaulty
  | cons k lines ih =>
    obtain ⟨hk, hothers⟩ := List.forall_mem_cons.1 hlines
    have hcons : (k :: lines).flatMap (· ++ [lineFeed]) ++ l ++ rest =
        k ++ lineFeed :: (lines.flatMap (· ++ [lineFeed]) ++ l ++ rest) := by
      simp
    rw [hcons]
    by_cases htext : IsFaulty k
    · exact read_fault hk.unbroken htext
    · obtain ⟨s, rfl⟩ : ∃ s, k = Utf8.encode s := by simpa [IsFaulty] using htext
      rw [read_line hk, ih hothers, map_error]

/-- The first line that is no text is found by going through the lines before it. -/
theorem hasFault_of_read {data : Bytes} {e : FileError} (h : read data = .error e) :
    HasFault data := by
  induction hn : data.length using Nat.strong_induction_on generalizing data with
  | _ n ih =>
    by_cases hmem : lineFeed ∈ data
    · obtain ⟨l, rest, rfl, hunbroken⟩ := List.eq_append_cons_of_mem hmem
      by_cases hstop : l = [] ∨ l = [carriageReturn]
      · rw [read_stop hstop] at h
        cases h
      · rw [not_or] at hstop
        have hl : IsLine l := ⟨hunbroken, hstop.1, hstop.2⟩
        by_cases htext : IsFaulty l
        · exact ⟨[], l, lineFeed :: rest, by simp, hunbroken, htext, .inr rfl, by simp⟩
        · obtain ⟨s, rfl⟩ : ∃ s, l = Utf8.encode s := by simpa [IsFaulty] using htext
          rw [read_line hl] at h
          cases hrest : read rest with
          | ok paths =>
            rw [hrest] at h
            cases h
          | error e' =>
            have hshort : rest.length < n := by
              rw [← hn, List.length_append, List.length_cons]
              omega
            rw [hrest] at h
            cases h
            exact (ih _ hshort hrest rfl).cons hl
    · by_cases htext : IsFaulty data
      · exact ⟨[], data, [], by simp, hmem, htext, .inl rfl, by simp⟩
      · obtain ⟨s, rfl⟩ : ∃ s, data = Utf8.encode s := by simpa [IsFaulty] using htext
        rw [read_last hmem] at h
        cases h

/-- Reading undoes every way to write a list, and it fails exactly on a line before the first empty
one that is no text. -/
theorem read_written : (∀ w : Written, read w.bytes = .ok (w.entries.map (·.path))) ∧
    ∀ data, (∃ e, read data = .error e) ↔ HasFault data :=
  ⟨read_bytes, fun _ => ⟨fun ⟨_, h⟩ => hasFault_of_read h, fun h => ⟨_, read_of_hasFault h⟩⟩⟩

def blanks : Padding := ⟨" \t", List.all_eq_true.1 (by decide), by decide, by decide⟩

def listedEntries : Entry × Entry :=
  (⟨"a b.xml", by decide, by decide, by rintro _ ⟨⟩; decide, by rintro _ ⟨⟩; decide⟩,
    ⟨"é.xml", by decide, by decide, by rintro _ ⟨⟩; decide, by rintro _ ⟨⟩; decide⟩)

/-- Two paths between a comment, a blank line and bytes that are no text after an empty line, with
both ways to end a line. -/
def mixedList : Written where
  lines := [
    (.comment blanks " inputs" (by decide), .returnFeed),
    (.entry blanks listedEntries.1 blanks, .feed),
    (.blank blanks (by decide), .feed),
    (.entry .bare listedEntries.2 .bare, .returnFeed)]
  tail := .stop .returnFeed [255, 10]

/-- The bytes after the empty line are not looked at, but they are a fault if the line is missing. -/
theorem read_written_mixed :
    read (Utf8.encode " \t# inputs\r\n \ta b.xml \t\n \t\né.xml\r\n\r\n" ++ [255, 10]) =
        .ok ["a b.xml", "é.xml"] ∧
      HasFault (Utf8.encode " \t# inputs\r\n \ta b.xml \t\n \t\né.xml\r\n" ++ [255, 10]) := by
  have hbytes : mixedList.bytes =
      Utf8.encode " \t# inputs\r\n \ta b.xml \t\n \t\né.xml\r\n\r\n" ++ [255, 10] := by
    decide +kernel
  have hfault : read (Utf8.encode " \t# inputs\r\n \ta b.xml \t\n \t\né.xml\r\n" ++ [255, 10]) =
      .error .notText := by
    decide +kernel
  rw [← hbytes]
  exact ⟨read_written.1 mixedList, (read_written.2 _).1 ⟨_, hfault⟩⟩

end Schematron.InputList
