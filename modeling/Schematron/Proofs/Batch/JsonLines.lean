import Schematron.Output
import Schematron.Proofs.Json.Rendering
import Schematron.Proofs.Text.Utf8

/-!
# One line for each document

As JSON, a result whose paths are text is one line from which it can be read again, and the lines
stand in the order of the results (`json_lines_read_back`). A result with a path that is no text has
no line.
-/
namespace Schematron
open Json

namespace FilePath

theorem text?_ofText (s : String) : (ofText s).text? = some s := by
  rw [text?, ofText, Utf8.decode_encode]
  rfl

theorem text?_eq_some {p : FilePath} {s : String} : p.text? = some s ↔ p = ofText s := by
  obtain ⟨bs⟩ := p
  rw [text?, Sequencing.toOption_eq_some, Utf8.decode_eq_ok, ofText, mk.injEq]

end FilePath

theorem natBelow?_nat {bound n : Nat} (h : n < bound) : natBelow? bound (.nat n) = some n := by
  simp [natBelow?, nat?, Json.nat, Option.filter, h]

theorem optional?_optStr (s : Option String) : optional? str? (some (.optStr s)) = some s := by
  cases s <;> rfl

theorem Duration.ofParts_secs_rest (d : Duration) : ofParts d.secs d.rest = d :=
  congrArg mk (Nat.div_add_mod' d.nanos perSecond)

theorem Duration.rest_lt (d : Duration) : d.rest < Number.capacity 32 :=
  Nat.lt_trans (Nat.mod_lt _ (by decide)) (by decide : perSecond < Number.capacity 32)

theorem Duration.ofJson?_toJson {d : Duration} (h : d.secs < Number.capacity 64) :
    ofJson? d.toJson = some d := by
  have hfields : d.toJson.fields? ["secs", "nanos"] false =
      some [some (.nat d.secs), some (.nat d.rest)] := rfl
  have hknown : (d.toJson.members.any fun m => m.1 != "secs" && m.1 != "nanos") = false := rfl
  rw [ofJson?, if_neg (by rw [hknown]; exact Bool.false_ne_true), hfields, Option.bind_eq_bind,
    Option.bind_some]
  dsimp only
  rw [required?, Option.bind_some, natBelow?_nat h, Option.bind_eq_bind, Option.bind_some, required?,
    Option.bind_some, natBelow?_nat d.rest_lt, Option.bind_some, ofParts_secs_rest, if_pos h]

theorem Duration.isPlain_toJson {d : Duration} (h : d.secs < Number.capacity 64) :
    IsPlain d.toJson := by
  have hrest : d.rest < Number.capacity 64 := Nat.lt_trans d.rest_lt (by decide)
  exact .obj (by simp [IsPlain.nat h, IsPlain.nat hrest])

theorem Message.ofJson?_toJson (m : Message) : ofJson? m.toJson = some m := by
  have hfields : m.toJson.fields? ["is_error", "context", "test", "location", "text"] false =
      some [some (.bool m.isError), some (.optStr m.context), some (.optStr m.test),
        some (.optStr m.location), some (.str m.text)] := rfl
  simp [ofJson?, hfields, required?, bool?, str?, optional?_optStr]

theorem Message.mapM_ofJson?_toJson (ms : List Message) :
    (ms.map toJson).mapM ofJson? = some ms := by
  induction ms with
  | nil => rfl
  | cons m ms ih => simp [ofJson?_toJson, ih]

theorem Message.isPlain_toJson (m : Message) : IsPlain m.toJson :=
  .obj (by simp [IsPlain.bool, IsPlain.str, IsPlain.optStr])

def Verdict.Fits : Verdict → Prop
  | .invalid errors warnings =>
    errors < Number.capacity 64 ∧ warnings < Number.capacity 64
  | .valid | .failed _ => True

namespace FileResult
variable {r : FileResult} {path : String} {report : Option String}

/-- A result whose numbers fit the words in which they are counted. -/
structure Fits (r : FileResult) : Prop where
  size : r.size < Number.capacity 64
  verdict : r.verdict.Fits
  duration : r.duration.secs < Number.capacity 64

def isText (r : FileResult) : Bool := r.path.text?.isSome && r.reportPath.all (·.text?.isSome)

/-- The members of the object for a result, with its paths as text. -/
def members (r : FileResult) (path : String) (report : Option String) : List (String × Json) :=
  [("path", .str path), ("size", .nat r.size)] ++ r.verdict.members ++
    [("duration", r.duration.toJson), ("messages", .arr (r.messages.map (·.toJson))),
      ("report_path", .optStr report)]

theorem isText_iff : r.isText = true ↔
    ∃ (path : String) (report : Option String),
      r.path = .ofText path ∧ r.reportPath = report.map .ofText := by
  rw [isText, Bool.and_eq_true]
  constructor
  · rintro ⟨hpath, hreport⟩
    obtain ⟨path, hpath⟩ := Option.isSome_iff_exists.1 hpath
    cases hr : r.reportPath with
    | none => exact ⟨path, none, FilePath.text?_eq_some.1 hpath, rfl⟩
    | some p =>
      rw [hr] at hreport
      obtain ⟨report, hreport⟩ := Option.isSome_iff_exists.1 hreport
      exact ⟨path, some report, FilePath.text?_eq_some.1 hpath,
        congrArg some (FilePath.text?_eq_some.1 hreport)⟩
  · rintro ⟨path, report, hpath, hreport⟩
    rw [hpath, hreport, FilePath.text?_ofText]
    cases report with
    | none => exact ⟨rfl, rfl⟩
    | some report =>
      exact ⟨rfl, by rw [Option.map_some, Option.all_some, FilePath.text?_ofText]; rfl⟩

theorem toJson?_of_text (hpath : r.path = .ofText path) (hreport : r.reportPath = report.map .ofText) :
    r.toJson? = some (.obj (r.members path report)) := by
  have hpathJson : pathJson? r.path = some (.str path) := by
    rw [hpath, pathJson?, FilePath.text?_ofText]
    rfl
  rw [toJson?, hpathJson, hreport]
  cases report with
  | none => rfl
  | some report =>
    have hreportJson : pathJson? (.ofText report) = some (.str report) := by
      rw [pathJson?, FilePath.text?_ofText]
      rfl
    simp only [Option.map_some, hreportJson]
    rfl

theorem toJson?_eq_none (h : r.isText = false) : r.toJson? = none := by
  cases hpath : r.path.text? with
  | none => rw [toJson?, pathJson?, hpath]; rfl
  | some path =>
    have hreport : r.reportPath.all (·.text?.isSome) = false := by
      simpa [isText, hpath] using h
    cases hr : r.reportPath with
    | none =>
      rw [hr] at hreport
      cases hreport
    | some p =>
      rw [hr, Option.all_some, Option.isSome_eq_false_iff, Option.isNone_iff_eq_none] at hreport
      rw [toJson?, hr]
      simp only [pathJson?, hpath, hreport]
      rfl

theorem ofMembers?_members (h : r.verdict.Fits) :
    Verdict.ofMembers? (r.members path report) = some r.verdict := by
  rw [members]
  cases hv : r.verdict with
  | valid => rfl
  | invalid errors warnings =>
    rw [hv] at h
    let count := natBelow? (Number.capacity 64)
    calc Verdict.ofMembers? _
      _ = (count (.nat errors)).bind fun e => (count (.nat warnings)).bind fun w =>
          some (.invalid e w) := rfl
      _ = some (.invalid errors warnings) := by
        simp only [count, natBelow?_nat h.1, natBelow?_nat h.2, Option.bind_some]
  | failed message => rfl

theorem member?_members (r : FileResult) (path : String) (report : Option String) :
    member? (r.members path report) "path" = some (some (.str path)) ∧
      member? (r.members path report) "size" = some (some (.nat r.size)) ∧
      member? (r.members path report) "duration" = some (some r.duration.toJson) ∧
      member? (r.members path report) "messages" =
        some (some (.arr (r.messages.map (·.toJson)))) ∧
      member? (r.members path report) "report_path" = some (some (.optStr report)) := by
  rw [members]
  cases r.verdict <;> exact ⟨rfl, rfl, rfl, rfl, rfl⟩

/-- A result is read back from its object. -/
theorem ofJson?_members (hfits : r.Fits) (hpath : r.path = .ofText path)
    (hreport : r.reportPath = report.map .ofText) :
    ofJson? (.obj (r.members path report)) = some r := by
  obtain ⟨hpathField, hsizeField, hdurationField, hmessagesField, hreportField⟩ :=
    member?_members r path report
  have hmessages : list? Message.ofJson? (.arr (r.messages.map (·.toJson))) = some r.messages :=
    Message.mapM_ofJson?_toJson r.messages
  rw [ofJson?]
  simp only [hpathField, hsizeField, hdurationField, hmessagesField, hreportField,
    Option.bind_eq_bind, Option.bind_some, required?, str?, natBelow?_nat hfits.size,
    Duration.ofJson?_toJson hfits.duration, hmessages, optional?_optStr,
    ofMembers?_members hfits.verdict, ← hpath, ← hreport]
  rfl

theorem isPlain_members (path : String) (report : Option String) (hfits : r.Fits) :
    IsPlain (.obj (r.members path report)) := by
  have hverdict : ∀ m ∈ r.verdict.members, IsPlain m.2 := by
    have hfitsVerdict := hfits.verdict
    cases hv : r.verdict with
    | valid => simp [Verdict.members, IsPlain.str]
    | invalid errors warnings =>
      rw [hv] at hfitsVerdict
      simp [Verdict.members, IsPlain.str, IsPlain.nat hfitsVerdict.1, IsPlain.nat hfitsVerdict.2]
    | failed message => simp [Verdict.members, IsPlain.str]
  have hmessages : IsPlain (.arr (r.messages.map (·.toJson))) := by
    refine .arr fun j hj => ?_
    obtain ⟨m, -, rfl⟩ := List.mem_map.1 hj
    exact m.isPlain_toJson
  refine .obj fun m hm => ?_
  simp only [members, List.mem_append, List.mem_cons, List.not_mem_nil, or_false] at hm
  rcases hm with ((rfl | rfl) | hm) | (rfl | rfl | rfl)
  · exact .str path
  · exact .nat hfits.size
  · exact hverdict m hm
  · exact Duration.isPlain_toJson hfits.duration
  · exact hmessages
  · exact .optStr report

/-- The text of a result is one line, from which the result is read back. -/
theorem toJson?_of_isText (hfits : r.Fits) (h : r.isText = true) :
    ∃ j, r.toJson? = some j ∧ '\n' ∉ j.render.toList ∧
      (parse? j.render).bind ofJson? = some r := by
  obtain ⟨path, report, hpath, hreport⟩ := isText_iff.1 h
  have hplain := isPlain_members path report hfits
  refine ⟨_, toJson?_of_text hpath hreport, newline_notMem_render hplain, ?_⟩
  rw [parse?_render hplain, Option.bind_some, ofJson?_members hfits hpath hreport]

end FileResult

namespace Output
variable {o : Output} {r : FileResult}

theorem file_of_toJson? {j : Json} (ho : o.format = .json) (h : r.toJson? = some j) :
    o.file r = { out := j.render ++ "\n" } := by
  rw [file, ho, h]

theorem file_of_not_isText (ho : o.format = .json) (h : r.isText = false) :
    (o.file r).out = "" ∧ (o.file r).err ≠ "" := by
  rw [file, ho, FileResult.toJson?_eq_none h]
  refine ⟨rfl, fun herr => ?_⟩
  have hempty := congrArg String.toList herr
  simp at hempty

/-- As JSON, each result whose paths are text is one line, in order, and is read back from it. A
result with another path is told on standard error only. -/
theorem json_lines_read_back (ho : o.format = .json) (rs : List FileResult)
    (hfits : ∀ r ∈ rs, r.Fits) :
    (∃ lines : List String,
      String.join (rs.map fun r => (o.file r).out) = String.join (lines.map (· ++ "\n")) ∧
      (∀ l ∈ lines, '\n' ∉ l.toList) ∧
      lines.map (fun l => (Json.parse? l).bind FileResult.ofJson?) =
        (rs.filter (·.isText)).map some) ∧
    ∀ r ∈ rs, r.isText = false → (o.file r).out = "" ∧ (o.file r).err ≠ "" := by
  refine ⟨?_, fun r _ h => file_of_not_isText ho h⟩
  induction rs with
  | nil => exact ⟨[], rfl, by simp, rfl⟩
  | cons r rs ih =>
    obtain ⟨hr, hrs⟩ := List.forall_mem_cons.1 hfits
    obtain ⟨lines, hout, hlines, hread⟩ := ih hrs
    cases htext : r.isText with
    | false =>
      refine ⟨lines, ?_, hlines, ?_⟩
      · rw [List.map_cons, String.join_cons, (file_of_not_isText ho htext).1, String.empty_append, hout]
      · rw [List.filter_cons_of_neg (by simp [htext]), hread]
    | true =>
      obtain ⟨j, hj, hline, hback⟩ := FileResult.toJson?_of_isText hr htext
      refine ⟨j.render :: lines, ?_, List.forall_mem_cons.2 ⟨hline, hlines⟩, ?_⟩
      · rw [List.map_cons, String.join_cons, file_of_toJson? ho hj, hout, List.map_cons,
          String.join_cons]
      · rw [List.filter_cons_of_pos htext, List.map_cons, List.map_cons, hback, hread]

/-- A result for a document whose name is no text. -/
def unnamed : FileResult where
  path := ⟨[0xFF]⟩
  size := 0
  verdict := .valid
  duration := .zero
  messages := []

theorem unnamed_fits : unnamed.Fits := ⟨by decide, trivial, by decide⟩

theorem isText_unnamed : unnamed.isText = false := by
  have hstart : Utf8.start 0xFF [] = .malformed 1 := rfl
  have hdecode : Utf8.decode [0xFF] = .error ⟨0, some 1⟩ := by
    rw [Utf8.decode, Utf8.decodeFrom, hstart]
    rfl
  rw [FileResult.isText, unnamed, FilePath.text?, hdecode]
  rfl

/-- Of two results, only the one whose path is text has a line. -/
theorem json_lines_read_back_named :
    let named : FileResult := { unnamed with path := .ofText "a\n.xml", verdict := .failed "\"x\"" }
    ∃ lines : List String,
      String.join ([unnamed, named].map fun r => (file { format := .json } r).out) =
        String.join (lines.map (· ++ "\n")) ∧
      (∀ l ∈ lines, '\n' ∉ l.toList) ∧
      lines.map (fun l => (Json.parse? l).bind FileResult.ofJson?) = [some named] := by
  intro named
  have hnamed : named.isText = true := FileResult.isText_iff.2 ⟨_, none, rfl, rfl⟩
  have hfits : ∀ r ∈ [unnamed, named], r.Fits := by
    simp only [List.forall_mem_cons, List.not_mem_nil, false_implies, implies_true, and_true]
    exact ⟨unnamed_fits, by decide, trivial, by decide⟩
  have hfilter : [unnamed, named].filter (·.isText) = [named] := by
    rw [List.filter_cons_of_neg (by simp [isText_unnamed]), List.filter_cons_of_pos hnamed,
      List.filter_nil]
  have hread := (json_lines_read_back (o := { format := .json }) rfl [unnamed, named] hfits).1
  rw [hfilter] at hread
  exact hread

/-- Not every result has a line. -/
theorem not_forall_json_line : ¬ ∀ (o : Output) (rs : List FileResult), o.format = .json →
    (∀ r ∈ rs, r.Fits) → ∃ lines : List String,
      String.join (rs.map fun r => (o.file r).out) = String.join (lines.map (· ++ "\n")) ∧
      (∀ l ∈ lines, '\n' ∉ l.toList) ∧
      lines.map (fun l => (Json.parse? l).bind FileResult.ofJson?) = rs.map some := by
  intro h
  obtain ⟨lines, hout, -, hread⟩ := h { format := .json } [unnamed] rfl
    (List.forall_mem_singleton.2 unnamed_fits)
  have hnone : (file { format := .json } unnamed).out = "" := (file_of_not_isText rfl isText_unnamed).1
  obtain ⟨l, rfl⟩ : ∃ l, lines = [l] := by
    rw [← List.length_eq_one_iff, ← List.length_map, hread]
    rfl
  have hline := congrArg String.toList hout
  simp [hnone] at hline

end Output

end Schematron
