import Schematron.Json.Parser
import Schematron.Json.Render
import Schematron.Proofs.Text.Scanning

/-!
# Written JSON is read back

A value is plain if it can be written without loss: its integers fit 64 bits and it holds no other
numbers. Reading what is written for a plain value gives the value (`parse?_render`), and no line
ends inside it (`newline_notMem_render`).
-/
namespace Schematron.Json
open Schematron.Text Schematron.Text.Scan

variable {j : Json} {js : List Json} {ms : List (String × Json)} {rest : List Char} {depth : Nat}

def FitsWord (n : Int) : Prop := -(Number.capacity 63 : Int) ≤ n ∧ n < Number.capacity 64

namespace Reader

theorem hexDigit_digit {n : Nat} (h : n < 16) (rest : List Char) :
    hexDigit (Hex.digit n :: rest) = some (n, rest) := by
  simp [hexDigit, next, Hex.value?_digit n h]

theorem hex4_digits {a b c d : Nat} (ha : a < 16) (hb : b < 16) (hc : c < 16) (hd : d < 16)
    (rest : List Char) :
    hex4 (Hex.digit a :: Hex.digit b :: Hex.digit c :: Hex.digit d :: rest) =
      some (((a * 16 + b) * 16 + c) * 16 + d, rest) := by
  simp [hex4, hexDigit_digit ha, hexDigit_digit hb, hexDigit_digit hc, hexDigit_digit hd]

/-- A control character is read from the number that it is written as. -/
theorem unicodeEscape_control {c : Char} (h : c.toNat < 0x20) (rest : List Char) :
    unicodeEscape ('0' :: '0' :: Hex.digit (c.toNat / 16) :: Hex.digit (c.toNat % 16) :: rest) =
      some (some c, rest) := by
  have hhex := hex4_digits (a := 0) (b := 0) (by decide) (by decide)
    (show c.toNat / 16 < 16 by omega) (show c.toNat % 16 < 16 by omega) rest
  have hvalue : ((0 * 16 + 0) * 16 + c.toNat / 16) * 16 + c.toNat % 16 = c.toNat := by omega
  rw [hvalue] at hhex
  have hdigit : Hex.digit 0 = '0' := rfl
  rw [hdigit] at hhex
  rw [unicodeEscape, bind_run, hhex, Option.bind_some]
  dsimp only
  rw [if_neg (by simp; omega), if_neg (by simp; omega), Char.ofNat_toNat]
  rfl

/-- An escaped character is read as the character. -/
theorem stringChar_escapeChar (c : Char) (rest : List Char) :
    stringChar (escapeChar c ++ rest) = some (some c, rest) := by
  have hnumber {n : Nat} (h : (c.toNat == n) = true) : c = Char.ofNat n := by
    rw [← beq_iff_eq.1 h, Char.ofNat_toNat]
  unfold escapeChar
  -- seven characters have a short escape: five are told by themselves, two by their number
  iterate 5
    split
    · rename_i h
      rw [beq_iff_eq.1 h]
      rfl
  iterate 2
    split
    · rename_i h
      rw [hnumber h]
      rfl
  split
  · rename_i hcontrol
    exact unicodeEscape_control hcontrol rest
  · rename_i hquote hbackslash _ _ _ _ _ hcontrol
    have hplain : (c != '"' && decide (0x20 ≤ c.toNat)) = true := by
      rw [Bool.and_eq_true, decide_eq_true_eq]
      exact ⟨bne_iff_ne.2 fun h => hquote (beq_iff_eq.2 h), Nat.le_of_not_lt hcontrol⟩
    rw [stringChar, bind_run, List.singleton_append, satisfy, if_pos hplain, Option.bind_some]
    dsimp only
    split
    · exact absurd rfl hbackslash
    · rfl

theorem escapeChar_ne_nil (c : Char) : escapeChar c ≠ [] := by
  unfold escapeChar
  repeat' split
  all_goals exact List.cons_ne_nil _ _

theorem char_cons (c : Char) (rest : List Char) : char c (c :: rest) = some ((), rest) := by
  simp [char, satisfy]

/-- A quoted text is read as the text. -/
theorem string_quote (s : String) (rest : List Char) :
    string ((quote s).toList ++ rest) = some (some s, rest) := by
  have hchars : many stringChar (s.toList.flatMap escapeChar ++ '"' :: rest) =
      some (s.toList.map some, '"' :: rest) :=
    many_append (fun c _ => ⟨escapeChar_ne_nil c, stringChar_escapeChar c⟩) rfl
  have hvalues : (s.toList.map some).mapM id = some s.toList := by
    induction s.toList with
    | nil => rfl
    | cons c cs ih => simp [ih]
  rw [string, quote, String.toList_ofList, bind_run, List.append_assoc, List.cons_append,
    char_cons, Option.bind_some]
  dsimp only
  rw [bind_run, List.singleton_append, hchars, Option.bind_some]
  dsimp only
  rw [bind_run, char_cons, Option.bind_some]
  dsimp only
  rw [hvalues, pure_run, Option.map_some, String.ofList_toList]

def EndsNumber (rest : List Char) : Prop :=
  ∀ c ∈ rest.head?, c.isDigit = false ∧ c ≠ '.' ∧ c ≠ 'e' ∧ c ≠ 'E'

theorem isDigit_of_mem_toDigits {n : Nat} {c : Char} (h : c ∈ Nat.toDigits 10 n) :
    c.isDigit = true := Nat.isDigit_of_mem_toDigits (by decide) (by decide) h

theorem head?_toDigits_ne {n : Nat} (h : 0 < n) : (Nat.toDigits 10 n).head? ≠ some '0' := by
  induction n using Nat.strongRecOn with
  | _ n ih =>
    rw [Nat.toDigits_eq_if (by decide)]
    split
    · rename_i hsmall
      have hdigit : ∀ d < 10, 0 < d → Nat.digitChar d ≠ '0' := by decide
      simpa using hdigit n hsmall h
    · rename_i hlarge
      have hhead := ih (n / 10) (by omega) (by omega)
      obtain ⟨d, ds, hds⟩ := List.exists_cons_of_ne_nil (Nat.toDigits_ne_nil (n := n / 10) (b := 10))
      rw [hds] at hhead ⊢
      exact hhead

/-- A number is read from its digits. -/
theorem number_digits (negative : Bool) (n : Nat) (hrest : EndsNumber rest) :
    number ((if negative then ['-'] else []) ++ (Nat.toDigits 10 n ++ rest)) =
      some (integer negative (Nat.toDigits 10 n), rest) := by
  have hsign : tryWord "-" ((if negative then ['-'] else []) ++ (Nat.toDigits 10 n ++ rest)) =
      some (negative, Nat.toDigits 10 n ++ rest) := by
    cases negative with
    | true => exact tryWord_append "-" (Nat.toDigits 10 n ++ rest)
    | false =>
      obtain ⟨d, ds, hds⟩ := List.exists_cons_of_ne_nil (Nat.toDigits_ne_nil (n := n) (b := 10))
      have hd : d.isDigit = true := isDigit_of_mem_toDigits (hds ▸ List.mem_cons_self)
      have hne : ¬ '-' = d := by
        rintro rfl
        cases hd
      apply tryWord_eq_false
      rw [hds]
      exact if_neg hne
  have hdigits : run1 Char.isDigit (Nat.toDigits 10 n ++ rest) = some (Nat.toDigits 10 n, rest) := by
    refine run1_append Nat.toDigits_ne_nil (List.all_eq_true.2 fun _ => isDigit_of_mem_toDigits) ?_
    rw [Option.any_eq_false]
    exact fun c hc => (hrest c hc).1
  have hlead : ¬ ((Nat.toDigits 10 n).head? = some '0' ∧ ¬ (Nat.toDigits 10 n).length = 1) := by
    rintro ⟨hzero, hlength⟩
    cases n with
    | zero => exact hlength rfl
    | succ n => exact head?_toDigits_ne (by omega) hzero
  have hdot : tryWord "." rest = some (false, rest) := by
    apply tryWord_eq_false
    cases rest with
    | nil => rfl
    | cons c rest => exact if_neg (Ne.symm (hrest c rfl).2.1)
  have hexponent : (rest.head?.any fun c => c == 'e' || c == 'E') = false := by
    rw [Option.any_eq_false]
    intro c hc
    obtain ⟨-, -, he, hE⟩ := hrest c hc
    simp [he, hE]
  simp [number, hsign, hdigits, hlead, hdot, hexponent, peek]

theorem value_toDigits (n : Nat) : Numeral.value (Nat.toDigits 10 n) = n :=
  Nat.ofDigitChars_ten_toDigits

theorem toList_ofNat (n : Nat) : (toString (Int.ofNat n)).toList = Nat.toDigits 10 n :=
  Nat.toList_repr

theorem toList_negSucc (n : Nat) :
    (toString (Int.negSucc n)).toList = '-' :: Nat.toDigits 10 (n + 1) := by
  have hminus : toString (Int.negSucc n) = "-" ++ (n + 1).repr := rfl
  rw [hminus, String.toList_append, Nat.toList_repr]
  rfl

/-- An integer is read back. -/
theorem number_toString {n : Int} (hn : FitsWord n) (hrest : EndsNumber rest) :
    number ((toString n).toList ++ rest) = some (.int n, rest) := by
  cases n with
  | ofNat n =>
    have hbound : n < Number.capacity 64 := Int.ofNat_lt.1 hn.2
    have hint : integer false (Nat.toDigits 10 n) = .int n := by
      simp [integer, value_toDigits, hbound]
    rw [toList_ofNat]
    exact (number_digits false n hrest).trans (by rw [hint]; rfl)
  | negSucc n =>
    have hbound : n + 1 ≤ Number.capacity 63 := by
      have := hn.1
      omega
    have hint : integer true (Nat.toDigits 10 (n + 1)) = .int (Int.negSucc n) := by
      simp [integer, value_toDigits, hbound, Int.negSucc_eq]
    rw [toList_negSucc]
    exact (number_digits true (n + 1) hrest).trans (by rw [hint])

theorem mem_toString {n : Int} {c : Char} (h : c ∈ (toString n).toList) :
    c = '-' ∨ c.isDigit = true := by
  cases n with
  | ofNat n =>
    rw [toList_ofNat] at h
    exact .inr (isDigit_of_mem_toDigits h)
  | negSucc n =>
    rw [toList_negSucc] at h
    exact (List.mem_cons.1 h).imp_right isDigit_of_mem_toDigits

/-- The text of a number starts with a minus sign or a digit. -/
theorem exists_head_toString (n : Int) :
    ∃ c cs, (toString n).toList = c :: cs ∧ (c = '-' ∨ c.isDigit = true) := by
  have hne : (toString n).toList ≠ [] := by
    cases n with
    | ofNat n => exact toList_ofNat n ▸ Nat.toDigits_ne_nil
    | negSucc n => exact toList_negSucc n ▸ List.cons_ne_nil _ _
  obtain ⟨c, cs, hcs⟩ := List.exists_cons_of_ne_nil hne
  exact ⟨c, cs, hcs, mem_toString (hcs ▸ List.mem_cons_self)⟩

end Reader

section
variable {β : Type} {written : β → List Char}

def listed (written : β → List Char) : List β → List Char
  | [] => []
  | b :: bs => written b ++ bs.flatMap fun c => ',' :: written c

/-- No item is longer than the whole list. -/
theorem length_le_listed (written : β → List Char) {b : β} {bs : List β} (h : b ∈ bs) :
    (written b).length ≤ (listed written bs).length := by
  obtain ⟨before, after, rfl⟩ := List.append_of_mem h
  cases before with
  | nil =>
    rw [List.nil_append, listed, List.length_append]
    omega
  | cons c before =>
    rw [List.cons_append, listed, List.flatMap_append, List.flatMap_cons]
    simp only [List.length_append, List.length_cons]
    omega

end

/-- A value that can be written without loss. -/
inductive IsPlain : Json → Prop where
  | null : IsPlain .null
  | bool (b : Bool) : IsPlain (.bool b)
  | int {n : Int} (h : FitsWord n) : IsPlain (.int n)
  | str (s : String) : IsPlain (.str s)
  | arr {js : List Json} (h : ∀ j ∈ js, IsPlain j) : IsPlain (.arr js)
  | obj {ms : List (String × Json)} (h : ∀ m ∈ ms, IsPlain m.2) : IsPlain (.obj ms)

theorem IsPlain.nat {n : Nat} (h : n < Number.capacity 64) : IsPlain (.nat n) :=
  .int ⟨by omega, Int.ofNat_lt.2 h⟩

theorem IsPlain.optStr (s : Option String) : IsPlain (.optStr s) := by
  cases s with
  | none => exact .null
  | some s => exact .str s

namespace Reader

def isSpace (c : Char) : Bool := c == ' ' || c == '\n' || c == '\t' || c == '\r'

theorem spaces_of_head {c : Char} (hc : isSpace c = false) (cs : List Char) :
    spaces (c :: cs) = some ((), c :: cs) := by
  have hrun : run isSpace (c :: cs) = some ([], c :: cs) := run_nil (by simpa using hc)
  rw [spaces, bind_run]
  exact congrArg (Option.bind · _) hrun

theorem spaces_nil : spaces [] = some ((), []) := rfl

/-- A text that begins something: neither a space nor the end of a record or list. -/
def Begins (w : List Char) : Prop :=
  ∃ c cs, w = c :: cs ∧ isSpace c = false ∧ c ≠ ']' ∧ c ≠ '\x7d'

theorem toList_toString (c : Char) : c.toString.toList = [c] := by
  simp [Char.toString]

section
variable {α β : Type} {item : Scan α} {written : β → List Char} {read : β → α} {close : Char}

theorem separated_nil (hspace : isSpace close = false) (rest : List Char) :
    separated item close (close :: rest) = some ([], rest) := by
  have hclose := tryWord_append close.toString rest
  rw [toList_toString, List.singleton_append] at hclose
  rw [separated, bind_run, spaces_of_head hspace, Option.bind_some, bind_run, hclose]
  rfl

theorem endsNumber_comma (rest : List Char) : EndsNumber (',' :: rest) := by
  rintro c ⟨⟩
  decide

theorem endsNumber_close (hclose : close = ']' ∨ close = '\x7d') : EndsNumber (close :: rest) := by
  rintro c ⟨⟩
  rcases hclose with rfl | rfl <;> decide

theorem isSpace_close (hclose : close = ']' ∨ close = '\x7d') : isSpace close = false := by
  rcases hclose with rfl | rfl <;> decide

/-- Items that each follow a comma are read one by one, up to the closing mark. -/
theorem many_comma {bs : List β} (hclose : close = ']' ∨ close = '\x7d')
    (hbegins : ∀ c ∈ bs, Begins (written c))
    (hitem : ∀ c ∈ bs, ∀ r, EndsNumber r → item (written c ++ r) = some (read c, r)) :
    many (do spaces; char ','; spaces; item)
        (bs.flatMap (fun c => ',' :: written c) ++ close :: rest) =
      some (bs.map read, close :: rest) := by
  refine many_append_of (P := EndsNumber) (fun c hc => ⟨List.cons_ne_nil _ _, fun r hr => ?_⟩)
    (fun _ _ _ => endsNumber_comma _) (endsNumber_close hclose) ?_
  · obtain ⟨d, ds, hd, hspace, -⟩ := hbegins c hc
    have hread := hitem c hc r hr
    rw [hd] at hread ⊢
    rw [List.cons_append, bind_run, spaces_of_head (by decide), Option.bind_some, bind_run,
      char_cons, Option.bind_some, bind_run, List.cons_append, spaces_of_head hspace,
      Option.bind_some]
    exact hread
  · rw [bind_run, spaces_of_head (isSpace_close hclose), Option.bind_some, bind_run]
    rcases hclose with rfl | rfl <;> rfl

/-- Items with commas between them are read one by one. -/
theorem separated_cons {b : β} {bs : List β} (hclose : close = ']' ∨ close = '\x7d')
    (hbegins : ∀ c ∈ b :: bs, Begins (written c))
    (hitem : ∀ c ∈ b :: bs, ∀ r, EndsNumber r → item (written c ++ r) = some (read c, r)) :
    separated item close (listed written (b :: bs) ++ close :: rest) =
      some ((b :: bs).map read, rest) := by
  obtain ⟨hb, hbs⟩ := List.forall_mem_cons.1 hbegins
  obtain ⟨hbItem, hbsItem⟩ := List.forall_mem_cons.1 hitem
  have hmore : many (do spaces; char ','; spaces; item)
      (bs.flatMap (fun c => ',' :: written c) ++ close :: rest) =
        some (bs.map read, close :: rest) := many_comma hclose hbs hbsItem
  generalize hmoreText : bs.flatMap (fun c => ',' :: written c) ++ close :: rest = more at hmore
  have hfollows : EndsNumber more := by
    cases bs with
    | nil => exact hmoreText ▸ endsNumber_close hclose
    | cons c bs => exact hmoreText ▸ endsNumber_comma _
  have hfirst := hbItem more hfollows
  obtain ⟨d, ds, hd, hspace, hbracket, hbrace⟩ := hb
  have hopen : tryWord close.toString (d :: (ds ++ more)) = some (false, d :: (ds ++ more)) := by
    apply tryWord_eq_false
    rw [toList_toString]
    rcases hclose with rfl | rfl
    · exact if_neg (Ne.symm hbracket)
    · exact if_neg (Ne.symm hbrace)
  rw [hd, List.cons_append] at hfirst
  rw [listed, List.append_assoc, hmoreText, hd, List.cons_append, List.map_cons]
  simp only [separated, bind_run, spaces_of_head hspace, Option.bind_some, hopen, hfirst, hmore,
    spaces_of_head (isSpace_close hclose), char_cons, pure_run, Bool.false_eq_true, if_false]

theorem separated_listed {bs : List β} (hclose : close = ']' ∨ close = '\x7d')
    (hbegins : ∀ c ∈ bs, Begins (written c))
    (hitem : ∀ c ∈ bs, ∀ r, EndsNumber r → item (written c ++ r) = some (read c, r)) :
    separated item close (listed written bs ++ close :: rest) = some (bs.map read, rest) := by
  cases bs with
  | nil => exact separated_nil (isSpace_close hclose) rest
  | cons b bs => exact separated_cons hclose hbegins hitem

end

end Reader

def memberText (m : String × Json) : List Char := (quote m.1).toList ++ ':' :: m.2.render.toList

theorem toList_renderItems (js : List Json) :
    (renderItems js).toList = listed (·.render.toList) js := by
  induction js with
  | nil => rfl
  | cons j js ih =>
    cases js with
    | nil => simp [renderItems, listed]
    | cons k js =>
      rw [renderItems, String.toList_append, String.toList_append, ih]
      · simp [listed]
      · exact List.cons_ne_nil k js

theorem toList_renderMembers (ms : List (String × Json)) :
    (renderMembers ms).toList = listed memberText ms := by
  induction ms with
  | nil => rfl
  | cons m ms ih =>
    cases ms with
    | nil => simp [renderMembers, listed, memberText]
    | cons n ms =>
      rw [renderMembers, String.toList_append, String.toList_append, String.toList_append,
        String.toList_append, ih]
      · simp [listed, memberText]
      · exact List.cons_ne_nil n ms

theorem toList_render_arr (js : List Json) :
    (render (.arr js)).toList = '[' :: (listed (·.render.toList) js ++ [']']) := by
  rw [render, String.toList_append, String.toList_append, toList_renderItems]
  rfl

theorem toList_render_obj (ms : List (String × Json)) :
    (render (.obj ms)).toList = '\x7b' :: (listed memberText ms ++ ['\x7d']) := by
  rw [render, String.toList_append, String.toList_append, toList_renderMembers]
  rfl

namespace Reader

theorem begins_quote (s : String) : Begins (quote s).toList :=
  ⟨'"', _, String.toList_ofList, by decide, by decide, by decide⟩

theorem begins_memberText (m : String × Json) : Begins (memberText m) := by
  obtain ⟨c, cs, hc, hbegins⟩ := begins_quote m.1
  exact ⟨c, cs ++ ':' :: m.2.render.toList, by rw [memberText, hc, List.cons_append], hbegins⟩

/-- A character at the start of a number is no other one. -/
theorem ne_of_head {c d : Char} (hc : c = '-' ∨ c.isDigit = true)
    (hd : d ≠ '-' ∧ d.isDigit = false) : d ≠ c := by
  rintro rfl
  rcases hc with rfl | hdigit
  · exact hd.1 rfl
  · rw [hd.2] at hdigit
    cases hdigit

/-- What starts like a number is read as one. -/
theorem value_of_head {c : Char} (hc : c = '-' ∨ c.isDigit = true) (cs : List Char) :
    value (depth + 1) (c :: cs) = number (c :: cs) := by
  have hafter {d : Char} (w : List Char) (hd : d ≠ '-' ∧ d.isDigit = false) :
      after? (d :: w) (c :: cs) = none := if_neg (ne_of_head hc hd)
  have hquote : sees "\"" (c :: cs) = some (false, c :: cs) :=
    congrArg (fun r => some (Option.isSome r, c :: cs)) (hafter [] (by decide))
  have harr : tryWord "[" (c :: cs) = some (false, c :: cs) :=
    tryWord_eq_false (hafter [] (by decide))
  have hobj : tryWord "\x7b" (c :: cs) = some (false, c :: cs) :=
    tryWord_eq_false (hafter [] (by decide))
  have hnull : tryWord "null" (c :: cs) = some (false, c :: cs) :=
    tryWord_eq_false (hafter "ull".toList (by decide))
  have htrue : tryWord "true" (c :: cs) = some (false, c :: cs) :=
    tryWord_eq_false (hafter "rue".toList (by decide))
  have hfalse : tryWord "false" (c :: cs) = some (false, c :: cs) :=
    tryWord_eq_false (hafter "alse".toList (by decide))
  simp only [value, bind_run, hquote, harr, hobj, hnull, htrue, hfalse, Option.bind_some,
    Bool.false_eq_true, if_false]

theorem value_quote (s : String) (rest : List Char) :
    value (depth + 1) ((quote s).toList ++ rest) = some (.str s, rest) := by
  have hquote : sees "\"" ((quote s).toList ++ rest) = some (true, (quote s).toList ++ rest) := by
    rw [quote, String.toList_ofList]
    rfl
  simp only [value, bind_run, hquote, Option.bind_some, if_true, string_quote, pure_run]

theorem value_arr (cs : List Char) : value (depth + 1) ('[' :: cs) =
    (separated (value depth) ']' cs).bind fun p => some (.arr p.1, p.2) := by
  have hquote : sees "\"" ('[' :: cs) = some (false, '[' :: cs) := rfl
  have harr : tryWord "[" ('[' :: cs) = some (true, cs) := rfl
  simp only [value, bind_run, hquote, harr, Option.bind_some, Bool.false_eq_true, if_false, if_true,
    pure_run]

theorem value_obj (cs : List Char) : value (depth + 1) ('\x7b' :: cs) =
    (separated (member (value depth)) '\x7d' cs).bind fun p => some (.obj p.1, p.2) := by
  have hquote : sees "\"" ('\x7b' :: cs) = some (false, '\x7b' :: cs) := rfl
  have harr : tryWord "[" ('\x7b' :: cs) = some (false, '\x7b' :: cs) := rfl
  have hobj : tryWord "\x7b" ('\x7b' :: cs) = some (true, cs) := rfl
  simp only [value, bind_run, hquote, harr, hobj, Option.bind_some, Bool.false_eq_true, if_false,
    if_true, pure_run]

/-- A member is read if its value is. -/
theorem member_memberText {m : String × Json} {item : Scan Json}
    (hbegins : Begins m.2.render.toList)
    (hitem : item (m.2.render.toList ++ rest) = some (m.2, rest)) :
    member item (memberText m ++ rest) = some (m, rest) := by
  obtain ⟨c, cs, hc, hspace, -⟩ := hbegins
  rw [memberText, List.append_assoc, List.cons_append]
  rw [hc, List.cons_append] at hitem ⊢
  simp only [member, bind_run, string_quote, Option.bind_some,
    spaces_of_head (show isSpace ':' = false by decide), char_cons, spaces_of_head hspace, hitem,
    pure_run]

end Reader

open Reader

theorem IsPlain.begins (h : j.IsPlain) : Begins j.render.toList := by
  cases h with
  | null => exact ⟨'n', _, rfl, by decide, by decide, by decide⟩
  | bool b =>
    cases b with
    | true => exact ⟨'t', _, rfl, by decide, by decide, by decide⟩
    | false => exact ⟨'f', _, rfl, by decide, by decide, by decide⟩
  | @int n _ =>
    obtain ⟨c, cs, htext, hc⟩ := exists_head_toString n
    refine ⟨c, cs, htext, ?_, ?_, ?_⟩
    · simp [isSpace, Ne.symm (ne_of_head hc (d := ' ') (by decide)),
        Ne.symm (ne_of_head hc (d := '\n') (by decide)),
        Ne.symm (ne_of_head hc (d := '\t') (by decide)),
        Ne.symm (ne_of_head hc (d := '\r') (by decide))]
    · exact Ne.symm (ne_of_head hc (by decide))
    · exact Ne.symm (ne_of_head hc (by decide))
  | str s => exact begins_quote s
  | arr _ => exact ⟨'[', _, toList_render_arr _, by decide, by decide, by decide⟩
  | obj _ => exact ⟨'\x7b', _, toList_render_obj _, by decide, by decide, by decide⟩

/-- A plain value is read back from its text, whatever follows that is not part of a number. The
text is longer than values nest in it. -/
theorem value_render (h : j.IsPlain) : ∀ depth rest, j.render.toList.length ≤ depth →
    EndsNumber rest → value (depth + 1) (j.render.toList ++ rest) = some (j, rest) := by
  induction h with
  | null => exact fun _ _ _ _ => rfl
  | bool b => cases b <;> exact fun _ _ _ _ => rfl
  | @int n h =>
    intro depth rest _ hrest
    obtain ⟨c, cs, htext, hc⟩ := exists_head_toString n
    have hnumber := number_toString h hrest
    rw [render]
    rw [htext, List.cons_append] at hnumber ⊢
    rw [value_of_head hc, hnumber]
  | str s => exact fun _ rest _ _ => value_quote s rest
  | @arr js h ih =>
    intro depth rest hdepth _
    rw [toList_render_arr, List.length_cons, List.length_append] at hdepth
    obtain ⟨d, rfl⟩ := Nat.exists_eq_succ_of_ne_zero (show depth ≠ 0 by omega)
    have hitem (k) (hk : k ∈ js) (r) (hr : EndsNumber r) :
        value (d + 1) (k.render.toList ++ r) = some (id k, r) := by
      have hlength := length_le_listed (fun j : Json => j.render.toList) hk
      exact ih k hk d r (by omega) hr
    rw [toList_render_arr, List.cons_append, value_arr, List.append_assoc, List.singleton_append,
      separated_listed (.inl rfl) (fun k hk => (h k hk).begins) hitem, List.map_id]
    rfl
  | @obj ms h ih =>
    intro depth rest hdepth _
    rw [toList_render_obj, List.length_cons, List.length_append] at hdepth
    obtain ⟨d, rfl⟩ := Nat.exists_eq_succ_of_ne_zero (show depth ≠ 0 by omega)
    have hitem (m) (hm : m ∈ ms) (r) (hr : EndsNumber r) :
        member (value (d + 1)) (memberText m ++ r) = some (id m, r) := by
      have hlength := length_le_listed memberText hm
      rw [memberText, List.length_append, List.length_cons] at hlength
      exact member_memberText (h m hm).begins (ih m hm d r (by omega) hr)
    rw [toList_render_obj, List.cons_append, value_obj, List.append_assoc, List.singleton_append,
      separated_listed (.inr rfl) (fun m _ => begins_memberText m) hitem, List.map_id]
    rfl

/-- Reading undoes writing. -/
theorem parse?_render (h : j.IsPlain) : parse? j.render = some j := by
  obtain ⟨c, cs, hc, hspace, -⟩ := h.begins
  have hvalue := value_render h j.render.toList.length [] (Nat.le_refl _) (by rintro c ⟨⟩)
  rw [List.append_nil] at hvalue
  rw [parse?, whole?]
  rw [hc] at hvalue ⊢
  simp only [bind_run, spaces_of_head hspace, Option.bind_some, hvalue, spaces_nil, pure_run]

theorem newline_notMem_escapeChar (c : Char) : '\n' ∉ escapeChar c := by
  have hdigit : ∀ n < 16, '\n' ≠ Hex.digit n := by decide
  unfold escapeChar
  iterate 7
    split
    · decide
  split
  · rename_i hcontrol
    simp [hdigit (c.toNat / 16) (by omega), hdigit (c.toNat % 16) (by omega)]
  · rename_i hfeed _ _ _ _ _
    simpa using fun h => hfeed (beq_iff_eq.2 h.symm)

theorem newline_notMem_quote (s : String) : '\n' ∉ (quote s).toList := by
  rw [quote, String.toList_ofList]
  simp [newline_notMem_escapeChar]

theorem newline_notMem_listed {β : Type} {written : β → List Char} {bs : List β}
    (h : ∀ b ∈ bs, '\n' ∉ written b) : '\n' ∉ listed written bs := by
  cases bs with
  | nil => exact List.not_mem_nil
  | cons b bs =>
    obtain ⟨hb, hbs⟩ := List.forall_mem_cons.1 h
    simpa [listed, hb] using hbs

/-- A written value is on one line. -/
theorem newline_notMem_render (h : j.IsPlain) : '\n' ∉ j.render.toList := by
  induction h with
  | null => decide
  | bool b => cases b <;> decide
  | @int n _ =>
    intro hmem
    rcases mem_toString hmem with h | h <;> cases h
  | str s => exact newline_notMem_quote s
  | @arr js h ih =>
    rw [toList_render_arr]
    simpa using newline_notMem_listed ih
  | @obj ms h ih =>
    have hmembers : ∀ m ∈ ms, '\n' ∉ memberText m := by
      intro m hm
      simp [memberText, newline_notMem_quote, ih m hm]
    rw [toList_render_obj]
    simpa using newline_notMem_listed hmembers

end Schematron.Json
