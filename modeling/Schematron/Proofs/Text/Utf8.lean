import Schematron.Text.Utf8
import Schematron.Proofs.Sequencing

/-!
# Text in UTF-8

Decoding undoes encoding, and there are no other bytes that it takes (`decode_eq_ok`).
-/
namespace Schematron.Utf8
open String (utf8EncodeChar)
open Sequencing

variable {b : UInt8} {bs rest : Bytes} {c : Char} {s : String}
variable {value seen left lo hi more index : Nat}

theorem continuation_cons (hlo : lo ≤ b.toNat) (hhi : b.toNat ≤ hi) :
    continuation value seen (left + 1) lo hi (b :: bs) =
      continuation (value * 64 + (b.toNat - 0x80)) (seen + 1) left 0x80 0xBF bs := by
  simp [continuation, hlo, hhi]

theorem of_continuation (h : continuation value seen (left + 1) lo hi bs = .char c more) :
    ∃ b rest, bs = b :: rest ∧ lo ≤ b.toNat ∧ b.toNat ≤ hi ∧
      continuation (value * 64 + (b.toNat - 0x80)) (seen + 1) left 0x80 0xBF rest = .char c more := by
  cases bs with
  | nil => cases h
  | cons b rest =>
    rw [continuation] at h
    split at h
    · rename_i hb
      simp only [Bool.and_eq_true, decide_eq_true_eq] at hb
      exact ⟨b, rest, rfl, hb.1, hb.2, h⟩
    · cases h

theorem toNat_ofNat {n : Nat} (h : n < 256) : (UInt8.ofNat n).toNat = n := by
  simp [Nat.mod_eq_of_lt h]

theorem start_one {n : Nat} (h : n < 0x80) (rest : Bytes) :
    start (UInt8.ofNat n) rest = .char (Char.ofNat n) 0 := by
  simp only [start, toNat_ofNat (show n < 256 by omega)]
  rw [if_pos h]

theorem start_two {n : Nat} (hlow : 0x80 ≤ n) (h : n < 0x800) (rest : Bytes) :
    start (UInt8.ofNat (n / 64 % 32 + 0xC0)) (UInt8.ofNat (n % 64 + 0x80) :: rest) =
      .char (Char.ofNat n) 1 := by
  have hfirst : (UInt8.ofNat (n / 64 % 32 + 0xC0)).toNat = n / 64 + 0xC0 := by
    rw [toNat_ofNat] <;> omega
  have hsecond := toNat_ofNat (show n % 64 + 0x80 < 256 by omega)
  rw [start, hfirst, if_neg (by omega), if_neg (by omega), if_pos (by omega),
    continuation_cons (by omega) (by omega), hsecond, continuation]
  exact congrArg₂ Start.char (congrArg Char.ofNat (by omega)) rfl

theorem start_three {n : Nat} (hlow : 0x800 ≤ n) (h : n < 0x10000)
    (hvalid : n < 0xD800 ∨ 0xDFFF < n) (rest : Bytes) :
    start (UInt8.ofNat (n / 4096 % 16 + 0xE0)) (UInt8.ofNat (n / 64 % 64 + 0x80) ::
      UInt8.ofNat (n % 64 + 0x80) :: rest) = .char (Char.ofNat n) 2 := by
  have hfirst : (UInt8.ofNat (n / 4096 % 16 + 0xE0)).toNat = n / 4096 + 0xE0 := by
    rw [toNat_ofNat] <;> omega
  have hsecond := toNat_ofNat (show n / 64 % 64 + 0x80 < 256 by omega)
  have hthird := toNat_ofNat (show n % 64 + 0x80 < 256 by omega)
  rw [start, hfirst, if_neg (by omega), if_neg (by omega), if_neg (by omega), if_pos (by omega),
    continuation_cons (by split <;> omega) (by split <;> omega),
    continuation_cons (by omega) (by omega), hsecond, hthird, continuation]
  exact congrArg₂ Start.char (congrArg Char.ofNat (by omega)) rfl

theorem start_four {n : Nat} (hlow : 0x10000 ≤ n) (h : n < 0x110000) (rest : Bytes) :
    start (UInt8.ofNat (n / 262144 % 8 + 0xF0)) (UInt8.ofNat (n / 4096 % 64 + 0x80) ::
      UInt8.ofNat (n / 64 % 64 + 0x80) :: UInt8.ofNat (n % 64 + 0x80) :: rest) =
      .char (Char.ofNat n) 3 := by
  have hfirst : (UInt8.ofNat (n / 262144 % 8 + 0xF0)).toNat = n / 262144 + 0xF0 := by
    rw [toNat_ofNat] <;> omega
  have hsecond := toNat_ofNat (show n / 4096 % 64 + 0x80 < 256 by omega)
  have hthird := toNat_ofNat (show n / 64 % 64 + 0x80 < 256 by omega)
  have hfourth := toNat_ofNat (show n % 64 + 0x80 < 256 by omega)
  rw [start, hfirst, if_neg (by omega), if_neg (by omega), if_neg (by omega), if_neg (by omega),
    if_pos (by omega), continuation_cons (by split <;> omega) (by split <;> omega),
    continuation_cons (by omega) (by omega), continuation_cons (by omega) (by omega), hsecond,
    hthird, hfourth, continuation]
  exact congrArg₂ Start.char (congrArg Char.ofNat (by omega)) rfl

/-- The bytes of a character are read as it, whatever follows. -/
theorem start_encodeChar (c : Char) (rest : Bytes) :
    ∃ b bs, utf8EncodeChar c = b :: bs ∧ start b (bs ++ rest) = .char c bs.length := by
  have hvalid : c.val.toNat < 0xD800 ∨ 0xDFFF < c.val.toNat ∧ c.val.toNat < 0x110000 := c.valid
  have hc : Char.ofNat c.val.toNat = c := Char.ofNat_toNat c
  generalize hn : c.val.toNat = n at hvalid hc
  unfold utf8EncodeChar
  simp only [hn]
  split_ifs with h1 h2 h3
  · exact ⟨_, _, rfl, hc ▸ start_one (by omega) rest⟩
  · exact ⟨_, _, rfl, hc ▸ start_two (by omega) (by omega) rest⟩
  · exact ⟨_, _, rfl, hc ▸ start_three (by omega) (by omega) (by omega) rest⟩
  · exact ⟨_, _, rfl, hc ▸ start_four (by omega) (by omega) rest⟩

theorem val_ofNat {n : Nat} (h : n < 0xD800 ∨ 0xDFFF < n ∧ n < 0x110000) :
    (Char.ofNat n).val.toNat = n := by
  rw [Char.ofNat, dif_pos h]
  rfl

theorem ofNat_eq {n : Nat} (b : UInt8) (h : n = b.toNat) : UInt8.ofNat n = b := by
  rw [h, UInt8.ofNat_toNat]

theorem of_continuation_last (h : continuation value seen 0 lo hi rest = .char c more) :
    Char.ofNat value = c ∧ seen - 1 = more := by
  simpa only [continuation, Start.char.injEq] using h

/-- What the bytes of a character look like that a first byte and those after it begin with. -/
def Encodes (b : UInt8) (bs : Bytes) (c : Char) (more : Nat) : Prop :=
  ∃ tail rest, bs = tail ++ rest ∧ tail.length = more ∧ utf8EncodeChar c = b :: tail

theorem encodes_two (hb : 0xC2 ≤ b.toNat ∧ b.toNat < 0xE0)
    (h : continuation (b.toNat - 0xC0) 1 1 0x80 0xBF bs = .char c more) : Encodes b bs c more := by
  obtain ⟨b₂, rest, rfl, hlo, hhi, h⟩ := of_continuation h
  obtain ⟨rfl, rfl⟩ := of_continuation_last h
  refine ⟨[b₂], rest, rfl, rfl, ?_⟩
  rw [utf8EncodeChar, val_ofNat (by omega), if_neg (by omega), if_pos (by omega),
    ofNat_eq b (by omega), ofNat_eq b₂ (by omega)]

theorem encodes_three (hb : 0xE0 ≤ b.toNat ∧ b.toNat < 0xF0)
    (h : continuation (b.toNat - 0xE0) 1 2 (if b.toNat = 0xE0 then 0xA0 else 0x80)
      (if b.toNat = 0xED then 0x9F else 0xBF) bs = .char c more) : Encodes b bs c more := by
  obtain ⟨b₂, _, rfl, hlo, hhi, h⟩ := of_continuation h
  obtain ⟨b₃, rest, rfl, hlo₃, hhi₃, h⟩ := of_continuation h
  obtain ⟨rfl, rfl⟩ := of_continuation_last h
  refine ⟨[b₂, b₃], rest, rfl, rfl, ?_⟩
  -- no surrogates, and no characters that fewer bytes encode
  split at hlo <;> split at hhi
  all_goals
    rw [utf8EncodeChar, val_ofNat (by omega), if_neg (by omega), if_neg (by omega),
      if_pos (by omega), ofNat_eq b (by omega), ofNat_eq b₂ (by omega), ofNat_eq b₃ (by omega)]

theorem encodes_four (hb : 0xF0 ≤ b.toNat ∧ b.toNat < 0xF5)
    (h : continuation (b.toNat - 0xF0) 1 3 (if b.toNat = 0xF0 then 0x90 else 0x80)
      (if b.toNat = 0xF4 then 0x8F else 0xBF) bs = .char c more) : Encodes b bs c more := by
  obtain ⟨b₂, _, rfl, hlo, hhi, h⟩ := of_continuation h
  obtain ⟨b₃, _, rfl, hlo₃, hhi₃, h⟩ := of_continuation h
  obtain ⟨b₄, rest, rfl, hlo₄, hhi₄, h⟩ := of_continuation h
  obtain ⟨rfl, rfl⟩ := of_continuation_last h
  refine ⟨[b₂, b₃, b₄], rest, rfl, rfl, ?_⟩
  split at hlo <;> split at hhi
  all_goals
    rw [utf8EncodeChar, val_ofNat (by omega), if_neg (by omega), if_neg (by omega),
      if_neg (by omega), ofNat_eq b (by omega), ofNat_eq b₂ (by omega), ofNat_eq b₃ (by omega),
      ofNat_eq b₄ (by omega)]

/-- A character is read only from its own bytes. -/
theorem encodes_of_start (h : start b bs = .char c more) : Encodes b bs c more := by
  rw [start] at h
  split at h
  · cases h
    refine ⟨[], bs, rfl, rfl, ?_⟩
    rw [utf8EncodeChar, val_ofNat (by omega), if_pos (by omega), ofNat_eq b rfl]
  split at h
  · cases h
  split at h
  · exact encodes_two (by omega) h
  split at h
  · exact encodes_three (by omega) h
  split at h
  · exact encodes_four (by omega) h
  · cases h

theorem decodeFrom_flatMap (cs : List Char) (index : Nat) :
    decodeFrom index (cs.flatMap utf8EncodeChar) = .ok cs := by
  induction cs generalizing index with
  | nil => rw [List.flatMap_nil, decodeFrom]
  | cons c cs ih =>
    obtain ⟨b, bs, hc, hstart⟩ := start_encodeChar c (cs.flatMap utf8EncodeChar)
    rw [List.flatMap_cons, hc, List.cons_append, decodeFrom, hstart]
    dsimp only
    rw [List.drop_left, ih, ok_bind, pure_eq_ok]

theorem eq_of_decodeFrom {cs : List Char} (h : decodeFrom index bs = .ok cs) :
    bs = cs.flatMap utf8EncodeChar := by
  induction index, bs using decodeFrom.induct generalizing cs with
  | case1 index =>
    rw [decodeFrom] at h
    cases h
    rfl
  | case2 index b bs c more hstart ih =>
    rw [decodeFrom, hstart] at h
    obtain ⟨cs', hcs, h⟩ := bind_eq_ok.1 h
    cases h
    obtain ⟨tail, rest, rfl, rfl, hc⟩ := encodes_of_start hstart
    rw [List.drop_left] at hcs ih
    rw [List.flatMap_cons, hc, List.cons_append, ← ih hcs]
  | case3 index b bs n hstart =>
    rw [decodeFrom, hstart] at h
    cases h
  | case4 index b bs hstart =>
    rw [decodeFrom, hstart] at h
    cases h

theorem decode_eq_ok : decode bs = .ok s ↔ bs = encode s := by
  constructor
  · intro h
    obtain ⟨cs, hcs, rfl⟩ := map_eq_ok.1 h
    rw [encode, String.toList_ofList]
    exact eq_of_decodeFrom hcs
  · rintro rfl
    rw [decode, encode, decodeFrom_flatMap]
    exact congrArg Except.ok String.ofList_toList

@[simp] theorem decode_encode (s : String) : decode (encode s) = .ok s := decode_eq_ok.2 rfl

@[simp] theorem encode_append (s s' : String) : encode (s ++ s') = encode s ++ encode s' := by
  simp [encode]

/-- A byte below 128 stands for itself wherever it is. -/
theorem of_mem_encodeChar (hb : b.toNat < 0x80) (h : b ∈ utf8EncodeChar c) :
    utf8EncodeChar c = [b] ∧ Char.ofNat b.toNat = c := by
  have hhigh (n : Nat) (hn : 0x80 ≤ n ∧ n < 256) : b ≠ UInt8.ofNat n := by
    rintro rfl
    rw [toNat_ofNat hn.2] at hb
    omega
  rw [utf8EncodeChar] at h ⊢
  split at h
  · rename_i hone
    obtain rfl := List.mem_singleton.1 h
    rw [if_pos hone, toNat_ofNat (by omega)]
    exact ⟨rfl, Char.ofNat_toNat c⟩
  split at h
  · simp only [List.mem_cons, List.not_mem_nil, or_false] at h
    rcases h with h | h <;> exact absurd h (hhigh _ (by omega))
  split at h
  · simp only [List.mem_cons, List.not_mem_nil, or_false] at h
    rcases h with h | h | h <;> exact absurd h (hhigh _ (by omega))
  · simp only [List.mem_cons, List.not_mem_nil, or_false] at h
    rcases h with h | h | h | h <;> exact absurd h (hhigh _ (by omega))

theorem encodeChar_ofNat (hb : b.toNat < 0x80) : utf8EncodeChar (Char.ofNat b.toNat) = [b] := by
  rw [utf8EncodeChar, val_ofNat (by omega), if_pos (by omega), ofNat_eq b rfl]

theorem mem_encode (hb : b.toNat < 0x80) : b ∈ encode s ↔ Char.ofNat b.toNat ∈ s.toList := by
  rw [encode, List.mem_flatMap]
  constructor
  · rintro ⟨c, hc, h⟩
    rwa [(of_mem_encodeChar hb h).2]
  · intro h
    exact ⟨_, h, by rw [encodeChar_ofNat hb]; exact List.mem_singleton_self b⟩

theorem encode_push (hb : b.toNat < 0x80) :
    encode (s.push (Char.ofNat b.toNat)) = encode s ++ [b] := by
  rw [encode, String.toList_push, List.flatMap_append, List.flatMap_singleton, encodeChar_ofNat hb,
    encode]

theorem encode_eq_concat (hb : b.toNat < 0x80) :
    encode s = bs ++ [b] ↔ ∃ s', s = s'.push (Char.ofNat b.toNat) ∧ bs = encode s' := by
  constructor
  · intro h
    obtain hnil | ⟨cs, c, hs⟩ := s.toList.eq_nil_or_concat'
    · simp [encode, hnil] at h
    · rw [encode, hs, List.flatMap_append, List.flatMap_singleton] at h
      have hne : utf8EncodeChar c ≠ [] := by
        obtain ⟨_, _, hc, -⟩ := start_encodeChar c []
        rw [hc]
        exact List.cons_ne_nil _ _
      have hmem : b ∈ utf8EncodeChar c := by
        apply List.mem_of_getLast?
        rw [← List.getLast?_append_of_ne_nil _ hne, h, List.getLast?_concat]
      obtain ⟨hc, hchar⟩ := of_mem_encodeChar hb hmem
      rw [hc] at h
      refine ⟨String.ofList cs, ?_, ?_⟩
      · apply String.toList_injective
        rw [hs, String.toList_push, String.toList_ofList, hchar]
      · rw [encode, String.toList_ofList]
        exact (List.append_cancel_right h).symm
  · rintro ⟨s', rfl, rfl⟩
    exact encode_push hb

end Schematron.Utf8
