import Mathlib.Tactic.Ring
import Offside.Text.Utf8
/-!
# Texts written in UTF-8

A character is written as a first byte, which says how many more there are, and as bytes with six bits of its value
each.  Inside a character, the reader makes these bytes into what is missing of the value (`readFrom_tail`), whichever
of the first bytes it began with (`readFrom_encodeChar`).  So it makes the bytes of a text into that text
(`read_toUTF8`).
-/
namespace Offside
namespace Utf8

open String (utf8EncodeChar)

/-- The bytes behind the first one, each with six bits of a value, the highest ones first. -/
def tail : Nat → Nat → List UInt8
  | 0, _ => []
  | owed + 1, value => UInt8.ofNat (value / 64 ^ owed % 64 + 0x80) :: tail owed value

/-! ## Steps of the reader -/

section
variable {offset : Nat} {p : Partial} {byte : UInt8} (rest : List UInt8)

theorem readFrom_begin (h : begin? offset byte = some p) :
    readFrom offset none (byte :: rest) = readFrom (offset + 1) (some p) rest := by
  have hbyte : ¬ byte.toNat < 0x80 := by
    intro hlt
    rw [begin?, if_pos (by omega)] at h
    cases h
  rw [readFrom, if_neg hbyte, h]

theorem readFrom_more (hlow : p.low ≤ byte.toNat) (hhigh : byte.toNat ≤ p.high) (howed : p.owed ≠ 1) :
    readFrom offset (some p) (byte :: rest) = readFrom (offset + 1) (some (p.push byte)) rest := by
  rw [readFrom, decide_eq_true hlow, decide_eq_true hhigh, if_neg howed]
  rfl

theorem readFrom_last (hlow : p.low ≤ byte.toNat) (hhigh : byte.toNat ≤ p.high) (howed : p.owed = 1) :
    readFrom offset (some p) (byte :: rest) =
      (Char.ofNat (p.push byte).value :: ·) <$> readFrom (offset + 1) none rest := by
  rw [readFrom, decide_eq_true hlow, decide_eq_true hhigh, if_pos howed]
  rfl

end

/-! ## Characters -/

theorem toNat_tail (value owed : Nat) :
    (UInt8.ofNat (value / 64 ^ owed % 64 + 0x80)).toNat = value / 64 ^ owed % 64 + 0x80 := by
  have := Nat.mod_lt (value / 64 ^ owed) (show 64 > 0 by decide)
  exact UInt8.toNat_ofNat_of_lt' (show _ < 256 by omega)

/-- A byte brings six more bits of the value. -/
theorem value_push (p : Partial) (value owed : Nat) :
    (p.push (UInt8.ofNat (value / 64 ^ owed % 64 + 0x80))).value * 64 ^ owed + value % 64 ^ owed =
      p.value * 64 ^ (owed + 1) + value % 64 ^ (owed + 1) := by
  have hbits : (value / 64 ^ owed % 64 + 0x80) % 64 = value / 64 ^ owed % 64 := by omega
  rw [Partial.push, toNat_tail, hbits, Nat.pow_succ, Nat.mod_mul]
  ring

/-- **Inside a character, the bytes that are owed complete its value.**  Of the first of them more may be asked than of
the others. -/
theorem readFrom_tail (value : Nat) (rest : List UInt8) : ∀ (owed offset : Nat) (p : Partial), p.owed = owed + 1 →
    p.low ≤ value / 64 ^ owed % 64 + 0x80 → value / 64 ^ owed % 64 + 0x80 ≤ p.high →
    readFrom offset (some p) (tail (owed + 1) value ++ rest) =
      (Char.ofNat (p.value * 64 ^ (owed + 1) + value % 64 ^ (owed + 1)) :: ·) <$>
        readFrom (offset + (owed + 1)) none rest
  | 0, offset, p, howed, hlow, hhigh => by
    rw [← toNat_tail] at hlow hhigh
    have hvalue := value_push p value 0
    rw [Nat.pow_zero, Nat.mod_one, Nat.mul_one, Nat.add_zero] at hvalue
    exact (readFrom_last rest hlow hhigh howed).trans (by rw [Nat.pow_zero, hvalue])
  | owed + 1, offset, p, howed, hlow, hhigh => by
    rw [← toNat_tail] at hlow hhigh
    let byte := UInt8.ofNat (value / 64 ^ (owed + 1) % 64 + 0x80)
    have hpush : (p.push byte).owed = owed + 1 := by
      show p.owed - 1 = owed + 1
      omega
    have hbits := Nat.mod_lt (value / 64 ^ owed) (show 64 > 0 by decide)
    have hhigh' : value / 64 ^ owed % 64 + 0x80 ≤ (p.push byte).high := by
      show _ ≤ 0xbf
      omega
    have ih := readFrom_tail value rest owed (offset + 1) (p.push byte) hpush (Nat.le_add_left _ _) hhigh'
    rw [value_push p value (owed + 1), Nat.add_assoc offset, Nat.add_comm 1 (owed + 1)] at ih
    exact (readFrom_more _ hlow hhigh (by omega)).trans ih

theorem encodeChar_eq (c : Char) : utf8EncodeChar c =
    let v := c.toNat
    if v ≤ 0x7f then [UInt8.ofNat v]
    else if v ≤ 0x7ff then UInt8.ofNat (v / 64 % 32 + 0xc0) :: tail 1 v
    else if v ≤ 0xffff then UInt8.ofNat (v / 4096 % 16 + 0xe0) :: tail 2 v
    else UInt8.ofNat (v / 262144 % 8 + 0xf0) :: tail 3 v := by
  simp [utf8EncodeChar, tail]

theorem length_tail : ∀ owed value, (tail owed value).length = owed
  | 0, _ => rfl
  | owed + 1, value => congrArg (· + 1) (length_tail owed value)

/-! What the first byte of a character announces. -/

section
variable {offset b : Nat} {byte : UInt8} (hb : byte.toNat = b)
include hb

theorem begin?_two (h : 0xc2 ≤ b ∧ b < 0xe0) : begin? offset byte = some ⟨offset, [byte], b - 0xc0, 1, 0x80, 0xbf⟩ := by
  rw [begin?, hb]
  rw [if_neg (by omega), if_pos h.2]

theorem begin?_three (h : 0xe0 ≤ b ∧ b < 0xf0) : begin? offset byte =
    some ⟨offset, [byte], b - 0xe0, 2, if b = 0xe0 then 0xa0 else 0x80, if b = 0xed then 0x9f else 0xbf⟩ := by
  rw [begin?, hb]
  rw [if_neg (by omega), if_neg (by omega), if_pos h.2]

theorem begin?_four (h : 0xf0 ≤ b ∧ b < 0xf5) : begin? offset byte =
    some ⟨offset, [byte], b - 0xf0, 3, if b = 0xf0 then 0x90 else 0x80, if b = 0xf4 then 0x8f else 0xbf⟩ := by
  rw [begin?, hb]
  rw [if_neg (by omega), if_neg (by omega), if_neg (by omega), if_pos h.2]

end

/-- A first byte and the bytes that it announces, where they give the value. -/
theorem readFrom_announced {offset owed value : Nat} {byte : UInt8} {p : Partial} (hbegin : begin? offset byte = some p)
    (howed : p.owed = owed + 1) (hlow : p.low ≤ value / 64 ^ owed % 64 + 0x80)
    (hhigh : value / 64 ^ owed % 64 + 0x80 ≤ p.high)
    (hvalue : p.value * 64 ^ (owed + 1) + value % 64 ^ (owed + 1) = value) (rest : List UInt8) :
    readFrom offset none (byte :: tail (owed + 1) value ++ rest) =
      (Char.ofNat value :: ·) <$> readFrom (offset + (byte :: tail (owed + 1) value).length) none rest := by
  have htail := readFrom_tail value rest owed (offset + 1) p howed hlow hhigh
  rw [hvalue, Nat.add_assoc, Nat.add_comm 1] at htail
  rw [List.length_cons, length_tail]
  exact (readFrom_begin _ hbegin).trans htail

/-- **The bytes of a character are read as that character.** -/
theorem readFrom_encodeChar (c : Char) (offset : Nat) (rest : List UInt8) :
    readFrom offset none (utf8EncodeChar c ++ rest) =
      (c :: ·) <$> readFrom (offset + (utf8EncodeChar c).length) none rest := by
  have hc : Char.ofNat c.toNat = c := Char.ofNat_toNat c
  have hvalid : c.toNat < 0xd800 ∨ 0xdfff < c.toNat ∧ c.toNat < 0x110000 := c.valid
  rw [encodeChar_eq]
  dsimp only
  generalize c.toNat = v at hc hvalid ⊢
  subst hc
  by_cases h1 : v ≤ 0x7f
  · have hbyte := UInt8.toNat_ofNat_of_lt' (show v < 256 by omega)
    rw [if_pos h1, List.singleton_append, readFrom, hbyte, if_pos (by omega)]
    rfl
  rw [if_neg h1]
  by_cases h2 : v ≤ 0x7ff
  · rw [if_pos h2]
    have hbyte := UInt8.toNat_ofNat_of_lt' (show v / 64 % 32 + 0xc0 < 256 by omega)
    refine @readFrom_announced offset 0 v _ _ (begin?_two hbyte ⟨by omega, by omega⟩) rfl (Nat.le_add_left 0x80 _) ?_ ?_
      rest
    · show _ ≤ 0xbf
      omega
    · show (v / 64 % 32 + 0xc0 - 0xc0) * 64 ^ 1 + v % 64 ^ 1 = v
      omega
  rw [if_neg h2]
  by_cases h3 : v ≤ 0xffff
  · rw [if_pos h3]
    have hbyte := UInt8.toNat_ofNat_of_lt' (show v / 4096 % 16 + 0xe0 < 256 by omega)
    -- no value that fits in fewer bytes, and no surrogate
    refine @readFrom_announced offset 1 v _ _ (begin?_three hbyte ⟨by omega, by omega⟩) rfl ?_ ?_ ?_ rest
    · show (if v / 4096 % 16 + 0xe0 = 0xe0 then 0xa0 else 0x80) ≤ _
      split <;> omega
    · show _ ≤ (if v / 4096 % 16 + 0xe0 = 0xed then 0x9f else 0xbf)
      split <;> omega
    · show (v / 4096 % 16 + 0xe0 - 0xe0) * 64 ^ 2 + v % 64 ^ 2 = v
      omega
  · rw [if_neg h3]
    have hbyte := UInt8.toNat_ofNat_of_lt' (show v / 262144 % 8 + 0xf0 < 256 by omega)
    -- no value that fits in fewer bytes, and none behind the last character
    refine @readFrom_announced offset 2 v _ _ (begin?_four hbyte ⟨by omega, by omega⟩) rfl ?_ ?_ ?_ rest
    · show (if v / 262144 % 8 + 0xf0 = 0xf0 then 0x90 else 0x80) ≤ _
      split <;> omega
    · show _ ≤ (if v / 262144 % 8 + 0xf0 = 0xf4 then 0x8f else 0xbf)
      split <;> omega
    · show (v / 262144 % 8 + 0xf0 - 0xf0) * 64 ^ 3 + v % 64 ^ 3 = v
      omega

/-! ## Texts -/

/-- The bytes of characters are read as these characters, wherever they begin. -/
theorem readFrom_encode : ∀ (cs : List Char) (offset : Nat), readFrom offset none (cs.flatMap utf8EncodeChar) = .ok cs
  | [], _ => rfl
  | c :: cs, offset => by
    rw [List.flatMap_cons, readFrom_encodeChar, readFrom_encode cs]
    rfl

/-- **The bytes of a text are read as that text.** -/
theorem read_toUTF8 (text : String) : read text.toUTF8.data.toList = .ok text.toList := by
  have hbytes : text.toUTF8.data.toList = text.toList.flatMap utf8EncodeChar := by
    rw [String.toUTF8_eq_toByteArray, ← String.utf8Encode_toList]
    exact List.toList_data_toByteArray
  rw [read, hbytes]
  exact readFrom_encode text.toList 0

end Utf8
end Offside
