import ClassDiagram.Text.Utf8
import Mathlib.Tactic.IntervalCases

/-!
# Decoding what was encoded

The bytes of a text decode to the text, and so do the bytes between any two of its characters.

* `Text.boundaries`: the places between the characters of a text.
* `Utf8.decode_encode`: decoding undoes encoding.
* `Utf8.exists_decode_slice`: bytes from one boundary to another decode.
-/

namespace ClassDiagram

/-- The places before, between and behind the characters of a text, counted in bytes. -/
def Text.boundaries : Text → List Nat
  | [] => [0]
  | c :: rest => 0 :: (boundaries rest).map (c.utf8Size + ·)

namespace Utf8

/-! ## One character -/

theorem toNat_ofNat {n : Nat} (h : n < 256) : (UInt8.ofNat n).toNat = n := by
  rw [UInt8.toNat_ofNat']
  exact Nat.mod_eq_of_lt h

/-- A code below 128 is its own byte. -/
theorem lead?_one {n : Nat} (h : n < 128) :
    lead? (UInt8.ofNat n) = some { count := 0, bits := n } := by
  have hlt : UInt8.ofNat n < 0x80 := by
    rw [UInt8.lt_iff_toNat_lt, toNat_ofNat (by omega)]
    exact h
  rw [lead?, if_pos hlt, toNat_ofNat (by omega)]

/-- The lead byte of two. -/
theorem lead?_two {n : Nat} (h : 2 ≤ n) (h' : n < 32) :
    lead? (UInt8.ofNat (n + 192)) = some { count := 1, bits := n } := by
  interval_cases n <;> rfl

/-- The lead byte of three, with the bounds of the second. -/
theorem lead?_three {n : Nat} (h : n < 16) :
    lead? (UInt8.ofNat (n + 224)) = some {
      count := 2
      bits := n
      low := if n = 0 then 0xA0 else 0x80
      high := if n = 13 then 0x9F else 0xBF } := by
  interval_cases n <;> rfl

/-- The lead byte of four, with the bounds of the second. -/
theorem lead?_four {n : Nat} (h : n < 5) :
    lead? (UInt8.ofNat (n + 240)) = some {
      count := 3
      bits := n
      low := if n = 0 then 0x90 else 0x80
      high := if n = 4 then 0x8F else 0xBF } := by
  interval_cases n <;> rfl

/-- A continuation byte in the range that is asked for adds its six bits. -/
theorem continue?_byte {count length bits n : Nat} {low high : UInt8} {rest : List UInt8}
    (hlow : low.toNat ≤ n + 128) (hhigh : n + 128 ≤ high.toNat) (hn : n < 64) :
    continue? (count + 1) length bits low high (UInt8.ofNat (n + 128) :: rest) =
      continue? count (length + 1) (bits * 64 + n) 0x80 0xBF rest := by
  have hrange : low ≤ UInt8.ofNat (n + 128) ∧ UInt8.ofNat (n + 128) ≤ high := by
    rw [UInt8.le_iff_toNat_le, UInt8.le_iff_toNat_le, toNat_ofNat (by omega)]
    exact ⟨hlow, hhigh⟩
  rw [continue?, if_pos hrange, toNat_ofNat (by omega)]
  exact congrArg (continue? count (length + 1) · 0x80 0xBF rest) (by simp)

/-- A continuation byte that may have any bits. -/
theorem continue?_free {count length bits n : Nat} {rest : List UInt8} (hn : n < 64) :
    continue? (count + 1) length bits 0x80 0xBF (UInt8.ofNat (n + 128) :: rest) =
      continue? count (length + 1) (bits * 64 + n) 0x80 0xBF rest :=
  continue?_byte (Nat.le_add_left _ _) (show _ ≤ 191 by omega) hn

section Code

variable {code : Nat} (rest : List UInt8)

/-- The code of two bytes is put together again. -/
theorem continue?_two (hhigh : code ≤ 2047) :
    continue? 1 1 (code / 64 % 32) 0x80 0xBF (UInt8.ofNat (code % 64 + 128) :: rest) =
      .ok (code, rest) := by
  have hbits : code / 64 % 32 * 64 + code % 64 = code := by omega
  rw [continue?_free (by omega), continue?, hbits]

/-- The least second byte rules out codes that fit into two bytes, the greatest one surrogates. -/
theorem continue?_three (hlow : 2047 < code) (hhigh : code ≤ 65535)
    (hbounds : code < 0xD800 ∨ 0xDFFF < code) :
    continue? 2 1 (code / 4096 % 16) (if code / 4096 % 16 = 0 then 0xA0 else 0x80)
        (if code / 4096 % 16 = 13 then 0x9F else 0xBF)
        (UInt8.ofNat (code / 64 % 64 + 128) :: UInt8.ofNat (code % 64 + 128) :: rest) =
      .ok (code, rest) := by
  have hbits : (code / 4096 % 16 * 64 + code / 64 % 64) * 64 + code % 64 = code := by omega
  -- a lead of zero bits would be too long a form, and one of 13 would be half of a pair
  have hleast : (if code / 4096 % 16 = 0 then 0xA0 else 0x80 : UInt8).toNat ≤
      code / 64 % 64 + 128 := by
    split
    · show 160 ≤ _
      omega
    · exact Nat.le_add_left _ _
  have hgreatest : code / 64 % 64 + 128 ≤
      (if code / 4096 % 16 = 13 then 0x9F else 0xBF : UInt8).toNat := by
    split
    · show _ ≤ 159
      omega
    · show _ ≤ 191
      omega
  rw [continue?_byte hleast hgreatest (by omega), continue?_free (by omega), continue?, hbits]

/-- The least second byte rules out codes that fit into three bytes, the greatest one what is no
code. -/
theorem continue?_four (hlow : 65535 < code) (hhigh : code < 0x110000) :
    continue? 3 1 (code / 262144 % 8) (if code / 262144 % 8 = 0 then 0x90 else 0x80)
        (if code / 262144 % 8 = 4 then 0x8F else 0xBF)
        (UInt8.ofNat (code / 4096 % 64 + 128) :: UInt8.ofNat (code / 64 % 64 + 128) ::
          UInt8.ofNat (code % 64 + 128) :: rest) =
      .ok (code, rest) := by
  have hbits : ((code / 262144 % 8 * 64 + code / 4096 % 64) * 64 + code / 64 % 64) * 64 +
      code % 64 = code := by omega
  -- a lead of zero bits would be too long a form, and one of 4 could be past the last character
  have hleast : (if code / 262144 % 8 = 0 then 0x90 else 0x80 : UInt8).toNat ≤
      code / 4096 % 64 + 128 := by
    split
    · show 144 ≤ _
      omega
    · exact Nat.le_add_left _ _
  have hgreatest : code / 4096 % 64 + 128 ≤
      (if code / 262144 % 8 = 4 then 0x8F else 0xBF : UInt8).toNat := by
    split
    · show _ ≤ 143
      omega
    · show _ ≤ 191
      omega
  rw [continue?_byte hleast hgreatest (by omega), continue?_free (by omega),
    continue?_free (by omega), continue?, hbits]

end Code

/-- A lead byte and what continues it give one character. -/
theorem decodeFrom_cons (position : Nat) {value : Nat} {byte : UInt8} {tail rest : List UInt8} {lead : Lead}
    (hlead : lead? byte = some lead)
    (hcontinue : continue? lead.count 1 lead.bits lead.low lead.high tail = .ok (value, rest)) :
    ∃ next, decodeFrom position (byte :: tail) =
      (decodeFrom next rest).map (Char.ofNat value :: ·) := by
  refine ⟨position + (1 + tail.length - rest.length), ?_⟩
  rw [decodeFrom]
  simp only [hlead]
  split
  · rename_i herror
    exact absurd (hcontinue.symm.trans herror) (by simp)
  · rename_i hok
    cases hcontinue.symm.trans hok
    rfl

/-- The code of a character lies below the surrogates or above them. -/
theorem toNat_bounds (c : Char) : c.toNat < 0xD800 ∨ 0xDFFF < c.toNat ∧ c.toNat < 0x110000 :=
  c.valid

/-- The bytes of a character are read as that character. -/
theorem decodeFrom_encodeChar (position : Nat) (c : Char) (rest : List UInt8) :
    ∃ next, decodeFrom position (String.utf8EncodeChar c ++ rest) =
      (decodeFrom next rest).map (c :: ·) := by
  have hread : ∀ {byte : UInt8} {tail : List UInt8} {lead : Lead}, lead? byte = some lead →
      continue? lead.count 1 lead.bits lead.low lead.high tail = .ok (c.toNat, rest) →
      ∃ next, decodeFrom position (byte :: tail) = (decodeFrom next rest).map (c :: ·) := by
    intro byte tail lead hlead hcontinue
    have hdecode := decodeFrom_cons position hlead hcontinue
    rwa [Char.ofNat_toNat] at hdecode
  have hbounds := toNat_bounds c
  rw [String.utf8EncodeChar]
  change ∃ next, decodeFrom position ((if c.toNat ≤ 127 then [UInt8.ofNat c.toNat] else
    if c.toNat ≤ 2047 then [UInt8.ofNat (c.toNat / 64 % 32 + 192), UInt8.ofNat (c.toNat % 64 + 128)]
    else if c.toNat ≤ 65535 then [UInt8.ofNat (c.toNat / 4096 % 16 + 224),
      UInt8.ofNat (c.toNat / 64 % 64 + 128), UInt8.ofNat (c.toNat % 64 + 128)]
    else [UInt8.ofNat (c.toNat / 262144 % 8 + 240), UInt8.ofNat (c.toNat / 4096 % 64 + 128),
      UInt8.ofNat (c.toNat / 64 % 64 + 128), UInt8.ofNat (c.toNat % 64 + 128)]) ++ rest) = _
  generalize c.toNat = code at hbounds hread ⊢
  -- by the number of bytes
  split_ifs with hone htwo hthree
  · refine hread (lead?_one (by omega)) ?_
    rw [continue?]
    rfl
  · exact hread (lead?_two (by omega) (by omega)) (continue?_two rest htwo)
  · exact hread (lead?_three (by omega)) (continue?_three rest (by omega) hthree (by omega))
  · exact hread (lead?_four (by omega)) (continue?_four rest (by omega) (by omega))

/-! ## Texts -/

theorem encode_append (front back : Text) : encode (front ++ back) = encode front ++ encode back :=
  List.flatMap_append

/-- From wherever it starts, decoding what was encoded gives the text. -/
theorem decodeFrom_encode (position : Nat) (text : Text) :
    decodeFrom position (encode text) = .ok text := by
  induction text generalizing position with
  | nil =>
      show decodeFrom position [] = .ok []
      rw [decodeFrom]
  | cons c rest ih =>
      obtain ⟨next, hnext⟩ := decodeFrom_encodeChar position c (encode rest)
      show decodeFrom position (String.utf8EncodeChar c ++ encode rest) = _
      rw [hnext, ih]
      rfl

/-- The bytes of a text decode to the text. -/
theorem decode_encode (text : Text) : decode (encode text) = .ok text := decodeFrom_encode 0 text

/-- A boundary is where some initial part of the text ends. -/
theorem exists_of_mem_boundaries {text : Text} {place : Nat} (h : place ∈ text.boundaries) :
    ∃ front, front <+: text ∧ place = (encode front).length := by
  induction text generalizing place with
  | nil => exact ⟨[], List.nil_prefix, List.mem_singleton.mp h⟩
  | cons c rest ih =>
      rcases List.mem_cons.mp h with rfl | hbehind
      · exact ⟨[], List.nil_prefix, rfl⟩
      · obtain ⟨inner, hinner, rfl⟩ := List.mem_map.mp hbehind
        obtain ⟨front, hfront, rfl⟩ := ih hinner
        refine ⟨c :: front, List.cons_prefix_cons.mpr ⟨rfl, hfront⟩, ?_⟩
        simp [encode]

/-- Bytes from one boundary of a text to another decode. -/
theorem exists_decode_slice {text : Text} {start stop : Nat} (hstart : start ∈ text.boundaries)
    (hstop : stop ∈ text.boundaries) :
    ∃ part, decode (((encode text).take stop).drop start) = .ok part := by
  obtain ⟨front, hfront, rfl⟩ := exists_of_mem_boundaries hstart
  obtain ⟨whole, ⟨back, rfl⟩, rfl⟩ := exists_of_mem_boundaries hstop
  rw [encode_append, List.take_left]
  -- one of the two initial parts goes on where the other ends
  rcases List.prefix_or_prefix_of_prefix hfront (List.prefix_append whole back) with
    ⟨part, rfl⟩ | ⟨part, rfl⟩
  · rw [encode_append, List.drop_left]
    exact ⟨part, decode_encode part⟩
  · rw [encode_append, List.length_append, List.drop_eq_nil_of_le (Nat.le_add_right _ _)]
    exact ⟨[], decode_encode []⟩

end Utf8

end ClassDiagram
