import Mathlib.Data.List.Basic

/-!
UTF-8 as lists: encoding, decoding, and where the byte of a line feed can stand.
-/

namespace Utf8

/-- `text.encode("utf-8")`. -/
def encode (text : List Char) : List UInt8 := text.flatMap String.utf8EncodeChar

/-- `bytes.decode("utf-8")`, `none` where it raises. -/
def decode (bytes : List UInt8) : Option (List Char) :=
  bytes.toByteArray.utf8Decode?.map Array.toList

@[simp] theorem encode_nil : encode [] = [] := rfl

theorem encode_append (s t : List Char) : encode (s ++ t) = encode s ++ encode t := by
  simp only [encode, List.flatMap_append]

theorem decode_encode (text : List Char) : decode (encode text) = some text := by
  have h : (encode text).toByteArray = text.utf8Encode := rfl
  unfold decode
  rw [h, List.utf8Decode?_utf8Encode]
  rfl

theorem encodeChar_ascii {c : Char} (h : c.toNat < 128) :
    String.utf8EncodeChar c = [UInt8.ofNat c.toNat] := by
  have hle : c.val.toNat ≤ 127 := Nat.le_of_lt_succ h
  unfold String.utf8EncodeChar
  simp only [hle, if_true]
  rfl

variable {text : List Char}

theorem take_encode (h : ∀ c ∈ text, c.toNat < 128) (n : ℕ) :
    (encode text).take n = encode (text.take n) := by
  induction text generalizing n with
  | nil => rw [encode_nil, List.take_nil, List.take_nil, encode_nil]
  | cons c text ih =>
    have hone : encode (c :: text) = UInt8.ofNat c.toNat :: encode text := by
      show String.utf8EncodeChar c ++ encode text = _
      rw [encodeChar_ascii (h c List.mem_cons_self)]
      rfl
    cases n with
    | zero => rfl
    | succ n =>
      rw [hone, List.take_succ_cons, ih fun d hd => h d (List.mem_cons_of_mem _ hd),
        List.take_succ_cons]
      show _ = String.utf8EncodeChar c ++ encode (text.take n)
      rw [encodeChar_ascii (h c List.mem_cons_self)]
      rfl

theorem encodeChar_high {c : Char} (h : 128 ≤ c.toNat) {b : UInt8}
    (hb : b ∈ String.utf8EncodeChar c) : 128 ≤ b.toNat := by
  have hv : ¬ c.val.toNat ≤ 127 := Nat.not_le.2 h
  have hbyte : ∀ k, 128 ≤ k → k < 256 → 128 ≤ (UInt8.ofNat k).toNat := by
    intro k hk hlt
    rw [UInt8.toNat_ofNat', Nat.mod_eq_of_lt hlt]
    exact hk
  unfold String.utf8EncodeChar at hb
  simp only [hv, if_false] at hb
  split_ifs at hb <;> simp only [List.mem_cons, List.not_mem_nil, or_false] at hb
  · rcases hb with rfl | rfl <;> apply hbyte <;> omega
  · rcases hb with rfl | rfl | rfl <;> apply hbyte <;> omega
  · rcases hb with rfl | rfl | rfl | rfl <;> apply hbyte <;> omega

theorem newline_mem_encode (h : (10 : UInt8) ∈ encode text) : '\n' ∈ text := by
  obtain ⟨c, hc, hb⟩ := List.mem_flatMap.1 h
  by_cases hascii : c.toNat < 128
  · rw [encodeChar_ascii hascii, List.mem_singleton] at hb
    have hn : c.toNat = 10 := by
      have := congrArg UInt8.toNat hb
      simp at this
      omega
    have : c = '\n' := Char.ext (UInt32.toNat_inj.1 hn)
    exact this ▸ hc
  · have := encodeChar_high (Nat.le_of_not_lt hascii) hb
    exact absurd this (by decide)

end Utf8
