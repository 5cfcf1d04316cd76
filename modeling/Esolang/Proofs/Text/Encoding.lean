/-
  Esolang.Proofs.Text.Encoding
  ────────────────────────────
  **TEXTS AS BYTES.**

  The bytes of a text are those of its characters, one behind the other, and a character
  of ASCII is one byte.

    • `toList_toUTF8` — the bytes of a text,
    • `toList_toUTF8_of_ascii` — those of a text in ASCII are the codes of its characters.
-/
import Mathlib.Data.List.Basic

namespace Esolang.Text

/-! ## §1. Bytes in a list. -/

/-- The loop that lists an array of bytes goes on from the byte at `i`. -/
theorem toList_loop (bytes : ByteArray) (i : Nat) (listed : List UInt8) :
    ByteArray.toList.loop bytes i listed = listed.reverse ++ bytes.data.toList.drop i := by
  induction i, listed using ByteArray.toList.loop.induct bytes with
  | case1 i listed inside ih =>
    have below : i < bytes.data.toList.length := by simpa using inside
    have here : bytes.get! i = bytes.data.toList[i] := by
      show bytes.data[i]! = bytes.data.toList[i]
      rw [Array.getElem_toList]
      exact getElem!_pos bytes.data i (by simpa using inside)
    rw [ByteArray.toList.loop, if_pos inside, ih, List.drop_eq_getElem_cons below, here]
    simp
  | case2 i listed outside =>
    have behind : bytes.data.toList.length ≤ i := by simpa using outside
    rw [ByteArray.toList.loop, if_neg outside, List.drop_eq_nil_of_le behind, List.append_nil]

theorem toList_eq_data (bytes : ByteArray) : bytes.toList = bytes.data.toList := by
  show ByteArray.toList.loop bytes 0 [] = bytes.data.toList
  rw [toList_loop]
  rfl

/-! ## §2. Bytes of a text. -/

/-- **The bytes of a text are those of its characters.** -/
theorem toList_toUTF8 (text : String) :
    text.toUTF8.toList = text.toList.flatMap String.utf8EncodeChar := by
  have encoded : text.toUTF8 = text.toList.utf8Encode := by
    show text.toByteArray = _
    rw [← String.toByteArray_ofList, String.ofList_toList]
  rw [encoded, toList_eq_data]
  show (text.toList.flatMap String.utf8EncodeChar).toByteArray.data.toList = _
  rw [List.data_toByteArray]

/-- A character of ASCII is the byte of its code. -/
theorem utf8EncodeChar_of_ascii {c : Char} (ascii : c.toNat < 128) :
    String.utf8EncodeChar c = [c.toUInt8] := by
  have one : c.utf8Size = 1 := by
    rw [Char.utf8Size_eq_one_iff, UInt32.le_iff_toNat_le]
    show c.toNat ≤ 127
    omega
  exact String.utf8EncodeChar_eq_singleton one

/-- **A text in ASCII has a byte for each character**, and it is the character's code. -/
theorem toList_toUTF8_of_ascii {text : String} (ascii : ∀ c ∈ text.toList, c.toNat < 128) :
    text.toUTF8.toList = text.toList.map Char.toUInt8 := by
  rw [toList_toUTF8, List.map_eq_flatMap]
  apply List.flatMap_congr
  intro c mem
  exact utf8EncodeChar_of_ascii (ascii c mem)

end Esolang.Text
