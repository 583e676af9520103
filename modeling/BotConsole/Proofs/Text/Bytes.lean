import Mathlib.Data.List.Lex
import Mathlib.Data.String.Basic
import Mathlib.Order.Compare

namespace BotConsole.Text

def bytes (s : String) : List Nat :=
  s.toByteArray.data.toList.map UInt8.toNat

def charBytes (c : Char) : List Nat :=
  (String.utf8EncodeChar c).map UInt8.toNat

theorem bytes_ofList (s : List Char) : bytes (String.ofList s) = s.flatMap charBytes := by
  rw [bytes, String.toByteArray_ofList, List.utf8Encode, List.toList_data_toByteArray,
    List.map_flatMap]
  rfl

theorem charBytes_ne_nil (c : Char) : charBytes c ≠ [] := by
  simp only [charBytes, String.utf8EncodeChar]
  split_ifs <;> simp

theorem toNat_lt (c : Char) : c.val.toNat < 0x110000 := by
  have h := c.valid
  simp only [UInt32.isValidChar, Nat.isValidChar] at h
  omega

-- The greater number has the greater bytes, whatever follows: it has more of them and starts with a
-- greater one, or as many.
theorem charBytes_append_lt {c d : Char} (h : c < d) (s t : List Nat) :
    charBytes c ++ s < charBytes d ++ t := by
  have hlt : c.val.toNat < d.val.toNat := h
  have hmax := toNat_lt d
  simp only [charBytes, String.utf8EncodeChar]
  generalize c.val.toNat = m at hlt
  generalize d.val.toNat = n at hlt hmax
  split_ifs <;>
    simp (disch := omega) only [List.map_cons, List.map_nil, List.cons_append, List.nil_append,
      UInt8.toNat_ofNat', List.cons_lt_cons_iff, Nat.reducePow, Nat.mod_eq_of_lt] <;>
    omega

theorem flatMap_charBytes_lt {s t : List Char} (h : s < t) :
    s.flatMap charBytes < t.flatMap charBytes := by
  induction s generalizing t with
  | nil =>
    cases t with
    | nil => exact absurd h (List.lt_irrefl [])
    | cons d t =>
      rw [List.flatMap_nil, List.flatMap_cons]
      cases hd : charBytes d with
      | nil => exact absurd hd (charBytes_ne_nil d)
      | cons b bs => exact List.nil_lt_cons b _
  | cons c s ih =>
    cases t with
    | nil => exact absurd h (List.not_lt_nil _)
    | cons d t =>
      rw [List.flatMap_cons, List.flatMap_cons]
      rcases List.cons_lt_cons_iff.mp h with hcd | ⟨rfl, hst⟩
      · exact charBytes_append_lt hcd _ _
      · exact List.append_left_lt (ih hst)

theorem bytes_strictMono : StrictMono bytes := by
  intro s t h
  rw [← String.ofList_toList (s := s), ← String.ofList_toList (s := t), bytes_ofList, bytes_ofList]
  exact flatMap_charBytes_lt (String.lt_iff.mp h)

end BotConsole.Text
