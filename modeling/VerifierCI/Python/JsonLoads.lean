import VerifierCI.Python.JsonText
import VerifierCI.Python.Text
import VerifierCI.Python.Utf8

/-! # Bytes and scalars

What readers of JSON share: strict decoding of UTF-8, and what is neither an array nor an
object.
-/

namespace Python

/-- `data.decode("utf-8")`: strict decoding takes what encodes back. -/
def decodeUtf8? (data : List UInt8) : Option (List Char) :=
  if (decode data).flatMap String.utf8EncodeChar = data then some (decode data) else none

theorem decodeUtf8?_encode (text : List Char) :
    decodeUtf8? (text.flatMap String.utf8EncodeChar) = some text := by
  rw [decodeUtf8?, decode_encode, if_pos rfl]

theorem length_le_encoded (text : List Char) :
    text.length ≤ (text.flatMap String.utf8EncodeChar).length := by
  induction text with
  | nil => exact le_rfl
  | cons c rest ih =>
      have hpos := c.utf8Size_pos
      simp only [List.flatMap_cons, List.length_append, List.length_cons,
        String.length_utf8EncodeChar]
      omega

theorem decodeUtf8?_length {data : List UInt8} {text : List Char}
    (h : decodeUtf8? data = some text) : text.length ≤ data.length := by
  unfold decodeUtf8? at h
  split at h
  next hencode =>
    obtain rfl := Option.some.inj h
    exact (length_le_encoded _).trans_eq (congrArg List.length hencode)
  next => cases h

namespace Json

theorem of_bind_eq_ok {ε α β : Type} {first : Except ε α} {next : α → Except ε β} {value : β}
    (h : first >>= next = .ok value) : ∃ a, first = .ok a ∧ next a = .ok value := by
  cases first with
  | error exc => cases h
  | ok a => exact ⟨a, rfl, h⟩

/-- Neither an array nor an object. -/
def IsScalar : Json → Prop
  | .arr _ => False
  | .obj _ => False
  | _ => True

theorem readKeyword_isScalar {text rest : List Char} {value : Json}
    (h : readKeyword text = some (value, rest)) : value.IsScalar := by
  obtain ⟨keyword, hmem, hsome⟩ := List.exists_of_findSome?_eq_some h
  split at hsome
  · obtain ⟨rfl, _⟩ := Prod.mk.inj (Option.some.inj hsome)
    simp only [keywords, List.mem_cons, List.not_mem_nil, or_false] at hmem
    rcases hmem with rfl | rfl | rfl | rfl | rfl | rfl <;> exact trivial
  · cases hsome

end Json

end Python
