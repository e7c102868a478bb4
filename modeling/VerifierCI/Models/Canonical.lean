import VerifierCI.Models.Result
import VerifierCI.Python.JsonText

/-! # Canonical bytes

The UTF-8 bytes of a compact JSON text with sorted keys: what identities are
hashed from.
-/

namespace VerifierCI

open Python

/-- `canonical_bytes(value)`. -/
def canonicalBytes (value : Json) : List UInt8 :=
  (String.ofList value.dumps).toByteArray.data.toList

theorem canonicalBytes_eq (value : Json) :
    canonicalBytes value = value.dumps.flatMap String.utf8EncodeChar := by
  rw [canonicalBytes, String.toByteArray_ofList, List.utf8Encode, List.data_toByteArray]

/-- Equal bytes spell equal values, up to the order of keys. -/
theorem sortKeys_eq_of_canonicalBytes_eq {value other : Json} (hvalue : value.Dumpable)
    (hother : other.Dumpable) (h : canonicalBytes value = canonicalBytes other) :
    value.sortKeys = other.sortKeys := by
  apply Json.sortKeys_eq_of_dumps_eq hvalue hother
  have hbytes : (String.ofList value.dumps).toByteArray = (String.ofList other.dumps).toByteArray :=
    ByteArray.ext (Array.toList_inj.mp h)
  exact String.ofList_injective (String.toByteArray_inj.mp hbytes)

/-- Objects that list the same distinct keys have equal bytes only if their values are
equal. -/
theorem values_eq_of_canonicalBytes_eq {members others : List (String × Json)}
    (hkeys : members.map Prod.fst = others.map Prod.fst) (hnodup : (members.map Prod.fst).Nodup)
    (hmembers : (Json.obj members).Dumpable) (hothers : (Json.obj others).Dumpable)
    (h : canonicalBytes (.obj members) = canonicalBytes (.obj others)) :
    members.map (fun member => member.2.sortKeys) = others.map fun member => member.2.sortKeys := by
  have hsorted := sortKeys_eq_of_canonicalBytes_eq hmembers hothers h
  exact Json.values_eq_of_sortKeys_eq hkeys hnodup hsorted

/-- No two of the inputs have the same digest. -/
def CollisionFree (sha256 : List UInt8 → Digest) (inputs : List (List UInt8)) : Prop :=
  ∀ a ∈ inputs, ∀ b ∈ inputs, (sha256 a).text = (sha256 b).text → a = b

theorem collisionFree_pair {sha256 : List UInt8 → Digest} {a b : List UInt8}
    (h : (sha256 a).text = (sha256 b).text → a = b) : CollisionFree sha256 [a, b] := by
  intro c hc d hd heq
  rcases List.mem_pair.mp hc with hca | hcb <;> rcases List.mem_pair.mp hd with hda | hdb
  · exact hca.trans hda.symm
  · rw [hca, hdb] at heq ⊢
    exact h heq
  · rw [hcb, hda] at heq ⊢
    exact (h heq.symm).symm
  · exact hcb.trans hdb.symm

end VerifierCI
