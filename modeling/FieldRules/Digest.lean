import FieldRules.Condition.Encoding
import FieldRules.Digest.Blake3

/-!
# Digests of condition lists

The digest of the encoding of a list of conditions stands for the list.

**Results.**
* `digest_eq_of_encoding`: lists with one encoding have one digest.
-/

namespace FieldRules

/-- A type of digests of byte strings. -/
class Digest (δ : Type) where
  /-- The digest of a byte string. -/
  ofBytes : List UInt8 → δ
  /-- The text of a digest. -/
  text : δ → String

namespace Blake3

/-- A digest of 32 bytes. -/
structure Hash where
  bytes : List UInt8
deriving DecidableEq, Repr

instance : Digest Hash where
  ofBytes bytes := ⟨digest bytes⟩
  text h := hexadecimal h.bytes

end Blake3

/-- The digest of a list of conditions under a key mode. -/
def Condition.digest (δ : Type) [Digest δ] (mode : KeyMode) (conditions : List Condition) : δ :=
  Digest.ofBytes (Encoding.ofList mode conditions)

/-- Lists with one encoding have one digest. -/
theorem Condition.digest_eq_of_encoding {δ : Type} [Digest δ] {m n : KeyMode}
    {as bs : List Condition} (h : Encoding.ofList m as = Encoding.ofList n bs) :
    Condition.digest δ m as = Condition.digest δ n bs := by
  rw [Condition.digest, Condition.digest, h]

end FieldRules
