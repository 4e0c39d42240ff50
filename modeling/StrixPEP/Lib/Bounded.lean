import Mathlib.Data.List.Basic

/-!
# Bounded quantifiers over characters and bytes

A statement about every member of a list is decided along the list, also where the type has a way
to decide statements about all its values.
-/

namespace Bounded

section Char

variable {p : Char → Prop} [DecidablePred p]

instance (priority := high) decidableForallChar (l : List Char) : Decidable (∀ c ∈ l, p c) :=
  List.decidableBAll p l

instance (priority := high) decidableExistsChar (l : List Char) : Decidable (∃ c ∈ l, p c) :=
  List.decidableBEx p l

end Char

instance (priority := high) decidableForallByte {p : UInt8 → Prop} [DecidablePred p] (l : List UInt8) :
    Decidable (∀ b ∈ l, p b) := List.decidableBAll p l

end Bounded
