import ReuleauxCoder.Library.Utf8

/-!
# Byte literals

A literal of `Fin 256` rests on `256` not being zero, and a search for a byte on the test for
equality being lawful.  Each fact has one name here, which the modules that open this namespace
share.
-/

namespace ByteLiterals

scoped instance neZero_bytes : NeZero 256 :=
  ⟨by decide⟩

scoped instance lawfulBEq_bytes : LawfulBEq (Fin 256) :=
  inferInstance

end ByteLiterals
