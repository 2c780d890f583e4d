import ProofHost.Proofs.Package.Containment

/-!
What is reported while a package arrives. However the bytes are cut into reads, each read is
reported with the bytes that have arrived so far, so that the counts grow up to the size of the
package. Only a package without bytes has no read, and its end is reported in place of one.
-/

set_option autoImplicit false

namespace ProofHost.Package

variable {h : Host} {uri : String} {bytes arrived : Bytes} {chunks : List Bytes}
  {n size start : Nat}

/-- The bytes come in these reads: none is empty before the end, and none is larger than it can
be. -/
structure Arrives (bytes : Bytes) (chunks : List Bytes) : Prop where
  whole : chunks.flatten = bytes
  sized : ∀ chunk ∈ chunks, chunk ≠ [] ∧ chunk.length ≤ readSize

private theorem Arrives.notEmpty (arrives : Arrives bytes chunks) : ∀ chunk ∈ chunks, chunk ≠ [] :=
  fun chunk there => (arrives.sized chunk there).1

def told (size n : Nat) : Progress := ⟨some size.toUInt64, n.toUInt64⟩

end ProofHost.Package
