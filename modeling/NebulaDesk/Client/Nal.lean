/-
Walking AVCC bitstreams (`nebula-client/src/nal.rs`).
-/
import NebulaDesk.Agent.Bitstream

namespace NebulaDesk

namespace Nal

open Bitstream (fromBeBytes)

/-- Iterate the NAL units in an AVCC frame, of which this is what is left.  The first length that
is cut off, too long or zero ends the iteration. -/
def units (frame : List UInt8) : List (List UInt8) :=
  match frame with
  | a :: b :: c :: d :: rest =>
    let length := fromBeBytes [a, b, c, d]
    if rest.length < length then []
    else if length = 0 then []
    else rest.take length :: units (rest.drop length)
  | _ => []
termination_by frame.length
decreasing_by simp only [List.length_drop, List.length_cons]; omega

end Nal

end NebulaDesk
