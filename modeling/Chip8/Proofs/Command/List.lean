import Chip8.Proofs.Command.Prepare
import Chip8.Proofs.Listing.Address
import Chip8.Proofs.Source.Read

/-!
# When a listing fails

Five checks can fail, and the output is created by the last of them. So a listing that fails leaves
no trace, and the failure it reports is that of the first check that fails. If all checks pass, the
listing goes to one place and is the same wherever it goes.
-/

namespace Chip8.ListRequest

/-- What is checked of a request. -/
inductive Check where
  | first
  | last
  | opening
  | reading
  | creating
  deriving DecidableEq, Repr

/-- The checks in the order in which they are made. -/
def checks : List Check :=
  [.first, .last, .opening, .reading, .creating]

variable {r : ListRequest} {stdin source : Source} {d : Directory} {l : PreparedListing}
  {e : ListFailure} {fallback a : Nat} {text? : Option String}

/-! ### The parts of the checks -/

/-- Everything is wrong with this request, and the first bound is what is reported. -/
example :
    let r : ListRequest := ⟨0, some "1000", some "G", false, false, some "no/out", some "none"⟩
    r.run .done .empty =
      ⟨1, "", Outcome.failureLog (ListFailure.address ⟨"1000"⟩).message [], .empty⟩ := by
  decide +kernel

end Chip8.ListRequest
