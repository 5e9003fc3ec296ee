import Chip8.Command.List
import Chip8.Proofs.Command.Checks
import Chip8.Proofs.Command.Directory

/-!
# A listing in a directory

Up to the output, a request only looks at the directory. So what it has found by then is a function
of the directory, and all that is left is to deliver the listing.
-/

namespace Chip8.ListRequest

/-- The source that the program is read from. -/
def opened (r : ListRequest) (stdin : Source) (d : Directory) : Except ListFailure Source :=
  match r.input? with
  | none => .ok stdin
  | some path => (d.openRead path).mapError (.openInput path)

def program (r : ListRequest) (stdin : Source) (d : Directory) :
    Except ListFailure (List UInt8) :=
  (r.opened stdin d).bind fun source ↦ source.readAll.mapError .readInput

/-- Everything that comes before the output. -/
def prepare (r : ListRequest) (stdin : Source) (d : Directory) :
    Except ListFailure PreparedListing :=
  r.selection.bind fun selection ↦ (r.program stdin d).map fun program ↦ ⟨selection, program⟩

variable {r : ListRequest} {stdin : Source} {d : Directory} {l : PreparedListing}
  {e : ListFailure} {path name : String} {fault : Fault}

theorem run_source (r : ListRequest) (stdin : Source) (d : Directory) :
    (r.source .inDirectory (pure stdin)).run.run d = (r.opened stdin d, d) := by
  rw [source, opened]
  cases r.input? with
  | none => rfl
  | some path => rfl

theorem run_attempt (r : ListRequest) (stdin : Source) (d : Directory) :
    (r.attempt .inDirectory (pure stdin)).run.run d =
      ((r.prepare stdin d : ExceptT ListFailure (StateM Directory) PreparedListing) >>=
        r.deliver .inDirectory).run.run d := by
  rw [attempt, prepare, program]
  cases r.selection with
  | error e => rfl
  | ok selection =>
      have hsource := r.run_source stdin d
      rw [run_bind_of_ok (run_lift (.ok selection) d)]
      cases hopened : r.opened stdin d with
      | error e =>
          rw [hopened] at hsource
          rw [run_bind_of_error hsource]
          rfl
      | ok source =>
          rw [hopened] at hsource
          rw [run_bind_of_ok hsource, Except.bind, Except.bind]
          cases source.readAll <;> rfl

theorem run_of_report (report : Report) {after : Directory}
    (h : (r.attempt .inDirectory (pure stdin)).run.run d = (.ok report, after)) :
    r.run stdin d = report.outcome after := by
  have hperform : (r.perform .inDirectory (pure stdin)).run d = (report, after) := by
    rw [perform, StateT.run_bind, h]
    rfl
  rw [run, hperform]

theorem run_attempt_of_prepare (h : r.prepare stdin d = .ok l) :
    (r.attempt .inDirectory (pure stdin)).run.run d = (r.deliver .inDirectory l).run.run d := by
  rw [run_attempt, h]
  exact run_bind_of_ok (run_lift (.ok l) d)

theorem run_of_no_target (h : r.prepare stdin d = .ok l) (htarget : r.target? = none) :
    r.run stdin d = ⟨0, l.text, [l.summary], d⟩ := by
  refine run_of_report ⟨0, l.text, [l.summary]⟩ ?_
  rw [run_attempt_of_prepare h, deliver, htarget]
  rfl

end Chip8.ListRequest
