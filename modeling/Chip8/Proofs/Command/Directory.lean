import Chip8.Command.Files
import Chip8.Proofs.Command.Checks

/-!
# Writing a file

There is one level of files, so whether a path leads to a name does not depend on what the directory
holds. A file that was written is found where it was written.
-/

namespace Chip8.Directory

variable {d : Directory} {text name : String} {level level' : Level} {parts : List String}

theorem run_unlessFault {ε α : Type} {result : StateM Directory (Except Fault α)}
    {found : Except Fault α} {after : Directory} (h : result.run d = (found, after))
    (failure : Fault → ε) :
    (unlessFault failure result).run.run d = (found.mapError failure, after) := by
  rw [unlessFault, ExceptT.run_mk, StateT.run_bind, h]
  rfl

variable {fault : Fault}

end Chip8.Directory
