import TapeMachine.Folder
import TapeMachine.Machine.Runner
import TapeMachine.Program.Image

/-!
# Saving and restoring programs

The program of a runner can be saved to a file as an image, and a runner can load an image instead
of a program text.
-/

namespace TapeMachine

/-- Why an image file cannot be loaded. -/
inductive LoadFault where
  /-- The file cannot be read. -/
  | file (fault : FileFault)
  /-- The file at this path is no image. -/
  | image (path : Bytes) (fault : ImageFault)
deriving DecidableEq, Repr

/-- The wording of a load fault. -/
def LoadFault.message : LoadFault → Bytes
  | .file fault => fault.message
  | .image path fault => path ++ utf8 ": " ++ fault.message

/-- Why a program cannot be saved. -/
inductive SaveFault where
  /-- There is no program to save. -/
  | noProgram
  /-- The file cannot be written. -/
  | file (fault : FileFault)
deriving DecidableEq, Repr

/-- The wording of a save fault. -/
def SaveFault.message : SaveFault → Bytes
  | .noProgram => RunFault.noProgram.message
  | .file fault => fault.message

namespace Runner

/-- Saves the program to a file. -/
def saveImage (r : Runner) (folder : Folder) (path : Bytes) : Except SaveFault Folder :=
  match r.program with
  | none => .error .noProgram
  | some program =>
    match folder.write path (Image.encodeAs r.listed program) with
    | .error fault => .error (.file fault)
    | .ok folder => .ok folder

/-- Loads the program saved in a file. -/
def loadImage (r : Runner) (folder : Folder) (path : Bytes) : Except LoadFault Unit × Runner :=
  match folder.read path with
  | .error fault => (.error (.file fault), { r with program := none })
  | .ok contents =>
    match Image.decode contents with
    | .error fault => (.error (.image path fault), { r with program := none })
    | .ok program =>
      (.ok (), { r with program := some program, listed := Image.isListed contents })

end Runner

end TapeMachine
