import Redstone.Circuit.Drawing
import Redstone.Pipeline.Passes
import Redstone.Pipeline.Run
import Redstone.World.Reader

/-!
# Compiling worlds

A compilation runs all passes on a scene, draws the circuit if asked, and logs
its size.  The scene is given, or it is a whole world that is read from a text or
from a file.
-/

namespace Redstone

/-- Why a compilation fails. -/
inductive CompileError where
  | unreadable (e : FileError)
  | badWorld (source : String) (e : World.ReadError)
  | emptyWorld (file : Option String)
  | stopped (e : RunError)
deriving DecidableEq, Repr

/-- The wording of a compilation error. -/
def CompileError.message : CompileError → Bytes
  | unreadable e => Bytes.ofString e.message
  | badWorld source e => e.message source
  | emptyWorld none => Bytes.ofString "empty world"
  | emptyWorld (some file) => Bytes.ofString (file ++ ": empty world")
  | stopped e => Bytes.ofString e.message

/-- The outcome of a compilation.  There is no run when there is no scene to run
on. -/
structure Compilation where
  workspace : Workspace
  run : Option Run := none
  world : Option World := none
  drawing : String := ""
  report : String := ""
  error : Option CompileError := none

namespace Compilation

/-- The circuit that a compilation has built, finished or not. -/
def circuit? (c : Compilation) : Option Circuit :=
  c.run.map fun r => r.workspace.circuit

/-- The timing samples of a compilation. -/
def samples (c : Compilation) : List Sample :=
  (c.run.map Run.samples).getD []

/-- A compilation that has no scene to run on. -/
def refused (w : Workspace) (e : CompileError) : Compilation :=
  { workspace := w, error := some e }

end Compilation

namespace Compile

/-- The outcome of a run. -/
def outcome (settings : Settings) (r : Run) (failure : Option RunError) : Compilation :=
  match failure with
  | some e =>
      { workspace := r.workspace, run := some r, error := some (.stopped e) }
  | none =>
      { workspace :=
          { r.workspace with
            log := r.workspace.log.add .info "compiled"
              [("graph", r.workspace.circuit.summary)] }
        run := some r
        drawing := r.workspace.circuit.drawing
        report := r.report settings none }

/-- Compiles a scene. -/
def sceneIn {m : Type → Type} [Monad m] (env : Surroundings m) (settings : Settings)
    (scene : Scene) (w : Workspace) : m Compilation := do
  let w := w.debug "compiling" [("bounds", scene.region.text)]
  let (r, failure) ← Run.allIn env settings (some scene) Pass.all w
  return outcome settings r failure

/-- Compiles a whole world. -/
def worldIn {m : Type → Type} [Monad m] (env : Surroundings m) (settings : Settings)
    (name : Option String) (world : World) (w : Workspace) : m Compilation :=
  match world.extent with
  | none => return .refused w (.emptyWorld name)
  | some region => sceneIn env settings { world, region } w

/-- Compiles the world that a text describes.  The text may be any byte string. -/
def textIn {m : Type → Type} [Monad m] (env : Surroundings m) (settings : Settings)
    (data : Bytes) (w : Workspace) : m Compilation :=
  match World.read data with
  | .error e => return .refused w (.badWorld (Text.inBraces "data") e)
  | .ok v => worldIn env settings none v w

/-- Compiles the world in a file.  The outcome has the world, too. -/
def fileIn {m : Type → Type} [Monad m] (env : Surroundings m) (settings : Settings)
    (name : String) (w : Workspace) : m Compilation :=
  match w.files.read name with
  | .error e => return .refused w (.unreadable e)
  | .ok data =>
      match World.read data with
      | .error e => return .refused w (.badWorld name e)
      | .ok v => do
          let c ← worldIn env settings (some name) v w
          return { c with world := if c.run.isSome then some v else none }

/-! When nobody asks to stop, only the clock is left of the surroundings. -/

@[inherit_doc sceneIn]
def scene {m : Type → Type} [Monad m] (now : m Instant) (settings : Settings)
    (scene : Scene) (w : Workspace) : m Compilation :=
  sceneIn (.quiet now) settings scene w

@[inherit_doc textIn]
def text {m : Type → Type} [Monad m] (now : m Instant) (settings : Settings)
    (data : String) (w : Workspace) : m Compilation :=
  textIn (.quiet now) settings (Bytes.ofString data) w

@[inherit_doc fileIn]
def file {m : Type → Type} [Monad m] (now : m Instant) (settings : Settings)
    (name : String) (w : Workspace) : m Compilation :=
  fileIn (.quiet now) settings name w

end Compile

end Redstone
