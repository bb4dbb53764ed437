import Flowline.Decimal.Notation
import Flowline.Files.Tree
import Flowline.Sandbox.Settings

/-! Starting a unit: what it sees of the machine, and the arguments of a container. -/
namespace Flowline

/-- A path of the machine that a unit may read. -/
structure Mount where
  name : String
  path : String
deriving DecidableEq

/-- All that is needed to start a unit. -/
structure Launch where
  unit : String
  /-- The work folder, with the files for input and output in it. -/
  workFolder : String
  input : String
  output : String
  mounts : List Mount
  environment : List (String × String)

namespace SandboxMode

def containerFolder : String := "/work"

/-- Where a unit sees its work folder. -/
def workFolder (mode : SandboxMode) (path : String) : String :=
  match mode with
  | process => path
  | docker => containerFolder

/-- Where a unit sees a mount. -/
def mountPath (mode : SandboxMode) (m : Mount) : String :=
  match mode with
  | process => m.path
  | docker => Path.join "/mnt" m.name

end SandboxMode

/-- The arguments that start a unit as a locked container. -/
def Launch.containerArguments (l : Launch) (s : SandboxSettings) : List String :=
  let folder := SandboxMode.containerFolder
  ["run", "--rm", "--name", l.unit, "--network", s.network, "--read-only",
    "--tmpfs", s!"/tmp:rw,noexec,nosuid,size={s.scratch}m", "--user", s.user,
    "--memory", s!"{s.memory}m", "--memory-swap", s!"{s.memory}m",
    "--cpus", Decimal.Notation.message.render s.cpuCores,
    "--pids-limit", toString s.maxProcesses, "--cap-drop", "ALL",
    "--security-opt", "no-new-privileges", "-v", s!"{l.workFolder}:{folder}:rw", "-w", folder]
  ++ l.mounts.flatMap (fun m =>
    let inside := SandboxMode.docker.mountPath m
    ["-v", s!"{m.path}:{inside}:ro"])
  ++ l.environment.flatMap (fun (key, value) => ["-e", s!"{key}={value}"])
  ++ s.image :: s.guestCommand ++ [s!"{folder}/{l.input}", s!"{folder}/{l.output}"]

end Flowline
