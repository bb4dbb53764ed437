import Flowline.Data.Record

/-! How sandbox units are started and what a container may use. -/
namespace Flowline

inductive SandboxMode where
  | process
  | docker
deriving DecidableEq, Inhabited

namespace SandboxMode

def name : SandboxMode → String
  | process => "process"
  | docker => "docker"

def all : List SandboxMode := [process, docker]

/-- A mode is named by a text, or by the one key of a table with nothing in it. -/
def decode : Decoder SandboxMode
  | .str s | .map [(s, .map [])] | .map [(s, .list [])] => all.find? (·.name == s)
  | _ => none

end SandboxMode

structure SandboxSettings where
  mode : SandboxMode := .process
  image : String := "xpipeline-sandbox:latest"
  /-- Megabytes. -/
  memory : Nat := 512
  cpuCores : Float := 1.0
  /-- Seconds that a unit may take. -/
  timeout : Nat := 60
  /-- Megabytes of the writable scratch folder. -/
  scratch : Nat := 64
  user : String := "1000:1000"
  network : String := "none"
  maxProcesses : Nat := 64
  /-- The folder of the work folders, if it is not the usual one. -/
  workRoot : Option String := none
  /-- The program inside a unit, and its first arguments. -/
  guestCommand : List String := ["xpipeline-guest"]
  dockerBinary : String := "docker"
deriving Inhabited

namespace SandboxSettings

def toValue (s : SandboxSettings) : Value :=
  .map [("mode", .str s.mode.name), ("image", .str s.image), ("memory_mb", .ofNat s.memory),
    ("cpu_cores", .ofFloat s.cpuCores), ("timeout_secs", .ofNat s.timeout),
    ("scratch_mb", .ofNat s.scratch), ("user", .str s.user), ("network", .str s.network),
    ("pids_limit", .ofNat s.maxProcesses), ("work_root", .ofStr? s.workRoot),
    ("guest_command", .strs s.guestCommand), ("docker_binary", .str s.dockerBinary)]

def decode : Decoder SandboxSettings := fun v => do
  match ← slots [["mode"], ["image"], ["memory_mb"], ["cpu_cores"], ["timeout_secs"],
      ["scratch_mb"], ["user"], ["network"], ["pids_limit"], ["work_root"], ["guest_command"],
      ["docker_binary"]] v with
  | [mode, image, memory, cores, timeout, scratch, user, network, processes, root, command,
      binary] =>
    let base : SandboxSettings := {}
    return {
      mode := ← mode.withDefault base.mode SandboxMode.decode
      image := ← image.withDefault base.image Decode.text
      memory := ← memory.withDefault base.memory Decode.word64
      cpuCores := ← cores.withDefault base.cpuCores Value.asFloat?
      timeout := ← timeout.withDefault base.timeout Decode.word64
      scratch := ← scratch.withDefault base.scratch Decode.word64
      user := ← user.withDefault base.user Decode.text
      network := ← network.withDefault base.network Decode.text
      maxProcesses := ← processes.withDefault base.maxProcesses Decode.word32
      workRoot := ← root.optionalDefault Decode.text
      guestCommand := ← command.withDefault base.guestCommand (Decode.list Decode.text)
      dockerBinary := ← binary.withDefault base.dockerBinary Decode.text }
  | _ => none

end SandboxSettings
end Flowline
