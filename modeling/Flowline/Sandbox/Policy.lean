import Flowline.Data.Record

/-! What sandboxed code may do, and how much of the machine it may use. -/
namespace Flowline

/-- What a module gives access to. -/
inductive Capability where
  | fileSystem
  | network
  | process
  | subprocess
deriving DecidableEq, Inhabited

namespace Capability

/-- The name in messages. -/
def phrase : Capability → String
  | fileSystem => "filesystem"
  | network => "network"
  | process => "process"
  | subprocess => "subprocess"

/-- The name in data. -/
def name : Capability → String
  | fileSystem => "file_system"
  | c => c.phrase

def all : List Capability := [fileSystem, network, process, subprocess]

end Capability

/-- Every capability is denied unless enabled. -/
structure Policy where
  fileSystem : Bool := false
  network : Bool := false
  process : Bool := false
  subprocess : Bool := false
  /-- If there are any, only these modules may be loaded. -/
  allowedModules : List String := []
  /-- Megabytes; zero is no limit. -/
  maxMemory : Nat := 512
  /-- Milliseconds; zero is no limit. -/
  maxTime : Nat := 30000
  sampleInterval : Nat := 50
deriving DecidableEq, Inhabited

namespace Policy

def allows (p : Policy) : Capability → Bool
  | .fileSystem => p.fileSystem
  | .network => p.network
  | .process => p.process
  | .subprocess => p.subprocess

/-- The memory limit in bytes, cut at the largest 64-bit word. -/
def maxMemoryBytes (p : Policy) : Nat := min (p.maxMemory * (1024 * 1024)) 0xFFFFFFFFFFFFFFFF

def toValue (p : Policy) : Value :=
  .map [("enableFileSystem", .bool p.fileSystem), ("enableNetwork", .bool p.network),
    ("enableProcess", .bool p.process), ("enableSubprocess", .bool p.subprocess),
    ("allowedModules", .strs p.allowedModules), ("maxMemoryMb", .ofNat p.maxMemory),
    ("maxExecutionMs", .ofNat p.maxTime), ("sampleIntervalMs", .ofNat p.sampleInterval)]

def decode : Decoder Policy := fun v => do
  match ← slots [["enableFileSystem", "enable_file_system"], ["enableNetwork", "enable_network"],
      ["enableProcess", "enable_process"], ["enableSubprocess", "enable_subprocess"],
      ["allowedModules", "allowed_modules"], ["maxMemoryMb", "max_memory_mb"],
      ["maxExecutionMs", "max_execution_ms"], ["sampleIntervalMs", "sample_interval_ms"]] v with
  | [fileSystem, network, process, subprocess, modules, memory, time, interval] =>
    let base : Policy := {}
    return {
      fileSystem := ← fileSystem.withDefault base.fileSystem Decode.bool
      network := ← network.withDefault base.network Decode.bool
      process := ← process.withDefault base.process Decode.bool
      subprocess := ← subprocess.withDefault base.subprocess Decode.bool
      allowedModules := ← modules.withDefault base.allowedModules (Decode.list Decode.text)
      maxMemory := ← memory.withDefault base.maxMemory Decode.word64
      maxTime := ← time.withDefault base.maxTime Decode.word64
      sampleInterval := ← interval.withDefault base.sampleInterval Decode.word64 }
  | _ => none

end Policy
end Flowline
