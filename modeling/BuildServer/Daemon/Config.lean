-- SUMMARY: The server's own configuration, read from its main settings file.
import BuildServer.Registry

/-!
# Configuration

The main settings file names the control channel and the directory of all
builds, and may name the other files and the limits of the job queue. Limits
must be positive.
-/

namespace BuildServer

structure DaemonConfig where
  fifo : String
  buildRoot : String
  registryFile : String
  bindingsFile : String
  maxJobs : Nat
  queueDepth : Nat
  deriving DecidableEq, Repr

namespace DaemonConfig

def fileRole : FileRole := ⟨"config file"⟩

def fifoKey : String := "fifo.name"

def buildRootKey : String := "fs.build_dir"

def bindingsFileKey : String := "macros.file"

def defaultBindingsFile : String := "etc/build-bot/macros.conf"

def maxJobsKey : String := "workers.max_jobs"

def defaultMaxJobs : Nat := 4

def queueDepthKey : String := "workers.queue_depth"

def defaultQueueDepth : Nat := 64

/-- Refuse a limit of zero. -/
def checkPositive (key : String) (n : Nat) : Except SettingsError Unit :=
  if n = 0 then .error (.invalidValue key "0" .belowOne) else .ok ()

def ofSettings (s : Settings) : Except SettingsError DaemonConfig := do
  let fifo ← s.required .path fifoKey
  let buildRoot ← s.required .path buildRootKey
  let registryFile ← Registry.fileOf s
  let bindingsFile ← s.getOr .path bindingsFileKey defaultBindingsFile
  let maxJobs ← s.getOr .count maxJobsKey defaultMaxJobs
  let queueDepth ← s.getOr .count queueDepthKey defaultQueueDepth
  checkPositive maxJobsKey maxJobs
  checkPositive queueDepthKey queueDepth
  return { fifo, buildRoot, registryFile, bindingsFile, maxJobs, queueDepth }

end DaemonConfig

end BuildServer
