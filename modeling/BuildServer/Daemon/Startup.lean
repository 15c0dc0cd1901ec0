-- SUMMARY: Getting ready to serve: configuration, registry, build root and control channel.
import BuildServer.Daemon.Error

/-!
# Startup

The server reads its configuration and its registry, makes sure of the build
root, and only then opens the control channel, which is the one step that can
change the file system.
-/

namespace BuildServer

/-- What the server needs to run. -/
structure Prepared where
  channel : Control.Channel
  config : DaemonConfig
  registry : Registry

namespace Prepared

/-- The configuration, and the registry with its settings. -/
def readFiles (fs : FileSystem) (path : String) :
    Except DaemonError (DaemonConfig × Settings × Registry) := do
  let settings ← (Settings.load fs DaemonConfig.fileRole path).mapError .settings
  let config ← (DaemonConfig.ofSettings settings).mapError .settings
  let (entries, registry) ← (Registry.load fs config.registryFile).mapError .settings
  return (config, entries, registry)

/-- The canonical path of an existing directory. -/
def canonicalDirectory (fs : FileSystem) (path : String) : Except DaemonError String :=
  match fs.stat path with
  | .error .notFound => .error (.buildRootNotFound path)
  | .error e => .error (.io path e)
  | .ok (_, .directory) => (fs.canonicalize path).mapError (.io path)
  | .ok _ => .error (.notADirectory path)

end Prepared

/-- The result of getting ready, the file system after it, and the reports. -/
structure Startup where
  result : Except DaemonError Prepared
  fs : FileSystem
  events : List Registry.Event

def Startup.of (path : String) (fs : FileSystem) : Startup :=
  match Prepared.readFiles fs path with
  | .error e => ⟨.error e, fs, []⟩
  | .ok (config, entries, registry) =>
    let events := Registry.events entries
    match Prepared.canonicalDirectory fs config.buildRoot with
    | .error e => ⟨.error e, fs, events⟩
    | .ok root =>
      match Control.Channel.listen config.fifo fs with
      | (.error e, fs) => ⟨.error (.channel e), fs, events⟩
      | (.ok channel, fs) =>
        ⟨.ok ⟨channel, { config with buildRoot := root }, registry⟩, fs, events⟩

end BuildServer
