-- SUMMARY: The stages of a build, in order.

namespace BuildServer

/-- The steps of a build, in the order in which they are taken. -/
inductive Stage where
  | resolveTools
  | generateBuildId
  | provisionToplevel
  | loadBindings
  | checkout
  | provisionBinaryDir
  | loadBuildConfig
  | configure
  deriving DecidableEq, Repr

namespace Stage

def all : List Stage :=
  [.resolveTools, .generateBuildId, .provisionToplevel, .loadBindings, .checkout,
    .provisionBinaryDir, .loadBuildConfig, .configure]

def label : Stage → String
  | .resolveTools => "resolve build tools"
  | .generateBuildId => "generate build id"
  | .provisionToplevel => "provision toplevel directory"
  | .loadBindings => "load macro file"
  | .checkout => "checkout sources"
  | .provisionBinaryDir => "provision binary directory"
  | .loadBuildConfig => "load build configuration"
  | .configure => "configure"

end Stage

end BuildServer
