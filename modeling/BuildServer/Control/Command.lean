-- SUMMARY: Control commands: what a line asks for, and the line that asks for it.
import BuildServer.Text.Blank

/-!
# Commands

A request to stop or to restart is a line that is nothing but its keyword, and a
request to build is read by the words of its line; how they are separated does not
matter. Every line is some command; one that fits no other form is malformed and
keeps its text.
-/

namespace BuildServer

/-- The fields of a build request. -/
structure BuildRequest where
  repo : String
  profile : String
  branch : String
  revision : String
  deriving DecidableEq, Repr

inductive Command where
  | stop
  | restart
  | build (request : BuildRequest)
  | malformed (line : String)
  deriving DecidableEq, Repr

namespace Command

/-- The command that a line gives. -/
def parse (line : String) : Command :=
  let text := Text.trim line
  if text = "STOP" then .stop
  else if text = "RESTART" then .restart
  else match Text.words text with
    | ["BUILD", repo, profile, branch, revision] => .build { repo, profile, branch, revision }
    | _ => .malformed text

/-- The line that gives a command. -/
def line : Command → String
  | .stop => "STOP"
  | .restart => "RESTART"
  | .build r => s!"BUILD {r.repo} {r.profile} {r.branch} {r.revision}"
  | .malformed text => text

end Command

end BuildServer
