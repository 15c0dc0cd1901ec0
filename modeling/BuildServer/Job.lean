-- SUMMARY: A build job: one repository at one revision, with the profile to build it with.

/-!
# Jobs

A job carries everything that its build needs to know about the repository and
the request, so that later changes of the registry do not touch it.
-/

namespace BuildServer

structure Job where
  repo : String
  url : String
  branch : String
  revision : String
  /-- Build configuration file, relative to the checked-out sources. -/
  config : String
  profile : String
  deriving DecidableEq, Repr

/-- How a job appears in messages. -/
def Job.label (j : Job) : String :=
  s!"{j.repo} ({j.branch}@{j.revision}, profile {j.profile})"

end BuildServer
