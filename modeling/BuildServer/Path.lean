-- SUMMARY: Paths as texts: joining, segments and lexical ancestors.

/-!
# Paths

A path is kept as the text it was given as, since messages show it unchanged.
`join` appends one path to another without tidying either. A segment is what
stands between two slashes; empty segments and `.` segments are idle, except
for a `.` that a relative path begins with.
-/

namespace BuildServer.Path

def isAbsolute (p : String) : Bool :=
  p.toList.head? == some '/'

/-- `sub` seen from `base`. An absolute `sub` stands for itself, and a slash is
    put between the two unless `base` is empty or ends in one. -/
def join (base sub : String) : String :=
  if isAbsolute sub then sub
  else if base.toList.isEmpty || base.toList.getLast? == some '/' then base ++ sub
  else base ++ "/" ++ sub

/-- The texts between the slashes of a path. -/
def segments (p : String) : List String :=
  (p.toList.splitOn '/').map String.ofList

/-- The path with the given segments. -/
def ofSegments (segs : List String) : String :=
  "/".intercalate segs

/-! ## Ancestors -/

/-- A segment that leads nowhere. A `.` is kept where a relative path begins. -/
def isIdle (kept : Bool) (seg : String) : Bool :=
  seg == "" || (seg == "." && !kept)

/-- For each segment that is not idle, the segments up to and including it. -/
def stems (kept : Bool) (before : List String) : List String → List (List String)
  | [] => []
  | seg :: segs =>
    let before' := before ++ [seg]
    if isIdle (kept && before.isEmpty) seg then stems kept before' segs
    else before' :: stems kept before' segs

/-- The proper lexical ancestors of a path, the nearest first. They end with
    the root, or with the empty path if the path is relative. -/
def ancestors (p : String) : List String :=
  let found :=
    if isAbsolute p then (stems false [] (segments p).tail).map fun s => "/" ++ ofSegments s
    else (stems true [] (segments p)).map ofSegments
  match found.reverse with
  | [] => []
  | _ :: proper => proper ++ [if isAbsolute p then "/" else ""]

end BuildServer.Path
