-- SUMMARY: Named pipes: their readers and the bytes that wait in them.
import BuildServer.FileSystem.Error

/-!
# Pipes

A pipe keeps a bounded number of pages for as long as someone holds it open for
reading. Writers never wait here: what does not fit is refused. A write begins
in the room that the last page has left if what does not fill whole pages fits
there, and goes on in new pages; so one of up to a page goes in as a whole or
not at all, and many that do not share pages fill a pipe early.
-/

namespace BuildServer

/-- A page of a pipe. -/
structure Page where
  bytes : List UInt8
  /-- How many more bytes fit behind those. -/
  room : Nat
  deriving DecidableEq, Repr

structure Pipe where
  mode : Nat
  /-- How many hold the pipe open for reading. -/
  readers : Nat
  pages : List Page
  deriving DecidableEq, Repr

namespace Pipe

/-- A pipe that nobody has opened. -/
def idle (mode : Nat) : Pipe := ⟨mode, 0, []⟩

def pageSize : Nat := 4096

/-- Pages of a pipe at most. -/
def pageLimit : Nat := 16

/-- Bytes that wait in a pipe at most. -/
def capacity : Nat := pageLimit * pageSize

/-- Bytes that one read takes at most. -/
def readSize : Nat := 8192

/-- The bytes that wait, in order. -/
def content (p : Pipe) : List UInt8 := p.pages.flatMap (·.bytes)

/-- The pipe after all that waits in it has been taken. -/
def drained (p : Pipe) : Pipe := { p with pages := [] }

/-! ## Readers -/

def addReader (p : Pipe) : Pipe := { p with readers := p.readers + 1 }

/-- One reader fewer. What nobody holds open loses its content. -/
def dropReader (p : Pipe) : Pipe :=
  { p with
    readers := p.readers - 1
    pages := if p.readers ≤ 1 then [] else p.pages }

/-- Take at most so many bytes from the first pages. -/
def takeFrom : Nat → List Page → List UInt8 × List Page
  | _, [] => ([], [])
  | n, page :: pages =>
    if n < page.bytes.length then
      (page.bytes.take n, { page with bytes := page.bytes.drop n } :: pages)
    else
      let (more, left) := takeFrom (n - page.bytes.length) pages
      (page.bytes ++ more, left)

/-- What one read takes, and the pipe after it. -/
def read (p : Pipe) : List UInt8 × Pipe :=
  let (taken, pages) := takeFrom readSize p.pages
  (taken, { p with pages })

/-! ## Writers -/

/-- Put what does not fill whole pages into the last page, if it fits there.
    Gives the pages and the bytes that are left. -/
def topUp (pages : List Page) (bytes : List UInt8) : List Page × List UInt8 :=
  let odd := bytes.length % pageSize
  match pages.getLast? with
  | none => (pages, bytes)
  | some last =>
    if 0 < odd ∧ odd ≤ last.room then
      (pages.dropLast ++ [⟨last.bytes ++ bytes.take odd, last.room - odd⟩], bytes.drop odd)
    else (pages, bytes)

/-- As many new pages as the bytes need, but so many at most. -/
def newPages : Nat → List UInt8 → List Page
  | 0, _ => []
  | n + 1, bytes =>
    if bytes.isEmpty then []
    else
      let first := bytes.take pageSize
      ⟨first, pageSize - first.length⟩ :: newPages n (bytes.drop pageSize)

def write (p : Pipe) (bytes : List UInt8) : Except IoError Unit × Pipe :=
  let (pages, rest) := topUp p.pages bytes
  let free := pageLimit - pages.length
  (if rest.length ≤ free * pageSize then .ok () else .error .wouldBlock,
    { p with pages := pages ++ newPages free rest })

end Pipe

end BuildServer
