/-
  The log of diagnostics of one document.

  The log stores the first `Log.capacity` diagnostics and counts them all.  A reader of the text
  stops once the log is full, so `total` may fall short of what could be complained about, but it
  never falls short of what was.
-/
import SmallScript.Diagnostic

namespace SmallScript

/-- Diagnostics in the order of their discovery: the first few, and the number of all. -/
structure Log where
  stored : Array Diagnostic := #[]
  total : Nat := 0
deriving DecidableEq, Repr, Inhabited

namespace Log

/-- How many diagnostics a log stores. -/
def capacity : Nat := 20

def empty : Log := {}

/-- Count `d`, and store it while there is room. -/
def push (log : Log) (d : Diagnostic) : Log where
  stored := if log.stored.size < capacity then log.stored.push d else log.stored
  total := log.total + 1

/-- Append another log: what it stores is pushed in order, what it only counts is only counted. -/
def append (log other : Log) : Log :=
  let pushed := other.stored.foldl push log
  { pushed with total := pushed.total + (other.total - other.stored.size) }

def hasErrors (log : Log) : Bool := decide (0 < log.total)

/-- Whether a reader should stop: as many diagnostics were counted as the log can store. -/
def isFull (log : Log) : Bool := decide (capacity ≤ log.total)

@[simp] theorem total_push (log : Log) (d : Diagnostic) : (log.push d).total = log.total + 1 := rfl

end Log

end SmallScript
