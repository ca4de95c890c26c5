import LintGate.FileTree

/-!
# The machine that runs programs

A machine has a file tree, a clock and channels. A channel is what was written to a pipe and not yet
read from it. A process reaches files and channels through numbered descriptors. Processes run one
after another: a job in the background runs at once and keeps its channels open until its time is
over.
-/

namespace LintGate

open Text (Bytes)

/-- What a descriptor stands for. -/
inductive Stream where
  | channel (n : Nat)
  /-- A file to whose end is written. -/
  | file (l : Location)
  | device (d : Device)
deriving DecidableEq, Repr

abbrev Descriptors := List (Nat × Stream)

namespace Descriptors

def standardInput : Nat := 0
def standardOutput : Nat := 1
def standardError : Nat := 2

/-- Makes a descriptor stand for a stream, or closes it. -/
def set (ds : Descriptors) (n : Nat) (s : Option Stream) : Descriptors :=
  let others := ds.filter (·.1 ≠ n)
  match s with
  | some s => (n, s) :: others
  | none => others

end Descriptors

structure Machine where
  tree : FileTree := {}
  /-- What programs are told when nothing else is said. -/
  environment : List (String × String) := []
  /-- Milliseconds since the machine was started. -/
  clock : Nat := 0
  /-- When the watched process is stopped. -/
  deadline : Option Nat := none
  channels : List Bytes := []
  /-- Channels that other processes keep open, and until when. -/
  holders : List (Nat × Nat) := []
  /-- The number of the next process. -/
  nextProcess : Nat := 100
deriving Repr

namespace Machine

def contents (m : Machine) (n : Nat) : Bytes :=
  m.channels[n]?.getD []

def setContents (m : Machine) (n : Nat) (bs : Bytes) : Machine :=
  { m with channels := m.channels.set n bs }

/-- Opens a channel that holds some bytes. -/
def openChannel (m : Machine) (bs : Bytes) : Machine × Nat :=
  ({ m with channels := m.channels ++ [bs] }, m.channels.length)

/-- Writes to a stream. What is written nowhere is lost. -/
def write (m : Machine) (s : Option Stream) (bs : Bytes) : Machine :=
  match s with
  | some (.channel n) => m.setContents n (m.contents n ++ bs)
  | some (.file l) =>
    match m.tree.root.get? l with
    | some (.file old mode) => { m with tree := m.tree.setAt l (some (.file (old ++ bs) mode)) }
    | _ => m
  | _ => m

/-- The channels among the streams of some descriptors. -/
def channelsOf (ds : Descriptors) : List Nat :=
  ds.filterMap fun d => match d.2 with
    | .channel n => some n
    | _ => none

/-- Keeps the channels of some descriptors open until a time. -/
def hold (m : Machine) (ds : Descriptors) (limit : Nat) : Machine :=
  { m with holders := (channelsOf ds).map (fun n => (n, limit)) ++ m.holders }

/-- Until when a channel is kept open, which is no earlier than now. -/
def heldUntil (m : Machine) (n : Nat) (now : Nat) : Nat :=
  ((m.holders.filter (·.1 = n)).map (·.2)).foldl max now

end Machine

end LintGate
