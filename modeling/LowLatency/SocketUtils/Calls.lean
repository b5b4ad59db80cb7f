import Mathlib.Data.Nat.Basic

namespace LowLatency.SocketUtils

inductive Errno
  | eagain
  | ewouldblock
  | einprogress
  | eintr
  | econnaborted
  | other (code : ℕ)
  deriving DecidableEq

def wouldBlock (e : Errno) : Bool := e = .eagain || e = .ewouldblock || e = .einprogress

/-- The results of `F_GETFL`, with the `O_NONBLOCK` bit if it succeeds, and of
`F_SETFL`. -/
structure Fcntl where
  getFlags : Option Bool
  setFlags : Bool

/-- What the helper returns, and the flag that it has written, if any. -/
def setNonBlocking (k : Fcntl) : Bool × Option Bool :=
  match k.getFlags with
  | none => (false, none)
  | some true => (true, none)
  | some false => if k.setFlags then (true, some true) else (false, none)

def setOption (setsockopt enabled : Bool) : Bool × Option Bool :=
  if setsockopt then (true, some enabled) else (false, none)

def setNoDelay (setsockopt : Bool) : Bool × Option Bool := setOption setsockopt true

def setSOTimestamp (setsockopt : Bool) : Bool × Option Bool := setOption setsockopt true

end LowLatency.SocketUtils
