import Treecast.Message

/-!
# Keepalive

A stream that has been silent for a while carries a `ping`, so that the connection stays open.
The silence is counted from the start of the stream and again from every message or ping that
is sent; a message that is due at the same instant as a ping is sent instead of it.
-/

set_option autoImplicit false

namespace Treecast

/-- When the next ping of a stream is due. -/
structure Keepalive where
  every : Nat
  due : Nat
  deriving DecidableEq, Repr

namespace Keepalive

/-- The keepalive of a stream that starts at `time`. -/
def start (every time : Nat) : Keepalive := ⟨every, time + every⟩

/-- Something was sent at `time`. -/
def sent (k : Keepalive) (time : Nat) : Keepalive := { k with due := time + k.every }

/-- The pings that are due before `time`, at most `steps` of them, and what is due then. -/
def pingsBefore : (steps : Nat) → Keepalive → (time : Nat) → List Nat × Keepalive
  | 0, k, _ => ([], k)
  | steps + 1, k, time =>
    if k.due < time then
      let (later, k') := pingsBefore steps (k.sent k.due) time
      (k.due :: later, k')
    else ([], k)

/-- Something that a stream carries, with the time at which it does. -/
structure Timed (α : Type) where
  time : Nat
  item : α
  deriving DecidableEq, Repr

/-- The pings of a silence that ends at `time`. -/
def silence (k : Keepalive) (time : Nat) : List (Timed Message) × Keepalive :=
  let (times, k) := pingsBefore time k time
  (times.map fun t => ⟨t, .ping⟩, k)

/-- A stream with its pings: the messages in order of their times, up to its end. -/
def interleaveFrom (k : Keepalive) (close : Nat) : List (Timed Message) → List (Timed Message)
  | [] => (k.silence close).1
  | m :: rest =>
    let (pings, k) := k.silence m.time
    pings ++ m :: interleaveFrom (k.sent m.time) close rest

/-- A stream that starts at time zero and ends at `close`, with its pings. -/
def interleave (every close : Nat) (messages : List (Timed Message)) : List (Timed Message) :=
  interleaveFrom (start every 0) close messages

/-- Messages that follow one another after delays, from `time` on, and the time of the last. -/
def schedule : (time : Nat) → List (Nat × Message) → List (Timed Message) × Nat
  | time, [] => ([], time)
  | time, (delay, m) :: rest =>
    let (later, last) := schedule (time + delay) rest
    (⟨time + delay, m⟩ :: later, last)

end Keepalive

end Treecast
