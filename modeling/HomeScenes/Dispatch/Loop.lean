import HomeScenes.Dispatch.Server

/-!
# The dispatch loop

The loop sleeps, and goes on when one of three things happens: the stop signal is
written or dropped, the server is notified, or the sleep is over. Only the end of a
sleep makes it look at the queue. Each round starts a new sleep of the full length, also
when the one before was cut short. Several things may have happened together; which of
them the loop takes up is left open here.
-/

namespace HomeScenes.Dispatch

/-- The stop signal as the loop sees it. -/
structure Signal where
  stop : Bool
  /-- Written since the loop last took it up. -/
  written : Bool
  /-- Nobody can write it any more. -/
  dropped : Bool
deriving DecidableEq, Inhabited

/-- A signal that holds a value from the start. -/
def Signal.holding (stop : Bool) : Signal := ⟨stop, false, false⟩

def Signal.write (s : Signal) (stop : Bool) : Signal :=
  { s with stop := stop, written := true }

def Signal.drop (s : Signal) : Signal :=
  { s with dropped := true }

/-- What the loop may go on with. -/
inductive Cause where
  | signal
  | notification
  | timer
deriving DecidableEq, Inhabited

structure Loop where
  signal : Signal
  /-- Length of the sleeps, in nanoseconds. -/
  wait : Nat
  /-- When the sleep is over. -/
  deadline : Nat
  ended : Bool
deriving DecidableEq, Inhabited

namespace Loop

/-- Begin a round: the loop ends if the signal says stop, and sleeps otherwise. -/
def round (l : Loop) (now : Nat) : Loop :=
  if l.signal.stop then { l with ended := true } else { l with deadline := now + l.wait }

/-- A loop that begins its first round. -/
def start (signal : Signal) (now : Nat) : Loop :=
  round ⟨signal, shortWait, now, false⟩ now

variable {κ β ω : Type} [BEq κ] [Hashable κ]

/-- Whether a cause is there for the loop to go on with; `elapsed` says that its sleep is over. -/
def isReady (l : Loop) (s : Server κ β ω) (elapsed : Bool) : Cause → Bool
  | .signal => !l.ended && (l.signal.written || l.signal.dropped)
  | .notification => !l.ended && s.notified
  | .timer => !l.ended && elapsed

/-- Length of the sleep after a look at the queue. -/
def waitAfter : Tick κ β ω → Nat
  | .idle => idleWait
  | .wait nanos => nanos
  | .ready _ => shortWait

/-- What a step of the loop leaves: the loop, the server, and the task that was dispatched. -/
structure Step (κ β ω : Type) [BEq κ] [Hashable κ] where
  loop : Loop
  server : Server κ β ω
  dispatched : Option (Task κ β ω)

/-- The written signal is taken up; a dropped one that holds nothing new ends the loop. -/
def takeSignal (l : Loop) (s : Server κ β ω) (now : Nat) : Step κ β ω :=
  if l.signal.written then
    let l := { l with signal := { l.signal with written := false } }
    ⟨l.round now, s, none⟩
  else ⟨{ l with ended := true }, s, none⟩

/-- The notification is taken up: the next sleep is short. -/
def takeNotification (l : Loop) (s : Server κ β ω) (now : Nat) : Step κ β ω :=
  ⟨{ l with wait := shortWait }.round now, { s with notified := false }, none⟩

/-- The sleep is over: the loop looks at the queue. -/
def takeTimer (l : Loop) (s : Server κ β ω) (now : Nat) (clock : Instant) : Step κ β ω :=
  match s.tick clock with
  | (t, s) =>
    let dispatched := match t with
      | .ready task => some task
      | _ => none
    ⟨{ l with wait := waitAfter t }.round now, s, dispatched⟩

/-- Go on with a cause. The clock is the one that due instants are measured by. -/
def step (l : Loop) (s : Server κ β ω) (now : Nat) (clock : Instant) : Cause → Step κ β ω
  | .signal => l.takeSignal s now
  | .notification => l.takeNotification s now
  | .timer => l.takeTimer s now clock

end Loop

end HomeScenes.Dispatch
