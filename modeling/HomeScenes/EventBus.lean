import HomeScenes.Device

/-!
# The event bus

Events go to every receiver that subscribed before. The bus keeps the latest events
only; a receiver that falls behind them learns how many it missed and goes on with the
oldest one kept.
-/

namespace HomeScenes

structure EventBus where
  /-- Events kept, a power of two. -/
  capacity : Nat
  /-- Number of events published so far. -/
  published : Nat
  /-- The latest events, oldest first. -/
  retained : List DeviceEvent
  /-- For each receiver, the number of the event it gets next. -/
  receivers : List Nat
deriving Inhabited

namespace EventBus

/-- A bus that keeps at least the wanted number of events; there is none for zero. -/
def ofCapacity? (wanted : Nat) : Option EventBus :=
  if wanted = 0 then none else some ⟨wanted.nextPowerOfTwo, 0, [], []⟩

def publish (b : EventBus) (e : DeviceEvent) : EventBus :=
  let events := b.retained ++ [e]
  { b with published := b.published + 1, retained := events.drop (events.length - b.capacity) }

def publishAll (b : EventBus) (es : List DeviceEvent) : EventBus :=
  es.foldl publish b

/-- A new receiver, with its number. -/
def subscribe (b : EventBus) : Nat × EventBus :=
  (b.receivers.length, { b with receivers := b.receivers ++ [b.published] })

/-- What a receiver gets: how many events it missed, and the events it can still have. -/
structure Delivery where
  missed : Nat
  events : List DeviceEvent

/-- Hand a receiver all that waits for it; there is nothing for an unknown receiver. -/
def drain? (b : EventBus) (receiver : Nat) : Option (Delivery × EventBus) :=
  match b.receivers[receiver]? with
  | none => none
  | some next =>
    let oldest := b.published - b.retained.length
    some (⟨oldest - next, b.retained.drop (next - oldest)⟩,
      { b with receivers := b.receivers.set receiver b.published })

end EventBus

end HomeScenes
