import PaneGrid.Feed.Reaction

/-! Who is told of changes: listeners in the order of their registration, and channels that hold
what was sent until it is drained. -/

namespace PaneGrid

structure Channel where
  id : ChannelId
  /-- The receiving end still exists. -/
  connected : Bool
  queue : List Change
deriving DecidableEq, Repr

structure Feed where
  nextListener : Nat
  listeners : List (ListenerId × Listener)
  nextChannel : Nat
  channels : List Channel

namespace Feed

def empty : Feed := ⟨0, [], 0, []⟩

def listen (f : Feed) (listener : Listener) : ListenerId × Feed :=
  (⟨f.nextListener⟩,
    { f with
      nextListener := f.nextListener + 1
      listeners := f.listeners ++ [(⟨f.nextListener⟩, listener)] })

/-- Tells whether the listener was registered. -/
def unlisten (f : Feed) (id : ListenerId) : Bool × Feed :=
  (f.listeners.any (·.1 = id), { f with listeners := f.listeners.filter (·.1 ≠ id) })

def subscribe (f : Feed) : ChannelId × Feed :=
  (⟨f.nextChannel⟩,
    { f with
      nextChannel := f.nextChannel + 1
      channels := f.channels ++ [⟨⟨f.nextChannel⟩, true, []⟩] })

/-- Drops the receiving end; the channel itself stays until the next change is sent. -/
def hangUp (f : Feed) (id : ChannelId) : Feed :=
  { f with
    channels := f.channels.map fun c => if c.id = id then { c with connected := false } else c }

/-- Appends a change to every connected channel and forgets the others. -/
def send (f : Feed) (change : Change) : Feed :=
  { f with
    channels := (f.channels.filter Channel.connected).map fun c =>
      { c with queue := c.queue ++ [change] } }

/-- What was received and not yet drained, unless the receiving end was dropped. -/
def pending? (f : Feed) (id : ChannelId) : Option (List Change) :=
  (f.channels.find? fun c => c.id = id && c.connected).map Channel.queue

def clear (f : Feed) (id : ChannelId) : Feed :=
  { f with channels := f.channels.map fun c => if c.id = id then { c with queue := [] } else c }

def text (f : Feed) : String :=
  s!"ChangeNotifier \x7b listeners: {f.listeners.length}, channels: {f.channels.length} \x7d"

end Feed

end PaneGrid
