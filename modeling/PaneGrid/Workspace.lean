import PaneGrid.Feed.Registry
import PaneGrid.Settings

/-! A pane tree with its settings and everyone who is told of its changes. An edit that takes effect
is sent to the channels first and then to the listeners, whose own edits are announced in turn
before the delivery goes on. -/

namespace PaneGrid

structure Workspace where
  store : Store
  settings : Settings
  feed : Feed
  journal : List JournalEntry
  /-- How deeply deliveries may be nested before listeners are no longer called. -/
  nesting : Nat
  /-- Some delivery did not reach its listeners. -/
  cutShort : Bool

namespace Workspace

def defaultNesting : Nat := 1000

def ofLeaf (root : Leaf) (settings : Settings) : Workspace :=
  ⟨.ofLeaf root, settings, .empty, [], defaultNesting, false⟩

/-- The root is a fresh leaf of the sizes in the settings. -/
def ofSettings (settings : Settings) (root : NodeId) : Workspace :=
  ofLeaf (settings.newLeaf root) settings

def log (w : Workspace) (entry : JournalEntry) : Workspace :=
  { w with journal := w.journal ++ [entry] }

/-- Runs an edit and hands its change, if there is one, to `deliver`. -/
def commit (deliver : Change → Workspace → Workspace) (request : Edit) (w : Workspace) :
    Except LayoutFault Receipt × Workspace :=
  match (Store.perform request).run w.store with
  | .ok (receipt, none) store => (.ok receipt, { w with store })
  | .ok (receipt, some change) store =>
    (.ok receipt, deliver change ({ w with store }.log (.committed change)))
  | .error fault store => (.error fault, { w with store })

/-- Runs a reaction; `deliver` announces the edits that it makes. -/
def react (deliver : Change → Workspace → Workspace) (self : ListenerId) :
    Reaction → Workspace → Workspace
  | .done, w => w
  | .note text next, w => react deliver self next (w.log (.noted self text))
  | .look next, w => react deliver self (next w.store) w
  | .remember next, w => react deliver self (next w.journal) w
  | .edit request next, w =>
    let (answer, w) := commit deliver request w
    react deliver self (next answer) w
  | .listen listener next, w =>
    let (id, feed) := w.feed.listen listener
    react deliver self (next id) { w with feed }
  | .unlisten id next, w =>
    let (found, feed) := w.feed.unlisten id
    react deliver self (next found) { w with feed }
  | .subscribe next, w =>
    let (channel, feed) := w.feed.subscribe
    react deliver self (next channel) { w with feed }
  | .hangUp channel next, w => react deliver self next { w with feed := w.feed.hangUp channel }

/-- Sends a change to the channels, then calls the listeners registered at that moment in order.
The first argument bounds the nesting. -/
def deliver : Nat → Change → Workspace → Workspace
  | 0, change, w => { w with feed := w.feed.send change, cutShort := true }
  | depth + 1, change, w =>
    let sent := { w with feed := w.feed.send change }
    sent.feed.listeners.foldl (fun w (id, listener) =>
      react (deliver depth) id (listener id change) (w.log (.called id change))) sent

def notify (w : Workspace) (change : Change) : Workspace := deliver w.nesting change w

/-- Runs one request to the end of all deliveries. A request that fails announces nothing. -/
def perform (w : Workspace) (request : Edit) : Except LayoutFault Receipt × Workspace :=
  commit (deliver w.nesting) request w

def listen (w : Workspace) (listener : Listener) : ListenerId × Workspace :=
  let (id, feed) := w.feed.listen listener
  (id, { w with feed })

def unlisten (w : Workspace) (id : ListenerId) : Bool × Workspace :=
  let (found, feed) := w.feed.unlisten id
  (found, { w with feed })

def subscribe (w : Workspace) : ChannelId × Workspace :=
  let (id, feed) := w.feed.subscribe
  (id, { w with feed })

def hangUp (w : Workspace) (id : ChannelId) : Workspace := { w with feed := w.feed.hangUp id }

/-- Takes what a channel holds. -/
def drain (w : Workspace) (id : ChannelId) : Option (List Change) × Workspace :=
  (w.feed.pending? id, { w with feed := w.feed.clear id })

end Workspace

end PaneGrid
