import PaneGrid.Proofs.Identities

/-! A run of a workspace as one list of steps, however deeply its deliveries are nested. A step
writes the store or the feed once and calls nobody; an edit and its sending to the channels are a
single step, and what the listeners do about it comes after that. -/

namespace PaneGrid

namespace Workspace

/-- Sends a change to the channels and calls no listener. -/
def send (change : Change) (w : Workspace) : Workspace := { w with feed := w.feed.send change }

/-- Everyone who is registered reacts in a new manner from now on. -/
def turn (w : Workspace) (manner : ListenerId → Listener) : Workspace :=
  { w with
    feed.listeners := w.feed.listeners.map fun entry => (entry.1, manner entry.1) }

inductive Step where
  /-- An edit is run; a change that it announces is noted as committed and sent. -/
  | edited (request : Edit)
  | called (listener : ListenerId) (change : Change)
  | noted (listener : ListenerId) (text : String)
  | listened (listener : Listener)
  | unlistened (id : ListenerId)
  | subscribed
  | hungUp (channel : ChannelId)
  | drained (channel : ChannelId)
  /-- The state of listeners has been changed from outside, and with it their manner. -/
  | turned (manner : ListenerId → Listener)
  /-- The bound on the nesting is reached. -/
  | cutShort

def Step.on (w : Workspace) : Step → Workspace
  | edited request => (commit send request w).2
  | called listener change => w.log (.called listener change)
  | noted listener text => w.log (.noted listener text)
  | listened listener => (w.listen listener).2
  | unlistened id => (w.unlisten id).2
  | subscribed => w.subscribe.2
  | hungUp channel => w.hangUp channel
  | drained channel => (w.drain channel).2
  | turned manner => w.turn manner
  | cutShort => { w with cutShort := true }

def replay (w : Workspace) (steps : List Step) : Workspace := steps.foldl Step.on w

@[simp] theorem replay_nil (w : Workspace) : w.replay [] = w := rfl

@[simp] theorem replay_cons (w : Workspace) (step : Step) (steps : List Step) :
    w.replay (step :: steps) = (step.on w).replay steps := rfl

@[simp] theorem replay_append (w : Workspace) (steps steps' : List Step) :
    w.replay (steps ++ steps') = (w.replay steps).replay steps' :=
  List.foldl_append

/-- The steps of an edit; `follow` gives those after a change has been sent. -/
def editSteps (follow : Change → Workspace → List Step) (request : Edit) (w : Workspace) :
    List Step :=
  .edited request ::
    match (Store.perform request).run w.store with
    | .ok (_, some change) _ => follow change (Step.on w (.edited request))
    | _ => []

/-- The steps of a reaction whose edits are announced through `deliver`. -/
def reactSteps (deliver : Change → Workspace → Workspace)
    (follow : Change → Workspace → List Step) (self : ListenerId) :
    Reaction → Workspace → List Step
  | .done, _ => []
  | .note text next, w =>
    .noted self text :: reactSteps deliver follow self next (w.log (.noted self text))
  | .look next, w => reactSteps deliver follow self (next w.store) w
  | .remember next, w => reactSteps deliver follow self (next w.journal) w
  | .edit request next, w =>
    editSteps follow request w ++
      reactSteps deliver follow self (next (commit deliver request w).1)
        (commit deliver request w).2
  | .listen listener next, w =>
    .listened listener ::
      reactSteps deliver follow self (next (w.listen listener).1) (w.listen listener).2
  | .unlisten id next, w =>
    .unlistened id :: reactSteps deliver follow self (next (w.unlisten id).1) (w.unlisten id).2
  | .subscribe next, w =>
    .subscribed :: reactSteps deliver follow self (next w.subscribe.1) w.subscribe.2
  | .hangUp channel next, w =>
    .hungUp channel :: reactSteps deliver follow self next (w.hangUp channel)

/-- The steps of the calls of some listeners, one after another. -/
def callSteps (deliver : Change → Workspace → Workspace)
    (follow : Change → Workspace → List Step) (change : Change) :
    List (ListenerId × Listener) → Workspace → List Step
  | [], _ => []
  | (id, listener) :: rest, w =>
    let called := w.log (.called id change)
    .called id change :: reactSteps deliver follow id (listener id change) called ++
      callSteps deliver follow change rest (react deliver id (listener id change) called)

/-- The steps of a delivery once the change has been sent. -/
def followSteps : Nat → Change → Workspace → List Step
  | 0, _, _ => [.cutShort]
  -- the listeners are those of the moment, whoever is registered in the meantime
  | depth + 1, change, w =>
    callSteps (deliver depth) (followSteps depth) change w.feed.listeners w

section Delivery

variable {deliver : Change → Workspace → Workspace} {follow : Change → Workspace → List Step}

/-- A delivery sends its change and then takes the steps of `follow`. -/
def Follows (deliver : Change → Workspace → Workspace) (follow : Change → Workspace → List Step) :
    Prop :=
  ∀ change w, deliver change w = (w.send change).replay (follow change (w.send change))

theorem Follows.commit (h : Follows deliver follow) (request : Edit) (w : Workspace) :
    (commit deliver request w).2 = w.replay (editSteps follow request w) := by
  rw [editSteps, replay_cons, Step.on, Workspace.commit, Workspace.commit]
  cases (Store.perform request).run w.store with
  | error fault s' => rfl
  | ok answer s' =>
    obtain ⟨receipt, _ | change⟩ := answer
    · rfl
    · exact h change _

theorem Follows.react (h : Follows deliver follow) (self : ListenerId) (reaction : Reaction)
    (w : Workspace) :
    react deliver self reaction w = w.replay (reactSteps deliver follow self reaction w) := by
  induction reaction generalizing w with
  | done => rfl
  | note text next ih => exact ih _
  | look next ih => exact ih _ _
  | remember next ih => exact ih _ _
  | edit request next ih =>
    rw [reactSteps, replay_append, ← h.commit request w]
    exact ih _ _
  | listen listener next _ ih => exact ih _ _
  | unlisten id next ih => exact ih _ _
  | subscribe next ih => exact ih _ _
  | hangUp channel next ih => exact ih _

theorem Follows.calls (h : Follows deliver follow) (change : Change)
    (listeners : List (ListenerId × Listener)) (w : Workspace) :
    listeners.foldl (fun w (id, listener) =>
        Workspace.react deliver id (listener id change) (w.log (.called id change))) w =
      w.replay (callSteps deliver follow change listeners w) := by
  induction listeners generalizing w with
  | nil => rfl
  | cons entry rest ih =>
    obtain ⟨id, listener⟩ := entry
    rw [List.foldl_cons, ih, callSteps, List.cons_append, replay_cons, replay_append, Step.on,
      ← h.react]

/-- Induction on how deeply deliveries may be nested: listeners are called with deliveries of a
smaller depth. -/
theorem follows_deliver (depth : Nat) : Follows (Workspace.deliver depth) (followSteps depth) := by
  induction depth with
  | zero =>
    intro change w
    rfl
  | succ depth ih =>
    intro change w
    exact ih.calls change w.feed.listeners (w.send change)

end Delivery

/-- What the users of a workspace can do. -/
inductive Call where
  | perform (request : Edit)
  | listen (listener : Listener)
  | unlisten (id : ListenerId)
  | subscribe
  | hangUp (channel : ChannelId)
  | drain (channel : ChannelId)
  /-- They change the state of listeners, which from now on react in a new manner. -/
  | turn (manner : ListenerId → Listener)

def Call.on (w : Workspace) : Call → Workspace
  | perform request => (w.perform request).2
  | listen listener => (w.listen listener).2
  | unlisten id => (w.unlisten id).2
  | subscribe => w.subscribe.2
  | hangUp channel => w.hangUp channel
  | drain channel => (w.drain channel).2
  | turn manner => w.turn manner

def run (w : Workspace) (calls : List Call) : Workspace := calls.foldl Call.on w

def Call.steps (w : Workspace) : Call → List Step
  | perform request => editSteps (followSteps w.nesting) request w
  | listen listener => [.listened listener]
  | unlisten id => [.unlistened id]
  | subscribe => [.subscribed]
  | hangUp channel => [.hungUp channel]
  | drain channel => [.drained channel]
  | turn manner => [.turned manner]

/-- All steps of a run, those of the listeners included, in the order in which they are taken. -/
def steps (w : Workspace) : List Call → List Step
  | [] => []
  | call :: calls => call.steps w ++ (call.on w).steps calls

theorem Call.on_eq_replay (call : Call) (w : Workspace) : call.on w = w.replay (call.steps w) := by
  cases call with
  | perform request => exact (follows_deliver w.nesting).commit request w
  | _ => rfl

/-- A run is its steps, one after another. -/
theorem run_eq_replay (w : Workspace) (calls : List Call) :
    w.run calls = w.replay (w.steps calls) := by
  induction calls generalizing w with
  | nil => rfl
  | cons call calls ih =>
    rw [steps, replay_append, ← call.on_eq_replay]
    exact ih _

/-- The edit of a step, whoever has asked for it. -/
def Step.request? : Step → Option Edit
  | edited request => some request
  | _ => none

def requests (steps : List Step) : List Edit := steps.filterMap Step.request?

theorem requests_cons (step : Step) (steps : List Step) :
    requests (step :: steps) = step.request?.toList ++ requests steps := by
  cases step <;> rfl

theorem requests_append (steps steps' : List Step) :
    requests (steps ++ steps') = requests steps ++ requests steps' :=
  List.filterMap_append

theorem Step.store_on (step : Step) (w : Workspace) :
    (step.on w).store = w.store.run step.request?.toList := by
  cases step with
  | edited request =>
    change (commit send request w).2.store = w.store.after request
    rw [commit, Store.after]
    rcases (Store.perform request).run w.store with ⟨⟨receipt, _ | change⟩, s'⟩ | ⟨fault, s'⟩ <;>
      rfl
  | _ => rfl

/-- Nothing but the edits of a run changes the store. -/
theorem store_replay (w : Workspace) (steps : List Step) :
    (w.replay steps).store = w.store.run (requests steps) := by
  induction steps generalizing w with
  | nil => rfl
  | cons step steps ih => rw [replay_cons, ih, step.store_on, requests_cons, Store.run_append]

theorem Step.journal_prefix (step : Step) (w : Workspace) : w.journal <+: (step.on w).journal := by
  cases step with
  | edited request =>
    change w.journal <+: (commit send request w).2.journal
    rw [commit]
    split
    · exact List.prefix_rfl
    · exact List.prefix_append ..
    · exact List.prefix_rfl
  | called | noted => exact List.prefix_append ..
  | _ => exact List.prefix_rfl

theorem journal_prefix_replay (w : Workspace) (steps : List Step) :
    w.journal <+: (w.replay steps).journal := by
  induction steps generalizing w with
  | nil => exact List.prefix_rfl
  | cons step steps ih => exact (step.journal_prefix w).trans (ih _)

/-- A listener that is called never finds the journal that an earlier call has found. -/
theorem journal_called_ne (w : Workspace) (steps : List Step) (id id' : ListenerId)
    (change change' : Change) :
    let first := w.log (.called id change)
    ((first.replay steps).log (.called id' change')).journal ≠ first.journal := by
  intro first heq
  have hle := (journal_prefix_replay first steps).length_le
  have hlength := congrArg List.length heq
  rw [log, List.length_append, List.length_singleton] at hlength
  omega

section Touching

variable {channel : ChannelId} {deliver : Change → Workspace → Workspace}
  {follow : Change → Workspace → List Step}

/-- The receiving end of the channel is dropped. -/
def Step.hangsUp (channel : ChannelId) : Step → Bool
  | hungUp other => other = channel
  | _ => false

/-- Something is taken out of the channel. -/
def Step.drains (channel : ChannelId) : Step → Bool
  | drained other => other = channel
  | _ => false

theorem Step.eq_drained {step : Step} (h : step.drains channel) : step = .drained channel := by
  cases step with
  | drained other => exact congrArg drained (of_decide_eq_true h)
  | _ => contradiction

def Call.drains (channel : ChannelId) : Call → Bool
  | drain other => other = channel
  | _ => false

theorem not_drains_editSteps (h : ∀ change w, ∀ step ∈ follow change w, ¬step.drains channel)
    (request : Edit) (w : Workspace) :
    ∀ step ∈ editSteps follow request w, ¬step.drains channel := by
  rw [editSteps, List.forall_mem_cons]
  refine ⟨nofun, ?_⟩
  split
  · exact h _ _
  · exact List.forall_mem_nil _

theorem not_drains_reactSteps (h : ∀ change w, ∀ step ∈ follow change w, ¬step.drains channel)
    (self : ListenerId) (reaction : Reaction) (w : Workspace) :
    ∀ step ∈ reactSteps deliver follow self reaction w, ¬step.drains channel := by
  induction reaction generalizing w with
  | done => exact List.forall_mem_nil _
  | look next ih => exact ih _ _
  | remember next ih => exact ih _ _
  | edit request next ih =>
    rw [reactSteps, List.forall_mem_append]
    exact ⟨not_drains_editSteps h request w, ih _ _⟩
  | note text next ih => exact List.forall_mem_cons.mpr ⟨nofun, ih _⟩
  | listen listener next _ ih => exact List.forall_mem_cons.mpr ⟨nofun, ih _ _⟩
  | unlisten id next ih => exact List.forall_mem_cons.mpr ⟨nofun, ih _ _⟩
  | subscribe next ih => exact List.forall_mem_cons.mpr ⟨nofun, ih _ _⟩
  | hangUp other next ih => exact List.forall_mem_cons.mpr ⟨nofun, ih _⟩

theorem not_drains_callSteps (h : ∀ change w, ∀ step ∈ follow change w, ¬step.drains channel)
    (change : Change) (listeners : List (ListenerId × Listener)) (w : Workspace) :
    ∀ step ∈ callSteps deliver follow change listeners w, ¬step.drains channel := by
  induction listeners generalizing w with
  | nil => exact List.forall_mem_nil _
  | cons entry rest ih =>
    rw [callSteps, List.cons_append, List.forall_mem_cons, List.forall_mem_append]
    exact ⟨nofun, not_drains_reactSteps h _ _ _, ih _⟩

/-- Listeners drain nothing, however deeply they are called. -/
theorem not_drains_followSteps (depth : Nat) (change : Change) (w : Workspace) :
    ∀ step ∈ followSteps depth change w, ¬step.drains channel := by
  induction depth generalizing change w with
  | zero => exact List.forall_mem_singleton.mpr nofun
  | succ depth ih => exact not_drains_callSteps ih change _ w

theorem Call.not_drains_steps {call : Call} (h : ¬call.drains channel) (w : Workspace) :
    ∀ step ∈ call.steps w, ¬step.drains channel := by
  cases call with
  | perform request => exact not_drains_editSteps (not_drains_followSteps w.nesting) request w
  | drain other => exact List.forall_mem_singleton.mpr h
  | listen | unlisten | subscribe | hangUp | turn => exact List.forall_mem_singleton.mpr nofun

end Touching

end Workspace

end PaneGrid
