import PaneGrid.Container
import PaneGrid.Proofs.Channels

/-! What the calls of a container do. A call other than `refresh` asks for one edit of the shared
tree, and goes on to a refresh if that is granted. -/

namespace PaneGrid

namespace Container

variable {c c' : Container}

/-- The calls that a container offers. -/
inductive Command where
  | split (command : SplitCommand) (added splitId : NodeId)
  | removePage (page : NodeId)
  | resize (splitId : NodeId) (ratio : Float)
  | refresh
deriving DecidableEq, Repr

/-- The call as it is run, its answer left out. -/
def Command.action : Command → Viewing Unit
  | split command added splitId => do let _ ← Container.split command added splitId
  | removePage page => Container.removePage page
  | resize splitId ratio => Container.resize splitId ratio
  | refresh => do let _ ← Container.refresh

/-- The edit that a call asks for; there is none if the page to be split is not found. -/
def Command.edit? (c : Container) : Command → Option Edit
  | split command added splitId =>
    (c.workspace.store.find? fun n => n.isLeaf && n.id = command.page).map fun page =>
      .split page.id command.orientation command.ratio (c.workspace.settings.newLeaf added) splitId
  | removePage page => some (.remove page)
  | resize splitId ratio => some (.resize splitId ratio)
  | refresh => none

/-- The container once its channel has been drained. -/
def drained (c : Container) : Container :=
  { c with
    workspace := (c.workspace.drain c.channel).2
    stale := c.stale || !((c.workspace.feed.pending? c.channel).getD []).isEmpty }

theorem run_get_bind {α : Type} (c : Container) (next : Container → Viewing α) :
    ((get : Viewing Container) >>= next).run c = (next c).run c := rfl

theorem refresh_run (c : Container) :
    refresh.run c =
      if c.drained.stale = true then
        match c.drained.workspace.store.computeLayout with
        | .ok layout => .ok true { c.drained with layout, stale := false }
        | .error fault => .error fault c.drained
      else .ok false c.drained := by
  change EStateM.run (if (!c.drained.stale) = true then pure false else _) c.drained = _
  cases c.drained.stale with
  | false => rfl
  | true =>
    have hstore : c.drained.workspace.store = c.workspace.store := rfl
    have hgoes : ¬(!true) = true := Bool.false_ne_true
    rw [if_pos rfl, if_neg hgoes, hstore]
    dsimp only
    cases c.workspace.store.computeLayout <;> rfl

theorem perform_run (c : Container) (request : Edit) :
    (perform request).run c =
      match c.workspace.perform request with
      | (.ok receipt, workspace) => .ok receipt { c with workspace }
      | (.error fault, workspace) => .error fault { c with workspace } := by
  rw [perform, run_get_bind]
  rcases c.workspace.perform request with ⟨fault | receipt, w⟩ <;> rfl

/-- How a call can go. -/
inductive Command.Goes (c : Container) :
    Command → EStateM.Result LayoutFault Container Unit → Prop where
  /-- There is nothing to ask for. -/
  | lost {command : Command} (fault : LayoutFault) (hcommand : command ≠ .refresh)
      (hedit : command.edit? c = none) : command.Goes c (.error fault c)
  | refused {command : Command} {request : Edit} {fault : LayoutFault} {workspace : Workspace}
      (hedit : command.edit? c = some request)
      (hperform : c.workspace.perform request = (.error fault, workspace)) :
      command.Goes c (.error fault { c with workspace })
  | granted {command : Command} {request : Edit} {receipt : Receipt} {workspace : Workspace}
      (hedit : command.edit? c = some request)
      (hperform : c.workspace.perform request = (.ok receipt, workspace)) :
      command.Goes c (Command.refresh.action.run { c with workspace })
  | refreshed : Command.refresh.Goes c (Command.refresh.action.run c)

theorem Command.goes_of_perform {command : Command} {request : Edit}
    (hedit : command.edit? c = some request)
    (haction : command.action.run c =
      (Container.perform request >>= fun _ => Command.refresh.action).run c) :
    command.Goes c (command.action.run c) := by
  rw [haction, EStateM.run_bind, perform_run]
  rcases hperform : c.workspace.perform request with ⟨fault | receipt, workspace⟩
  · exact .refused hedit hperform
  · exact .granted hedit hperform

/-- A page that is found is split by the identity under which it is stored. -/
theorem split_run (command : SplitCommand) (added splitId : NodeId) (c : Container) :
    (split command added splitId).run c =
      match (Command.split command added splitId).edit? c with
      | none => .error (.leafNotFound command.page) c
      | some request => EStateM.run (do
          let receipt ← perform request
          let _ ← refresh
          return receipt) c := by
  rw [split, run_get_bind, Command.edit?]
  dsimp only
  cases c.workspace.store.find? fun n => n.isLeaf && n.id = command.page <;> rfl

theorem Command.goes (command : Command) (c : Container) :
    command.Goes c (command.action.run c) := by
  cases command with
  | refresh => exact .refreshed
  | removePage page => exact goes_of_perform rfl rfl
  | resize splitId ratio => exact goes_of_perform rfl rfl
  | split command added splitId =>
    have hrun := split_run command added splitId c
    cases hedit : (split command added splitId).edit? c with
    | none =>
      rw [hedit] at hrun
      rw [action, EStateM.run_bind, hrun]
      exact .lost _ nofun hedit
    | some request =>
      rw [hedit] at hrun
      apply goes_of_perform hedit
      rw [action, EStateM.run_bind, hrun, ← EStateM.run_bind]
      simp only [bind_assoc, pure_bind, action]

/-- The container as a call leaves it, whether the call succeeds or fails. -/
def left : EStateM.Result LayoutFault Container Unit → Container
  | .ok _ c | .error _ c => c

/-- What can happen to a container that shares its tree: calls of its own, and calls of others to
the workspace behind it. -/
inductive Move where
  | own (command : Command)
  | shared (call : Workspace.Call)

def Move.on (c : Container) : Move → Container
  | own command => left (command.action.run c)
  | shared call => { c with workspace := call.on c.workspace }

def run (c : Container) (moves : List Move) : Container := moves.foldl Move.on c

/-- The steps of the workspace in a call of the container. -/
def Command.steps (c : Container) (command : Command) : List Workspace.Step :=
  match command.edit? c with
  | some request =>
    Workspace.Call.steps c.workspace (.perform request) ++
      if c.workspace.store.Admits request then [.drained c.channel] else []
  | none => if command = .refresh then [.drained c.channel] else []

def Move.steps (c : Container) : Move → List Workspace.Step
  | own command => command.steps c
  | shared call => call.steps c.workspace

def steps (c : Container) : List Move → List Workspace.Step
  | [] => []
  | move :: moves => move.steps c ++ (move.on c).steps moves

theorem steps_append (c : Container) (moves moves' : List Move) :
    c.steps (moves ++ moves') = c.steps moves ++ (c.run moves).steps moves' := by
  induction moves generalizing c with
  | nil => rfl
  | cons move moves ih =>
    rw [List.cons_append, steps, steps, ih, List.append_assoc]
    rfl

theorem left_refresh (c : Container) :
    (left (Command.refresh.action.run c)).workspace = c.drained.workspace ∧
      (left (Command.refresh.action.run c)).channel = c.channel := by
  rw [Command.action, EStateM.run_bind, refresh_run]
  cases c.drained.stale with
  | false => exact ⟨rfl, rfl⟩
  | true =>
    rw [if_pos rfl]
    cases c.drained.workspace.store.computeLayout <;> exact ⟨rfl, rfl⟩

theorem admits_of_perform {w w' : Workspace} {request : Edit} {receipt : Receipt}
    (h : w.perform request = (.ok receipt, w')) : w.store.Admits request := by
  rw [Workspace.perform, Workspace.commit] at h
  cases hrun : (Store.perform request).run w.store with
  | ok answer s' => exact ⟨answer, s', hrun⟩
  | error fault s' => simp [hrun] at h

theorem not_admits_of_perform {w w' : Workspace} {request : Edit} {fault : LayoutFault}
    (h : w.perform request = (.error fault, w')) : ¬w.store.Admits request := by
  obtain ⟨s', hrun, -⟩ := Workspace.commit_eq_error h
  rintro ⟨answer, s'', hok⟩
  simp [hrun] at hok

theorem replay_perform {w w' : Workspace} {request : Edit}
    {answer : Except LayoutFault Receipt} (h : w.perform request = (answer, w')) :
    w.replay (Workspace.Call.steps w (.perform request)) = w' := by
  rw [← Workspace.Call.on_eq_replay]
  exact congrArg Prod.snd h

theorem Command.left_action (command : Command) (c : Container) :
    (left (command.action.run c)).workspace = c.workspace.replay (command.steps c) ∧
      (left (command.action.run c)).channel = c.channel := by
  have hgoes := command.goes c
  generalize command.action.run c = result at hgoes
  cases hgoes with
  | lost fault hcommand hedit =>
    rw [steps, hedit]
    simp [left, hcommand]
  | refused hedit hperform =>
    rw [steps, hedit]
    simp only [not_admits_of_perform hperform, ↓reduceIte, List.append_nil]
    exact ⟨(replay_perform hperform).symm, rfl⟩
  | @granted command request receipt workspace hedit hperform =>
    rw [steps, hedit]
    simp only [admits_of_perform hperform, ↓reduceIte, Workspace.replay_append,
      replay_perform hperform]
    exact left_refresh { c with workspace }
  | refreshed => exact left_refresh c

theorem Move.workspace_on (move : Move) (c : Container) :
    (move.on c).workspace = c.workspace.replay (move.steps c) := by
  cases move with
  | own command => exact (command.left_action c).1
  | shared call => exact call.on_eq_replay c.workspace

theorem Move.channel_on (move : Move) (c : Container) : (move.on c).channel = c.channel := by
  cases move with
  | own command => exact (command.left_action c).2
  | shared call => rfl

/-- The workspace behind a container after a run, as its steps make it. -/
theorem workspace_run (c : Container) (moves : List Move) :
    (c.run moves).workspace = c.workspace.replay (c.steps moves) := by
  induction moves generalizing c with
  | nil => rfl
  | cons move moves ih =>
    rw [steps, Workspace.replay_append, ← move.workspace_on]
    exact ih _

theorem channel_run (c : Container) (moves : List Move) : (c.run moves).channel = c.channel := by
  induction moves generalizing c with
  | nil => rfl
  | cons move moves ih => exact (ih _).trans (move.channel_on c)

end Container

end PaneGrid
