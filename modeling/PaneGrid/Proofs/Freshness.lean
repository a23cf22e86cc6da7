import PaneGrid.Proofs.Commands

/-! How fresh the layout of a container is, with any edits going through the shared tree in between.
The layout is that of the tree or a change is waiting in the channel, and what was drained without
a layout to show for it is remembered. -/

namespace PaneGrid

namespace Workspace

variable {w : Workspace} {channel : ChannelId} {steps : List Step}

/-- The layout is that of the tree, or a change is waiting in the channel. -/
structure Covers (w : Workspace) (channel : ChannelId) (layout : Layout) : Prop where
  reachable : w.store.Reachable
  waiting : ∃ queue, w.feed.pending? channel = some queue ∧
    (queue = [] → w.store.computeLayout = .ok layout)

/-- Whatever others do, short of touching the channel. -/
theorem Covers.replay {layout : Layout} (h : w.Covers channel layout)
    (hf : w.store.FreshDraws (requests steps)) (hhangs : ∀ step ∈ steps, ¬step.hangsUp channel)
    (hdrains : ∀ step ∈ steps, ¬step.drains channel) :
    (w.replay steps).Covers channel layout := by
  obtain ⟨hreachable, queue, hqueue, hlayout⟩ := h
  obtain ⟨queue', hqueue', hreceived⟩ := exists_pending_replay hqueue hhangs
  rw [taken_eq_nil hdrains, List.nil_append] at hreceived
  constructor
  · rw [store_replay]
    exact hreachable.run hf
  · refine ⟨queue', hqueue', ?_⟩
    intro hempty
    rw [hempty] at hreceived
    obtain ⟨hnone, hquiet⟩ := List.append_eq_nil_iff.mp hreceived.symm
    rw [store_replay, hreachable.computeLayout_run hf hquiet]
    exact hlayout hnone

/-- Some edit among the steps has been granted, and it is not for a new tag. -/
def HasNews (w : Workspace) (steps : List Step) : Prop :=
  ∃ earlier request later, steps = earlier ++ .edited request :: later ∧
    (w.replay earlier).store.Admits request ∧ ∀ leaf tag, request ≠ .retag leaf tag

theorem hasNews_cons {step : Step} :
    w.HasNews (step :: steps) ↔
      (∃ request, step = .edited request ∧ w.store.Admits request ∧
        ∀ leaf tag, request ≠ .retag leaf tag) ∨ (step.on w).HasNews steps := by
  constructor
  · rintro ⟨_ | ⟨first, earlier⟩, request, later, heq, hadmits, htag⟩
    · exact .inl ⟨request, (List.cons.inj heq).1, hadmits, htag⟩
    · obtain ⟨rfl, rfl⟩ := List.cons.inj heq
      exact .inr ⟨earlier, request, later, rfl, hadmits, htag⟩
  · rintro (⟨request, rfl, hadmits, htag⟩ | ⟨earlier, request, later, rfl, hadmits, htag⟩)
    · exact ⟨[], request, steps, rfl, hadmits, htag⟩
    · exact ⟨step :: earlier, request, later, rfl, hadmits, htag⟩

/-- There is news if and only if something is announced. -/
theorem hasNews_iff (h : w.store.Reachable) (hf : w.store.FreshDraws (requests steps)) :
    w.HasNews steps ↔ w.store.announced (requests steps) ≠ [] := by
  induction steps generalizing w with
  | nil => simp [HasNews, requests, Store.announced]
  | cons step steps ih =>
    rw [requests_cons, Store.freshDraws_append, ← step.store_on] at hf
    have hreachable : (step.on w).store.Reachable := by
      rw [step.store_on]
      exact h.run hf.1
    rw [hasNews_cons, ih hreachable hf.2, requests_cons, Store.announced_append, ← step.store_on,
      Ne, Ne, List.append_eq_nil_iff, not_and_or]
    refine or_congr_left ?_
    cases step with
    | edited request =>
      obtain ⟨t, ht⟩ := h.represents
      have hfirst : w.store.announced (Step.request? (.edited request)).toList =
          (w.store.announcement request).toList := List.append_nil _
      rw [hfirst, Option.toList_eq_nil_iff, ht.announcement_eq_none_iff]
      simp
    | _ => simp [Step.request?, Store.announced]

end Workspace

namespace Container

variable {c c' : Container}

/-- The layout is that of the tree, and nothing is waiting. -/
structure Fresh (c : Container) : Prop where
  drained : c.workspace.feed.pending? c.channel = some []
  layout : c.workspace.store.computeLayout = .ok c.layout
  pages : c.pageIds = c.workspace.store.leafIds

/-- A change is waiting, or the container is fresh. -/
def Current (c : Container) : Prop :=
  (∃ change queue, c.workspace.feed.pending? c.channel = some (change :: queue)) ∨ c.Fresh

/-- What holds between any two calls: no drained change is left over. -/
structure Attends (c : Container) : Prop where
  awake : c.stale = false
  covers : c.workspace.Covers c.channel c.layout

theorem fresh_of_computeLayout (hdrained : c.workspace.feed.pending? c.channel = some [])
    (hlayout : c.workspace.store.computeLayout = .ok c.layout) : c.Fresh :=
  ⟨hdrained, hlayout, Store.ids_pages_of_computeLayout hlayout⟩

theorem Attends.current (h : c.Attends) : c.Current := by
  obtain ⟨queue, hqueue, hlayout⟩ := h.covers.waiting
  cases queue with
  | nil => exact .inr (fresh_of_computeLayout hqueue (hlayout rfl))
  | cons change queue => exact .inl ⟨change, queue, hqueue⟩

theorem Fresh.attends (h : c.Fresh) (hawake : c.stale = false)
    (hreachable : c.workspace.store.Reachable) : c.Attends :=
  ⟨hawake, hreachable, [], h.drained, fun _ => h.layout⟩

theorem pending?_drained (c : Container) :
    c.drained.workspace.feed.pending? c.channel =
      (c.workspace.feed.pending? c.channel).map fun _ => [] :=
  Feed.pending?_clear_self c.workspace.feed c.channel

theorem Attends.refresh_run (h : c.Attends) {queue : List Change}
    (hqueue : c.workspace.feed.pending? c.channel = some queue) :
    ∃ anew c', refresh.run c = .ok anew c' ∧ c'.Attends ∧ c'.Fresh ∧
      (anew = true ↔ queue ≠ []) := by
  obtain ⟨hawake, hreachable, queue', hqueue', hlayout⟩ := h
  obtain rfl : queue = queue' := Option.some.inj (hqueue.symm.trans hqueue')
  have hdrained : c.drained.workspace.feed.pending? c.channel = some [] := by
    rw [pending?_drained, hqueue, Option.map_some]
  have hstale : c.drained.stale = !queue.isEmpty := by
    rw [Container.drained, hqueue, hawake, Bool.false_or, Option.getD_some]
  rw [Container.refresh_run, hstale]
  cases queue with
  | nil =>
    have hfresh : c.drained.Fresh := fresh_of_computeLayout hdrained (hlayout rfl)
    exact ⟨false, c.drained, rfl, hfresh.attends hstale hreachable, hfresh, by simp⟩
  | cons change queue =>
    obtain ⟨t, ht⟩ := hreachable.represents
    have hcompute : c.drained.workspace.store.computeLayout = .ok t.layout :=
      ht.toShows.computeLayout_eq
    have hfresh : Fresh { c.drained with layout := t.layout, stale := false } :=
      fresh_of_computeLayout hdrained hcompute
    rw [hcompute]
    exact ⟨true, _, rfl, hfresh.attends rfl hreachable, hfresh, by simp⟩

theorem Attends.refreshed (h : c.Attends) :
    (left (Command.refresh.action.run c)).Attends ∧
      ∀ c', Command.refresh.action.run c = .ok ⟨⟩ c' → c'.Fresh := by
  obtain ⟨queue, hqueue, -⟩ := h.covers.waiting
  obtain ⟨anew, c', hrun, hattends, hfresh, -⟩ := h.refresh_run hqueue
  have haction : Command.refresh.action.run c = .ok ⟨⟩ c' := by
    rw [Command.action, EStateM.run_bind, hrun]
    rfl
  rw [haction]
  refine ⟨hattends, ?_⟩
  rintro _ ⟨⟩
  exact hfresh

theorem Attends.replay {steps : List Workspace.Step} {workspace : Workspace} (h : c.Attends)
    (hworkspace : c.workspace.replay steps = workspace)
    (hf : c.workspace.store.FreshDraws (Workspace.requests steps))
    (hhangs : ∀ step ∈ steps, ¬step.hangsUp c.channel)
    (hdrains : ∀ step ∈ steps, ¬step.drains c.channel) : Attends { c with workspace } := by
  subst hworkspace
  exact ⟨h.awake, h.covers.replay hf hhangs hdrains⟩

/-- A call of the container is lost or refused, or it goes on to a refresh; by then listeners may
have made edits of their own. -/
theorem Attends.own {command : Command} (h : c.Attends)
    (hf : c.workspace.store.FreshDraws (Workspace.requests (command.steps c)))
    (hhangs : ∀ step ∈ command.steps c, ¬step.hangsUp c.channel) :
    (left (command.action.run c)).Attends ∧
      ∀ c', command.action.run c = .ok ⟨⟩ c' → c'.Fresh := by
  have hperformed {request : Edit} {answer : Except LayoutFault Receipt} {workspace : Workspace}
      (hedit : command.edit? c = some request)
      (hperform : c.workspace.perform request = (answer, workspace)) :
      Attends { c with workspace } := by
    rw [Command.steps, hedit] at hf hhangs
    rw [Workspace.requests_append, Store.freshDraws_append] at hf
    rw [List.forall_mem_append] at hhangs
    have hdrains : ¬Workspace.Call.drains c.channel (.perform request) := Bool.false_ne_true
    exact h.replay (replay_perform hperform) hf.1 hhangs.1
      (Workspace.Call.not_drains_steps hdrains _)
  -- whether a call succeeds is read off the way in which it goes
  have hgoes := command.goes c
  generalize command.action.run c = result at hgoes ⊢
  cases hgoes with
  | lost fault hcommand hedit => exact ⟨h, by rintro _ ⟨⟩⟩
  | refused hedit hperform => exact ⟨hperformed hedit hperform, by rintro _ ⟨⟩⟩
  | granted hedit hperform => exact (hperformed hedit hperform).refreshed
  | refreshed => exact h.refreshed

/-- Somebody else drains the channel of the container. -/
def Move.steals (channel : ChannelId) : Move → Bool
  | own _ => false
  | shared call => call.drains channel

/-- The container has its channel to itself, and every identity that is drawn is new. -/
structure Undisturbed (c : Container) (moves : List Move) : Prop where
  draws : c.workspace.store.FreshDraws (Workspace.requests (c.steps moves))
  kept : ∀ step ∈ c.steps moves, ¬step.hangsUp c.channel
  own : ∀ move ∈ moves, ¬move.steals c.channel

/-- What is assumed of a run can be assumed of either part of it. -/
theorem Undisturbed.of_append {moves moves' : List Move} (h : c.Undisturbed (moves ++ moves')) :
    c.Undisturbed moves ∧ (c.run moves).Undisturbed moves' := by
  obtain ⟨hdraws, hkept, hown⟩ := h
  rw [steps_append, Workspace.requests_append, Store.freshDraws_append, ← Workspace.store_replay,
    ← workspace_run] at hdraws
  rw [steps_append, List.forall_mem_append] at hkept
  rw [List.forall_mem_append] at hown
  refine ⟨⟨hdraws.1, hkept.1, hown.1⟩, hdraws.2, ?_, ?_⟩
  · rw [channel_run]
    exact hkept.2
  · rw [channel_run]
    exact hown.2

theorem Attends.on {move : Move} (h : c.Attends) (hmove : c.Undisturbed [move]) :
    (move.on c).Attends := by
  obtain ⟨hdraws, hkept, hown⟩ := hmove
  rw [steps, steps, List.append_nil] at hdraws hkept
  cases move with
  | own command => exact (h.own hdraws hkept).1
  | shared call =>
    exact h.replay (call.on_eq_replay c.workspace).symm hdraws hkept
      (Workspace.Call.not_drains_steps (hown _ List.mem_cons_self) _)

theorem Attends.run {moves : List Move} (h : c.Attends) (hmoves : c.Undisturbed moves) :
    (c.run moves).Attends := by
  induction moves generalizing c with
  | nil => exact h
  | cons move moves ih =>
    have hparts : c.Undisturbed ([move] ++ moves) := hmoves
    exact ih (h.on hparts.of_append.1) hparts.of_append.2

theorem attends_of_ofWorkspace {w : Workspace} (hreachable : w.store.Reachable)
    (hnumbered : w.feed.Numbered) (h : ofWorkspace w = .ok c) :
    c.Attends ∧ c.workspace.feed.pending? c.channel = some [] := by
  obtain ⟨layout, hlayout, hc⟩ := bind_eq_ok.mp h
  obtain rfl := Except.ok.inj hc
  have hempty := Feed.pending?_subscribe_self hnumbered
  exact ⟨⟨rfl, hreachable, [], hempty, fun _ => hlayout⟩, hempty⟩

/-- Steps cut where a channel was last drained, or at the start if it never was. -/
structure CutsAtDraining (channel : ChannelId) (steps before since : List Workspace.Step) :
    Prop where
  parts : steps = before ++ since
  drained : before = [] ∨ ∃ rest, before = rest ++ [.drained channel]
  undrained : ∀ step ∈ since, ¬step.drains channel

theorem exists_cut (channel : ChannelId) (steps : List Workspace.Step) :
    ∃ before since, CutsAtDraining channel steps before since := by
  induction steps with
  | nil => exact ⟨[], [], rfl, .inl rfl, List.forall_mem_nil _⟩
  | cons step steps ih =>
    obtain ⟨before, since, rfl, hbefore, hsince⟩ := ih
    rcases hbefore with rfl | ⟨rest, rfl⟩
    · by_cases hstep : step.drains channel
      · obtain rfl := Workspace.Step.eq_drained hstep
        exact ⟨[.drained channel], since, rfl, .inr ⟨[], rfl⟩, hsince⟩
      · exact ⟨[], step :: since, rfl, .inl rfl, List.forall_mem_cons.mpr ⟨hstep, hsince⟩⟩
    · exact ⟨step :: rest ++ [.drained channel], since, rfl, .inr ⟨step :: rest, rfl⟩, hsince⟩

/-- After its last draining a channel holds what has been announced since. -/
theorem CutsAtDraining.pending? {w : Workspace} {channel : ChannelId}
    {steps before since : List Workspace.Step} (hcut : CutsAtDraining channel steps before since)
    (h : w.feed.pending? channel = some [])
    (hhangs : ∀ step ∈ steps, ¬step.hangsUp channel) :
    (w.replay steps).feed.pending? channel =
      some ((w.replay before).store.announced (Workspace.requests since)) := by
  obtain ⟨rfl, hbefore, hdrains⟩ := hcut
  rw [List.forall_mem_append] at hhangs
  -- the channel is empty at the cut: it was then drained, or it was new
  have hempty : (w.replay before).feed.pending? channel = some [] := by
    rcases hbefore with rfl | ⟨rest, rfl⟩
    · exact h
    · obtain ⟨queue, hqueue, -⟩ := Workspace.exists_pending_replay h
        (List.forall_mem_append.mp hhangs.1).1
      rw [Workspace.replay_append]
      refine (Feed.pending?_clear_self _ channel).trans ?_
      rw [hqueue, Option.map_some]
  obtain ⟨queue, hqueue, hreceived⟩ := Workspace.exists_pending_replay hempty hhangs.2
  rw [Workspace.taken_eq_nil hdrains, List.nil_append, List.nil_append] at hreceived
  rw [Workspace.replay_append, hqueue, hreceived]

/-- What a container can be relied on for, at every point of a run. -/
structure Serves (c : Container) (moves : List Move) : Prop where
  current : ∀ earlier later, moves = earlier ++ later → (c.run earlier).Current
  /-- A call that succeeds leaves a fresh layout. -/
  renews : ∀ earlier command later, moves = earlier ++ .own command :: later →
    ∀ c', command.action.run (c.run earlier) = .ok ⟨⟩ c' → c'.Fresh
  /-- A refresh does not fail, and tells whether anything has happened since the channel was last
  drained. -/
  tells : ∀ earlier later, moves = earlier ++ .own .refresh :: later →
    ∃ anew c' before since, refresh.run (c.run earlier) = .ok anew c' ∧
      CutsAtDraining c.channel (c.steps earlier) before since ∧
      (anew = true ↔ (c.workspace.replay before).HasNews since)

theorem serves_of_attends {moves : List Move} (h : c.Attends)
    (hempty : c.workspace.feed.pending? c.channel = some []) (hmoves : c.Undisturbed moves) :
    c.Serves moves := by
  constructor
  · rintro earlier later rfl
    exact (h.run hmoves.of_append.1).current
  · rintro earlier command later rfl
    obtain ⟨hearlier, hdraws, hkept, -⟩ := hmoves.of_append
    rw [steps, Workspace.requests_append, Store.freshDraws_append] at hdraws
    rw [steps, List.forall_mem_append] at hkept
    exact ((h.run hearlier).own hdraws.1 hkept.1).2
  · rintro earlier later rfl
    obtain ⟨hearlier, -⟩ := hmoves.of_append
    have hattends := h.run hearlier
    obtain ⟨queue, hqueue, -⟩ := hattends.covers.waiting
    obtain ⟨anew, c', hrun, -, -, hanew⟩ := hattends.refresh_run hqueue
    obtain ⟨before, since, hcut⟩ := exists_cut c.channel (c.steps earlier)
    refine ⟨anew, c', before, since, hrun, hcut, ?_⟩
    rw [workspace_run, channel_run, hcut.pending? hempty hearlier.kept] at hqueue
    obtain rfl := Option.some.inj hqueue
    have hdraws := hearlier.draws
    rw [hcut.parts, Workspace.requests_append, Store.freshDraws_append] at hdraws
    have hreachable : (c.workspace.replay before).store.Reachable := by
      rw [Workspace.store_replay]
      exact h.covers.reachable.run hdraws.1
    rw [← Workspace.store_replay] at hdraws
    rw [hanew, Workspace.hasNews_iff hreachable hdraws.2]

/-- The edit that a call asks for, if it asks for one, is not granted. -/
def Command.Rejected (c : Container) (command : Command) : Prop :=
  command ≠ .refresh ∧ ∀ request, command.edit? c = some request →
    ¬c.workspace.store.Admits request

/-- The layout could not be computed, with the queue drained already. The next refresh computes it,
whatever the tree is by then. -/
structure Owes (c : Container) (fault : LayoutFault) : Prop where
  failed : c.workspace.store.computeLayout = .error fault
  drained : ∀ queue, c.workspace.feed.pending? c.channel = some queue → queue = []
  retries : ∀ workspace, refresh.run { c with workspace } =
    match workspace.store.computeLayout with
    | .ok layout =>
      .ok true { c with workspace := (workspace.drain c.channel).2, layout, stale := false }
    | .error again => .error again { c with workspace := (workspace.drain c.channel).2 }

theorem drained_of_stale (h : c.stale = true) :
    c.drained = { c with workspace := (c.workspace.drain c.channel).2 } := by
  rw [Container.drained, h, Bool.true_or, ← h]

theorem owes_of_refresh {fault : LayoutFault}
    (h : Command.refresh.action.run c = .error fault c') :
    c'.layout = c.layout ∧ c'.Owes fault := by
  rw [Command.action, EStateM.run_bind, Container.refresh_run] at h
  cases hstale : c.drained.stale with
  | false =>
    rw [hstale] at h
    contradiction
  | true =>
    rw [if_pos hstale] at h
    cases hlayout : c.drained.workspace.store.computeLayout with
    | ok layout =>
      rw [hlayout] at h
      contradiction
    | error fault' =>
      rw [hlayout] at h
      obtain ⟨rfl, rfl⟩ := EStateM.Result.error.inj h
      refine ⟨rfl, hlayout, ?_, ?_⟩
      · intro queue hqueue
        have hpending := c.pending?_drained.symm.trans hqueue
        obtain ⟨-, -, hempty⟩ := Option.map_eq_some_iff.mp hpending
        exact hempty.symm
      · intro workspace
        rw [Container.refresh_run, drained_of_stale (c := { c.drained with workspace }) hstale,
          if_pos hstale]
        rfl

/-- A call that fails keeps the layout. Either its edit was rejected, or the layout could not be
computed and is still to come. -/
theorem Command.owes_of_error {command : Command} {fault : LayoutFault}
    (h : command.action.run c = .error fault c') :
    c'.layout = c.layout ∧ (command.Rejected c ∨ c'.Owes fault) := by
  have hgoes := command.goes c
  generalize command.action.run c = result at h hgoes
  cases hgoes with
  | lost fault' hcommand hedit =>
    obtain ⟨rfl, rfl⟩ := EStateM.Result.error.inj h
    refine ⟨rfl, .inl ⟨hcommand, ?_⟩⟩
    intro request hrequest
    simp [hedit] at hrequest
  | @refused command request fault' workspace hedit hperform =>
    obtain ⟨rfl, rfl⟩ := EStateM.Result.error.inj h
    refine ⟨rfl, .inl ⟨?_, ?_⟩⟩
    · rintro rfl
      contradiction
    · intro request' hrequest
      obtain rfl := Option.some.inj (hedit.symm.trans hrequest)
      exact not_admits_of_perform hperform
  | granted hedit hperform =>
    obtain ⟨hlayout, howes⟩ := owes_of_refresh h
    exact ⟨hlayout, .inr howes⟩
  | refreshed =>
    obtain ⟨hlayout, howes⟩ := owes_of_refresh h
    exact ⟨hlayout, .inr howes⟩

theorem exists_error_of_computeLayout {fault : LayoutFault}
    (h : c.workspace.store.computeLayout = .error fault) (hstale : c.drained.stale = true) :
    ∃ c', Command.refresh.action.run c = .error fault c' := by
  have hcompute : c.drained.workspace.store.computeLayout = .error fault := h
  refine ⟨c.drained, ?_⟩
  rw [Command.action, EStateM.run_bind, Container.refresh_run, if_pos hstale, hcompute]

/-- A container that was made for the tree of any workspace, whatever was done there before, serves
its user over any calls of its own and of others, as long as nobody else gets hold of its channel.
On any container, of a consistent tree or not, a refresh that has to compute a layout fails if that
fails, a call that fails keeps the layout, and the next refresh makes up for what is missing. -/
theorem run_serves {w : Workspace} {calls : List Workspace.Call} {moves : List Move}
    (h : w.IsNew) (hf : w.store.FreshDraws (Workspace.requests (w.steps calls)))
    (hc : ofWorkspace (w.run calls) = .ok c) (hmoves : c.Undisturbed moves) :
    c.Serves moves ∧
      (∀ (d : Container) (fault : LayoutFault),
        d.workspace.store.computeLayout = .error fault → d.drained.stale = true →
          ∃ d', Command.refresh.action.run d = .error fault d') ∧
      ∀ (d d' : Container) (command : Command) (fault : LayoutFault),
        command.action.run d = .error fault d' →
          d'.layout = d.layout ∧ (command.Rejected d ∨ d'.Owes fault) := by
  refine ⟨?_, fun d fault => exists_error_of_computeLayout,
    fun d d' command fault => Command.owes_of_error⟩
  have hreachable : (w.run calls).store.Reachable := by
    rw [Workspace.run_eq_replay]
    exact h.reachable hf
  have hnumbered : (w.run calls).feed.Numbered := by
    rw [Workspace.run_eq_replay]
    exact h.numbered _
  obtain ⟨hattends, hempty⟩ := attends_of_ofWorkspace hreachable hnumbered hc
  exact serves_of_attends hattends hempty hmoves

/-- A split of its own, which a listener answers with news of the root, a split of somebody else,
which it answers with a resize, a call that is rejected, and two refreshes with a new tag in
between; and a refresh on a tree with wrong links. -/
theorem run_serves_shared :
    let id (n : Nat) : NodeId := ⟨.ofNat n⟩
    let w := Workspace.ofLeaf (.fresh (id 1)) .default
    let calls : List Workspace.Call := [.listen Workspace.counting]
    let c : Container :=
      ⟨(w.run calls).subscribe.2, ⟨0⟩, (PaneTree.leaf (Leaf.fresh (id 1)).pane).layout, false⟩
    let moves : List Move := [.own (.split ⟨id 1, 0.5, .vertical⟩ (id 2) (id 3)),
      .shared (.perform (.split (id 2) .horizontal 0.25 (.fresh (id 4)) (id 5))),
      .own (.removePage (id 9)), .own .refresh,
      .shared (.perform (.retag (id 4) none)), .own .refresh]
    let broken : Container :=
      { c with workspace := { c.workspace with store := Store.crossedLinks }, stale := true }
    c.Serves moves ∧ (c.run moves).pageIds = [id 1, id 2, id 4] ∧
      ∃ fault d, Command.refresh.action.run broken = .error fault d ∧
        d.layout = c.layout ∧ d.Owes fault := by
  intro id w calls c moves broken
  have hc : ofWorkspace (w.run calls) = .ok c := rfl
  have hmoves : c.Undisturbed moves := ⟨by decide +kernel, by decide +kernel, by decide⟩
  obtain ⟨hserves, hfails, hkeeps⟩ :=
    run_serves (Workspace.isNew_ofLeaf _ _) (by decide) hc hmoves
  obtain ⟨fault, hfault⟩ : ∃ fault, broken.workspace.store.computeLayout = .error fault :=
    ⟨_, rfl⟩
  obtain ⟨d, hd⟩ := hfails broken fault hfault rfl
  obtain ⟨hlayout, hrejected | howes⟩ := hkeeps broken d .refresh fault hd
  · exact absurd rfl hrejected.1
  · exact ⟨hserves, by decide +kernel, fault, d, hd, hlayout, howes⟩

end Container

end PaneGrid
