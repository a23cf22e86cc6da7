import PaneGrid.Proofs.Roster
import PaneGrid.Proofs.Steps

/-! What a channel receives over a run in which listeners edit, register, unregister and subscribe
on their own: every change that takes effect while the channel is there, once and in order. -/

namespace PaneGrid

/-- A channel of this identity whose receiving end still exists. -/
def Channel.serves (id : ChannelId) (c : Channel) : Bool := c.id = id && c.connected

theorem Channel.id_of_serves {id : ChannelId} {c : Channel} (h : c.serves id = true) :
    c.id = id :=
  of_decide_eq_true (Bool.and_eq_true_iff.mp h).1

namespace Feed

variable {f : Feed} {id other : ChannelId} {queue : List Change}

section Numbering

/-- The identities of the channels have been given out before. -/
def Numbered (f : Feed) : Prop := ∀ c ∈ f.channels, c.id.number < f.nextChannel

theorem numbered_empty : empty.Numbered := nofun

theorem Numbered.subscribe (h : f.Numbered) : f.subscribe.2.Numbered := by
  intro c hc
  rcases List.mem_append.mp hc with hc | hc
  · exact Nat.lt_succ_of_lt (h c hc)
  · obtain rfl := List.mem_singleton.mp hc
    exact Nat.lt_succ_self _

theorem Numbered.map (h : f.Numbered) {g : Channel → Channel} (hg : ∀ c, (g c).id = c.id) :
    Numbered { f with channels := f.channels.map g } := by
  intro c hc
  obtain ⟨old, hold, rfl⟩ := List.mem_map.mp hc
  rw [hg]
  exact h old hold

theorem Numbered.hangUp (h : f.Numbered) (id : ChannelId) : (f.hangUp id).Numbered := by
  apply h.map
  intro c
  split <;> rfl

theorem Numbered.clear (h : f.Numbered) (id : ChannelId) : (f.clear id).Numbered := by
  apply h.map
  intro c
  split <;> rfl

theorem Numbered.send (h : f.Numbered) (change : Change) : (f.send change).Numbered := by
  have hconnected : Numbered { f with channels := f.channels.filter Channel.connected } :=
    fun c hc => h c (List.mem_of_mem_filter hc)
  exact hconnected.map fun _ => rfl

end Numbering

section Pending

/-- Work on the channels that leaves identities and receiving ends alone works on the queues. -/
theorem pending?_map {g : Channel → Channel} {k : List Change → List Change}
    (hg : ∀ c, (g c).serves id = c.serves id)
    (hk : ∀ c, c.serves id = true → (g c).queue = k c.queue) :
    pending? { f with channels := f.channels.map g } id = (f.pending? id).map k := by
  have hserves : Channel.serves id ∘ g = Channel.serves id := funext hg
  change ((f.channels.map g).find? (Channel.serves id)).map Channel.queue =
    ((f.channels.find? (Channel.serves id)).map Channel.queue).map k
  rw [List.find?_map, hserves, Option.map_map, Option.map_map]
  apply Option.map_congr
  intro c hc
  exact hk c (List.find?_some hc)

theorem pending?_connected (f : Feed) (id : ChannelId) :
    pending? { f with channels := f.channels.filter Channel.connected } id = f.pending? id := by
  have hserves (c : Channel) :
      decide (c.connected = true ∧ c.serves id = true) = c.serves id := by
    cases h : c.connected <;> simp [Channel.serves, h]
  change ((f.channels.filter Channel.connected).find? (Channel.serves id)).map Channel.queue =
    (f.channels.find? (Channel.serves id)).map Channel.queue
  rw [List.find?_filter]
  simp only [hserves]

theorem pending?_send (f : Feed) (change : Change) (id : ChannelId) :
    (f.send change).pending? id = (f.pending? id).map (· ++ [change]) := by
  let connected : Feed := { f with channels := f.channels.filter Channel.connected }
  have hsent : (f.send change).pending? id = (connected.pending? id).map (· ++ [change]) :=
    pending?_map (f := connected) (g := fun c => { c with queue := c.queue ++ [change] })
      (k := (· ++ [change])) (fun _ => rfl) fun _ _ => rfl
  rw [hsent, pending?_connected]

theorem pending?_subscribe (h : f.pending? id = some queue) :
    f.subscribe.2.pending? id = some queue := by
  obtain ⟨c, hc, rfl⟩ := Option.map_eq_some_iff.mp h
  change ((f.channels ++ [_]).find? (Channel.serves id)).map Channel.queue = _
  rw [List.find?_append, show f.channels.find? (Channel.serves id) = some c from hc]
  rfl

/-- A new channel is empty, and no older one is taken for it. -/
theorem pending?_subscribe_self (h : f.Numbered) :
    f.subscribe.2.pending? f.subscribe.1 = some [] := by
  have hnone : f.channels.find? (Channel.serves f.subscribe.1) = none := by
    rw [List.find?_eq_none]
    intro c hc hserves
    have hlt := h c hc
    rw [Channel.id_of_serves hserves] at hlt
    exact Nat.lt_irrefl _ hlt
  change ((f.channels ++ [_]).find? (Channel.serves f.subscribe.1)).map Channel.queue = _
  rw [List.find?_append, hnone]
  simp [Channel.serves, subscribe]

theorem pending?_hangUp (h : other ≠ id) : (f.hangUp other).pending? id = f.pending? id := by
  refine (pending?_map (k := fun queue => queue) ?_ ?_).trans Option.map_id'
  · intro c
    by_cases hc : c.id = other
    · simp [Channel.serves, hc, h]
    · simp [hc]
  · intro c _
    split <;> rfl

theorem pending?_clear (h : other ≠ id) : (f.clear other).pending? id = f.pending? id := by
  refine (pending?_map (k := fun queue => queue) ?_ ?_).trans Option.map_id'
  · intro c
    split <;> rfl
  · intro c hc
    have hne : c.id ≠ other := by
      rw [Channel.id_of_serves hc]
      exact h.symm
    rw [if_neg hne]

theorem pending?_clear_self (f : Feed) (id : ChannelId) :
    (f.clear id).pending? id = (f.pending? id).map fun _ => [] := by
  refine pending?_map (k := fun _ => []) ?_ ?_
  · intro c
    split <;> rfl
  · intro c hc
    rw [if_pos (Channel.id_of_serves hc)]

end Pending

end Feed

namespace Workspace

variable {w : Workspace} {channel : ChannelId} {queue : List Change} {step : Step}
  {steps : List Step}

theorem Step.feed_edited (w : Workspace) (request : Edit) :
    (Step.on w (.edited request)).feed =
      (w.store.announcement request).elim w.feed w.feed.send := by
  change (commit send request w).2.feed = _
  rw [commit]
  cases hrun : (Store.perform request).run w.store with
  | error fault s' => rw [Store.announcement_of_error hrun, Option.elim_none]
  | ok answer s' =>
    obtain ⟨receipt, change⟩ := answer
    rw [Store.announcement_of_ok hrun]
    cases change <;> rfl

theorem Step.numbered_on (h : w.feed.Numbered) (step : Step) : (step.on w).feed.Numbered := by
  cases step with
  | edited request =>
    rw [feed_edited]
    cases w.store.announcement request with
    | none => exact h
    | some change => exact h.send change
  | subscribed => exact h.subscribe
  | hungUp other => exact h.hangUp other
  | drained other => exact h.clear other
  | called | noted | listened | unlistened | turned | cutShort => exact h

theorem numbered_replay (h : w.feed.Numbered) (steps : List Step) :
    (w.replay steps).feed.Numbered := by
  induction steps generalizing w with
  | nil => exact h
  | cons step steps ih => exact ih (step.numbered_on h)

/-- What a step takes out of a channel. -/
def Step.taken (channel : ChannelId) (w : Workspace) : Step → List Change
  | drained other => if other = channel then (w.feed.pending? channel).getD [] else []
  | _ => []

/-- What is taken out of a channel over some steps. -/
def taken (channel : ChannelId) (w : Workspace) : List Step → List Change
  | [] => []
  | step :: steps => step.taken channel w ++ taken channel (step.on w) steps

theorem taken_eq_nil (h : ∀ step ∈ steps, ¬step.drains channel) (w : Workspace) :
    taken channel w steps = [] := by
  induction steps generalizing w with
  | nil => rfl
  | cons step steps ih =>
    rw [List.forall_mem_cons] at h
    have hstep : step.taken channel w = [] := by
      cases step with
      | drained other => exact if_neg fun he => h.1 (decide_eq_true he)
      | _ => rfl
    rw [taken, hstep, ih h.2, List.append_nil]

/-- Whatever a step announces is queued, and nothing else is; only draining takes anything out. -/
theorem Step.exists_pending (h : w.feed.pending? channel = some queue)
    (hstep : ¬step.hangsUp channel) :
    ∃ queue', (step.on w).feed.pending? channel = some queue' ∧
      step.taken channel w ++ queue' = queue ++ w.store.announced step.request?.toList := by
  have hquiet (w' : Workspace) (hw : w'.feed.pending? channel = w.feed.pending? channel) :
      ∃ queue', w'.feed.pending? channel = some queue' ∧
        [] ++ queue' = queue ++ w.store.announced [] :=
    ⟨queue, hw.trans h, (List.append_nil queue).symm⟩
  cases step with
  | edited request =>
    have hsent : w.store.announced [request] = (w.store.announcement request).toList :=
      List.append_nil _
    rw [feed_edited, request?, Option.toList_some, hsent]
    cases w.store.announcement request with
    | none => exact ⟨queue, h, (List.append_nil queue).symm⟩
    | some change =>
      refine ⟨queue ++ [change], ?_, rfl⟩
      rw [Option.elim_some, Feed.pending?_send, h, Option.map_some]
  | subscribed => exact hquiet _ (by rw [h]; exact Feed.pending?_subscribe h)
  | hungUp other =>
    have hne : other ≠ channel := fun he => hstep (decide_eq_true he)
    exact hquiet _ (Feed.pending?_hangUp hne)
  | drained other =>
    by_cases hother : other = channel
    · subst hother
      refine ⟨[], ?_, ?_⟩
      · exact (Feed.pending?_clear_self w.feed other).trans (by rw [h, Option.map_some])
      · rw [taken, if_pos rfl, h]
        rfl
    · rw [taken, if_neg hother]
      exact hquiet _ (Feed.pending?_clear hother)
  | called | noted | listened | unlistened | turned | cutShort => exact hquiet _ rfl

/-- Over a run: what was there and what is announced is taken out in this order, or still queued. -/
theorem exists_pending_replay (h : w.feed.pending? channel = some queue)
    (hsteps : ∀ step ∈ steps, ¬step.hangsUp channel) :
    ∃ queue', (w.replay steps).feed.pending? channel = some queue' ∧
      taken channel w steps ++ queue' = queue ++ w.store.announced (requests steps) := by
  induction steps generalizing w queue with
  | nil => exact ⟨queue, h, (List.append_nil queue).symm⟩
  | cons step steps ih =>
    rw [List.forall_mem_cons] at hsteps
    obtain ⟨queue₁, hq₁, htaken₁⟩ := Step.exists_pending h hsteps.1
    obtain ⟨queue₂, hq₂, htaken₂⟩ := ih hq₁ hsteps.2
    refine ⟨queue₂, hq₂, ?_⟩
    rw [taken, List.append_assoc, htaken₂, ← List.append_assoc, htaken₁, List.append_assoc,
      step.store_on, requests_cons, ← Store.announced_append]

/-- Nothing has been done yet: the tree is a single leaf, and there is nobody to be told. -/
structure IsNew (w : Workspace) : Prop where
  store : ∃ root, w.store = .ofLeaf root
  feed : w.feed = .empty

theorem isNew_ofLeaf (root : Leaf) (settings : Settings) : (ofLeaf root settings).IsNew :=
  ⟨⟨root, rfl⟩, rfl⟩

theorem IsNew.reachable (h : w.IsNew) (hf : w.store.FreshDraws (requests steps)) :
    (w.replay steps).store.Reachable := by
  obtain ⟨root, hroot⟩ := h.store
  rw [store_replay]
  rw [hroot] at hf ⊢
  exact (Store.Reachable.start root).run hf

theorem IsNew.numbered (h : w.IsNew) (steps : List Step) : (w.replay steps).feed.Numbered := by
  apply numbered_replay
  rw [h.feed]
  exact Feed.numbered_empty

/-- What was received tells all that has happened to the store over some steps. -/
structure Relays (w : Workspace) (steps : List Step) (received : List Change) : Prop where
  /-- Every change that took effect is there, once and in order. -/
  complete : received = w.store.announced (requests steps)
  /-- Its node is as the store had it from then on. -/
  shown : ∀ earlier request later, steps = earlier ++ .edited request :: later →
    ∀ change, (w.replay earlier).store.announcement request = some change →
      change.Shown (w.replay (earlier ++ [.edited request])).store

/-- What was received is enough to follow the leaves of the tree, the messages about the root set
aside. -/
structure Tallies (w : Workspace) (steps : List Step) (received : List Change) : Prop where
  aside : received.filter (!·.isRootNews) =
    w.store.announced ((requests steps).filter (· ≠ .announce))
  leaves : ∃ roster, (Roster.mk w.store.leafIds w.store.retired).takeAll received = some roster ∧
    roster.present.Perm (w.replay steps).store.leafIds

theorem relays_announced (w : Workspace) (steps : List Step) :
    w.Relays steps (w.store.announced (requests steps)) where
  complete := rfl
  shown earlier request later _ change hchange := by
    rw [replay_append, replay_cons, replay_nil, Step.store_on]
    exact Store.shown_of_announcement hchange

theorem tallies_announced (h : w.store.Reachable) (hf : w.store.FreshDraws (requests steps)) :
    w.Tallies steps (w.store.announced (requests steps)) where
  aside := h.announced_filter hf
  leaves := by
    obtain ⟨roster, htake, hfits⟩ := h.takeAll_announced hf w.store.fits_leafIds
    refine ⟨roster, htake, ?_⟩
    rw [store_replay]
    exact hfits.present

/-- Over a run of any calls with any listeners, whatever state these keep, a channel receives every
change that takes effect after its subscription, until it is hung up: once, in order, and with the
node as it then was. The leaves at the time of the subscription and what was received since make the
leaves of the tree. -/
theorem run_relays {calls : List Call} {before mid rest : List Step} {joined : Workspace}
    (h : w.IsNew) (hsteps : w.steps calls = before ++ .subscribed :: (mid ++ rest))
    (hjoined : (w.replay before).subscribe = (channel, joined))
    (hmid : ∀ step ∈ mid, ¬step.hangsUp channel) :
    w.run calls = joined.replay (mid ++ rest) ∧
      ∃ pending, (joined.replay mid).feed.pending? channel = some pending ∧
        joined.Relays mid (taken channel joined mid ++ pending) ∧
        (w.store.FreshDraws (requests (w.steps calls)) →
          joined.Tallies mid (taken channel joined mid ++ pending)) := by
  have hstep : Step.subscribed.on (w.replay before) = joined := congrArg Prod.snd hjoined
  have hempty : joined.feed.pending? channel = some [] := by
    obtain ⟨rfl, rfl⟩ := Prod.mk.inj hjoined
    exact Feed.pending?_subscribe_self (h.numbered before)
  -- whatever the channel has received since it was empty is what has been announced
  obtain ⟨pending, hpending, hreceived⟩ := exists_pending_replay hempty hmid
  rw [List.nil_append] at hreceived
  refine ⟨?_, pending, hpending, ?_, ?_⟩
  · rw [run_eq_replay, hsteps, replay_append, replay_cons, hstep]
  · rw [hreceived]
    exact relays_announced joined mid
  · intro hf
    rw [hsteps, requests_append, Store.freshDraws_append] at hf
    have hreachable : joined.store.Reachable := by
      rw [← hstep]
      exact h.reachable hf.1
    have hjoin : joined.store = (w.replay before).store := by
      rw [← hstep]
      rfl
    rw [hreceived]
    apply tallies_announced hreachable
    have hrest := hf.2
    rw [← store_replay, ← hjoin] at hrest
    have hmid : joined.store.FreshDraws (requests mid ++ requests rest) := by
      rw [← requests_append]
      exact hrest
    exact (Store.freshDraws_append.mp hmid).1

/-- A listener that reacts by the count of its calls: the first one it answers with news of the
root, the third one with a resize and a channel of its own, and all others not at all. -/
def counting : Listener := fun self _ => .remember fun past =>
  match past.countP fun | .called id _ => id = self | _ => false with
  | 1 => .edit .announce fun _ => .done
  | 3 => .edit (.resize ⟨.ofNat 3⟩ 0.25) fun _ => .subscribe fun _ => .done
  | _ => .done

/-- Told the same of the same tree twice, the listener answers once. Its edits come in between: both
news of the root, the split and the first resize are drained, and the removal is still queued. -/
theorem run_relays_counting :
    let id (n : Nat) : NodeId := ⟨.ofNat n⟩
    let w := ofLeaf (.fresh (id 1)) .default
    let steps := w.steps [.subscribe, .listen counting, .perform .announce,
      .perform (.split (id 1) .vertical 0.5 (.fresh (id 2)) (id 3)), .drain ⟨0⟩,
      .perform (.remove (id 1))]
    let drained := taken ⟨0⟩ w.subscribe.2 steps.tail
    ∃ pending, drained.map Change.action = [.add, .add, .add, .ratioChanged] ∧
      pending.map Change.action = [.remove] ∧
      w.subscribe.2.Relays steps.tail (drained ++ pending) ∧
      w.subscribe.2.Tallies steps.tail (drained ++ pending) := by
  intro id w steps drained
  have hsteps : steps = [] ++ .subscribed :: (steps.tail ++ []) := by
    rw [List.append_nil]
    rfl
  have hjoined : (w.replay []).subscribe = (⟨0⟩, w.subscribe.2) := rfl
  obtain ⟨-, pending, -, hrelays, htallies⟩ :=
    run_relays (isNew_ofLeaf _ _) hsteps hjoined (by decide)
  have hdrained : drained.map Change.action = [.add, .add, .add, .ratioChanged] := by decide
  have hall : (drained ++ pending).map Change.action =
      [.add, .add, .add, .ratioChanged, .remove] :=
    (congrArg (List.map Change.action) hrelays.complete).trans (by decide)
  refine ⟨pending, hdrained, ?_, hrelays, htallies (by decide)⟩
  rw [List.map_append, hdrained] at hall
  exact List.append_cancel_left hall

end Workspace

end PaneGrid
