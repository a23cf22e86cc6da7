import PaneGrid.Proofs.Channels

/-! Who is registered with a feed over a run, whether its users ask for it or listeners do while
they are being told of a change. Identities are numbered as they are given out, and they are held
until they are taken back. A notification reaches the channels that are open when it begins and
calls the listeners that are registered then, whatever they do about it. -/

namespace PaneGrid

/-- A reaction without edits, so that it has no changes of its own to announce. What it registers
reacts in the same way. -/
def Reaction.Quiet : Reaction → Prop
  | done => True
  | note _ next => next.Quiet
  | look next => ∀ store, (next store).Quiet
  | remember next => ∀ past, (next past).Quiet
  | edit _ _ => False
  | listen listener next => (∀ id change, (listener id change).Quiet) ∧ ∀ id, (next id).Quiet
  | unlisten _ next => ∀ found, (next found).Quiet
  | subscribe next => ∀ channel, (next channel).Quiet
  | hangUp _ next => next.Quiet

def Listener.Quiet (listener : Listener) : Prop := ∀ id change, (listener id change).Quiet

/-- The listener that is called and what it is told. -/
def JournalEntry.call? : JournalEntry → Option (ListenerId × Change)
  | called id change => some (id, change)
  | _ => none

namespace Feed

/-- The channels whose receiving ends still exist. -/
def openChannels (f : Feed) : List ChannelId := (f.channels.filter Channel.connected).map Channel.id

variable (f : Feed)

theorem openChannels_subscribe :
    f.subscribe.2.openChannels = f.openChannels ++ [f.subscribe.1] := by
  simp [openChannels, subscribe]

theorem openChannels_hangUp (id : ChannelId) :
    (f.hangUp id).openChannels = f.openChannels.filter (· ≠ id) := by
  rw [openChannels, openChannels, hangUp]
  induction f.channels with
  | nil => rfl
  | cons c channels ih =>
    by_cases hid : c.id = id <;> cases hc : c.connected <;> simp_all

theorem openChannels_clear (id : ChannelId) : (f.clear id).openChannels = f.openChannels := by
  have hconnected (c : Channel) :
      (if c.id = id then { c with queue := [] } else c).connected = c.connected := by
    split <;> rfl
  have hid (c : Channel) : (if c.id = id then { c with queue := [] } else c).id = c.id := by
    split <;> rfl
  simp only [openChannels, clear, List.filter_map, List.map_map, Function.comp_def, hconnected, hid]

/-- Those whom a change is sent to are all that is left. -/
theorem ids_send (change : Change) : (f.send change).channels.map Channel.id = f.openChannels := by
  simp [openChannels, send]

theorem exists_pending_iff (id : ChannelId) :
    (∃ queue, f.pending? id = some queue) ↔ id ∈ f.openChannels := by
  rw [← Option.isSome_iff_exists, pending?, Option.isSome_map, List.find?_isSome, openChannels]
  simp only [List.mem_map, List.mem_filter, Bool.and_eq_true, decide_eq_true_eq, and_assoc,
    and_comm, and_left_comm]

theorem openChannels_send (change : Change) : (f.send change).openChannels = f.openChannels := by
  simp [openChannels, send, List.filter_map, Function.comp_def]

end Feed

namespace Workspace

variable {w w' w'' : Workspace}

/-- What happens around a feed, one thing at a time. -/
inductive Moment where
  | step (step : Step)
  /-- The channels are sent a change, and nobody is called. -/
  | sent (change : Change)

def Moment.on (w : Workspace) : Moment → Workspace
  | step s => s.on w
  | sent change => w.send change

def through (w : Workspace) (moments : List Moment) : Workspace := moments.foldl Moment.on w

@[simp] theorem through_nil (w : Workspace) : w.through [] = w := rfl

@[simp] theorem through_cons (w : Workspace) (m : Moment) (moments : List Moment) :
    w.through (m :: moments) = (m.on w).through moments := rfl

@[simp] theorem through_append (w : Workspace) (moments moments' : List Moment) :
    w.through (moments ++ moments') = (w.through moments).through moments' :=
  List.foldl_append

theorem through_steps (w : Workspace) (steps : List Step) :
    w.through (steps.map .step) = w.replay steps := by
  rw [through, List.foldl_map]
  rfl

/-- Identities of one kind that are given out and taken back in the moments of a run. -/
structure Ledger (ι : Type) where
  number : ι → Nat
  /-- The number that is given out next. -/
  next : Workspace → Nat
  holders : Workspace → List ι
  gives : Workspace → Moment → Option ι
  takes : Moment → ι → Bool
  number_gives : ∀ w m id, gives w m = some id → number id = next w
  next_on : ∀ w m, next (m.on w) = next w + (gives w m).toList.length
  holders_on : ∀ w m,
    holders (m.on w) = (holders w).filter (!takes m ·) ++ (gives w m).toList

namespace Ledger

variable {ι : Type} (ledger : Ledger ι)

/-- All identities that are given out, in this order. -/
def given (ledger : Ledger ι) (w : Workspace) : List Moment → List ι
  | [] => []
  | m :: moments => (ledger.gives w m).toList ++ ledger.given (m.on w) moments

/-- The identity has been given out, and it has not been taken back since. -/
def Keeps (w : Workspace) (moments : List Moment) (id : ι) : Prop :=
  ∃ earlier m later, moments = earlier ++ m :: later ∧
    ledger.gives (w.through earlier) m = some id ∧ ∀ m' ∈ later, ledger.takes m' id = false

theorem keeps_cons {m : Moment} {moments : List Moment} {id : ι} :
    ledger.Keeps w (m :: moments) id ↔
      ledger.gives w m = some id ∧ (∀ m' ∈ moments, ledger.takes m' id = false) ∨
        ledger.Keeps (m.on w) moments id := by
  constructor
  · rintro ⟨_ | ⟨first, earlier⟩, given, later, hmoments, hgives, hlater⟩
    · obtain ⟨rfl, rfl⟩ := List.cons.inj hmoments
      exact .inl ⟨hgives, hlater⟩
    · obtain ⟨rfl, rfl⟩ := List.cons.inj hmoments
      exact .inr ⟨earlier, given, later, rfl, hgives, hlater⟩
  · rintro (⟨hgives, hlater⟩ | ⟨earlier, given, later, rfl, hgives, hlater⟩)
    · exact ⟨[], m, moments, rfl, hgives, hlater⟩
    · exact ⟨m :: earlier, given, later, rfl, hgives, hlater⟩

/-- Numbers are given out one after another, and none is left out or comes again. -/
theorem number_given (w : Workspace) (moments : List Moment) :
    (ledger.given w moments).map ledger.number =
      List.range' (ledger.next w) (ledger.given w moments).length := by
  induction moments generalizing w with
  | nil => rfl
  | cons m moments ih =>
    rw [given, List.map_append, ih, ledger.next_on, List.length_append]
    cases hgives : ledger.gives w m with
    | none => simp
    | some id => simp [ledger.number_gives w m id hgives, Nat.add_comm 1, List.range'_succ]

theorem nodup_given (w : Workspace) (moments : List Moment) : (ledger.given w moments).Nodup := by
  apply List.Nodup.of_map ledger.number
  rw [number_given]
  exact List.nodup_range' ..

theorem sublist_given (w : Workspace) (moments : List Moment) :
    (ledger.holders (w.through moments)).Sublist
      (ledger.holders w ++ ledger.given w moments) := by
  induction moments generalizing w with
  | nil => rw [given, List.append_nil, through_nil]
  | cons m moments ih =>
    rw [through_cons, given, ← List.append_assoc]
    refine (ih (m.on w)).trans (List.Sublist.append_right ?_ _)
    rw [ledger.holders_on]
    exact List.filter_sublist.append_right _

theorem mem_holders_through {moments : List Moment} {id : ι} :
    id ∈ ledger.holders (w.through moments) ↔
      ledger.Keeps w moments id ∨
        id ∈ ledger.holders w ∧ ∀ m ∈ moments, ledger.takes m id = false := by
  induction moments generalizing w with
  | nil => simp [Keeps]
  | cons m moments ih =>
    rw [through_cons, ih, ledger.holders_on, keeps_cons, List.forall_mem_cons, List.mem_append,
      List.mem_filter, Option.mem_toList, Bool.not_eq_true']
    tauto

/-- Where nobody holds anything at first, an identity is held as long as it is kept. -/
theorem mem_holders_iff (h : ledger.holders w = []) {moments : List Moment} {id : ι} :
    id ∈ ledger.holders (w.through moments) ↔ ledger.Keeps w moments id := by
  simp [mem_holders_through, h]

theorem holders_sublist (h : ledger.holders w = []) (moments : List Moment) :
    (ledger.holders (w.through moments)).Sublist (ledger.given w moments) := by
  have hsublist := ledger.sublist_given w moments
  rwa [h, List.nil_append] at hsublist

end Ledger

theorem Step.feed_edited_cases (w : Workspace) (request : Edit) :
    (Step.on w (.edited request)).feed = w.feed ∨
      ∃ change, (Step.on w (.edited request)).feed = w.feed.send change := by
  rw [feed_edited]
  cases w.store.announcement request with
  | none => exact .inl rfl
  | some change => exact .inr ⟨change, rfl⟩

/-- A listener holds its identity from its registration until it is removed. -/
def listeners : Ledger ListenerId where
  number := ListenerId.number
  next w := w.feed.nextListener
  holders w := w.feed.listeners.map Prod.fst
  gives w
    | .step (.listened listener) => some (w.listen listener).1
    | _ => none
  takes
    | .step (.unlistened other), id => other = id
    | _, _ => false
  number_gives w m id h := by
    split at h
    · obtain rfl := Option.some.inj h
      rfl
    · contradiction
  next_on w m := by
    cases m with
    | sent change => rfl
    | step s =>
      cases s with
      | edited request =>
        rcases Step.feed_edited_cases w request with h | ⟨change, h⟩ <;>
          simp only [Moment.on, h] <;> rfl
      | _ => rfl
  holders_on w m := by
    cases m with
    | sent change => simp [Moment.on, send, Feed.send]
    | step s =>
      cases s with
      | edited request =>
        rcases Step.feed_edited_cases w request with h | ⟨change, h⟩ <;>
          simp [Moment.on, h, Feed.send]
      | listened listener => simp [Moment.on, Step.on, listen, Feed.listen]
      | unlistened other =>
        simp [Moment.on, Step.on, unlisten, Feed.unlisten, List.filter_map, Function.comp_def,
          eq_comm (a := other)]
      | turned manner => simp [Moment.on, Step.on, turn, Function.comp_def]
      | called | noted | subscribed | hungUp | drained | cutShort =>
        simp [Moment.on, Step.on, log, subscribe, Feed.subscribe, hangUp, Feed.hangUp, drain,
          Feed.clear]

/-- An identity of a channel is held from its opening until the receiving end is dropped. -/
def channels : Ledger ChannelId where
  number := ChannelId.number
  next w := w.feed.nextChannel
  holders w := w.feed.openChannels
  gives w
    | .step .subscribed => some w.subscribe.1
    | _ => none
  takes
    | .step (.hungUp other), id => other = id
    | _, _ => false
  number_gives w m id h := by
    split at h
    · obtain rfl := Option.some.inj h
      rfl
    · contradiction
  next_on w m := by
    cases m with
    | sent change => rfl
    | step s =>
      cases s with
      | edited request =>
        rcases Step.feed_edited_cases w request with h | ⟨change, h⟩ <;>
          simp only [Moment.on, h] <;> rfl
      | _ => rfl
  holders_on w m := by
    cases m with
    | sent change => simp [Moment.on, send, Feed.openChannels_send]
    | step s =>
      cases s with
      | edited request =>
        rcases Step.feed_edited_cases w request with h | ⟨change, h⟩ <;>
          simp [Moment.on, h, Feed.openChannels_send]
      | subscribed => simp [Moment.on, Step.on, subscribe, Feed.openChannels_subscribe]
      | hungUp other =>
        simp [Moment.on, Step.on, hangUp, Feed.openChannels_hangUp, eq_comm (a := other)]
      | drained other => simp [Moment.on, Step.on, drain, Feed.openChannels_clear]
      | called | noted | listened | unlistened | turned | cutShort =>
        simp [Moment.on, Step.on, log, listen, Feed.listen, unlisten, Feed.unlisten, turn,
          Feed.openChannels]

/-- What comes to a feed from outside. -/
inductive Use where
  | listen (listener : Listener)
  | unlisten (id : ListenerId)
  | subscribe
  | hangUp (channel : ChannelId)
  | drain (channel : ChannelId)
  | notify (change : Change)
  /-- The state of listeners is changed, which from now on react in a new manner. -/
  | turn (manner : ListenerId → Listener)

namespace Use

def on (w : Workspace) : Use → Workspace
  | listen listener => (w.listen listener).2
  | unlisten id => (w.unlisten id).2
  | subscribe => w.subscribe.2
  | hangUp channel => w.hangUp channel
  | drain channel => (w.drain channel).2
  | notify change => w.notify change
  | turn manner => w.turn manner

def moments (w : Workspace) : Use → List Moment
  | listen listener => [.step (.listened listener)]
  | unlisten id => [.step (.unlistened id)]
  | subscribe => [.step .subscribed]
  | hangUp channel => [.step (.hungUp channel)]
  | drain channel => [.step (.drained channel)]
  | notify change => .sent change :: (followSteps w.nesting change (w.send change)).map .step
  | turn manner => [.step (.turned manner)]

/-- No listener that comes in makes edits. -/
def Quiet : Use → Prop
  | listen listener => listener.Quiet
  | turn manner => ∀ id, (manner id).Quiet
  | _ => True

theorem on_eq_through (use : Use) (w : Workspace) : use.on w = w.through (use.moments w) := by
  cases use with
  | notify change =>
    rw [moments, through_cons, through_steps]
    exact follows_deliver w.nesting change w
  | _ => rfl

end Use

def serve (w : Workspace) (uses : List Use) : Workspace := uses.foldl Use.on w

@[simp] theorem serve_cons (w : Workspace) (use : Use) (uses : List Use) :
    w.serve (use :: uses) = (use.on w).serve uses := rfl

/-- All moments of a run, those of the listeners included, in the order in which they come. -/
def moments (w : Workspace) : List Use → List Moment
  | [] => []
  | use :: uses => use.moments w ++ (use.on w).moments uses

theorem serve_eq_through (w : Workspace) (uses : List Use) :
    w.serve uses = w.through (w.moments uses) := by
  induction uses generalizing w with
  | nil => rfl
  | cons use uses ih => rw [serve_cons, moments, through_append, ← use.on_eq_through, ih]

/-- All calls of listeners so far. -/
def calls (w : Workspace) : List (ListenerId × Change) := w.journal.filterMap JournalEntry.call?

/-- No listener that is registered makes edits. -/
def Calm (w : Workspace) : Prop := ∀ entry ∈ w.feed.listeners, entry.2.Quiet

/-- On the way to `w'` these calls are made, and no listener that makes edits comes in. -/
structure Quietly (w w' : Workspace) (called : List (ListenerId × Change)) : Prop where
  calls : w'.calls = w.calls ++ called
  nesting : w'.nesting = w.nesting
  calm : w.Calm → w'.Calm

namespace Quietly

variable {called called' : List (ListenerId × Change)}

theorem trans (h : w.Quietly w' called) (h' : w'.Quietly w'' called') :
    w.Quietly w'' (called ++ called') where
  calls := by rw [h'.calls, h.calls, List.append_assoc]
  nesting := h'.nesting.trans h.nesting
  calm hw := h'.calm (h.calm hw)

theorem refl (w : Workspace) : w.Quietly w [] := ⟨(List.append_nil _).symm, rfl, id⟩

theorem log (w : Workspace) (entry : JournalEntry) :
    w.Quietly (w.log entry) entry.call?.toList where
  calls := by
    rw [Workspace.calls, Workspace.log, List.filterMap_append]
    cases h : entry.call? <;> simp [Workspace.calls, h]
  nesting := rfl
  calm := id

theorem listen {listener : Listener} (h : listener.Quiet) (w : Workspace) :
    w.Quietly (w.listen listener).2 [] where
  calls := (List.append_nil _).symm
  nesting := rfl
  calm hw := by
    intro entry hentry
    rcases List.mem_append.mp hentry with hentry | hentry
    · exact hw entry hentry
    · obtain rfl := List.mem_singleton.mp hentry
      exact h

theorem turn {manner : ListenerId → Listener} (h : ∀ id, (manner id).Quiet) (w : Workspace) :
    w.Quietly (w.turn manner) [] where
  calls := (List.append_nil _).symm
  nesting := rfl
  calm _ := by
    intro entry hentry
    obtain ⟨old, -, rfl⟩ := List.mem_map.mp hentry
    exact h old.1

/-- Whatever else is done to a feed, it brings in no listener and calls nobody. -/
theorem of_feed {feed : Feed} (w : Workspace)
    (h : ∀ entry ∈ feed.listeners, entry ∈ w.feed.listeners) : w.Quietly { w with feed } [] where
  calls := (List.append_nil _).symm
  nesting := rfl
  calm hw entry hentry := hw entry (h entry hentry)

theorem unlisten (w : Workspace) (id : ListenerId) : w.Quietly (w.unlisten id).2 [] :=
  of_feed w fun _ => List.mem_of_mem_filter

theorem subscribe (w : Workspace) : w.Quietly w.subscribe.2 [] := of_feed w fun _ => id

theorem hangUp (w : Workspace) (channel : ChannelId) : w.Quietly (w.hangUp channel) [] :=
  of_feed w fun _ => id

theorem send (change : Change) (w : Workspace) : w.Quietly (w.send change) [] :=
  of_feed w fun _ => id

/-- A listener without edits makes nobody else be called. -/
theorem react {deliver : Change → Workspace → Workspace} {self : ListenerId} {reaction : Reaction}
    (h : reaction.Quiet) (w : Workspace) :
    w.Quietly (Workspace.react deliver self reaction w) [] := by
  induction reaction generalizing w with
  | done => exact refl w
  | note text next ih => exact (log w (.noted self text)).trans (ih h _)
  | look next ih => exact ih _ (h _) w
  | remember next ih => exact ih _ (h _) w
  | edit request next => exact h.elim
  | listen listener next _ ih => exact (listen h.1 w).trans (ih _ (h.2 _) _)
  | unlisten id next ih => exact (unlisten w id).trans (ih _ (h _) _)
  | subscribe next ih => exact (subscribe w).trans (ih _ (h _) _)
  | hangUp channel next ih => exact (hangUp w channel).trans (ih h _)

/-- The listeners of a delivery are called one after another, and nobody in between. -/
theorem deliveries {deliver : Change → Workspace → Workspace} {change : Change}
    {entries : List (ListenerId × Listener)} (h : ∀ entry ∈ entries, entry.2.Quiet)
    (w : Workspace) :
    w.Quietly
      (entries.foldl (fun w (id, listener) =>
        Workspace.react deliver id (listener id change) (w.log (.called id change))) w)
      (entries.map fun entry => (entry.1, change)) := by
  induction entries generalizing w with
  | nil => exact refl w
  | cons entry entries ih =>
    obtain ⟨id, listener⟩ := entry
    rw [List.forall_mem_cons] at h
    have hcalled := log w (.called id change)
    exact (hcalled.trans (react (h.1 id change) _)).trans (ih h.2 _)

theorem notify (hdepth : 0 < w.nesting) (hcalm : w.Calm) (change : Change) :
    w.Quietly (w.notify change) (w.feed.listeners.map fun entry => (entry.1, change)) := by
  obtain ⟨depth, hdepth⟩ := Nat.exists_eq_add_one_of_ne_zero (Nat.ne_of_gt hdepth)
  rw [Workspace.notify, hdepth]
  exact (send change w).trans (deliveries hcalm (w.send change))

end Quietly

/-- Whom a use makes be called, and with what. -/
def Use.called (w : Workspace) : Use → List (ListenerId × Change)
  | notify change => w.feed.listeners.map fun entry => (entry.1, change)
  | _ => []

theorem Use.quietly {use : Use} (hdepth : 0 < w.nesting) (hcalm : w.Calm) (h : use.Quiet) :
    w.Quietly (use.on w) (use.called w) := by
  cases use with
  | listen listener => exact .listen h w
  | unlisten id => exact .unlisten w id
  | subscribe => exact .subscribe w
  | hangUp channel => exact .hangUp w channel
  | drain channel => exact .of_feed w fun _ => id
  | notify change => exact .notify hdepth hcalm change
  | turn manner => exact .turn h w

/-- Only quiet listeners are ever registered, however long the run. -/
theorem calm_serve {uses : List Use} (hdepth : 0 < w.nesting) (hcalm : w.Calm)
    (h : ∀ use ∈ uses, use.Quiet) : 0 < (w.serve uses).nesting ∧ (w.serve uses).Calm := by
  induction uses generalizing w with
  | nil => exact ⟨hdepth, hcalm⟩
  | cons use uses ih =>
    rw [List.forall_mem_cons] at h
    have hquietly := use.quietly hdepth hcalm h.1
    exact ih (hquietly.nesting ▸ hdepth) (hquietly.calm hcalm) h.2

/-- What a run of a feed keeps to. -/
structure Registers (w : Workspace) (uses : List Use) : Prop where
  /-- The run is its moments, one after another. -/
  passes : w.serve uses = w.through (w.moments uses)
  /-- No identity of a listener is given out twice. -/
  distinct : (listeners.given w (w.moments uses)).Nodup
  /-- A removal finds whom it asks for if that listener is still registered. -/
  removal : ∀ earlier id later, w.moments uses = earlier ++ .step (.unlistened id) :: later →
    (((w.through earlier).unlisten id).1 = true ↔ listeners.Keeps w earlier id)
  /-- A notification calls those who are registered when it begins, in the order in which they were
  registered. -/
  calls : ∀ earlier change later, uses = earlier ++ .notify change :: later →
    ∃ registered : List ListenerId,
      registered.Sublist (listeners.given w (w.moments earlier)) ∧
        (∀ id, id ∈ registered ↔ listeners.Keeps w (w.moments earlier) id) ∧
          ((w.serve earlier).notify change).calls =
            (w.serve earlier).calls ++ registered.map fun id => (id, change)
  /-- After its channel phase there are the channels that have been opened and not been dropped. -/
  left : ∀ earlier change later, w.moments uses = earlier ++ .sent change :: later →
    (((w.through earlier).send change).feed.channels.map Channel.id).Nodup ∧
      ∀ id, id ∈ ((w.through earlier).send change).feed.channels.map Channel.id ↔
        channels.Keeps w earlier id
  /-- Each of them has received the change once, behind what it held before. -/
  received : ∀ earlier change later, w.moments uses = earlier ++ .sent change :: later →
    ∀ id, channels.Keeps w earlier id →
      ∃ queue, (w.through earlier).feed.pending? id = some queue ∧
        ((w.through earlier).send change).feed.pending? id = some (queue ++ [change])

/-- For every run of a feed, also if its listeners come and go, make others come and go or open and
drop channels while they are being called. -/
theorem run_registers {uses : List Use} (hfeed : w.feed = .empty) (hdepth : 0 < w.nesting)
    (hquiet : ∀ use ∈ uses, use.Quiet) : w.Registers uses := by
  have hnobody : listeners.holders w = [] := congrArg (fun f => f.listeners.map Prod.fst) hfeed
  have hclosed : channels.holders w = [] := congrArg Feed.openChannels hfeed
  have hcalm : w.Calm := by
    intro entry hentry
    rw [hfeed] at hentry
    exact absurd hentry List.not_mem_nil
  refine ⟨serve_eq_through w uses, listeners.nodup_given w _, ?_, ?_, ?_, ?_⟩
  · intro earlier id later _
    rw [← listeners.mem_holders_iff hnobody]
    simp [unlisten, Feed.unlisten, listeners]
  · rintro earlier change later rfl
    have hbegun := calm_serve hdepth hcalm fun use huse => hquiet use (List.mem_append_left _ huse)
    refine ⟨listeners.holders (w.through (w.moments earlier)),
      listeners.holders_sublist hnobody _, fun id => listeners.mem_holders_iff hnobody, ?_⟩
    rw [(Quietly.notify hbegun.1 hbegun.2 change).calls, ← serve_eq_through, listeners,
      List.map_map]
    rfl
  · intro earlier change later _
    rw [send, Feed.ids_send]
    exact ⟨(channels.holders_sublist hclosed earlier).nodup (channels.nodup_given w earlier),
      fun id => channels.mem_holders_iff hclosed⟩
  · intro earlier change later _ id hid
    have hopen := (channels.mem_holders_iff hclosed).mpr hid
    obtain ⟨queue, hqueue⟩ := ((w.through earlier).feed.exists_pending_iff id).mpr hopen
    refine ⟨queue, hqueue, ?_⟩
    rw [send, Feed.pending?_send, hqueue, Option.map_some]

/-- Leaves at once, and puts in another listener and a channel that is dropped again. -/
def restless : Listener := fun self _ =>
  .unlisten self fun _ => .listen (fun _ _ => .done) fun _ => .subscribe fun channel =>
    .hangUp channel .done

/-- The restless listener is called once, the one that it has put in comes after the other, and the
channel that was dropped in between is gone while the first one has both changes. -/
theorem run_registers_restless :
    let w := ofLeaf (.fresh ⟨.ofNat 1⟩) .default
    let uses := [.listen restless, .subscribe, .listen fun _ _ => .done, .notify ⟨.add, none⟩,
      .unlisten ⟨0⟩, .notify ⟨.remove, none⟩]
    w.feed = .empty ∧ 0 < w.nesting ∧ (∀ use ∈ uses, use.Quiet) ∧ w.Registers uses ∧
      (w.serve uses).calls.map (fun call => (call.1.number, call.2.action)) =
        [(0, .add), (1, .add), (1, .remove), (2, .remove)] ∧
      (w.serve uses).feed.channels.map (fun c => (c.id.number, c.queue.map Change.action)) =
        [(0, [.add, .remove])] := by
  intro w uses
  have hquiet : ∀ use ∈ uses, use.Quiet := by
    simp [uses, Use.Quiet, Listener.Quiet, restless, Reaction.Quiet]
  exact ⟨rfl, by decide, hquiet, run_registers rfl (by decide) hquiet, by decide, by decide⟩

end Workspace

end PaneGrid
