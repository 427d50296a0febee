import MeridianMcp.Debugger.EventLog

namespace Debugger

open MeridianMcp Effects

variable {C : Type} {protocol : Protocol} {session session' : DebuggerSession C}
  {step : SessionStep C} {client : C} {event : DebuggerEventRecord}
  {trace : List (DebuggerSession C × SessionStep C)}

section Growth

-- The log has grown, and has taken no event back.
structure Extends (session session' : DebuggerSession C) : Prop where
  kept : ∀ event ∈ session.recorded, event ∈ session'.recorded
  older : ∀ event ∈ session'.events, event ∈ session.recorded → event ∈ session.events

theorem extends_refl (hrecorded : session'.recorded = session.recorded)
    (hevents : session'.events = session.events) : Extends session session' where
  kept _ h := hrecorded ▸ h
  older _ h _ := hevents ▸ h

theorem extends_push (response : AuxResponse) (link : Link)
    (hnew : event ∉ session.recorded) :
    Extends session ((session.taken response link).push event) where
  kept other h := List.mem_append_left _ h
  older other h hold := by
    obtain ⟨kept, hkept, -, hevents⟩ :=
      DebuggerSession.push_kept (session.taken response link) event
    rw [hevents] at h
    rcases List.mem_append.mp h with hmem | hlast
    · exact hkept.subset hmem
    · exact absurd (List.mem_singleton.mp hlast ▸ hold) hnew

def Polls (client : C) (step : SessionStep C) : Prop :=
  ∃ wait, step = .waitForEvent wait ∧ wait.client = client

theorem polls_wait {wait : Wait C} : Polls client (.waitForEvent wait) ↔ wait.client = client := by
  constructor
  · rintro ⟨other, hsame, hclient⟩
    cases hsame
    exact hclient
  · exact fun hclient => ⟨wait, rfl, hclient⟩

theorem not_polls (h : ∀ wait, step ≠ .waitForEvent wait) : ¬Polls client step :=
  fun ⟨wait, hstep, _⟩ => h wait hstep

-- A list in increasing order is searched up to the first entry that is wanted.
theorem find?_first {events : List DebuggerEventRecord} {p : DebuggerEventRecord → Bool}
    (hsorted : events.Pairwise fun event later => event.sequence < later.sequence)
    (h : events.find? p = some event) {other : DebuggerEventRecord} (hother : other ∈ events)
    (hwanted : p other = true) : event.sequence ≤ other.sequence := by
  induction hsorted with
  | nil => cases hother
  | @cons head rest hhead _ ih =>
    rw [List.find?_cons] at h
    split at h
    · cases h
      rcases List.mem_cons.mp hother with rfl | htail
      · exact Nat.le_refl _
      · exact (hhead other htail).le
    · rename_i hskip
      rcases List.mem_cons.mp hother with rfl | htail
      · rw [hwanted] at hskip
        cases hskip
      · exact ih h htail

end Growth

variable [DecidableEq C]

section Clients

-- The events that the calls of a client have returned.
def received (session : DebuggerSession C) (client : C) : List DebuggerEventRecord :=
  (session.given.filter fun entry => entry.1 = client).map Prod.snd

-- The last sequence that a client was given. wait_for_event takes an absent after_sequence as 0.
def cursor (session : DebuggerSession C) (client : C) : Nat :=
  ((received session client).getLast?.map DebuggerEventRecord.sequence).getD 0

-- The client polls without a filter, from the last sequence that it was given.
def Follows (client : C) (session : DebuggerSession C) (step : SessionStep C) : Prop :=
  ∀ wait, step = .waitForEvent wait → wait.client = client →
    wait.kinds = [] ∧ wait.afterSequence = cursor session client

def Missed (client : C) (session : DebuggerSession C) (step : SessionStep C)
    (event : DebuggerEventRecord) : Prop :=
  Polls client step ∧ event ∈ session.recorded ∧ event ∉ session.events ∧
    cursor session client < event.sequence

-- The event was still to come for the client when it polled, and had been evicted.
def EvictedAtPoll (trace : List (DebuggerSession C × SessionStep C)) (client : C)
    (event : DebuggerEventRecord) : Prop :=
  ∃ m ∈ trace, Missed client m.1 m.2 event

theorem evictedAtPoll_snoc :
    EvictedAtPoll (trace ++ [(session, step)]) client event ↔
      EvictedAtPoll trace client event ∨ Missed client session step event := by
  simp only [EvictedAtPoll, List.mem_append, List.mem_singleton, or_and_right, exists_or,
    exists_eq_left]

theorem evictedAtPoll_skip (h : ¬Polls client step) :
    EvictedAtPoll (trace ++ [(session, step)]) client event ↔ EvictedAtPoll trace client event := by
  rw [evictedAtPoll_snoc]
  exact or_iff_left fun hmissed => h hmissed.1

theorem received_give_self (session : DebuggerSession C) (client : C)
    (event : DebuggerEventRecord) :
    received (session.give client event) client = received session client ++ [event] := by
  simp [received, DebuggerSession.give]

theorem received_give_other (session : DebuggerSession C) {other : C} (h : other ≠ client)
    (event : DebuggerEventRecord) :
    received (session.give other event) client = received session client := by
  simp [received, DebuggerSession.give, h]

theorem cursor_congr (h : received session' client = received session client) :
    cursor session' client = cursor session client := by
  rw [cursor, h, cursor]

theorem cursor_snoc (h : received session' client = received session client ++ [event]) :
    cursor session' client = event.sequence := by
  rw [cursor, h, List.getLast?_concat]
  rfl

end Clients

section Delivery

-- What a client has of the events that were recorded.
structure Delivered (trace : List (DebuggerSession C × SessionStep C))
    (session : DebuggerSession C) (client : C) : Prop where
  once : (received session client).Sublist session.recorded
  complete : ∀ event ∈ session.recorded, event.sequence ≤ cursor session client →
    (event ∈ received session client ↔ ¬EvictedAtPoll trace client event)

-- What holds of a client that follows the log, between its polls and while it waits.
structure Followed (trace : List (DebuggerSession C × SessionStep C))
    (session : DebuggerSession C) (client : C) : Prop extends Delivered trace session client where
  evicted : ∀ event, EvictedAtPoll trace client event →
    event ∈ session.recorded ∧ event ∉ session.events
  waiting : ∀ wait, session.waiting = some wait → wait.client = client →
    wait.kinds = [] ∧ wait.afterSequence = cursor session client ∧
      ∀ event ∈ session.recorded, cursor session client < event.sequence →
        EvictedAtPoll trace client event

theorem followed_start : Followed [] (DebuggerSession.start C) client where
  once := .slnil
  complete _ h := absurd h List.not_mem_nil
  evicted _ h := by
    obtain ⟨m, hm, -⟩ := h
    cases hm
  waiting _ h := by cases h

-- The cursor is the greatest of the sequences that the client was given.
theorem Delivered.le_cursor (h : Delivered trace session client) (hlog : Logged session)
    (hevent : event ∈ received session client) : event.sequence ≤ cursor session client := by
  have hsorted := hlog.increasing.sublist h.once
  rw [cursor]
  rcases List.eq_nil_or_concat (received session client) with hnil | ⟨init, last, hconcat⟩
  · rw [hnil] at hevent
    cases hevent
  · rw [List.concat_eq_append] at hconcat
    rw [hconcat] at hsorted hevent ⊢
    rw [List.getLast?_concat]
    rcases List.mem_append.mp hevent with hinit | hlast
    · exact ((List.pairwise_append.mp hsorted).2.2 event hinit last (List.mem_singleton.mpr rfl)).le
    · rw [List.mem_singleton.mp hlast]
      exact Nat.le_refl _

theorem Delivered.cursor_le (h : Delivered trace session client) (hlog : Logged session) :
    cursor session client ≤ session.eventSequence := by
  rw [cursor]
  cases hlast : (received session client).getLast? with
  | none => exact Nat.zero_le _
  | some last => exact hlog.latest last (h.once.subset (List.mem_of_getLast? hlast))

theorem Followed.evicted_step (h : Followed trace session client)
    (hextends : Extends session session')
    (hevicted : EvictedAtPoll (trace ++ [(session, step)]) client event) :
    event ∈ session'.recorded ∧ event ∉ session'.events := by
  have hbefore : event ∈ session.recorded ∧ event ∉ session.events := by
    rcases evictedAtPoll_snoc.mp hevicted with hold | hmissed
    · exact h.evicted event hold
    · exact ⟨hmissed.2.1, hmissed.2.2.1⟩
  exact ⟨hextends.kept event hbefore.1,
    fun hmem => hbefore.2 (hextends.older event hmem hbefore.1)⟩

-- A step that gives the client nothing, and is not a poll of its own.
theorem Followed.elsewhere (h : Followed trace session client)
    (hextends : Extends session session')
    (hnew : ∀ event ∈ session'.recorded,
      event ∈ session.recorded ∨ cursor session client < event.sequence)
    (honce : session.recorded.Sublist session'.recorded)
    (hreceived : received session' client = received session client) (hpolls : ¬Polls client step)
    (hwaiting : ∀ wait, session'.waiting = some wait → wait.client = client →
      session.waiting = some wait ∧ session'.recorded = session.recorded) :
    Followed (trace ++ [(session, step)]) session' client where
  once := hreceived ▸ h.once.trans honce
  complete event hevent hle := by
    rw [cursor_congr hreceived] at hle
    rw [hreceived, evictedAtPoll_skip hpolls]
    rcases hnew event hevent with hold | hlater
    · exact h.complete event hold hle
    · exact absurd hle (Nat.not_le.mpr hlater)
  evicted event hevicted := h.evicted_step hextends hevicted
  waiting wait hwait hclient := by
    obtain ⟨hsame, hrecorded⟩ := hwaiting wait hwait hclient
    obtain ⟨hkinds, hafter, hmissed⟩ := h.waiting wait hsame hclient
    rw [cursor_congr hreceived, hrecorded]
    exact ⟨hkinds, hafter, fun event hevent hlater =>
      (evictedAtPoll_skip hpolls).mpr (hmissed event hevent hlater)⟩

theorem sublist_snoc {events recorded : List DebuggerEventRecord}
    (hsorted : recorded.Pairwise fun event later => event.sequence < later.sequence)
    (hevents : events.Sublist recorded) (hevent : event ∈ recorded)
    (hlast : ∀ other ∈ events, other.sequence < event.sequence) :
    (events ++ [event]).Sublist recorded := by
  obtain ⟨before, later, rfl⟩ := List.append_of_mem hevent
  obtain ⟨first, second, rfl, hfirst, hsecond⟩ := List.sublist_append_iff.mp hevents
  have hnone : second = [] := by
    refine List.eq_nil_iff_forall_not_mem.mpr fun other hother => ?_
    have hlt := hlast other (List.mem_append_right _ hother)
    rcases List.mem_cons.mp (hsecond.subset hother) with rfl | hlater
    · exact Nat.lt_irrefl _ hlt
    · have htail := (List.pairwise_cons.mp (List.pairwise_append.mp hsorted).2.1).1 other hlater
      exact Nat.lt_asymm hlt htail
  rw [hnone, List.append_nil]
  exact hfirst.append (List.singleton_sublist.mpr (List.mem_cons_self ..))

-- The client is given an event, and what it skips had been evicted when it polled.
theorem Followed.gains (h : Followed trace session client) (hlog : Logged session)
    (hlog' : Logged session') (hextends : Extends session session')
    (honce : session.recorded.Sublist session'.recorded)
    (hreceived : received session' client = received session client ++ [event])
    (hevent : event ∈ session'.recorded) (hlater : cursor session client < event.sequence)
    (hretained : event ∈ session'.events)
    (hskipped : ∀ other ∈ session'.recorded, cursor session client < other.sequence →
      other.sequence < event.sequence → EvictedAtPoll (trace ++ [(session, step)]) client other)
    (hold : ∀ other ∈ session'.recorded, other.sequence ≤ cursor session client →
      other ∈ session.recorded)
    (hwaiting : session'.waiting = none) :
    Followed (trace ++ [(session, step)]) session' client where
  once := by
    rw [hreceived]
    exact sublist_snoc hlog'.increasing (h.once.trans honce) hevent
      fun other hother => (h.le_cursor hlog hother).trans_lt hlater
  complete other hother hle := by
    rw [cursor_snoc hreceived] at hle
    rw [hreceived, List.mem_append, List.mem_singleton]
    rcases Nat.lt_or_ge (cursor session client) other.sequence with hnew | hbefore
    · have hunseen : other ∉ received session client := fun hmem =>
        Nat.not_lt.mpr (h.le_cursor hlog hmem) hnew
      rcases Nat.lt_or_eq_of_le hle with hlt | heq
      · have hevicted := hskipped other hother hnew hlt
        refine iff_of_false (fun hmem => ?_) (not_not.mpr hevicted)
        rcases hmem with hmem | rfl
        · exact hunseen hmem
        · exact Nat.lt_irrefl _ hlt
      · obtain rfl := hlog'.eq_of_sequence hother hevent heq
        exact iff_of_true (.inr rfl) fun hevicted =>
          (h.evicted_step hextends hevicted).2 hretained
    · have hne : other ≠ event := fun heq => Nat.not_lt.mpr hbefore (heq ▸ hlater)
      have hmissed : ¬Missed client session step other := fun hmissed =>
        Nat.not_lt.mpr hbefore hmissed.2.2.2
      rw [or_iff_left hne, evictedAtPoll_snoc, or_iff_left hmissed]
      exact h.complete other (hold other hother hbefore) hbefore
  evicted other hevicted := h.evicted_step hextends hevicted
  waiting wait hwait _ := by
    rw [hwaiting] at hwait
    cases hwait

-- Nothing that concerns the client has changed.
theorem Followed.quiet (h : Followed trace session client)
    (hrecorded : session'.recorded = session.recorded) (hevents : session'.events = session.events)
    (hreceived : received session' client = received session client) (hpolls : ¬Polls client step)
    (hwaiting : ∀ wait, session'.waiting = some wait → wait.client = client →
      session.waiting = some wait) :
    Followed (trace ++ [(session, step)]) session' client :=
  h.elsewhere (extends_refl hrecorded hevents) (fun _ hevent => .inl (hrecorded ▸ hevent))
    (hrecorded ▸ List.Sublist.refl _) hreceived hpolls
    fun wait hwait hclient => ⟨hwaiting wait hwait hclient, hrecorded⟩

-- A poll that returns an event returns the first that is retained after the cursor.
theorem Followed.found (h : Followed trace session client) (hlog : Logged session) {wait : Wait C}
    (hfollows : Follows client session (.waitForEvent wait))
    (hfound : session.events.find? wait.wants = some event) :
    Followed (trace ++ [(session, .waitForEvent wait)]) (session.give wait.client event) client := by
  rcases eq_or_ne wait.client client with rfl | hother
  · obtain ⟨hkinds, hafter⟩ := hfollows wait rfl rfl
    have hretained := List.mem_of_find?_eq_some hfound
    have hlater := (wants_iff hkinds).mp (List.find?_some hfound)
    rw [hafter] at hlater
    refine h.gains hlog (hlog.congr rfl rfl rfl (Nat.le_refl _)) (extends_refl rfl rfl)
      (List.Sublist.refl _) (received_give_self _ _ _) (hlog.of_retained hretained) hlater hretained
      (fun other hrecorded hnew hbefore => ?_) (fun other hrecorded _ => hrecorded) rfl
    refine evictedAtPoll_snoc.mpr (.inr ⟨polls_wait.mpr rfl, hrecorded, fun hmem => ?_, hnew⟩)
    have hfirst := find?_first hlog.sorted hfound hmem ((wants_iff hkinds).mpr (hafter ▸ hnew))
    exact Nat.not_lt.mpr hfirst hbefore
  · refine h.quiet rfl rfl (received_give_other _ hother _) (mt polls_wait.mp hother)
      fun other hwait _ => ?_
    cases hwait

-- A poll that has to wait finds nothing that is retained after the cursor.
theorem Followed.waits (h : Followed trace session client) {wait : Wait C}
    (hfollows : Follows client session (.waitForEvent wait))
    (hnone : session.events.find? wait.wants = none) :
    Followed (trace ++ [(session, .waitForEvent wait)]) { session with waiting := some wait }
      client := by
  rcases eq_or_ne wait.client client with rfl | hother
  · obtain ⟨hkinds, hafter⟩ := hfollows wait rfl rfl
    have hmissed (event : DebuggerEventRecord) (hrecorded : event ∈ session.recorded)
        (hlater : cursor session wait.client < event.sequence) :
        Missed wait.client session (.waitForEvent wait) event := by
      refine ⟨polls_wait.mpr rfl, hrecorded, fun hmem => ?_, hlater⟩
      exact List.find?_eq_none.mp hnone event hmem ((wants_iff hkinds).mpr (hafter ▸ hlater))
    refine ⟨⟨h.once, fun event hrecorded hle => ?_⟩,
      fun event => h.evicted_step (extends_refl rfl rfl), fun other hsame _ => ?_⟩
    · refine (h.complete event hrecorded hle).trans (not_congr ?_)
      rw [evictedAtPoll_snoc]
      exact (or_iff_left fun hmissed => Nat.not_lt.mpr hle hmissed.2.2.2).symm
    · obtain rfl := Option.some.inj hsame
      exact ⟨hkinds, hafter, fun event hrecorded hlater =>
        evictedAtPoll_snoc.mpr (.inr (hmissed event hrecorded hlater))⟩
  · refine h.quiet rfl rfl rfl (mt polls_wait.mp hother) fun other hsame hclient => ?_
    obtain rfl := Option.some.inj hsame
    exact absurd hclient hother

theorem Followed.cursor_lt_next (h : Followed trace session client) (hlog : Logged session)
    (hroom : session.eventSequence < maxSequence) :
    cursor session client < Machine.saturatingAdd session.eventSequence 1 := by
  rw [saturatingAdd_one hroom]
  exact Nat.lt_succ_of_le (h.cursor_le hlog)

theorem Followed.records (h : Followed trace session client) (hlog : Logged session)
    (hroom : session.eventSequence < maxSequence) {wait : Wait C} {response : AuxResponse}
    {link : Link} {kind : EventKind} {message : Option Text}
    (hwaiting : session.waiting = some wait)
    (hwants : wait.wants ⟨Machine.saturatingAdd session.eventSequence 1, kind, message⟩ = false) :
    Followed (trace ++ [(session, .nextEvent)]) ((session.taken response link).push
      ⟨Machine.saturatingAdd session.eventSequence 1, kind, message⟩) client := by
  have hlater := h.cursor_lt_next hlog hroom
  refine h.elsewhere (extends_push response link (hlog.next_not_recorded hroom))
    (fun event hevent => ?_) (List.sublist_append_left _ _) rfl (not_polls nofun)
    fun other hsame hclient => ?_
  · refine (List.mem_append.mp hevent).imp_right fun hlast => ?_
    rw [List.mem_singleton.mp hlast]
    exact hlater
  · -- A wait of the client would have wanted the event.
    have hwait : session.waiting = some other := hsame
    obtain ⟨hkinds, hafter, -⟩ := h.waiting other hwait hclient
    obtain rfl := Option.some.inj (hwaiting.symm.trans hwait)
    rw [(wants_iff hkinds).mpr (hafter ▸ hlater)] at hwants
    cases hwants

theorem Followed.returns (h : Followed trace session client) (hlog : Logged session)
    (hroom : session.eventSequence < maxSequence) {wait : Wait C} {response : AuxResponse}
    {link : Link} {kind : EventKind} {message : Option Text}
    (hwaiting : session.waiting = some wait) :
    Followed (trace ++ [(session, .nextEvent)]) (((session.taken response link).push
      ⟨Machine.saturatingAdd session.eventSequence 1, kind, message⟩).give wait.client
        ⟨Machine.saturatingAdd session.eventSequence 1, kind, message⟩) client := by
  have hlater := h.cursor_lt_next hlog hroom
  have hextends : Extends session (((session.taken response link).push
      ⟨Machine.saturatingAdd session.eventSequence 1, kind, message⟩).give wait.client
        ⟨Machine.saturatingAdd session.eventSequence 1, kind, message⟩) :=
    have hpush := extends_push response link (hlog.next_not_recorded hroom)
    ⟨hpush.kept, hpush.older⟩
  have hcases {event : DebuggerEventRecord} (hevent : event ∈ session.recorded ++
      [⟨Machine.saturatingAdd session.eventSequence 1, kind, message⟩]) :
      event ∈ session.recorded ∨
        event.sequence = Machine.saturatingAdd session.eventSequence 1 :=
    (List.mem_append.mp hevent).imp_right fun hlast =>
      congrArg DebuggerEventRecord.sequence (List.mem_singleton.mp hlast)
  rcases eq_or_ne wait.client client with rfl | hother
  · obtain ⟨-, -, hmissed⟩ := h.waiting wait hwaiting rfl
    refine h.gains hlog ((hlog.push hroom response link kind message).congr rfl rfl rfl
      (Nat.le_refl _)) hextends (List.sublist_append_left _ _) (received_give_self _ _ _)
      (List.mem_append_right _ (List.mem_singleton.mpr rfl)) hlater
      (List.mem_append_right _ (List.mem_singleton.mpr rfl)) ?_ ?_ rfl
    · intro other hrecorded hafter hbefore
      rcases hcases hrecorded with hold | hsame
      · exact evictedAtPoll_snoc.mpr (.inl (hmissed other hold hafter))
      · exact absurd hsame hbefore.ne
    · intro other hrecorded hle
      exact (hcases hrecorded).resolve_right fun hsame => Nat.not_lt.mpr (hsame ▸ hle) hlater
  · refine h.elsewhere hextends (fun event hevent => ?_) (List.sublist_append_left _ _)
      (received_give_other _ hother _) (not_polls nofun) fun other hsame _ => by cases hsame
    refine (hcases hevent).imp_right fun hsame => ?_
    rw [hsame]
    exact hlater

theorem followed_changes (h : Followed trace session client) (hlog : Logged session)
    (hroom : Unsaturated session step) (hfollows : Follows client session step)
    (hchanges : session.Changes protocol step session') :
    Followed (trace ++ [(session, step)]) session' client := by
  cases hchanges with
  | connection => exact h.quiet rfl rfl rfl (not_polls nofun) fun _ hsame _ => hsame
  | found _ _ hfound => exact h.found hlog hfollows hfound
  | waits _ _ hnone => exact h.waits hfollows hnone
  | records hwaiting _ _ hwants => exact h.records hlog (hroom rfl) hwaiting hwants
  | returns hwaiting => exact h.returns hlog (hroom rfl) hwaiting
  | refuses => exact h.quiet rfl rfl rfl (not_polls nofun) fun _ hsame _ => by cases hsame
  | fails => exact h.quiet rfl rfl rfl (not_polls nofun) fun _ hsame _ => by cases hsame
  | timedOut => exact h.quiet rfl rfl rfl (not_polls nofun) fun _ hsame _ => by cases hsame
  | interrupted => exact h.quiet rfl rfl rfl (not_polls nofun) fun _ hsame _ => by cases hsame

theorem followed_run (hrun : Trace (DebuggerSession.perform protocol) (.start C) trace session)
    (hroom : ∀ m ∈ trace, Unsaturated m.1 m.2) (hfollows : ∀ m ∈ trace, Follows client m.1 m.2) :
    Followed trace session client := by
  induction hrun with
  | start => exact followed_start
  | @step trace session step session' hbefore hperform ih =>
    rw [List.forall_mem_append, List.forall_mem_singleton] at hroom hfollows
    exact followed_changes (ih hroom.1 hfollows.1) (logged_run hbefore hroom.1).1 hroom.2
      hfollows.2 (DebuggerSession.changes_of_perform hperform)

end Delivery

section Service

-- What the next step of the session has for a client that follows the log.
structure Served (protocol : Protocol) (session : DebuggerSession C) (client : C) : Prop where
  found : ∀ wait session' event, wait.client = client → wait.kinds = [] →
    wait.afterSequence = cursor session client →
    session.perform protocol (.waitForEvent wait) = some session' →
    session.events.find? (fun event => cursor session client < event.sequence) = some event →
    received session' client = received session client ++ [event]
  waits : ∀ wait session', wait.client = client → wait.kinds = [] →
    wait.afterSequence = cursor session client →
    session.perform protocol (.waitForEvent wait) = some session' →
    (∀ event ∈ session.events, event.sequence ≤ cursor session client) →
    session'.waiting = some wait ∧ received session' client = received session client
  arrives : ∀ wait session' event, session.waiting = some wait → wait.client = client →
    Unsaturated session .nextEvent → session.perform protocol .nextEvent = some session' →
    session'.recorded = session.recorded ++ [event] →
    received session' client = received session client ++ [event]

theorem Followed.served (h : Followed trace session client) (hlog : Logged session) :
    Served protocol session client where
  found wait session' event hclient hkinds hafter hperform hfind := by
    obtain rfl := hclient
    rw [← hafter, ← wants_eq hkinds] at hfind
    cases DebuggerSession.changes_of_perform hperform with
    | found _ _ hfound =>
      obtain rfl := Option.some.inj (hfind.symm.trans hfound)
      exact received_give_self _ _ _
    | waits _ _ hnone =>
      rw [hnone] at hfind
      cases hfind
  waits wait session' hclient hkinds hafter hperform hnothing := by
    cases DebuggerSession.changes_of_perform hperform with
    | found _ _ hfound =>
      have hlater := (wants_iff hkinds).mp (List.find?_some hfound)
      exact absurd (hnothing _ (List.mem_of_find?_eq_some hfound))
        (Nat.not_le.mpr (hafter ▸ hlater))
    | waits => exact ⟨rfl, rfl⟩
  arrives wait session' event hwaiting hclient hroom hperform hrecorded := by
    obtain ⟨hkinds, hafter, -⟩ := h.waiting wait hwaiting hclient
    have hgrown {recorded : List DebuggerEventRecord}
        (hsame : recorded = recorded ++ [event]) : False := by
      have hlength := congrArg List.length hsame
      rw [List.length_append, List.length_singleton] at hlength
      exact absurd hlength (Nat.ne_of_lt (Nat.lt_succ_self _))
    cases DebuggerSession.changes_of_perform hperform with
    | refuses => exact (hgrown hrecorded).elim
    | fails => exact (hgrown hrecorded).elim
    | records hsame _ _ hwants =>
      obtain rfl := Option.some.inj (hwaiting.symm.trans hsame)
      have hlater := h.cursor_lt_next hlog (hroom rfl)
      rw [(wants_iff hkinds).mpr (hafter ▸ hlater)] at hwants
      cases hwants
    | returns hsame =>
      obtain rfl := Option.some.inj (hwaiting.symm.trans hsame)
      obtain rfl := hclient
      obtain rfl := List.singleton_inj.mp (List.append_cancel_left hrecorded)
      exact received_give_self _ _ _

theorem events_delivered
    (hrun : Trace (DebuggerSession.perform protocol) (.start C) trace session) :
    session.events.length ≤ maxDebugEvents ∧
      ((∀ m ∈ trace, Unsaturated m.1 m.2) →
        (session.events.Pairwise fun event later => event.sequence < later.sequence) ∧
          session.events.length + session.droppedEvents = session.recorded.length ∧
          Logged session ∧ Merged session ∧
          ∀ client, (∀ m ∈ trace, Follows client m.1 m.2) →
            Delivered trace session client ∧ Served protocol session client) := by
  refine ⟨capacity_run hrun, fun hroom => ?_⟩
  obtain ⟨hlog, hmerged⟩ := logged_run hrun hroom
  refine ⟨hlog.sorted, hlog.accounted, hlog, hmerged, fun client hfollows => ?_⟩
  have hfollowed := followed_run hrun hroom hfollows
  exact ⟨hfollowed.toDelivered, hfollowed.served hlog⟩

instance (session : DebuggerSession C) (step : SessionStep C) :
    Decidable (Unsaturated session step) :=
  match step with
  | .nextEvent => decidable_of_iff (session.eventSequence < maxSequence)
      ⟨fun h _ => h, fun h => h rfl⟩
  | .connection _ | .waitForEvent _ | .timedOut | .interrupted _ _ => isTrue nofun

instance (client : C) (session : DebuggerSession C) (step : SessionStep C) :
    Decidable (Follows client session step) :=
  match step with
  | .waitForEvent wait => decidable_of_iff (wait.client = client →
      wait.kinds = [] ∧ wait.afterSequence = cursor session client)
      ⟨fun h other hsame => by cases hsame; exact h, fun h => h wait rfl⟩
  | .connection _ | .nextEvent | .timedOut | .interrupted _ _ => isTrue nofun

end Service

section Interleaved

-- One event comes before the reply to a request, and another one while the client waits.
def interleaved : List (SessionStep Unit) :=
  [.connection (.request [7]), .connection (.deliver Debugger.event), .connection (.deliver (replyTo 0)),
    .connection .receive, .connection .receive, .waitForEvent ⟨(), 0, []⟩, .nextEvent,
    .waitForEvent ⟨(), 1, []⟩, .connection (.deliver Debugger.event), .nextEvent]

def delivered : List (DebuggerSession Unit × SessionStep Unit) × DebuggerSession Unit :=
  replay (DebuggerSession.perform tinyProtocol) interleaved (.start Unit)

theorem delivered_unsaturated : ∀ m ∈ delivered.1, Unsaturated m.1 m.2 := by decide +kernel

theorem delivered_follows : ∀ m ∈ delivered.1, Follows () m.1 m.2 := by decide +kernel

theorem events_delivered_interleaved :
    (received delivered.2 ()).map DebuggerEventRecord.sequence = [1, 2] ∧
      delivered.2.events.length ≤ maxDebugEvents ∧ Logged delivered.2 ∧ Merged delivered.2 ∧
      Delivered delivered.1 delivered.2 () ∧ Served tinyProtocol delivered.2 () := by
  obtain ⟨hcapacity, hunsaturated⟩ := events_delivered (Trace.replay interleaved)
  obtain ⟨-, -, hlogged, hmerged, hfollowed⟩ := hunsaturated delivered_unsaturated
  obtain ⟨hdelivered, hserved⟩ := hfollowed () delivered_follows
  exact ⟨by decide +kernel, hcapacity, hlogged, hmerged, hdelivered, hserved⟩

end Interleaved

section Saturated

variable {run : List (DebuggerSession Unit × SessionStep Unit)} {idle : DebuggerSession Unit}
  {n : Nat}

-- The client has been given the last of the events, which is number `n`.
structure UpToDate (n : Nat) (session : DebuggerSession Unit) : Prop where
  inbound : session.link.inbound = []
  queue : session.link.events = []
  awaiting : session.link.awaiting = none
  waiting : session.waiting = none
  next : session.eventSequence = n
  cursor : Debugger.cursor session () = n
  seen : ∀ event ∈ session.events, event.sequence ≤ n
  last : 0 < n → ∃ last, session.events.getLast? = some last ∧ last.sequence = n

theorem upToDate_start : UpToDate 0 (.start Unit) :=
  ⟨rfl, rfl, rfl, rfl, rfl, rfl, fun _ h => absurd h List.not_mem_nil,
    fun h => absurd h (Nat.lt_irrefl 0)⟩

def poll (n : Nat) : Wait Unit := ⟨(), n, []⟩

-- What a notification leaves of the connection once it has been taken.
def Link.notified (link : Link) : Link :=
  { link with
    inbound := []
    frames := link.frames ++ [Debugger.event]
    decoded := link.decoded ++ [.ok (.notification [])] }

theorem readResponse_event :
    tinyProtocol.readResponse Debugger.event.encode = some (.ok (.notification []), []) := by
  decide

-- The session once the poll has taken the notification.
def notified (n : Nat) (session : DebuggerSession Unit) : DebuggerSession Unit :=
  DebuggerSession.respond
    { session with link := session.link.notified, waiting := some (poll n) } (poll n)
    (.notification [])

-- A notification arrives, and is taken by a poll of the client.
theorem round_runs
    (hrun : Trace (DebuggerSession.perform tinyProtocol) (.start Unit) run idle)
    (hfollows : ∀ m ∈ run, Follows () m.1 m.2) (h : UpToDate n idle) :
    ∃ run', Trace (DebuggerSession.perform tinyProtocol) (.start Unit) run' (notified n idle) ∧
      ∀ m ∈ run', Follows () m.1 m.2 := by
  let arrived := { idle with
    link := { idle.link with
      inbound := idle.link.inbound ++ Debugger.event.encode
      frames := idle.link.frames ++ [Debugger.event] } }
  let polled := { arrived with waiting := some (poll n) }
  have hdelivered : idle.perform tinyProtocol (.connection (.deliver Debugger.event)) =
      some arrived := rfl
  have hfind : idle.events.find? (poll n).wants = none :=
    List.find?_eq_none.mpr fun event hmem hwants =>
      Nat.not_lt.mpr (h.seen event hmem) ((wants_iff rfl).mp hwants)
  have hpolled : arrived.perform tinyProtocol (.waitForEvent (poll n)) = some polled := by
    simp [arrived, polled, DebuggerSession.perform, h.waiting, h.awaiting, hfind]
  have htake : polled.link.takeEvent tinyProtocol =
      some (.ok (.notification []), idle.link.notified) := by
    simp [arrived, polled, Link.takeEvent, h.queue, h.inbound, readResponse_event, Link.read,
      Link.notified]
  have htaken : polled.perform tinyProtocol .nextEvent = some (notified n idle) := by
    have hwaiting : polled.waiting = some (poll n) := rfl
    rw [DebuggerSession.perform, hwaiting, htake]
    rfl
  refine ⟨_, ((hrun.step hdelivered).step hpolled).step htaken, ?_⟩
  simp only [List.forall_mem_append, List.forall_mem_singleton]
  refine ⟨⟨⟨hfollows, ?_⟩, ?_⟩, ?_⟩
  · intro wait hsame
    cases hsame
  · intro wait hsame _
    cases hsame
    exact ⟨rfl, h.cursor.symm⟩
  · intro wait hsame
    cases hsame

theorem notified_eq (h : UpToDate n idle) : ∃ pushed : DebuggerSession Unit,
    pushed.link = idle.link.notified ∧ pushed.eventSequence = Machine.saturatingAdd n 1 ∧
      (∃ kept, kept <:+ idle.events ∧ (idle.events ≠ [] → kept ≠ []) ∧
        pushed.events = kept ++ [⟨Machine.saturatingAdd n 1, .output, some []⟩]) ∧
      notified n idle = if (poll n).wants ⟨Machine.saturatingAdd n 1, .output, some []⟩
        then pushed.give () ⟨Machine.saturatingAdd n 1, .output, some []⟩ else pushed := by
  let heard : DebuggerSession Unit := { idle with
    link := idle.link.notified
    waiting := some (poll n)
    eventSequence := Machine.saturatingAdd n 1 }
  refine ⟨heard.push ⟨Machine.saturatingAdd n 1, .output, some []⟩, rfl, rfl,
    DebuggerSession.push_kept heard _, ?_⟩
  simp only [notified, DebuggerSession.respond, DebuggerSession.debuggerEvent, eventKind, h.next]
  rfl

theorem upToDate_notified (h : UpToDate n idle) (hroom : n < maxSequence) :
    UpToDate (n + 1) (notified n idle) := by
  obtain ⟨pushed, hlink, hnext, ⟨kept, hkept, -, hevents⟩, hnotified⟩ := notified_eq h
  rw [saturatingAdd_one hroom] at hnext hevents hnotified
  rw [(wants_iff rfl).mpr (Nat.lt_succ_self n : n < n + 1), if_pos rfl] at hnotified
  rw [hnotified]
  refine ⟨congrArg Link.inbound hlink, (congrArg Link.events hlink).trans h.queue,
    (congrArg Link.awaiting hlink).trans h.awaiting, rfl, hnext,
    cursor_snoc (received_give_self _ _ _), fun event hevent => ?_,
    fun _ => ⟨⟨n + 1, .output, some []⟩, ?_, rfl⟩⟩
  · have hpushed : event ∈ pushed.events := hevent
    rw [hevents] at hpushed
    rcases List.mem_append.mp hpushed with hold | hnew
    · exact Nat.le_succ_of_le (h.seen event (hkept.subset hold))
    · rw [List.mem_singleton.mp hnew]
  · exact (congrArg List.getLast? hevents).trans List.getLast?_concat

-- The last number is given to two events.
theorem notified_saturated (h : UpToDate maxSequence idle) :
    ¬(notified maxSequence idle).events.Pairwise
      fun event later => event.sequence < later.sequence := by
  obtain ⟨pushed, -, -, ⟨kept, hkept, hsome, hevents⟩, hnotified⟩ := notified_eq h
  have hsequence : Machine.saturatingAdd maxSequence 1 = maxSequence := rfl
  rw [hsequence] at hevents hnotified
  have hunwanted : (poll maxSequence).wants ⟨maxSequence, .output, some []⟩ = false := by
    rw [wants_eq rfl]
    exact decide_eq_false (Nat.lt_irrefl maxSequence)
  rw [hunwanted, if_neg Bool.false_ne_true] at hnotified
  obtain ⟨last, hlast, hnumber⟩ := h.last (by decide)
  rw [hnotified, hevents]
  intro hsorted
  have hmem : last ∈ kept := by
    have hne : idle.events ≠ [] := List.ne_nil_of_mem (List.mem_of_getLast? hlast)
    rw [List.getLast?_eq_some_getLast hne] at hlast
    rw [← Option.some.inj hlast, ← hkept.getLast (hsome hne)]
    exact List.getLast_mem _
  have hlt := (List.pairwise_append.mp hsorted).2.2 last hmem _ (List.mem_singleton.mpr rfl)
  exact absurd hlt (by rw [hnumber]; exact Nat.lt_irrefl _)

theorem upToDate_reached (n : Nat) (hn : n ≤ maxSequence) :
    ∃ run idle, Trace (DebuggerSession.perform tinyProtocol) (.start Unit) run idle ∧
      (∀ m ∈ run, Follows () m.1 m.2) ∧ UpToDate n idle := by
  induction n with
  | zero => exact ⟨[], _, .start, nofun, upToDate_start⟩
  | succ n ih =>
    obtain ⟨run, idle, hrun, hfollows, h⟩ := ih (Nat.le_of_succ_le hn)
    obtain ⟨run', hrun', hfollows'⟩ := round_runs hrun hfollows h
    exact ⟨run', _, hrun', hfollows', upToDate_notified h hn⟩

-- The sequence stays at its last number when 2^64 notifications have come.
theorem last_sequence_repeats :
    ¬∀ run session, Trace (DebuggerSession.perform tinyProtocol) (.start Unit) run session →
      (∀ m ∈ run, Follows () m.1 m.2) →
        session.events.Pairwise fun event later => event.sequence < later.sequence := by
  intro hclaim
  obtain ⟨run, idle, hrun, hfollows, h⟩ := upToDate_reached maxSequence (Nat.le_refl _)
  obtain ⟨run', hrun', hfollows'⟩ := round_runs hrun hfollows h
  exact notified_saturated h (hclaim run' _ hrun' hfollows')

end Saturated

end Debugger
