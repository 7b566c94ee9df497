import BrokerClient.Proofs.Naming
import BrokerClient.Proofs.Teardown

/-!
# The register of names and the broker agree

Where the broker may be slow but nothing fails, a name has an entry in the register of its
connection just if the broker declares it on the channel of the one session there, and on the topic
of the entry, whenever no call about the name is on its way (`names_agree_with_broker`). Calls about
different names may overlap as they like, and so may all other calls.

Two calls about one name may not. A call changes the register when it starts and the broker when its
request arrives, so that a new subscription which overtakes the call that unsubscribes the old one
is deleted at the broker while its entry stands (`overtaken_disagrees`).

What carries it is `Names.Agreed`, on the one channel of the session. Its moves ask for two things
of a run. No request may fail for another reason than that the channel is closed (`Mild`), and the
session is alone on its connection and closes only at the end (`Sole`). That no two errands are
about one name is read off the labels: a call about a name starts only when no other one is busy
with it (`cutsIn`).

Nothing is said of a name while a call about it is on its way, nor after a failure: what a failure
leaves is the matter of `Unsubscribing` and `FailedCreation`.
-/

namespace BrokerClient

/-- Whether a step lays out no fault but a delay. -/
def Label.delaysOnly : Label → Bool
  | .operate (.inject _ f) => f.failure.isNone
  | _ => true

namespace System

variable {w v : System} {c : ConnectionId} {s : SessionId} {i : CallId} {l : Label} {k : Nat}
  {name : String}

/-- Whether a call about a durable name of a session has not ended. -/
def busyWith (w : System) (s : SessionId) (name : String) : Bool :=
  (List.range w.calls.length).any fun i =>
    w.calls[i]?.any (fun t => t.call.durable? = some (s, name)) && !w.hasEnded i

/-- Whether a step starts a call about a durable name that goes on while another one has not
ended. -/
def cutsIn (w : System) : Label → Bool
  | .call y => y.durable?.any fun n => w.busyWith n.1 n.2 && !(w.call y).2.hasEnded w.calls.length
  | _ => false

/-! ## Nothing fails -/

/-- No fault that is laid out lets a request fail, nor does a request wait to fail. -/
structure Mild (w : System) : Prop where
  faults : ∀ c, ∀ y ∈ (w.connection c).faults, y.failure = none
  stage : ∀ {i e}, w.progress? i = some (.exchange e) → ∀ f after, e.stage ≠ .before (some f) after

/-- Faults are used up, and only the program lays them out. -/
theorem faults_step (hl : l.throughSessions = true) (hs : w.step? l = some v) {y : Fault}
    (hy : y ∈ (v.connection c).faults) :
    y ∈ (w.connection c).faults ∨ ∃ d, l = .operate (.inject d y) := by
  cases l with
  | operate o =>
    obtain ⟨_, rfl⟩ := step_operate hs
    have ho : o.meddles = false := by simpa [Label.throughSessions] using hl
    -- Of all operations only an injection makes this list longer.
    by_cases hb : o.isBrokerSide = true
    · cases o with
      | report d k es =>
        rw [operate, reportAll_eq,
          connection_modifyConnection_of (g := Connection.faults) (by intro _; rfl)] at hy
        exact .inl hy
      | inject d f =>
        by_cases hd : d = c ∧ d < w.connections.length
        · obtain ⟨rfl, hd⟩ := hd
          rw [operate, connection_modifyConnection_self hd] at hy
          rcases List.mem_append.1 hy with hy | hy
          · exact .inl hy
          · exact .inr ⟨d, by rw [List.mem_singleton.1 hy]⟩
        · refine .inl ?_
          rw [operate] at hy
          by_cases hdc : d = c
          · have hle : w.connections.length ≤ d := Nat.le_of_not_lt fun h => hd ⟨hdc, h⟩
            rwa [modifyConnection, List.modify_eq_self hle] at hy
          · rwa [connection_modifyConnection_ne hdc] at hy
      | _ => cases hb
    · exact .inl ((plain_operate w ho (by simpa using hb)).faults c hy)
  | call x =>
    obtain ⟨_, rfl⟩ := step_call hs
    exact .inl ((stride_call w x).faults c hy)
  | run a =>
    cases a with
    | call j =>
      rcases resume_cases hs with ⟨e, after, _, _, _, rfl⟩ | hst
      · rw [takeEffect, connection_setCall,
          connection_modifyConnection_of (g := Connection.faults) (by intro _; rfl)] at hy
        exact .inl hy
      · exact .inl (hst.faults c hy)
    | dispatcher s =>
      obtain ⟨f, hf⟩ := framed_dispatch hs
      rw [connection_congr hf.connections, modifyChannelOf,
        connection_modifyConnection_of (g := Connection.faults) (by intro _; rfl)] at hy
      exact .inl hy
  | take j =>
    obtain ⟨o, _, rfl | ⟨s, _, rfl⟩⟩ := take?_cases hs <;> exact .inl hy
  | tick t =>
    obtain ⟨_, rfl⟩ := step_tick hs
    exact .inl hy

/-- Nothing that fails comes in as long as only delays are laid out. -/
theorem Mild.step (h : w.Mild) (hl : l.throughSessions = true) (hd : l.delaysOnly = true)
    (hs : w.step? l = some v) : v.Mild := by
  refine ⟨fun c y hy => ?_, fun {j e} hj => ?_⟩
  · rcases faults_step hl hs hy with hy | ⟨d, rfl⟩
    · exact h.faults c y hy
    · simpa [Label.delaysOnly] using hd
  -- A turn of a call makes a new exchange from a fault of the connection, and those only delay.
  -- What other calls have under way is as it was.
  · have hstride : ∀ {n u}, Stride n u v → (∀ c, u.connection c = w.connection c) →
        (∀ m, u.progress? m = w.progress? m ∨ u.progress? m = some .begun) →
        ∀ f after, e.stage ≠ .before (some f) after := by
      intro n u hst hc hp f after he
      by_cases hnj : n = j
      · subst hnj
        obtain ⟨_, failure, after', hstage, hf⟩ := hst.fresh e hj
        rw [hstage] at he
        obtain ⟨y, hy, hyf⟩ := hf f (by cases he; rfl)
        rw [h.faults _ y (hc _ ▸ hy)] at hyf
        cases hyf
      · rw [hst.progress j hnj] at hj
        rcases hp j with hu | hu <;> rw [hu] at hj
        · exact h.stage hj f after he
        · cases hj
    rcases step_kinds hs with hr | ⟨y, _, hst⟩ | ⟨n, _, hst⟩ | ⟨n, g, after, _, hp, _, _, rfl⟩
    · exact h.stage ((hr.progress j).symm.trans hj)
    · exact hstride hst (fun _ => rfl) fun m => (progress_enlist w y m).imp id And.right
    · exact hstride hst (fun _ => rfl) fun _ => .inl rfl
    · by_cases hnj : n = j
      · subst hnj
        rw [takeEffect, progress_setCall_self (by exact lt_of_progress hp)] at hj
        cases hj
        intro f after he
        cases he
      · rw [takeEffect, progress_setCall_ne hnj] at hj
        exact h.stage hj

/-- Where only delays are laid out nothing ever fails at a broker. -/
theorem mild_of_run {ls : List Label} (h : Run {} ls w) (hl : ∀ l ∈ ls, l.throughSessions = true)
    (hd : ∀ l ∈ ls, l.delaysOnly = true) : w.Mild := by
  induction h with
  | refl =>
    refine ⟨fun c y hy => ?_, fun hj => ?_⟩
    · cases hy
    · cases hj
  | step _ hs ih =>
    obtain ⟨hl, hll⟩ := List.forall_mem_append.1 hl
    obtain ⟨hd, hdl⟩ := List.forall_mem_append.1 hd
    exact (ih hl hd).step (hll _ (List.mem_singleton_self _)) (hdl _ (List.mem_singleton_self _)) hs

/-! ## One session on its channel -/

/-- Every session of a connection has the same channel, so that there is one at most. -/
def Sole (w : System) (c : ConnectionId) (k : Nat) : Prop :=
  ∀ {t k'}, w.address? t = some (c, k') → k' = k

/-- A call with an errand has not ended. -/
theorem busyWith_of_errand (hw : w.Wired) (hsound : w.ledger.Sound) (hsole : w.Sole c k)
    (ha : w.address? s = some (c, k)) {e : Errand} (he : w.names.errand i = some e)
    (hc : e.connection = c) : w.busyWith s e.name = true := by
  obtain ⟨p, hp, hpe⟩ := Option.bind_eq_some_iff.1 he
  obtain ⟨t, ht, rfl⟩ := task_of_progress hp
  obtain ⟨s', hd, ha'⟩ := hw.durable_of_errand he (isCall_of_getElem? ht)
  rw [hc] at ha'
  -- The call is one on this session, for there is no other.
  obtain rfl : s' = s := address_inj hsound (hsole ha' ▸ ha') ha
  have hended : w.hasEnded i = false := by
    rw [hasEnded, hp]
    cases hpr : t.progress with
    | ended o =>
      rw [hpr] at hpe
      cases hpe
    | _ => rfl
  simp only [busyWith, List.any_eq_true, List.mem_range]
  exact ⟨i, lt_of_progress hp, by simp [ht, hd, hended]⟩

/-- A name that no call on the session is busy with is idle. -/
theorem idle_of_busyWith (hw : w.Wired) (hsound : w.ledger.Sound) (hsole : w.Sole c k)
    (ha : w.address? s = some (c, k)) (hb : w.busyWith s name = false) :
    w.names.Idle c name := by
  rintro i e he hc rfl
  rw [busyWith_of_errand hw hsound hsole ha he hc] at hb
  cases hb

/-- A channel that nobody asked to close is open. -/
theorem opens_of_asked (hsound : w.ledger.Sound) (hasked : w.Asked)
    (ha : w.address? s = some (c, k)) (hk : .closeChannel k ∉ (w.connection c).asked) :
    w.opens c k = true := by
  have hlt := (channel_lt hsound ha).2
  have hopen : ((w.connection c).broker.channelOrNew k).isOpen = true := by
    by_contra hne
    exact hk (hasked.closed (by simpa using hne))
  rw [Broker.channelOrNew, List.getElem?_eq_getElem hlt] at hopen
  rw [opens, Broker.opens, List.getElem?_eq_getElem hlt]
  exact hopen

/-- Who takes up an errand in a step is the call that is started. -/
theorem started_of_errand {y : Call} (hs : w.step? (.call y) = some v) {e : Errand}
    (hn : w.names.errand i = none) (he : v.names.errand i = some e) :
    i = w.calls.length ∧ v.hasEnded i = false := by
  obtain ⟨_, rfl⟩ := step_call hs
  obtain ⟨p, hp, hpe⟩ := Option.bind_eq_some_iff.1 he
  refine ⟨?_, ?_⟩
  · by_contra hne
    rw [(stride_call w y).progress i (Ne.symm hne)] at hp
    rcases progress_enlist w y i with hq | ⟨_, hq⟩
    · rw [hq] at hp
      rw [names_errand hp, hpe] at hn
      cases hn
    · rw [hq] at hp
      cases hp
      cases hpe
  · rw [hasEnded, hp]
    cases p with
    | ended o => cases hpe
    | _ => rfl

/-- The register of a session agrees with its broker in every run in which nothing fails and no call
about a name cuts in on another one. Each move of the names is one of the cases for which agreement
was shown; a call that begins one finds the name idle. -/
theorem agreed_of_run {ls : List Label} (h : Run {} ls w)
    (hl : ∀ l ∈ ls, l.throughSessions = true) (hd : ∀ l ∈ ls, l.delaysOnly = true)
    (hcut : Along (fun v l => v.cutsIn l = false) {} ls) (hsole : w.Sole c k)
    (hk : .closeChannel k ∉ (w.connection c).asked) : w.names.Agreed w.destination? c k := by
  induction h with
  | refl =>
    have hnone : ∀ i, ({} : System).names.errand i = none := fun _ => rfl
    refine ⟨fun hi => ?_, fun hi => ?_, fun _ => .inl ⟨rfl, rfl⟩⟩
    · rw [hnone] at hi
      cases hi
    · rw [hnone] at hi
      cases hi
  | @step ls u l v hrun hs ih =>
    have hw := wired_of_run hrun
    have hsound := sound_of_run hrun
    obtain ⟨hl, hll⟩ := List.forall_mem_append.1 hl
    obtain ⟨hd, hdl⟩ := List.forall_mem_append.1 hd
    obtain ⟨hcut, hcutl⟩ := (hrun.along_snoc l).1 hcut
    have hmild := (mild_of_run hrun hl hd).step (hll l (List.mem_singleton_self l))
      (hdl l (List.mem_singleton_self l)) hs
    have hgrows := (onward_step hw hs).grows
    -- Sessions are not given up and requests stay asked, so all this held before the step.
    have hsoleu : u.Sole c k := fun ha => hsole (getElem?_of_grows hgrows.addresses ha)
    have hku : .closeChannel k ∉ (u.connection c).asked := fun hm => hk (asked_step hs c hm)
    have hag := (ih hl hd hcut hsoleu hku).mono (E := v.destination?) fun x d hx => by
      obtain ⟨o, ho, rfl⟩ := Option.map_eq_some_iff.1 hx
      exact Option.map_eq_some_iff.2 ⟨o, getElem?_of_grows hgrows.origins ho, rfl⟩
    rcases names_step hw (hll l (List.mem_singleton_self l)) hs with he | hm
    · rwa [he]
    refine hag.move hm hsoleu (fun {j e} he hc => ?_) (fun {j e} hn he hc => ?_)
      fun {j e f after} he hst => ?_
    · obtain ⟨p, hp, _⟩ := Option.bind_eq_some_iff.1 he
      obtain ⟨y, hy, _⟩ := hw.fits hp
      obtain ⟨s, _, ha⟩ := hw.durable_of_errand he hy
      rw [hc] at ha
      obtain rfl := hsoleu ha
      exact opens_of_asked hsound (asked_of_run hrun) ha hku
    · obtain ⟨y, s, rfl, hy, ha⟩ := hm.started hn he
      obtain ⟨rfl, hended⟩ := started_of_errand hs hn he
      rw [hc] at ha
      obtain rfl := hsoleu ha
      -- A call that does not end at once finds nobody else at the name.
      have hb : u.busyWith s e.name = false := by
        rw [cutsIn, ← (step_call hs).2] at hcutl
        simpa [hy, hended] using hcutl
      exact idle_of_busyWith hw hsound hsoleu ha hb
    · obtain ⟨p, hp, hpe⟩ := Option.bind_eq_some_iff.1 he
      cases p with
      | exchange g =>
        refine hmild.stage hp f after ?_
        rw [← hst]
        exact (Exchange.stage_of_errand hpe).symm
      | _ => cases hpe

/-! ## Agreement -/

/-- The channel of an open session was not asked to close. -/
theorem closeChannel_not_asked (h : w.ledger.Sound) (hs : s < w.sessions.length)
    (hopen : (w.session s).closed = false) :
    .closeChannel (w.session s).channel ∉ (w.connection (w.session s).connection).asked := by
  intro hm
  have hpos := List.count_pos_iff.2 hm
  rw [count_closeChannel h, List.countP_pos_iff] at hpos
  obtain ⟨x, hx, hat⟩ := hpos
  obtain ⟨t, ht⟩ := List.getElem?_of_mem hx
  obtain ⟨htl, rfl⟩ := room_eq_some ht
  obtain ⟨hroom, hclosed⟩ := Bool.and_eq_true_iff.1 hat
  -- The session that was closed is on the same channel, so it is this one.
  have haddr : (w.session t).connection = (w.session s).connection ∧
      (w.session t).channel = (w.session s).channel := by simpa [Room.isAt] using hroom
  obtain rfl : t = s := address_inj h (address_eq htl) (by rw [address_eq hs, haddr.1, haddr.2])
  have hcl : (w.session t).closed = true := hclosed
  rw [hopen] at hcl
  cases hcl

/-- The register of names and the broker agree. In every state that a run comes to in which the
register is left to the sessions, nothing that the broker is asked for fails, and no call about a
name goes on while another one about it has not ended: for a session that is open and the only one
of its connection, and for a name about which no call is on its way, the name has an entry with a
topic for destination just if the channel declares it on that topic. -/
theorem names_agree_with_broker {ls : List Label} {w : System} (h : Run {} ls w)
    (hl : ∀ l ∈ ls, l.throughSessions = true) (hd : ∀ l ∈ ls, l.delaysOnly = true)
    (hcut : Along (fun v l => v.cutsIn l = false) {} ls) {s : SessionId}
    (hs : s < w.sessions.length) (hopen : (w.session s).closed = false)
    (hsole : ∀ t < w.sessions.length, (w.session t).connection = (w.session s).connection → t = s)
    {name : String} (hidle : w.busyWith s name = false) (topic : String) :
    (∃ x, (w.connection (w.session s).connection).subscriptions.get? name = some x ∧
      w.destinationOf x = .topic topic) ↔ (w.channelOf s).topicOf? name = some topic := by
  have hw := wired_of_run h
  have hsound := sound_of_run h
  have ha := address_eq hs
  -- The hypothesis speaks of sessions, `Sole` of addresses.
  have hsole' : w.Sole (w.session s).connection (w.session s).channel := by
    intro t k' ht
    have hlt := lt_of_address ht
    rw [address_eq hlt] at ht
    obtain ⟨hconn, rfl⟩ := Prod.mk.inj (Option.some.inj ht)
    rw [hsole t hlt hconn]
  have hasked := closeChannel_not_asked hsound hs hopen
  have hsettled := (agreed_of_run h hl hd hcut hsole' hasked).settled
    (idle_of_busyWith hw hsound hsole' ha hidle)
  have hdest : ∀ {x d}, w.destination? x = some d → w.destinationOf x = d := by
    intro x d hx
    obtain ⟨⟨_, _, _⟩, ho, rfl⟩ := Option.map_eq_some_iff.1 hx
    exact destination_of_origin ho
  rcases hsettled with ⟨hentry, htopic⟩ | ⟨x, t, hentry, hx, htopic⟩
  · have htopic : (w.channelOf s).topicOf? name = none := htopic
    have hentry : (w.connection (w.session s).connection).subscriptions.get? name = none := hentry
    simp [hentry, htopic]
  · have htopic : (w.channelOf s).topicOf? name = some t := htopic
    have hentry : (w.connection (w.session s).connection).subscriptions.get? name = some x := hentry
    simp [hentry, htopic, hdest hx]

/-- A session has a subscriber to prices on the name "feed", which is closed; whatever is deleted
then takes ten milliseconds to reach the broker. -/
def slowDeletes : List Label :=
  [.operate .createRegistry, .operate (.connect 0 (.ofMillis 15000) {}),
    .call (.createSession 0 false .auto none), .run (.call 0), .run (.call 0), .take 0,
    .call (.subscribe 0 (.topic "prices") "feed"), .run (.call 1), .run (.call 1),
    .operate (.closeConsumer 0), .operate (.inject 0 { kind := .delete, delay := 10 })]

/-- While "feed" is unsubscribed, another name is taken. -/
def sideBySide : List Label :=
  slowDeletes ++ [.call (.unsubscribe 0 "feed"), .call (.subscribe 0 (.topic "news") "reader"),
    .run (.call 3), .run (.call 3), .tick 10, .run (.call 2), .run (.call 2)]

theorem sideBySide_isSome : (after? {} sideBySide).isSome = true := by decide

def sideBySideEnd : System := (after? {} sideBySide).get sideBySide_isSome

/-- One name is declared and one is deleted, and the register says so of both. -/
theorem sideBySide_agrees :
    (∃ x, (sideBySideEnd.connection 0).subscriptions.get? "reader" = some x ∧
      sideBySideEnd.destinationOf x = .topic "news") ∧
    (∀ topic, ¬∃ x, (sideBySideEnd.connection 0).subscriptions.get? "feed" = some x ∧
      sideBySideEnd.destinationOf x = .topic topic) := by
  have hsole : ∀ t < sideBySideEnd.sessions.length,
      (sideBySideEnd.session t).connection = (sideBySideEnd.session 0).connection → t = 0 := by
    decide
  have hagree := fun {name} (hidle : sideBySideEnd.busyWith 0 name = false) =>
    names_agree_with_broker (.of_isSome sideBySide_isSome) (by decide) (by decide) (by decide)
      (by decide) (by decide) hsole hidle
  refine ⟨(hagree (by decide) "news").2 (by decide), fun topic hx => ?_⟩
  have htopic := (hagree (by decide) topic).1 hx
  have hnone : (sideBySideEnd.channelOf 0).topicOf? "feed" = none := by decide
  rw [← sideBySideEnd, hnone] at htopic
  cases htopic

/-- The same name is taken again, by a call that overtakes the one that unsubscribes it. -/
def overtaken : List Label :=
  slowDeletes ++ [.call (.unsubscribe 0 "feed"), .call (.subscribe 0 (.topic "prices") "feed"),
    .run (.call 3), .run (.call 3), .tick 10, .run (.call 2), .run (.call 2)]

theorem overtaken_isSome : (after? {} overtaken).isSome = true := by decide

def overtakenEnd : System := (after? {} overtaken).get overtaken_isSome

/-- Nothing has failed, all calls have ended, and a subscriber that is open has its entry on the
connection of the one session, which is open; but the broker does not know it any more. -/
theorem overtaken_disagrees :
    Run {} overtaken overtakenEnd ∧ (∀ l ∈ overtaken, l.throughSessions = true) ∧
    (∀ l ∈ overtaken, l.delaysOnly = true) ∧
    (∀ i < overtakenEnd.calls.length, overtakenEnd.hasEnded i = true) ∧
    overtakenEnd.sessions.length = 1 ∧ (overtakenEnd.session 0).closed = false ∧
    (overtakenEnd.connection 0).subscriptions.get? "feed" = some 1 ∧
    overtakenEnd.destinationOf 1 = .topic "prices" ∧ overtakenEnd.consumerClosed 1 = false ∧
    (overtakenEnd.channelOf 0).topicOf? "feed" = none :=
  ⟨.of_isSome overtaken_isSome, by decide, by decide, by decide, by decide, by decide, by decide,
    by decide, by decide, by decide⟩

end System

end BrokerClient
