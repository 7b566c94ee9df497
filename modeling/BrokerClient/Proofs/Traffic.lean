import BrokerClient.Proofs.Recounting
import BrokerClient.Script.BrokerAlone

/-!
# What becomes of calls that overlap

Calls on a broker overlap, and some of them are slow. Whatever their interleaving, what the broker
keeps can be told from the calls that have ended and from what their callers heard
(`store_matches_history`): a message published under a number is found under that number for good,
the last request about a name settles what is declared under it, nothing on a channel changes after
its first close, and only the first close of anything reports what was laid out for it.

One step of a run is one of four kinds (`Turn`), and each of them keeps the invariant `Sound`. A
script that drives a broker request by request is such a run (`serves_script`).

A call is cut where it waits. It is made, then its request takes effect, and where a channel was
opened the call waits once more before it is handed over. In between the caller may give up. A
request that has not taken effect then never does, and a channel that was opened stays at the
broker, with nobody who listens to it. Answers are counted when calls end, so that the answers of
overlapping calls stand in the order in which their callers heard them.
-/

namespace BrokerClient

namespace Traffic

variable {w v u : Traffic} {l : Label} {ls ms : List Label} {plan : BrokerPlan} {r : Request}

/-! ## Runs -/

theorem Run.trans (h : Run w ls v) (h' : Run v ms u) : Run w (ls ++ ms) u := by
  induction h' with
  | refl => rw [List.append_nil]; exact h
  | step _ hs ih => rw [← List.append_assoc]; exact .step ih hs

/-- The state after steps that are taken in turn, if each can be taken. -/
def after? (w : Traffic) : List Label → Option Traffic
  | [] => some w
  | l :: ls => (w.step? l).bind fun v => after? v ls

theorem Run.of_after? (h : w.after? ls = some u) : Run w ls u := by
  induction ls generalizing w with
  | nil =>
    cases h
    exact .refl
  | cons l ls ih =>
    obtain ⟨v, hv, hu⟩ := Option.bind_eq_some_iff.1 h
    exact Run.trans (.step .refl hv) (ih hu)

theorem Run.of_isSome (h : (w.after? ls).isSome = true) : Run w ls ((w.after? ls).get h) :=
  .of_after? (Option.some_get h).symm

/-! ## Steps -/

/-- What one step of a run does. -/
inductive Turn (w v : Traffic) : Prop where
  /-- No request takes effect and no call ends; a call may be made or given up. -/
  | aside (hcore : v.broker.core = w.broker.core) (he : v.ended = w.ended)
    (hcalls : ∀ p ∈ v.underWay, p ∈ w.underWay ∨ ∃ r due, p = .request r due ∧ w.mayAsk r = true)
  /-- A request takes effect, and the call ends. -/
  | lands {r due} (hr : .request r due ∈ w.underWay) (ho : ∀ k, (w.broker.perform r).1 ≠ .opened k)
    (hb : v.broker = (w.broker.perform r).2)
    (he : v.ended = w.ended ++ [(r, (w.broker.perform r).1)])
    (hcalls : ∀ p ∈ v.underWay, p ∈ w.underWay)
  /-- A channel is opened. -/
  | opens {r k} (ho : (w.broker.perform r).1 = .opened k) (hb : v.broker = (w.broker.perform r).2)
    (he : v.ended = w.ended)
    (hcalls : ∀ p ∈ v.underWay, p ∈ w.underWay ∨ ∃ due, p = .handOver k due)
  /-- A channel is handed over. -/
  | handsOver {k due} (hk : .handOver k due ∈ w.underWay) (hb : v.broker = w.broker)
    (he : v.ended = w.ended ++ [(.createChannel, .opened k)])
    (hcalls : ∀ p ∈ v.underWay, p ∈ w.underWay)

/-- A step that changes the stream of a channel. -/
theorem turn_modifyStream (w : Traffic) (k : Nat) {f : Channel → Channel}
    (hf : ∀ c, (f c).core = c.core) (ps : List Passage) (hps : ∀ p ∈ ps, p ∈ w.underWay) :
    Turn w ({ w with underWay := ps }.modifyStream k f) :=
  .aside (Broker.core_modifyChannel fun c _ => hf c) rfl fun p hp => .inl (hps p hp)

/-- Taking a report changes the stream of a channel and nothing else. -/
theorem core_take (c : Channel) : c.take.2.core = c.core := by
  unfold Channel.take
  split <;> rfl

/-- A request that opens a channel takes effect before the channel is handed over. -/
theorem land_opened {k : Nat} (ho : (w.broker.perform r).1 = .opened k) (i : Nat) :
    w.land i r = { w with
      broker := (w.broker.perform r).2
      underWay := w.underWay.set i
        (.handOver k (w.now + (w.broker.perform r).2.lag (.opened k))) } := by
  simp only [land, ho]

/-- Every other request takes effect and ends in one. -/
theorem land_eq (ho : ∀ k, (w.broker.perform r).1 ≠ .opened k) (i : Nat) :
    w.land i r = ({ w with broker := (w.broker.perform r).2 } : Traffic).conclude i r
      (w.broker.perform r).1 := by
  cases hreply : (w.broker.perform r).1 with
  | opened k => exact absurd hreply (ho k)
  | done => simp only [land, hreply]
  | failed e => simp only [land, hreply]

/-- A request that takes effect is a turn: it lands, or it opens a channel. -/
theorem turn_land {i due : Nat} (hi : w.underWay[i]? = some (.request r due)) :
    Turn w (w.land i r) := by
  by_cases ho : ∃ k, (w.broker.perform r).1 = .opened k
  · obtain ⟨k, ho⟩ := ho
    rw [land_opened ho]
    refine .opens ho rfl rfl fun p hp => ?_
    rcases List.mem_or_eq_of_mem_set hp with hp | rfl
    · exact .inl hp
    · exact .inr ⟨_, rfl⟩
  · rw [not_exists] at ho
    rw [land_eq ho]
    exact .lands (List.mem_of_getElem? hi) ho rfl rfl fun p hp => List.mem_of_mem_eraseIdx hp

/-- A call that goes on is a turn. -/
theorem turn_resume {i : Nat} (h : w.resume? i = some v) : Turn w v := by
  unfold resume? at h
  split at h
  next r due hi =>
    split at h
    · cases h
      exact turn_land hi
    · cases h
  next k due hi =>
    split at h
    · cases h
      exact .handsOver (List.mem_of_getElem? hi) rfl rfl fun p hp => List.mem_of_mem_eraseIdx hp
    · cases h
  next => cases h

/-- A caller that gives up leaves what took effect as it is, and nobody listens to a channel that it
did not get. -/
theorem turn_giveUp {i : Nat} (h : w.giveUp? i = some v) : Turn w v := by
  unfold giveUp? at h
  simp only at h
  split at h
  · cases h
    exact .aside rfl rfl fun p hp => .inl (List.mem_of_mem_eraseIdx hp)
  next k due hi =>
    cases h
    exact turn_modifyStream (f := Channel.abandonStream) w k (fun _ => rfl) _ fun p hp =>
      List.mem_of_mem_eraseIdx hp
  · cases h

/-- Every step is a turn. -/
theorem turn_step (h : w.step? l = some v) : Turn w v := by
  have hstream : ∀ {k : Nat} {f : Channel → Channel}, (∀ c, (f c).core = c.core) →
      (if w.handedOver k then some (w.modifyStream k f) else none) = some v → Turn w v := by
    intro k f hf h
    split at h
    · cases h
      exact turn_modifyStream w k hf _ fun _ hp => hp
    · cases h
  cases l with
  | ask r =>
    rw [step?] at h
    split at h
    next hr =>
      cases h
      refine .aside rfl rfl fun p hp => ?_
      rcases List.mem_append.1 hp with hp | hp
      · exact .inl hp
      · exact .inr ⟨r, _, List.mem_singleton.1 hp, hr⟩
    next => cases h
  | resume i => exact turn_resume h
  | giveUp i => exact turn_giveUp h
  | refuse refusing =>
    cases h
    exact .aside rfl rfl fun _ hp => .inl hp
  | report k e =>
    cases h
    refine .aside ?_ rfl fun _ hp => .inl hp
    rw [Broker.report_eq]
    exact w.broker.core_reported k [e]
  | take k => exact hstream core_take h
  | stopListening k => exact hstream (f := Channel.stopListening) (fun _ => rfl) h
  | abandonStream k => exact hstream (f := Channel.abandonStream) (fun _ => rfl) h
  | tick t =>
    rw [step?] at h
    split at h
    · cases h
      exact .aside rfl rfl fun _ hp => .inl hp
    · cases h

theorem Turn.length_le (h : Turn w v) : w.broker.channels.length ≤ v.broker.channels.length := by
  cases h with
  | aside hcore =>
    have hlen := congrArg (fun b : Broker => b.channels.length) hcore
    simp only [Broker.core, List.length_map] at hlen
    exact Nat.le_of_eq hlen.symm
  | lands _ ho hb => exact Nat.le_of_eq (hb ▸ (Broker.length_channels_of_ne_opened ho).symm)
  | opens ho hb =>
    rw [hb, (Broker.eq_of_opened ho).2.2, List.length_append]
    exact Nat.le_add_right _ _
  | handsOver _ hb => exact Nat.le_of_eq (congrArg (·.channels.length) hb.symm)

/-- A turn takes each channel onward. -/
theorem Turn.onward (h : Turn w v) (k : Nat) : (w.channel k).Onward (v.channel k) := by
  cases h with
  | aside hcore =>
    exact .of_core (Broker.channelOrNew_of_core (g := Channel.core) (fun _ => rfl) hcore k)
  | lands _ _ hb =>
    rw [channel, channel, hb]
    exact w.broker.onward_perform _ k
  | opens _ hb =>
    rw [channel, channel, hb]
    exact w.broker.onward_perform _ k
  | handsOver _ hb =>
    rw [channel, channel, hb]
    exact .refl _

/-- So does a run. -/
theorem Run.onward (h : Run w ls v) (k : Nat) : (w.channel k).Onward (v.channel k) := by
  induction h with
  | refl => exact .refl _
  | step _ hs ih => exact ih.trans ((turn_step hs).onward k)

/-- What holds of a broker and the calls on it. -/
structure Sound (plan : BrokerPlan) (w : Traffic) : Prop where
  recounts : w.broker.Recounts plan w.ended
  /-- Whatever is under way is about channels that are there. -/
  there : ∀ p ∈ w.underWay, ∀ k, p.channel? = some k → k < w.broker.channels.length
  got : ∀ k, w.handedOver k = true → k < w.broker.channels.length

/-- A broker that has answered nothing keeps nothing. -/
theorem sound_start (plan : BrokerPlan) : Sound plan (start plan) := by
  have htells : ∀ k, (channel (start plan) k).Tells plan k [] := fun k =>
    ⟨rfl, rfl, fun _ _ => by simp [start, channel, Broker.channelOrNew, Answers.carriedOut], rfl,
      rfl, closedOnce_nil _⟩
  refine ⟨⟨rfl, rfl, closedOnce_nil _, fun k hk => ?_, htells⟩, fun p hp => ?_, fun k hk => ?_⟩
  · exact absurd hk (Nat.not_lt_zero k)
  · cases hp
  · simp [handedOver, start] at hk

/-- A channel was handed over if a call ended with it. -/
theorem handedOver_iff {k : Nat} : w.handedOver k = true ↔ (.createChannel, .opened k) ∈ w.ended :=
  List.contains_iff_mem

/-- Every turn keeps it. Only a request that lands, or a channel that is handed over, is one more
answer. -/
theorem Sound.turn (hw : w.Sound plan) (h : Turn w v) : v.Sound plan := by
  have hlen := h.length_le
  have hthere : ∀ p ∈ w.underWay, ∀ k, p.channel? = some k → k < v.broker.channels.length :=
    fun p hp k hk => Nat.lt_of_lt_of_le (hw.there p hp k hk) hlen
  have hgot : ∀ k, w.handedOver k = true → k < v.broker.channels.length :=
    fun k hk => Nat.lt_of_lt_of_le (hw.got k hk) hlen
  have hsame : v.ended = w.ended → ∀ k, v.handedOver k = true → k < v.broker.channels.length := by
    intro he k hk
    rw [handedOver, he] at hk
    exact hgot k hk
  cases h with
  | aside hcore he hcalls =>
    refine ⟨he ▸ hw.recounts.of_core hcore, fun p hp k hk => ?_, hsame he⟩
    rcases hcalls p hp with hp | ⟨r, due, rfl, hr⟩
    · exact hthere p hp k hk
    · have hk : r.channel? = some k := hk
      rw [mayAsk, hk] at hr
      exact hgot k hr
  | lands hr ho hb he hcalls =>
    refine ⟨?_, fun p hp => hthere p (hcalls p hp), fun k hk => ?_⟩
    · rw [hb, he]
      exact hw.recounts.perform (hw.there _ hr) ho
    · rw [handedOver_iff, he] at hk
      rcases List.mem_append.1 hk with hk | hk
      · exact hgot k (handedOver_iff.2 hk)
      · exact absurd (Prod.ext_iff.1 (List.mem_singleton.1 hk)).2.symm (ho k)
  | @opens r k ho hb he hcalls =>
    obtain ⟨rfl, rfl, hb'⟩ := Broker.eq_of_opened ho
    refine ⟨?_, fun p hp n hn => ?_, hsame he⟩
    · rw [hb, hb', he]
      exact hw.recounts.opened
    · rcases hcalls p hp with hp | ⟨due, rfl⟩
      · exact hthere p hp n hn
      · obtain rfl : w.broker.channels.length = n := Option.some.inj hn
        rw [hb, hb']
        simp
  | @handsOver k due hk hb he hcalls =>
    refine ⟨?_, fun p hp => hthere p (hcalls p hp), fun n hn => ?_⟩
    · rw [hb, he]
      exact hw.recounts.createChannel _
    · rw [handedOver_iff, he] at hn
      rcases List.mem_append.1 hn with hn | hn
      · exact hgot n (handedOver_iff.2 hn)
      · cases List.mem_singleton.1 hn
        exact hthere _ hk k rfl

/-- So it holds in every state of every run. -/
theorem sound_of_run (h : Run (start plan) ls v) : v.Sound plan := by
  induction h with
  | refl => exact sound_start plan
  | step _ hs ih => exact ih.turn (turn_step hs)

/-! ## What is told -/

theorem nextTag_eq (w : Traffic) (k : Nat) : w.broker.nextTag k = (w.channel k).nextTag := by
  unfold Broker.nextTag channel Broker.channelOrNew
  cases w.broker.channels[k]? <;> rfl

/-- Whatever calls on a broker, its channels and their streams overlap, and however slow they are,
in every state: the next number on a channel is one more than the number of messages on it, and a
message published under a number is the one at that place, then and later; a name is declared on a
topic if the last request about it that was carried out declares it there, and only then; the names
deleted are those of the deletes that were carried out, in order; once a close of a channel has
ended nothing on it changes any more; and of the closes of the connection, or of one channel, that
have ended the first one reports what was laid out and the others that it is closed already, and all
of them are counted. -/
theorem store_matches_history (h : Run (start plan) ls v) :
    (∀ k, v.broker.nextTag k = 1 + (v.channel k).published.length) ∧
    (∀ k m l w ms u, v.step? l = some w → w.ended = v.ended ++ [(.publish k m, .done)] →
      Run w ms u → 1 ≤ v.broker.nextTag k ∧
        (u.channel k).published[v.broker.nextTag k - 1]? = some m) ∧
    (∀ k name topic, (name, topic) ∈ (v.channel k).declared ↔
      (v.ended.carriedOut.filter (Request.settles k name)).getLast? =
        some (.declare k topic name)) ∧
    (∀ k, (v.channel k).deleted = v.ended.carriedOut.filterMap (Request.deleted? k)) ∧
    (∀ k ms u, v.ended.repliesTo (.closeChannel k) ≠ [] → Run v ms u →
      (u.channel k).kept = (v.channel k).kept) ∧
    (ClosedOnce (.ofResult plan.closeOutcome.result) (v.ended.repliesTo .close) ∧
      v.broker.closeCalls = (v.ended.repliesTo .close).length) ∧
    ∀ k, ClosedOnce (plan.channelClose k) (v.ended.repliesTo (.closeChannel k)) ∧
      (v.channel k).closeCalls = (v.ended.repliesTo (.closeChannel k)).length := by
  have hv := sound_of_run h
  have htells := hv.recounts.tells
  refine ⟨fun k => ?_, fun k m l w ms u hs he hu => ?_, fun k => (htells k).declared,
    fun k => (htells k).deleted, fun k ms u hne hu => ?_,
    ⟨hv.recounts.closes, hv.recounts.closeCalls⟩,
    fun k => ⟨(htells k).closes, (htells k).closeCalls⟩⟩
  · rw [nextTag_eq, Nat.add_comm]
    exact (htells k).nextTag
  · have hw := (sound_of_run (.step h hs)).recounts.tells k
    have hpub : (w.channel k).published = (v.channel k).published ++ [m] := by
      have hp : (w.channel k).published = _ := hw.published
      rw [hp, he, Answers.carriedOut_snoc, if_pos rfl, List.filterMap_append,
        ← (htells k).published]
      simp [Request.published?]
      rfl
    have htag : v.broker.nextTag k = (v.channel k).published.length + 1 := by
      rw [nextTag_eq]
      exact (htells k).nextTag
    rw [htag, Nat.add_sub_cancel]
    refine ⟨Nat.le_add_left 1 _, ?_⟩
    obtain ⟨rest, hrest⟩ := (hu.onward k).published
    rw [← hrest, hpub]
    simp
  · have hshut : (v.channel k).isOpen = false := by
      have hpos : 0 < (v.channel k).closeCalls := by
        have hc : (v.channel k).closeCalls = _ := (htells k).closeCalls
        rw [hc]
        exact List.length_pos_iff.2 hne
      simpa [Channel.isOpen] using Nat.pos_iff_ne_zero.1 hpos
    exact ((hu.onward k).shut hshut).2

/-- A broker on which closing the connection takes five milliseconds and fails, opening a channel
takes three, and closing the first channel fails. -/
def slowAndFailing : BrokerPlan where
  closeOutcome := .ioFailure
  closeDelay := 5
  channelDelay := 3
  failing := [0]

/-- A message for the runs below. -/
def hello : Message := { destination := .queue "orders", body := [104, 105] }

/-- Two closes of the connection are under way. Meanwhile a channel is handed over, and a message is
going to be published on it while a name is declared, deleted and declared again. -/
def overlapping : List Label :=
  [.ask .createChannel, .resume 0, .ask .close, .ask .close, .tick 3, .resume 0,
    .ask (.publish 0 hello), .ask (.declare 0 "prices" "feed"), .ask (.delete 0 "feed"),
    .ask (.declare 0 "trades" "feed"), .resume 3, .resume 3, .resume 3]

theorem overlapping_isSome : ((start slowAndFailing).after? overlapping).isSome = true := by decide

def overlappingEnd : Traffic := ((start slowAndFailing).after? overlapping).get overlapping_isSome

theorem publishing_isSome : (overlappingEnd.step? (.resume 2)).isSome = true := by decide

/-- The message has been published. -/
def publishingEnd : Traffic := (overlappingEnd.step? (.resume 2)).get publishing_isSome

/-- The close that was asked for last takes effect first. Then the channel is closed twice. -/
def closing : List Label :=
  [.tick 5, .resume 1, .resume 0, .ask (.closeChannel 0), .ask (.closeChannel 0), .resume 1,
    .resume 0]

theorem closing_isSome : (publishingEnd.after? closing).isSome = true := by decide

def closingEnd : Traffic := (publishingEnd.after? closing).get closing_isSome

/-- It is too late for another message. -/
def tooLate : List Label := [.ask (.publish 0 hello), .resume 0]

theorem tooLate_isSome : (closingEnd.after? tooLate).isSome = true := by decide

def tooLateEnd : Traffic := (closingEnd.after? tooLate).get tooLate_isSome

theorem overlapping_calls_told :
    overlappingEnd.broker.nextTag 0 = 1 ∧ (tooLateEnd.channel 0).published[0]? = some hello ∧
    ("feed", "trades") ∈ (closingEnd.channel 0).declared ∧
    ("feed", "prices") ∉ (closingEnd.channel 0).declared ∧
    (closingEnd.channel 0).deleted = ["feed"] ∧
    (tooLateEnd.channel 0).kept = (closingEnd.channel 0).kept ∧
    closingEnd.ended.repliesTo .close =
      [.failed (.io "injected connection close failure"), .failed .alreadyClosed] ∧
    closingEnd.broker.closeCalls = 2 ∧ (closingEnd.channel 0).closeCalls = 2 := by
  have hfirst : Run (start slowAndFailing) overlapping overlappingEnd :=
    .of_isSome overlapping_isSome
  have hstep : overlappingEnd.step? (.resume 2) = some publishingEnd :=
    (Option.some_get publishing_isSome).symm
  have hthen : Run publishingEnd closing closingEnd := .of_isSome closing_isSome
  have hlate : Run closingEnd tooLate tooLateEnd := .of_isSome tooLate_isSome
  obtain ⟨htag, hpub, _⟩ := store_matches_history hfirst
  obtain ⟨_, _, hdecl, hdel, hkept, ⟨_, hcount⟩, hchannel⟩ :=
    store_matches_history ((hfirst.step hstep).trans hthen)
  refine ⟨htag 0, ?_, (hdecl 0 "feed" "trades").2 (by decide), fun hp => ?_, hdel 0,
    hkept 0 _ _ (by decide) hlate, by decide, hcount, (hchannel 0).2⟩
  · exact (hpub 0 hello _ _ _ _ hstep (by decide) (hthen.trans hlate)).2
  · exact absurd ((hdecl 0 "feed" "prices").1 hp) (by decide)

/-! ## Scripts -/

/-- Nothing is under way on the broker of a script, and every channel of it was handed over. -/
structure Serves (w : Traffic) (x : Script.BrokerBench) : Prop where
  broker : w.broker = x.broker
  now : w.now = x.now
  idle : w.underWay = []
  got : ∀ k < w.broker.channels.length, w.handedOver k = true

variable {x : Script.BrokerBench} {k : Nat}

theorem handedOver_of_ended (a : Request × Reply) (he : v.ended = w.ended ++ [a])
    (hk : w.handedOver k = true) : v.handedOver k = true := by
  rw [handedOver_iff, he]
  exact List.mem_append_left _ (handedOver_iff.1 hk)

theorem Run.tick (h : Run w ls v) {t : Nat} (ht : v.now ≤ t) :
    Run w (ls ++ [.tick t]) { v with now := t } :=
  .step h (by rw [step?, if_pos ht])

/-- A call that is alone on a broker is made, waits until its request takes effect and, where a
channel was opened, until that is handed over. -/
theorem run_request {b : Broker} {now : Nat} {ended : Answers}
    (hr : mayAsk ⟨b, now, [], ended⟩ r = true) :
    ∃ ls, Run ⟨b, now, [], ended⟩ ls ⟨(b.perform r).2,
      now + b.lead r + (b.perform r).2.lag (b.perform r).1, [],
      ended ++ [(r, (b.perform r).1)]⟩ := by
  have hmade : Run ⟨b, now, [], ended⟩ _ ⟨b, now, [.request r (now + b.lead r)], ended⟩ :=
    .step (l := .ask r) .refl (by rw [step?, if_pos hr]; rfl)
  have hdue := hmade.tick (Nat.le_add_right now (b.lead r))
  have hland := hdue.step (l := .resume 0)
    (u := land ⟨b, now + b.lead r, [.request r (now + b.lead r)], ended⟩ 0 r)
    (by simp [step?, resume?])
  by_cases ho : ∃ k, (b.perform r).1 = .opened k
  · obtain ⟨k, ho⟩ := ho
    have hcreate := (Broker.eq_of_opened ho).1
    rw [land_opened (by exact ho)] at hland
    have hwaited := hland.tick (Nat.le_add_right (now + b.lead r) ((b.perform r).2.lag (.opened k)))
    rw [ho]
    exact ⟨_, hwaited.step (l := .resume 0) (by simp [step?, resume?, conclude, hcreate])⟩
  · rw [not_exists] at ho
    rw [land_eq (by exact ho)] at hland
    rw [Broker.lag_eq_zero _ ho]
    exact ⟨_, hland⟩

/-- The broker of a script carries a request out when its time has come, and the clock of the script
is that of the answer. -/
theorem perform_bench (x : Script.BrokerBench) (r : Request) :
    (x.perform r).2 = ⟨(x.broker.perform r).2,
      x.now + x.broker.lead r + (x.broker.perform r).2.lag (x.broker.perform r).1⟩ := by
  simp only [Script.BrokerBench.perform]
  split <;> rfl

/-- A script runs a request to its end as a call does, and is told the same. -/
theorem Serves.perform (hw : w.Serves x) (hr : w.mayAsk r = true) :
    ∃ ls v, Run w ls v ∧ v.Serves (x.perform r).2 ∧
      v.ended = w.ended ++ [(r, (x.broker.perform r).1)] := by
  obtain ⟨b, now⟩ := x
  obtain ⟨_, _, _, ended⟩ := w
  obtain ⟨rfl, rfl, rfl, hgot⟩ := hw
  obtain ⟨ls, hrun⟩ := run_request hr
  rw [perform_bench]
  refine ⟨ls, _, hrun, ⟨rfl, rfl, rfl, fun k hk => ?_⟩, rfl⟩
  rcases Broker.lt_or_opened hk with hk | ⟨rfl, ho⟩
  · exact handedOver_of_ended _ rfl (hgot k hk)
  · rw [handedOver_iff, ho]
    exact List.mem_append_right _ (List.mem_singleton_self _)

/-- A step of a script that needs a channel. -/
theorem Serves.withChannel (hw : w.Serves x)
    {f : Channel → Script.BrokerResult × Script.BrokerBench}
    (hf : ∀ c, x.broker.channels[k]? = some c → w.handedOver k = true →
      ∃ ls v, Run w ls v ∧ v.Serves (f c).2) :
    ∃ ls v, Run w ls v ∧ v.Serves (x.withChannel k f).2 := by
  unfold Script.BrokerBench.withChannel
  split
  next c hc =>
    have hk := (List.getElem?_eq_some_iff.1 hc).1
    exact hf c hc (hw.got k (hw.broker ▸ hk))
  next => exact ⟨[], w, .refl, hw⟩

/-- A step of a script with the stream of a channel. -/
theorem Serves.modifyStream (hw : w.Serves x) {c : Channel} {f : Channel → Channel}
    (hc : x.broker.channels[k]? = some c) (hs : w.step? l = some (w.modifyStream k f)) :
    ∃ ls v, Run w ls v ∧ v.Serves (x.setChannel k (f c)) := by
  refine ⟨[l], _, .step .refl hs, ⟨?_, hw.now, hw.idle, fun n hn => hw.got n ?_⟩⟩
  · have hset : x.broker.channels.modify k f = x.broker.channels.modify k fun _ => f c :=
      modify_congr_at fun y hy => by rw [Option.some.inj (hc.symm.trans hy)]
    rw [Traffic.modifyStream, hw.broker, Broker.modifyChannel, hset]
    rfl
  · simpa [Traffic.modifyStream, Broker.modifyChannel] using hn

/-- A step of a script is a request that is run to its end, something done with a stream, or a look
at what there is. -/
theorem Serves.step (hw : w.Serves x) (s : Script.BrokerStep) :
    ∃ ls v, Run w ls v ∧ v.Serves (x.step s).2 := by
  have hrequest : ∀ {q}, w.mayAsk q = true → ∃ ls v, Run w ls v ∧ v.Serves (x.perform q).2 := by
    intro q hq
    obtain ⟨ls, v, hrun, hv, _⟩ := hw.perform hq
    exact ⟨ls, v, hrun, hv⟩
  cases s with
  | createChannel => exact hrequest rfl
  | close => exact hrequest rfl
  | refuse refusing =>
    have hs : w.step? (.refuse refusing) =
        some { w with broker := { w.broker with refusing := refusing } } := rfl
    refine ⟨_, _, .step .refl hs, ⟨?_, hw.now, hw.idle, hw.got⟩⟩
    rw [hw.broker]
    rfl
  | report k e =>
    have hs : w.step? (.report k e) = some { w with broker := (w.broker.report k e).2 } := rfl
    refine ⟨_, _, .step .refl hs, ⟨?_, hw.now, hw.idle, fun n hn => hw.got n ?_⟩⟩
    · rw [hw.broker]
      rfl
    · simpa [Broker.report_eq, Broker.modifyChannel] using hn
  | viewChannel k => exact ⟨[], w, .refl, hw⟩
  | nextTag k => exact hw.withChannel fun _ _ _ => ⟨[], w, .refl, hw⟩
  | publish k m =>
    cases m with
    | some m => exact hw.withChannel fun _ _ hk => hrequest hk
    | none => exact hw.withChannel fun _ _ _ => ⟨[], w, .refl, hw⟩
  | declare k topic name => exact hw.withChannel fun _ _ hk => hrequest hk
  | delete k name => exact hw.withChannel fun _ _ hk => hrequest hk
  | closeChannel k => exact hw.withChannel fun _ _ hk => hrequest hk
  | take k =>
    exact hw.withChannel fun c hc hk => hw.modifyStream (l := .take k) (f := fun c => c.take.2) hc
      (by rw [step?, if_pos hk])
  | stopListening k =>
    exact hw.withChannel fun c hc hk => hw.modifyStream (l := .stopListening k) hc
      (by rw [step?, if_pos hk])

/-- So are several steps, each from where the one before has left the broker. -/
theorem Serves.steps (hw : w.Serves x) (ss : List Script.BrokerStep) :
    ∃ ls v, Run w ls v ∧ v.Serves (ss.foldl (fun x s => (x.step s).2) x) := by
  induction ss generalizing w x with
  | nil => exact ⟨[], w, .refl, hw⟩
  | cons s ss ih =>
    obtain ⟨ls, v, hrun, hv⟩ := hw.step s
    obtain ⟨ms, u, hrest, hu⟩ := ih hv
    exact ⟨_, u, hrun.trans hrest, hu⟩

/-- A script that drives a broker, one request after the other, is a run of calls on it. -/
theorem serves_script (plan : BrokerPlan) (ss : List Script.BrokerStep) :
    ∃ ls v, Run (start plan) ls v ∧
      v.Serves (ss.foldl (fun x s => (x.step s).2) { broker := { plan } }) :=
  Serves.steps (w := start plan) ⟨rfl, rfl, rfl, fun k hk => absurd hk (Nat.not_lt_zero k)⟩ ss

end Traffic

end BrokerClient
