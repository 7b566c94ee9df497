import BrokerClient.Broker.Traffic
import BrokerClient.Proofs.Core

/-!
# What a broker keeps, told from its answers

A broker keeps a few things for each channel: the messages published on it, the next number, the
subscriptions declared on it, the names deleted from it and how often it was closed. They can all be
told from the requests that it answered, in the order of the answers, and from nothing else.

`Channel.Tells` says so of one channel, with a lemma for each request that it can carry out or
refuse, and `Broker.Recounts` of a broker, where `Recounts.perform` is the step. Beside them
`Channel.Onward` compares one state of a channel with a later one: what is published stays
published, and a channel that was closed keeps what it has.

A request is answered once, and requests to other channels do not matter to a channel
(`aloof_of_channel`). What is told of one is therefore a reading of the answers to requests about
it: the messages of those that published, the last declaration or delete of each name, the number of
closes. A request that is refused is among the answers and carried nothing out.
-/

namespace BrokerClient

namespace Request

/-- The message that a request publishes on a channel. -/
def published? (k : Nat) : Request → Option Message
  | .publish i m => if i = k then some m else none
  | _ => none

/-- The name that a request deletes on a channel. -/
def deleted? (k : Nat) : Request → Option String
  | .delete i name => if i = k then some name else none
  | _ => none

/-- Whether a request settles what is declared under a name on a channel. -/
def settles (k : Nat) (name : String) : Request → Bool
  | .declare i _ n => i = k && n = name
  | .delete i n => i = k && n = name
  | _ => false

variable {r : Request} {k : Nat}

/-- A request about something else publishes nothing on a channel, deletes nothing from it and
settles no name there. -/
theorem aloof_of_channel (h : r.channel? ≠ some k) :
    r.published? k = none ∧ r.deleted? k = none ∧ (∀ name, r.settles k name = false) ∧
      r ≠ .closeChannel k := by
  cases r <;> simp_all [channel?, published?, deleted?, settles]

end Request

/-- What closing a channel reports the first time. -/
def BrokerPlan.channelClose (plan : BrokerPlan) (k : Nat) : Reply :=
  if plan.failing.contains k then .failed (.io s!"injected close failure on channel {k}") else .done

/-! ## Answers -/

namespace Answers

/-- A further answer to a request comes after the others. -/
theorem repliesTo_snoc_self (h : Answers) (r : Request) (reply : Reply) :
    (h ++ [(r, reply)]).repliesTo r = h.repliesTo r ++ [reply] := by
  simp [repliesTo, List.filter_append]

theorem repliesTo_snoc_ne {r q : Request} (hr : r ≠ q) (h : Answers) (reply : Reply) :
    (h ++ [(r, reply)]).repliesTo q = h.repliesTo q := by
  simp [repliesTo, List.filter_append, hr]

/-- A request was carried out if its answer says that it is done. -/
theorem carriedOut_snoc (h : Answers) (r : Request) (reply : Reply) :
    (h ++ [(r, reply)]).carriedOut = h.carriedOut ++ if reply = .done then [r] else [] := by
  by_cases hr : reply = .done <;> simp [carriedOut, List.filter_append, hr]

/-- A reading of requests that skips the last one. -/
theorem filterMap_carriedOut {α : Type} {f : Request → Option α} {r : Request} (hf : f r = none)
    (h : Answers) (reply : Reply) :
    (h ++ [(r, reply)]).carriedOut.filterMap f = h.carriedOut.filterMap f := by
  rw [carriedOut_snoc, List.filterMap_append]
  split <;> simp [hf]

/-- A choice among requests that leaves the last one out. -/
theorem filter_carriedOut {p : Request → Bool} {r : Request} (hp : p r = false) (h : Answers)
    (reply : Reply) : (h ++ [(r, reply)]).carriedOut.filter p = h.carriedOut.filter p := by
  rw [carriedOut_snoc, List.filter_append]
  split <;> simp [hp]

end Answers

/-- The first of these answers is one that was laid out, and all later ones say that the matter was
closed already. -/
def ClosedOnce (first : Reply) (replies : List Reply) : Prop :=
  ∀ j reply, replies[j]? = some reply → reply = if j = 0 then first else .failed .alreadyClosed

theorem closedOnce_nil (first : Reply) : ClosedOnce first [] := by
  intro j reply h
  simp at h

/-- A further close reports what was laid out if it is the first, and that it comes too late
otherwise. -/
theorem ClosedOnce.snoc {first reply : Reply} {replies : List Reply} (h : ClosedOnce first replies)
    (hr : reply = if replies.length = 0 then first else .failed .alreadyClosed) :
    ClosedOnce first (replies ++ [reply]) := by
  intro j other hj
  rw [List.getElem?_append] at hj
  split at hj
  · exact h j other hj
  next hlt =>
    obtain ⟨hlen, rfl⟩ : j - replies.length = 0 ∧ reply = other := by
      simpa [List.getElem?_singleton] using hj
    have hj : j = replies.length := by omega
    rw [hj]
    exact hr

/-! ## One channel -/

namespace Channel

/-- A reading that the core of a channel carries. -/
theorem eq_of_core {α : Type} {g : Channel → α} (hg : ∀ x, g x.core = g x) {c c' : Channel}
    (h : c'.core = c.core) : g c' = g c := by
  rw [← hg, h, hg]

/-- How a channel was laid out when it was opened. -/
def layout (c : Channel) : Nat × Bool := (c.index, c.failsClose)

/-- What a channel keeps can be told from the answers to requests about it. -/
structure Tells (c : Channel) (plan : BrokerPlan) (k : Nat) (h : Answers) : Prop where
  nextTag : c.nextTag = c.published.length + 1
  published : c.published = h.carriedOut.filterMap (Request.published? k)
  declared : ∀ name topic, (name, topic) ∈ c.declared ↔
    (h.carriedOut.filter (Request.settles k name)).getLast? = some (.declare k topic name)
  deleted : c.deleted = h.carriedOut.filterMap (Request.deleted? k)
  closeCalls : c.closeCalls = (h.repliesTo (.closeChannel k)).length
  closes : ClosedOnce (plan.channelClose k) (h.repliesTo (.closeChannel k))

namespace Tells

variable {c c' : Channel} {plan : BrokerPlan} {k : Nat} {h h' : Answers} {r : Request}
  {reply : Reply}

/-- The stream of a channel does not matter. -/
theorem of_core (ht : c.Tells plan k h) (hc : c'.core = c.core) : c'.Tells plan k h := by
  have hpub : c'.published = c.published := eq_of_core (fun _ => rfl) hc
  have hdecl : c'.declared = c.declared := eq_of_core (fun _ => rfl) hc
  have htag : c'.nextTag = c.nextTag := eq_of_core (fun _ => rfl) hc
  have hdel : c'.deleted = c.deleted := eq_of_core (fun _ => rfl) hc
  have hcalls : c'.closeCalls = c.closeCalls := eq_of_core (fun _ => rfl) hc
  refine ⟨?_, hpub.trans ht.published, fun name topic => ?_, hdel.trans ht.deleted,
    hcalls.trans ht.closeCalls, ht.closes⟩
  · rw [htag, hpub]
    exact ht.nextTag
  · rw [hdecl]
    exact ht.declared name topic

/-- An answer to a request that is not about the channel. -/
theorem other (ht : c.Tells plan k h) (hr : r.channel? ≠ some k) (reply : Reply) :
    c.Tells plan k (h ++ [(r, reply)]) := by
  obtain ⟨hpub, hdel, hset, hne⟩ := Request.aloof_of_channel hr
  have hto := Answers.repliesTo_snoc_ne hne h reply
  refine ⟨ht.nextTag, ?_, fun name topic => ?_, ?_, hto ▸ ht.closeCalls, hto ▸ ht.closes⟩
  · rw [Answers.filterMap_carriedOut hpub]
    exact ht.published
  · rw [Answers.filter_carriedOut (hset name)]
    exact ht.declared name topic
  · rw [Answers.filterMap_carriedOut hdel]
    exact ht.deleted

/-- A request that the channel refused, other than to close. -/
theorem refused (ht : c.Tells plan k h) (hr : r ≠ .closeChannel k) (hd : reply ≠ .done) :
    c.Tells plan k (h ++ [(r, reply)]) := by
  have hto := Answers.repliesTo_snoc_ne hr h reply
  have hsame : (h ++ [(r, reply)]).carriedOut = h.carriedOut := by
    rw [Answers.carriedOut_snoc, if_neg hd, List.append_nil]
  refine ⟨ht.nextTag, ?_, fun name topic => ?_, ?_, hto ▸ ht.closeCalls, hto ▸ ht.closes⟩ <;>
    rw [hsame]
  · exact ht.published
  · exact ht.declared name topic
  · exact ht.deleted

/-- A request that the channel carried out, other than to close: it has left its trace. -/
theorem carriedOut (ht : c.Tells plan k h) (hr : r ≠ .closeChannel k)
    (htag : c'.nextTag = c.nextTag + (r.published? k).toList.length)
    (hpub : c'.published = c.published ++ (r.published? k).toList)
    (hdecl : ∀ name topic, (name, topic) ∈ c'.declared ↔
      if r.settles k name then r = .declare k topic name else (name, topic) ∈ c.declared)
    (hdel : c'.deleted = c.deleted ++ (r.deleted? k).toList)
    (hcalls : c'.closeCalls = c.closeCalls) : c'.Tells plan k (h ++ [(r, .done)]) := by
  have hto := Answers.repliesTo_snoc_ne hr h .done
  have hsnoc : (h ++ [(r, Reply.done)]).carriedOut = h.carriedOut ++ [r] := by
    rw [Answers.carriedOut_snoc, if_pos rfl]
  have hlast : ∀ {α : Type} (f : Request → Option α), (f r).toList = [r].filterMap f := by
    intro α f
    cases hf : f r <;> simp [hf]
  refine ⟨?_, ?_, fun name topic => ?_, ?_, hcalls.trans (hto ▸ ht.closeCalls), hto ▸ ht.closes⟩
  · rw [htag, ht.nextTag, hpub, List.length_append]
    omega
  · rw [hpub, ht.published, hsnoc, List.filterMap_append, hlast]
  · rw [hdecl, hsnoc, List.filter_append]
    by_cases hset : r.settles k name = true
    · simp [hset]
    · simp [hset, ht.declared]
  · rw [hdel, ht.deleted, hsnoc, List.filterMap_append, hlast]

/-- A request that the channel carries out while it is open, and refuses afterwards. -/
theorem whenOpen (ht : c.Tells plan k h) (hr : r ≠ .closeChannel k) {f : Channel → Channel}
    (hf : (f c).Tells plan k (h ++ [(r, .done)])) :
    (Channel.whenOpen f c).2.Tells plan k
      (h ++ [(r, .ofResult (Channel.whenOpen f c).1)]) := by
  unfold Channel.whenOpen
  split
  · exact hf
  · exact ht.refused hr (by simp [Reply.ofResult])

/-- A channel that is open publishes a message under the next number; one that is closed says so and
keeps what it has. -/
theorem publish (ht : c.Tells plan k h) (m : Message) :
    (Channel.publish m c).2.Tells plan k
      (h ++ [(.publish k m, .ofResult (Channel.publish m c).1)]) := by
  refine ht.whenOpen (by simp) (ht.carriedOut (by simp) ?_ ?_ (fun name topic => ?_) ?_ rfl)
  · simp [Request.published?]
  · simp [Request.published?]
  · simp [Request.settles]
  · simp [Request.deleted?]

/-- A declaration settles its name, whatever was declared under it before. -/
theorem declare (ht : c.Tells plan k h) (topic name : String) :
    (Channel.declare topic name c).2.Tells plan k
      (h ++ [(.declare k topic name, .ofResult (Channel.declare topic name c).1)]) := by
  refine ht.whenOpen (by simp) (ht.carriedOut (by simp) ?_ ?_ (fun other t => ?_) ?_ rfl)
  · simp [Request.published?]
  · simp [Request.published?]
  · by_cases hn : name = other
    · simp [Request.settles, Channel.without, hn, eq_comm]
    · simp [Request.settles, Channel.without, hn, Ne.symm hn]
  · simp [Request.deleted?]

/-- A delete leaves nothing declared under its name. -/
theorem delete (ht : c.Tells plan k h) (name : String) :
    (Channel.delete name c).2.Tells plan k
      (h ++ [(.delete k name, .ofResult (Channel.delete name c).1)]) := by
  refine ht.whenOpen (by simp) (ht.carriedOut (by simp) ?_ ?_ (fun other t => ?_) ?_ rfl)
  · simp [Request.published?]
  · simp [Request.published?]
  · by_cases hn : name = other
    · simp [Request.settles, Channel.without, hn]
    · simp [Request.settles, Channel.without, hn, Ne.symm hn]
  · simp [Request.deleted?]

/-- The first close reports what was laid out for the channel, and every later one that it is
closed. -/
theorem result_close (ht : c.Tells plan k h) (hc : c.layout = (k, plan.failing.contains k)) :
    Reply.ofResult c.close.1 = if (h.repliesTo (.closeChannel k)).length = 0 then
      plan.channelClose k else .failed .alreadyClosed := by
  obtain ⟨hi, hf⟩ : c.index = k ∧ c.failsClose = plan.failing.contains k := Prod.ext_iff.1 hc
  rw [← ht.closeCalls, BrokerPlan.channelClose, Channel.close, Channel.isOpen, hi, hf]
  by_cases hc : c.closeCalls = 0
  · by_cases hm : plan.failing.contains k = true <;> simp only [hc, hm] <;> rfl
  · simp [hc, Reply.ofResult]

/-- A close is counted, and the first one reports what was laid out for the channel. -/
theorem close (ht : c.Tells plan k h) (hc : c.layout = (k, plan.failing.contains k)) :
    c.close.2.Tells plan k (h ++ [(.closeChannel k, .ofResult c.close.1)]) := by
  have hto := Answers.repliesTo_snoc_self h (.closeChannel k)
  refine ⟨ht.nextTag, ?_, fun name topic => ?_, ?_, ?_, ?_⟩
  · rw [Answers.filterMap_carriedOut (by rfl)]
    exact ht.published
  · rw [Answers.filter_carriedOut (by rfl)]
    exact ht.declared name topic
  · rw [Answers.filterMap_carriedOut (by rfl)]
    exact ht.deleted
  · rw [hto, List.length_append]
    exact congrArg (· + 1) ht.closeCalls
  · rw [hto]
    exact ht.closes.snoc (ht.result_close hc)

end Tells

theorem layout_whenOpen {f : Channel → Channel} (hf : ∀ c, (f c).layout = c.layout) (c : Channel) :
    (whenOpen f c).2.layout = c.layout := by
  unfold whenOpen
  split
  · exact hf c
  · rfl

/-- What a channel keeps of the requests that it carried out. -/
def kept (c : Channel) : List Message × Nat × List (String × String) × List String :=
  (c.published, c.nextTag, c.declared, c.deleted)

/-- One state of a channel and a later one. -/
structure Onward (c c' : Channel) : Prop where
  published : c.published <+: c'.published
  /-- Once it is closed it stays so, and keeps what it has. -/
  shut : c.isOpen = false → c'.isOpen = false ∧ c'.kept = c.kept

namespace Onward

variable {c c' c'' : Channel}

theorem refl (c : Channel) : Onward c c := ⟨List.prefix_rfl, fun hc => ⟨hc, rfl⟩⟩

theorem trans (h : Onward c c') (h' : Onward c' c'') : Onward c c'' := by
  refine ⟨h.published.trans h'.published, fun hc => ?_⟩
  obtain ⟨hc', hkept⟩ := h.shut hc
  exact ⟨(h'.shut hc').1, (h'.shut hc').2.trans hkept⟩

/-- A channel may change its stream at any time. -/
theorem of_core (h : c'.core = c.core) : Onward c c' := by
  have hpub : c'.published = c.published := eq_of_core (fun _ => rfl) h
  have hopen : c'.isOpen = c.isOpen := eq_of_core (fun _ => rfl) h
  exact ⟨hpub ▸ List.prefix_rfl, fun hc => ⟨hopen.trans hc, eq_of_core (fun _ => rfl) h⟩⟩

theorem whenOpen {f : Channel → Channel} (hf : c.published <+: (f c).published) :
    Onward c (Channel.whenOpen f c).2 := by
  unfold Channel.whenOpen
  split
  next ho => exact ⟨hf, fun hc => absurd hc (by simp [ho])⟩
  next => exact .refl c

/-- A close leaves what was published. -/
theorem close (c : Channel) : Onward c c.close.2 :=
  ⟨List.prefix_rfl, fun _ => ⟨by simp [Channel.close, isOpen], rfl⟩⟩

end Onward

end Channel

/-! ## The broker -/

namespace Broker

/-- What a broker keeps can be told from the answers to requests. -/
structure Recounts (b : Broker) (plan : BrokerPlan) (h : Answers) : Prop where
  planned : b.plan = plan
  closeCalls : b.closeCalls = (h.repliesTo .close).length
  closes : ClosedOnce (.ofResult plan.closeOutcome.result) (h.repliesTo .close)
  /-- Channels are numbered, and laid out to fail as planned. -/
  laidOut : ∀ k < b.channels.length, (b.channelOrNew k).layout = (k, plan.failing.contains k)
  tells : ∀ k, (b.channelOrNew k).Tells plan k h

variable {b b' : Broker} {plan : BrokerPlan} {h : Answers} {k : Nat} {r : Request}

/-- A request about a channel that is there works on that channel alone. -/
theorem onChannel_eq (hk : k < b.channels.length)
    (f : Channel → Except TransportFailure Unit × Channel) :
    b.onChannel k f = (.ofResult (f (b.channelOrNew k)).1,
      { b with channels := b.channels.set k (f (b.channelOrNew k)).2 }) := by
  unfold onChannel channelOrNew
  simp [List.getElem?_eq_getElem hk]

/-- A channel more changes what is found under its own number and under no other. -/
theorem channelOrNew_snoc (b : Broker) (c : Channel) (n : Nat) :
    ({ b with channels := b.channels ++ [c] } : Broker).channelOrNew n =
      if n = b.channels.length then c else b.channelOrNew n := by
  unfold channelOrNew
  by_cases hn : n = b.channels.length
  · simp [hn]
  · rw [if_neg hn, List.getElem?_append]
    split
    · rfl
    next hlt =>
      rw [List.getElem?_eq_none (Nat.le_of_not_lt hlt), List.getElem?_eq_none]
      simp only [List.length_singleton]
      omega

namespace Recounts

/-- What streams do and whether channels are refused does not matter. -/
theorem of_core (hb : b.Recounts plan h) (hc : b'.core = b.core) : b'.Recounts plan h := by
  have hof : ∀ {α : Type} (g : Channel → α), (∀ x, g x.core = g x) → ∀ k,
      g (b'.channelOrNew k) = g (b.channelOrNew k) := fun g hg => channelOrNew_of_core hg hc
  have hlen : b'.channels.length = b.channels.length := by
    simpa [core] using congrArg (fun b : Broker => b.channels.length) hc
  refine ⟨(congrArg Broker.plan hc).trans hb.planned,
    (congrArg Broker.closeCalls hc).trans hb.closeCalls, hb.closes, fun k hk => ?_, fun k => ?_⟩
  · rw [hof Channel.layout fun _ => rfl]
    exact hb.laidOut k (hlen ▸ hk)
  · exact (hb.tells k).of_core (hof Channel.core (fun _ => rfl) k)

/-- A call that opened a channel, or was refused one, adds nothing. -/
theorem createChannel (hb : b.Recounts plan h) (reply : Reply) :
    b.Recounts plan (h ++ [(.createChannel, reply)]) := by
  have hto : (h ++ [(Request.createChannel, reply)]).repliesTo .close = h.repliesTo .close :=
    Answers.repliesTo_snoc_ne (by simp) h reply
  exact ⟨hb.planned, hto ▸ hb.closeCalls, hto ▸ hb.closes, hb.laidOut,
    fun k => (hb.tells k).other (by simp [Request.channel?]) reply⟩

/-- Every close of the connection is counted; the first one is what it is laid out to be. -/
theorem close (hb : b.Recounts plan h) :
    b.close.2.Recounts plan (h ++ [(.close, b.close.1)]) := by
  have hto := Answers.repliesTo_snoc_self h .close b.close.1
  have hfirst : b.close.1 = if (h.repliesTo .close).length = 0 then
      .ofResult plan.closeOutcome.result else .failed .alreadyClosed := by
    rw [← hb.closeCalls, ← hb.planned, Broker.close]
    by_cases hc : b.closeCalls = 0
    · simp [hc]
    · simp [hc, Nat.pos_of_ne_zero hc, Reply.ofResult]
  refine ⟨hb.planned, ?_, ?_, hb.laidOut,
    fun k => (hb.tells k).other (by simp [Request.channel?]) _⟩
  · rw [hto, List.length_append]
    exact congrArg (· + 1) hb.closeCalls
  · rw [hto]
    exact hb.closes.snoc hfirst

/-- An operation on a channel that is there. -/
theorem onChannel (hb : b.Recounts plan h) (hr : r.channel? = some k)
    (hk : k < b.channels.length) {f : Channel → Except TransportFailure Unit × Channel}
    (hlaid : ∀ c, (f c).2.layout = c.layout)
    (hf : ∀ c : Channel, c.layout = (k, plan.failing.contains k) → c.Tells plan k h →
      (f c).2.Tells plan k (h ++ [(r, .ofResult (f c).1)])) :
    (b.onChannel k f).2.Recounts plan (h ++ [(r, (b.onChannel k f).1)]) := by
  have hne : r ≠ .close := by
    rintro rfl
    simp [Request.channel?] at hr
  have hto := Answers.repliesTo_snoc_ne hne h
  rw [onChannel_eq hk]
  refine ⟨hb.planned, ?_, ?_, fun n hn => ?_, fun n => ?_⟩
  · exact hb.closeCalls.trans (congrArg List.length (hto _).symm)
  · rw [hto]
    exact hb.closes
  -- Channel `k` takes the answer; for any other one the entry of the history is not its own.
  · rw [channelOrNew_set hk]
    split
    next hkn =>
      rw [hlaid]
      exact hkn ▸ hb.laidOut k hk
    next => exact hb.laidOut n (by simpa using hn)
  · rw [channelOrNew_set hk]
    split
    next hkn =>
      subst hkn
      exact hf _ (hb.laidOut k hk) (hb.tells k)
    next hkn => exact (hb.tells n).other (by simpa [hr] using hkn) _

/-- A channel is opened, which its caller does not know yet. -/
theorem opened (hb : b.Recounts plan h) :
    ({ b with channels := b.channels ++ [b.nextChannel] } : Broker).Recounts plan h := by
  refine ⟨hb.planned, hb.closeCalls, hb.closes, fun n hn => ?_, fun n => ?_⟩
  · rw [channelOrNew_snoc]
    split
    next hnl =>
      rw [← hb.planned, hnl]
      rfl
    next hnl =>
      simp only [List.length_append, List.length_singleton] at hn
      exact hb.laidOut n (by omega)
  · rw [channelOrNew_snoc]
    split
    next hnl =>
      -- Nobody has asked a channel for anything that was not there.
      have hnew : b.channelOrNew n = { index := n, failsClose := false } := by
        rw [channelOrNew, List.getElem?_eq_none (Nat.le_of_eq hnl.symm)]
        rfl
      obtain ⟨htag, hpub, hdecl, hdel, hcalls, hcloses⟩ := hnew ▸ hb.tells n
      exact ⟨htag, hpub, hdecl, hdel, hcalls, hcloses⟩
    next => exact hb.tells n

/-- A request that takes effect, other than to open a channel. -/
theorem perform (hb : b.Recounts plan h) (hr : ∀ k, r.channel? = some k → k < b.channels.length)
    (ho : ∀ k, (b.perform r).1 ≠ .opened k) :
    (b.perform r).2.Recounts plan (h ++ [(r, (b.perform r).1)]) := by
  cases r with
  | createChannel =>
    rcases b.createChannel_cases with ⟨e, he⟩ | he
    · rw [Broker.perform, he]
      exact hb.createChannel _
    · rw [Broker.perform, he] at ho
      exact absurd rfl (ho _)
  | close => exact hb.close
  | publish k m =>
    exact hb.onChannel rfl (hr k rfl) (Channel.layout_whenOpen fun _ => rfl) fun _ _ ht =>
      ht.publish m
  | declare k topic name =>
    exact hb.onChannel rfl (hr k rfl) (Channel.layout_whenOpen fun _ => rfl) fun _ _ ht =>
      ht.declare topic name
  | delete k name =>
    exact hb.onChannel rfl (hr k rfl) (Channel.layout_whenOpen fun _ => rfl) fun _ _ ht =>
      ht.delete name
  | closeChannel k =>
    exact hb.onChannel rfl (hr k rfl) (fun _ => rfl) fun _ hc ht => ht.close hc

end Recounts

theorem onward_onChannel {f : Channel → Except TransportFailure Unit × Channel}
    (hf : ∀ c, Channel.Onward c (f c).2) (b : Broker) (k n : Nat) :
    (b.channelOrNew n).Onward ((b.onChannel k f).2.channelOrNew n) := by
  by_cases hk : k < b.channels.length
  · rw [onChannel_eq hk, channelOrNew_set hk]
    split
    next hkn => exact hkn ▸ hf _
    next => exact .refl _
  · rw [onChannel, List.getElem?_eq_none (Nat.le_of_not_lt hk)]
    exact .refl _

/-- Whatever request a broker carries out, each channel goes onward. -/
theorem onward_perform (b : Broker) (r : Request) (n : Nat) :
    (b.channelOrNew n).Onward ((b.perform r).2.channelOrNew n) := by
  cases r with
  | createChannel =>
    rcases b.createChannel_cases with ⟨e, he⟩ | he <;> rw [perform, he]
    · exact .refl _
    · rw [channelOrNew_snoc]
      split
      next hn =>
        rw [channelOrNew, List.getElem?_eq_none (Nat.le_of_eq hn.symm)]
        exact ⟨List.prefix_rfl, fun hc => ⟨hc, rfl⟩⟩
      next => exact .refl _
  | close => exact .refl _
  | publish k m => exact onward_onChannel (fun _ => .whenOpen (List.prefix_append _ _)) b k n
  | declare k topic name => exact onward_onChannel (fun _ => .whenOpen List.prefix_rfl) b k n
  | delete k name => exact onward_onChannel (fun _ => .whenOpen List.prefix_rfl) b k n
  | closeChannel k => exact onward_onChannel Channel.Onward.close b k n

/-- What opening a channel comes to. -/
theorem eq_of_opened (hr : (b.perform r).1 = .opened k) :
    r = .createChannel ∧ k = b.channels.length ∧
      (b.perform r).2 = { b with channels := b.channels ++ [b.nextChannel] } := by
  by_cases hcreate : r = .createChannel
  · subst hcreate
    rw [perform] at hr ⊢
    rcases b.createChannel_cases with ⟨e, he⟩ | he <;> rw [he] at hr ⊢
    · cases hr
    · cases hr
      exact ⟨rfl, rfl, rfl⟩
  · exact absurd hr (b.perform_ne_opened hcreate k)

/-- A request that opens no channel leaves their number as it is. -/
theorem length_channels_of_ne_opened (ho : ∀ k, (b.perform r).1 ≠ .opened k) :
    (b.perform r).2.channels.length = b.channels.length := by
  by_cases hcreate : r = .createChannel
  · subst hcreate
    rcases b.createChannel_cases with ⟨e, he⟩ | he
    · rw [perform, he]
    · rw [perform, he] at ho
      exact absurd rfl (ho _)
  · exact System.length_channels_perform b hcreate

/-- A channel that is there after a request was there before, or has just been opened. -/
theorem lt_or_opened (hk : k < (b.perform r).2.channels.length) :
    k < b.channels.length ∨ r = .createChannel ∧ (b.perform r).1 = .opened k := by
  by_cases ho : ∃ n, (b.perform r).1 = .opened n
  · obtain ⟨n, ho⟩ := ho
    obtain ⟨hcreate, rfl, hb⟩ := eq_of_opened ho
    rw [hb, List.length_append, List.length_singleton] at hk
    rcases Nat.lt_or_eq_of_le (Nat.le_of_lt_succ hk) with hk | rfl
    · exact .inl hk
    · exact .inr ⟨hcreate, ho⟩
  · rw [not_exists] at ho
    exact .inl (length_channels_of_ne_opened ho ▸ hk)

end Broker

end BrokerClient
