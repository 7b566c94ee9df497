import BrokerClient.Proofs.Bookkeeping
import BrokerClient.Proofs.Posting

/-!
# Sending and reporting

Sending, publishing, recording and reporting, each as a move of what concerns messages. A step of a
client is one such move at most (`System.posts_step`), provided that what the broker's side does is
truthful: the broker announces the number under which it is going to record the next message, and
reports on recorded messages only. So whatever moves keep holds in every state that such a client
comes to (`System.posted_of_run`).

There are two places where what the broker's side does could break this. An announced number that is
not the next one is excluded by `Upright`, which every step keeps as long as faults are honest. A
report on a number that is not recorded is excluded where the report is made (`posts_operate`), and
from then on the stream holds no such report.
-/

namespace BrokerClient

/-- Whether a fault leaves the announced numbers alone. -/
def Fault.isHonest (f : Fault) : Bool := f.kind ≠ .nextTag || f.tag.isNone

/-- What at most one element of a list has is at one place. -/
theorem eq_of_countP_le_one {α : Type} {p : α → Bool} {l : List α} (h : l.countP p ≤ 1) {i j : Nat}
    {a b : α} (hi : l[i]? = some a) (hj : l[j]? = some b) (ha : p a = true) (hb : p b = true) :
    i = j := by
  induction l generalizing i j with
  | nil => simp at hi
  | cons x l ih =>
    -- Once the head has been counted, nothing behind it may be.
    have hnone : p x = true → ∀ {n : Nat} {y : α}, l[n]? = some y → p y = false := by
      intro hx n y hy
      rw [List.countP_cons_of_pos hx] at h
      have hz : l.countP p = 0 := by omega
      simpa using List.countP_eq_zero.1 hz y (List.mem_of_getElem? hy)
    cases i with
    | zero =>
      cases j with
      | zero => rfl
      | succ j =>
        cases hi
        simp [hnone ha hj] at hb
    | succ i =>
      cases j with
      | zero =>
        cases hj
        simp [hnone hb hi] at ha
      | succ j =>
        refine congrArg _ (ih (Nat.le_trans ?_ h) hi hj)
        rw [List.countP_cons]
        omega

namespace System

variable {w v u : System} {i j : CallId} {c : ConnectionId} {s : SessionId} {x : ConsumerId}
  {k : Nat} {m : Message} {tracked : Bool}

/-! ## The channel of a session -/

/-- The number under which a channel records next is the one that the broker announces when it does
so truthfully. -/
theorem box_next (b : Broker) (k : Nat) : (b.box k).next = b.nextTag k := by
  unfold Broker.box Broker.channelOrNew Broker.nextTag
  cases b.channels[k]? <;> rfl

/-- A session is reached on its connection, through its channel. -/
theorem address_eq (hs : s < w.sessions.length) :
    w.address? s = some ((w.session s).connection, (w.session s).channel) :=
  address_of_lt hs

/-- The broker has the channel of every session. -/
theorem channel_lt (h : w.ledger.Sound) (ha : w.address? s = some (c, k)) :
    c < w.connections.length ∧ k < (w.connection c).broker.channels.length := by
  have hs := lt_of_address ha
  rw [address_eq hs] at ha
  cases ha
  have hroom := room_of_lt hs
  constructor
  · simpa [ledger] using h.placed.housed hroom
  · have ho := h.tallied.owned (w.session s).connection (w.session s).channel
    have hpos : 0 < w.ledger.rooms.countP
        (Room.isAt (w.session s).connection (w.session s).channel) :=
      List.countP_pos_iff.2 ⟨_, List.mem_of_getElem? hroom, by simp [Room.isAt]⟩
    rw [Ledger.owners, ledger_line] at ho
    split at ho
    · assumption
    · omega

/-- No two sessions have one channel. -/
theorem address_inj (h : w.ledger.Sound) {t : SessionId} {a : ConnectionId × Nat}
    (hs : w.address? s = some a) (ht : w.address? t = some a) : s = t := by
  obtain ⟨c, k⟩ := a
  have hat : ∀ {r}, w.address? r = some (c, k) →
      ∃ x : Room, w.ledger.rooms[r]? = some x ∧ x.isAt c k = true := by
    intro r hr
    have hlt := lt_of_address hr
    rw [address_eq hlt] at hr
    cases hr
    exact ⟨_, room_of_lt hlt, by simp [Room.isAt]⟩
  -- A channel has one owner, so that there is no room for a second session on it.
  obtain ⟨x, hx, hxa⟩ := hat hs
  obtain ⟨y, hy, hya⟩ := hat ht
  have ho := h.tallied.owned c k
  refine eq_of_countP_le_one (p := Room.isAt c k) ?_ hx hy hxa hya
  rw [Ledger.owners] at ho
  split at ho <;> omega

/-! ## Sending -/

/-- No session takes reports that is closed, and the broker announces its numbers truthfully. -/
structure Upright (w : System) : Prop where
  still : ∀ s, (w.session s).Still
  honest : ∀ c, ∀ f ∈ (w.connection c).faults, f.isHonest = true

/-- A step that leaves closed sessions deaf and adds no fault keeps a client upright. -/
theorem Sober.upright (h : Sober w v) (hw : w.Upright) : v.Upright :=
  ⟨fun s => h.still s (hw.still s), fun c f hf => hw.honest c f (h.faults c hf)⟩

/-- The broker announces the number under which it is going to record next. -/
theorem announcedTag_eq (h : w.Upright) (s : SessionId) : w.announcedTag s =
    ((w.connection (w.session s).connection).broker.box (w.session s).channel).next := by
  rw [box_next, announcedTag, takeFault]
  cases hf : (w.connection (w.session s).connection).faults.find?
      (·.fits .nextTag (some (w.session s).channel)) with
  | none => rfl
  | some f =>
    -- A fault that fits is one for the next number, and such a fault gives none.
    have hkind : f.kind = .nextTag := by
      have hfits := List.find?_some hf
      simp only [Fault.fits, Bool.and_eq_true, decide_eq_true_eq] at hfits
      exact hfits.1
    have htag : f.tag = none := by
      simpa [Fault.isHonest, hkind] using h.honest _ f (List.mem_of_find?_eq_some hf)
    simp only [Option.bind_some, htag]
    rfl

/-- A message that is to be published waits for its confirmation first, if it is tracked. -/
theorem post_readyToPublish (hs : s < w.sessions.length) : (w.readyToPublish s m tracked).post =
    w.post.atDesk s fun d => { d with
      pending := if tracked then d.pending.track (w.announcedTag s) m else d.pending } := by
  have hf := post_modifyConnection (f := fun y => { y with
    faults := (takeFault .nextTag (some (w.session s).channel)
      (w.connection (w.session s).connection).faults).2 }) (by intro _; rfl) w
    (w.session s).connection
  cases tracked with
  | true =>
    rw [← hf]
    exact post_modifySession hs (by intro _; rfl)
  | false =>
    refine hf.trans (Post.ext (fun t => ?_) (fun _ _ => rfl) (fun _ => rfl) rfl)
    simp only [Post.desk_atDesk]
    split <;> rfl

theorem sober_readyToPublish (w : System) (s : SessionId) (m : Message) (tracked : Bool) :
    Sober w (w.readyToPublish s m tracked) := by
  have hf := (Plain.useFault w (w.session s).connection .nextTag (some (w.session s).channel)
    id).sober
  cases tracked with
  | true => exact hf.trans (sober_modifySession (by intro _ h; exact h) _ s)
  | false => exact hf

theorem sober_publish (w : System) (i : CallId) (s : SessionId) (m : Message) (tracked : Bool) :
    Sober w (w.publish i s m tracked) := by
  rw [publish_eq]
  exact (sober_readyToPublish w s m tracked).trans (sober_ask _ i _ _ _ _)

/-- A message is published under the number that is announced, truthful or not. -/
theorem post_publish_announced (hi : i < w.calls.length) (hs : s < w.sessions.length) :
    (w.publish i s m tracked).post = (w.post.atDesk s fun d => { d with
      pending := if tracked then d.pending.track (w.announcedTag s) m else d.pending }).assign i
        (.sending s m (w.announcedTag s) tracked false) := by
  have hcalls : i < (w.readyToPublish s m tracked).calls.length := by simpa using hi
  rw [publish_eq, post_ask, post_setCall hcalls, post_readyToPublish hs]
  rfl

/-- A message whose turn it is. -/
theorem post_publish (h : w.Upright) (hi : i < w.calls.length) (ha : w.address? s = some (c, k)) :
    (w.publish i s m tracked).post = w.post.start i s m tracked c k := by
  have hs := lt_of_address ha
  rw [address_eq hs] at ha
  cases ha
  rw [post_publish_announced hi hs, announcedTag_eq h]
  rfl

end System

namespace Post

/-- A message that takes its place and need not wait there. -/
theorem start_queue (p : Post) (i : CallId) (s : SessionId) (m : Message) (tracked : Bool)
    (c : ConnectionId) (k : Nat) : (p.queue i s m tracked).start i s m tracked c k =
      (p.atDesk s fun d => { d with turns := d.turns ++ [i] }).start i s m tracked c k := by
  refine ext (fun _ => rfl) (fun _ _ => rfl) (fun j => ?_) rfl
  simp only [start, queue, sender_assign, sender_atDesk]
  split <;> rfl

end Post

namespace System

variable {w v u : System} {i j : CallId} {c : ConnectionId} {s : SessionId} {x : ConsumerId}
  {k : Nat} {m : Message} {tracked : Bool}

theorem sober_takePlace (w : System) (i : CallId) (s : SessionId) : Sober w (w.takePlace i s) :=
  sober_modifySession (by intro _ h; exact h) w s

/-- A call takes the last place at the lock of its session. -/
theorem post_takePlace (hs : s < w.sessions.length) (i : CallId) : (w.takePlace i s).post =
    w.post.atDesk s fun d => { d with turns := d.turns ++ [i] } :=
  post_modifySession hs (by intro _; rfl)

/-- The sessions keep their channels. -/
theorem address_takePlace (w : System) (i : CallId) (s t : SessionId) :
    (w.takePlace i s).address? t = w.address? t := by
  have hm : (w.takePlace i s).sessions.map Session.address = w.sessions.map Session.address :=
    map_modify_eq (by intro _; rfl) w.sessions s
  simp only [address?, outline, hm]

theorem sober_send (w : System) (i : CallId) (s : SessionId) (m : Message) :
    Sober w (w.send i s m) := by
  have hv := sober_takePlace w i s
  rcases send_effect w i s m with he | ⟨_, he⟩ | he <;> rw [he]
  · exact sober_setCall w i _
  · exact hv.trans (sober_publish _ i s m _)
  · exact hv.trans (sober_setCall _ i _)

/-- A call that sends is refused, or waits its turn, or comes and publishes at once. -/
theorem post_send (h : w.Upright) (hi : i < w.calls.length) (hidle : w.post.sender i = .idle)
    (hs : s < w.sessions.length) (l : Label) :
    (w.send i s m).post = w.post ∨ Post.Move w.address? l w.post (w.send i s m).post := by
  have ha := address_eq hs
  rcases send_effect w i s m with he | ⟨hturns, he⟩ | he <;> rw [he]
  · exact .inl ((Plain.refl w).mute.setCall hidle rfl).post
  · refine .inr ?_
    have hv := (sober_takePlace w i s).upright h
    rw [post_publish hv hi ((address_takePlace w i s s).trans ha), post_takePlace hs,
      ← Post.start_queue]
    exact .come hidle hturns ha
  · refine .inr ?_
    have hcalls : i < (w.takePlace i s).calls.length := hi
    rw [post_setCall hcalls, post_takePlace hs]
    exact .queue hidle

theorem sober_endPublish (w : System) (i : CallId) (s : SessionId) (tag : Nat) (tracked : Bool)
    (result : Except TransportFailure Unit) :
    Sober w (w.endPublish i s tag tracked result) := by
  rcases endPublish_effect w i s tag tracked result with ⟨_, he⟩ | ⟨_, _, he⟩ <;> rw [he]
  · exact (sober_modifySession (by intro _ h; exact h) w s).trans (sober_setCall _ i _)
  · exact (sober_modifySession (by intro _ h; exact h) w s).trans (sober_setCall _ i _)

/-- A call that has the answer gives its turn away. -/
theorem move_endPublish (hi : i < w.calls.length) (hs : s < w.sessions.length) {tag : Nat}
    {result : Except TransportFailure Unit}
    (hsend : w.post.sender i = .sending s m tag tracked result.toBool) (l : Label) :
    Post.Move w.address? l w.post (w.endPublish i s tag tracked result).post := by
  rcases endPublish_effect w i s tag tracked result with ⟨rfl, he⟩ | ⟨e, rfl, he⟩
  · have hd := post_modifySession (f := fun y => { y with turns := y.turns.erase i })
      (g := fun d => ⟨d.turns.erase i, d.pending⟩) hs (by intro _; rfl)
    rw [he, finish_eq, post_setCall (by simpa using hi), hd]
    exact .done hsend
  · have hd := post_modifySession (f := fun y => { y with
        turns := y.turns.erase i
        pending := if tracked then y.pending.discard tag else y.pending })
      (g := fun d => ⟨d.turns.erase i, if tracked then d.pending.discard tag else d.pending⟩) hs
      (by intro _; rfl)
    rw [he, fail_eq, post_setCall (by simpa using hi), hd]
    exact .fail hsend

end System

/-! ## The broker's part -/

/-- A report goes to the end of the stream, if there is somebody to take it. -/
theorem Channel.box_report (e : ConfirmEvent) (ch : Channel) : (ch.report e).2.box =
    { ch.box with stream := ch.stream ++ if ch.listening then [e] else [] } := by
  unfold Channel.report
  split
  · rfl
  · rw [List.append_nil]
    rfl

namespace Broker

variable {b : Broker} {k : Nat}

/-- What a broker has on record for a channel is what the channel has. -/
theorem box_of_getElem? {ch : Channel} (h : b.channels[k]? = some ch) : b.box k = ch.box := by
  rw [box, channelOrNew, h]
  rfl

/-- A message that is published on a channel that is open is recorded; on another one nothing
happens. -/
theorem box_publish (hk : k < b.channels.length) (m : Message) :
    ((b.perform (.publish k m)).1.result.toBool = true ∧ ∀ n, (b.perform (.publish k m)).2.box n =
      if k = n then { b.box n with next := (b.box n).next + 1, record := (b.box n).record ++ [m] }
      else b.box n) ∨
    ((b.perform (.publish k m)).1.result.toBool = false ∧
      ∀ n, (b.perform (.publish k m)).2.box n = b.box n) := by
  obtain ⟨ch, hch⟩ : ∃ ch, b.channels[k]? = some ch := ⟨_, List.getElem?_eq_getElem hk⟩
  have hbox := box_of_getElem? hch
  simp only [perform, onChannel, hch, Channel.publish, Channel.whenOpen]
  cases hopen : ch.isOpen with
  | true =>
    refine .inl ⟨rfl, fun n => ?_⟩
    simp only [if_true, box]
    rw [channelOrNew_set hk]
    split
    next hkn =>
      rw [← hkn, ← box, hbox]
      rfl
    next => rfl
  | false =>
    refine .inr ⟨rfl, fun n => ?_⟩
    simp only [Bool.false_eq_true, if_false, box]
    rw [channelOrNew_set hk]
    split
    next hkn => rw [← hkn, ← box, hbox]
    next => rfl

theorem box_modifyChannel (hk : k < b.channels.length) (f : Channel → Channel) (n : Nat) :
    (b.modifyChannel k f).box n = if k = n then (f (b.channelOrNew n)).box else b.box n := by
  have hset : b.channels.modify k f = b.channels.set k (f (b.channelOrNew k)) := by
    rw [modify_eq_set_of (List.getElem?_eq_getElem hk), channelOrNew, List.getElem?_eq_getElem hk]
    rfl
  rw [modifyChannel, hset, box, channelOrNew_set hk]
  split
  next hkn => rw [hkn]
  next => rfl

/-- Reports are dropped from the stream of a channel. -/
theorem box_drop {f : Channel → Channel} {es : List ConfirmEvent}
    (hf : (f (b.channelOrNew k)).box = { b.box k with stream := es }) (hes : es ⊆ (b.box k).stream)
    (n : Nat) : (b.modifyChannel k f).box n =
      if k = n then { b.box n with stream := es } else b.box n := by
  by_cases hk : k < b.channels.length
  · rw [box_modifyChannel hk]
    split
    next hkn =>
      subst hkn
      exact hf
    next => rfl
  · have hnew : b.channelOrNew k = { index := k, failsClose := false } := by
      rw [channelOrNew, List.getElem?_eq_none (Nat.le_of_not_lt hk)]
      rfl
    have hnil : es = [] := by
      rw [box, hnew] at hes
      exact List.subset_nil.1 hes
    rw [modifyChannel, List.modify_eq_self (Nat.le_of_not_lt hk)]
    split
    next hkn =>
      subst hkn hnil
      rw [box, hnew]
      rfl
    next => rfl

/-- Reports that nobody can take are lost. -/
theorem box_reported (b : Broker) (k : Nat) (es : List ConfirmEvent) : ∃ new, new ⊆ es ∧
    ∀ n, (b.reported k es).box n =
      if k = n then { b.box n with stream := (b.box n).stream ++ new } else b.box n := by
  induction es generalizing b with
  | nil =>
    refine ⟨[], List.nil_subset _, fun n => ?_⟩
    rw [List.append_nil, ite_self]
    rfl
  | cons e es ih =>
    obtain ⟨new, hnew, hbox⟩ := ih (b.modifyChannel k fun ch => (ch.report e).2)
    -- What is put on the stream depends on whether anybody can take it.
    by_cases hk : k < b.channels.length
    · refine ⟨(if (b.channelOrNew k).listening then [e] else []) ++ new, ?_, fun n => ?_⟩
      · refine List.append_subset.2 ⟨?_, List.subset_cons_of_subset e hnew⟩
        split <;> simp
      · rw [reported, List.foldl_cons, ← reported, hbox n, box_modifyChannel hk]
        split
        next hkn =>
          subst hkn
          rw [Channel.box_report]
          simp only [List.append_assoc]
          rfl
        next => rfl
    · have hself : (b.modifyChannel k fun ch => (ch.report e).2) = b := by
        rw [modifyChannel, List.modify_eq_self (Nat.le_of_not_lt hk)]
      rw [hself] at hbox
      refine ⟨new, List.subset_cons_of_subset e hnew, fun n => ?_⟩
      rw [reported, List.foldl_cons, hself, ← reported]
      exact hbox n

end Broker

namespace System

variable {w v u : System} {i j : CallId} {c : ConnectionId} {s : SessionId} {x : ConsumerId}
  {k : Nat} {m : Message} {tracked : Bool}

/-- A reading of a call that publishes. -/
theorem post_sender_publish {e : Exchange} {tag : Nat} (hp : w.progress? i = some (.exchange e))
    (hg : e.goal = .publish s tag tracked) (hr : e.request = .publish k m) :
    w.post.sender i = .sending s m tag tracked e.stage.recorded := by
  rw [post_sender hp, Progress.sender, Exchange.sender, hg, hr]

theorem sober_takeEffect (w : System) (i : CallId) (e : Exchange) (after : Nat) :
    Sober w (w.takeEffect i e after) :=
  (sober_modifyConnection (by intro _; rfl) w _).trans (sober_setCall _ i _)

/-- A message is recorded when its request takes effect on a channel that is open. -/
theorem post_takeEffect (hw : w.Wired) (h : w.ledger.Sound) {e : Exchange} {after : Nat}
    (hp : w.progress? i = some (.exchange e)) (hs : e.stage = .before none after) :
    (w.takeEffect i e after).post = w.post ∨
      Post.Move w.address? (.run (.call i)) w.post (w.takeEffect i e after).post := by
  have hi := lt_of_progress hp
  obtain ⟨y, _, hf⟩ := hw.fits hp
  simp only [Progress.Fits, Exchange.Fits] at hf
  cases hg : e.goal with
  | publish s tag tracked =>
    rw [hg] at hf
    obtain ⟨_, m, k, _, ha, hr⟩ := hf
    obtain ⟨hc, hk⟩ := channel_lt h ha
    have hsend := post_sender_publish hp hg hr
    rw [hs, Stage.recorded] at hsend
    have hnew : ∀ reply wake, (Progress.exchange { e with stage := .answered reply, wake }).sender =
        .sending s m tag tracked reply.result.toBool := by
      intro reply wake
      simp only [Progress.sender, Exchange.sender, hg, hr]
      rfl
    have hbox := Broker.box_publish hk m
    rw [← hr] at hbox
    unfold takeEffect
    simp only
    rw [post_setCall (by exact hi), hnew]
    -- The channel took the message, or it was closed and nothing changed at all.
    rcases hbox with ⟨hok, hbox⟩ | ⟨hok, hbox⟩
    · refine .inr ?_
      rw [hok, post_modifyBroker (g := fun b => { b with
        next := b.next + 1
        record := b.record ++ [m] }) hc hbox]
      exact .record hsend ha
    · refine .inl ?_
      rw [hok, post_modifyBroker_eq hbox, Post.assign_eq_self hsend]
  | _ =>
    refine .inl ?_
    have hg : e.goal.publishes = false := by rw [hg]; rfl
    have hr : ∀ k m, e.request ≠ .publish k m := by
      intro k m hr
      simp [*] at hf
    unfold takeEffect
    simp only
    rw [post_setCall (by exact hi), post_modifyBroker_eq (Broker.box_perform hr _),
      Post.assign_eq_self]
    rw [post_sender hp]
    exact (Exchange.sender_eq_idle hg).trans (Exchange.sender_eq_idle (by exact hg)).symm

/-! ## Reports -/

/-- A confirmation that a listener hears is handed over. -/
theorem post_tell_confirmed (w : System) (s : SessionId) (label : String) (x : Confirmation)
    (left : Option Nat) : (w.tell (.confirmed s label x left)).post =
      { w.post with handed := (s, x) :: w.post.handed } := rfl

/-- A listener that is called may change what is installed, and nothing else. -/
theorem plain_react (w : System) (s : SessionId) (l : Listener) : Plain w (w.react s l) := by
  unfold react
  split
  · split
    · exact .refl w
    · exact .modifySession (by intro _; rfl) (by intro _ h; exact h) w s
    · exact .modifySession (by intro _; rfl) (by intro _ h; exact h) w s
  · exact .refl w

/-- A listener may do what it likes with what is installed; faults are not among it. -/
theorem sober_foldl_confirm (s : SessionId) (l : Listener) (xs : List Confirmation) (w : System) :
    Sober w (xs.foldl (confirm s l) w) := by
  induction xs generalizing w with
  | nil => exact (Plain.refl w).sober
  | cons x xs ih =>
    have ht : Sober w (w.tell (.confirmed s l.label x
        (if (w.session s).held then some (w.session s).pending.size else none))) :=
      ⟨fun _ => id, fun _ _ => id⟩
    exact (ht.trans (plain_react _ s l).sober).trans (ih _)

/-- A listener is called with the whole batch. -/
theorem post_foldl_confirm (s : SessionId) (l : Listener) (xs : List Confirmation) (w : System) :
    (xs.foldl (confirm s l) w).post =
      { w.post with handed := (xs.map fun x => (s, x)).reverse ++ w.post.handed } := by
  induction xs generalizing w with
  | nil => rfl
  | cons x xs ih =>
    rw [List.foldl_cons, ih, confirm, (plain_react _ s l).post, post_tell_confirmed]
    simp

/-- A report may settle confirmations and call the listener, and closed sessions stay deaf. -/
theorem sober_handleReport (w : System) (s : SessionId) (e : ConfirmEvent) :
    Sober w (w.handleReport s e) := by
  have hv : Sober w (w.modifySession s fun y => { y with pending := y.pending.settle e }) :=
    sober_modifySession (by intro _ h; exact h) w s
  unfold handleReport
  simp only
  split
  · exact (Quiet.log w _).plain.sober
  · split
    · exact hv.trans (Quiet.log _ _).plain.sober
    · exact hv.trans (sober_foldl_confirm s _ _ _)

/-- A report either settles nothing, or what it settles is handed over, unless nobody listens. -/
theorem post_handleReport (w : System) (s : SessionId) (e : ConfirmEvent) :
    (w.handleReport s e).post = w.post ∨ (s < w.sessions.length ∧ ∃ new,
      (new = [] ∨ new = (((w.post.desk s).pending.settled e).map fun x => (s, x)).reverse) ∧
      (w.handleReport s e).post = w.post.settle s e new) := by
  unfold handleReport
  simp only
  split
  · exact .inl (Quiet.log w _).plain.post
  next hne =>
    -- Something is settled, so there is such a session.
    have hs : s < w.sessions.length := by
      by_contra hn
      have hd : w.session s = default := by
        rw [session, List.getElem?_eq_none (Nat.le_of_not_lt hn)]
        rfl
      rw [hd] at hne
      exact hne rfl
    have hd := post_modifySession (f := fun y => { y with pending := y.pending.settle e })
      (g := fun d => { d with pending := d.pending.settle e }) hs (by intro _; rfl)
    refine .inr ⟨hs, ?_⟩
    split
    · exact ⟨[], .inl rfl, (Quiet.log _ _).plain.post.trans hd⟩
    · refine ⟨_, .inr rfl, ?_⟩
      rw [post_foldl_confirm, hd]
      rfl

theorem sober_modifyChannelOf (w : System) (s : SessionId) (f : Channel → Channel) :
    Sober w (w.modifyChannelOf s f) :=
  sober_modifyConnection (by intro _; rfl) w _

/-- Reports are dropped from the stream of a session's channel. -/
theorem post_modifyChannelOf {f : Channel → Channel} {es : List ConfirmEvent}
    (hf : (f (w.channelOf s)).box = { (w.channelOf s).box with stream := es })
    (hes : es ⊆ (w.channelOf s).stream) : (w.modifyChannelOf s f).post =
      w.post.stream (w.session s).connection (w.session s).channel es := by
  have hbox := Broker.box_drop (b := (w.connection (w.session s).connection).broker) hf hes
  obtain ⟨b, hb⟩ : ∃ b, (w.connection (w.session s).connection).broker.modifyChannel
      (w.session s).channel f = b := ⟨_, rfl⟩
  have he : w.modifyChannelOf s f =
      w.modifyConnection (w.session s).connection fun y => { y with broker := b } :=
    modifyConnection_congr (by rw [← hb])
  rw [hb] at hbox
  rw [he]
  by_cases hc : (w.session s).connection < w.connections.length
  · exact post_modifyBroker hc hbox
  · -- Where there is no connection, there is nothing on a stream.
    have hd : w.connection (w.session s).connection = default := by
      rw [connection, List.getElem?_eq_none (Nat.le_of_not_lt hc)]
      rfl
    have hnil : es = [] := by
      rw [channelOf, hd] at hes
      exact List.subset_nil.1 hes
    rw [modifyConnection, List.modify_eq_self (Nat.le_of_not_lt hc)]
    refine Post.ext (fun _ => rfl) (fun d n => ?_) (fun _ => rfl) rfl
    rw [Post.stream, Post.box_atBox]
    split
    next hdn =>
      simp only [post, ← hdn.1, hd, hnil]
      rfl
    next => rfl

/-- A dispatcher that runs leaves the faults alone, and no closed session takes a report. -/
theorem sober_dispatch (h : w.dispatch? s = some v) : Sober w v := by
  rcases dispatch?_cases h with ⟨_, rfl⟩ | ⟨e, rest, _, _, rfl⟩
  · refine (sober_modifyChannelOf w s _).trans (sober_modifySession (fun y _ _ => ?_) _ s)
    exact Dispatcher.noConfusion
  · exact (sober_modifyChannelOf w s _).trans (sober_handleReport _ s e)

/-- A dispatcher drops the rest of the stream when its session is closed; otherwise it takes the
first report and settles by it. -/
theorem move_dispatch (h : w.dispatch? s = some v) :
    Post.Move w.address? (.run (.dispatcher s)) w.post v.post := by
  -- The dispatcher stops and drops its stream, or it takes the report at the head.
  rcases dispatch?_cases h with ⟨_, rfl⟩ | ⟨e, rest, _, hstream, rfl⟩
  · have hnil : [] ⊆ (w.channelOf s).stream := List.nil_subset _
    have hdrop := post_modifyChannelOf (f := Channel.abandonStream) rfl hnil
    have hended : Plain (w.modifyChannelOf s Channel.abandonStream)
        ((w.modifyChannelOf s Channel.abandonStream).modifySession s fun y =>
          { y with dispatcher := .ended }) :=
      .modifySession (by intro _; rfl) (fun _ _ _ => Dispatcher.noConfusion) _ s
    rw [hended.post, hdrop]
    exact .drop hnil
  · have hsub : rest ⊆ (w.channelOf s).stream := by
      rw [hstream]
      exact List.subset_cons_self e rest
    generalize hv : (w.modifyChannelOf s fun _ => { w.channelOf s with stream := rest }) = v
    have hdrop : v.post = w.post.stream (w.session s).connection (w.session s).channel rest := by
      rw [← hv]
      exact post_modifyChannelOf rfl hsub
    have hlen : v.sessions = w.sessions := by rw [← hv]; rfl
    rcases post_handleReport v s e with he | ⟨hs, new, hnew, he⟩
    · rw [he, hdrop]
      exact .drop hsub
    · rw [hlen] at hs
      rw [hdrop] at hnew
      rw [he, hdrop]
      exact .take (address_eq hs) hstream hnew

/-! ## Steps -/

/-- Whether what the broker's side does is truthful: reports concern messages that are recorded, and
faults leave the announced numbers alone. -/
def isTruthful (w : System) : Label → Bool
  | .operate (.report c k es) => es.all fun e => e.tag < (w.connection c).broker.nextTag k
  | .operate (.inject _ f) => f.isHonest
  | _ => true

/-- The broker's side is truthful in this step. -/
abbrev Truthful (w : System) (l : Label) : Prop := w.isTruthful l = true

/-- Messages are not concerned, or it is one move. -/
structure Posts (w : System) (l : Label) (v : System) : Prop where
  upright : v.Upright
  post : v.post = w.post ∨ Post.Move w.address? l w.post v.post

/-- What does not concern messages is no move. -/
theorem Mute.posts (h : Mute w v) (hu : w.Upright) (l : Label) : Posts w l v :=
  ⟨h.sober.upright hu, .inl h.post⟩

/-- A call that goes on publishes when its turn comes; otherwise it is one move at most, whatever
the broker's side does. -/
theorem resume_post (hw : w.Wired) (h : w.ledger.Sound) (hr : w.resume? i = some v) :
    (∃ s m tracked c k, w.progress? i = some (.turn s m tracked) ∧
      (w.session s).turns.head? = some i ∧ w.address? s = some (c, k) ∧
      v = w.publish i s m tracked) ∨
    (Sober w v ∧
      (v.post = w.post ∨ Post.Move w.address? (.run (.call i)) w.post v.post)) := by
  have hmute : ∀ {u}, Mute w u → Sober w u ∧
      (u.post = w.post ∨ Post.Move w.address? (.run (.call i)) w.post u.post) :=
    fun hm => ⟨hm.sober, .inl hm.post⟩
  rcases resume?_cases hr with ⟨s, m, tracked, hp, hfirst, rfl⟩ | ⟨e, reply, hp, _, hstage, rfl⟩ |
    ⟨e, after, hp, _, hstage, rfl⟩ | ⟨e, limit, hp, hl, _, _, rfl⟩ | ⟨x, o, hp, ho, rfl⟩
  · obtain ⟨y, _, hf⟩ := hw.fits hp
    obtain ⟨_, ⟨c, k⟩, ha⟩ := hf
    exact .inl ⟨s, m, tracked, c, k, hp, hfirst, ha, rfl⟩
  · right
    cases hg : e.goal.publishes with
    | false => exact hmute (mute_resolve hp hg reply)
    | true =>
      obtain ⟨y, _, hf⟩ := hw.fits hp
      simp only [Progress.Fits, Exchange.Fits] at hf
      cases hgoal : e.goal with
      | publish s tag tracked =>
        rw [hgoal] at hf
        obtain ⟨_, m, k, _, ha, hq⟩ := hf
        have hsend := post_sender_publish hp hgoal hq
        -- The answer says what the call knows.
        have hrec : e.stage.recorded = reply.result.toBool := by
          rcases hstage with ⟨f, after, hb, rfl⟩ | hb
          · rw [hb]
            rfl
          · rw [hb]
            rfl
        rw [hrec] at hsend
        have he : w.resolve i e reply = w.endPublish i s tag tracked reply.result := by
          simp only [resolve, hgoal]
        rw [he]
        exact ⟨sober_endPublish w i s tag tracked _,
          .inr (move_endPublish (lt_of_progress hp) (lt_of_address ha) hsend _)⟩
      | _ =>
        rw [hgoal] at hg
        cases hg
  · exact .inr ⟨sober_takeEffect w i e after, post_takeEffect hw h hp hstage⟩
  · exact .inr (hmute (plain_giveUp (hw.isPlain_of_limit hp hl) e).mute)
  · refine .inr (hmute (plain_resumed (fun p hq => ?_) ho).mute)
    rw [hp] at hq
    cases hq
    rfl

/-- A call that goes on makes one move at most. -/
theorem posts_resume (hw : w.Wired) (h : w.ledger.Sound) (hu : w.Upright)
    (hr : w.resume? i = some v) : Posts w (.run (.call i)) v := by
  rcases resume_post hw h hr with ⟨s, m, tracked, c, k, hp, hfirst, ha, rfl⟩ | ⟨hs, hm⟩
  · refine ⟨(sober_publish w i s m tracked).upright hu, .inr ?_⟩
    rw [post_publish hu (lt_of_progress hp) ha]
    exact .start (post_sender hp) hfirst ha
  · exact ⟨hs.upright hu, hm⟩

/-- A call that does not send. -/
theorem mute_call (w : System) {y : Call} (hy : ∀ t m, y ≠ .send t m) : Mute w (w.call y).2 := by
  have hv := plain_enlist w y
  have hi := isPlain_enlist w y
  have hidle : (w.enlist y).post.sender w.calls.length = .idle := sender_of_isPlain hi
  rw [call_eq]
  cases y with
  | createSession c transacted mode via =>
    exact (hv.trans (plain_createSession hi c _ _ _)).mute
  | close c => exact (hv.trans (plain_closeConnection hi c)).mute
  | closeSession t => exact (hv.trans (plain_closeSession hi t)).mute
  | subscribe t d name => exact hv.mute.trans (mute_subscribe hidle t d name)
  | unsubscribe t name => exact hv.mute.trans (mute_unsubscribe hidle t name)
  | send t m => exact absurd rfl (hy t m)
  | awaitResume x => exact (hv.trans (plain_awaitResume hi x)).mute

/-- A call is made: only one that sends concerns messages. -/
theorem posts_call (hu : w.Upright) {y : Call} (hy : w.mayCall y = true) (l : Label) :
    Posts w l (w.call y).2 := by
  cases y with
  | send t m =>
    have hv := plain_enlist w (.send t m)
    have hvu := hv.sober.upright hu
    have hidle : (w.enlist (.send t m)).post.sender w.calls.length = .idle :=
      sender_of_isPlain (isPlain_enlist w _)
    have ht : t < (w.enlist (.send t m)).sessions.length := lt_of_holdsSession hy
    have hpost := post_send (m := m) hvu (by simp) hidle ht l
    refine ⟨(sober_send _ _ t m).upright hvu, ?_⟩
    rw [hv.post] at hpost
    exact hpost
  | _ => exact (mute_call w (by simp)).posts hu l

/-- An operation of the program. -/
theorem mute_operate (w : System) {o : Operation} (hb : o.isBrokerSide = false) :
    Mute w (w.operate o).2 := by
  cases hm : o.meddles with
  | false => exact (plain_operate w hm hb).mute
  | true =>
    cases o with
    | claimSubscription c name x =>
      simp only [operate, claimSubscription]
      split
      · exact (Plain.refl w).mute
      next hclaim => exact (mute_rename w _ _).trans (claimName_effect hclaim).2.plain.mute
    | abandonSubscription c name x claim => exact mute_rename w c (·.abandon name x claim)
    | removeSubscription c name =>
      simp only [operate, removeSubscription]
      split
      · exact (Plain.refl w).mute
      · exact ⟨post_modifyConnection (by intro _; rfl) w c,
          sober_modifyConnection (by intro _; rfl) w c⟩
    | _ => cases hm

/-- An operation concerns messages only where the broker reports, and a truthful report is on
recorded messages. -/
theorem posts_operate (hu : w.Upright) {o : Operation} (ho : w.mayOperate o = true)
    (ht : w.Truthful (.operate o)) : Posts w (.operate o) (w.operate o).2 := by
  cases hb : o.isBrokerSide with
  | false => exact (mute_operate w hb).posts hu _
  | true =>
    cases o with
    | inject c f =>
      refine ⟨⟨hu.still, fun d g hg => ?_⟩, .inl (post_modifyConnection (by intro _; rfl) w c)⟩
      by_cases hcd : c = d
      · subst hcd
        have hc : c < w.connections.length := by simpa [mayOperate, hasConnection] using ho
        simp only [operate, connection_modifyConnection_self hc, List.mem_append,
          List.mem_singleton] at hg
        rcases hg with hg | rfl
        · exact hu.honest c g hg
        · exact ht
      · simp only [operate, connection_modifyConnection_ne hcd] at hg
        exact hu.honest d g hg
    | report c k es =>
      have hc : c < w.connections.length := by simpa [mayOperate, hasConnection] using ho
      obtain ⟨new, hnew, hbox⟩ := Broker.box_reported (w.connection c).broker k es
      have he : (w.operate (.report c k es)).2 = w.modifyConnection c fun y =>
          { y with broker := (w.connection c).broker.reported k es } :=
        (reportAll_eq w c k es).trans (modifyConnection_congr rfl)
      rw [he]
      refine ⟨(sober_modifyConnection (by intro _; rfl) w c).upright hu, .inr ?_⟩
      -- A report goes to the end of the stream of one channel; the box has nothing else of it.
      have hpost : w.post.atBox c k (fun b => { b with stream := b.stream ++ new }) =
          w.post.stream c k ((w.post.box c k).stream ++ new) := by
        refine Post.ext (fun _ => rfl) (fun d n => ?_) (fun _ => rfl) rfl
        simp only [Post.stream, Post.box_atBox]
        split
        next hdn => rw [← hdn.1, ← hdn.2]
        next => rfl
      rw [post_modifyBroker (g := fun b => { b with stream := b.stream ++ new }) hc hbox, hpost]
      refine .report fun e he => ?_
      change e.tag < ((w.connection c).broker.box k).next
      rw [box_next]
      exact decide_eq_true_iff.1 (List.all_eq_true.1 ht e (hnew he))
    | _ => cases hb

/-- A step of a client whose broker is truthful concerns messages in one move at most. -/
theorem posts_step (hw : w.Wired) (h : w.ledger.Sound) (hu : w.Upright) {l : Label}
    (ht : w.Truthful l) (hs : w.step? l = some v) : Posts w l v := by
  cases l with
  | operate o =>
    obtain ⟨ho, rfl⟩ := step_operate hs
    exact posts_operate hu ho ht
  | call y =>
    obtain ⟨hy, rfl⟩ := step_call hs
    exact posts_call hu hy _
  | run a =>
    cases a with
    | call i => exact posts_resume hw h hu hs
    | dispatcher s => exact ⟨(sober_dispatch hs).upright hu, .inr (move_dispatch hs)⟩
  | take i => exact (plain_take hs).mute.posts hu _
  | tick t =>
    obtain ⟨_, rfl⟩ := step_tick hs
    exact ⟨⟨hu.still, hu.honest⟩, .inl rfl⟩

/-! ## Runs -/

/-- What holds in every state that a client whose broker is truthful comes to. -/
structure Posted (w : System) : Prop where
  upright : w.Upright
  sound : w.post.Sound w.address?

/-- A client that has done nothing has nothing to send, and its channels are empty. -/
theorem posted_empty : Posted {} := by
  refine ⟨⟨?still, ?honest⟩, fun c k => ?box, fun s => ?session⟩
  case still =>
    intro s hs
    cases hs
  case honest =>
    intro c f hf
    cases hf
  case box => exact ⟨rfl, fun e he => nomatch he⟩
  case session =>
    -- No call sends anything, nothing is awaited, and nothing was handed over.
    have hnobody : ∀ {i m tag tracked recorded},
        ({} : System).post.sender i ≠ .sending s m tag tracked recorded := nofun
    have hnone : ∀ {x}, x ∉ (({} : System).post.desk s).pending.entries := List.not_mem_nil
    have hsilent : ∀ {x}, (s, x) ∉ ({} : System).post.handed := List.not_mem_nil
    exact ⟨fun hi => absurd hi hnobody, fun hi => absurd hi hnobody,
      fun _ ht => absurd ht hnone, fun _ hx => absurd hx hsilent, .nil,
      fun _ => ⟨rfl, fun _ => hsilent, fun _ _ _ _ _ => hnobody⟩⟩

/-- Sessions keep their channels as the client goes on. -/
theorem address_mono {xs : List Call} (hg : w.outline.Grows xs v.outline) {a : ConnectionId × Nat}
    (h : w.address? s = some a) : v.address? s = some a :=
  getElem?_of_grows hg.addresses h

/-- A session belongs to the connection on which it is reached. -/
theorem isOn_of_address {s : SessionId} {k : Nat} (ha : w.address? s = some (c, k)) :
    w.isOn c s = true := by
  have hlt := lt_of_address ha
  rw [address_eq hlt] at ha
  exact isOn_iff.2 ⟨hlt, congrArg Prod.fst (Option.some.inj ha)⟩

theorem isOn_mono {ys : List Call} (hg : w.outline.Grows ys v.outline) {s : SessionId}
    (h : w.isOn c s = true) : v.isOn c s = true := by
  obtain ⟨hlt, rfl⟩ := isOn_iff.1 h
  exact isOn_of_address (address_mono hg (address_eq hlt))

theorem call_mono {xs : List Call} (hg : w.outline.Grows xs v.outline) {y : Call}
    (h : w.outline.calls[i]? = some y) : v.outline.calls[i]? = some y := by
  rw [hg.calls, List.getElem?_append_left (List.getElem?_eq_some_iff.1 h).1]
  exact h

/-- One step keeps it, as it is one move at most. -/
theorem Posted.step (hw : w.Wired) (hs : w.ledger.Sound) (h : w.Posted) {l : Label}
    (ht : w.Truthful l) (hstep : w.step? l = some v) : v.Posted := by
  have hp := posts_step hw hs h.upright ht hstep
  have hgrows := (onward_step hw hstep).grows
  refine ⟨hp.upright, Post.Sound.mono ?_ fun _ _ => address_mono hgrows⟩
  rcases hp.post with he | hm
  · rw [he]
    exact h.sound
  · exact h.sound.move (fun _ _ _ => address_inj hs) hm

/-- So it holds in every state that a client whose broker is truthful comes to. -/
theorem posted_of_run {ls : List Label} (h : Run {} ls w) (ht : Along Truthful {} ls) :
    w.Posted := by
  -- A step keeps it only where the calls fit and the ledger is sound, so these are carried along.
  have hall : w.Wired ∧ w.ledger.Sound ∧ w.Posted := by
    refine h.invariant_along (I := fun v => v.Wired ∧ v.ledger.Sound ∧ v.Posted) ht
      ⟨wired_empty, Ledger.sound_empty, posted_empty⟩ ?_
    rintro v l u ⟨hw, hs, hp⟩ hl hstep
    exact ⟨(onward_step hw hstep).wired, hs.moves (moves_step hw hs hstep), hp.step hw hs hl hstep⟩
  exact hall.2.2

end System

end BrokerClient
