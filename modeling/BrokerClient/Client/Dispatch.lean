import BrokerClient.Client.Call

/-!
# Handing confirms to listeners

A session's dispatcher takes the reports of its channel one by one. A report settles the messages
that it covers, and the listener that is installed at that moment is called for each of them, also
if it takes itself away meanwhile. If nobody listens the outcomes are dropped with a line in the
log, and a report that covers nothing leaves no more than that either.

A dispatcher that was told to stop takes nothing more: at its next turn it gives up the stream of
its channel and has ended. Reports that come in between are still put on the stream.
-/

namespace BrokerClient.System

/-- What a listener does to its session when it is called. It cannot reach a session that the
program has dropped, and changes none that is closed. -/
def react (w : System) (s : SessionId) (l : Listener) : System :=
  if (w.session s).held && !(w.session s).closed then
    match l.reaction with
    | .stay => w
    | .remove => w.modifySession s fun x => { x with listener := none }
    | .replace =>
      w.modifySession s fun x => { x with listener := some { label := l.label ++ "+" } }
  else w

/-- Calls a listener with one outcome. -/
def confirm (s : SessionId) (l : Listener) (w : System) (x : Confirmation) : System :=
  let left := if (w.session s).held then some (w.session s).pending.size else none
  (w.tell (.confirmed s l.label x left)).react s l

/-- Handles one report. -/
def handleReport (w : System) (s : SessionId) (e : ConfirmEvent) : System :=
  let x := w.session s
  let settled := x.pending.settled e
  if settled.isEmpty then w.log (.untrackedConfirm x.number e.tag)
  else
    let w := w.modifySession s fun x => { x with pending := x.pending.settle e }
    -- The whole batch goes to the listener that is installed now.
    match x.listener with
    | none => w.log (.unheardConfirms x.number settled.length)
    | some l => settled.foldl (confirm s l) w

/-- The channel of a session. -/
def channelOf (w : System) (s : SessionId) : Channel :=
  let x := w.session s
  (w.connection x.connection).broker.channelOrNew x.channel

/-- Changes the channel of a session. -/
def modifyChannelOf (w : System) (s : SessionId) (f : Channel → Channel) : System :=
  let x := w.session s
  w.modifyConnection x.connection fun c => { c with broker := c.broker.modifyChannel x.channel f }

/-- Runs a dispatcher on, if there is anything to do: it takes one report, or stops. -/
def dispatch? (w : System) (s : SessionId) : Option System :=
  match (w.session s).dispatcher with
  | .ended => none
  | .stopping =>
    some ((w.modifyChannelOf s Channel.abandonStream).modifySession s
      fun x => { x with dispatcher := .ended })
  | .running =>
    match (w.channelOf s).take with
    | (none, _) => none
    | (some e, c) => some ((w.modifyChannelOf s fun _ => c).handleReport s e)

end BrokerClient.System
