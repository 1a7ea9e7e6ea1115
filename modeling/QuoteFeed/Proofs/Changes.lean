import QuoteFeed.Proofs.Waits
import QuoteFeed.Connection

/-!
What the client does between one publication and the next, as changes of the world. Consumers are
heard in between only, so that these are the steps in which its laws have to be kept.
-/

namespace QuoteFeed

namespace World

variable {τ : Type} (net : Network τ) (w : World τ)

def noted (d : Deed) : World τ := { w with history := ⟨w.client, w.clock, d⟩ :: w.history }

/-- A deed is done that leaves the world outside as `t`. -/
def affected (d : Deed) (t : τ) : World τ := { w.noted d with outside := t }

def measured (name : Octets) (value : Binary64) : World τ :=
  w.affected (.measures name value) (net.sample name value w.outside).2.2

def paced (f : Heartbeat → Clock → Heartbeat × Clock) : World τ :=
  let (heartbeat, clock) := f w.client.heartbeat w.clock
  { w with client.heartbeat := heartbeat, clock }

/-- The current link is given up, without having it closed. -/
def dropped : World τ :=
  match w.client.link with
  | none => w
  | some link =>
    { w with
      client := { w.client with link := none, attempt := w.client.attempt + 1 }
      outside := net.detach link w.outside }

def retired : World τ :=
  match w.client.link with
  | none => w
  | some link => (w.dropped net).affected (.closes link) (net.close link (w.dropped net).outside).2.2

def sent (frame : Octets) : World τ :=
  match w.client.link with
  | none => w
  | some link => w.affected (.sends link frame) (net.send link frame w.outside).2.2

def cancelled : World τ :=
  { w with client.waitNumber := w.client.waitNumber + 1, clock := w.clock.cancel .reconnect }

def halted : World τ := (w.cancelled.paced Heartbeat.stop).retired net

def disconnected : World τ :=
  let v := w.halted net
  { v with
    client := { v.client with
      watchlist := .empty, board := v.client.board.clear, backoff := v.client.backoff.reset, phase := .idle } }.noted
    .disconnects

def closed : World τ :=
  let v := (w.paced Heartbeat.stop).dropped net
  { v with client.phase := .disconnected }

/-- An attempt has failed. -/
def abandoned : World τ :=
  let v := w.retired net
  { v with client.phase := .disconnected }

def planned : World τ :=
  let delay := w.client.backoff.peek
  let v := { w with client.backoff := w.client.backoff.advance, client.lastDelay := some delay }.measured net
    (octets "reconnect_delay_ms") (.ofInt delay)
  { v with
    client := { v.client with phase := .reconnectScheduled, waitNumber := v.client.waitNumber + 1 }
    clock := v.clock.arm .reconnect (v.client.waitNumber + 1) delay }

def opened : World τ :=
  { w with client := { w.client with backoff := w.client.backoff.reset, lastDelay := none, phase := .connected } }

def started : World τ := w.paced (Heartbeat.start w.client.settings.heartbeatInterval)

/-- An attempt begins: a link is asked for. -/
def asked : World τ :=
  let v := { w with client := { w.client with phase := .connecting, attempt := w.client.attempt + 1 } }
  v.affected .asks (net.create w.outside).2.2

/-- A link that has been made becomes the current one and is started. -/
def linked (link : Nat) : World τ :=
  let v := { w with client.link := some link, outside := net.attach link w.client.attempt w.outside }
  v.affected (.dials link) (net.dial link w.client.endpoint v.outside).2.2

/-- An attempt begins, and starts a link if one can be made. -/
def dialed : World τ :=
  match (net.create w.outside).1 with
  | .ok (some link) => (w.asked net).linked net link
  | .ok none | .error _ => w.asked net

def quoted (q : Quote) : World τ := { w with client.board := (w.client.board.update q).2 }

def watching (f : Watchlist → Watchlist) : World τ := { w with client.watchlist := f w.client.watchlist }

variable {net : Network τ} {w : World τ}

@[simp] theorem dropped_clock : (w.dropped net).clock = w.clock := by
  unfold dropped
  split <;> rfl

@[simp] theorem dropped_link : (w.dropped net).client.link = none := by
  unfold dropped
  split
  next h => exact h
  next => rfl

@[simp] theorem dropped_heartbeat : (w.dropped net).client.heartbeat = w.client.heartbeat := by
  unfold dropped
  split <;> rfl

@[simp] theorem dropped_watchlist : (w.dropped net).client.watchlist = w.client.watchlist := by
  unfold dropped
  split <;> rfl

@[simp] theorem dropped_history : (w.dropped net).history = w.history := by
  unfold dropped
  split <;> rfl

@[simp] theorem retired_clock : (w.retired net).clock = w.clock := by
  unfold retired
  split
  next => rfl
  next => exact dropped_clock

@[simp] theorem retired_link : (w.retired net).client.link = none := by
  unfold retired
  split
  next h => exact h
  next => exact dropped_link

@[simp] theorem retired_heartbeat : (w.retired net).client.heartbeat = w.client.heartbeat := by
  unfold retired
  split
  next => rfl
  next => exact dropped_heartbeat

@[simp] theorem retired_watchlist : (w.retired net).client.watchlist = w.client.watchlist := by
  unfold retired
  split
  next => rfl
  next => exact dropped_watchlist

@[simp] theorem closed_watchlist : (w.closed net).client.watchlist = w.client.watchlist := dropped_watchlist

@[simp] theorem abandoned_watchlist : (w.abandoned net).client.watchlist = w.client.watchlist := retired_watchlist

@[simp] theorem abandoned_heartbeat : (w.abandoned net).client.heartbeat = w.client.heartbeat := retired_heartbeat

@[simp] theorem closed_running : (w.closed net).client.heartbeat.running = false :=
  (congrArg Heartbeat.running dropped_heartbeat).trans Heartbeat.stop_running

@[simp] theorem disconnected_running : (w.disconnected net).client.heartbeat.running = false :=
  (congrArg Heartbeat.running retired_heartbeat).trans Heartbeat.stop_running

theorem dialed_of_link {link : Nat} (h : (net.create w.outside).1 = .ok (some link)) :
    w.dialed net = (w.asked net).linked net link := by
  unfold dialed
  rw [h]

theorem dialed_of_no_link (h : ¬∃ link, (net.create w.outside).1 = .ok (some link)) : w.dialed net = w.asked net := by
  unfold dialed
  split
  next link hl => exact absurd ⟨link, hl⟩ h
  all_goals rfl

@[simp] theorem dialed_phase : (w.dialed net).client.phase = .connecting := by
  unfold dialed
  split <;> rfl

@[simp] theorem sent_client {frame : Octets} : (w.sent net frame).client = w.client := by
  unfold sent
  split <;> rfl

@[simp] theorem sent_clock {frame : Octets} : (w.sent net frame).clock = w.clock := by
  unfold sent
  split <;> rfl

end World

end QuoteFeed
