import QuoteFeed.Proofs.Changes
import QuoteFeed.Proofs.Runs

/-!
Disciplines: laws of a client that consumers can rely on whenever they are heard, together with what
holds between any two times at which they are. A discipline lists what each change that the client
makes owes to the law; that every run keeps it follows once for all.
-/

namespace QuoteFeed

variable {τ : Type} {net : Network τ}

namespace Deed

/-- Deeds that go with no change of the client. The delay of a reconnect is measured when one is planned. -/
def IsPlain : Deed → Prop
  | connects => True
  | measures name _ => name ≠ octets "reconnect_delay_ms"
  | publishes e => e.kind ≠ .connected
  | hears _ | disconnects | asks | dials _ | replays _ | sends .. | closes _ => False

end Deed

/-- From `w` the client gets ready for an attempt in `v`. -/
inductive Ready (w : World τ) : World τ → Prop
  | asked {u : World τ} : w = u.noted .connects → w.client.phase = .idle ∨ w.client.phase = .disconnected →
      Ready w { w with client.backoff := w.client.backoff.reset }
  | hurried {u : World τ} : w = u.noted .connects → w.client.phase = .reconnectScheduled → Ready w w.cancelled
  | due {u : World τ} {v : Wait} : Lapses w v u → v.timer = .reconnect → v.number = w.client.waitNumber →
      w.client.phase = .reconnectScheduled → Ready w u

/-- A wait that the client acts on when it ends. -/
def Heeded (w : World τ) (v : Wait) : Prop :=
  (v.timer = .heartbeat ∧ w.client.heartbeat.expects v = true) ∨
    (v.timer = .reconnect ∧ v.number = w.client.waitNumber ∧ w.client.phase = .reconnectScheduled)

/-- What holds whenever consumers are heard, what one such time leads to at a later one, what holds
during a replay, and why. -/
structure Discipline (c : Conduct net) (may : Use → Prop) where
  holds : World τ → Prop
  leads : World τ → World τ → Prop
  /-- A replay that began in the first world has come to the second one, with some frames to go. -/
  replaying : World τ → List Octets → World τ → Prop
  refl : ∀ w, leads w w
  trans : ∀ {u v w}, leads u v → leads v w → leads u w
  fit : ∀ {w}, holds w → c.fit w.outside
  stir : ∀ {w t}, holds w → c.Alike w.outside t → holds { w with outside := t } ∧ leads w { w with outside := t }
  pass : ∀ {w} now, holds w → holds { w with clock.now := now } ∧ leads w { w with clock.now := now }
  plain : ∀ {w d}, holds w → d.IsPlain → holds (w.noted d) ∧ leads w (w.noted d)
  hear : ∀ {w} r, r ≠ .closed → (r = .opened → w.client.phase ≠ .connecting) → holds w → c.Current w →
    holds (w.noted (.hears r)) ∧ leads w (w.noted (.hears r))
  quote : ∀ {w} q, holds w → c.Current w → holds (w.quoted q) ∧ leads w (w.quoted q)
  refresh : ∀ {w}, holds w → holds (w.paced Heartbeat.refresh) ∧ leads w (w.paced Heartbeat.refresh)
  subscribe : ∀ {w id}, holds w → may (.subscribe id) → id ∉ w.client.watchlist.ids →
    (w.client.phase = .connected → ∃ e, Watchlist.subscribeFrame id = .error e) →
    holds (w.watching fun l => (l.add id).2) ∧ leads w (w.watching fun l => (l.add id).2)
  subscribeSent : ∀ {w id frame}, holds w → may (.subscribe id) → id ∉ w.client.watchlist.ids →
    w.client.phase = .connected → Watchlist.subscribeFrame id = .ok frame →
    holds ((w.watching fun l => (l.add id).2).sent net frame) ∧
      leads w ((w.watching fun l => (l.add id).2).sent net frame)
  unsubscribe : ∀ {w name}, holds w → may (.unsubscribe name) →
    name.read w.client.watchlist ∈ w.client.watchlist.ids →
    (w.client.phase = .connected →
      ∃ e, Watchlist.unsubscribeFrame (name.read (w.client.watchlist.withdraw name).2) = .error e) →
    holds (w.watching fun l => (l.withdraw name).2) ∧ leads w (w.watching fun l => (l.withdraw name).2)
  unsubscribeSent : ∀ {w name frame}, holds w → may (.unsubscribe name) →
    name.read w.client.watchlist ∈ w.client.watchlist.ids → w.client.phase = .connected →
    Watchlist.unsubscribeFrame (name.read (w.client.watchlist.withdraw name).2) = .ok frame →
    holds ((w.watching fun l => (l.withdraw name).2).sent net frame) ∧
      leads w ((w.watching fun l => (l.withdraw name).2).sent net frame)
  lapse : ∀ {w u v}, holds w → Lapses w v u → ¬Heeded w v → holds u ∧ leads w u
  ping : ∀ {w u v frame}, holds w → Lapses w v u → v.timer = .heartbeat → w.client.heartbeat.expects v = true →
    Message.ping = .ok frame → holds ((u.paced Heartbeat.beat).sent net frame) ∧
      leads w ((u.paced Heartbeat.beat).sent net frame)
  disconnect : ∀ {w}, holds w → holds (w.disconnected net) ∧ leads w (w.disconnected net)
  close : ∀ {w}, holds w → c.Current w →
    holds ((w.noted (.hears .closed)).closed net) ∧ leads w ((w.noted (.hears .closed)).closed net)
  plan : ∀ {w}, holds w → w.client.phase = .disconnected → w.client.exhausted = false →
    holds (w.planned net) ∧ leads w (w.planned net)
  openUnwritten : ∀ {w e}, holds w → c.Current w → w.client.phase = .connecting →
    w.client.watchlist.replayFrames = .error e →
    holds (w.noted (.hears .opened)).opened ∧ leads w (w.noted (.hears .opened)).opened
  openStart : ∀ {w frames}, holds w → c.Current w → w.client.phase = .connecting →
    w.client.watchlist.replayFrames = .ok frames → replaying w frames (w.noted (.hears .opened)).opened
  openFit : ∀ {w frames v}, replaying w frames v → c.fit v.outside
  openSent : ∀ {w frame frames v}, replaying w (frame :: frames) v →
    (∀ link, v.client.link = some link → (net.send link frame v.outside).1 = none) →
    replaying w frames ((v.noted (.replays frame)).sent net frame)
  openTold : ∀ {w frame frames v link e}, replaying w (frame :: frames) v → v.client.link = some link →
    (net.send link frame v.outside).1 = some e →
    ∀ d, d.IsPlain → holds (((v.noted (.replays frame)).sent net frame).noted d) ∧
      ∀ u, holds u → leads (((v.noted (.replays frame)).sent net frame).noted d) u → replaying w frames u
  openEnd : ∀ {w v}, replaying w [] v →
    holds (v.started.noted (.publishes (.connected v.client.endpoint.url))) ∧
      leads w (v.started.noted (.publishes (.connected v.client.endpoint.url)))
  dial : ∀ {w v}, holds w → Ready w v → holds (v.dialed net)
  settle : ∀ {w v u}, holds w → Ready w v → holds u → leads (v.dialed net) u →
    (∃ link, (net.create v.outside).1 = .ok (some link)) ∨
      u.client.attempt ≠ v.client.attempt + 1 ∨ u.client.phase ≠ .connecting → leads w u
  abandon : ∀ {w v u}, holds w → Ready w v → holds u → leads (v.dialed net) u →
    u.client.attempt = v.client.attempt + 1 → u.client.phase = .connecting →
    holds (u.abandoned net) ∧ leads w (u.abandoned net)

end QuoteFeed
