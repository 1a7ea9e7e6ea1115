import QuoteFeed.Heartbeat

/-!
The waits that are armed under one name.
-/

namespace QuoteFeed

namespace Clock

variable {c : Clock} {timer other : Timer} {number : Nat} {delay : Int}

/-- The waits that are armed under a name, in the order of arming. -/
def waitsFor (c : Clock) (timer : Timer) : List Wait := c.waits.filter fun w => w.timer = timer

@[simp] theorem waitsFor_cancel_self : (c.cancel timer).waitsFor timer = [] := by
  unfold waitsFor cancel
  apply List.filter_eq_nil_iff.mpr
  intro w hw
  have hn := (List.mem_filter.mp hw).2
  simpa using hn

theorem waitsFor_cancel_of_ne (h : other ≠ timer) : (c.cancel timer).waitsFor other = c.waitsFor other := by
  unfold waitsFor cancel
  rw [List.filter_filter]
  apply List.filter_congr
  intro w _
  by_cases hw : w.timer = other
  · simp [hw, h]
  · simp [hw]

theorem waitsFor_arm_self :
    (c.arm timer number delay).waitsFor timer = [{ timer, number, due := c.now + lasting delay }] := by
  have h : (c.cancel timer).waits.filter (fun w => w.timer = timer) = [] := waitsFor_cancel_self
  unfold waitsFor arm
  rw [List.filter_append, h]
  simp

theorem waitsFor_arm_of_ne (h : other ≠ timer) : (c.arm timer number delay).waitsFor other = c.waitsFor other := by
  have hc : (c.cancel timer).waits.filter (fun w => w.timer = other) = c.waitsFor other := waitsFor_cancel_of_ne h
  unfold waitsFor arm
  rw [List.filter_append, hc]
  simp [waitsFor, Ne.symm h]

theorem waitsFor_expire_self {w : Wait} : (c.expire w).waitsFor w.timer = [] :=
  waitsFor_cancel_self (c := c)

theorem waitsFor_expire_of_ne {w : Wait} (h : other ≠ w.timer) : (c.expire w).waitsFor other = c.waitsFor other :=
  waitsFor_cancel_of_ne h

end Clock

namespace Heartbeat

/-- A change of the heartbeat and the clock that leaves the waits for a reconnect alone. -/
def Steady (f : Heartbeat → Clock → Heartbeat × Clock) : Prop :=
  ∀ h c, (f h c).2.waitsFor .reconnect = c.waitsFor .reconnect

theorem steady_arm : Steady arm := by
  intro h c
  exact Clock.waitsFor_arm_of_ne nofun

theorem steady_start (interval : Int) : Steady (start interval) := by
  intro h c
  exact steady_arm _ c

theorem steady_refresh : Steady refresh := by
  intro h c
  unfold refresh
  split
  · exact steady_arm h c
  · rfl

theorem steady_stop : Steady stop := by
  intro h c
  unfold stop
  split
  · exact Clock.waitsFor_cancel_of_ne nofun
  · rfl

theorem stop_running {h : Heartbeat} {c : Clock} : (stop h c).1.running = false := by
  unfold stop
  split
  next => rfl
  next hr => simpa using hr

theorem refresh_running {h : Heartbeat} {c : Clock} : (refresh h c).1.running = h.running := by
  unfold refresh
  split <;> rfl

theorem steady_beat : Steady beat := by
  intro h c
  exact steady_arm _ c

/-- The wait for the next ping is armed exactly while the heartbeat runs, once and under the number
that it listens to. -/
def Ticks (h : Heartbeat) (c : Clock) : Prop :=
  (c.waitsFor .heartbeat).map Wait.number = if h.running = true then [h.generation] else []

variable {h : Heartbeat} {c : Clock}

theorem ticks_arm (hr : h.running = true) : (h.arm c).1.Ticks (h.arm c).2 := by
  unfold Ticks arm
  rw [Clock.waitsFor_arm_self, if_pos hr]
  rfl

theorem ticks_start (interval : Int) : (h.start interval c).1.Ticks (h.start interval c).2 := ticks_arm rfl

theorem ticks_beat (hr : h.running = true) : (h.beat c).1.Ticks (h.beat c).2 := ticks_arm hr

theorem Ticks.refresh (ht : h.Ticks c) : (h.refresh c).1.Ticks (h.refresh c).2 := by
  unfold Heartbeat.refresh
  split
  next hr => exact ticks_arm hr
  next => exact ht

theorem Ticks.stop (ht : h.Ticks c) : (h.stop c).1.Ticks (h.stop c).2 := by
  unfold Heartbeat.stop
  split
  next =>
    unfold Ticks
    rw [Clock.waitsFor_cancel_self]
    rfl
  next => exact ht

theorem Ticks.of_waits {d : Clock} (ht : h.Ticks c) (hw : d.waitsFor .heartbeat = c.waitsFor .heartbeat) :
    h.Ticks d := by
  unfold Ticks
  rw [hw]
  exact ht

theorem Ticks.waits_nil (ht : h.Ticks c) (hr : h.running = false) : c.waitsFor .heartbeat = [] := by
  unfold Ticks at ht
  rw [if_neg (by simp [hr])] at ht
  exact List.map_eq_nil_iff.mp ht

/-- The end of the wait that is armed for a ping is the time of a ping. -/
theorem Ticks.expects_of_mem (ht : h.Ticks c) {w : Wait} (hm : w ∈ c.waits) (hw : w.timer = .heartbeat) :
    h.expects w = true := by
  have hmem : w.number ∈ (c.waitsFor .heartbeat).map Wait.number :=
    List.mem_map_of_mem (List.mem_filter.mpr ⟨hm, by simp [hw]⟩)
  rw [ht] at hmem
  split at hmem
  next hr => simpa [expects, hr] using hmem
  next => simp at hmem

end Heartbeat

end QuoteFeed
