import Switchboard.Proofs.Exchange.Steps
/-!
Calls that are registered and that nobody has begun to end.
-/
namespace Switchboard

/-- The call that a listener listens to, as the table has it. -/
def Listener.call (l : Listener) : PendingCall := ⟨l.queue, l.control⟩

/-- The call of a listener is registered, and nobody has begun to end it: it is unclaimed, neither of
its signals has been fired, and its queue is open at both ends. -/
structure Exchange.Live (x : Exchange) (l : Listener) : Prop where
  entry : (x.table l.table).find? l.id = some l.call
  unclaimed : (x.control l.control).claim = .free
  shutdown : (x.control l.control).shutdown = l.shutdown
  uncancelled : x.fired (x.control l.control).cancel = false
  running : x.fired l.shutdown = false
  accepting : (x.queue l.queue).accepting = true
  reading : (x.queue l.queue).reading = .opened
  unread : l.done = false

namespace Queue

variable {q : Queue}

@[simp] theorem isClosed_close : q.close.isClosed = true := rfl

@[simp] theorem accepting_close : q.close.accepting = false := rfl

@[simp] theorem reading_close : q.close.reading = q.reading := rfl

@[simp] theorem fragments_close : q.close.fragments = q.fragments := rfl

@[simp] theorem isClosed_closeReading : q.closeReading.isClosed = true := by
  unfold closeReading isClosed
  split <;> simp_all

@[simp] theorem accepting_closeReading : q.closeReading.accepting = q.accepting := by
  unfold closeReading
  split <;> rfl

@[simp] theorem fragments_closeReading : q.closeReading.fragments = q.fragments := by
  unfold closeReading
  split <;> rfl

@[simp] theorem reading_closeReading_eq_dropped :
    q.closeReading.reading = .dropped ↔ q.reading = .dropped := by
  unfold closeReading
  split <;> simp_all

@[simp] theorem isClosed_dropReading : q.dropReading.isClosed = true := by simp [dropReading, isClosed]

@[simp] theorem accepting_dropReading : q.dropReading.accepting = q.accepting := rfl

@[simp] theorem reading_dropReading : q.dropReading.reading = .dropped := rfl

@[simp] theorem accepting_push {f : Fragment} : (q.push f).2.accepting = q.accepting := by
  unfold push
  split <;> rfl

@[simp] theorem reading_push {f : Fragment} : (q.push f).2.reading = q.reading := by
  unfold push
  split <;> rfl

@[simp] theorem isClosed_push {f : Fragment} : (q.push f).2.isClosed = q.isClosed := by
  simp [isClosed]

theorem fragments_push {f : Fragment} :
    (q.push f).2.fragments = if q.isClosed then q.fragments else q.fragments ++ [f] := by
  unfold push
  split <;> rfl

@[simp] theorem accepting_take : q.take.2.accepting = q.accepting := by
  unfold take
  split
  · rfl
  · split <;> rfl

@[simp] theorem reading_take : q.take.2.reading = q.reading := by
  unfold take
  split
  · rfl
  · split <;> rfl

@[simp] theorem isClosed_take : q.take.2.isClosed = q.isClosed := by simp [isClosed]

end Queue

end Switchboard
