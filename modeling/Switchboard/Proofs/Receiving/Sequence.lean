import Switchboard.Proofs.Receiving.Waiting
/-!
One who reads the answer of a call item by item, in one of several manners: what such a reader does, and what sequence
the fragments of the answer stand for.
-/
namespace Switchboard.Receiving

open Exchange Process

variable {α : Type}

/-- Asks for the next item of a subscription with so many looks at most. The asking may be given up before there is an
item; what has been passed over by then is not asked for again. -/
def nextWithin : Nat → Subscription →
    Process Exchange (Option (Subscription × Option (Except ClientError Bytes)))
  | 0, _ => return none
  | looks + 1, s => do
    match ← s.look with
    | .pending | .again _ => nextWithin looks s
    | .item s item _ => return some (s, item)

/-- A manner to pass items on: what each of them is turned into, whether the sequence is closed after a failure, and
whether the end of the sequence is the end of the reader, too. Failures stay failures, and only one who closes the
sequence then makes failures of items that are none. -/
structure Manner (α : Type) where
  turn : Except ClientError Bytes → Except ClientError α
  closes : Bool
  stops : Bool
  turn_error : ∀ e, turn (.error e) = .error e
  turn_ok : closes = false → ∀ payload, ∃ a, turn (.ok payload) = .ok a

namespace Manner

/-- The payloads as they are. -/
def plain : Manner Bytes where
  turn := id
  closes := false
  stops := false
  turn_error _ := rfl
  turn_ok _ payload := ⟨payload, rfl⟩

/-- An item decoded. -/
def turnBy (decode : Bytes → Except Fault α) : Except ClientError Bytes → Except ClientError α
  | .error e => .error e
  | .ok payload => (decode payload).mapError .decode

/-- The payloads decoded. -/
def decoded (decode : Bytes → Except Fault α) : Manner α where
  turn := turnBy decode
  closes := true
  stops := false
  turn_error _ := rfl
  turn_ok h := Bool.noConfusion h

/-- The payloads decoded, as a stream that is let go at its end. -/
def streamed (decode : Bytes → Except Fault α) : Manner α := { decoded decode with stops := true }

/-- Passes an item on. -/
def pass (m : Manner α) (s : Subscription) :
    Option (Except ClientError Bytes) → Process Exchange (Subscription × Option (Except ClientError α))
  | none => return (s, none)
  | some item =>
    match m.turn item with
    | .ok a => return (s, some (.ok a))
    | .error e => do
      if m.closes then return (← s.close, some (.error e)) else return (s, some (.error e))

/-- Asks for the next item with so many looks at most, and passes it on. -/
def next (m : Manner α) (looks : Nat) (s : Subscription) :
    Process Exchange (Option (Subscription × Option (Except ClientError α))) := do
  match ← nextWithin looks s with
  | none => return none
  | some (s, item) => return some (← m.pass s item)

end Manner

/-- What one wants to do with a sequence: to ask for the next item with so many looks at most, or to close it. -/
inductive Wish where
  | next (looks : Nat)
  | close

/-- What one comes to: the next item, where no item is the end, or that the sequence is closed. -/
inductive Got (α : Type) where
  | next (item : Option (Except ClientError α))
  | closed

/-- Reads a sequence as one wishes, after what one has got so far. -/
def consume (m : Manner α) : List Wish → List (Got α) → Subscription → Process Exchange (List (Got α) × Subscription)
  | [], got, s => return (got, s)
  | .close :: later, got, s => do consume m later (got ++ [.closed]) (← s.close)
  | .next looks :: later, got, s => do
    match ← m.next looks s with
    | none => consume m later got s
    | some (s, some item) => consume m later (got ++ [.next (some item)]) s
    | some (s, none) =>
      if m.stops then
        s.listener.release
        return (got ++ [.next none], s)
      else consume m later (got ++ [.next none]) s

section Running

variable {s : Subscription} {x : Exchange}

/-- Looks that show nothing more are as good as none. -/
theorem run_nextWithin_of_pending (hlook : s.look.run x = (.pending, x)) (n : Nat) :
    (nextWithin n s).run x = (none, x) := by
  induction n with
  | zero => rfl
  | succ n ih =>
    rw [nextWithin, run_bind, hlook]
    exact ih

/-- With nobody between its looks, asking for the next item is to read on to it. -/
theorem run_nextWithin (n : Nat) (s : Subscription) (x : Exchange) :
    (nextWithin n s).run x = ((s.readAtMost n x).1.2, (s.readAtMost n x).2) := by
  induction n generalizing x with
  | zero => rfl
  | succ n ih =>
    have hshows := Subscription.look_shows s x
    rw [nextWithin, run_bind]
    simp only [Subscription.readAtMost, stateM_bind]
    cases hlook : s.look.run x with
    | mk look y =>
      rw [hlook] at hshows
      cases look with
      | pending =>
        obtain rfl := hshows.pending_eq
        exact run_nextWithin_of_pending hlook n
      | again f => exact ih y
      | item s' item read => rfl

theorem run_next_plain (n : Nat) (s : Subscription) (x : Exchange) :
    (Manner.plain.next n s).run x = ((s.readAtMost n x).1.2, (s.readAtMost n x).2) := by
  rw [Manner.next, run_bind, run_nextWithin]
  cases (s.readAtMost n x).1.2 with
  | none => rfl
  | some r =>
    obtain ⟨s', item⟩ := r
    cases item with
    | none => rfl
    | some a => cases a <;> rfl

theorem run_next_decoded (decode : Bytes → Except Fault α) (n : Nat) (s : Subscription) (x : Exchange) :
    ((Manner.decoded decode).next n s).run x =
      Subscription.decoded decode (s.readAtMost n x).1.2 (s.readAtMost n x).2 := by
  rw [Manner.next, run_bind, run_nextWithin]
  cases (s.readAtMost n x).1.2 with
  | none => rfl
  | some r =>
    obtain ⟨s', item⟩ := r
    cases item with
    | none => rfl
    | some a =>
      cases a with
      | error e => simp [Manner.pass, Manner.decoded, Manner.turnBy, Subscription.decoded]
      | ok payload =>
        simp only [Manner.pass, Manner.decoded, Manner.turnBy, Subscription.decoded]
        cases decode payload <;> simp [Except.mapError]

end Running

/-- The items of fragments: the payloads that are not empty of those before the first error, and then this error. -/
def items (fs : List Fragment) : List (Except ClientError Bytes) :=
  ((fs.takeWhile (·.status ≠ .error)).filter (!·.payload.isEmpty)).map (.ok ·.payload) ++
    (firstOf .error fs).toList.map fun payload => .error (.foreign (EngineError.ofPayload payload))

/-- A sequence up to its first failure. -/
def untilFailure {ε : Type} : List (Except ε α) → List (Except ε α)
  | [] => []
  | .ok a :: rest => .ok a :: untilFailure rest
  | .error e :: _ => [.error e]

namespace Manner

/-- The sequence that fragments stand for. -/
def sequence (m : Manner α) (fs : List Fragment) : List (Except ClientError α) :=
  untilFailure ((items fs).map m.turn)

variable {m : Manner α} {f : Fragment} {fs more passed : List Fragment}

/-- Read as they are, the items are the sequence. -/
theorem sequence_plain (fs : List Fragment) : plain.sequence fs = items fs := by
  have hok (payloads : List Fragment) (last : List (Except ClientError Bytes)) :
      untilFailure (payloads.map (fun f => Except.ok f.payload) ++ last) =
        payloads.map (fun f => Except.ok f.payload) ++ untilFailure last := by
    induction payloads with
    | nil => rfl
    | cons f rest ih => exact congrArg (Except.ok f.payload :: ·) ih
  rw [sequence, plain, List.map_id, items, hok]
  cases firstOf .error fs <;> rfl

theorem sequence_cons_error (hstatus : f.status = .error) :
    m.sequence (f :: more) = [.error (.foreign (EngineError.ofPayload f.payload))] := by
  simp [sequence, items, firstOf, hstatus, m.turn_error, untilFailure]

theorem sequence_cons_empty (hstatus : f.status ≠ .error) (hempty : f.payload.isEmpty = true) :
    m.sequence (f :: more) = m.sequence more := by
  simp [sequence, items, firstOf, hstatus, hempty]

theorem sequence_cons_payload (hstatus : f.status ≠ .error) (hpayload : f.payload.isEmpty = false) :
    m.sequence (f :: more) = untilFailure (m.turn (.ok f.payload) :: (items more).map m.turn) := by
  simp [sequence, items, firstOf, hstatus, hpayload]

end Manner

end Switchboard.Receiving
