import Switchboard.Client.NetSubscription
import Switchboard.Proofs.Receiving.Yielding
/-!
A subscription to the network from its opening to its end, while fragments are delivered to it, its deliveries are
stopped and its client is destroyed: what each party does, and what the fragments say about the opening.
-/
namespace Switchboard

namespace NetSubscription

open Process Receiving

/-- Waits for the handle with so many looks at most. The waiting may be given up before there is one; then, and if the
subscription does not open, it is let go. -/
def openedWithin (looks : Nat) (s : Subscription) :
    Process Exchange (Option (Except ClientError NetSubscription)) := do
  match ← nextWithin looks s with
  | none =>
    s.listener.release
    return none
  | some (s, first) =>
    match handleOf first with
    | .ok handle => return some (.ok ⟨handle, s⟩)
    | .error e =>
      s.listener.release
      return some (.error e)

/-- With nobody between the looks, waiting with enough of them is to open the subscription. -/
theorem run_openedWithin (s : Subscription) (x : Exchange) :
    (openedWithin ((x.queue s.listener.queue).fragments.length + 1) s).run x =
      match opened s x with
      | (none, y) => (none, (s.listener.release.run y).2)
      | (some outcome, y) => (some outcome, y) := by
  have hopened : opened s x =
      match s.readAtMost ((x.queue s.listener.queue).fragments.length + 1) x with
      | ((_, none), y) => (none, y)
      | ((_, some (s', first)), y) =>
        match handleOf first with
        | .ok handle => (some (.ok ⟨handle, s'⟩), y)
        | .error e => (some (.error e), (s'.listener.release.run y).2) := by
    simp only [opened, Subscription.next, Subscription.read, stateM_bind, stateM_pure]
    generalize s.readAtMost _ x = r
    obtain ⟨⟨fs, next⟩, y⟩ := r
    cases next with
    | none => rfl
    | some r =>
      obtain ⟨s', first⟩ := r
      dsimp only
      cases handleOf first <;> rfl
  rw [hopened, openedWithin, run_bind, run_nextWithin]
  generalize s.readAtMost _ x = r
  obtain ⟨⟨fs, next⟩, y⟩ := r
  cases next with
  | none => simp
  | some r =>
    obtain ⟨s', first⟩ := r
    dsimp only
    cases handleOf first <;> simp

end NetSubscription

namespace Feed

open Exchange Process World Receiving

/-- Someone else who has to do with a subscription: the engine that delivers a fragment, or one who stops the
deliveries or destroys the client. -/
inductive Party where
  | deliver (f : Fragment)
  | unsubscribe
  | destroy

/-- What one comes to who opens a subscription: he has given the opening up, it has failed, or he has the subscription
and what he has got of it, and has perhaps ended it with an answer of the engine, unless he does not wait for that. -/
inductive Use where
  | givenUp
  | failed (e : ClientError)
  | kept (n : NetSubscription) (got : List (Got Value))
  | ended (n : NetSubscription) (got : List (Got Value)) (answer : Option (Except ClientError Unit))

/-- What has come of the opening, unless it has been given up. -/
def Use.opening? : Use → Option (Except ClientError UInt32)
  | .givenUp => none
  | .failed e => some (.error e)
  | .kept n _ | .ended n _ _ => some (.ok n.handle)

/-- The subscription, and what has been got of it. -/
def Use.kept? : Use → Option (NetSubscription × List (Got Value))
  | .givenUp | .failed _ => none
  | .kept n got | .ended n got _ => some (n, got)

/-- What a party is told in the end. -/
inductive Told where
  | used (u : Use)
  | delivery (f : Fragment) (d : Delivery)
  | unsubscribed (found : Bool)
  | destroyed

/-- What a party does with regard to the call of a listener and its client. -/
def Party.program (c : ClientId) (l : Listener) : Party → Process World Told
  | .deliver f => withinExchange do return .delivery f (← Switchboard.deliver l.table f)
  | .unsubscribe => do return .unsubscribed (← Client.unsubscribe c l.id)
  | .destroy => do
    Client.destroy c
    return .destroyed

/-- How items are read. -/
abbrev manner : Manner Value := .decoded NetSubscription.itemOf

/-- Opens a subscription with so many looks at most, reads its items as one wishes, and perhaps closes it. -/
def reads (looks : Nat) (wishes : List Wish) (closing : Bool) (l : Listener) : Process Exchange Use := do
  match ← NetSubscription.openedWithin looks ⟨l, false⟩ with
  | none => return .givenUp
  | some (.error e) => return .failed e
  | some (.ok n) =>
    let (got, inner) ← consume manner wishes [] n.inner
    if closing then return .kept ⟨n.handle, ← inner.close⟩ got else return .kept ⟨n.handle, inner⟩ got

/-- Asks the engine to end a subscription, and waits for its answer with a look at each of the given times. -/
def asks (c : ClientId) (times : List Nat) (handle : UInt32) : Process World (Option (Except ClientError Unit)) := do
  let call := Api.unsubscribe handle
  match ← atomic (Client.request c call.method (encodeParams call.params)) with
  | .error e => return some (.error e)
  | .ok m => return (← withinExchange (watch times (.start m 0 none))).2.map call.resultOf

/-- A subscription that has been closed to be ended is ended in the engine, too. -/
def finish (c : ClientId) (ending : Option (List Nat)) : Use → Process World Use
  | .kept n got =>
    match ending with
    | none => return .kept n got
    | some times => return .ended n got (← asks c times n.handle)
  | u => return u

/-- Opens a subscription, reads it, and perhaps ends it. -/
def user (c : ClientId) (looks : Nat) (wishes : List Wish) (ending : Option (List Nat)) (l : Listener) :
    Process World Told := do
  let u ← withinExchange (reads looks wishes ending.isSome l)
  return .used (← finish c ending u)

/-- One who uses a subscription, and the others. -/
def company (w : World) (c : ClientId) (looks : Nat) (wishes : List Wish) (ending : Option (List Nat))
    (l : Listener) (parties : List Party) : Company World Told :=
  ⟨w, user c looks wishes ending l :: parties.map (Party.program c l)⟩

section Fragments

/-- What is put into the queue of a call by steps in a given order, the first first. -/
def entered (l : Listener) : List Nat → Company World Told → List Fragment
  | [], _ => []
  | i :: rest, d =>
    appended l.queue d.state.exchange (d.advance i).state.exchange ++ entered l rest (d.advance i)

/-- The fragments that the queue of a call has accepted, from those that are in it on. -/
def accepted (l : Listener) (order : List Nat) (d : Company World Told) : List Fragment :=
  (d.state.exchange.queue l.queue).fragments ++ entered l order d

theorem entered_append (l : Listener) (before after : List Nat) (d : Company World Told) :
    entered l (before ++ after) d = entered l before d ++ entered l after (d.follow before) := by
  induction before generalizing d with
  | nil => rfl
  | cons i rest ih => rw [List.cons_append, entered, entered, ih, List.append_assoc, Company.follow]

/-- A fragment that decides whether a subscription opens: an error, or one that has a payload. -/
def decides (f : Fragment) : Bool := f.status = .error || !f.payload.isEmpty

/-- What the first fragment that decides says about the opening. -/
def openingOf (fs : List Fragment) : Option (Except ClientError UInt32) :=
  (fs.find? decides).map fun f =>
    if f.status = .error then .error (.foreign (EngineError.ofPayload f.payload))
    else NetSubscription.handleOf.handleIn f.payload

/-- The fragments behind the first one that decides. -/
def behindOpening (fs : List Fragment) : List Fragment := (fs.dropWhile fun f => !decides f).tail

variable {f : Fragment} {fs passed more : List Fragment}

theorem decides_of_passes (h : Manner.Passes f) : decides f = false := by
  simp [decides, h.status, h.empty]

theorem openingOf_eq_none_iff : openingOf fs = none ↔ ∀ f ∈ fs, decides f = false := by
  simp [openingOf]

theorem openingOf_of_passed (h : ∀ f ∈ passed, Manner.Passes f) : openingOf passed = none :=
  openingOf_eq_none_iff.2 fun f hf => decides_of_passes (h f hf)

/-- What has been decided stays so. -/
theorem openingOf_append {r : Except ClientError UInt32} (h : openingOf fs = some r) :
    openingOf (fs ++ more) = some r := by
  obtain ⟨f, hf, hr⟩ := Option.map_eq_some_iff.1 h
  rw [openingOf, List.find?_append, hf]
  exact congrArg some hr

/-- The first fragment that is not passed over decides. -/
theorem openingOf_decided (hpassed : ∀ f ∈ passed, Manner.Passes f) (hf : decides f = true) :
    openingOf (passed ++ f :: more) = some (if f.status = .error then .error (.foreign (EngineError.ofPayload f.payload))
      else NetSubscription.handleOf.handleIn f.payload) := by
  have hnone : passed.find? decides = none :=
    List.find?_eq_none.2 fun g hg => by simp [decides_of_passes (hpassed g hg)]
  rw [openingOf, List.find?_append, hnone, Option.none_or, List.find?_cons_of_pos hf]
  rfl

theorem behindOpening_decided (hpassed : ∀ f ∈ passed, Manner.Passes f) (hf : decides f = true) :
    behindOpening (passed ++ f :: more) = more := by
  rw [behindOpening, List.dropWhile_append_of_pos fun g hg => by simp [decides_of_passes (hpassed g hg)],
    List.dropWhile_cons_of_neg (by simp [hf]), List.tail_cons]

/-- What one hears who reads the items of fragments: what they stand for, or a part of it and then that the client has
gone. -/
inductive Heard (lost : Prop) (fs : List Fragment) : List (Except ClientError Value) → Prop where
  | all : Heard lost fs (manner.sequence fs)
  | cut (hlost : lost) {as : List (Except ClientError Value)} (hpart : as <+: manner.sequence fs) :
      Heard lost fs (as ++ [.error .transportClosed])

end Fragments

end Feed

end Switchboard
