import Switchboard.Proofs.Receiving.Answer
/-!
One who waits for the result of a call and hears of the events before it: what he hears, and which of several failures
he is told.
-/
namespace Switchboard

variable {σ γ ρ ε α : Type}

/-- Programs that go on in the same way after every answer that there can be are the same. -/
theorem Process.bind_congr {p : Process σ γ} {f g : γ → Process σ ρ} {Q : γ → Prop}
    (h : p.All (fun _ _ => True) Q) (hfg : ∀ a, Q a → f a = g a) : p >>= f = p >>= g := by
  induction p with
  | done a => exact hfg a h
  | step next effect ih => exact congrArg (Process.step · effect) (funext fun s => ih s (h.2 s))

section Decoding

variable (decode : Bytes → Except Fault ε)

/-- Events that come later add their values, and a fault if there has been none before. -/
theorem decodeEvents_append (as bs : List Bytes) : decodeEvents decode (as ++ bs) =
    ((decodeEvents decode as).1 ++ (decodeEvents decode bs).1,
      (decodeEvents decode as).2 <|> (decodeEvents decode bs).2) := by
  induction as with
  | nil => rfl
  | cons payload rest ih =>
    rw [List.cons_append, decodeEvents, decodeEvents, ih]
    cases decode payload <;> rfl

/-- The values are those of the payloads that can be decoded, in order. -/
theorem decodeEvents_fst (payloads : List Bytes) :
    (decodeEvents decode payloads).1 = payloads.filterMap fun payload => (decode payload).toOption := by
  induction payloads with
  | nil => rfl
  | cons payload rest ih =>
    rw [decodeEvents, List.filterMap_cons, ← ih]
    cases decode payload <;> rfl

/-- The fault of a payload, if it cannot be decoded. -/
def faultOf (payload : Bytes) : Option Fault :=
  match decode payload with
  | .ok _ => none
  | .error f => some f

/-- The fault is that of the first payload that cannot be decoded. -/
theorem decodeEvents_snd (payloads : List Bytes) :
    (decodeEvents decode payloads).2 = payloads.findSome? (faultOf decode) := by
  induction payloads with
  | nil => rfl
  | cons payload rest ih =>
    rw [decodeEvents, List.findSome?_cons, ← ih, faultOf]
    cases decode payload <;> rfl

end Decoding

namespace Receiving

open Exchange Process

variable {l : Listener} {x : Exchange} {suppliers : List Supplier} {times order : List Nat}

/-- What is heard when a fragment is read: the value of an event that can be decoded. -/
def heardOf (call : EventCall ε α) (read : Option Fragment) : List ε :=
  (events read.toList).filterMap fun payload => (call.event payload).toOption

/-- Waits for the result of a call, with a look at each of the given times, and hears of each event as it is read. -/
def listen (call : EventCall ε α) :
    List Nat → Waiting → List ε → Process Exchange (List ε × Option (Except ClientError α))
  | [], _, heard => return (heard, none)
  | now :: later, w, heard => do
    match ← w.look now with
    | .pending w => listen call later w heard
    | .again w read => listen call later w (heard ++ heardOf call read)
    | .finished w r =>
      w.listener.release
      return (heard, some (call.resultOf w.events r).2)

/-- What a look does to the events that have been read. -/
def LookAdds (w : Waiting) : Waiting.Look → Prop
  | .pending w' | .finished w' _ => w'.events = w.events
  | .again w' read => w'.events = w.events ++ events read.toList

theorem look_adds (now : Nat) (w : Waiting) : (w.look now).All (fun _ _ => True) (LookAdds w) := by
  refine (All.atomic fun _ => trivial).bind fun fired _ => ?_
  cases fired with
  | true => exact rfl
  | false =>
    refine (All.atomic fun _ => trivial).bind fun taken _ => ?_
    cases taken with
    | fragment f => exact Waiting.events_foldl_add [f]
    | ended => exact rfl
    | pending =>
      show (w.lookAtTime now).All _ _
      unfold Waiting.lookAtTime
      cases w.deadline with
      | none => exact rfl
      | some deadline =>
        dsimp only
        split
        · exact rfl
        · have hcancel : w.listener.cancel.All (fun _ _ => True) fun _ => True :=
            (All.atomic fun _ => trivial).bind fun claimed _ => by
              cases claimed with
              | true => exact ⟨fun _ => trivial, fun _ => ⟨fun _ => trivial, fun _ => trivial⟩⟩
              | false => trivial
          refine hcancel.bind fun r _ => ?_
          obtain ⟨cancelled, m⟩ := r
          cases cancelled with
          | true => exact rfl
          | false => exact (List.append_nil _).symm

/-- What one has heard and what one is told, once one has read so much. -/
def heardAndTold (call : EventCall ε α) (a : Waiting × Option (Except ClientError Bytes)) :
    List ε × Option (Except ClientError α) :=
  ((decodeEvents call.event a.1.events).1, a.2.map fun r => (call.resultOf a.1.events r).2)

/-- Hearing of the events one by one is to hear of all that have been read. -/
theorem listen_eq_watch (call : EventCall ε α) (times : List Nat) (w : Waiting) :
    listen call times w (decodeEvents call.event w.events).1 = do return heardAndTold call (← watch times w) := by
  induction times generalizing w with
  | nil => rfl
  | cons now later ih =>
    rw [listen, watch, Process.bind_assoc]
    refine Process.bind_congr (look_adds now w) fun look hlook => ?_
    cases look with
    | pending w' =>
      have hevents : w'.events = w.events := hlook
      rw [← hevents]
      exact ih w'
    | again w' read =>
      have hevents : w'.events = w.events ++ events read.toList := hlook
      have hheard : (decodeEvents call.event w.events).1 ++ heardOf call read =
          (decodeEvents call.event w'.events).1 := by
        rw [hevents, decodeEvents_append, heardOf, decodeEvents_fst _ (events read.toList)]
      simp only [hheard]
      exact ih w'
    | finished w' r =>
      have hevents : w'.events = w.events := hlook
      simp only [← hevents, watchAfter, Process.bind_assoc]
      rfl

/-- The values of the events among fragments that can be decoded, in their order. -/
def heard (event : Form ε) (fs : List Fragment) : List ε :=
  (events fs).filterMap fun payload => (event.ofPayload payload).toOption

/-- The result of fragments among which there may be events: the first error, else the fault of the first event that
cannot be decoded, else the value of the first success or of nothing. -/
def resultWithEvents (event : Form ε) (result : Form α) (fs : List Fragment) : Except ClientError α :=
  match firstOf .error fs, (events fs).findSome? (faultOf event.ofPayload) with
  | some payload, _ => .error (.foreign (EngineError.ofPayload payload))
  | none, some fault => .error (.decode fault)
  | none, none => (result.ofPayload ((firstOf .success fs).getD [])).mapError .decode

/-- The events and the result of a call have forms. -/
structure HasForms (call : EventCall ε α) (event : Form ε) (result : Form α) : Prop where
  event : call.event = event.ofPayload
  result : call.result = result.ofPayload

theorem heardAndTold_gathered {call : EventCall ε α} {event : Form ε} {result : Form α}
    (hforms : HasForms call event result) (fs : List Fragment) :
    heardAndTold call ((gathered l fs).finish, some (gathered l fs).result) =
      (heard event fs, some (resultWithEvents event result fs)) := by
  have hevents : (gathered l fs).finish.events = events fs := Waiting.events_foldl_add fs
  simp only [heardAndTold, hevents, EventCall.resultOf, Option.map_some, decodeEvents_fst, decodeEvents_snd,
    hforms.event, hforms.result, result_gathered, resultWithEvents, aggregate, heard]
  cases firstOf .error fs with
  | some payload => rfl
  | none => cases (events fs).findSome? (faultOf event.ofPayload) <;> rfl

/-- What one comes to who waits for the result of a call and hears of its events, after steps of all parties in some
order. When he is told a result, it is that of the fragments which the queue has accepted, and he has heard of all
events among these; before that, he has heard of the first of them. He is told a result once the queue is closed and he
has looked often enough. -/
structure Heard (x : Exchange) (l : Listener) (times : List Nat) (event : Form ε) (result : Form α) (order : List Nat)
    (c : Company Exchange (Told (List ε × Option (Except ClientError α)))) : Prop where
  arrived : (c.follow order).Settled →
    (entered l.queue order c).Perm ((c.follow order).answers.filterMap Told.delivered?)
  told : ∀ values r, (c.follow order).result? 0 = some (.read (values, some r)) →
    values = heard event (accepted l order c) ∧ r = resultWithEvents event result (accepted l order c) ∧
      ((c.follow order).state.queue l.queue).isClosed = true
  soFar : ∀ values, (c.follow order).result? 0 = some (.read (values, none)) →
    values <+: heard event (accepted l order c)
  returns : ∀ before after, before ++ after = order → ((c.follow before).state.queue l.queue).isClosed = true →
    before.count 0 + ((c.follow before).state.queue l.queue).fragments.length + 1 ≤ times.length →
    5 * times.length + 4 ≤ order.count 0 →
    (c.follow order).result? 0 =
      some (.read (heard event (accepted l order c), some (resultWithEvents event result (accepted l order c))))

/-- Fragments are delivered to a call, and its deliveries are stopped, while one waits for its result and hears of its
events. In whatever order the steps fall, he hears of each event that can be decoded, once and in the order in which they
have come, and is told the first error, else the first fault of an event, else the value of the first success. -/
theorem events_heard_in_order (hready : x.Ready l) (hfor : ∀ s ∈ suppliers, s.IsFor l) {call : EventCall ε α}
    {event : Form ε} {result : Form α} (hforms : HasForms call event result) (times order : List Nat) :
    Heard x l times event result order (company x l (listen call times (.start l 0 none) []) suppliers) := by
  have hprogram : listen call times (.start l 0 none) [] = _ := listen_eq_watch call times (.start l 0 none)
  rw [hprogram]
  constructor
  case arrived =>
    obtain ⟨t, roles, hstands⟩ := stands_follow hready hfor (obeys_watching (heardAndTold call) l times) order
    exact hstands.perm_delivered
  case told =>
    intro values r h
    obtain ⟨hresult, hclosed⟩ | ⟨read, -, hresult⟩ := told_of_watching (heardAndTold call) hready hfor h
    · rw [heardAndTold_gathered hforms] at hresult
      cases hresult
      exact ⟨rfl, rfl, hclosed⟩
    · cases hresult
  case soFar =>
    intro values h
    obtain ⟨hresult, -⟩ | ⟨read, hread, hresult⟩ := told_of_watching (heardAndTold call) hready hfor h
    · cases hresult
    · obtain ⟨rest, hrest⟩ := hread
      cases hresult
      have hevents : (gathered l read).events = events read := Waiting.events_foldl_add read
      refine ⟨heard event rest, ?_⟩
      have haccepted : accepted l order (company x l _ suppliers) = read ++ rest := hrest.symm
      rw [hevents, decodeEvents_fst, hforms.event]
      rw [haccepted]
      simp [heard, events]
  case returns =>
    intro before after horder hclosed hlooks hsteps
    have hreturns := watching_returns (heardAndTold call) hready hfor horder hclosed hlooks hsteps
    rw [heardAndTold_gathered hforms] at hreturns
    exact hreturns

/-- A call whose events are truth values, and whose result is nothing. -/
def truthCall : EventCall Bool Unit where
  method := "processing.wait_for_transaction"
  params := .null
  event := Form.bool.ofPayload
  result := Form.unit.ofPayload

/-- Two events that are truth values, one between them that is not, and the result. -/
def truthAnswer : List Supplier :=
  [.deliver ⟨1, Utf8.encode "true", .streamEvent, false⟩, .deliver ⟨1, [], .streamEvent, false⟩,
    .deliver ⟨1, Utf8.encode "false", .streamEvent, false⟩, .deliver ⟨1, [], .success, true⟩]

/-- They are delivered one after another while one looks. -/
def truthOrder : List Nat :=
  [0, 0, 1, 1, 1, 0, 0, 2, 2, 0, 2, 0, 3, 3, 3, 4, 4, 4, 4, 4, 0, 0, 0, 0, 0, 0, 0, 0, 0]

/-- One hears of the truth values, and is told that there has been something else. -/
theorem events_heard_in_order_faulty :
    Heard Race.firstCall.2 Race.firstCall.1 [0, 0, 0, 0, 0, 0] Form.bool Form.unit truthOrder
        (company Race.firstCall.2 Race.firstCall.1
          (listen truthCall [0, 0, 0, 0, 0, 0] (.start Race.firstCall.1 0 none) []) truthAnswer) ∧
      ((company Race.firstCall.2 Race.firstCall.1
          (listen truthCall [0, 0, 0, 0, 0, 0] (.start Race.firstCall.1 0 none) []) truthAnswer).follow
        truthOrder).result? 0 = some (.read ([true, false], some (.error (.decode .malformed)))) := by
  have hready : Race.firstCall.2.Ready Race.firstCall.1 :=
    Client.ready_openCall (by decide) (by decide) rfl (by decide)
  exact ⟨events_heard_in_order hready (by decide) ⟨rfl, rfl⟩ _ truthOrder, rfl⟩

end Receiving

end Switchboard
