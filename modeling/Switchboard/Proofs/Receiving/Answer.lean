import Switchboard.Client.MethodCall
import Switchboard.Proofs.Race.Outcome
import Switchboard.Proofs.Receiving.Waiting
/-!
What one is told who waits for the answer of a call depends on the fragments that the queue has accepted, and on
nothing else: not on when they came, and not on when he looked.
-/
namespace Switchboard.Receiving

open Exchange Process

variable {α β : Type} {l : Listener} {x : Exchange} {suppliers : List Supplier} {times order : List Nat}

section Watching

/-- One who waits for the answer of a call without a limit, with a look at each of the given times, and makes something
of what he has read; and the others. -/
def watching (g : Waiting × Option (Except ClientError Bytes) → β) (x : Exchange) (l : Listener) (times : List Nat)
    (suppliers : List Supplier) : Company Exchange (Told β) :=
  company x l (do return g (← watch times (.start l 0 none))) suppliers

/-- What one who waits has read once he has read these fragments. -/
def gathered (l : Listener) (fs : List Fragment) : Waiting := fs.foldl Waiting.add (.start l 0 none)

/-- What one who waits comes to befits his stand, whatever he makes of it. -/
theorem obeys_watching (g : Waiting × Option (Except ClientError Bytes) → β) (l : Listener) (times : List Nat) :
    (do return g (← watch times (.start l 0 none))).Obeys (Steady l) (Move l)
      (fun t b => ∃ a, Watched (.start l 0 none) t a ∧ b = g a) ⟨[], times.length, .reading⟩ := by
  have hwatch := obeys_watch (w := .start l 0 none) (l := l) rfl rfl times []
  exact hwatch.bind fun t a ha => ⟨a, ha, rfl⟩

variable (g : Waiting × Option (Except ClientError Bytes) → β) (hready : x.Ready l)
  (hfor : ∀ s ∈ suppliers, s.IsFor l)
include hready hfor

/-- One who waits has read all that the queue has accepted, and the queue is closed; or he has no look left, and has read
what the queue has accepted first. -/
theorem told_of_watching {b : β}
    (h : ((watching g x l times suppliers).follow order).result? 0 = some (.read b)) :
    b = g ((gathered l (accepted l order (watching g x l times suppliers))).finish,
          some (gathered l (accepted l order (watching g x l times suppliers))).result) ∧
        (((watching g x l times suppliers).follow order).state.queue l.queue).isClosed = true ∨
      ∃ read, read <+: accepted l order (watching g x l times suppliers) ∧ b = g (gathered l read, none) := by
  obtain ⟨t, roles, hstands⟩ := stands_follow hready hfor (obeys_watching g l times) order
  obtain ⟨_, hb, a, hwatched, rfl⟩ := hstands.told h
  cases hb
  cases hwatched with
  | ended =>
    obtain ⟨hread, hclosed⟩ := hstands.inv.holds
    have haccepted : accepted l order (watching g x l times suppliers) = _ := hread
    rw [haccepted]
    exact .inl ⟨rfl, hclosed⟩
  | @looked read =>
    have haccepted : accepted l order (watching g x l times suppliers) = _ := hstands.inv.holds
    exact .inr ⟨read, haccepted ▸ List.prefix_append _ _, rfl⟩

/-- He reads to the end, if nothing more can come into the queue after some of the steps, and if he can then still look
often enough, and does so. -/
theorem watching_returns {before after : List Nat} (horder : before ++ after = order)
    (hclosed : (((watching g x l times suppliers).follow before).state.queue l.queue).isClosed = true)
    (hlooks : before.count 0 +
      (((watching g x l times suppliers).follow before).state.queue l.queue).fragments.length + 1 ≤ times.length)
    (hsteps : 5 * times.length + 4 ≤ order.count 0) :
    ((watching g x l times suppliers).follow order).result? 0 =
      some (.read (g ((gathered l (accepted l order (watching g x l times suppliers))).finish,
        some (gathered l (accepted l order (watching g x l times suppliers))).result))) := by
  have hends : (do return g (← watch times (.start l 0 none))).EndsWithin (5 * times.length + 4) :=
    EndsWithin.bind (n := 0) (endsWithin_watch times _) fun _ => trivial
  obtain ⟨t, roles, _, hstands, htold, ⟨a, hwatched, rfl⟩, hmore⟩ :=
    exists_told hready hfor (obeys_watching g l times) hends horder hclosed hlooks hsteps
  cases hwatched with
  | looked => exact absurd (hmore rfl) (Nat.lt_irrefl 0)
  | ended =>
    obtain ⟨hread, -⟩ := hstands.inv.holds
    have haccepted : accepted l order (watching g x l times suppliers) = _ := hread
    rw [haccepted]
    exact htold

end Watching

/-- The result of fragments: the first error among them, else the first success, else nothing. -/
def aggregate (fs : List Fragment) : Except ClientError Bytes :=
  match firstOf .error fs with
  | some payload => .error (.foreign (EngineError.ofPayload payload))
  | none => .ok ((firstOf .success fs).getD [])

theorem result_gathered (fs : List Fragment) : (gathered l fs).result = aggregate fs := by
  rw [Waiting.result, gathered, Waiting.error_foldl_add, Waiting.data_foldl_add, aggregate]
  cases firstOf .error fs <;> cases firstOf .success fs <;> rfl

/-- Whether a fragment may count for the result. -/
def Counts (f : Fragment) : Bool := f.status = .error ∨ f.status = .success

theorem firstOf_filter {status : Status} (hstatus : status = .error ∨ status = .success) (fs : List Fragment) :
    firstOf status (fs.filter Counts) = firstOf status fs := by
  rw [firstOf, firstOf, List.find?_filter]
  congr 2
  funext f
  by_cases hf : f.status = status <;> simp [Counts, hf, hstatus]

/-- Only errors and successes count. -/
theorem aggregate_filter (fs : List Fragment) : aggregate (fs.filter Counts) = aggregate fs := by
  rw [aggregate, aggregate, firstOf_filter (.inl rfl), firstOf_filter (.inr rfl)]

/-- Waits for the answer of a call, with a look at each of the given times; without a result by then there is none. -/
def wait (l : Listener) (times : List Nat) : Process Exchange (Option (Except ClientError Bytes)) := do
  return (← watch times (.start l 0 none)).2

/-- Waits for the answer of a call and decodes it. -/
def waitDecoded (l : Listener) (times : List Nat) (call : MethodCall α) :
    Process Exchange (Option (Except ClientError α)) := do
  return (← wait l times).map call.resultOf

/-- What an answer means whose payload has a form. An empty payload is read as null. -/
def decodeAs (form : Form α) : Except ClientError Bytes → Except ClientError α
  | .error e => .error e
  | .ok payload => (form.read (if payload.isEmpty then nullPayload else payload)).mapError .decode

/-- What one comes to who waits for the answer of a call, after steps of all parties in some order. The fragments that
the queue has accepted are those whose deliveries are told so. The result is the aggregate of these, and there is one
once the queue is closed and one has looked often enough; whoever else waits in whatever run in which the same errors
and successes are accepted, in the same order, comes to the same result. If the answer is decoded, it is this result
that is decoded. -/
structure Answered (x : Exchange) (l : Listener) (times : List Nat) (suppliers : List Supplier) (order : List Nat)
    (c : Company Exchange (Told (Option (Except ClientError Bytes)))) : Prop where
  arrived : (c.follow order).Settled →
    (entered l.queue order c).Perm ((c.follow order).answers.filterMap Told.delivered?)
  answer : ∀ r, (c.follow order).result? 0 = some (.read (some r)) →
    r = aggregate (accepted l order c) ∧ ((c.follow order).state.queue l.queue).isClosed = true
  returns : ∀ before after, before ++ after = order → ((c.follow before).state.queue l.queue).isClosed = true →
    before.count 0 + ((c.follow before).state.queue l.queue).fragments.length + 1 ≤ times.length →
    5 * times.length + 4 ≤ order.count 0 →
    (c.follow order).result? 0 = some (.read (some (aggregate (accepted l order c))))
  same : ∀ r, (c.follow order).result? 0 = some (.read (some r)) → ∀ times' suppliers' order',
    (∀ s ∈ suppliers', Supplier.IsFor l s) →
    (accepted l order' (company x l (wait l times') suppliers')).filter Counts = (accepted l order c).filter Counts →
    ∀ r', ((company x l (wait l times') suppliers').follow order').result? 0 = some (.read (some r')) → r' = r
  decoded : ∀ (α : Type) (method : String) (form : Form α),
    ((company x l (waitDecoded l times (.plain method form)) suppliers).follow order).result? 0 =
      ((c.follow order).result? 0).map (Told.map (Option.map (decodeAs form)))

theorem resultOf_plain (method : String) (form : Form α) :
    (MethodCall.plain method form).resultOf = decodeAs form := by
  funext answer
  cases answer <;> rfl

/-- A wait that comes to a result comes to the aggregate of what has been accepted. -/
theorem wait_answer (hready : x.Ready l) (hfor : ∀ s ∈ suppliers, s.IsFor l) {r : Except ClientError Bytes}
    (h : ((company x l (wait l times) suppliers).follow order).result? 0 = some (.read (some r))) :
    r = aggregate (accepted l order (company x l (wait l times) suppliers)) ∧
      (((company x l (wait l times) suppliers).follow order).state.queue l.queue).isClosed = true := by
  obtain ⟨hresult, hclosed⟩ | ⟨read, -, hresult⟩ := told_of_watching Prod.snd hready hfor h
  · refine ⟨?_, hclosed⟩
    rw [result_gathered] at hresult
    exact Option.some.inj hresult
  · cases hresult

/-- Fragments are delivered to a call, and its deliveries are stopped, while one waits for its answer. In whatever order
the steps fall, the result is the first error, else the first success, else nothing, among the fragments that the queue
has accepted. -/
theorem answer_is_aggregate (hready : x.Ready l) (hfor : ∀ s ∈ suppliers, s.IsFor l) (times order : List Nat) :
    Answered x l times suppliers order (company x l (wait l times) suppliers) := by
  constructor
  case arrived =>
    obtain ⟨t, roles, hstands⟩ := stands_follow hready hfor (obeys_watching Prod.snd l times) order
    exact hstands.perm_delivered
  case answer => exact fun r hr => wait_answer hready hfor hr
  case returns =>
    intro before after horder hclosed hlooks hsteps
    have hreturns := watching_returns Prod.snd hready hfor horder hclosed hlooks hsteps
    rw [result_gathered] at hreturns
    exact hreturns
  case same =>
    intro r hr times' suppliers' order' hfor' hcounts r' hr'
    rw [(wait_answer hready hfor hr).1, (wait_answer hready hfor' hr').1, ← aggregate_filter, hcounts,
      aggregate_filter]
  case decoded =>
    intro α method form
    rw [waitDecoded, result?_map, resultOf_plain]

/-- Two successes, an event between them, and a code that means nothing, the last of them marked as such. -/
def mixedAnswer : List Supplier :=
  [.deliver ⟨1, [], .streamEvent, false⟩, .deliver ⟨1, [49], .success, false⟩, .deliver ⟨1, [50], .success, false⟩,
    .deliver ⟨1, [51], .unknown 7, true⟩, .unsubscribe]

/-- They are delivered while one looks, and then the deliveries are stopped, too. -/
def mixedOrder : List Nat :=
  [0, 0, 2, 1, 2, 1, 0, 2, 0, 1, 3, 3, 0, 4, 0, 4, 3, 4, 5, 4, 4, 0, 0, 0, 0, 0, 0, 0, 0, 0]

/-- The first success is the answer. -/
theorem answer_is_aggregate_mixed :
    Answered Race.firstCall.2 Race.firstCall.1 [0, 0, 0, 0, 0, 0, 0, 0] mixedAnswer mixedOrder
        (company Race.firstCall.2 Race.firstCall.1 (wait Race.firstCall.1 [0, 0, 0, 0, 0, 0, 0, 0]) mixedAnswer) ∧
      ((company Race.firstCall.2 Race.firstCall.1 (wait Race.firstCall.1 [0, 0, 0, 0, 0, 0, 0, 0])
        mixedAnswer).follow mixedOrder).result? 0 = some (.read (some (.ok [49]))) := by
  have hready : Race.firstCall.2.Ready Race.firstCall.1 :=
    Client.ready_openCall (by decide) (by decide) rfl (by decide)
  exact ⟨answer_is_aggregate hready (by decide) _ mixedOrder, rfl⟩

end Switchboard.Receiving
