import Switchboard.Proofs.Exchange.Delivering
import Switchboard.Proofs.Exchange.Looks
/-!
What is done to a call depends on the parts of that call alone: in two exchanges that differ in the parts of other
calls only, it gives the same answers and leaves the same difference.
-/
namespace Switchboard

open Exchange Process

/-- The parts in which two exchanges may differ. -/
structure Hidden where
  queue : QueueId → Prop
  control : ControlId → Prop
  signal : SignalId → Prop

namespace Exchange

variable {h : Hidden} {x y z : Exchange} {q : QueueId} {c : ControlId} {s : SignalId} {t : TableId}
  {id : RequestId} {l : Listener} {f : Fragment}

/-- Two exchanges differ in hidden parts only. An entry of a table is hidden with its queue, and what a control is
made of is never hidden. -/
structure Agree (h : Hidden) (x y : Exchange) : Prop where
  sizes : y.sizes = x.sizes
  queue : ∀ q, ¬ h.queue q → y.queue q = x.queue q
  control : ∀ c, ¬ h.control c → y.control c = x.control c
  cancels : ∀ c, (y.control c).cancel = (x.control c).cancel
  owners : ∀ c, (y.control c).shutdown = (x.control c).shutdown
  fired : ∀ s, ¬ h.signal s → y.fired s = x.fired s
  lastId : ∀ t, (y.table t).lastId = (x.table t).lastId
  entries : ∀ t e, ¬ h.queue e.2.queue → (e ∈ (y.table t).calls ↔ e ∈ (x.table t).calls)

theorem Agree.refl (h : Hidden) (x : Exchange) : Agree h x x := by
  constructor <;> simp

theorem Agree.symm (hagree : Agree h x y) : Agree h y x where
  sizes := hagree.sizes.symm
  queue q hq := (hagree.queue q hq).symm
  control c hc := (hagree.control c hc).symm
  cancels c := (hagree.cancels c).symm
  owners c := (hagree.owners c).symm
  fired s hs := (hagree.fired s hs).symm
  lastId t := (hagree.lastId t).symm
  entries t e he := (hagree.entries t e he).symm

theorem Agree.trans (hagree : Agree h x y) (hagree' : Agree h y z) : Agree h x z where
  sizes := hagree'.sizes.trans hagree.sizes
  queue q hq := (hagree'.queue q hq).trans (hagree.queue q hq)
  control c hc := (hagree'.control c hc).trans (hagree.control c hc)
  cancels c := (hagree'.cancels c).trans (hagree.cancels c)
  owners c := (hagree'.owners c).trans (hagree.owners c)
  fired s hs := (hagree'.fired s hs).trans (hagree.fired s hs)
  lastId t := (hagree'.lastId t).trans (hagree.lastId t)
  entries t e he := (hagree'.entries t e he).trans (hagree.entries t e he)

/-- Steps on a hidden call are hidden, as long as no other call is in the table under its number. -/
theorem Agree.of_onward (honward : Onward l x y) (hqueue : h.queue l.queue) (hcontrol : h.control l.control)
    (hcancel : h.signal (x.control l.control).cancel) (hkeyed : (x.table l.table).Keyed)
    (hnone : ∀ e ∈ (x.table l.table).calls, e.1 = l.id → h.queue e.2.queue) : Agree h x y := by
  constructor
  case sizes => exact honward.sizes
  case queue => exact fun q hq => honward.queue q fun heq => hq (heq ▸ hqueue)
  case control => exact fun c hc => honward.control c fun heq => hc (heq ▸ hcontrol)
  case cancels => exact honward.control_cancel
  case owners => exact honward.control_shutdown
  case fired => exact fun s hs => honward.fired s fun heq => hs (heq ▸ hcancel)
  case lastId =>
    intro t
    by_cases ht : t = l.table
    · rw [ht, honward.lastId]
    · rw [honward.table t ht]
  case entries =>
    intro t e he
    by_cases ht : t = l.table
    · subst ht
      refine ⟨honward.mem_of_mem hkeyed, fun hmem => ?_⟩
      have hid : e.1 ≠ l.id := fun heq => he (hnone e hmem heq)
      have hfind := hkeyed.find?_eq_some_iff.2 (show (e.1, e.2) ∈ _ from hmem)
      rw [← honward.other e.1 hid] at hfind
      exact Table.mem_of_find? hfind
    · rw [honward.table t ht]

/-- A program does the same in exchanges that agree, and leaves them agreed. -/
def Respects {α : Type} (h : Hidden) (m : StateM Exchange α) : Prop :=
  ∀ x y, Agree h x y → (m y).1 = (m x).1 ∧ Agree h (m x).2 (m y).2

namespace Respects

variable {α β : Type}

theorem pure (a : α) : Respects h (pure a : StateM Exchange α) := fun _ _ hagree => ⟨rfl, hagree⟩

theorem bind {m : StateM Exchange α} {k : α → StateM Exchange β} (hm : Respects h m)
    (hk : ∀ a, Respects h (k a)) : Respects h (m >>= k) := by
  intro x y hagree
  obtain ⟨hsame, hafter⟩ := hm x y hagree
  rw [stateM_bind, stateM_bind, hsame]
  exact hk _ _ _ hafter

theorem run_bind {p : Process Exchange α} {k : α → Process Exchange β} (hp : Respects h p.run)
    (hk : ∀ a, Respects h (k a).run) : Respects h (p >>= k).run := by
  intro x y hagree
  obtain ⟨hsame, hafter⟩ := hp x y hagree
  rw [Process.run_bind, Process.run_bind, hsame]
  exact hk _ _ _ hafter

theorem run_pure (a : α) : Respects h (Pure.pure a : Process Exchange α).run := fun _ _ hagree => ⟨rfl, hagree⟩

/-- What a step returns does not matter if nobody looks at it. -/
theorem run_discard {m : StateM Exchange α} (hm : ∀ x y, Agree h x y → Agree h (m x).2 (m y).2) :
    Respects h (discard (atomic m) : Process Exchange PUnit).run := by
  intro x y hagree
  rw [Process.run_discard, Process.run_discard]
  exact ⟨rfl, hm x y hagree⟩

end Respects

section Steps

theorem Agree.onQueue {α : Type} {g : Queue → α × Queue} (hgone : (g .gone).2 = .gone) (hq : ¬ h.queue q)
    (hagree : Agree h x y) : Agree h (onQueue q g x).2 (onQueue q g y).2 := by
  constructor
  case sizes => rw [sizes_onQueue, sizes_onQueue, hagree.sizes]
  case queue =>
    intro q' hq'
    rw [queue_onQueue hgone, queue_onQueue hgone, hagree.queue q' hq', hagree.queue q hq]
  case control => exact hagree.control
  case cancels => exact hagree.cancels
  case owners => exact hagree.owners
  case fired => exact hagree.fired
  case lastId => exact hagree.lastId
  case entries => exact hagree.entries

theorem respects_onQueue {α : Type} {g : Queue → α × Queue} (hgone : (g .gone).2 = .gone)
    (hq : ¬ h.queue q) : Respects h (onQueue q g) := by
  intro x y hagree
  refine ⟨?_, hagree.onQueue hgone hq⟩
  show (g (y.queue q)).1 = (g (x.queue q)).1
  rw [hagree.queue q hq]

theorem respects_take (hq : ¬ h.queue q) : Respects h (take q) := respects_onQueue rfl hq

theorem respects_push (hq : ¬ h.queue q) : Respects h (push q f) := respects_onQueue rfl hq

theorem respects_closeQueue (hq : ¬ h.queue q) : Respects h (closeQueue q) := respects_onQueue rfl hq

theorem respects_closeReading (hq : ¬ h.queue q) : Respects h (closeReading q) := respects_onQueue rfl hq

theorem respects_dropReading (hq : ¬ h.queue q) : Respects h (dropReading q) := respects_onQueue rfl hq

theorem respects_isFired (hs : ¬ h.signal s) : Respects h (isFired s) :=
  fun _ _ hagree => ⟨hagree.fired s hs, hagree⟩

/-- A step on tables that takes the same visible entries out of both. -/
theorem Agree.of_tables {x' y' : Exchange} (hagree : Agree h x y) (hx : SameButTables x x')
    (hy : SameButTables y y') (hsizes : x'.sizes = x.sizes) (hsizes' : y'.sizes = y.sizes)
    (hlastId : ∀ t, (x'.table t).lastId = (x.table t).lastId)
    (hlastId' : ∀ t, (y'.table t).lastId = (y.table t).lastId)
    (hentries : ∀ t e, ¬ h.queue e.2.queue → (e ∈ (y'.table t).calls ↔ e ∈ (x'.table t).calls)) :
    Agree h x' y' := by
  constructor
  case sizes => rw [hsizes, hsizes', hagree.sizes]
  case queue => exact fun q hq => by rw [hx.2.2, hy.2.2, hagree.queue q hq]
  case control => exact fun c hc => by rw [hx.1, hy.1, hagree.control c hc]
  case cancels => exact fun c => by rw [hx.1, hy.1, hagree.cancels c]
  case owners => exact fun c => by rw [hx.1, hy.1, hagree.owners c]
  case fired => exact fun s hs => by rw [hx.2.1, hy.2.1, hagree.fired s hs]
  case lastId => exact fun t => by rw [hlastId, hlastId', hagree.lastId t]
  case entries => exact hentries

theorem Agree.resolve {removing : Bool} (hagree : Agree h x y) :
    Agree h (resolve t id removing x).2 (resolve t id removing y).2 := by
  refine hagree.of_tables frame_resolve frame_resolve sizes_resolve sizes_resolve ?_ ?_ ?_
  · intro t'
    rw [table_resolve]
    split
    case isTrue ht => rw [ht.1]; rfl
    case isFalse => rfl
  · intro t'
    rw [table_resolve]
    split
    case isTrue ht => rw [ht.1]; rfl
    case isFalse => rfl
  · intro t' e he
    rw [table_resolve, table_resolve]
    split
    case isTrue ht => simp only [Table.erase, List.mem_filter, hagree.entries t e he]
    case isFalse => exact hagree.entries t' e he

theorem Agree.remove (hagree : Agree h x y) :
    Agree h (Exchange.remove t id x).2 (Exchange.remove t id y).2 := by
  have hsame (x : Exchange) : (Exchange.remove t id x).2 = (Exchange.resolve t id true x).2 := rfl
  rw [hsame, hsame]
  exact hagree.resolve

theorem Agree.setClaim {claim : Claim} (hc : (x.control c).claim = .free) (hvisible : ¬ h.control c)
    (hagree : Agree h x y) : Agree h (setClaim c claim x).2 (setClaim c claim y).2 := by
  have hc' : (y.control c).claim = .free := by rw [hagree.control c hvisible, hc]
  have hx (c' : ControlId) : (Exchange.setClaim c claim x).2.control c' =
      if c' = c then { x.control c with claim } else x.control c' := control_setClaim (lt_of_claim_free hc)
  have hy (c' : ControlId) : (Exchange.setClaim c claim y).2.control c' =
      if c' = c then { y.control c with claim } else y.control c' := control_setClaim (lt_of_claim_free hc')
  constructor
  case sizes => rw [sizes_setClaim, sizes_setClaim, hagree.sizes]
  case queue => exact hagree.queue
  case control =>
    intro c' hc'
    rw [hx, hy, hagree.control c' hc', hagree.control c hvisible]
  case cancels =>
    intro c'
    rw [hx, hy, hagree.control c hvisible]
    split
    · rfl
    · exact hagree.cancels c'
  case owners =>
    intro c'
    rw [hx, hy, hagree.control c hvisible]
    split
    · rfl
    · exact hagree.owners c'
  case fired => exact hagree.fired
  case lastId => exact hagree.lastId
  case entries => exact hagree.entries

theorem Agree.fire (hagree : Agree h x y) : Agree h (fire s x).2 (fire s y).2 := by
  have hsizes := hagree.sizes
  simp only [Exchange.sizes, Prod.mk.injEq] at hsizes
  constructor
  case sizes => rw [sizes_fire, sizes_fire, hagree.sizes]
  case queue => exact hagree.queue
  case control => exact hagree.control
  case cancels => exact hagree.cancels
  case owners => exact hagree.owners
  case fired => exact fun s' hs' => by rw [fired_fire, fired_fire, hsizes.1, hagree.fired s' hs']
  case lastId => exact hagree.lastId
  case entries => exact hagree.entries

theorem respects_claimCompletion (hc : ¬ h.control c) : Respects h (claimCompletion c) := by
  intro x y hagree
  unfold claimCompletion
  rw [hagree.control c hc]
  split
  case isTrue hfree => exact ⟨rfl, hagree.setClaim hfree hc⟩
  case isFalse => exact ⟨rfl, hagree⟩

theorem respects_claimCancellation (hc : ¬ h.control c) : Respects h (claimCancellation c) := by
  intro x y hagree
  unfold claimCancellation
  rw [hagree.control c hc]
  split
  case h_1 hfree =>
    have hclaimed : Agree h (Exchange.setClaim c .cancelled x).2 (Exchange.setClaim c .cancelled y).2 :=
      hagree.setClaim hfree hc
    have hcancel : ((Exchange.setClaim c .cancelled y).2.control c).cancel =
        ((Exchange.setClaim c .cancelled x).2.control c).cancel := hclaimed.cancels c
    have hfired : Agree h
        (Exchange.fire ((Exchange.setClaim c .cancelled x).2.control c).cancel (Exchange.setClaim c .cancelled x).2).2
        (Exchange.fire ((Exchange.setClaim c .cancelled y).2.control c).cancel
          (Exchange.setClaim c .cancelled y).2).2 := by
      rw [hcancel]
      exact hclaimed.fire
    exact ⟨rfl, hfired⟩
  case h_2 => exact ⟨rfl, hagree⟩
  case h_3 => exact ⟨rfl, hagree⟩

end Steps

end Exchange

section Readers

variable {h : Hidden} {l : Listener} {α : Type}

theorem Listener.respects_cancel (hq : ¬ h.queue l.queue) (hc : ¬ h.control l.control) :
    Respects h l.cancel.run := by
  refine .run_bind (respects_claimCancellation hc) fun claimed => ?_
  cases claimed with
  | false => exact .run_pure _
  | true =>
    refine .run_bind (respects_closeReading hq) fun _ => ?_
    exact .run_bind (.run_discard fun _ _ hagree => hagree.remove) fun _ => .run_pure _

theorem Listener.respects_release (hq : ¬ h.queue l.queue) (hc : ¬ h.control l.control) :
    Respects h l.release.run := by
  intro x y hagree
  rw [l.release_run, l.release_run]
  cases l.done with
  | true => exact respects_dropReading hq x y hagree
  | false => exact respects_dropReading hq _ _ (respects_cancel hq hc x y hagree).2

namespace Subscription

variable {s : Subscription}

theorem respects_close (hq : ¬ h.queue s.listener.queue) (hc : ¬ h.control s.listener.control) :
    Respects h s.close.run := by
  intro x y hagree
  rw [s.close_run, s.close_run, hagree.control _ hc]
  split
  case isTrue => exact ⟨rfl, (respects_closeReading hq x y hagree).2⟩
  case isFalse => exact ⟨rfl, (Listener.respects_cancel hq hc x y hagree).2⟩

theorem respects_look (hq : ¬ h.queue s.listener.queue) (hc : ¬ h.control s.listener.control)
    (hs : ¬ h.signal s.listener.shutdown) : Respects h s.look.run := by
  unfold look
  split
  case isTrue => exact .run_pure _
  case isFalse =>
    refine .run_bind (respects_isFired hs) fun fired => ?_
    cases fired with
    | true => exact .run_pure _
    | false =>
      refine .run_bind (respects_take hq) fun taken => ?_
      cases taken with
      | pending => exact .run_pure _
      | ended => exact .run_pure _
      | fragment f =>
        dsimp only
        split
        case isTrue => exact .run_bind (respects_close hq hc) fun _ => .run_pure _
        case isFalse =>
          split
          case isTrue => exact .run_pure _
          case isFalse => exact .run_pure _

theorem respects_readAtMost (hq : ¬ h.queue s.listener.queue) (hc : ¬ h.control s.listener.control)
    (hs : ¬ h.signal s.listener.shutdown) (n : Nat) : Respects h (s.readAtMost n) := by
  induction n with
  | zero => exact .pure _
  | succ n ih =>
    refine .bind (respects_look hq hc hs) fun look => ?_
    cases look with
    | pending => exact .pure _
    | again f => exact .bind ih fun _ => .pure _
    | item s item read => exact .pure _

theorem respects_read (hq : ¬ h.queue s.listener.queue) (hc : ¬ h.control s.listener.control)
    (hs : ¬ h.signal s.listener.shutdown) : Respects h s.read := by
  intro x y hagree
  unfold read
  rw [hagree.queue _ hq]
  exact respects_readAtMost hq hc hs _ x y hagree

/-- The reader that is left after reading reads the same call. -/
theorem visible_of_follows {s' : Subscription} (hfollows : s.Follows s') (hq : ¬ h.queue s.listener.queue)
    (hc : ¬ h.control s.listener.control) (hs : ¬ h.signal s.listener.shutdown) :
    ¬ h.queue s'.listener.queue ∧ ¬ h.control s'.listener.control ∧ ¬ h.signal s'.listener.shutdown := by
  obtain rfl | ⟨-, hlistener | hlistener⟩ := hfollows
  · exact ⟨hq, hc, hs⟩
  · rw [hlistener]
    exact ⟨hq, hc, hs⟩
  · rw [hlistener]
    exact ⟨hq, hc, hs⟩

theorem visible_of_read {x : Exchange} {s' : Subscription} {item : Option (Except ClientError Bytes)}
    (hread : (s.read x).1.2 = some (s', item)) (hq : ¬ h.queue s.listener.queue)
    (hc : ¬ h.control s.listener.control) (hs : ¬ h.signal s.listener.shutdown) :
    ¬ h.queue s'.listener.queue ∧ ¬ h.control s'.listener.control ∧ ¬ h.signal s'.listener.shutdown := by
  cases hmore : s.exhausted with
  | true =>
    rw [read_of_exhausted hmore] at hread
    cases hread
    exact ⟨hq, hc, hs⟩
  | false =>
    have hfollows := (read_reads hmore x).1
    rw [hread] at hfollows
    exact visible_of_follows hfollows hq hc hs

theorem respects_decoded (decode : Bytes → Except Fault α)
    {outcome : Option (Subscription × Option (Except ClientError Bytes))}
    (hvisible : ∀ s' item, outcome = some (s', item) →
      ¬ h.queue s'.listener.queue ∧ ¬ h.control s'.listener.control) :
    Respects h (decoded decode outcome) := by
  match outcome with
  | none => exact .pure _
  | some (s', none) => exact .pure _
  | some (s', some (.error e)) =>
    obtain ⟨hq, hc⟩ := hvisible s' _ rfl
    exact .bind (respects_close hq hc) fun _ => .pure _
  | some (s', some (.ok payload)) =>
    obtain ⟨hq, hc⟩ := hvisible s' _ rfl
    unfold decoded
    dsimp only
    cases decode payload with
    | ok a => exact .pure _
    | error fault => exact .bind (respects_close hq hc) fun _ => .pure _

/-- The item that is read is decoded before anything else is done with it. -/
theorem respects_readDecoded {β : Type} (decode : Bytes → Except Fault α)
    {k : List Fragment → Option (Subscription × Option (Except ClientError α)) → StateM Exchange β}
    (hq : ¬ h.queue s.listener.queue) (hc : ¬ h.control s.listener.control)
    (hs : ¬ h.signal s.listener.shutdown) (hk : ∀ read decoded, Respects h (k read decoded)) :
    Respects h (s.read >>= fun r => decoded decode r.2 >>= k r.1) := by
  intro x y hagree
  obtain ⟨hsame, hafter⟩ := respects_read hq hc hs x y hagree
  have hdecoded : Respects h (decoded decode (s.read x).1.2) := by
    refine respects_decoded decode fun s' item hread => ?_
    obtain ⟨hq', hc', -⟩ := visible_of_read hread hq hc hs
    exact ⟨hq', hc'⟩
  rw [stateM_bind, stateM_bind, hsame]
  exact Respects.bind hdecoded (hk _) _ _ hafter

theorem respects_next (hq : ¬ h.queue s.listener.queue) (hc : ¬ h.control s.listener.control)
    (hs : ¬ h.signal s.listener.shutdown) : Respects h s.next :=
  .bind (respects_read hq hc hs) fun _ => .pure _

theorem respects_nextDecoded (decode : Bytes → Except Fault α) (hq : ¬ h.queue s.listener.queue)
    (hc : ¬ h.control s.listener.control) (hs : ¬ h.signal s.listener.shutdown) :
    Respects h (s.nextDecoded decode) := by
  have hread : Respects h (s.read >>= fun r => decoded decode r.2 >>= Pure.pure) :=
    respects_readDecoded (k := fun _ decoded => Pure.pure decoded) decode hq hc hs fun _ _ => .pure _
  exact hread

end Subscription

namespace Waiting

variable {w : Waiting}

theorem respects_look (now : Nat) (hq : ¬ h.queue w.listener.queue) (hc : ¬ h.control w.listener.control)
    (hs : ¬ h.signal w.listener.shutdown) : Respects h (w.look now).run := by
  refine .run_bind (respects_isFired hs) fun fired => ?_
  cases fired with
  | true => exact .run_pure _
  | false =>
    refine .run_bind (respects_take hq) fun taken => ?_
    cases taken with
    | fragment f => exact .run_pure _
    | ended => exact .run_pure _
    | pending =>
      show Respects h (w.lookAtTime now).run
      unfold lookAtTime
      split
      case h_1 => exact .run_pure _
      case h_2 =>
        split
        case isTrue => exact .run_pure _
        case isFalse =>
          refine .run_bind (Listener.respects_cancel hq hc) fun cancelled => ?_
          obtain ⟨cancelled, listener⟩ := cancelled
          cases cancelled <;> exact .run_pure _

theorem respects_readAtMost (now n : Nat) (hq : ¬ h.queue w.listener.queue)
    (hc : ¬ h.control w.listener.control) (hs : ¬ h.signal w.listener.shutdown) :
    Respects h (w.readAtMost now n) := by
  induction n generalizing w with
  | zero => exact .pure _
  | succ n ih =>
    intro x y hagree
    obtain ⟨hsame, hafter⟩ := respects_look now hq hc hs x y hagree
    have hshows := look_shows now w x
    simp only [readAtMost, stateM_bind, hsame]
    cases hlook : ((w.look now).run x).1 with
    | pending w' => exact ⟨rfl, hafter⟩
    | again w' read =>
      rw [hlook] at hshows
      obtain ⟨hlistener, -⟩ := hshows.again_reads
      have hmore : Respects h (w'.readAtMost now n) := by
        apply ih <;> rw [hlistener] <;> assumption
      exact Respects.bind hmore (fun _ => .pure _) _ _ hafter
    | finished w' r =>
      rw [hlook] at hshows
      obtain ⟨rfl, -⟩ := hshows.finished_reads
      have hrelease : Respects h w.finish.listener.release.run := Listener.respects_release hq hc
      exact Respects.bind hrelease (fun _ => .pure _) _ _ hafter

theorem respects_read (now : Nat) (hq : ¬ h.queue w.listener.queue) (hc : ¬ h.control w.listener.control)
    (hs : ¬ h.signal w.listener.shutdown) : Respects h (w.read now) := by
  intro x y hagree
  unfold read
  rw [hagree.queue _ hq]
  exact respects_readAtMost now _ hq hc hs x y hagree

end Waiting

end Readers

section Deliveries

variable {h : Hidden} {x y : Exchange} {l : Listener} {t : TableId} {call : PendingCall} {f : Fragment}

theorem Delivery.respects_abandon (hq : ¬ h.queue call.queue) (id : RequestId) :
    Respects h (Delivery.abandon t id call).run :=
  .run_bind (respects_closeQueue hq) fun _ =>
    .run_bind (.run_discard fun _ _ hagree => hagree.remove) fun _ => .run_pure _

theorem Delivery.respects_handOver (hq : ¬ h.queue call.queue) :
    Respects h (Delivery.handOver t call f).run := by
  unfold handOver
  split
  case isTrue => exact .run_bind (respects_closeQueue hq) fun _ => .run_pure _
  case isFalse =>
    refine .run_bind (respects_push hq) fun pushed => ?_
    have hrest : Respects h (if pushed then Pure.pure .delivered else abandon t f.requestId call : Process _ _).run := by
      cases pushed with
      | true => exact .run_pure _
      | false => exact respects_abandon hq _
    cases f.finished with
    | true => exact .run_bind (respects_closeQueue hq) fun _ => hrest
    | false => exact hrest

/-- A delivery to a live call, once it has found it. -/
def Delivery.pass (t : TableId) (call : PendingCall) (f : Fragment) : Process Exchange Delivery := do
  if f.finished then
    if ← atomic (claimCompletion call.control) then handOver t call f
    else abandon t f.requestId call
  else handOver t call f

theorem Delivery.respects_pass (hq : ¬ h.queue call.queue) (hc : ¬ h.control call.control) :
    Respects h (Delivery.pass t call f).run := by
  unfold pass
  split
  case isTrue =>
    refine .run_bind (respects_claimCompletion hc) fun claimed => ?_
    cases claimed with
    | true => exact respects_handOver hq
    | false => exact respects_abandon hq _
  case isFalse => exact respects_handOver hq

theorem deliver_eq_pass (hlive : x.Live l) (hid : f.requestId = l.id) :
    (deliver l.table f).run x =
      (Delivery.pass l.table l.call f).run (resolve l.table f.requestId f.isLast x).2 := by
  have hfind : (resolve l.table f.requestId f.isLast x).1 = some l.call := by
    rw [hid]
    exact hlive.entry
  have habandoned : (resolve l.table f.requestId f.isLast x).2.abandoned l.control = false :=
    hlive.not_abandoned
  simp only [deliver, Delivery.offer, run_bind, run_atomic, hfind, isAbandoned, Listener.call, habandoned,
    Bool.false_eq_true, if_false]
  rfl

/-- A delivery to a live call does the same in exchanges that agree about it. -/
theorem deliver_agree (hlive : x.Live l) (hlive' : y.Live l) (hid : f.requestId = l.id)
    (hq : ¬ h.queue l.queue) (hc : ¬ h.control l.control) (hagree : Agree h x y) :
    ((deliver l.table f).run y).1 = ((deliver l.table f).run x).1 ∧
      Agree h ((deliver l.table f).run x).2 ((deliver l.table f).run y).2 := by
  rw [deliver_eq_pass hlive hid, deliver_eq_pass hlive' hid]
  have hpass : Respects h (Delivery.pass l.table l.call f).run := Delivery.respects_pass hq hc
  exact hpass _ _ hagree.resolve

theorem stopDeliveries_agree (hlive : x.Live l) (hlive' : y.Live l) (hq : ¬ h.queue l.queue)
    (hc : ¬ h.control l.control) (hagree : Agree h x y) :
    ((Client.stopDeliveries l.table l.id).run y).1 = ((Client.stopDeliveries l.table l.id).run x).1 ∧
      Agree h ((Client.stopDeliveries l.table l.id).run x).2 ((Client.stopDeliveries l.table l.id).run y).2 := by
  rw [stopDeliveries_of_found hlive.entry, stopDeliveries_of_found hlive'.entry]
  refine ⟨rfl, ?_⟩
  have hfound : Agree h (resolve l.table l.id true x).2 (resolve l.table l.id true y).2 := hagree.resolve
  have hclaimed := (respects_claimCancellation hc _ _ hfound).2
  exact (respects_closeQueue hq _ _ hclaimed).2

end Deliveries

end Switchboard
