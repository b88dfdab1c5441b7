import Switchboard.Proofs.Exchange.Locality
import Switchboard.Proofs.Session.Coherent
/-!
Two exchanges that differ in hidden parts only: whatever is done to what is visible, or to what is hidden, they go on
to differ in hidden parts only.
-/
namespace Switchboard

open Exchange

variable {h : Hidden} {x y : Exchange} {s : SignalId}

namespace Exchange

/-- Destroying a client that is not hidden takes the same visible calls out of both exchanges. -/
theorem Agree.withoutOwned (hagree : Agree h x y) :
    Agree h (Client.withoutOwned Session.shared s x) (Client.withoutOwned Session.shared s y) := by
  have hsizes := hagree.sizes
  simp only [Exchange.sizes, Prod.mk.injEq] at hsizes
  constructor
  case sizes => rw [Client.sizes_withoutOwned, Client.sizes_withoutOwned, hagree.sizes]
  case queue =>
    intro q hq
    have howned : (∃ call ∈ Client.owned Session.shared s y, call.queue = q) ↔
        ∃ call ∈ Client.owned Session.shared s x, call.queue = q := by
      refine exists_congr fun call => and_congr_left fun hcall => ?_
      rw [Client.mem_owned, Client.mem_owned, hagree.owners]
      refine and_congr_right fun _ => exists_congr fun id => hagree.entries _ _ ?_
      rw [hcall]
      exact hq
    rw [Client.queue_withoutOwned, Client.queue_withoutOwned, hagree.queue q hq]
    simp only [howned]
  case control => exact fun k hk => by rw [Client.control_withoutOwned, Client.control_withoutOwned, hagree.control k hk]
  case cancels => exact fun k => by rw [Client.control_withoutOwned, Client.control_withoutOwned, hagree.cancels k]
  case owners => exact fun k => by rw [Client.control_withoutOwned, Client.control_withoutOwned, hagree.owners k]
  case fired =>
    exact fun s hs => by rw [Client.fired_withoutOwned, Client.fired_withoutOwned, hsizes.1, hagree.fired s hs]
  case lastId =>
    intro t
    rw [Client.table_withoutOwned, Client.table_withoutOwned]
    split
    · exact hagree.lastId _
    · exact hagree.lastId t
  case entries =>
    intro t e he
    rw [Client.table_withoutOwned, Client.table_withoutOwned]
    split
    · simp only [Table.removeAll, List.mem_filter, hagree.entries _ e he, hagree.owners]
    · exact hagree.entries t e he

/-- Destroying a client whose calls are hidden is hidden. -/
theorem Agree.of_withoutOwned (hsignal : h.signal s)
    (howned : ∀ e ∈ (x.table Session.shared).calls, (x.control e.2.control).shutdown = s → h.queue e.2.queue) :
    Agree h x (Client.withoutOwned Session.shared s x) := by
  constructor
  case sizes => exact Client.sizes_withoutOwned
  case queue =>
    intro q hq
    rw [Client.queue_withoutOwned, if_neg]
    rintro ⟨call, hcall, rfl⟩
    obtain ⟨howner, id, hmem⟩ := Client.mem_owned.1 hcall
    exact hq (howned (id, call) hmem howner)
  case control => exact fun k _ => Client.control_withoutOwned
  case cancels => exact fun k => by rw [Client.control_withoutOwned]
  case owners => exact fun k => by rw [Client.control_withoutOwned]
  case fired =>
    intro s hs
    rw [Client.fired_withoutOwned, if_neg]
    rintro ⟨rfl, -⟩
    exact hs hsignal
  case lastId =>
    intro t
    rw [Client.table_withoutOwned]
    split
    case isTrue ht => rw [ht]; rfl
    case isFalse => rfl
  case entries =>
    intro t e he
    rw [Client.table_withoutOwned]
    split
    case isTrue ht =>
      subst ht
      simp only [Table.removeAll, List.mem_filter, Bool.not_eq_true', decide_eq_false_iff_not, and_iff_left_iff_imp]
      exact fun hmem howner => he (howned e hmem howner)
    case isFalse => rfl

theorem Agree.newSignal (hagree : Agree h x y) :
    (newSignal y).1 = (newSignal x).1 ∧ Agree h (newSignal x).2 (newSignal y).2 := by
  have hsizes := hagree.sizes
  simp only [Exchange.sizes, Prod.mk.injEq] at hsizes
  refine ⟨congrArg SignalId.mk hsizes.1, ?_⟩
  constructor
  case sizes => simp [Exchange.sizes, Exchange.newSignal, hsizes]
  case queue => exact hagree.queue
  case control => exact hagree.control
  case cancels => exact hagree.cancels
  case owners => exact hagree.owners
  case fired => exact fun s hs => by rw [fired_newSignal, fired_newSignal, hagree.fired s hs]
  case lastId => exact hagree.lastId
  case entries => exact hagree.entries

/-- Two exchanges that agree open the same call if the next number is the same. -/
theorem Agree.openCall (hagree : Agree h x y) (hlt : 0 < x.tables.length) (hlt' : 0 < y.tables.length)
    (hnext : (y.table Session.shared).nextId = (x.table Session.shared).nextId) :
    (Client.openCall Session.shared s y).1 = (Client.openCall Session.shared s x).1 ∧
      Agree h (Client.openCall Session.shared s x).2 (Client.openCall Session.shared s y).2 := by
  have hsizes := hagree.sizes
  simp only [Exchange.sizes, Prod.mk.injEq] at hsizes
  obtain ⟨hsignals, hqueues, hcontrols, htables⟩ := hsizes
  have hlistener : Client.nextListener Session.shared s y = Client.nextListener Session.shared s x := by
    simp only [Client.nextListener, hnext, hqueues, hcontrols]
  refine ⟨hlistener, ?_⟩
  constructor
  case sizes => rw [Client.sizes_openCall, Client.sizes_openCall, hsignals, hqueues, hcontrols, htables]
  case queue =>
    intro q hq
    rw [Client.queue_openCall, Client.queue_openCall, hlistener, hagree.queue q hq]
  case control =>
    intro k hk
    rw [Client.control_openCall, Client.control_openCall, hlistener, hsignals, hagree.control k hk]
  case cancels =>
    intro k
    rw [Client.control_openCall, Client.control_openCall, hlistener, hsignals]
    split
    · rfl
    · exact hagree.cancels k
  case owners =>
    intro k
    rw [Client.control_openCall, Client.control_openCall, hlistener, hsignals]
    split
    · rfl
    · exact hagree.owners k
  case fired =>
    exact fun s hs => by rw [Client.fired_openCall, Client.fired_openCall, hagree.fired s hs]
  case lastId =>
    intro t
    rw [Client.table_openCall hlt, Client.table_openCall hlt']
    split
    · exact hnext
    · exact hagree.lastId t
  case entries =>
    intro t e he
    rw [Client.table_openCall hlt, Client.table_openCall hlt', hlistener]
    split
    case isTrue ht => simp only [Table.register, List.mem_append, hagree.entries _ e he, hnext]
    case isFalse => exact hagree.entries t e he

end Exchange

/-- Whatever a reader of a visible call does, it does alike. -/
theorem Reader.respects_act {l : Listener} {r : Reader} (hon : r.On l) (a : Act) (hq : ¬ h.queue l.queue)
    (hc : ¬ h.control l.control) (hs : ¬ h.signal l.shutdown) : Respects h (r.act a) := by
  cases r with
  | answered | dropped => cases a <;> exact .pure _
  | handle l' =>
    cases hon
    cases a with
    | drop => exact .bind (Listener.respects_release hq hc) fun _ => .pure _
    | _ => exact .pure _
  | waiting w =>
    cases hon
    cases a with
    | poll now => exact .bind (Waiting.respects_read now hq hc hs) fun _ => .pure _
    | drop => exact .bind (Listener.respects_release hq hc) fun _ => .pure _
    | _ => exact .pure _
  | subscription s =>
    obtain ⟨hq, hc, hs⟩ := Subscription.visible_of_follows (s := ⟨l, false⟩) hon hq hc hs
    cases a with
    | next => exact .bind (Subscription.respects_read hq hc hs) fun _ => .pure _
    | nextDecoded decode =>
      exact Subscription.respects_readDecoded
        (k := fun read decoded => pure (read, Reader.subscription (decoded.elim s Prod.fst))) decode hq hc hs
        fun _ _ => .pure _
    | close => exact .bind (Subscription.respects_close hq hc) fun _ => .pure _
    | drop => exact .bind (Listener.respects_release hq hc) fun _ => .pure _
    | _ => exact .pure _

end Switchboard
