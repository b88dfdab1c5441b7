import Switchboard.Proofs.Session.Changes
import Switchboard.Proofs.Session.Clients
/-!
After every run the table holds the outstanding calls and no others, and whoever reads a call that is not in
the table is told that it is over.
-/
namespace Switchboard.Session

open Exchange

variable {start : RequestId} {s : Session}

/-- What holds in every session. -/
def Ground.IsSound (start : RequestId) (g : Ground) : Prop :=
  Sound start g.exchange g.clients g.calls g.history

/-- Each change keeps what holds in every session. -/
theorem Change.sound {g g' : Ground} (hchange : Change g g') (hfew : g'.calls.length < 4294967295)
    (h : g.IsSound start) : g'.IsSound start := by
  cases hchange with
  | act hi a => exact Sound.act h hi a
  | deliver f => exact Sound.deliver h f
  | unsubscribe id => exact Sound.stopDeliveries h id
  | relabel hc htable hshutdown hlifecycle => exact Sound.relabel h hc htable hshutdown hlifecycle
  | destroy hc => exact Sound.destroy h hc
  | join htable hshutdown hlifecycle => exact Sound.join h htable hshutdown hlifecycle
  | issue hc hactive hopen => exact Sound.issue h hc hactive (by simpa using hfew) hopen

/-- What every change keeps holds after every run in which the numbers have not gone round. -/
theorem run_induction {P : Ground → Prop} (lastId : RequestId) (hstart : P (Session.start lastId).ground)
    (hchange : ∀ g g', Change g g' → g.IsSound lastId → g'.IsSound lastId → P g → P g')
    (ops : List Op) (hfew : ((Session.start lastId).run ops).calls.length < 4294967295) :
    ((Session.start lastId).run ops).ground.IsSound lastId ∧ P ((Session.start lastId).run ops).ground := by
  have hchanges := run_changes lastId ops
  have hbound : ((Session.start lastId).run ops).ground.calls.length < 4294967295 := hfew
  generalize ((Session.start lastId).run ops).ground = g at hchanges hbound
  induction hchanges with
  | refl => exact ⟨sound_start lastId, hstart⟩
  | tail _ hlast ih =>
    obtain ⟨hsound, hP⟩ := ih (Nat.lt_of_le_of_lt hlast.length_calls hbound)
    have hsound' := hlast.sound hbound hsound
    exact ⟨hsound', hchange _ _ hlast hsound hsound' hP⟩

theorem sound_run (lastId : RequestId) (ops : List Op)
    (hfew : ((Session.start lastId).run ops).calls.length < 4294967295) :
    ((Session.start lastId).run ops).ground.IsSound lastId :=
  (run_induction (P := fun _ => True) lastId trivial (fun _ _ _ _ _ _ => trivial) ops hfew).1

/-- What the table owes the readers, and they owe the table. The table holds the outstanding calls and no
others; each of its entries has a reader and a client. A call whose queue is still open is in the table, so
that somebody may still wake its reader, and whoever reads a call that is not in the table gets an answer
without waiting. -/
structure Tidy (s : Session) : Prop where
  outstanding : ∀ id, (s.world.exchange.table shared).contains id = true ↔ s.Outstanding id
  wakeable : ∀ call ∈ s.calls, (s.world.exchange.queue call.listener.queue).isClosed = false →
    (s.world.exchange.table shared).contains call.listener.id = true
  owned : ∀ e ∈ (s.world.exchange.table shared).calls, ∃ call ∈ s.calls,
    e = (call.listener.id, call.listener.call) ∧ call.reader.active = true ∧
      lifecycleOf s.world.clients call.client ≠ .destroyed
  answered : ∀ call ∈ s.calls, (s.world.exchange.table shared).contains call.listener.id = false →
    (∀ w now, call.reader = .waiting w → (w.poll now s.world.exchange).1.2.isSome = true) ∧
      ∀ sub, call.reader = .subscription sub → (sub.next s.world.exchange).1.isSome = true

theorem contains_iff_outstanding (h : s.ground.IsSound start) (id : RequestId) :
    (s.world.exchange.table shared).contains id = true ↔ s.Outstanding id := by
  have h : Sound start s.world.exchange s.world.clients s.calls s.history := h
  rw [Table.contains_iff]
  constructor
  · rintro ⟨c, hfind⟩
    obtain ⟨i, call, hi, hid, -, hunended⟩ := h.live_of_find? hfind
    exact ⟨call, List.mem_of_getElem? hi, hid, hunended⟩
  · rintro ⟨call, hmem, rfl, hunended⟩
    obtain ⟨i, hi⟩ := List.getElem?_of_mem hmem
    have hcall := h.call i call hi
    obtain ⟨hlive, -⟩ | ⟨-, hover⟩ := hcall.standing
    · exact ⟨_, hcall.table ▸ hlive.entry⟩
    · exact absurd hunended hover

/-- Nothing leaks into the table, and nobody waits in vain, after any run in which the numbers have not gone
round. -/
theorem table_tidy (lastId : RequestId) (ops : List Op)
    (hfew : ((Session.start lastId).run ops).calls.length < 4294967295) :
    Tidy ((Session.start lastId).run ops) := by
  have hsound := sound_run lastId ops hfew
  generalize (Session.start lastId).run ops = s at hsound
  have h : Sound lastId s.world.exchange s.world.clients s.calls s.history := hsound
  have hclosed : ∀ call ∈ s.calls, (s.world.exchange.table shared).contains call.listener.id = false →
      (s.world.exchange.queue call.listener.queue).isClosed = true := by
    intro call hmem habsent
    obtain ⟨i, hi⟩ := List.getElem?_of_mem hmem
    have hcall := h.call i call hi
    obtain ⟨hlive, -⟩ | ⟨hended, -⟩ := hcall.standing
    · have hentry := hlive.entry
      rw [hcall.table, Table.contains_eq_false_iff.1 habsent] at hentry
      cases hentry
    · exact hended.closed
  constructor
  case outstanding => exact contains_iff_outstanding hsound
  case wakeable =>
    intro call hmem hopen
    cases hcontains : (s.world.exchange.table shared).contains call.listener.id with
    | true => rfl
    | false =>
      rw [hclosed call hmem hcontains] at hopen
      cases hopen
  case owned =>
    intro e he
    obtain ⟨call, hmem, rfl⟩ := h.entries e he
    obtain ⟨i, call', hi, hid, -, hunended⟩ := h.live_of_find? (h.keyed.find?_eq_some_iff.2 he)
    have hsame : call = call' := by
      obtain ⟨j, hj⟩ := List.getElem?_of_mem hmem
      by_contra hne
      have hij : i ≠ j := by
        rintro rfl
        exact hne (Option.some.inj (hj.symm.trans hi))
      exact (h.apart_calls hi hj hij).id hid.symm
    subst hsame
    exact ⟨call, hmem, rfl, hunended.active, hunended.client⟩
  case answered =>
    intro call hmem habsent
    obtain ⟨i, hi⟩ := List.getElem?_of_mem hmem
    have hon := (h.call i call hi).reader
    have hqueue := hclosed call hmem habsent
    refine ⟨fun w now hreader => ?_, fun sub hreader => ?_⟩
    · rw [hreader] at hon
      have hlistener : w.listener = call.listener := hon
      rw [← hlistener] at hqueue
      exact w.read_of_closed now s.world.exchange hqueue
    · rw [hreader] at hon
      have hsame : sub.listener.queue = call.listener.queue := Subscription.Follows.queue hon
      rw [← hsame] at hqueue
      exact sub.read_of_closed s.world.exchange hqueue

/-- An engine that makes context 1 and answers a request for "ticks" with a first event. -/
def ticking : Engine where
  contextResponse := Utf8.encode "\x7b\"result\":1\x7d"
  routes := [("ticks", [⟨100, some [49], false, none⟩])]

/-- Two clients issue three calls; then the second call ends, the first client is destroyed, and the third
call is read. -/
def twoClients : List Op :=
  [.join ticking, .join ticking, .createContextFrom ⟨0⟩ "", .createContextFrom ⟨1⟩ "",
    .request ⟨0⟩ "ticks" [], .request ⟨1⟩ "ticks" [], .request ⟨1⟩ "ticks" [],
    .deliver ⟨2, [50], .success, true⟩, .destroy ⟨0⟩, .act 2 .subscribe, .act 2 .next]

theorem table_tidy_two_clients :
    Tidy ((Session.start 0).run twoClients) ∧
      ((Session.start 0).run twoClients).world.exchange.table shared = ⟨3, [(3, ⟨⟨2⟩, ⟨2⟩⟩)]⟩ := by
  have hcalls : ((Session.start 0).run twoClients).calls.length = 3 := by decide +kernel
  exact ⟨table_tidy 0 twoClients (by omega), by decide +kernel⟩

end Switchboard.Session
