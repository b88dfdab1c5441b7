import Switchboard.Proofs.Session.Outstanding
/-!
The books of a session: what has been delivered under the number of a call, what its reader has read, and what
is still in its queue.
-/
namespace Switchboard.Session

open Exchange

variable {start : RequestId} {x y : Exchange} {clients : List Client} {calls : List Call}
  {history events : List Event} {call : Call} {client : Client} {c : ClientId} {i : Nat} {id : RequestId}
  {f : Fragment} {d : Delivery}

/-- The fragments that have been delivered under a number. -/
def delivered (history : List Event) (id : RequestId) : List Fragment :=
  history.filterMap fun
    | .delivery f .delivered => if f.requestId = id then some f else none
    | _ => none

/-- The fragments that the reader of the call with an index has read. -/
def readBy (history : List Event) (i : Nat) : List Fragment :=
  history.filterMap fun
    | .read j f => if j = i then some f else none
    | _ => none

/-- The numbers under which calls have been issued. -/
def issued (history : List Event) : List RequestId :=
  history.filterMap fun
    | .issued id => some id
    | _ => none

/-- No delivery is accepted but under a number under which a call has been issued before, and that nothing on
record has ended since. -/
def Timely (history : List Event) : Prop :=
  ∀ before f d after, history = before ++ .delivery f d :: after → d ≠ .unknownRequest →
    f.requestId ∈ issued before ∧ ∀ e ∈ before, e.ends f.requestId = false

@[simp] theorem delivered_append :
    delivered (history ++ events) id = delivered history id ++ delivered events id :=
  List.filterMap_append

@[simp] theorem readBy_append : readBy (history ++ events) i = readBy history i ++ readBy events i :=
  List.filterMap_append

@[simp] theorem issued_append : issued (history ++ events) = issued history ++ issued events :=
  List.filterMap_append

@[simp] theorem delivered_delivery :
    delivered [.delivery f d] id = if d = .delivered ∧ f.requestId = id then [f] else [] := by
  cases d with
  | delivered => by_cases hid : f.requestId = id <;> simp [delivered, hid]
  | _ => rfl

@[simp] theorem delivered_reads (read : List Fragment) : delivered (read.map (.read i)) id = [] := by
  simp [delivered]

@[simp] theorem readBy_reads (read : List Fragment) (j : Nat) :
    readBy (read.map (.read j)) i = if j = i then read else [] := by
  by_cases hij : j = i
  · simp [readBy, hij]
  · simp [readBy, hij]

@[simp] theorem issued_reads (read : List Fragment) : issued (read.map (.read i)) = [] := by
  simp [issued]

namespace Timely

theorem append (h : Timely history)
    (hevents : ∀ before f d after, events = before ++ .delivery f d :: after → d ≠ .unknownRequest →
      f.requestId ∈ issued (history ++ before) ∧ ∀ e ∈ history ++ before, e.ends f.requestId = false) :
    Timely (history ++ events) := by
  intro before f d after heq
  obtain ⟨more, rfl, hmore⟩ | ⟨rest, rfl, hrest⟩ := List.append_eq_append_iff.1 heq
  · exact hevents more f d after hmore
  · cases rest with
    | nil => simpa using hevents [] f d after hrest.symm
    | cons e rest =>
      rw [List.cons_append] at hrest
      obtain ⟨rfl, -⟩ := List.cons.inj hrest
      exact h before f d rest rfl

/-- What is no delivery can be put on record. -/
theorem append_of_quiet (h : Timely history) (hquiet : ∀ f d, Event.delivery f d ∉ events) :
    Timely (history ++ events) := by
  refine h.append fun before f d after heq => absurd ?_ (hquiet f d)
  rw [heq]
  simp

theorem delivery (h : Timely history)
    (hd : d ≠ .unknownRequest →
      f.requestId ∈ issued history ∧ ∀ e ∈ history, e.ends f.requestId = false) :
    Timely (history ++ [.delivery f d]) := by
  refine h.append fun before f' d' after heq => ?_
  cases before with
  | nil =>
    cases heq
    simpa using hd
  | cons => simp at heq

/-- Nothing has been delivered under a number that has not been given out. -/
theorem delivered_eq_nil (h : Timely history) (hid : id ∉ issued history) : delivered history id = [] := by
  rw [List.eq_nil_iff_forall_not_mem]
  intro f hf
  obtain ⟨e, he, heq⟩ := List.mem_filterMap.1 hf
  cases e with
  | delivery f' d =>
    cases d with
    | delivered =>
      simp only [Option.ite_none_right_eq_some] at heq
      obtain ⟨rfl, -⟩ := heq
      obtain ⟨before, after, rfl⟩ := List.append_of_mem he
      rw [issued_append, List.mem_append] at hid
      exact hid (.inl (h before f' _ after rfl (by simp)).1)
    | _ => cases heq
  | _ => cases heq

end Timely

/-- The books of one call. What has been read comes first in what has been delivered. The rest of that is in
the queue, unless the reading end has been given up; a wait that has come to the result of its call leaves no
rest. -/
structure Balanced (x : Exchange) (history : List Event) (i : Nat) (call : Call) : Prop where
  read : readBy history i <+: delivered history call.listener.id
  rest : call.reader.isGone = false →
    delivered history call.listener.id = readBy history i ++ (x.queue call.listener.queue).fragments
  answered : ∀ r, call.reader = .answered r → Waiting.OfCall r →
    readBy history i = delivered history call.listener.id

/-- The books of a session. -/
structure Ledger (x : Exchange) (calls : List Call) (history : List Event) : Prop where
  call : ∀ (i : Nat) (call : Call), calls[i]? = some call → Balanced x history i call
  unread : ∀ i, calls.length ≤ i → readBy history i = []
  issued : issued history = calls.map fun call => call.listener.id
  timely : Timely history

/-- What concerns other calls leaves the books of a call alone. -/
theorem Balanced.keep (h : Balanced x history i call)
    (hqueue : (y.queue call.listener.queue).fragments = (x.queue call.listener.queue).fragments)
    (hdelivered : delivered events call.listener.id = []) (hread : readBy events i = []) :
    Balanced y (history ++ events) i call := by
  constructor
  case read => simpa [hdelivered, hread] using h.read
  case rest => simpa [hdelivered, hread, hqueue] using h.rest
  case answered => simpa [hdelivered, hread] using h.answered

/-- What takes nothing out of the queues and delivers nothing leaves all books alone. -/
theorem Ledger.keep (h : Ledger x calls history)
    (hqueue : ∀ q, (y.queue q).fragments = (x.queue q).fragments)
    (hdelivered : ∀ id, delivered events id = []) (hread : ∀ i, readBy events i = [])
    (hissued : Session.issued events = []) (hquiet : ∀ f d, Event.delivery f d ∉ events) :
    Ledger y calls (history ++ events) where
  call i call hi := (h.call i call hi).keep (hqueue _) (hdelivered _) (hread i)
  unread i hi := by rw [readBy_append, h.unread i hi, hread, List.append_nil]
  issued := by rw [issued_append, h.issued, hissued, List.append_nil]
  timely := h.timely.append_of_quiet hquiet

theorem Ledger.of_fragments (h : Ledger x calls history)
    (hqueue : ∀ q, (y.queue q).fragments = (x.queue q).fragments) : Ledger y calls history := by
  have hkept : Ledger y calls (history ++ []) :=
    h.keep hqueue (fun _ => rfl) (fun _ => rfl) rfl fun _ _ => List.not_mem_nil
  rwa [List.append_nil] at hkept

theorem ledger_start (lastId : RequestId) : Ledger (Session.start lastId).world.exchange [] [] where
  call := by simp
  unread _ _ := rfl
  issued := rfl
  timely before f d after heq := by simp at heq

theorem ids_set (hi : calls[i]? = some call) (reader : Reader) :
    (calls.set i { call with reader }).map (fun call => call.listener.id) =
      calls.map fun call => call.listener.id := by
  obtain ⟨hlt, rfl⟩ := List.getElem?_eq_some_iff.1 hi
  have hlt' : i < (calls.map fun call => call.listener.id).length := by simpa using hlt
  have hsame := List.set_getElem_self hlt'
  rw [List.getElem_map] at hsame
  rw [List.map_set, hsame]

section Reading

variable {r : Reader} {l : Listener}

/-- A reader that has given its end up does nothing more. -/
theorem act_of_gone (a : Act) (hgone : r.isGone = true) : r.act a x = (([], r), x) := by
  cases r with
  | answered | dropped => cases a <;> rfl
  | _ => cases hgone

/-- A reader that has come to the result of its call has read all that was left. -/
theorem act_answered {a : Act} (hon : r.On l) (hstill : r.isGone = false)
    {result : Except ClientError Bytes} (hanswered : (r.act a x).1.2 = .answered result)
    (hresult : Waiting.OfCall result) : (r.act a x).1.1 = (x.queue l.queue).fragments := by
  cases r with
  | answered | dropped => cases hstill
  | handle l' => cases a <;> cases hanswered
  | subscription s => cases a <;> cases hanswered
  | waiting w =>
    cases a with
    | poll now =>
      cases hon
      simp only [Reader.act, stateM_bind, stateM_pure] at hanswered ⊢
      cases hread : (w.read now x).1.2.2 with
      | none =>
        rw [hread] at hanswered
        cases hanswered
      | some result' =>
        rw [hread] at hanswered
        cases hanswered
        exact w.readAtMost_of_call now _ x hread hresult
    | _ => cases hanswered

end Reading

namespace Ledger

variable (h : Sound start x clients calls history) (hledger : Ledger x calls history)
include h hledger

theorem act (hi : calls[i]? = some call) (a : Act) :
    Ledger (call.reader.act a x).2 (calls.set i { call with reader := (call.reader.act a x).1.2 })
      (history ++ (call.reader.act a x).1.1.map (.read i)) := by
  have hlt := (List.getElem?_eq_some_iff.1 hi).1
  obtain ⟨hreads, -⟩ := h.act_reads hi a
  constructor
  case call =>
    intro j d hd
    obtain ⟨rfl, rfl⟩ | ⟨hji, hd⟩ := eq_or_of_getElem?_set hd
    · have hbalanced := hledger.call j call hi
      cases hgone : call.reader.isGone with
      | true =>
        rw [act_of_gone a hgone]
        exact hbalanced.keep rfl rfl rfl
      | false =>
        have hrest := hbalanced.rest hgone
        constructor
        case read =>
          simp only [delivered_append, delivered_reads, List.append_nil, readBy_append, readBy_reads,
            if_pos, hrest]
          exact (List.prefix_append_right_inj _).2 hreads.taken
        case rest =>
          intro hstill
          have hleft := hreads.left hstill
          simp only [delivered_append, delivered_reads, List.append_nil, readBy_append, readBy_reads,
            if_pos, hrest, List.append_assoc]
          rw [hleft]
        case answered =>
          intro r hanswered hresult
          have hall := act_answered (h.call j call hi).reader hgone hanswered hresult
          simp only [delivered_append, delivered_reads, List.append_nil, readBy_append, readBy_reads,
            if_pos, hrest, hall]
    · have hapart := h.apart_calls hi hd (Ne.symm hji)
      refine (hledger.call j d hd).keep ?_ (delivered_reads _) (by simp [Ne.symm hji])
      rw [hreads.onward.queue _ hapart.queue]
  case unread =>
    intro j hj
    rw [List.length_set] at hj
    rw [readBy_append, hledger.unread j hj, readBy_reads, if_neg (by omega), List.append_nil]
  case issued =>
    rw [issued_append, hledger.issued, issued_reads, List.append_nil, ids_set hi]
  case timely => exact hledger.timely.append_of_quiet (by simp)

/-- A delivery puts its fragment at the end of the queue of its call, or is not put down as delivered. -/
theorem deliver (f : Fragment) :
    Ledger ((Switchboard.deliver shared f).run x).2 calls
      (history ++ [.delivery f ((Switchboard.deliver shared f).run x).1]) := by
  cases hfind : (x.table shared).find? f.requestId with
  | none =>
    rw [deliver_of_absent hfind]
    constructor
    case call => exact fun i call hi => (hledger.call i call hi).keep rfl (by simp) rfl
    case unread =>
      intro i hi
      rw [readBy_append, hledger.unread i hi]
      rfl
    case issued => simpa [Session.issued] using hledger.issued
    case timely => exact hledger.timely.delivery fun hd => absurd rfl hd
  | some pending =>
    obtain ⟨i, call, hi, hid, hlive, hunended⟩ := h.live_of_find? hfind
    have hdelivers := deliver_of_live hlive hid.symm
    rw [(h.call i call hi).table] at hdelivers
    constructor
    case call =>
      intro j d hj
      by_cases hij : i = j
      · subst hij
        cases hi.symm.trans hj
        have hbalanced := hledger.call i call hi
        have hstill := Reader.isGone_of_active hunended.active
        have hmore : delivered [.delivery f ((Switchboard.deliver shared f).run x).1] call.listener.id =
            if f.status = .streamTerminated then [] else [f] := by
          rw [delivered_delivery, hdelivers.told]
          by_cases hstatus : f.status = .streamTerminated <;> simp [hstatus, hid]
        have hnone : readBy [.delivery f ((Switchboard.deliver shared f).run x).1] i = [] := rfl
        constructor
        case read =>
          rw [readBy_append, hnone, List.append_nil, delivered_append]
          exact hbalanced.read.trans (List.prefix_append _ _)
        case rest =>
          intro _
          rw [readBy_append, hnone, List.append_nil, delivered_append, hmore, hdelivers.queue,
            hbalanced.rest hstill, List.append_assoc]
        case answered =>
          intro r hanswered
          rw [hanswered] at hstill
          cases hstill
      · have hapart := h.apart_calls hi hj hij
        refine (hledger.call j d hj).keep ?_ ?_ rfl
        · rw [hdelivers.onward.queue _ hapart.queue]
        · rw [delivered_delivery, if_neg]
          rintro ⟨-, hsame⟩
          exact hapart.id (by rw [hid, hsame])
    case unread =>
      intro j hj
      rw [readBy_append, hledger.unread j hj]
      rfl
    case issued => simpa [Session.issued] using hledger.issued
    case timely =>
      refine hledger.timely.delivery fun _ => ⟨?_, ?_⟩
      · rw [hledger.issued, ← hid]
        exact List.mem_map_of_mem (List.mem_of_getElem? hi)
      · rw [← hid]
        exact hunended.history

/-- A call is issued with empty books. -/
theorem issue {l : Listener} (hopen : Client.openCall shared client.shutdown x = (l, y)) :
    Ledger y (calls ++ [⟨c, l, .handle l⟩]) (history ++ [.issued l.id]) := by
  obtain ⟨hnext, -⟩ := h.next_id
  have hl : l = Client.nextListener shared client.shutdown x := by
    rw [← Client.openCall_fst, hopen]
  constructor
  case call =>
    intro i d hd
    obtain hd | ⟨rfl, rfl⟩ := getElem?_concat.1 hd
    · have hkeeps := h.openCall_keeps client.shutdown hd
      rw [hopen] at hkeeps
      refine (hledger.call i d hd).keep ?_ rfl rfl
      rw [hkeeps.2.1]
    · have hnew : l.id ∉ Session.issued history := by
        rw [hledger.issued, List.mem_map]
        rintro ⟨call, hmem, hid⟩
        refine h.next_free hmem ?_
        rw [← hnext, hid, hl]
        rfl
      have hdelivered : delivered (history ++ [.issued l.id]) l.id = [] := by
        rw [delivered_append, hledger.timely.delivered_eq_nil hnew]
        rfl
      have hread : readBy (history ++ [.issued l.id]) calls.length = [] := by
        rw [readBy_append, hledger.unread _ (Nat.le_refl _)]
        rfl
      have hqueue : y.queue l.queue = {} := by
        have hopened := Client.queue_openCall (t := shared) (s := client.shutdown) (x := x) (q := l.queue)
        rw [hopen, hl, if_pos rfl, ← hl] at hopened
        exact hopened
      constructor
      case read => rw [hread]; exact List.nil_prefix
      case rest => intro _; rw [hread, hdelivered, hqueue]; rfl
      case answered => intro r hr; cases hr
  case unread =>
    intro i hi
    rw [readBy_append, hledger.unread i (by simp at hi; omega)]
    rfl
  case issued => rw [issued_append, hledger.issued, List.map_append]; rfl
  case timely => exact hledger.timely.append_of_quiet (by simp)

end Ledger

end Switchboard.Session
