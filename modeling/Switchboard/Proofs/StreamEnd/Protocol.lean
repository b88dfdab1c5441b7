import Switchboard.Proofs.Exchange.Opening
import Switchboard.Proofs.StreamEnd.Basic
/-!
The protocol that everybody keeps to with regard to one call. A delivery that takes the call out of the table holds
it, and only a holder can claim it for its completion; anybody else can cancel it until then. How a party stands
to the call is not part of any state.
-/
namespace Switchboard.StreamEnd

open Exchange

variable {l : Listener} {x y : Exchange} {w w' : World} {q : QueueId} {c : ControlId} {s : SignalId}

/-- The parts of a call are there, and no other call has its control or its cancel signal. -/
structure Setting (l : Listener) (x : Exchange) : Prop where
  entries : ∀ e ∈ (x.table l.table).calls, e.2.control = l.control → e = (l.id, l.call)
  cancels : ∀ c, c ≠ l.control → c.index < x.controls.length →
    (x.control c).cancel ≠ (x.control l.control).cancel
  control : l.control.index < x.controls.length
  cancel : (x.control l.control).cancel.index < x.signals.length
  table : l.table.index < x.tables.length

/-- A call is in its table. -/
abbrev Registered (l : Listener) (x : Exchange) : Prop := (l.id, l.call) ∈ (x.table l.table).calls

/-- A step leaves a call alone: it does not bring it into the table, and changes neither who has claimed it nor
its cancel signal. -/
structure Spares (l : Listener) (x y : Exchange) : Prop where
  setting : Setting l x → Setting l y
  registered : Registered l y → Registered l x
  claim : (y.control l.control).claim = (x.control l.control).claim
  cancel : (y.control l.control).cancel = (x.control l.control).cancel
  fired : y.fired (x.control l.control).cancel = x.fired (x.control l.control).cancel

theorem Setting.keep (h : Setting l x) (hsizes : y.sizes = x.sizes)
    (hcancels : ∀ c, (y.control c).cancel = (x.control c).cancel)
    (hentries : (y.table l.table).calls ⊆ (x.table l.table).calls) : Setting l y := by
  obtain ⟨hsignals, -, hcontrols, htables⟩ : y.signals.length = x.signals.length ∧
      y.queues.length = x.queues.length ∧ y.controls.length = x.controls.length ∧
      y.tables.length = x.tables.length := by simpa [sizes] using hsizes
  constructor
  case entries => exact fun e he => h.entries e (hentries he)
  case cancels =>
    intro c hc hlt
    rw [hcancels, hcancels]
    exact h.cancels c hc (hcontrols ▸ hlt)
  case control => rw [hcontrols]; exact h.control
  case cancel => rw [hcancels, hsignals]; exact h.cancel
  case table => rw [htables]; exact h.table

theorem Spares.refl (l : Listener) (x : Exchange) : Spares l x x := ⟨id, id, rfl, rfl, rfl⟩

section Steps

variable {α : Type}

theorem spares_onQueue {f : Queue → α × Queue} : Spares l x (onQueue q f x).2 :=
  ⟨fun h => h.keep sizes_onQueue (fun _ => rfl) fun _ he => he, id, rfl, rfl, rfl⟩

/-- A step on a table that takes entries out of it. -/
theorem spares_onTable {t : TableId} {f : Table → α × Table} (hf : ∀ table, (f table).2.calls ⊆ table.calls) :
    Spares l x (onTable t f x).2 :=
  have hentries := calls_onTable_subset hf
  ⟨fun h => h.keep sizes_onTable (fun _ => rfl) hentries, fun h => hentries h, rfl, rfl, rfl⟩

theorem spares_resolve {t : TableId} {id : RequestId} {removing : Bool} :
    Spares l x (resolve t id removing x).2 := by
  refine spares_onTable fun table => ?_
  cases removing with
  | true => exact List.filter_sublist.subset
  | false => exact fun _ he => he

theorem spares_remove {t : TableId} {id : RequestId} : Spares l x (remove t id x).2 :=
  spares_onTable fun _ => List.filter_sublist.subset

theorem spares_removeOwned {t : TableId} : Spares l x (removeOwned t s x).2 :=
  spares_onTable fun _ => List.filter_sublist.subset

theorem spares_fire (hs : s ≠ (x.control l.control).cancel) : Spares l x (fire s x).2 := by
  refine ⟨fun h => h.keep sizes_fire (fun _ => rfl) fun _ he => he, id, rfl, rfl, ?_⟩
  rw [fired_fire, if_neg fun h => hs h.1.symm]

theorem setting_claimCompletion (h : Setting l x) : Setting l (claimCompletion c x).2 := by
  refine h.keep sizes_claimCompletion (fun c' => ?_) (by simp)
  rw [control_claimCompletion]
  split
  case isTrue h' => rw [h'.1]
  case isFalse => rfl

/-- Claiming another call. -/
theorem spares_claimCompletion (hc : c ≠ l.control) : Spares l x (claimCompletion c x).2 := by
  have hcontrol : (claimCompletion c x).2.control l.control = x.control l.control := by
    rw [control_claimCompletion, if_neg fun h => hc h.1.symm]
  constructor
  case setting => exact setting_claimCompletion
  case registered => rw [Registered, table_claimCompletion]; exact id
  case claim => rw [hcontrol]
  case cancel => rw [hcontrol]
  case fired => rw [fired_claimCompletion]

@[simp] theorem cancel_claimCancellation (k : ControlId) :
    ((claimCancellation c x).2.control k).cancel = (x.control k).cancel := by
  rw [control_claimCancellation]
  split
  case isTrue h => rw [h.1]
  case isFalse => rfl

theorem setting_claimCancellation (h : Setting l x) : Setting l (claimCancellation c x).2 :=
  h.keep sizes_claimCancellation cancel_claimCancellation (by simp)

/-- Cancelling another call. -/
theorem spares_claimCancellation (h : Setting l x) (hc : c ≠ l.control) :
    Spares l x (claimCancellation c x).2 := by
  have hcontrol : (claimCancellation c x).2.control l.control = x.control l.control := by
    rw [control_claimCancellation, if_neg fun h' => hc h'.1.symm]
  constructor
  case setting => exact setting_claimCancellation
  case registered => rw [Registered, table_claimCancellation]; exact id
  case claim => rw [hcontrol]
  case cancel => rw [hcontrol]
  case fired =>
    by_cases hfree : (x.control c).claim = .free
    · exact fired_claimCancellation (h.cancels c hc (lt_of_claim_free hfree)).symm
    · rw [claimCancellation_of_claimed hfree]

/-- A call that is opened has a control and a cancel signal of its own. -/
theorem spares_openCall (h : Setting l x) : Spares l x (Client.openCall l.table s x).2 := by
  have hother : l.control ≠ (Client.nextListener l.table s x).control := by
    intro heq
    have hindex : l.control.index = x.controls.length := congrArg ControlId.index heq
    have hlt := h.control
    omega
  have hcontrol : (Client.openCall l.table s x).2.control l.control = x.control l.control := by
    rw [Client.control_openCall, if_neg hother]
  have hentries : ((Client.openCall l.table s x).2.table l.table).calls = (x.table l.table).calls ++
      [((x.table l.table).nextId, (Client.nextListener l.table s x).call)] := by
    rw [Client.table_openCall h.table, if_pos rfl]
    rfl
  obtain ⟨hsignals, -, hcontrols, htables⟩ : (Client.openCall l.table s x).2.signals.length =
      x.signals.length + 1 ∧ (Client.openCall l.table s x).2.queues.length = x.queues.length + 1 ∧
      (Client.openCall l.table s x).2.controls.length = x.controls.length + 1 ∧
      (Client.openCall l.table s x).2.tables.length = x.tables.length := by
    simpa [sizes] using Client.sizes_openCall (t := l.table) (s := s) (x := x)
  constructor
  case setting =>
    intro _
    constructor
    case entries =>
      intro e he hsame
      rw [hentries, List.mem_append, List.mem_singleton] at he
      obtain he | rfl := he
      · exact h.entries e he hsame
      · exact absurd hsame.symm hother
    case cancels =>
      intro c hc hlt
      rw [hcontrol, Client.control_openCall]
      split
      case isTrue =>
        intro heq
        have hindex : x.signals.length = (x.control l.control).cancel.index := congrArg SignalId.index heq
        have hcancel := h.cancel
        omega
      case isFalse hnew =>
        refine h.cancels c hc (Nat.lt_of_le_of_ne (by omega) fun heq => hnew ?_)
        cases c
        cases heq
        rfl
    case control => have hlt := h.control; omega
    case cancel => have hlt := h.cancel; rw [hcontrol]; omega
    case table => rw [htables]; exact h.table
  case registered =>
    intro hmem
    rw [Registered, hentries, List.mem_append, List.mem_singleton] at hmem
    obtain hmem | heq := hmem
    · exact hmem
    · exact absurd (congrArg (fun e : RequestId × PendingCall => e.2.control) heq) hother
  case claim => rw [hcontrol]
  case cancel => rw [hcontrol]
  case fired => exact Client.fired_openCall _

end Steps

/-- How a party stands to the call: it has nothing of it in its hands, it has cancelled it, it holds it to deliver
its last fragment, or it has claimed it for its completion by that fragment. -/
inductive Stand where
  | apart
  | cancelled
  | holds (f : Fragment)
  | completes (f : Fragment)

namespace Stand

/-- The call is in the party's hands. -/
def holder : Stand → Bool
  | .holds _ | .completes _ => true
  | .apart | .cancelled => false

/-- What a party can rely on. -/
def Fits (l : Listener) (x : Exchange) : Stand → Prop
  | .apart => True
  | .cancelled => (x.control l.control).claim = .cancelled
  | .holds _ => ¬ Registered l x ∧ (x.control l.control).claim ≠ .completing
  | .completes f => f.finished = true ∧ ¬ Registered l x ∧ (x.control l.control).claim = .completing

theorem Fits.gone {t : Stand} (h : t.Fits l x) (hholder : t.holder = true) : ¬ Registered l x := by
  cases t with
  | holds f => exact h.1
  | completes f => exact h.2.1
  | apart | cancelled => cases hholder

end Stand

/-- The moves of the protocol. -/
inductive Moves (l : Listener) : Stand → Exchange → Exchange → Stand → Prop where
  | spares {t : Stand} {x y : Exchange} (h : Spares l x y) : Moves l t x y t
  | takes {t : Stand} {f : Fragment} {x y : Exchange} (ht : t.holder = false) (h : Spares l x y)
      (hregistered : Registered l x) (hgone : ¬ Registered l y) : Moves l t x y (.holds f)
  | completes {f : Fragment} {x : Exchange} (hfinished : f.finished = true)
      (hfree : (x.control l.control).claim = .free) :
      Moves l (.holds f) x (claimCompletion l.control x).2 (.completes f)
  | cancels {t : Stand} {x : Exchange} (ht : t.holder = false)
      (hopen : (x.control l.control).claim ≠ .completing) :
      Moves l t x (claimCancellation l.control x).2 .cancelled

/-- Which answers befit a stand: who says that it has cancelled the call has, and who tells of the end of the stream
has a fragment that says so, and not one that is marked as finished unless it has claimed the call. -/
structure Befits (k : ControlId) (t : Stand) (a : Answer) : Prop where
  cancelled : a.cancels k = true → t = .cancelled
  last : ∀ f, a = .delivery f .terminated → f.status = .streamTerminated
  unfinished : ∀ f g, a = .delivery f .terminated → t = .holds g → g.finished = false

/-- The tables and the shutdown signals of all clients. -/
def belongings (w : World) : List (TableId × SignalId) := w.clients.map fun c => (c.table, c.shutdown)

/-- What everybody can rely on in a world: the cancel signal of the call, and which tables and signals the clients
have. -/
structure Scene (l : Listener) (k : SignalId) (clients : List (TableId × SignalId)) (w : World) : Prop where
  setting : Setting l w.exchange
  cancel : (w.exchange.control l.control).cancel = k
  clients : belongings w = clients

/-- A move in a world. -/
def Acts (l : Listener) (t : Stand) (w w' : World) (t' : Stand) : Prop :=
  Moves l t w.exchange w'.exchange t' ∧ belongings w' = belongings w

/-- What holds throughout: one party at most holds the call, and what each can rely on in its stand. -/
structure Inv (l : Listener) (x : Exchange) (stands : List Stand) : Prop where
  setting : Setting l x
  fired : x.fired (x.control l.control).cancel = true ↔ (x.control l.control).claim = .cancelled
  completing : (x.control l.control).claim = .completing → ¬ Registered l x
  one : ∀ (i j : Nat) (t t' : Stand), stands[i]? = some t → stands[j]? = some t' →
    t.holder = true → t'.holder = true → i = j
  fits : ∀ (i : Nat) (t : Stand), stands[i]? = some t → t.Fits l x

section Keeping

variable {t t' r : Stand} {stands : List Stand} {i j : Nat}

theorem Spares.fits (hspares : Spares l x y) (h : t.Fits l x) : t.Fits l y := by
  have hgone (h : ¬ Registered l x) : ¬ Registered l y := fun hafter => h (hspares.registered hafter)
  cases t with
  | apart => trivial
  | cancelled => exact hspares.claim.trans h
  | holds f => exact ⟨hgone h.1, by rw [hspares.claim]; exact h.2⟩
  | completes f => exact ⟨h.1, hgone h.2.1, hspares.claim.trans h.2.2⟩

/-- Cancelling a call that has not been claimed for its completion. -/
theorem cancelled_of_open (hopen : (x.control l.control).claim ≠ .completing) :
    ((claimCancellation l.control x).2.control l.control).claim = .cancelled := by
  cases hclaim : (x.control l.control).claim with
  | free => simp [hclaim]
  | completing => exact absurd hclaim hopen
  | cancelled => simp [hclaim]

theorem fired_of_open (hsetting : Setting l x) (hopen : (x.control l.control).claim ≠ .completing)
    (hfired : x.fired (x.control l.control).cancel = true ↔ (x.control l.control).claim = .cancelled) :
    (claimCancellation l.control x).2.fired (x.control l.control).cancel = true := by
  cases hclaim : (x.control l.control).claim with
  | free => rw [fired_claimCancellation_of_free hclaim, if_pos ⟨rfl, hsetting.cancel⟩]
  | completing => exact absurd hclaim hopen
  | cancelled =>
    rw [claimCancellation_of_claimed (by simp [hclaim])]
    exact hfired.2 hclaim

/-- After a move a party can rely on what fits its new stand. -/
theorem Moves.fits (hmove : Moves l t x y t') (hfits : t.Fits l x)
    (hcompleting : (x.control l.control).claim = .completing → ¬ Registered l x) : t'.Fits l y := by
  cases hmove with
  | spares hspares => exact hspares.fits hfits
  | takes _ hspares hregistered hgone =>
    refine ⟨hgone, ?_⟩
    rw [hspares.claim]
    exact fun hclaim => hcompleting hclaim hregistered
  | completes hfinished hfree =>
    refine ⟨hfinished, ?_, by simp [hfree]⟩
    rw [Registered, table_claimCompletion]
    exact hfits.1
  | cancels ht hopen => exact cancelled_of_open hopen

/-- A move of another leaves a party what it relies on. -/
theorem Moves.fits_other (hmove : Moves l t x y t') (hfits : r.Fits l x)
    (hother : t.holder = true → r.holder = false) : r.Fits l y := by
  cases hmove with
  | spares hspares => exact hspares.fits hfits
  | takes _ hspares => exact hspares.fits hfits
  | completes hfinished hfree =>
    cases r with
    | apart => trivial
    | cancelled =>
      rw [Stand.Fits, hfree] at hfits
      cases hfits
    | holds | completes => cases hother rfl
  | cancels ht hopen =>
    have hsame : Registered l (claimCancellation l.control x).2 ↔ Registered l x := by
      rw [Registered, table_claimCancellation]
    have hcancelled := cancelled_of_open hopen
    cases r with
    | apart => trivial
    | cancelled => exact hcancelled
    | holds f => exact ⟨fun h => hfits.1 (hsame.1 h), by rw [hcancelled]; exact Claim.noConfusion⟩
    | completes f => exact absurd hfits.2.2 hopen

theorem Moves.holder (hmove : Moves l t x y t') (hholder : t'.holder = true) :
    t.holder = true ∨ Registered l x := by
  cases hmove with
  | spares => exact .inl hholder
  | takes _ _ hregistered => exact .inr hregistered
  | completes => exact .inl rfl
  | cancels => cases hholder

theorem Moves.cancel (hmove : Moves l t x y t') :
    (y.control l.control).cancel = (x.control l.control).cancel := by
  cases hmove with
  | spares hspares => exact hspares.cancel
  | takes _ hspares => exact hspares.cancel
  | completes =>
    rw [control_claimCompletion]
    split <;> rfl
  | cancels => exact cancel_claimCancellation l.control

variable (h : Inv l x stands) (hi : stands[i]? = some t) (hmove : Moves l t x y t')
include h hi hmove

/-- A party that has just taken the call is the only one that holds it. -/
theorem Inv.eq_of_holder (hholder : t'.holder = true) (hj : stands[j]? = some r) (hr : r.holder = true) :
    j = i := by
  obtain hbefore | hregistered := hmove.holder hholder
  · exact h.one j i r t hj hi hr hbefore
  · exact absurd hregistered ((h.fits j r hj).gone hr)

theorem Inv.one_after {k : Nat} {r' : Stand} (hj : (stands.set i t')[j]? = some r)
    (hk : (stands.set i t')[k]? = some r') (hr : r.holder = true) (hr' : r'.holder = true) : j = k := by
  obtain ⟨rfl, rfl⟩ | ⟨-, hoj⟩ := eq_or_of_getElem?_set hj
  · obtain ⟨rfl, -⟩ | ⟨-, hok⟩ := eq_or_of_getElem?_set hk
    · rfl
    · exact (h.eq_of_holder hi hmove hr hok hr').symm
  · obtain ⟨rfl, rfl⟩ | ⟨-, hok⟩ := eq_or_of_getElem?_set hk
    · exact h.eq_of_holder hi hmove hr' hoj hr
    · exact h.one j k r r' hoj hok hr hr'

theorem Inv.fits_after (hj : (stands.set i t')[j]? = some r) : r.Fits l y := by
  obtain ⟨rfl, rfl⟩ | ⟨hji, hj⟩ := eq_or_of_getElem?_set hj
  · exact hmove.fits (h.fits j t hi) h.completing
  · refine hmove.fits_other (h.fits j r hj) fun ht => ?_
    by_contra hr
    exact hji (h.one j i r t hj hi (by simpa using hr) ht)

/-- Each move keeps what holds throughout. -/
theorem Inv.move : Inv l y (stands.set i t') := by
  have hone (j k : Nat) (r r' : Stand) (hj : (stands.set i t')[j]? = some r)
      (hk : (stands.set i t')[k]? = some r') := h.one_after hi hmove hj hk
  have hfits (j : Nat) (r : Stand) (hj : (stands.set i t')[j]? = some r) := h.fits_after hi hmove hj
  have hspared (hspares : Spares l x y) : Inv l y (stands.set i t') := by
    refine ⟨hspares.setting h.setting, ?_, fun hclaim hafter => ?_, hone, hfits⟩
    · rw [hspares.cancel, hspares.fired, hspares.claim]
      exact h.fired
    · exact h.completing (hspares.claim.symm.trans hclaim) (hspares.registered hafter)
  cases hmove with
  | spares hspares => exact hspared hspares
  | takes _ hspares => exact hspared hspares
  | completes hfinished hfree =>
    refine ⟨setting_claimCompletion h.setting, ?_, fun _ => ?_, hone, hfits⟩
    · have hunfired := h.fired
      rw [hfree] at hunfired
      simpa [hfree] using hunfired
    · rw [Registered, table_claimCompletion]
      exact (h.fits i _ hi).1
  | cancels ht hopen =>
    refine ⟨setting_claimCancellation h.setting, ?_, fun hclaim => ?_, hone, hfits⟩
    · rw [cancel_claimCancellation]
      exact iff_of_true (fired_of_open h.setting hopen h.fired) (cancelled_of_open hopen)
    · rw [cancelled_of_open hopen] at hclaim
      cases hclaim

end Keeping

/-- What holds throughout in a world. -/
def Holds (l : Listener) (k : SignalId) (clients : List (TableId × SignalId)) (w : World) (stands : List Stand) :
    Prop :=
  Scene l k clients w ∧ Inv l w.exchange stands

theorem Holds.acts {k : SignalId} {clients : List (TableId × SignalId)} {stands : List Stand} {i : Nat}
    {t t' : Stand} (h : Holds l k clients w stands) (hi : stands[i]? = some t) (hacts : Acts l t w w' t') :
    Holds l k clients w' (stands.set i t') := by
  obtain ⟨hscene, hinv⟩ := h
  obtain ⟨hmove, hbelongings⟩ := hacts
  have hafter := hinv.move hi hmove
  exact ⟨⟨hafter.setting, hmove.cancel.trans hscene.cancel, hbelongings.trans hscene.clients⟩, hafter⟩

end Switchboard.StreamEnd
