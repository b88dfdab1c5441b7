import Switchboard.Proofs.Session.Errands
import Switchboard.Proofs.Session.Unsubscribing
/-!
Calls are independent of each other: what is done to one of them looks from another one as if it had not been done. So
a call sees the same of a run, whatever is done to other calls in between, and a run may be done in any order that
keeps the order at each call.
-/
namespace Switchboard.Session

open Exchange

variable {s s' s₀ : Session} {e e' : Errand} {call : Call} {i k : Nat} {es es' : List Errand}

/-- Errands are done one after another. -/
def performAll (s : Session) (es : List Errand) : Session := es.foldl perform s

/-- The replies to errands that are done one after another, each with its call. -/
def replies (s : Session) : List Errand → List (Nat × Reply)
  | [] => []
  | e :: es => (e.call, s.reply e) :: (s.perform e).replies es

/-- The parts of all calls but the one with an index. -/
def apartFrom (s : Session) (k : Nat) : Hidden where
  queue q := q.index ≠ k
  control c := c.index ≠ k
  signal σ := ∃ j call, j ≠ k ∧ s.calls[j]? = some call ∧ (s.world.exchange.control call.listener.control).cancel = σ

/-- A session comes after another in which errands have been done: no call has got into the table, and each has its
parts. -/
structure Continues (s₀ s : Session) : Prop where
  coherent : s.ground.IsCoherent
  listener : ∀ (i : Nat) (call : Call), s.calls[i]? = some call →
    ∃ before, s₀.calls[i]? = some before ∧ before.listener = call.listener
  cancels : ∀ c, (s.world.exchange.control c).cancel = (s₀.world.exchange.control c).cancel
  entries : ∀ entry ∈ (s.world.exchange.table shared).calls, entry ∈ (s₀.world.exchange.table shared).calls

theorem Continues.refl (hs : s.ground.IsCoherent) : Continues s s :=
  ⟨hs, fun _ call hi => ⟨call, hi, rfl⟩, fun _ => rfl, fun _ he => he⟩

namespace Continues

variable (h : Continues s₀ s)
include h

theorem unreplaced (hown : s₀.Unreplaced i) : s.Unreplaced i := by
  intro call hi entry hentry hid
  obtain ⟨before, hbefore, hlistener⟩ := h.listener i call hi
  rw [← hlistener] at hid ⊢
  exact hown before hbefore entry (h.entries entry hentry) hid

theorem perform (hown : s₀.Unreplaced e.call) : Continues s₀ (s.perform e) := by
  have hcoherent := coherent_perform h.coherent e
  cases hi : s.calls[e.call]? with
  | none =>
    rw [perform_of_none hi]
    exact h
  | some call =>
    have hperforms := performs h.coherent hi (h.unreplaced hown)
    obtain ⟨reader, hcalls⟩ := hperforms.calls
    have htable := (h.coherent.call _ call hi).table
    refine ⟨hcoherent, fun j d hj => ?_, fun c => ?_, fun entry hentry => h.entries entry ?_⟩
    · rw [hcalls] at hj
      obtain ⟨d', hd', hlistener⟩ := getElem?_set_listener hi hj
      rw [← hlistener]
      exact h.listener j d' hd'
    · rw [hperforms.onward.control_cancel, h.cancels]
    · rw [← htable] at hentry ⊢
      exact hperforms.onward.mem_of_mem (htable ▸ h.coherent.keyed) hentry

theorem performAll (hown : ∀ e ∈ es, s₀.Unreplaced e.call) : Continues s₀ (s.performAll es) := by
  induction es generalizing s with
  | nil => exact h
  | cons e es ih => exact ih (h.perform (hown e List.mem_cons_self)) fun e he => hown e (List.mem_cons_of_mem _ he)

/-- What is done to another call does not show. -/
theorem agreeOn_perform (hown : s₀.Unreplaced e.call) (hother : e.call ≠ k) :
    AgreeOn (s₀.apartFrom k) k s (s.perform e) := by
  cases hi : s.calls[e.call]? with
  | none =>
    rw [perform_of_none hi]
    exact .refl _ _ _
  | some call =>
    have hwired := h.coherent.call _ call hi
    have hperforms := performs h.coherent hi (h.unreplaced hown)
    obtain ⟨reader, hcalls⟩ := hperforms.calls
    obtain ⟨before, hbefore, hlistener⟩ := h.listener _ call hi
    have hqueue : (s₀.apartFrom k).queue call.listener.queue := by
      rw [hwired.queue]
      exact hother
    have hcontrol : (s₀.apartFrom k).control call.listener.control := by
      rw [hwired.control]
      exact hother
    have hcancel : (s₀.apartFrom k).signal (s.world.exchange.control call.listener.control).cancel :=
      ⟨e.call, before, hother, hbefore, by rw [hlistener, h.cancels]⟩
    refine ⟨.of_onward hperforms.onward hqueue hcontrol hcancel ?_ ?_, ?_, hperforms.clients, hperforms.engines⟩
    · rw [hwired.table]
      exact h.coherent.keyed
    · intro entry hentry hid
      rw [hwired.table] at hentry
      rw [h.unreplaced hown call hi entry hentry hid]
      exact hqueue
    · rw [hcalls, List.getElem?_set_ne hother]

/-- The parts of a call show, and the signal of its client. -/
theorem visible (h₀ : s₀.ground.IsCoherent) (hi : s.calls[k]? = some call) :
    ¬ (s₀.apartFrom k).queue call.listener.queue ∧ ¬ (s₀.apartFrom k).control call.listener.control ∧
      ¬ (s₀.apartFrom k).signal call.listener.shutdown := by
  have hwired := h.coherent.call k call hi
  refine ⟨?_, ?_, ?_⟩
  · rw [hwired.queue]
    exact fun hne => hne rfl
  · rw [hwired.control]
    exact fun hne => hne rfl
  · rintro ⟨j, d, -, hj, hcancel⟩
    obtain ⟨before, hbefore, hlistener⟩ := h.listener k call hi
    obtain ⟨client, hclient, hshutdown⟩ := (h₀.call k before hbefore).client
    rw [← hlistener, ← hshutdown] at hcancel
    exact h₀.apart j _ d client hj hclient hcancel.symm

/-- An errand to a call in two sessions that differ in other calls only brings the same reply, and they go on to differ
in other calls only. -/
theorem perform_both (h' : Continues s₀ s') (h₀ : s₀.ground.IsCoherent) (hown : s₀.Unreplaced e.call)
    (hagree : AgreeOn (s₀.apartFrom e.call) e.call s s') :
    s'.reply e = s.reply e ∧ AgreeOn (s₀.apartFrom e.call) e.call (s.perform e) (s'.perform e) := by
  cases hi : s.calls[e.call]? with
  | none =>
    have hi' := hagree.call.trans hi
    rw [reply_of_none hi, reply_of_none hi', perform_of_none hi, perform_of_none hi']
    exact ⟨rfl, hagree⟩
  | some call =>
    obtain ⟨hq, hc, hsignal⟩ := h.visible h₀ hi
    exact hagree.perform h.coherent h'.coherent (h.unreplaced hown) (h'.unreplaced hown) hi hq hc hsignal

end Continues

/-- What a call sees of a run is what it sees of its own errands in it. -/
theorem agreeOn_performAll (hs : Continues s₀ s) (hs' : Continues s₀ s') (h₀ : s₀.ground.IsCoherent)
    (hown : ∀ e ∈ es, s₀.Unreplaced e.call) (hagree : AgreeOn (s₀.apartFrom k) k s s') :
    (s.replies es).filter (fun r => r.1 = k) = s'.replies (es.filter fun e => e.call = k) ∧
      AgreeOn (s₀.apartFrom k) k (s.performAll es) (s'.performAll (es.filter fun e => e.call = k)) := by
  induction es generalizing s s' with
  | nil => exact ⟨rfl, hagree⟩
  | cons e es ih =>
    have howns := hown e List.mem_cons_self
    have hrest := fun e he => hown e (List.mem_cons_of_mem _ he)
    by_cases hother : e.call = k
    · subst hother
      obtain ⟨hreply, hafter⟩ := hs.perform_both hs' h₀ howns hagree
      obtain ⟨hreplies, hend⟩ := ih (hs.perform howns) (hs'.perform howns) hrest hafter
      rw [List.filter_cons_of_pos (by simp)]
      simp only [replies, performAll, List.foldl_cons]
      rw [List.filter_cons_of_pos (by simp), hreply, hreplies]
      exact ⟨rfl, hend⟩
    · obtain ⟨hreplies, hend⟩ := ih (hs.perform howns) hs' hrest ((hs.agreeOn_perform howns hother).symm.trans hagree)
      rw [List.filter_cons_of_neg (by simpa using hother)]
      simp only [replies, performAll, List.foldl_cons]
      rw [List.filter_cons_of_neg (by simpa using hother)]
      exact ⟨hreplies, hend⟩

/-- The same table, as a map from numbers to calls, the same queues, controls and signals, the same calls with their
readers, and the same clients and engines. The entries of the table and the record may stand in another order. -/
structure SameState (s s' : Session) : Prop where
  lookup : ∀ id, (s'.world.exchange.table shared).find? id = (s.world.exchange.table shared).find? id
  lastId : (s'.world.exchange.table shared).lastId = (s.world.exchange.table shared).lastId
  queues : s'.world.exchange.queues = s.world.exchange.queues
  controls : s'.world.exchange.controls = s.world.exchange.controls
  signals : s'.world.exchange.signals = s.world.exchange.signals
  calls : s'.calls = s.calls
  clients : s'.world.clients = s.world.clients
  engines : s'.world.engines = s.world.engines

/-- What looks the same from every call is the same. -/
theorem sameState_of_agreeOn (h₀ : s₀.ground.IsCoherent) (hs : s.ground.IsCoherent) (hs' : s'.ground.IsCoherent)
    (hagree : ∀ k, AgreeOn (s₀.apartFrom k) k s s') : SameState s s' := by
  have hsizes := (hagree 0).exchange.sizes
  simp only [sizes, Prod.mk.injEq] at hsizes
  obtain ⟨hsignals, hqueues, hcontrols, -⟩ := hsizes
  constructor
  case lookup =>
    intro id
    refine Option.ext fun pending => ?_
    have hentry := (hagree pending.queue.index).exchange.entries shared (id, pending) fun hne => hne rfl
    exact hs'.keyed.find?_eq_some_iff.trans (hentry.trans hs.keyed.find?_eq_some_iff.symm)
  case lastId => exact (hagree 0).exchange.lastId shared
  case queues =>
    refine List.ext_getElem hqueues fun k hk hk' => ?_
    have hqueue := (hagree k).exchange.queue ⟨k⟩ fun hne => hne rfl
    simpa [Exchange.queue, hk, hk'] using hqueue
  case controls =>
    refine List.ext_getElem hcontrols fun k hk hk' => ?_
    have hcontrol := (hagree k).exchange.control ⟨k⟩ fun hne => hne rfl
    simpa [Exchange.control, hk, hk'] using hcontrol
  case signals =>
    refine List.ext_getElem hsignals fun k hk hk' => ?_
    have hfired : s'.world.exchange.fired ⟨k⟩ = s.world.exchange.fired ⟨k⟩ := by
      -- A cancel signal shows from its own call, and any other signal from every call.
      by_cases hcancel : (s₀.apartFrom 0).signal ⟨k⟩
      · obtain ⟨j, call, -, hj, heq⟩ := hcancel
        refine (hagree j).exchange.fired _ ?_
        rintro ⟨i, d, hne, hi, heq'⟩
        exact hne (h₀.cancels i j d call hi hj (heq'.trans heq.symm))
      · exact (hagree 0).exchange.fired _ hcancel
    simpa [Exchange.fired, hk, hk'] using hfired
  case calls => exact List.ext_getElem? fun k => (hagree k).call
  case clients => exact (hagree 0).clients
  case engines => exact (hagree 0).engines

/-- Each call has the same errands in the same order. -/
def Reorders (es es' : List Errand) : Prop :=
  ∀ k, es'.filter (fun e => e.call = k) = es.filter fun e => e.call = k

theorem Reorders.swap (hne : e.call ≠ e'.call) : Reorders [e, e'] [e', e] := by
  intro k
  by_cases he : e.call = k
  · subst he
    simp [Ne.symm hne]
  · simp [List.filter_cons, he]

theorem Reorders.mem (hreorders : Reorders es es') (he : e ∈ es') : e ∈ es := by
  have hmem : e ∈ es'.filter fun d => d.call = e.call := List.mem_filter.2 ⟨he, by simp⟩
  rw [hreorders e.call] at hmem
  exact (List.mem_filter.1 hmem).1

/-- Two runs bring every call the same replies and come to the same state. -/
structure SameOutcome (s : Session) (es es' : List Errand) : Prop where
  replies : ∀ k, (s.replies es').filter (fun r => r.1 = k) = (s.replies es).filter fun r => r.1 = k
  state : SameState (s.performAll es) (s.performAll es')

theorem sameOutcome_of_reorders (hs : s.ground.IsCoherent) (hown : ∀ e ∈ es, s.Unreplaced e.call)
    (hreorders : Reorders es es') : SameOutcome s es es' := by
  have hown' : ∀ e ∈ es', s.Unreplaced e.call := fun e he => hown e (hreorders.mem he)
  have hstart := Continues.refl hs
  have hrun (k : Nat) := agreeOn_performAll hstart hstart hs hown (.refl (s.apartFrom k) k s)
  have hrun' (k : Nat) := agreeOn_performAll hstart hstart hs hown' (.refl (s.apartFrom k) k s)
  constructor
  case replies =>
    intro k
    rw [(hrun k).1, (hrun' k).1, hreorders k]
  case state =>
    refine sameState_of_agreeOn hs (hstart.performAll hown).coherent (hstart.performAll hown').coherent fun k => ?_
    have hafter' := (hrun' k).2
    rw [hreorders k] at hafter'
    exact (hrun k).2.trans hafter'.symm

/-- Two errands come to the same in either order. -/
structure Commutes (s : Session) (e e' : Errand) : Prop where
  first : (s.perform e').reply e = s.reply e
  second : (s.perform e).reply e' = s.reply e'
  state : SameState ((s.perform e).perform e') ((s.perform e').perform e)

theorem SameOutcome.commutes (hsame : SameOutcome s [e, e'] [e', e]) (hne : e.call ≠ e'.call) : Commutes s e e' where
  first := by simpa [Session.replies, hne, Ne.symm hne] using hsame.replies e.call
  second := by simpa [Session.replies, hne, Ne.symm hne, eq_comm] using hsame.replies e'.call
  state := hsame.state

/-- Deliveries to a call find it, and so do those who unsubscribe it. -/
structure Found (s : Session) (i : Nat) : Prop where
  deliver : ∀ payload status finished, s.reply ⟨i, .deliver payload status finished⟩ =
    .delivery (if status = .streamTerminated then .terminated else .delivered)
  unsubscribe : ∀ c, s.HasClient c → s.reply ⟨i, .unsubscribe c⟩ = .unsubscribed true

/-- A call in the table is found, and whatever is done to two such calls comes to the same in either order. So does every
run in every order that keeps the order at each call. It is the same for a call that has left the table, until another
call gets its number. -/
structure Independent (s : Session) : Prop where
  found : ∀ i, s.Registered i → s.Found i
  registered : ∀ i, s.Registered i → s.Unreplaced i
  either_order : ∀ e e' : Errand, s.Unreplaced e.call → s.Unreplaced e'.call → e.call ≠ e'.call → Commutes s e e'
  any_order : ∀ es es' : List Errand, (∀ e ∈ es, s.Unreplaced e.call) → Reorders es es' → SameOutcome s es es'

/-- In every session, calls are independent of each other. -/
theorem calls_independent (lastId : RequestId) (ops : List Op) (hnumbers : (Session.start lastId).HasNumbers ops) :
    Independent ((Session.start lastId).run ops) := by
  have hs := coherent_run hnumbers (coherent_start lastId)
  constructor
  case found =>
    intro i hregistered
    exact ⟨reply_deliver hs hregistered, fun c hc => reply_unsubscribe hs hregistered hc⟩
  case registered => exact fun i hregistered => unreplaced_of_registered hs hregistered
  case either_order =>
    intro e e' hown hown' hne
    refine (sameOutcome_of_reorders hs (fun d hd => ?_) (Reorders.swap hne)).commutes hne
    obtain rfl | hd := List.mem_cons.1 hd
    · exact hown
    · rw [List.mem_singleton.1 hd]
      exact hown'
  case any_order => exact fun es es' hown hreorders => sameOutcome_of_reorders hs hown hreorders

/-- Each of two clients has a call that nobody has answered yet. -/
def twoCalls : List Op := oneCall ++ [.request ⟨1⟩ "ticks" []]

/-- The call of the one is answered and that of the other unsubscribed, in either order. -/
theorem calls_independent_two :
    (Session.start 0).HasNumbers twoCalls ∧ ((Session.start 0).run twoCalls).Registered 0 ∧
      ((Session.start 0).run twoCalls).Registered 1 ∧
      ((Session.start 0).run twoCalls).reply ⟨0, .deliver [1] .success true⟩ = .delivery .delivered ∧
      ((Session.start 0).run twoCalls).reply ⟨1, .unsubscribe ⟨0⟩⟩ = .unsubscribed true ∧
      Commutes ((Session.start 0).run twoCalls) ⟨0, .deliver [1] .success true⟩ ⟨1, .unsubscribe ⟨0⟩⟩ := by
  have hnumbers : (Session.start 0).HasNumbers twoCalls := by decide +kernel
  have hfirst : ((Session.start 0).run twoCalls).Registered 0 := by decide +kernel
  have hsecond : ((Session.start 0).run twoCalls).Registered 1 := by decide +kernel
  have hindependent := calls_independent 0 twoCalls hnumbers
  have hdelivered := (hindependent.found 0 hfirst).deliver [1] .success true
  have hunsubscribed := (hindependent.found 1 hsecond).unsubscribe ⟨0⟩ (by decide +kernel)
  exact ⟨hnumbers, hfirst, hsecond, hdelivered, hunsubscribed, hindependent.either_order _ _
    (hindependent.registered 0 hfirst) (hindependent.registered 1 hsecond) Nat.zero_ne_one⟩

end Switchboard.Session
