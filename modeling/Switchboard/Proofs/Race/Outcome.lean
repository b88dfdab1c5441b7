import Switchboard.Proofs.Interleaving
import Switchboard.Proofs.Exchange.Opening
import Switchboard.Proofs.Race.Invariant
/-!
How a race for the end of a call comes out, in whatever order the steps of the parties fall.
-/
namespace Switchboard.Race

open Exchange

variable {l : Listener} {x : Exchange} {parties : List Party} {c : Company Exchange Answer}

/-- Whether the party has been told that its last fragment has ended the call. -/
def Answer.accepts : Answer → Bool
  | .delivery _ .delivered | .delivery _ .terminated => true
  | _ => false

/-- Whether the party has been told that it has ended the call without its last fragment. -/
def Answer.cancels : Answer → Bool
  | .gaveUp true | .closed true | .unsubscribed true => true
  | _ => false

/-- What a race for a call comes to. At most one delivery ends the call. If one does, the call is claimed
for it and never cancelled, so nobody has given it up and nobody has lifted it out of the table. A
fragment that was delivered is the only one that the race has put into the queue, and stands last in it.
Once everybody has finished, the call is out of the table and its queue is closed. -/
structure Outcome (l : Listener) (x : Exchange) (c : Company Exchange Answer) : Prop where
  once : ∀ (i j : Nat) (a b : Answer), c.result? i = some a → c.result? j = some b →
    a.accepts = true → b.accepts = true → i = j
  exclusive : ∀ (i j : Nat) (a b : Answer), c.result? i = some a → c.result? j = some b →
    a.accepts = true → b.cancels = false
  claimed : ∀ (i : Nat) (a : Answer), c.result? i = some a → a.accepts = true →
    (c.state.control l.control).claim = .completing ∧
      c.state.fired (x.control l.control).cancel = false
  delivered : ∀ (i : Nat) (w : LastWord), c.result? i = some (.delivery w .delivered) →
    (c.state.queue l.queue).accepting = false ∧
      ((c.state.queue l.queue).reading ≠ .dropped →
        (c.state.queue l.queue).fragments = (x.queue l.queue).fragments ++ [w.fragment l])
  undelivered : c.Settled → (∀ (i : Nat) (w : LastWord), c.result? i ≠ some (.delivery w .delivered)) →
    (c.state.queue l.queue).reading ≠ .dropped →
      (c.state.queue l.queue).fragments = (x.queue l.queue).fragments
  released : c.Settled → c.programs ≠ [] →
    (c.state.table l.table).find? l.id = none ∧ (c.state.queue l.queue).isClosed = true

theorem Role.program_eq_done {r : Role} {a : Answer} (h : r.program l = .done a) : r = .said a := by
  cases r with
  | waits p =>
    cases p with
    | leave how =>
      cases how with
      | letGo =>
        simp only [program, Party.program, Listener.release] at h
        split at h <;> cases h
      | _ => cases h
    | _ => cases h
  | handing w =>
    simp only [program, Delivery.handOver] at h
    split at h <;> cases h
  | said b =>
    cases h
    rfl
  | leaving how => cases how <;> cases h
  | _ => cases h

/-- What holds throughout a race holds after every run. -/
theorem inv_of_run (hlive : x.Live l)
    (hrun : Company.Run ⟨x, parties.map (Party.program l)⟩ c) :
    ∃ roles, c.programs = roles.map (Role.program l) ∧ Inv l x c.state roles := by
  have hstart : parties.map (Party.program l) = (parties.map .waits).map (Role.program l) := by
    simp [Role.program, Function.comp_def]
  refine hrun.invariant (Role.program l) (Inv l x) ?_ hstart (inv_of_live hlive parties)
  intro y roles i role next effect hi hstep hinv
  obtain ⟨hnext, heffect⟩ := Role.program_step hlive.unread hinv.entry hstep
  exact ⟨role.after l y, hnext, heffect ▸ hinv.step hi⟩

theorem holds_of_accepts {a : Answer} (h : a.accepts = true) : (Role.said a).holds = true := by
  cases a with
  | delivery w d => cases d <;> first | rfl | cases h
  | _ => cases h

section

variable {y : Exchange} {roles : List Role} (hinv : Inv l x y roles)
include hinv

theorem Inv.absent_of_said {i : Nat} {a : Answer} (hi : roles[i]? = some (.said a)) :
    (y.table l.table).find? l.id = none := by
  have hasserts := hinv.asserts i _ hi
  cases a with
  | delivery w d =>
    cases d with
    | delivered | terminated => exact hasserts.1
    | abandoned | unknownRequest => exact hasserts
  | gaveUp cancelled | closed cancelled =>
    cases cancelled with
    | true => exact hasserts.1
    | false => exact hasserts
  | gone | unsubscribed => exact hasserts

theorem Inv.completing_of_accepts {i : Nat} {a : Answer} (hi : roles[i]? = some (.said a))
    (haccepts : a.accepts = true) : (y.control l.control).claim = .completing := by
  have hasserts := hinv.asserts i _ hi
  cases a with
  | delivery w d =>
    cases d with
    | delivered | terminated => exact hasserts.2.1
    | abandoned | unknownRequest => cases haccepts
  | gaveUp | gone | closed | unsubscribed => cases haccepts

/-- Of two parties that have ended the call, one would have found it gone. -/
theorem Inv.eq_of_accepts {i j : Nat} {a b : Answer} (hi : roles[i]? = some (.said a))
    (hj : roles[j]? = some (.said b)) (ha : a.accepts = true) (hb : b.accepts = true) : i = j := by
  exact hinv.one i j _ _ hi hj (holds_of_accepts ha) (holds_of_accepts hb)

theorem Inv.not_cancels_of_accepts {i j : Nat} {a b : Answer} (hi : roles[i]? = some (.said a))
    (hj : roles[j]? = some (.said b)) (ha : a.accepts = true) : b.cancels = false := by
  have hclaim := hinv.completing_of_accepts hi ha
  cases b with
  | gaveUp cancelled | closed cancelled =>
    cases cancelled with
    | false => rfl
    | true =>
      have hcancelled := (hinv.asserts j _ hj).2
      rw [hclaim] at hcancelled
      cases hcancelled
  | unsubscribed found =>
    cases found with
    | false => rfl
    | true =>
      have hij := hinv.one i j _ _ hi hj (holds_of_accepts ha) rfl
      subst hij
      cases hi.symm.trans hj
      cases ha
  | delivery | gone => rfl

end

/-- In whatever order the steps of any number of parties fall, and wherever they stop, a call that is
live to begin with is ended only once. -/
theorem call_ends_once (hlive : x.Live l)
    (hrun : Company.Run ⟨x, parties.map (Party.program l)⟩ c) : Outcome l x c := by
  obtain ⟨roles, hprograms, hinv⟩ := inv_of_run hlive hrun
  have hsaid (i : Nat) (a : Answer) (ha : c.result? i = some a) : roles[i]? = some (.said a) := by
    rw [Company.result?_eq_some_iff, hprograms, List.getElem?_map, Option.map_eq_some_iff] at ha
    obtain ⟨r, hr, hdone⟩ := ha
    rw [hr, Role.program_eq_done hdone]
  have hall (hsettled : c.Settled) (i : Nat) (r : Role) (hi : roles[i]? = some r) :
      ∃ a, r = .said a ∧ c.result? i = some a := by
    have hi' : c.programs[i]? = some (r.program l) := by rw [hprograms, List.getElem?_map, hi]; rfl
    obtain ⟨a, ha⟩ := hsettled _ (List.mem_of_getElem? hi')
    exact ⟨a, Role.program_eq_done ha, by rw [Company.result?_eq_some_iff, hi', ha]⟩
  exact
    { once := fun i j a b ha hb => hinv.eq_of_accepts (hsaid i a ha) (hsaid j b hb)
      exclusive := fun i j a b ha hb => hinv.not_cancels_of_accepts (hsaid i a ha) (hsaid j b hb)
      claimed := fun i a ha haccepts => by
        have hclaim := hinv.completing_of_accepts (hsaid i a ha) haccepts
        exact ⟨hclaim, hinv.uncancelled (by rw [hclaim]; exact Claim.noConfusion)⟩
      delivered := fun i w hw => (hinv.asserts i _ (hsaid i _ hw)).2.2
      undelivered := fun hsettled hnobody => hinv.untouched fun i r hi => by
        obtain ⟨a, rfl, ha⟩ := hall hsettled i r hi
        cases a with
        | delivery w d =>
          cases d with
          | delivered => exact absurd ha (hnobody i w)
          | _ => rfl
        | _ => rfl
      released := fun hsettled hsome => by
        have hpos : 0 < roles.length := by
          rw [List.length_pos_iff]
          rintro rfl
          exact hsome hprograms
        obtain ⟨a, ha, -⟩ := hall hsettled 0 roles[0] (List.getElem?_eq_getElem hpos)
        have habsent := hinv.absent_of_said (ha ▸ List.getElem?_eq_getElem hpos)
        refine ⟨habsent, ?_⟩
        obtain hclosed | ⟨i, r, hi, howes⟩ := hinv.owed habsent
        · exact hclosed
        · obtain ⟨b, rfl, -⟩ := hall hsettled i r hi
          cases howes }

/-- A call that has just been opened. -/
def firstCall : Listener × Exchange := Client.openCall ⟨0⟩ ⟨0⟩ { signals := [false], tables := [{}] }

/-- A last delivery, a reader that gives up, and one who unsubscribes, on that call. -/
def contest : Company Exchange Answer :=
  ⟨firstCall.2, [.deliver ⟨[49], .success⟩, .leave .giveUp, .unsubscribe].map (Party.program firstCall.1)⟩

/-- One who unsubscribes after the delivery has found the call, and a reader that gives up between its claim
and its last fragment, come too late. -/
theorem call_ends_once_contested :
    ∃ c, contest.Run c ∧ c.result? 0 = some (.delivery ⟨[49], .success⟩ .delivered) ∧
      c.result? 1 = some (.gaveUp false) ∧ c.result? 2 = some (.unsubscribed false) ∧
      Outcome firstCall.1 firstCall.2 c := by
  have hlive : firstCall.2.Live firstCall.1 := Client.live_openCall (by decide) (by decide) rfl
  have hrun := contest.run_follow [0, 2, 0, 0, 1, 0, 0]
  exact ⟨_, hrun, rfl, rfl, rfl, call_ends_once hlive hrun⟩

end Switchboard.Race
