import Switchboard.Proofs.Exchange.Opening
import Switchboard.Proofs.Race.Outcome
import Switchboard.Proofs.TimeLimit.Invariant
import Switchboard.Proofs.TimeLimit.Received
/-!
A wait with a limit comes to what a wait without one comes to, or gives its call up. A call that is given up is left to
nobody, but a delivery that has only to end the stream of it may still do so.
-/
namespace Switchboard.TimeLimit

open Exchange Process
open Shutdown (Answer say wait)

variable {l : Listener} {start limit : Nat} {times : List Nat} {fs : List Fragment} {x : Exchange}
  {c d e m : Company Exchange Answer} {roles : List Role} {f : Fragment} {s : Delivery.Stage} {i : Nat}

/-- What holds throughout holds after every run. -/
theorem inv_of_run (hlive : x.Live l) (hfs : ∀ f ∈ fs, f.requestId = l.id)
    (hrun : (company x l start (some limit) times fs).Run m) :
    ∃ roles, m.programs = roles.map (Role.program l) ∧
      Inv l start limit fs (company x l start (some limit) times fs) m roles := by
  have hstart : (company x l start (some limit) times fs).programs =
      (.reads (.waits times (.start l start (some limit))) :: fs.map (Role.delivers · .starting)).map
        (Role.program l) := by
    rw [company_eq, List.map_cons, List.map_map]
    rfl
  refine hrun.induction (Role.program l) _ ?_ hstart ?_
  · intro m roles i role next change hbefore hroles hi hprogram hinv
    obtain ⟨hadvance, hnext, hafter⟩ := hinv.step hbefore hroles hi hprogram
    exact ⟨_, hnext, hadvance ▸ hafter⟩
  · constructor
    case entry =>
      intro call hfind
      exact Option.some.inj (hfind.symm.trans hlive.entry)
    case reader =>
      refine ⟨_, rfl, known_waits ⟨rfl, fun time h => (Option.some.inj h).symm, rfl⟩ ?_⟩
      show (x.control l.control).claim ≠ .cancelled
      simp [hlive.unclaimed]
    case size => simp
    case deliveries =>
      intro i role hi
      rw [List.getElem?_cons_succ, List.getElem?_map, Option.map_eq_some_iff] at hi
      obtain ⟨f, hf, rfl⟩ := hi
      exact ⟨f, _, hf, rfl⟩
    case fits =>
      intro i role hi
      obtain rfl | hmem := List.mem_cons.1 (List.mem_of_getElem? hi)
      · exact Reader.reads_waits rfl
      · obtain ⟨f, hf, rfl⟩ := List.mem_map.1 hmem
        exact ⟨hfs f hf, trivial⟩

/-- What the one who waits has been told is known of. -/
theorem Inv.earned (h : Inv l start limit fs c d roles) (hroles : d.programs = roles.map (Role.program l))
    {result : Except ClientError Bytes} (ha : d.result? 0 = some (.waited (some result))) :
    Earned l start limit c d result := by
  obtain ⟨r, hr, hknown⟩ := h.reader
  rw [Company.result?_eq_some_iff, hroles, List.getElem?_map, hr] at ha
  obtain ⟨result', rfl, hsame⟩ := Reader.program_eq_done (Option.some.inj ha)
  cases hsame
  exact hknown

/-- Deliveries to a call that has been given up go on to the ends that their stages have in store for them. -/
theorem Inv.late (h : Inv l start limit fs c d roles) (hcd : c.Run d)
    (hroles : d.programs = roles.map (Role.program l)) (hcancelled : Cancelled l d.state) (hrun : d.Run e)
    (hi : roles[i]? = some (.delivers f s)) {a : Answer} (ha : e.result? i = some a) :
    a = .delivery f (s.late f) := by
  obtain ⟨roles', hroles', -, -, hlate⟩ := hrun.induction (Role.program l)
    (fun m roles' => Inv l start limit fs c m roles' ∧ Cancelled l m.state ∧
      ∃ s', roles'[i]? = some (.delivers f s') ∧ s'.late f = s.late f)
    (by
      rintro m roles' j role next change hbefore hprograms hj hprogram ⟨hinv, hgone, s', hs', hsame⟩
      obtain ⟨hadvance, hnext, hafter⟩ := hinv.step (hcd.trans hbefore) hprograms hj hprogram
      have hfits := hinv.fits j role hj
      have honward : Onward l m.state (m.advance j).state := by
        rw [hadvance, ← (Role.program_step hfits hinv.entry hprogram).2]
        exact role.onward_effect hfits
      have hgone' := hgone.onward honward
      rw [hadvance] at hafter hgone'
      refine ⟨_, hnext, hafter, hgone', ?_⟩
      by_cases hji : j = i
      · subst hji
        cases hs'.symm.trans hj
        refine ⟨_, List.getElem?_set_self (List.getElem?_eq_some_iff.1 hj).1, ?_⟩
        rw [Delivery.Stage.late_after hfits.1 hgone.absent hgone.claim hgone.closed hfits.2, hsame]
      · exact ⟨s', by rw [List.getElem?_set_ne hji, hs'], hsame⟩)
    hroles ⟨h, hcancelled, s, hi, rfl⟩
  obtain ⟨s', hs', hsame⟩ := hlate
  rw [Company.result?_eq_some_iff, hroles', List.getElem?_map, hs'] at ha
  obtain ⟨told, hprogram, rfl⟩ := say_eq_done (Option.some.inj ha)
  obtain rfl := Delivery.Stage.program_eq_done hprogram
  rw [← hsame]
  rfl

/-- What a delivery is told late depends on how far it had come. -/
theorem toldLate_of_stage (hfits : s.Fits l f x) (hclaim : (x.control l.control).claim = .cancelled)
    (hunended : ∀ told, s ≠ .told told) :
    ToldLate l f (say f (s.program l f)) (.delivery f (s.late f)) := by
  have hbegun (hs : s ≠ .starting) : say f (s.program l f) ≠ say f (Switchboard.deliver l.table f) :=
    fun h => hs (Delivery.Stage.eq_starting_of_program (say_injective f h))
  -- no delivery at another stage has the same program as one that is about to end its stream
  have hclaims (hs : s ≠ .handing) : ¬ EndsUnclaimed l f (say f (s.program l f)) :=
    fun h => hs (Delivery.Stage.eq_handing_of_program h.status (say_injective f h.program))
  cases s with
  | starting => exact .unknown rfl
  | handing =>
    by_cases hstatus : f.status = .streamTerminated
    · simp only [Delivery.Stage.late, hstatus, if_true]
      exact .terminated ⟨rfl, hstatus, hfits.unfinished hclaim⟩
    · simp only [Delivery.Stage.late, hstatus, if_false]
      exact .abandoned (hbegun Delivery.Stage.noConfusion) fun h => hstatus h.status
  | told told => exact absurd rfl (hunended told)
  | found | claiming | sealing | yielding | removing =>
    exact .abandoned (hbegun Delivery.Stage.noConfusion) (hclaims Delivery.Stage.noConfusion)

/-- A call that has been given up is left as nobody's. -/
theorem Inv.givenUp (h : Inv l start limit fs c d roles) (hcd : c.Run d)
    (hroles : d.programs = roles.map (Role.program l)) (hcancelled : Cancelled l d.state) : GivenUp l fs d where
  absent := hcancelled.absent
  cancelled := hcancelled.claim
  closed := hcancelled.closed
  returns i hi := by
    have hlt : i + 1 < d.programs.length := by
      rw [hroles, List.length_map, h.size]
      exact Nat.succ_lt_succ hi
    exact Company.exists_result (List.getElem?_eq_getElem hlt)
  late i f p hf hp hunended e hrun a ha := by
    rw [hroles, List.getElem?_map, Option.map_eq_some_iff] at hp
    obtain ⟨role, hrole, rfl⟩ := hp
    obtain ⟨g, s, hg, rfl⟩ := h.deliveries i role hrole
    cases hf.symm.trans hg
    rw [h.late hcd hroles hcancelled hrun hrole ha]
    refine toldLate_of_stage (h.fits _ _ hrole).2 hcancelled.claim fun told hs => ?_
    subst hs
    rw [Company.result?, hroles, List.getElem?_map, hrole] at hunended
    cases hunended

/-- Whoever gives the call up is told that his time is over. -/
theorem GivesUp.overdue {looked tried : Company Exchange Answer} {v : Waiting} {now : Nat} {later : List Nat}
    (h : GivesUp l start limit c looked tried d v now later) {a : Answer} (ha : d.result? 0 = some a) :
    a = overdue limit := by
  obtain ⟨y, programs⟩ := tried
  obtain ⟨ps, rfl⟩ : ∃ ps, programs = (Reader.trying v later).program l :: ps := by
    have htries := h.tries
    cases programs with
    | nil => cases htries
    | cons p ps =>
      cases htries
      exact ⟨ps, rfl⟩
  have hreads : (Reader.trying v later).Reads l := h.listener
  have hclaim : (y.control v.listener.control).claim ≠ .completing := by
    have hfree : (y.control l.control).claim = .free := h.unclaimed
    simp [h.listener, hfree]
  have hnext : (Company.advance 0 ⟨y, (Reader.trying v later).program l :: ps⟩).programs[0]? =
      some ((Reader.closing limit).program l) := by
    rw [advance_reader _ _ hreads]
    simp only [Reader.after, hclaim, if_false, h.limit]
    rfl
  exact h.after.answers hnext (closing_overdue l limit) ha

/-- Fragments are delivered to a live call, and one waits for its answer, for at most a limit. In whatever order the
steps of the deliveries and the looks at the call, the queue and the time fall, the wait comes to what it comes to
without a limit, or it gives the call up. Then no later delivery is accepted; but one that has passed its check with an
unmarked end of the stream still ends it. -/
theorem agrees_or_gives_up (hlive : x.Live l) (hfs : ∀ f ∈ fs, f.requestId = l.id) (order : List Nat) :
    Outcome x l start limit times fs order ((company x l start (some limit) times fs).follow order) := by
  have hrun := Company.run_follow (company x l start (some limit) times fs) order
  obtain ⟨roles, hroles, hinv⟩ := inv_of_run hlive hfs hrun
  constructor
  case overdue_iff =>
    intro a ha
    constructor
    · rintro rfl
      obtain hother | ⟨-, -, hgave⟩ := hinv.earned hroles ha
      · exact absurd rfl (hother limit)
      · exact hgave
    · rintro ⟨looked, tried, v, now, later, hgives⟩
      exact hgives.overdue ha
  case givenUp =>
    intro ha
    obtain hother | ⟨-, hcancelled, -⟩ := hinv.earned hroles ha
    · exact absurd rfl (hother limit)
    · exact hinv.givenUp hrun hroles hcancelled
  case agrees =>
    intro a ha hother
    obtain ⟨limit', rfl⟩ | hagrees := agrees_unless_overdue x l start limit times fs order ha
    · obtain hnone | ⟨hlimit, -, -⟩ := hinv.earned hroles ha
      · exact absurd rfl (hnone limit')
      · cases hlimit
        exact absurd rfl hother
    · exact hagrees
  case same =>
    intro result hresult hother times' order' hsteps result' hresult'
    have hreceived : received x l fs order' = received x l fs order := by
      rw [← received_filter, hsteps, received_filter]
    obtain ⟨hnone, -⟩ | hread' := result_of_received hlive hfs start none times' order' hresult'
    · cases hnone
    obtain ⟨-, limit', rfl⟩ | hread := result_of_received hlive hfs start (some limit) times order hresult
    · obtain hnever | ⟨hlimit, -, -⟩ := hinv.earned hroles hresult
      · exact absurd rfl (hnever limit')
      · exact absurd hlimit hother
    · rw [hread', hread, hreceived]
  case decoded =>
    intro α call
    rw [Company.follow_answering, Company.result?_answering]

/-- The only fragment of an answer. -/
def onlyFragment : Fragment := ⟨1, [49], .success, true⟩

/-- It is delivered to a call that has just been opened, while one waits who has no time. -/
def inNoTime : Company Exchange Answer :=
  company Race.firstCall.2 Race.firstCall.1 0 (some 0) [0, 0, 0] [onlyFragment]

/-- The time is over between the claim of the delivery and its fragment. -/
def afterClaim : List Nat := [1, 1, 1, 0, 0, 0, 1, 1, 0, 0, 0, 0, 0]

/-- The time is over when the delivery has found the call and not yet claimed it. -/
def beforeClaim : List Nat := [0, 0, 1, 0, 0, 0, 0, 1, 1, 1]

/-- If the delivery has claimed the call, the wait goes on for its fragment, and else it is given up. -/
theorem agrees_or_gives_up_late :
    (Outcome Race.firstCall.2 Race.firstCall.1 0 0 [0, 0, 0] [onlyFragment] afterClaim (inNoTime.follow afterClaim) ∧
      (inNoTime.follow afterClaim).result? 0 = some (.waited (some (.ok [49])))) ∧
    Outcome Race.firstCall.2 Race.firstCall.1 0 0 [0, 0, 0] [onlyFragment] beforeClaim
        (inNoTime.follow beforeClaim) ∧
      (inNoTime.follow beforeClaim).result? 0 = some (overdue 0) ∧
      (inNoTime.follow beforeClaim).result? 1 = some (.delivery onlyFragment .abandoned) := by
  have hlive : Race.firstCall.2.Live Race.firstCall.1 := Client.live_openCall (by decide) (by decide) rfl
  have hid : ∀ f ∈ [onlyFragment], f.requestId = Race.firstCall.1.id := by decide
  exact ⟨⟨agrees_or_gives_up hlive hid afterClaim, rfl⟩, agrees_or_gives_up hlive hid beforeClaim, rfl, rfl⟩

/-- The end of a stream that is not marked as the last fragment. -/
def unmarkedEnd : Fragment := ⟨1, [], .streamTerminated, false⟩

/-- The delivery finds the call and checks that it has not been given up, and then the one who waits gives it up. -/
def afterCheck : List Nat := [1, 1, 0, 0, 0, 0, 0, 0]

/-- Not every delivery is turned away that ends after its call has been given up: the one of an unmarked end, if it has
checked the call before, is told that it has ended the stream. -/
theorem terminated_after_giving_up :
    ¬ ∀ (x : Exchange) (l : Listener) (start limit : Nat) (times : List Nat) (fs : List Fragment)
        (d e : Company Exchange Answer), x.Live l → (∀ f ∈ fs, f.requestId = l.id) →
        (company x l start (some limit) times fs).Run d → d.result? 0 = some (overdue limit) → d.Run e →
        ∀ (i : Nat) (f : Fragment) (a : Answer), fs[i]? = some f → d.result? (i + 1) = none →
          e.result? (i + 1) = some a → a = .delivery f .unknownRequest ∨ a = .delivery f .abandoned := by
  intro hturnedAway
  have hlive : Race.firstCall.2.Live Race.firstCall.1 := Client.live_openCall (by decide) (by decide) rfl
  have hgivesUp :=
    Company.run_follow (company Race.firstCall.2 Race.firstCall.1 0 (some 0) [0] [unmarkedEnd]) afterCheck
  obtain hunknown | habandoned := hturnedAway _ _ _ _ _ _ _ _ hlive (by decide) hgivesUp rfl
    (Company.run_follow _ [1]) 0 unmarkedEnd _ rfl rfl rfl
  · cases hunknown
  · cases habandoned

end Switchboard.TimeLimit
