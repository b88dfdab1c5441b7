import Switchboard.Proofs.TimeLimit.Basic
/-!
What holds while one waits for at most a limit and fragments are delivered to the call: nobody cancels the call but
the one who waits, and he does so only when he has found nothing in time.
-/
namespace Switchboard.TimeLimit

open Exchange Process
open Shutdown (Answer say)

variable {l : Listener} {start limit : Nat} {fs : List Fragment} {x : Exchange} {c m m' : Company Exchange Answer}
  {r : Reader} {f : Fragment} {s : Delivery.Stage} {i : Nat}

/-- How far a party has come: the one who waits, or the delivery of a fragment. -/
inductive Role where
  | reads (r : Reader)
  | delivers (f : Fragment) (s : Delivery.Stage)

namespace Role

/-- What is left to do. -/
def program (l : Listener) : Role → Process Exchange Answer
  | .reads r => r.program l
  | .delivers f s => say f (s.program l f)

/-- The role after the next step. -/
def after (l : Listener) (x : Exchange) : Role → Role
  | .reads r => .reads (r.after x)
  | .delivers f s => .delivers f (s.after l f x)

/-- What the next step does. -/
def effect (l : Listener) : Role → Exchange → Exchange
  | .reads r, x => r.effect l x
  | .delivers f s, x => s.effect l f x

/-- A role on the call of a listener, and what may be relied on in it. -/
def Fits (l : Listener) (x : Exchange) : Role → Prop
  | .reads r => r.Reads l
  | .delivers f s => f.requestId = l.id ∧ s.Fits l f x

end Role

theorem say_eq_step {p : Process Exchange Delivery} {next : Exchange → Process Exchange Answer}
    {change : Exchange → Exchange} (h : say f p = .step next change) :
    ∃ next', p = .step next' change ∧ next = fun x => say f (next' x) := by
  cases p with
  | done d => cases h
  | step next' change' =>
    cases h
    exact ⟨next', rfl, rfl⟩

theorem say_eq_done {p : Process Exchange Delivery} {a : Answer} (h : say f p = .done a) :
    ∃ d, p = .done d ∧ a = .delivery f d := by
  cases p with
  | done d =>
    cases h
    exact ⟨d, rfl, rfl⟩
  | step => cases h

theorem say_injective (f : Fragment) : Function.Injective (say f) := by
  intro p q h
  induction p generalizing q with
  | done d =>
    obtain ⟨d', rfl, hsame⟩ := say_eq_done h.symm
    cases hsame
    rfl
  | step next change ih =>
    obtain ⟨next', rfl, hnext⟩ := say_eq_step h.symm
    exact congrArg (Process.step · change) (funext fun x => ih x (congrFun hnext x))

/-- The roles follow the programs. -/
theorem Role.program_step {role : Role} (hfits : role.Fits l x)
    (hentry : ∀ call, (x.table l.table).find? l.id = some call → call = l.call)
    {next : Exchange → Process Exchange Answer} {change : Exchange → Exchange}
    (h : role.program l = .step next change) :
    (role.after l x).program l = next x ∧ role.effect l x = change x := by
  cases role with
  | reads r => exact Reader.program_step hfits h
  | delivers f s =>
    obtain ⟨next', hstep, rfl⟩ := say_eq_step h
    have hentry' : ∀ call, (x.table l.table).find? f.requestId = some call → call = l.call := by
      rw [hfits.1]
      exact hentry
    obtain ⟨hnext, hchange⟩ := Delivery.Stage.program_step hentry' hstep
    exact ⟨congrArg (say f) hnext, hchange⟩

theorem Role.onward_effect {role : Role} (hfits : role.Fits l x) : Onward l x (role.effect l x) := by
  cases role with
  | reads r => exact Reader.onward_effect hfits
  | delivers f s => exact Delivery.Stage.onward_effect hfits.1 s

theorem Role.fits_after {role : Role} (hfits : role.Fits l x) :
    (role.after l x).Fits l (role.effect l x) := by
  cases role with
  | reads r => exact Reader.reads_after hfits
  | delivers f s => exact ⟨hfits.1, Delivery.Stage.fits_after hfits.2⟩

theorem Role.Fits.keep {y : Exchange} {role : Role} (h : role.Fits l x) (hkeeps : Keeps l x y) : role.Fits l y := by
  cases role with
  | reads r => exact h
  | delivers f s => exact ⟨h.1, h.2.keep hkeeps⟩

/-- A wait for the call of a listener that has begun with a limit. The limit stands as long as the call has not been
claimed. -/
structure Waits (l : Listener) (start limit : Nat) (v : Waiting) : Prop where
  listener : v.listener = l
  deadline : ∀ time, v.deadline = some time → time = start + limit
  limit : v.limit = limit

theorem Waits.add {v : Waiting} (h : Waits l start limit v) (f : Fragment) : Waits l start limit (v.add f) where
  listener := Waiting.listener_add.trans h.listener
  limit := Waiting.limit_add.trans h.limit
  deadline := by
    rw [Waiting.deadline_add]
    exact h.deadline

/-- A call that one who waited has given up. -/
structure Cancelled (l : Listener) (x : Exchange) : Prop extends x.Ended l where
  claim : (x.control l.control).claim = .cancelled

theorem Cancelled.onward {y : Exchange} (h : Cancelled l x) (honward : Onward l x y) : Cancelled l y where
  toEnded := honward.ended h.toEnded
  claim := by rw [honward.claim (by simp [h.claim]), h.claim]

/-- One who waits has given his call up. -/
def GaveUp (l : Listener) (start limit : Nat) (c m : Company Exchange Answer) : Prop :=
  ∃ looked tried v now later, GivesUp l start limit c looked tried m v now later

theorem GaveUp.trans (h : GaveUp l start limit c m) (hrun : m.Run m') : GaveUp l start limit c m' := by
  obtain ⟨looked, tried, v, now, later, hgives⟩ := h
  exact ⟨looked, tried, v, now, later, { hgives with after := hgives.after.trans hrun }⟩

/-- A result is that of an answer, or the call has been given up and the result says so. -/
def Earned (l : Listener) (start limit : Nat) (c m : Company Exchange Answer) (result : Except ClientError Bytes) :
    Prop :=
  (∀ limit', result ≠ .error (.timeout limit')) ∨
    result = .error (.timeout limit) ∧ Cancelled l m.state ∧ GaveUp l start limit c m

/-- What is known of one who waits. As long as he has not cancelled the call, nobody has. -/
def Known (l : Listener) (start limit : Nat) (c m : Company Exchange Answer) : Reader → Prop
  | .looking v _ _ | .taking v _ _ =>
    Waits l start limit v ∧ (m.state.control l.control).claim ≠ .cancelled
  | .trying v later =>
    Waits l start limit v ∧ (m.state.control l.control).claim ≠ .cancelled ∧
      ∃ looked now, FindsNothing l start limit c looked m v now later
  | .closing limit' =>
    limit' = limit ∧ (m.state.control l.control).claim = .cancelled ∧ GaveUp l start limit c m
  | .leaving limit' =>
    limit' = limit ∧ (m.state.control l.control).claim = .cancelled ∧
      (m.state.queue l.queue).isClosed = true ∧ GaveUp l start limit c m
  | .dropping result | .told (some result) => Earned l start limit c m result
  | .told none => True

/-- What is known of one who waits stays known while others take steps. -/
theorem Known.keep (h : Known l start limit c m r) (hrun : m.Run m') (honward : Onward l m.state m'.state)
    (hclaim : (m.state.control l.control).claim ≠ .cancelled →
      (m'.state.control l.control).claim ≠ .cancelled) : Known l start limit c m' r := by
  have hcancelled (hbefore : (m.state.control l.control).claim = .cancelled) :
      (m'.state.control l.control).claim = .cancelled := by
    rw [honward.claim (by simp [hbefore]), hbefore]
  have hearned {result : Except ClientError Bytes} (hbefore : Earned l start limit c m result) :
      Earned l start limit c m' result := by
    obtain hother | ⟨hresult, hended, hgave⟩ := hbefore
    · exact .inl hother
    · exact .inr ⟨hresult, hended.onward honward, hgave.trans hrun⟩
  cases r with
  | looking | taking => exact ⟨h.1, hclaim h.2⟩
  | trying v later =>
    obtain ⟨hwaits, hbefore, looked, now, hfinds⟩ := h
    exact ⟨hwaits, hclaim hbefore, looked, now, { hfinds with between := hfinds.between.trans hrun }⟩
  | closing => exact ⟨h.1, hcancelled h.2.1, h.2.2.trans hrun⟩
  | leaving => exact ⟨h.1, hcancelled h.2.1, honward.closed h.2.2.1, h.2.2.2.trans hrun⟩
  | dropping => exact hearned h
  | told result =>
    cases result with
    | none => trivial
    | some result => exact hearned h

theorem known_waits {v : Waiting} {later : List Nat} (hwaits : Waits l start limit v)
    (hclaim : (m.state.control l.control).claim ≠ .cancelled) :
    Known l start limit c m (.waits later v) := by
  cases later with
  | nil => trivial
  | cons now later => exact ⟨hwaits, hclaim⟩

section Move

variable {v : Waiting} {now : Nat} {later : List Nat}

/-- One who looks at the queue takes what he finds, or finds nothing in time, or goes on. -/
theorem known_taking (h : Known l start limit c m (.taking v now later)) (hrun : c.Run m)
    (hprogram : m.programs[0]? = some ((Reader.taking v now later).program l))
    (hclaim : ((m.advance 0).state.control l.control).claim ≠ .cancelled) :
    Known l start limit c (m.advance 0) ((Reader.taking v now later).after m.state) := by
  obtain ⟨hwaits, -⟩ := h
  have hqueue : v.listener.queue = l.queue := by rw [hwaits.listener]
  simp only [Reader.after, hqueue]
  cases htake : (take l.queue m.state).1 with
  | fragment f => exact known_waits (hwaits.add f) hclaim
  | ended => exact .inl v.result_ne_timeout
  | pending =>
    obtain ⟨hdrained, hopen⟩ := drained_of_pending htake
    cases hover : v.isOver now with
    | false => exact known_waits hwaits hclaim
    | true =>
      obtain ⟨time, htime, hdue⟩ := Waiting.isOver_iff.1 hover
      obtain rfl := hwaits.deadline time htime
      exact ⟨hwaits, hclaim, m, now,
        { before := hrun, listener := hwaits.listener, deadline := htime, due := hdue, looks := hprogram,
          drained := hdrained, opened := hopen, between := .refl, limit := hwaits.limit }⟩

/-- One who looks at the time goes on without a limit if a last delivery has claimed the call, and gives it up if
not. -/
theorem known_trying (h : Known l start limit c m (.trying v later))
    (hprogram : m.programs[0]? = some ((Reader.trying v later).program l))
    (hstate : (m.advance 0).state = (claimCancellation l.control m.state).2) :
    Known l start limit c (m.advance 0) ((Reader.trying v later).after m.state) := by
  obtain ⟨hwaits, hclaim, looked, now, hfinds⟩ := h
  have hcontrol : v.listener.control = l.control := by rw [hwaits.listener]
  simp only [Reader.after, hcontrol]
  by_cases hclaimed : (m.state.control l.control).claim = .completing
  · rw [if_pos hclaimed]
    refine known_waits ⟨hwaits.listener, (fun time h => by cases h), hwaits.limit⟩ ?_
    rw [hstate, claimCancellation_of_claimed (by simp [hclaimed])]
    exact hclaim
  · rw [if_neg hclaimed]
    have hfree : (m.state.control l.control).claim = .free := by
      cases hwho : (m.state.control l.control).claim with
      | free => rfl
      | completing => exact absurd hwho hclaimed
      | cancelled => exact absurd hwho hclaim
    refine ⟨hwaits.limit, by simp [hstate, hfree], looked, m, v, now, later, ?_⟩
    exact { hfinds with tries := hprogram, unclaimed := hfree, after := .refl }

/-- The reader's own steps. -/
theorem Known.move (h : Known l start limit c m r) (hrun : c.Run m) (hprogram : m.programs[0]? = some (r.program l))
    (hstate : (m.advance 0).state = r.effect l m.state) : Known l start limit c (m.advance 0) (r.after m.state) := by
  have hnext := Company.Run.advance m 0
  cases r with
  | looking v now later =>
    simp only [Reader.after]
    split
    · exact .inl fun limit' h => by cases h
    · refine ⟨h.1, ?_⟩
      rw [hstate]
      exact h.2
  | taking v now later =>
    refine known_taking h hrun hprogram ?_
    rw [hstate]
    exact h.2
  | trying v later =>
    refine known_trying h hprogram ?_
    rw [hstate, Reader.effect, h.1.listener]
  | closing limit' =>
    obtain ⟨hlimit, hclaim, hgave⟩ := h
    refine ⟨hlimit, ?_, ?_, hgave.trans hnext⟩
    · simpa [hstate, Reader.effect] using hclaim
    · simp [hstate, Reader.effect]
  | leaving limit' =>
    obtain ⟨rfl, hclaim, hclosed, hgave⟩ := h
    refine .inr ⟨rfl, ⟨⟨?_, ?_⟩, ?_⟩, hgave.trans hnext⟩
    · simp [hstate, Reader.effect]
    · simpa [hstate, Reader.effect] using hclosed
    · simpa [hstate, Reader.effect] using hclaim
  | dropping result =>
    obtain hother | ⟨hresult, hended, hgave⟩ := h
    · exact .inl hother
    · refine .inr ⟨hresult, hended.onward ?_, hgave.trans hnext⟩
      rw [hstate]
      exact onward_dropReading
  | told result =>
    refine Known.keep h hnext ?_ ?_ <;> rw [hstate]
    · exact .refl l m.state
    · exact id

end Move

/-- What holds throughout. -/
structure Inv (l : Listener) (start limit : Nat) (fs : List Fragment) (c m : Company Exchange Answer)
    (roles : List Role) : Prop where
  entry : ∀ call, (m.state.table l.table).find? l.id = some call → call = l.call
  reader : ∃ r, roles[0]? = some (.reads r) ∧ Known l start limit c m r
  size : roles.length = fs.length + 1
  deliveries : ∀ (i : Nat) (role : Role), roles[i + 1]? = some role → ∃ f s, fs[i]? = some f ∧ role = .delivers f s
  fits : ∀ (i : Nat) (role : Role), roles[i]? = some role → role.Fits l m.state

/-- A step of any party keeps what holds throughout. -/
theorem Inv.advance {roles : List Role} {role : Role} (h : Inv l start limit fs c m roles) (hrun : c.Run m)
    (hi : roles[i]? = some role) (hprogram : m.programs[i]? = some (role.program l))
    (hstate : (m.advance i).state = role.effect l m.state) :
    Inv l start limit fs c (m.advance i) (roles.set i (role.after l m.state)) := by
  have hfits := h.fits i role hi
  have honward : Onward l m.state (m.advance i).state := hstate ▸ role.onward_effect hfits
  have hlt := (List.getElem?_eq_some_iff.1 hi).1
  obtain ⟨r, hr, hknown⟩ := h.reader
  constructor
  case entry => exact fun call hfind => h.entry call (honward.entry call hfind)
  case reader =>
    cases i with
    | zero =>
      cases hr.symm.trans hi
      exact ⟨r.after m.state, List.getElem?_set_self hlt, hknown.move hrun hprogram hstate⟩
    | succ i =>
      obtain ⟨f, s, -, rfl⟩ := h.deliveries i role hi
      refine ⟨r, by rw [List.getElem?_set_ne (by simp), hr], hknown.keep (Company.Run.advance m _) honward ?_⟩
      rw [hstate]
      exact s.claim_effect
  case size => rw [List.length_set, h.size]
  case deliveries =>
    intro j role' hj
    obtain ⟨rfl, rfl⟩ | ⟨-, hj⟩ := eq_or_of_getElem?_set hj
    · obtain ⟨f, s, hf, rfl⟩ := h.deliveries j role hi
      exact ⟨f, _, hf, rfl⟩
    · exact h.deliveries j role' hj
  case fits =>
    intro j role' hj
    obtain ⟨rfl, rfl⟩ | ⟨-, hj⟩ := eq_or_of_getElem?_set hj
    · rw [hstate]
      exact role.fits_after hfits
    · exact (h.fits j role' hj).keep honward.toKeeps

/-- Every step of a company is the step of a role. -/
theorem Inv.step {roles : List Role} {role : Role} (h : Inv l start limit fs c m roles) (hrun : c.Run m)
    (hroles : m.programs = roles.map (Role.program l)) (hi : roles[i]? = some role)
    {next : Exchange → Process Exchange Answer} {change : Exchange → Exchange}
    (hprogram : role.program l = .step next change) :
    m.advance i = ⟨change m.state, m.programs.set i (next m.state)⟩ ∧
      (role.after l m.state).program l = next m.state ∧
      Inv l start limit fs c (m.advance i) (roles.set i (role.after l m.state)) := by
  obtain ⟨hnext, hchange⟩ := Role.program_step (h.fits i role hi) h.entry hprogram
  have hturn : m.programs[i]? = some (role.program l) := by rw [hroles, List.getElem?_map, hi]; rfl
  have hadvance : m.advance i = ⟨change m.state, m.programs.set i (next m.state)⟩ := by
    simp only [Company.advance, hturn, hprogram]
  exact ⟨hadvance, hnext, h.advance hrun hi hturn (by rw [hadvance, hchange])⟩

end Switchboard.TimeLimit
