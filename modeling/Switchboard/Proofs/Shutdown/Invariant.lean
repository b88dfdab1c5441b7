import Switchboard.Proofs.Shutdown.Parties
/-!
What holds while a reader looks at its call and clients are destroyed: as long as the reader looks, its queue is
closed only if its client has been destroyed or a last delivery has been accepted.
-/
namespace Switchboard.Shutdown

open Exchange World

variable {l : Listener} {x y : Exchange} {w w' : World} {roles : List Role} {role role' r : Role} {i j : Nat}
  {client : Client}

namespace Role

/-- The reader will look at its call again, or at its queue, or at who has claimed it. -/
def looks : Role → Bool
  | .looking _ | .taking _ | .trying _ _ => true
  | _ => false

/-- The reader, whether it looks or leaves. -/
def reads : Role → Bool
  | .looking _ | .taking _ | .trying _ _ | .leaving _ => true
  | _ => false

/-- A last delivery that has taken the call out of the table and has not claimed it yet. -/
def unclaimed : Role → Bool
  | .found f => f.isLast
  | .claiming _ => true
  | _ => false

theorem reads_of_looks (h : r.looks = true) : r.reads = true := by
  cases r <;> first | rfl | cases h

end Role

/-- Nothing keeps a reader from looking at its call: the call has not been cancelled, and the reading end of its
queue is open. -/
structure Readable (l : Listener) (x : Exchange) : Prop where
  claim : (x.control l.control).claim ≠ .cancelled
  uncancelled : x.fired (x.control l.control).cancel = false
  reading : (x.queue l.queue).reading = .opened

/-- There is a reason for the queue to be closed, or nobody looks any more. -/
def Excused (l : Listener) (x : Exchange) (roles : List Role) : Prop :=
  x.fired l.shutdown = true ∨ (∃ f d, Role.ended f d ∈ roles) ∨ ∀ r ∈ roles, r.looks = false

/-- A client that shares the table of a call, and whose signal is there and not the call's cancel signal. -/
structure Known (l : Listener) (x : Exchange) (client : Client) : Prop where
  table : client.table = l.table
  shutdown : client.shutdown ≠ (x.control l.control).cancel
  there : client.shutdown.index < x.signals.length

/-- What may be relied on in a role. -/
def Role.Fits (l : Listener) (w : World) (roles : List Role) : Role → Prop
  | .looking r | .taking r => r.listener = l ∧ Readable l w.exchange
  | .trying v _ => v.listener = l ∧ Readable l w.exchange
  | .leaving p => p.All (Leaves l) fun _ => True
  | .delivers _ => True
  | .found f => f.requestId = l.id ∧ (f.isLast = true → (w.exchange.table l.table).find? l.id = none ∧
      (w.exchange.control l.control).claim ≠ .completing)
  | .claiming f => f.requestId = l.id ∧ f.finished = true ∧ (w.exchange.table l.table).find? l.id = none ∧
      (w.exchange.control l.control).claim ≠ .completing
  | .handing f => f.requestId = l.id
  | .sealing f => f.requestId = l.id ∧ f.finished = true
  | .ended f d => f.requestId = l.id ∧ f.isLast = true ∧ d.accepted = true
  | .destroys c => c.index < w.clients.length
  | .marks _ client | .quits client _ | .fires client => Known l w.exchange client
  | .removes client => Known l w.exchange client ∧ client.shutdown ≠ l.shutdown
  | .passing p => p.All (Through (Passes l)) fun _ => True
  | .ebbing p => Excused l w.exchange roles ∧ p.All (Through (Ebbs l)) fun _ => True

/-- What holds throughout. -/
structure Inv (l : Listener) (w : World) (roles : List Role) : Prop where
  shutdown : (w.exchange.control l.control).shutdown = l.shutdown
  entries : ∀ e ∈ (w.exchange.table l.table).calls, (e.1 = l.id → e.2 = l.call) ∧
    (e.1 ≠ l.id → e.2.queue ≠ l.queue ∧ e.2.control ≠ l.control)
  clients : ∀ c : ClientId, c.index < w.clients.length → Known l w.exchange (w.client c)
  completing : (w.exchange.control l.control).claim = .completing →
    (w.exchange.table l.table).find? l.id = none
  closed : (w.exchange.queue l.queue).accepting = false → Excused l w.exchange roles
  reader : ∀ (i : Nat) (r : Role), roles[i]? = some r → r.reads = true → i = 0
  one : ∀ (i j : Nat) (r r' : Role), roles[i]? = some r → roles[j]? = some r' →
    r.unclaimed = true → r'.unclaimed = true → i = j
  fits : ∀ (i : Nat) (r : Role), roles[i]? = some r → r.Fits l w roles

theorem Readable.ebbs (h : Readable l x) (hebbs : Ebbs l x y) : Readable l y where
  claim := by rw [hebbs.claim]; exact h.claim
  uncancelled := by rw [hebbs.cancel, hebbs.uncancelled]; exact h.uncancelled
  reading := by rw [hebbs.reading]; exact h.reading

theorem Known.drifts (h : Known l x client) (hdrifts : Drifts l x y) : Known l y client where
  table := h.table
  shutdown := by rw [hdrifts.cancel]; exact h.shutdown
  there := by rw [hdrifts.signals]; exact h.there

theorem Role.Fits.readable (h : r.Fits l w roles) (hlooks : r.looks = true) : Readable l w.exchange := by
  cases r with
  | looking | taking | trying => exact h.2
  | _ => cases hlooks

/-- If the reader cannot read, it does not look any more. -/
theorem Inv.excused_of_not_readable (h : Inv l w roles) (hnot : ¬ Readable l w.exchange) :
    Excused l w.exchange roles := by
  refine .inr (.inr fun r hmem => ?_)
  obtain ⟨i, hi⟩ := List.getElem?_of_mem hmem
  cases hlooks : r.looks with
  | false => rfl
  | true => exact absurd ((h.fits i r hi).readable hlooks) hnot

section Next

variable (hmove : Move l w role role' w')
include hmove

theorem Move.of_looks (hlooks : role'.looks = true) : role.looks = true := by
  cases hmove <;> first | rfl | cases hlooks

theorem Move.of_reads (hreads : role'.reads = true) : role.reads = true := by
  cases hmove <;> first | rfl | cases hreads

/-- Only a last delivery that has just found the call still in the table comes to have it unclaimed. -/
theorem Move.of_unclaimed (hunclaimed : role'.unclaimed = true) :
    role.unclaimed = true ∨ (w.exchange.table l.table).find? l.id = some l.call := by
  cases hmove with
  | finds hid hfind => exact .inr hfind
  | claims hfinished => exact .inl (by simp [Role.unclaimed, Fragment.isLast, hfinished])
  | _ => cases hunclaimed

/-- A delivery that has ended the call has nothing left to do. -/
theorem Move.ended_mem (hi : roles[i]? = some role) {f : Fragment} {d : Delivery}
    (hmem : Role.ended f d ∈ roles) : Role.ended f d ∈ roles.set i role' := by
  obtain ⟨j, hj⟩ := List.getElem?_of_mem hmem
  refine List.mem_of_getElem? (i := j) ?_
  rw [List.getElem?_set_ne, hj]
  rintro rfl
  cases hi.symm.trans hj
  cases hmove

theorem Excused.move (h : Excused l w.exchange roles) (hi : roles[i]? = some role)
    (hdrifts : Drifts l w.exchange w'.exchange) : Excused l w'.exchange (roles.set i role') := by
  obtain hfired | ⟨f, d, hmem⟩ | hnobody := h
  · exact .inl (hdrifts.fired _ hfired)
  · exact .inr (.inl ⟨f, d, hmove.ended_mem hi hmem⟩)
  · refine .inr (.inr fun r hmem => ?_)
    obtain hmem | rfl := List.mem_or_eq_of_mem_set hmem
    · exact hnobody r hmem
    · cases hlooks : r.looks with
      | false => rfl
      | true =>
        have hbefore := hnobody role (List.mem_of_getElem? hi)
        rw [hmove.of_looks hlooks] at hbefore
        cases hbefore

/-- A step passes the call by, or perhaps closes its queue and has a reason to, or is that of the reader that
leaves, or claims the call for its last delivery. -/
theorem Move.effects (hfits : role.Fits l w roles) (hi : roles[i]? = some role) :
    Passes l w.exchange w'.exchange ∨
      (Ebbs l w.exchange w'.exchange ∧ Excused l w'.exchange (roles.set i role')) ∨
      (role.reads = true ∧ Leaves l w.exchange w'.exchange) ∨
      ∃ f, role = .claiming f ∧ (w.exchange.control l.control).claim = .free ∧
        w'.exchange = (claimCompletion l.control w.exchange).2 := by
  have hmove' := hmove
  have hlt := (List.getElem?_eq_some_iff.1 hi).1
  cases hmove with
  | woken | looks | resumes | yields | claims | hands | refused | meets | marksActive | marksOther
  | quitsContext => exact .inl (.refl l _)
  | goesOn | stops | tries | ends => exact .inl passes_take
  | givesUp => exact .inr (.inr (.inl ⟨rfl, leaves_claimCancellation⟩))
  | leaves => exact .inr (.inr (.inl ⟨rfl, hfits.1 _⟩))
  | goesAstray | finds => exact .inl passes_resolve
  | @claimed f hclaim => exact .inr (.inr (.inr ⟨f, rfl, hclaim, rfl⟩))
  | terminates | seals =>
    exact .inr (.inl ⟨ebbs_closeQueue, .inr (.inl ⟨_, _, List.mem_set hlt _⟩)⟩)
  | puts | putsMore | tooLate => exact .inl passes_push
  | firesOwn => exact .inl (passes_fire hfits.shutdown)
  | firesOther => exact .inl (passes_fire hfits.shutdown)
  | takesOut => exact .inl passes_removeOwned
  | passes => exact .inl (hfits.1 _).1
  | ebbs =>
    have hebbs := (hfits.2.1 w).1
    exact .inr (.inl ⟨hebbs, hfits.1.move hmove' hi hebbs.toDrifts⟩)

/-- Nothing about a client changes but where it stands in its life. -/
theorem Move.clients (hfits : role.Fits l w roles) : w'.clients.length = w.clients.length ∧
    ∀ c, (w'.client c).table = (w.client c).table ∧ (w'.client c).shutdown = (w.client c).shutdown := by
  have hsame (heq : w'.clients = w.clients) : w'.clients.length = w.clients.length ∧
      ∀ c, (w'.client c).table = (w.client c).table ∧ (w'.client c).shutdown = (w.client c).shutdown := by
    simp only [client, heq]
    exact ⟨trivial, fun _ => ⟨trivial, trivial⟩⟩
  have hmarks (c : ClientId) : (Client.markDestroyed c w).2.clients.length = w.clients.length ∧
      ∀ c', ((Client.markDestroyed c w).2.client c').table = (w.client c').table ∧
        ((Client.markDestroyed c w).2.client c').shutdown = (w.client c').shutdown := by
    have hclients : (Client.markDestroyed c w).2.clients =
        w.clients.set c.index { w.client c with lifecycle := .destroyed } := rfl
    simp only [client, hclients, List.length_set, List.getD_eq_getElem?_getD, List.getElem?_set]
    refine ⟨trivial, fun c' => ?_⟩
    by_cases hc : c.index = c'.index
    · by_cases hlt : c.index < w.clients.length
      · simp [hc, hc ▸ hlt]
      · simp [hc, hc ▸ hlt]
    · simp [hc]
  cases hmove with
  | marksActive | marksOther => exact hmarks _
  | passes => exact hsame (hfits.1 _).2
  | ebbs => exact hsame (hfits.2.1 _).2
  | _ => exact hsame rfl

end Next

/-- What a party relies on is not disturbed by a step of another. -/
theorem Role.Fits.keep {roles' : List Role} (h : r.Fits l w roles) (hdrifts : Drifts l w.exchange w'.exchange)
    (hlength : w'.clients.length = w.clients.length)
    (hexcused : Excused l w.exchange roles → Excused l w'.exchange roles')
    (hreadable : r.looks = true → Readable l w.exchange → Readable l w'.exchange)
    (hclaim : r.unclaimed = true → (w.exchange.control l.control).claim ≠ .completing →
      (w'.exchange.control l.control).claim ≠ .completing) : r.Fits l w' roles' := by
  cases r with
  | looking | taking | trying => exact ⟨h.1, hreadable rfl h.2⟩
  | found f => exact ⟨h.1, fun hlast => ⟨hdrifts.absent (h.2 hlast).1, hclaim hlast (h.2 hlast).2⟩⟩
  | claiming f => exact ⟨h.1, h.2.1, hdrifts.absent h.2.2.1, hclaim rfl h.2.2.2⟩
  | destroys c => exact Nat.lt_of_lt_of_eq h hlength.symm
  | marks | quits | fires => exact Known.drifts h hdrifts
  | removes => exact ⟨h.1.drifts hdrifts, h.2⟩
  | ebbing p => exact ⟨hexcused h.1, h.2⟩
  | leaving | delivers | handing | sealing | ended | passing => exact h

section Keeping

variable (h : Inv l w roles) (hi : roles[i]? = some role)
include h hi

/-- After its step a party may rely on what fits its new role. -/
theorem Inv.fits_after (hmove : Move l w role role' w') (hdrifts : Drifts l w.exchange w'.exchange) :
    role'.Fits l w' (roles.set i role') := by
  have hfits := h.fits i role hi
  have hexcused (hbefore : Excused l w.exchange roles) := hbefore.move hmove hi hdrifts
  have hmove' := hmove
  cases hmove with
  | woken hfired hp | stops hp | ends hdrained hclosed hp | givesUp hp =>
    exact hp.imp fun _ _ => trivial
  | looks => exact hfits
  | goesOn hlistener => exact ⟨hlistener, hfits.2.ebbs passes_take.toEbbs⟩
  | tries hlistener => exact ⟨hlistener, hfits.2.ebbs passes_take.toEbbs⟩
  | resumes hlistener => exact ⟨hlistener, hfits.2⟩
  | leaves => exact hfits.2 _
  | goesAstray hp | putsMore hp | takesOut hp => exact hp
  | @finds f hid hfind =>
    have hclaim : (w.exchange.control l.control).claim ≠ .completing := by
      intro hcompleting
      rw [h.completing hcompleting] at hfind
      cases hfind
    refine ⟨hid, fun hlast => ⟨?_, hclaim⟩⟩
    simp [hlast, hid]
  | @yields f p habandoned hp =>
    refine ⟨?_, hp⟩
    by_cases hreadable : Readable l w.exchange
    · have hclaim := hreadable.claim
      simp only [abandoned, h.shutdown, hreadable.uncancelled, Bool.or_false, Bool.or_eq_true,
        beq_iff_eq, hclaim, false_or] at habandoned
      exact .inl habandoned
    · exact hexcused (h.excused_of_not_readable hreadable)
  | @claims f hfinished =>
    obtain ⟨hid, hlast⟩ := hfits
    obtain ⟨habsent, hclaim⟩ := hlast (by simp [Fragment.isLast, hfinished])
    exact ⟨hid, hfinished, habsent, hclaim⟩
  | hands => exact hfits.1
  | claimed => exact hfits.1
  | @refused f p hclaim hp =>
    obtain ⟨-, -, -, hcompleting⟩ := hfits
    refine ⟨hexcused (h.excused_of_not_readable fun hreadable => ?_), hp⟩
    have hcancelled := hreadable.claim
    cases hwho : (w.exchange.control l.control).claim with
    | free => exact hclaim hwho
    | completing => exact hcompleting hwho
    | cancelled => exact hcancelled hwho
  | terminates hstatus => exact ⟨hfits, by simp [Fragment.isLast, hstatus], rfl⟩
  | puts hfinished => exact ⟨hfits, hfinished⟩
  | @tooLate f p hclosed hp =>
    refine ⟨?_, hp⟩
    by_cases hreadable : Readable l w.exchange
    · have haccepting : (w.exchange.queue l.queue).accepting = false := by
        simpa [Queue.isClosed, hreadable.reading] using hclosed
      exact hexcused (h.closed haccepting)
    · exact hexcused (h.excused_of_not_readable hreadable)
  | seals => exact ⟨hfits.1, by simp [Fragment.isLast, hfits.2], rfl⟩
  | meets => exact h.clients _ hfits
  | marksActive | marksOther | quitsContext => exact Known.drifts hfits hdrifts
  | @firesOwn client p hown hp =>
    refine ⟨.inl ?_, hp⟩
    have hthere := hfits.there
    rw [hown] at hthere
    simp [fired_fire, hown, hthere]
  | firesOther hother => exact ⟨Known.drifts hfits hdrifts, hother⟩
  | passes => exact hfits.2 _
  | ebbs => exact ⟨hexcused hfits.1, hfits.2.2 _⟩

/-- A last delivery that has just found the call is the only one that has it. -/
theorem Inv.eq_of_unclaimed_after (hmove : Move l w role role' w') (hunclaimed : role'.unclaimed = true)
    (hj : roles[j]? = some r) (hr : r.unclaimed = true) : j = i := by
  obtain hbefore | hfind := hmove.of_unclaimed hunclaimed
  · exact h.one j i r role hj hi hr hbefore
  · have hfits := h.fits j r hj
    have habsent : (w.exchange.table l.table).find? l.id = none := by
      cases r with
      | found f => exact (hfits.2 hr).1
      | claiming f => exact hfits.2.2.1
      | _ => cases hr
    rw [hfind] at habsent
    cases habsent

theorem Inv.one_after (hmove : Move l w role role' w') {k : Nat} {r' : Role}
    (hj : (roles.set i role')[j]? = some r) (hk : (roles.set i role')[k]? = some r')
    (hr : r.unclaimed = true) (hr' : r'.unclaimed = true) : j = k := by
  obtain ⟨rfl, rfl⟩ | ⟨-, hoj⟩ := eq_or_of_getElem?_set hj
  · obtain ⟨rfl, -⟩ | ⟨-, hok⟩ := eq_or_of_getElem?_set hk
    · rfl
    · exact (h.eq_of_unclaimed_after hi hmove hr hok hr').symm
  · obtain ⟨rfl, rfl⟩ | ⟨-, hok⟩ := eq_or_of_getElem?_set hk
    · exact h.eq_of_unclaimed_after hi hmove hr' hoj hr
    · exact h.one j k r r' hoj hok hr hr'

theorem Inv.drifts (hmove : Move l w role role' w') : Drifts l w.exchange w'.exchange := by
  obtain hpasses | ⟨hebbs, -⟩ | ⟨-, hleaves⟩ | ⟨f, -, -, heq⟩ := hmove.effects (h.fits i role hi) hi
  · exact hpasses.toDrifts
  · exact hebbs.toDrifts
  · exact hleaves.toDrifts
  · rw [heq]
    exact drifts_claimCompletion

theorem Inv.closed_after (hmove : Move l w role role' w')
    (hclosed : (w'.exchange.queue l.queue).accepting = false) :
    Excused l w'.exchange (roles.set i role') := by
  have hbefore (hsame : (w'.exchange.queue l.queue).accepting = (w.exchange.queue l.queue).accepting) :
      Excused l w'.exchange (roles.set i role') :=
    (h.closed (hsame ▸ hclosed)).move hmove hi (h.drifts hi hmove)
  obtain hpasses | ⟨-, hexcused⟩ | ⟨-, hleaves⟩ | ⟨f, -, -, heq⟩ := hmove.effects (h.fits i role hi) hi
  · exact hbefore hpasses.accepting
  · exact hexcused
  · exact hbefore hleaves.accepting
  · exact hbefore (by rw [heq, queue_claimCompletion])

/-- A step of another keeps nothing from the reader. -/
theorem Inv.readable_after (hmove : Move l w role role' w') (hji : j ≠ i) (hj : roles[j]? = some r)
    (hlooks : r.looks = true) (hreadable : Readable l w.exchange) : Readable l w'.exchange := by
  obtain hpasses | ⟨hebbs, -⟩ | ⟨hreads, -⟩ | ⟨f, -, hclaim, heq⟩ := hmove.effects (h.fits i role hi) hi
  · exact hreadable.ebbs hpasses.toEbbs
  · exact hreadable.ebbs hebbs
  · have hzero := h.reader i role hi hreads
    have hzero' := h.reader j r hj (Role.reads_of_looks hlooks)
    omega
  · have huncancelled := hreadable.uncancelled
    have hreading := hreadable.reading
    rw [heq]
    constructor <;> simp [hclaim, huncancelled, hreading]

/-- Each step keeps what holds throughout. -/
theorem Inv.move (hmove : Move l w role role' w') : Inv l w' (roles.set i role') := by
  have hfits := h.fits i role hi
  have heffects := hmove.effects hfits hi
  have hdrifts := h.drifts hi hmove
  obtain ⟨hlength, hclients⟩ := hmove.clients hfits
  refine
    { shutdown := hdrifts.shutdown.trans h.shutdown
      entries := fun e he => h.entries e (hdrifts.entries he)
      closed := h.closed_after hi hmove
      one := fun j k r r' hj hk => h.one_after hi hmove hj hk
      clients := ?clients, completing := ?completing, reader := ?reader, fits := ?fits }
  case clients =>
    intro c hc
    rw [hlength] at hc
    obtain ⟨htable, hshutdown⟩ := hclients c
    have hknown := (h.clients c hc).drifts hdrifts
    exact ⟨htable.trans hknown.table, hshutdown ▸ hknown.shutdown, hshutdown ▸ hknown.there⟩
  case completing =>
    intro hclaim
    apply hdrifts.absent
    obtain hpasses | ⟨hebbs, -⟩ | ⟨-, hleaves⟩ | ⟨f, rfl, -⟩ := heffects
    · exact h.completing (hpasses.claim ▸ hclaim)
    · exact h.completing (hebbs.claim ▸ hclaim)
    · exact h.completing (hleaves.completing hclaim)
    · exact hfits.2.2.1
  case reader =>
    intro j r hj hreads
    obtain ⟨rfl, rfl⟩ | ⟨-, hj⟩ := eq_or_of_getElem?_set hj
    · exact h.reader j role hi (hmove.of_reads hreads)
    · exact h.reader j r hj hreads
  case fits =>
    intro j r hj
    obtain ⟨rfl, rfl⟩ | ⟨hji, hj⟩ := eq_or_of_getElem?_set hj
    · exact h.fits_after hi hmove hdrifts
    · refine (h.fits j r hj).keep hdrifts hlength (fun hbefore => hbefore.move hmove hi hdrifts)
        (h.readable_after hi hmove hji hj) fun hunclaimed hclaim => ?_
      obtain hpasses | ⟨hebbs, -⟩ | ⟨-, hleaves⟩ | ⟨f, rfl, -⟩ := heffects
      · rwa [hpasses.claim]
      · rwa [hebbs.claim]
      · exact fun hcompleting => hclaim (hleaves.completing hcompleting)
      · exact absurd (h.one j i r _ hj hi hunclaimed rfl) hji

end Keeping

end Switchboard.Shutdown
