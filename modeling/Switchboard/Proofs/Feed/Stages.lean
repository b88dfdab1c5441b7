import Switchboard.Proofs.Feed.Asking
import Switchboard.Proofs.Feed.Items
/-!
A company of one who uses a subscription and of others: how all of them stand as long as he reads, in whatever order
their steps fall.
-/
namespace Switchboard.Feed

open Exchange Process World Receiving

variable {c : ClientId} {l : Listener} {w : World} {closing : Bool} {rest : Use → Process World Told} {t : Stand}
  {before : List Fragment} {d : Company World Told} {q : Process World Told}

/-- One of the others. Whatever he meets, he lets the call come to its end; and he keeps to the protocol as long as the
number of the call is its own. Who has destroyed the client knows that the call is out of the table. -/
structure Other (c : ClientId) (l : Listener) (x : Exchange) (q : Process World Told) : Prop where
  drifts : q.All (Drifts c l) fun _ => True
  knows : ∃ k : Know, k.Fits l x ∧ q.Obeys (Scene c l) (Acts c l) (fun k' told => told = .destroyed → k' = .out) k

/-- How all stand while one reads, or when he has just come to the end of his reading. -/
structure Stage (c : ClientId) (l : Listener) (w : World) (closing : Bool) (rest : Use → Process World Told)
    (t : Stand) (accepted : List Fragment) (d : Company World Told) : Prop where
  scene : Scene c l d.state
  quiet : Quiet c w d.state
  holds : t.Holds l accepted d.state.exchange
  programs : ∃ p others, d.programs = (withinExchange p >>= rest) :: others ∧
    p.Obeys (Sound l) (Move l) (Comes l closing) t ∧ ∀ q ∈ others, Other c l d.state.exchange q

theorem Other.keep {x y : Exchange} (h : Other c l x q) (hkeeps : Keeps l x y) : Other c l y q := by
  obtain ⟨k, hfits, hobeys⟩ := h.knows
  exact ⟨h.drifts, k, hfits.keep hkeeps, hobeys⟩

/-- A step of one of the others. -/
theorem Other.step {next : World → Process World Told} {effect : World → World} {v : World} (hv : Scene c l v)
    (h : Other c l v.exchange (.step next effect)) :
    Quiet c v (effect v) ∧ Supplies l v.exchange (effect v).exchange ∧ Other c l (effect v).exchange (next v) := by
  obtain ⟨k, hfits, hobeys⟩ := h.knows
  obtain ⟨k', ⟨hquiet, hstep⟩, hnext⟩ := hobeys v hv
  obtain ⟨hsupplies, hfits'⟩ := hstep hfits
  exact ⟨hquiet, hsupplies, h.drifts.2 v, k', hfits', hnext⟩

theorem Scene.keep {v v' : World} (h : Scene c l v) (hquiet : Quiet c v v') (hsound : Sound l v'.exchange) :
    Scene c l v' := ⟨hsound, hquiet.table.trans h.table, hquiet.shutdown.trans h.shutdown⟩

/-- What comes of some steps: one still reads, or has just come to the end of his reading; or he has gone on to
something else from there. -/
inductive Leads (c : ClientId) (l : Listener) (w : World) (closing : Bool) (rest : Use → Process World Told)
    (t : Stand) (accepted : List Fragment) (d : Company World Told) (order : List Nat) : Prop where
  | stays {t' : Stand} (hstage : Stage c l w closing rest t' (accepted ++ entered l order d) (d.follow order))
      (hprogress : Progress l (order.count 0) t d.state.exchange t' (d.follow order).state.exchange)
  | leaves {before after : List Nat} {t' : Stand} {u : Use} {next : World → Process World Told}
      {effect : World → World} (horder : order = before ++ 0 :: after)
      (hstage : Stage c l w closing rest t' (accepted ++ entered l before d) (d.follow before))
      (hprogress : Progress l (before.count 0) t d.state.exchange t' (d.follow before).state.exchange)
      (hcomes : Comes l closing t' u) (hrest : rest u = .step next effect)
      (hprogram : (d.follow before).programs[0]? = some (rest u))

theorem Stage.advance {accepted : List Fragment} (h : Stage c l w closing rest t accepted d) (i : Nat) :
    (∃ t', Stage c l w closing rest t' (accepted ++ appended l.queue d.state.exchange (d.advance i).state.exchange)
        (d.advance i) ∧ Progress l ([i].count 0) t d.state.exchange t' (d.advance i).state.exchange) ∨
      i = 0 ∧ ∃ u next effect, Comes l closing t u ∧ rest u = .step next effect ∧ d.programs[0]? = some (rest u) := by
  obtain ⟨v, programs⟩ := d
  obtain ⟨hscene, hquiet, hholds, p, others, rfl, hobeys, hothers⟩ := h
  have hrests (hnothing : Company.advance i ⟨v, (withinExchange p >>= rest) :: others⟩ =
      ⟨v, (withinExchange p >>= rest) :: others⟩) : ∃ t', Stage c l w closing rest t'
        (accepted ++ appended l.queue v.exchange
          (Company.advance i ⟨v, (withinExchange p >>= rest) :: others⟩).state.exchange)
        (Company.advance i ⟨v, (withinExchange p >>= rest) :: others⟩) ∧ Progress l ([i].count 0) t v.exchange t'
          (Company.advance i ⟨v, (withinExchange p >>= rest) :: others⟩).state.exchange := by
    rw [hnothing, appended_of_le (Nat.le_refl _), List.append_nil]
    exact ⟨t, ⟨hscene, hquiet, hholds, p, others, rfl, hobeys, hothers⟩, .refl _ t _⟩
  cases i with
  | zero =>
    cases p with
    | done u =>
      cases hrest : rest u with
      | done told =>
        have hturn : ((withinExchange (.done u) >>= rest) :: others)[0]? = some (.done told) := congrArg some hrest
        exact .inl (hrests (by simp only [Company.advance, hturn]))
      | step next effect => exact .inr ⟨rfl, u, next, effect, hobeys, hrest, rfl⟩
    | step next effect =>
      obtain ⟨t', hmove, hnext⟩ := hobeys v.exchange hscene.sound
      have hkeeps := hmove.keeps hscene.sound hholds
      refine .inl ⟨t', ?_, hmove.progress hkeeps⟩
      show Stage c l w closing rest t' (accepted ++ appended l.queue v.exchange (effect v.exchange))
        ⟨{ v with exchange := effect v.exchange }, (withinExchange (next v.exchange) >>= rest) :: others⟩
      rw [appended_of_le hmove.fragments_le, List.append_nil]
      have hstep : Quiet c v { v with exchange := effect v.exchange } := ⟨rfl, fun _ => rfl, .inl rfl⟩
      exact ⟨hscene.keep hstep hkeeps.sound, hquiet.trans hstep, hmove.holds hscene.sound hholds, next v.exchange,
        others, rfl, hnext, fun q hq => (hothers q hq).keep hkeeps⟩
  | succ i =>
    left
    cases hi : others[i]? with
    | none => exact hrests (by simp only [Company.advance, List.getElem?_cons_succ, hi])
    | some q =>
      have hq := hothers q (List.mem_of_getElem? hi)
      cases q with
      | done told => exact hrests (by simp only [Company.advance, List.getElem?_cons_succ, hi])
      | step next effect =>
        obtain ⟨hstep, hsupplies, hq'⟩ := hq.step hscene
        have hadvance : Company.advance (i + 1) ⟨v, (withinExchange p >>= rest) :: others⟩ =
            ⟨effect v, (withinExchange p >>= rest) :: others.set i (next v)⟩ := by
          simp only [Company.advance, List.getElem?_cons_succ, hi, List.set_cons_succ]
        rw [hadvance]
        refine ⟨t, ⟨hscene.keep hstep hsupplies.sound, hquiet.trans hstep, hholds.supply hsupplies, p, _, rfl, hobeys,
          fun q hmem => ?_⟩, hsupplies.progress⟩
        obtain hmem | rfl := List.mem_or_eq_of_mem_set hmem
        · exact (hothers q hmem).keep hsupplies.toKeeps
        · exact hq'

theorem Stage.follow {accepted : List Fragment} (h : Stage c l w closing rest t accepted d) (order : List Nat) :
    Leads c l w closing rest t accepted d order := by
  induction order generalizing t accepted d with
  | nil => exact .stays (by rw [entered, List.append_nil]; exact h) (.refl _ t _)
  | cons i later ih =>
    obtain ⟨t₁, hfirst, hprogress⟩ | ⟨rfl, u, next, effect, hcomes, hrest, hprogram⟩ := h.advance i
    · have hentered (order : List Nat) : accepted ++ entered l (i :: order) d =
          accepted ++ appended l.queue d.state.exchange (d.advance i).state.exchange ++ entered l order (d.advance i) := by
        rw [entered, List.append_assoc]
      have hcount (order : List Nat) : (i :: order).count 0 = [i].count 0 + order.count 0 := by
        rw [← List.singleton_append, List.count_append]
      cases ih hfirst with
      | stays hstage hlater =>
        refine .stays (hentered later ▸ hstage) ?_
        rw [hcount]
        exact hprogress.trans hlater
      | @leaves before after _ _ _ _ horder hstage hlater hcomes hrest hprogram =>
        have horder' : i :: later = (i :: before) ++ 0 :: after := by rw [horder, List.cons_append]
        refine .leaves horder' (hentered before ▸ hstage) ?_ hcomes hrest hprogram
        rw [hcount]
        exact hprogress.trans hlater
    · have horder : 0 :: later = [] ++ 0 :: later := rfl
      exact .leaves horder (by rw [entered, List.append_nil]; exact h) (.refl _ t _) hcomes hrest hprogram

end Switchboard.Feed
