import Switchboard.Proofs.Exchange.Looks
import Switchboard.Proofs.Session.Basic
/-!
Whatever a reader does, it reads its own call, and the call is over when the reader is.
-/
namespace Switchboard.Reader

open Exchange

variable {l : Listener} {x : Exchange}

/-- A reader that is active has the listener that its call was issued with. -/
def On (l : Listener) : Reader → Prop
  | .handle l' => l' = l
  | .waiting w => w.listener = l
  | .subscription s => (⟨l, false⟩ : Subscription).Follows s
  | .answered _ | .dropped => True

theorem isGone_of_active {r : Reader} (h : r.active = true) : r.isGone = false := by
  cases r with
  | handle | waiting | subscription => rfl
  | answered | dropped => cases h

/-- A reader that does nothing. -/
theorem reads_nothing {r : Reader} (hover : r.active = false → ¬ x.Live l) :
    Reads l x [] (!r.active) r.isGone x where
  onward := .refl l x
  taken := List.nil_prefix
  left _ := rfl
  live hlive _ := hlive
  ended hlive hended := absurd hlive (hover (by simpa using hended))

/-- A subscription that has not been over reads on. -/
theorem reads_subscription {s : Subscription} {read : List Fragment} {y : Exchange}
    (h : (⟨l, false⟩ : Subscription).Follows s ∧ Reads l x read s.exhausted false y) :
    Reads l x read (!(Reader.subscription s).active) (Reader.subscription s).isGone y ∧
      (Reader.subscription s).On l := by
  obtain ⟨hfollows, hreads⟩ := h
  refine ⟨?_, hfollows⟩
  simpa only [active, isGone, Bool.not_not] using hreads

/-- Whatever a reader does, it reads its own call, and the call is over when the reader is. -/
theorem act_reads (a : Act) {r : Reader} (hon : r.On l) (hover : r.active = false → ¬ x.Live l) :
    Reads l x (r.act a x).1.1 (!(r.act a x).1.2.active) (r.act a x).1.2.isGone (r.act a x).2 ∧
      (r.act a x).1.2.On l := by
  cases r with
  | answered | dropped => cases a <;> exact ⟨reads_nothing hover, hon⟩
  | handle l' =>
    cases a with
    | wait => exact ⟨reads_nothing (r := .handle l') hover, hon⟩
    | subscribe =>
      cases hon
      exact ⟨reads_nothing (r := .handle l) hover, .inl rfl⟩
    | drop =>
      cases hon
      exact ⟨.gone (l.onward_release x) Listener.release_of_live, trivial⟩
    | _ => exact ⟨reads_nothing hover, hon⟩
  | waiting w =>
    cases a with
    | poll now =>
      obtain ⟨hreads, hsame⟩ := w.read_reads now x
      cases hon
      simp only [act, stateM_bind, stateM_pure]
      cases hresult : (w.read now x).1.2.2 with
      | none =>
        rw [hresult] at hreads
        exact ⟨hreads, hsame hresult⟩
      | some result =>
        rw [hresult] at hreads
        exact ⟨hreads, trivial⟩
    | drop =>
      cases hon
      exact ⟨.gone (w.listener.onward_release x) Listener.release_of_live, trivial⟩
    | _ => exact ⟨reads_nothing hover, hon⟩
  | subscription s =>
    have hnothing : Reads l x [] s.exhausted false x := by
      simpa only [active, isGone, Bool.not_not] using reads_nothing hover
    cases a with
    | next =>
      simp only [act, stateM_bind, stateM_pure]
      obtain rfl | ⟨hdone, -⟩ := id hon
      · exact reads_subscription (Subscription.read_reads (s := ⟨l, false⟩) rfl x)
      · rw [Subscription.read_of_exhausted hdone]
        exact reads_subscription ⟨hon, hnothing⟩
    | nextDecoded decode =>
      simp only [act, stateM_bind, stateM_pure]
      obtain rfl | ⟨hdone, -⟩ := id hon
      · obtain ⟨hfollows, hreads⟩ := Subscription.read_reads (s := ⟨l, false⟩) rfl x
        exact reads_subscription (Subscription.decoded_reads decode hfollows hreads)
      · rw [Subscription.read_of_exhausted hdone]
        exact reads_subscription ⟨hon, hnothing⟩
    | close =>
      simp only [act, stateM_bind, stateM_pure]
      refine reads_subscription ⟨hon.close x, ?_⟩
      rw [s.close_exhausted]
      exact hon.reads_close hnothing
    | drop =>
      refine ⟨.gone (hon.onward (s.listener.onward_release x)) fun hlive => ?_, trivial⟩
      obtain rfl | ⟨hdone, -⟩ := hon
      · exact Listener.release_of_live hlive
      · exact absurd hlive (hover (by simp [active, hdone]))
    | _ => exact ⟨reads_nothing hover, hon⟩

/-- A reader that has come to an end stays there. -/
theorem act_inactive {a : Act} {r : Reader} (hinactive : r.active = false) :
    (r.act a x).1.2.active = false := by
  cases r with
  | handle | waiting => cases hinactive
  | answered | dropped => cases a <;> rfl
  | subscription s =>
    have hdone : s.exhausted = true := by simpa [active] using hinactive
    cases a with
    | next =>
      simp only [act, stateM_bind, stateM_pure, Subscription.read_of_exhausted hdone]
      exact hinactive
    | nextDecoded decode =>
      simp only [act, stateM_bind, stateM_pure, Subscription.read_of_exhausted hdone]
      exact hinactive
    | close =>
      simp only [act, stateM_bind, stateM_pure, active, s.close_exhausted]
      rfl
    | drop => rfl
    | _ => exact hinactive

end Switchboard.Reader
