import Switchboard.Proofs.Api.EngineError
import Switchboard.Proofs.Receiving.Answer
import Switchboard.Proofs.Receiving.Fused
/-!
What becomes of a fragment with the status of an error: whoever waits for the answer, and whoever reads it item by item,
is shown the error that its payload reports, or the payload as a text if it reports none.
-/
namespace Switchboard

namespace Receiving

open Exchange

variable {α : Type} {l : Listener} {x : Exchange} {suppliers : List Supplier} {order : List Nat} {payload : Bytes}
  {as bs : List (Except ClientError α)} {got : List (Got α)}

/-- Whoever gets all of a sequence gets each of its items, unless he closes it. -/
theorem Yields.mem_of_mem (h : Yields as got []) (hopen : .closed ∉ got) : ∀ a ∈ as, .next (some a) ∈ got := by
  generalize hbs : [] = bs at h
  induction h with
  | nothing as =>
    subst hbs
    exact nofun
  | item h ih =>
    have hrest := ih (fun hclosed => hopen (List.mem_cons_of_mem _ hclosed)) hbs
    exact List.forall_mem_cons.2 ⟨List.mem_cons_self, fun a ha => List.mem_cons_of_mem _ (hrest a ha)⟩
  | noMore => exact nofun
  | closed => exact absurd List.mem_cons_self hopen

/-- Whoever gets something of a sequence gets what is in it. -/
theorem Yields.mem_of_next (h : Yields as got bs) {a : Except ClientError α} (ha : .next (some a) ∈ got) : a ∈ as := by
  induction h with
  | nothing => cases ha
  | item h ih =>
    obtain heq | ha := List.mem_cons.1 ha
    · cases heq
      exact List.mem_cons_self
    · exact List.mem_cons_of_mem _ (ih ha)
  | noMore h ih | closed h ih =>
    obtain heq | ha := List.mem_cons.1 ha
    · cases heq
    · cases ih ha

/-- The only failure among the items of fragments is the first error. -/
theorem error_mem_items {fs : List Fragment} {e : ClientError} :
    .error e ∈ items fs ↔ ∃ payload, firstOf .error fs = some payload ∧ e = .foreign (EngineError.ofPayload payload) := by
  rw [items, List.mem_append, List.mem_map, List.mem_map]
  constructor
  · rintro (⟨f, -, hf⟩ | ⟨payload, hpayload, h⟩)
    · cases hf
    · cases h
      exact ⟨payload, Option.mem_toList.1 hpayload, rfl⟩
  · rintro ⟨payload, hpayload, rfl⟩
    exact .inr ⟨payload, Option.mem_toList.2 hpayload, rfl⟩

/-- How an error comes out whose payload is the first one with the status of an error that the queue of a call has
accepted. -/
structure Surfaces (payload : Bytes) (e : EngineError) : Prop where
  /-- Whoever waits for the answer and comes to a result comes to this error. -/
  waited : ∀ (x : Exchange) (l : Listener) (suppliers : List Supplier) (times order : List Nat), x.Ready l →
    (∀ s ∈ suppliers, s.IsFor l) → firstOf .error (accepted l order (company x l (wait l times) suppliers)) = some payload →
    ∀ r, ((company x l (wait l times) suppliers).follow order).result? 0 = some (.read (some r)) →
      r = .error (.foreign e)
  /-- Whoever reads the answer item by item, to its end and without closing it, is shown this error and no other. -/
  read : ∀ (x : Exchange) (l : Listener) (suppliers : List Supplier) (wishes : List Wish) (order : List Nat), x.Ready l →
    (∀ s ∈ suppliers, s.IsFor l) → firstOf .error (accepted l order (reading .plain x l wishes suppliers)) = some payload →
    ∀ got s, ((reading .plain x l wishes suppliers).follow order).result? 0 = some (.read (got, s)) →
      (∃ g ∈ got, g.Ends) → .closed ∉ got → ∀ f, .next (some (.error f)) ∈ got ↔ f = .foreign e

theorem surfaces_ofPayload (payload : Bytes) : Surfaces payload (EngineError.ofPayload payload) where
  waited x l suppliers times order hready hfor hfirst r hr := by
    rw [(wait_answer hready hfor hr).1, aggregate, hfirst]
  read x l suppliers wishes order hready hfor hfirst got s h hends hopen f := by
    obtain ⟨t, roles, hstands⟩ := stands_follow hready hfor (obeys_reading .plain l wishes) order
    obtain ⟨_, ha, hconsumed⟩ := hstands.told h
    cases ha
    have hover := hconsumed.over_of_ends hends
    obtain ⟨hread, hended⟩ := hover.read_of_holds hstands.inv.holds
    have hyields := hover.yields _ hread hended
    rw [Manner.sequence_plain] at hyields
    have hmem : .next (some (.error f)) ∈ got ↔ .error f ∈ items (accepted l order (reading .plain x l wishes suppliers)) :=
      ⟨hyields.mem_of_next, hyields.mem_of_mem hopen _⟩
    rw [hmem, error_mem_items]
    constructor
    · rintro ⟨payload', hpayload, rfl⟩
      cases hfirst.symm.trans hpayload
      rfl
    · rintro rfl
      exact ⟨payload, hfirst, rfl⟩

end Receiving

namespace EngineError

/-- What a payload with the status of an error comes to. -/
structure Reported (payload : Bytes) : Prop where
  /-- An object with the members of an error is that error. -/
  object : ∀ members e, Spells payload (.record members) → Named members e → ofPayload payload = e
  /-- So is a list with the items of an error. -/
  list : ∀ items e, Spells payload (.list items) → Listed items e → ofPayload payload = e
  /-- Any other payload is a text with code 0 and without data. -/
  text : (∀ members e, Spells payload (.record members) → ¬Named members e) →
    (∀ items e, Spells payload (.list items) → ¬Listed items e) → ofPayload payload = plain payload
  /-- This is so for every payload that does not begin with a bracket. -/
  unbracketed : (∀ rest, Json.skipBlank (Utf8.pieces payload) ≠ .char '{' :: rest ∧
    Json.skipBlank (Utf8.pieces payload) ≠ .char '[' :: rest) → ofPayload payload = plain payload
  /-- The error comes out wherever the answer is read. -/
  surfaces : Receiving.Surfaces payload (ofPayload payload)

/-- A payload is read as an error just if it is an object, or a list, with the parts of one; else it keeps its text. -/
theorem reported_exactly (payload : Bytes) : Reported payload where
  object members e hspells h := ofPayload_of_read (read_eq_ok.2 (.inl ⟨members, hspells, h⟩))
  list items e hspells h := ofPayload_of_read (read_eq_ok.2 (.inr ⟨items, hspells, h⟩))
  text hobject hlist := by
    refine ofPayload_of_not_read fun e he => ?_
    obtain ⟨members, hspells, h⟩ | ⟨items, hspells, h⟩ := read_eq_ok.1 he
    · exact hobject members e hspells h
    · exact hlist items e hspells h
  unbracketed hstart := by
    refine ofPayload_of_not_read fun e he => ?_
    obtain ⟨rest, h | h⟩ := bracket_of_read he
    · exact (hstart rest).1 h
    · exact (hstart rest).2 h
  surfaces := Receiving.surfaces_ofPayload payload

/-- A list of a number and a text. -/
def pair : Bytes := Utf8.encode "[5,\"x\"]"

/-- It is the text of no object, but it does not keep its text and is an error with the code 5. -/
theorem text_lost_of_pair : (∀ members, ¬Spells pair (.record members)) ∧ (ofPayload pair).code = 5 ∧
    (ofPayload pair).message = "x" ∧ ofPayload pair ≠ plain pair := by
  have hcode : (ofPayload pair).code = 5 := by decide +kernel
  refine ⟨fun members h => ?_, hcode, by decide +kernel, fun h => ?_⟩
  · have hlist : (match (Json.Text.ofBytes pair).root with | .record _ => true | _ => false) = false := by decide +kernel
    rw [h] at hlist
    cases hlist
  · have hzero : (plain pair).code = 0 := rfl
    rw [← h, hcode] at hzero
    exact absurd hzero (by decide)

end EngineError

end Switchboard
