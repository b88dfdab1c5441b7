import Switchboard.Client.Payload
import Switchboard.Proofs.Api.Params
/-!
The engine is sent what it is given. Parameters are sent as JSON with sorted names, and null as nothing at all; whoever
reads the payload has the same parameters again.
-/
namespace Switchboard

open Form

section Payload

variable {α : Type} {form : Form α} {d : Doc} {a : α}

theorem encodeParams_of_ne_null (h : d ≠ .null) : encodeParams d = Utf8.encode (Json.write d.sorted) := by
  cases d with
  | null => exact absurd rfl h
  | _ => rfl

theorem ofBytes_nullPayload : Json.Text.ofBytes nullPayload = ⟨.null, true⟩ := Json.Text.ofBytes_write .null

theorem ofBytes_encodeParams (hd : d.Legible) (h : d ≠ .null) :
    Json.Text.ofBytes (encodeParams d) = ⟨d.sorted, true⟩ := by
  rw [encodeParams_of_ne_null h, Json.Text.ofBytes_write hd.sorted]

/-- Nothing is sent for null, and only for null. -/
theorem encodeParams_eq_nil_iff (hd : d.Legible) : encodeParams d = [] ↔ d = .null := by
  constructor
  · refine fun hempty => Classical.byContradiction fun hnull => ?_
    -- a text without anything in it breaks off before there is a document, and a gap is not legible
    have htext := ofBytes_encodeParams hd hnull
    rw [hempty] at htext
    have hroot : d.sorted = .gap .cut := (congrArg Json.Text.root htext).symm
    have hlegible := hd.sorted
    rw [hroot] at hlegible
    cases hlegible
  · rintro rfl
    rfl

/-- The text of null is never sent. -/
theorem encodeParams_ne_nullPayload (hd : d.Legible) : encodeParams d ≠ nullPayload := by
  intro hpayload
  by_cases hnull : d = .null
  · subst hnull
    revert hpayload
    decide
  · have htext := ofBytes_encodeParams hd hnull
    rw [hpayload, ofBytes_nullPayload] at htext
    exact hnull (Doc.sorted_eq_null_iff.1 (congrArg Json.Text.root htext).symm)

/-- What is read from a payload is read from the parameters with sorted names. -/
theorem ofPayload_encodeParams (hd : d.Legible) :
    form.ofPayload (encodeParams d) = form.decode (.ofLanguage .json) d.sorted := by
  by_cases hnull : d = .null
  · subst hnull
    exact read_of_text ofBytes_nullPayload
  · have hfilled : (encodeParams d).isEmpty = false := by
      simpa using mt (encodeParams_eq_nil_iff hd).1 hnull
    rw [ofPayload, hfilled]
    exact read_of_text (ofBytes_encodeParams hd hnull)

/-- What is read back from its document is read back from its payload, if the order of names makes no difference. -/
theorem Form.Rereads.ofPayload [u : form.Unordered] (h : form.Rereads (.ofLanguage .json) a a) :
    form.ofPayload (encodeParams (form.encode a)) = .ok a := by
  rw [ofPayload_encodeParams h.legible, u.decode_sorted h.legible h.decode_encode]

end Payload

/-- A type of parameters, with its form. -/
structure ParamsType where
  {Carrier : Type}
  [floats : HoldsFloats Carrier]
  [values : HoldsValues Carrier]
  form : Form Carrier

namespace ParamsType

attribute [instance] ParamsType.floats ParamsType.values

open Api in
/-- The types of the parameters of all methods, and those of their parts. -/
def all : List ParamsType :=
  [⟨Form.unit⟩, ⟨AppReply.form⟩, ⟨AppResult.form⟩, ⟨QueryParams.form⟩, ⟨OrderBy.form⟩, ⟨SortDirection.form⟩,
    ⟨WaitForParams.form⟩, ⟨SubscribeCollectionParams.form⟩, ⟨SubscribeParams.form⟩, ⟨SubscriptionHandle.form⟩,
    ⟨EncodeMessageParams.form⟩, ⟨Abi.form⟩, ⟨DeploySet.form⟩, ⟨CallSet.form⟩, ⟨FunctionHeader.form⟩, ⟨Signer.form⟩,
    ⟨KeyPair.form⟩, ⟨SendMessageParams.form⟩, ⟨WaitForTransactionParams.form⟩, ⟨ProcessMessageParams.form⟩,
    ⟨ConvertAddressParams.form⟩, ⟨AddressFormat.form⟩]

/-- All parameters of the type that are sound and not nested too deep arrive. -/
def Arrives (w : ParamsType) : Prop :=
  ∀ p : w.Carrier, Exact p → Sound p → (w.form.encode p).depth ≤ 127 →
    w.form.ofPayload (encodeParams (w.form.encode p)) = .ok p

theorem arrives_of_faithful {α : Type} [HoldsFloats α] [HoldsValues α] (form : Form α) [f : form.Faithful]
    [form.Unordered] : Arrives ⟨form⟩ :=
  fun _ hexact hsound hdepth => (f.rereads hdepth hexact hsound).ofPayload

theorem arrives_all : ∀ w ∈ all, w.Arrives := by
  simp only [all, List.forall_mem_cons]
  repeat refine ⟨arrives_of_faithful _, ?_⟩
  exact fun _ h => nomatch h

/-- What is sent is what arrives. Every untyped value that is not nested too deep is read back from its payload, which
is empty for null alone and never the text of null; and so are all parameters of the engine's methods, although their
names are sent in another order. The floats in them are taken to be read back from their texts, and an untyped value that
may be left out is not null. -/
theorem sent_is_received :
    (∀ v : Value, v.WellFormed → v.Exact → v.toDoc.depth ≤ 127 →
        Form.value.ofPayload (encodeParams (Form.value.encode v)) = .ok v) ∧
      (∀ v : Value, v.WellFormed → v.Exact → (encodeParams (Form.value.encode v) = [] ↔ v = .null) ∧
        encodeParams (Form.value.encode v) ≠ nullPayload) ∧
      ∀ w ∈ all, ∀ p : w.Carrier, Exact p → Sound p → (w.form.encode p).depth ≤ 127 →
        w.form.ofPayload (encodeParams (w.form.encode p)) = .ok p := by
  refine ⟨fun v hv hexact hdepth => ?_, fun v hv hexact => ?_, arrives_all⟩
  · exact arrives_of_faithful Form.value v hexact hv hdepth
  · have hlegible : (Form.value.encode v).Legible :=
      (Value.rereads_of_wellFormed (r := ⟨v.toDoc.depth, .json⟩) hv hexact (Nat.le_refl _)).legible
    exact ⟨(encodeParams_eq_nil_iff hlegible).trans hv.toDoc_eq_null_iff, encodeParams_ne_nullPayload hlegible⟩

/-- A value with a float, a null and a negative integer in it. -/
def nested : Value :=
  .object [("a", .double ⟨0x3FF8000000000000⟩), ("b", .array [.null, .integer (-1), .object []])]

/-- A message to send, the interface of which comes after the message in the record, and before it in what is sent. -/
def nestedMessage : Api.SendMessageParams := ⟨"boc", some (.contract nested), true⟩

theorem numeral?_float : (⟨0x3FF8000000000000⟩ : Double).numeral? = some ⟨false, [1], [5], none⟩ := by decide +kernel

theorem readsBack_float : (⟨0x3FF8000000000000⟩ : Double).ReadsBack := by
  intro n hn
  cases numeral?_float.symm.trans hn
  have hinteger : (⟨false, [1], [5], none⟩ : Numeral).integer? = none := by decide +kernel
  have hdouble : (⟨false, [1], [5], none⟩ : Numeral).double? = some ⟨0x3FF8000000000000⟩ := by decide +kernel
  have hlegible : (Doc.numeral ⟨false, [1], [5], none⟩).Legible := .numeral ⟨by simp, by simp, by simp⟩
  exact (read_of_text (Json.Text.ofBytes_write hlegible)).trans (by simp [Form.value, Value.ofDoc, hinteger, hdouble])

theorem wellFormed_nested : nested.WellFormed := by
  have hitems : ∀ v ∈ [.null, .integer (-1), .object []], Value.WellFormed v := by
    simp only [List.forall_mem_cons]
    exact ⟨.null, .integer (by decide) (by decide), .object .nil (by simp), by simp⟩
  refine .object (List.pairwise_pair.2 (by decide)) ?_
  simp only [List.forall_mem_cons]
  exact ⟨.double (by simp [numeral?_float]), .array hitems, by simp⟩

theorem exact_nested : nested.Exact := by
  have hitems : ∀ v ∈ [.null, .integer (-1), .object []], Value.Exact v := by
    simp only [List.forall_mem_cons]
    exact ⟨.null, .integer _, .object (by simp), by simp⟩
  refine .object ?_
  simp only [List.forall_mem_cons]
  exact ⟨.double readsBack_float, .array hitems, by simp⟩

theorem sent_is_received_nested :
    Form.value.ofPayload (encodeParams (Form.value.encode nested)) = .ok nested ∧
      encodeParams (Form.value.encode nested) ≠ [] ∧
      Api.SendMessageParams.form.ofPayload (encodeParams (Api.SendMessageParams.form.encode nestedMessage)) =
        .ok nestedMessage ∧
      encodeParams (Api.SendMessageParams.form.encode nestedMessage) ≠
        Utf8.encode (Api.SendMessageParams.form.write nestedMessage) := by
  have hexact : Exact nestedMessage := by simpa [Exact, nestedMessage] using exact_nested
  have hsound : Sound nestedMessage := by simpa [Sound, IsNull, nestedMessage] using wellFormed_nested
  obtain ⟨hvalues, hempty, hparams⟩ := sent_is_received
  refine ⟨hvalues nested wellFormed_nested exact_nested (by decide), fun hnil => ?_, ?_, by decide +kernel⟩
  · cases (hempty nested wellFormed_nested exact_nested).1.1 hnil
  · exact hparams ⟨Api.SendMessageParams.form⟩ (by simp [all]) nestedMessage hexact hsound (by decide)

end ParamsType

end Switchboard
