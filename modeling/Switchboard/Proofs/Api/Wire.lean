import Switchboard.Proofs.Api.Forms
import Switchboard.Proofs.Settings.Forms
/-!
What travels as JSON is read back. A text may have been spelled in many ways, with fields out of order or without their
names, unknown names, values left out; what has been read from it is written in one way, and that is read as the same.
-/
namespace Switchboard

open Form

/-- A type of values that travel as JSON, with its form. -/
structure WireType where
  {Carrier : Type}
  [floats : HoldsFloats Carrier]
  form : Form Carrier

namespace WireType

attribute [instance] WireType.floats

open Api in
/-- All types of values that are both read and written: the settings and their parts, the error that the engine reports,
and the parameters and results of the engine's methods. The items of a subscription are missing, which are never written. -/
def all : List WireType :=
  [⟨Settings.form⟩, ⟨Settings.Binding.form⟩, ⟨Settings.QueriesProtocol.form⟩, ⟨Settings.Network.form⟩,
    ⟨Settings.Dictionary.form⟩, ⟨Settings.Crypto.form⟩, ⟨Settings.Abi.form⟩, ⟨Settings.Boc.form⟩, ⟨Settings.Proofs.form⟩,
    ⟨EngineError.form⟩, ⟨EngineVersion.form⟩, ⟨BuildDependency.form⟩, ⟨BuildInfo.form⟩, ⟨ApiReference.form⟩,
    ⟨AppResult.form⟩, ⟨AppReply.form⟩, ⟨SortDirection.form⟩, ⟨OrderBy.form⟩, ⟨QueryParams.form⟩, ⟨QueryResult.form⟩,
    ⟨WaitForParams.form⟩, ⟨WaitForResult.form⟩, ⟨SubscribeCollectionParams.form⟩, ⟨SubscribeParams.form⟩,
    ⟨SubscriptionHandle.form⟩, ⟨Abi.form⟩, ⟨KeyPair.form⟩, ⟨Signer.form⟩, ⟨FunctionHeader.form⟩, ⟨CallSet.form⟩,
    ⟨DeploySet.form⟩, ⟨EncodeMessageParams.form⟩, ⟨EncodedMessage.form⟩, ⟨ProcessingEvent.form⟩, ⟨SendMessageParams.form⟩,
    ⟨SentMessage.form⟩, ⟨WaitForTransactionParams.form⟩, ⟨DecodedOutput.form⟩, ⟨ProcessedMessage.form⟩,
    ⟨ProcessMessageParams.form⟩, ⟨AddressFormat.form⟩, ⟨ConvertAddressParams.form⟩, ⟨ConvertedAddress.form⟩]

/-- What has been read of the type is read back from its own text. -/
def RereadsTexts (w : WireType) : Prop :=
  ∀ (octets : Bytes) (v : w.Carrier), w.form.read octets = .ok v → Exact v →
    w.form.read (Utf8.encode (w.form.write v)) = .ok v

theorem rereadsTexts_of_stable {α : Type} [HoldsFloats α] (f : Form α) [s : Stable f] (hdepth : s.depth ≤ 127) :
    RereadsTexts ⟨f⟩ :=
  fun _ _ hread hexact => Stable.read_write hdepth hread hexact

theorem rereadsTexts_all : ∀ w ∈ all, w.RereadsTexts := by
  simp only [all, List.forall_mem_cons]
  repeat refine ⟨rereadsTexts_of_stable _ (by decide), ?_⟩
  exact fun _ h => nomatch h

/-- Whatever text a value has been read from, its own text is read as the same value, so that it is written the same again.
The floats in it are taken to be read back from their texts. -/
theorem read_write_of_read {w : WireType} (hw : w ∈ all) {octets : Bytes} {v : w.Carrier}
    (hread : w.form.read octets = .ok v) (hexact : Exact v) :
    w.form.read (Utf8.encode (w.form.write v)) = .ok v :=
  rereadsTexts_all w hw octets v hread hexact

/-- A section of settings that is a list, with a float in it. -/
theorem read_write_of_read_listed :
    Settings.form.read (Utf8.encode (Settings.form.write { abi := some ⟨none, none, some ⟨0x3FC00000⟩⟩ })) =
      .ok { abi := some ⟨none, none, some ⟨0x3FC00000⟩⟩ } := by
  have hread : Settings.form.read (Utf8.encode "\x7b\"abi\":[null,null,1.5]\x7d") =
      .ok { abi := some ⟨none, none, some ⟨0x3FC00000⟩⟩ } := eq_ok_of_toOption (by decide +kernel)
  have hfloat : Exact (⟨0x3FC00000⟩ : Single) :=
    Single.readsBack_of_numeral (n := ⟨false, [1], [5], none⟩) (by decide +kernel)
      (eq_ok_of_toOption (by decide +kernel))
  exact read_write_of_read (w := ⟨Settings.form⟩) (by simp [all]) hread
    (by simpa [Exact] using hfloat)

end WireType

end Switchboard
