import Switchboard.Api.Identity
import Switchboard.Api.Net
import Switchboard.Api.Processing
import Switchboard.Api.Address
import Switchboard.Proofs.Form.Choice
/-!
What has been read of the engine's parameters and results is read back, if the floats in it are.
-/
namespace Switchboard

open Form

instance : HoldsFloats EngineError where
  Exact e := Exact e.data

instance : Stable EngineError.form := stableRecord (by decide) (fun _ => rfl) (by simp [Exact])

namespace Api

section Identity

instance : HoldsFloats EngineVersion where
instance : HoldsFloats BuildDependency where
instance : HoldsFloats BuildInfo where

instance : HoldsFloats ApiReference where
  Exact a := Exact a.api

instance : HoldsFloats AppResult where
  Exact
    | .error _ => True
    | .ok v => Exact v

instance : HoldsFloats AppReply where
  Exact r := Exact r.result

instance : Stable EngineVersion.form := stableRecord (by decide) (fun _ => rfl) (by simp [Exact])

instance : Stable BuildDependency.form := stableRecord (by decide) (fun _ => rfl) (by simp [Exact])

instance : Stable BuildInfo.form := stableRecord (by decide) (fun _ => rfl) (by simp [Exact])

instance : Stable ApiReference.form := stableRecord (by decide) (fun _ => rfl) (by simp [Exact])

instance : Stable AppResult.form :=
  Tagged.stableChoice 0 (fun _ _ => rfl) (fun a => by cases a <;> nofun) fun t a hroom hjson hpick ha => by
    dsimp only [AppResult.errorFields, AppResult.okFields] at hpick
    split at hpick
    · obtain ⟨⟨text, ⟨⟩⟩, hfields, hpick⟩ := bind_eq_ok.1 hpick
      cases hpick
      exact Tagged.picked_of_fields (by decide) hroom hjson hfields (by simp [Exact]) rfl
        fun _ h => bind_eq_ok.2 ⟨_, h, rfl⟩
    · obtain ⟨⟨v, ⟨⟩⟩, hfields, hpick⟩ := bind_eq_ok.1 hpick
      cases hpick
      exact Tagged.picked_of_fields (by decide) hroom hjson hfields (by simpa [Exact] using ha) rfl
        fun _ h => bind_eq_ok.2 ⟨_, h, rfl⟩
    · cases hpick

instance : Stable AppReply.form := stableRecord (by decide) (fun _ => rfl) (by simp [Exact])

end Identity

section Net

instance : HoldsFloats SortDirection where
instance : HoldsFloats OrderBy where
instance : HoldsFloats SubscriptionHandle where

instance : HoldsFloats QueryParams where
  Exact q := Exact q.filter

instance : HoldsFloats QueryResult where
  Exact q := Exact q.result

instance : HoldsFloats WaitForParams where
  Exact w := Exact w.filter

instance : HoldsFloats WaitForResult where
  Exact w := Exact w.result

instance : HoldsFloats SubscribeCollectionParams where
  Exact s := Exact s.filter

instance : HoldsFloats SubscribeParams where
  Exact s := Exact s.arguments

instance : Total SortDirection.form := totalNames fun d => by cases d <;> decide

instance : Stable OrderBy.form := stableRecord (by decide) (fun _ => rfl) (by simp [Exact])

instance : Stable QueryParams.form := stableRecord (by decide) (fun _ => rfl) (by simp [Exact])

instance : Stable QueryResult.form := stableRecord (by decide) (fun _ => rfl) (by simp [Exact])

instance : Stable WaitForParams.form := stableRecord (by decide) (fun _ => rfl) (by simp [Exact])

instance : Stable WaitForResult.form := stableRecord (by decide) (fun _ => rfl) (by simp [Exact])

instance : Stable SubscribeCollectionParams.form := stableRecord (by decide) (fun _ => rfl) (by simp [Exact])

instance : Stable SubscribeParams.form := stableRecord (by decide) (fun _ => rfl) (by simp [Exact])

instance : Stable SubscriptionHandle.form := stableRecord (by decide) (fun _ => rfl) (by simp [Exact])

end Net

section Abi

instance : HoldsFloats KeyPair where
instance : HoldsFloats Signer where
instance : HoldsFloats FunctionHeader where
instance : HoldsFloats EncodedMessage where

instance : HoldsFloats Abi where
  Exact
    | .contract v | .serialized v => Exact v
    | .json _ | .handle _ => True

instance : HoldsFloats CallSet where
  Exact c := Exact c.input

instance : HoldsFloats DeploySet where
  Exact d := Exact d.initialData

instance : HoldsFloats EncodeMessageParams where
  Exact p := Exact p.abi ∧ Exact p.deploySet ∧ Exact p.callSet

instance : Stable KeyPair.form := stableRecord (by decide) (fun _ => rfl) (by simp [Exact])

instance : Stable Signer.form :=
  Tagged.stableChoice 1 (fun _ _ => rfl) (fun a => by cases a <;> nofun) fun t a hroom hjson hpick ha => by
    dsimp only [Signer.externalFields, Signer.keysFields, Signer.signingBoxFields] at hpick
    split at hpick
    · obtain ⟨-, -, hpick⟩ := bind_eq_ok.1 hpick
      cases hpick
      exact Tagged.picked_empty rfl rfl
    · obtain ⟨⟨k, ⟨⟩⟩, hfields, hpick⟩ := bind_eq_ok.1 hpick
      cases hpick
      exact Tagged.picked_of_fields (by decide) (Nat.zero_le _) hjson hfields (by simp [Exact]) rfl
        fun _ h => bind_eq_ok.2 ⟨_, h, rfl⟩
    · obtain ⟨⟨k, ⟨⟩⟩, hfields, hpick⟩ := bind_eq_ok.1 hpick
      cases hpick
      exact Tagged.picked_of_fields (by decide) hroom hjson hfields (by simp [Exact]) rfl
        fun _ h => bind_eq_ok.2 ⟨_, h, rfl⟩
    · obtain ⟨⟨n, ⟨⟩⟩, hfields, hpick⟩ := bind_eq_ok.1 hpick
      cases hpick
      exact Tagged.picked_of_fields (by decide) (Nat.zero_le _) hjson hfields (by simp [Exact]) rfl
        fun _ h => bind_eq_ok.2 ⟨_, h, rfl⟩
    · cases hpick

namespace Abi

variable {β : Type} {f : Form β} {r inner : Reading} {a : Abi} {x : β} {d : Doc} {kind : String}

theorem ofDoc_tagged (henter : r.enter = .ok inner) : ofDoc r (tagged kind d) = ofKind inner kind d := by
  simp [ofDoc, tagged, Doc.object, Doc.text, henter, Fields.checkNames, findMember, isNamed, orMalformed, Doc.variantName,
    bind, Except.bind]

/-- What the name of a form and a value have been read from. -/
theorem exists_of_ofDoc (hd : d.IsJson) (hread : ofDoc r d = .ok a) :
    ∃ inner kind value, r.enter = .ok inner ∧ value.IsJson ∧ ofKind inner kind value = .ok a := by
  unfold ofDoc at hread
  split at hread
  case h_1 members =>
    obtain ⟨inner, henter, hread⟩ := bind_eq_ok.1 hread
    obtain ⟨-, -, hread⟩ := bind_eq_ok.1 hread
    obtain ⟨_, _, hread⟩ := bind_eq_ok.1 hread
    obtain ⟨kind, _, hread⟩ := bind_eq_ok.1 hread
    obtain ⟨found, hfind, hread⟩ := bind_eq_ok.1 hread
    obtain ⟨value, hvalue, hread⟩ := bind_eq_ok.1 hread
    obtain ⟨name, -, hread⟩ := bind_eq_ok.1 hread
    rw [orMalformed_eq_ok.1 hvalue] at hfind
    obtain ⟨m, hm, rfl⟩ := mem_of_findMember hfind
    cases hd with
    | record hd => exact ⟨inner, name, m.2, henter, hd m hm, hread⟩
  case h_2 first value =>
    obtain ⟨inner, henter, hread⟩ := bind_eq_ok.1 hread
    obtain ⟨name, -, hread⟩ := bind_eq_ok.1 hread
    cases hd with
    | list hd => exact ⟨inner, name, value, henter, hd value (by simp), hread⟩
  case h_3 => exact absurd hread (by cases d <;> simp [Doc.unfit])

/-- An interface is read back if the value under its form's name is. -/
theorem rereads_tagged (henter : r.enter = .ok inner) (h : f.Rereads inner x x)
    (hencode : form.encode a = tagged kind (f.encode x)) (hkind : ofKind inner kind (f.encode x) = .ok a) :
    form.Rereads r a a where
  decode_encode := by
    rw [hencode]
    exact (ofDoc_tagged henter).trans hkind
  legible := by
    rw [hencode]
    exact .record (by simp) (by simpa using ⟨.text kind, h.legible⟩)
  whole := by
    obtain ⟨v, hv⟩ := h.whole
    simp [hencode, Doc.Whole, tagged, Doc.object, Doc.text, Value.ofDoc, Value.ofMembers, henter, hv, Except.map, bind,
      Except.bind, pure, Except.pure]

/-- An interface whose value has been read by the form of its kind is read back. -/
theorem rereads_of_kind [HoldsFloats β] [s : Stable f] {make : β → Abi} (henter : r.enter = .ok inner)
    (hroom : s.depth ≤ inner.room) (hjson : d.IsJson) (hread : make <$> f.decode inner d = .ok a)
    (hexact : ∀ x, make x = a → Exact x) (hencode : ∀ x, form.encode (make x) = tagged kind (f.encode x))
    (hkind : ∀ d, ofKind inner kind d = make <$> f.decode inner d) : form.Rereads r a a := by
  obtain ⟨x, hx, rfl⟩ := map_eq_ok.1 hread
  have h := s.rereads hroom hjson hx (hexact x rfl)
  refine rereads_tagged henter h (hencode x) ?_
  rw [hkind, h.decode_encode]
  rfl

end Abi

instance : Stable Abi.form where
  depth := 1
  rereads {r d a} hroom hd hread ha := by
    obtain ⟨inner, kind, value, henter, hvalue, hread⟩ := Abi.exists_of_ofDoc hd hread
    have hnone := Nat.zero_le inner.room
    unfold Abi.ofKind at hread
    split at hread
    case isTrue =>
      exact Abi.rereads_of_kind henter hnone hvalue hread (by rintro v rfl; exact ha) (fun _ => rfl) fun _ => rfl
    case isFalse =>
      split at hread
      case isTrue =>
        exact Abi.rereads_of_kind henter hnone hvalue hread (fun _ _ => trivial) (fun _ => rfl) fun _ => rfl
      case isFalse =>
        split at hread
        case isTrue =>
          exact Abi.rereads_of_kind henter hnone hvalue hread (fun _ _ => trivial) (fun _ => rfl) fun _ => rfl
        case isFalse =>
          split at hread
          case isTrue =>
            exact Abi.rereads_of_kind henter hnone hvalue hread (by rintro v rfl; exact ha) (fun _ => rfl) fun _ => rfl
          case isFalse => cases hread
  solid {_ _ a} _ _ _ _ := by cases a <;> nofun

instance : Stable FunctionHeader.form := stableRecord (by decide) (fun _ => rfl) (by simp [Exact])

instance : Stable CallSet.form := stableRecord (by decide) (fun _ => rfl) (by simp [Exact])

instance : Stable DeploySet.form := stableRecord (by decide) (fun _ => rfl) (by simp [Exact])

instance : Stable EncodeMessageParams.form := stableRecord (by decide) (fun _ => rfl) (by simp [Exact])

instance : Stable EncodedMessage.form := stableRecord (by decide) (fun _ => rfl) (by simp [Exact])

end Abi

section Processing

instance : HoldsFloats BlockEvent where

instance : HoldsFloats ProcessingEvent where
  Exact
    | .fetchFirstBlockFailed e _ _ | .sendFailed _ e | .fetchNextBlockFailed _ e | .messageExpired _ _ _ e => Exact e
    | _ => True

instance : HoldsFloats SendMessageParams where
  Exact p := Exact p.abi

instance : HoldsFloats SentMessage where

instance : HoldsFloats WaitForTransactionParams where
  Exact p := Exact p.abi

instance : HoldsFloats DecodedOutput where
  Exact o := Exact o.outMessages ∧ Exact o.output

instance : HoldsFloats ProcessedMessage where
  Exact m := Exact m.transaction ∧ Exact m.decoded ∧ Exact m.fees

instance : HoldsFloats ProcessMessageParams where
  Exact p := Exact p.encodeParams

/-- An event about a message in a shard block is picked again. -/
theorem ProcessingEvent.picked_of_block {β : Type} {pick : Tagged → Except Fault ProcessingEvent} {t : Tagged}
    {rest : Fields β} {block : BlockEvent} {b : β} {event : ProcessingEvent} {name : String} [HoldsFloats β]
    [s : Fields.Stable rest] (hnames : (Tagged.key :: (blockFields rest).names).Nodup)
    (hroom : s.depth ≤ t.reading.room) (hjson : t.content.IsJson) (h : readBlock t rest = .ok (block, b)) (hb : Exact b)
    (hencode : form.encode event = writeBlock name block rest b)
    (hpick : ∀ content, readBlock ⟨name, t.reading, content⟩ rest = .ok (block, b) →
      pick ⟨name, t.reading, content⟩ = .ok event) : Tagged.Picked form pick t.reading event := by
  obtain ⟨⟨shardBlockId, messageId, messageDst, message, b⟩, hfields, h⟩ := bind_eq_ok.1 h
  cases h
  dsimp only [blockFields, textOrEmpty] at hfields hnames
  refine Tagged.picked_of_fields hnames ?_ hjson hfields (by simpa [Exact] using hb) hencode fun content hcontent =>
    hpick content (bind_eq_ok.2 ⟨_, hcontent, rfl⟩)
  simpa [Fields.Stable.depth, Field.Stable.depth, Stable.depth, Total.depth, Field.Kept.depth] using hroom

instance : Stable ProcessingEvent.form :=
  Tagged.stableChoice 1 (fun _ _ => rfl) (fun a => by cases a <;> nofun) fun t a hroom hjson hpick ha => by
    dsimp only [ProcessingEvent.firstBlockFailedFields, ProcessingEvent.firstBlockFields, ProcessingEvent.expiredFields,
      ProcessingEvent.errorFields, ProcessingEvent.textOrEmpty] at hpick
    split at hpick
    · obtain ⟨⟨id, dst, ⟨⟩⟩, hfields, hpick⟩ := bind_eq_ok.1 hpick
      cases hpick
      exact Tagged.picked_of_fields (by decide) (Nat.zero_le _) hjson hfields (by simp [Exact]) rfl
        fun _ h => bind_eq_ok.2 ⟨_, h, rfl⟩
    · obtain ⟨⟨e, id, dst, ⟨⟩⟩, hfields, hpick⟩ := bind_eq_ok.1 hpick
      cases hpick
      exact Tagged.picked_of_fields (by decide) hroom hjson hfields (by simpa [Exact] using ha) rfl
        fun _ h => bind_eq_ok.2 ⟨_, h, rfl⟩
    · obtain ⟨⟨b, ⟨⟩⟩, hfields, hpick⟩ := bind_eq_ok.1 hpick
      cases hpick
      exact ProcessingEvent.picked_of_block (by decide) (Nat.zero_le _) hjson hfields trivial rfl
        fun _ h => bind_eq_ok.2 ⟨_, h, rfl⟩
    · obtain ⟨⟨b, ⟨⟩⟩, hfields, hpick⟩ := bind_eq_ok.1 hpick
      cases hpick
      exact ProcessingEvent.picked_of_block (by decide) (Nat.zero_le _) hjson hfields trivial rfl
        fun _ h => bind_eq_ok.2 ⟨_, h, rfl⟩
    · obtain ⟨⟨b, e, ⟨⟩⟩, hfields, hpick⟩ := bind_eq_ok.1 hpick
      cases hpick
      exact ProcessingEvent.picked_of_block (by decide) hroom hjson hfields (by simpa [Exact] using ha) rfl
        fun _ h => bind_eq_ok.2 ⟨_, h, rfl⟩
    · obtain ⟨⟨b, ⟨⟩⟩, hfields, hpick⟩ := bind_eq_ok.1 hpick
      cases hpick
      exact ProcessingEvent.picked_of_block (by decide) (Nat.zero_le _) hjson hfields trivial rfl
        fun _ h => bind_eq_ok.2 ⟨_, h, rfl⟩
    · obtain ⟨⟨b, e, ⟨⟩⟩, hfields, hpick⟩ := bind_eq_ok.1 hpick
      cases hpick
      exact ProcessingEvent.picked_of_block (by decide) hroom hjson hfields (by simpa [Exact] using ha) rfl
        fun _ h => bind_eq_ok.2 ⟨_, h, rfl⟩
    · obtain ⟨⟨id, dst, message, e, ⟨⟩⟩, hfields, hpick⟩ := bind_eq_ok.1 hpick
      cases hpick
      exact Tagged.picked_of_fields (by decide) hroom hjson hfields (by simpa [Exact] using ha) rfl
        fun _ h => bind_eq_ok.2 ⟨_, h, rfl⟩
    · obtain ⟨-, -, hpick⟩ := bind_eq_ok.1 hpick
      cases hpick
      exact Tagged.picked_empty rfl rfl

instance : Stable SendMessageParams.form := stableRecord (by decide) (fun _ => rfl) (by simp [Exact])

instance : Stable SentMessage.form := stableRecord (by decide) (fun _ => rfl) (by simp [Exact])

instance : Stable WaitForTransactionParams.form := stableRecord (by decide) (fun _ => rfl) (by simp [Exact])

instance : Stable DecodedOutput.form := stableRecord (by decide) (fun _ => rfl) (by simp [Exact])

instance : Stable ProcessedMessage.form := stableRecord (by decide) (fun _ => rfl) (by simp [Exact])

instance : Stable ProcessMessageParams.form := stableRecord (by decide) (fun _ => rfl) (by simp [Exact])

end Processing

section Address

instance : HoldsFloats AddressFormat where
instance : HoldsFloats ConvertAddressParams where
instance : HoldsFloats ConvertedAddress where

instance : Stable AddressFormat.form :=
  Tagged.stableChoice 0 (fun _ _ => rfl) (fun a => by cases a <;> nofun) fun t a hroom hjson hpick ha => by
    dsimp only [AddressFormat.base64Fields] at hpick
    split at hpick
    · obtain ⟨-, -, hpick⟩ := bind_eq_ok.1 hpick
      cases hpick
      exact Tagged.picked_empty rfl rfl
    · obtain ⟨-, -, hpick⟩ := bind_eq_ok.1 hpick
      cases hpick
      exact Tagged.picked_empty rfl rfl
    · obtain ⟨⟨url, test, bounce, ⟨⟩⟩, hfields, hpick⟩ := bind_eq_ok.1 hpick
      cases hpick
      exact Tagged.picked_of_fields (by decide) hroom hjson hfields (by simp [Exact]) rfl
        fun _ h => bind_eq_ok.2 ⟨_, h, rfl⟩
    · cases hpick

instance : Stable ConvertAddressParams.form := stableRecord (by decide) (fun _ => rfl) (by simp [Exact])

instance : Stable ConvertedAddress.form := stableRecord (by decide) (fun _ => rfl) (by simp [Exact])

end Address

end Api

end Switchboard
