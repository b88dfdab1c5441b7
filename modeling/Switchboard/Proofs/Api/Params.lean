import Switchboard.Proofs.Api.Forms
import Switchboard.Proofs.Form.Faithful
import Switchboard.Proofs.Form.Order
/-!
The parameters of the engine's methods: all that are sound are read back where they fit, and the order of names makes no
difference for any of them.
-/
namespace Switchboard

open Form

namespace Api

section Identity

instance : HoldsValues AppResult where
  Sound
    | .error _ => True
    | .ok v => Sound v

instance : HoldsValues AppReply where
  Sound r := Sound r.result

instance : Unordered AppResult.form := Tagged.unorderedChoice (fun _ _ => rfl) fun hsorts hpick => by
  dsimp only [AppResult.errorFields, AppResult.okFields] at hpick ⊢
  split at hpick
  · exact Tagged.pick_fields hsorts hpick
  · exact Tagged.pick_fields hsorts hpick
  · cases hpick

instance : AppResult.errorFields.Faithful := inferInstanceAs (Fields.cons _ _).Faithful

instance : AppResult.okFields.Faithful := inferInstanceAs (Fields.cons _ _).Faithful

instance : Faithful AppResult.form := Tagged.faithfulChoice (fun _ _ => rfl) fun a ha hs => by
  cases a with
  | error text =>
    exact .variant _ _ (text, ()) rfl (by decide) (by simp [Exact]) (by simp [Sound])
      fun _ _ h => bind_eq_ok.2 ⟨_, h, rfl⟩
  | ok v =>
    exact .variant _ _ (v, ()) rfl (by decide) (by simpa [Exact] using ha) (by simpa [Sound] using hs)
      fun _ _ h => bind_eq_ok.2 ⟨_, h, rfl⟩

instance : Unordered AppReply.form := unorderedRecord

instance : Faithful AppReply.form := faithfulRecord (by decide) (fun _ => rfl) (by simp [Exact]) (by simp [Sound])

end Identity

section Net

instance : HoldsValues SortDirection where
instance : HoldsValues OrderBy where
instance : HoldsValues SubscriptionHandle where

instance : HoldsValues QueryParams where
  Sound q := Sound q.filter

instance : HoldsValues WaitForParams where
  Sound w := Sound w.filter

instance : HoldsValues SubscribeCollectionParams where
  Sound s := Sound s.filter

instance : HoldsValues SubscribeParams where
  Sound s := Sound s.arguments

instance : Unordered SortDirection.form := unorderedNames

instance : Faithful SortDirection.form := faithful_of_total rfl

instance : Unordered OrderBy.form := unorderedRecord

instance : Faithful OrderBy.form := faithfulRecord (by decide) (fun _ => rfl) (by simp [Exact]) (by simp [Sound])

instance : Unordered QueryParams.form := unorderedRecord

instance : Faithful QueryParams.form :=
  faithfulRecord (by decide) (fun _ => rfl) (by simp [Exact]) (by simp [Sound, IsNull])

instance : Unordered WaitForParams.form := unorderedRecord

instance : Faithful WaitForParams.form :=
  faithfulRecord (by decide) (fun _ => rfl) (by simp [Exact]) (by simp [Sound, IsNull])

instance : Unordered SubscribeCollectionParams.form := unorderedRecord

instance : Faithful SubscribeCollectionParams.form :=
  faithfulRecord (by decide) (fun _ => rfl) (by simp [Exact]) (by simp [Sound])

instance : Unordered SubscribeParams.form := unorderedRecord

instance : Faithful SubscribeParams.form :=
  faithfulRecord (by decide) (fun _ => rfl) (by simp [Exact]) (by simp [Sound])

instance : Unordered SubscriptionHandle.form := unorderedRecord

instance : Faithful SubscriptionHandle.form :=
  faithfulRecord (by decide) (fun _ => rfl) (by simp [Exact]) (by simp [Sound])

end Net

section Abi

instance : HoldsValues KeyPair where
instance : HoldsValues Signer where
instance : HoldsValues FunctionHeader where

instance : HoldsValues Abi where
  Sound
    | .contract v | .serialized v => Sound v
    | .json _ | .handle _ => True

instance : HoldsValues CallSet where
  Sound c := Sound c.input

instance : HoldsValues DeploySet where
  Sound d := Sound d.initialData

instance : HoldsValues EncodeMessageParams where
  Sound p := Sound p.abi ∧ Sound p.deploySet ∧ Sound p.callSet

instance : Unordered KeyPair.form := unorderedRecord

instance : Faithful KeyPair.form := faithfulRecord (by decide) (fun _ => rfl) (by simp [Exact]) (by simp [Sound])

instance : Unordered Signer.form := Tagged.unorderedChoice (fun _ _ => rfl) fun hsorts hpick => by
  dsimp only [Signer.externalFields, Signer.keysFields, Signer.signingBoxFields] at hpick ⊢
  split at hpick
  · exact Tagged.pick_empty hsorts hpick
  · exact Tagged.pick_fields hsorts hpick
  · exact Tagged.pick_fields hsorts hpick
  · exact Tagged.pick_fields hsorts hpick
  · cases hpick

instance : Signer.externalFields.Faithful := inferInstanceAs (Fields.cons _ _).Faithful

instance : Signer.keysFields.Faithful := inferInstanceAs (Fields.cons _ _).Faithful

instance : Signer.signingBoxFields.Faithful := inferInstanceAs (Fields.cons _ _).Faithful

instance : Faithful Signer.form := Tagged.faithfulChoice (fun _ _ => rfl) fun a _ _ => by
  cases a with
  | none => exact .variant _ _ () rfl (by decide) trivial trivial fun _ _ _ => rfl
  | external k =>
    exact .variant _ _ (k, ()) rfl (by decide) (by simp [Exact]) (by simp [Sound]) fun _ _ h => bind_eq_ok.2 ⟨_, h, rfl⟩
  | keys k =>
    exact .variant _ _ (k, ()) rfl (by decide) (by simp [Exact]) (by simp [Sound]) fun _ _ h => bind_eq_ok.2 ⟨_, h, rfl⟩
  | signingBox n =>
    exact .variant _ _ (n, ()) rfl (by decide) (by simp [Exact]) (by simp [Sound]) fun _ _ h => bind_eq_ok.2 ⟨_, h, rfl⟩

namespace Abi

variable {α : Type} {f : Form α} {r inner : Reading} {kind : String} {d : Doc} {a : Abi}

theorem map_sorted [u : f.Unordered] {make : α → Abi} (hd : d.Legible) (h : make <$> f.decode r d = .ok a) :
    make <$> f.decode r d.sorted = .ok a := by
  obtain ⟨x, hx, rfl⟩ := map_eq_ok.1 h
  exact map_eq_ok.2 ⟨x, u.decode_sorted hd hx, rfl⟩

theorem ofKind_sorted (hd : d.Legible) (h : ofKind r kind d = .ok a) : ofKind r kind d.sorted = .ok a := by
  unfold ofKind at h ⊢
  by_cases hcontract : kind = "Contract"
  · rw [if_pos hcontract] at h ⊢
    exact map_sorted hd h
  rw [if_neg hcontract] at h ⊢
  by_cases hjson : kind = "Json"
  · rw [if_pos hjson] at h ⊢
    exact map_sorted hd h
  rw [if_neg hjson] at h ⊢
  by_cases hhandle : kind = "Handle"
  · rw [if_pos hhandle] at h ⊢
    exact map_sorted hd h
  rw [if_neg hhandle] at h ⊢
  by_cases hserialized : kind = "Serialized"
  · rw [if_pos hserialized] at h ⊢
    exact map_sorted hd h
  rw [if_neg hserialized] at h
  cases h

theorem ofDoc_sorted (hd : d.Legible) (h : ofDoc r d = .ok a) : ofDoc r d.sorted = .ok a := by
  unfold ofDoc at h
  split at h
  case h_1 members =>
    have hmembers := Doc.legible_members hd
    have hperm := Doc.perm_sortedMembers members
    obtain ⟨inner, henter, h⟩ := bind_eq_ok.1 h
    obtain ⟨⟨⟩, -, h⟩ := bind_eq_ok.1 h
    obtain ⟨found, hkind, h⟩ := bind_eq_ok.1 h
    obtain ⟨kind, hfound, h⟩ := bind_eq_ok.1 h
    rw [orMalformed_eq_ok.1 hfound] at hkind
    obtain ⟨found, hvalue, h⟩ := bind_eq_ok.1 h
    obtain ⟨value, hfound, h⟩ := bind_eq_ok.1 h
    rw [orMalformed_eq_ok.1 hfound] at hvalue
    obtain ⟨name, hname, h⟩ := bind_eq_ok.1 h
    obtain ⟨m, hm, rfl⟩ := mem_of_findMember hvalue
    have hsorted := ofKind_sorted (hmembers m hm).2 h
    exact bind_eq_ok.2 ⟨inner, henter,
      bind_eq_ok.2 ⟨(), Fields.checkNames_of_legible (hmembers.sorted hperm) _,
      bind_eq_ok.2 ⟨_, findMember_sorted hperm hkind, bind_eq_ok.2 ⟨kind.sorted, rfl,
      bind_eq_ok.2 ⟨_, findMember_sorted hperm hvalue, bind_eq_ok.2 ⟨m.2.sorted, rfl,
      bind_eq_ok.2 ⟨name, Doc.variantName_sorted hname, hsorted⟩⟩⟩⟩⟩⟩⟩
  case h_2 kind value =>
    have hvalue := Doc.legible_items hd value (by simp)
    obtain ⟨inner, henter, h⟩ := bind_eq_ok.1 h
    obtain ⟨name, hname, h⟩ := bind_eq_ok.1 h
    exact bind_eq_ok.2 ⟨inner, henter, bind_eq_ok.2 ⟨name, Tagged.nameOf_sorted hname, ofKind_sorted hvalue h⟩⟩
  case h_3 => exact absurd h (by cases d <;> simp [Doc.unfit])

/-- An interface is read back if its form's name stands for reading the value under it. -/
theorem rereads_of_faithful [HoldsFloats α] [HoldsValues α] [u : f.Faithful] {make : α → Abi} {x : α}
    (hencode : form.encode (make x) = tagged kind (f.encode x)) (hkind : ∀ r d, ofKind r kind d = make <$> f.decode r d)
    (hroom : (form.encode (make x)).depth ≤ r.room) (hx : Exact x) (hs : Sound x) :
    form.Rereads r (make x) (make x) := by
  rw [hencode] at hroom
  obtain ⟨inner, henter, hmembers⟩ := Doc.exists_enter_record hroom
  have hvalue := u.rereads (hmembers (.ok "value", f.encode x) (by simp)) hx hs
  refine rereads_tagged henter hvalue hencode ?_
  rw [hkind, hvalue.decode_encode]
  rfl

end Abi

instance : Unordered Abi.form := ⟨Abi.ofDoc_sorted⟩

instance : Faithful Abi.form where
  rereads {r a} hroom ha hs := by
    cases a with
    | contract v => exact Abi.rereads_of_faithful (f := .value) rfl (fun _ _ => rfl) hroom ha hs
    | json s => exact Abi.rereads_of_faithful (f := .text) rfl (fun _ _ => rfl) hroom trivial trivial
    | handle n => exact Abi.rereads_of_faithful (f := .uint32) rfl (fun _ _ => rfl) hroom trivial trivial
    | serialized v => exact Abi.rereads_of_faithful (f := .value) rfl (fun _ _ => rfl) hroom ha hs
  isNull {a} _ _ hnull := by
    cases a <;> cases hnull

instance : Unordered FunctionHeader.form := unorderedRecord

instance : Faithful FunctionHeader.form :=
  faithfulRecord (by decide) (fun _ => rfl) (by simp [Exact]) (by simp [Sound, IsNull])

instance : Unordered CallSet.form := unorderedRecord

instance : Faithful CallSet.form :=
  faithfulRecord (by decide) (fun _ => rfl) (by simp [Exact]) (by simp [Sound, IsNull])

instance : Unordered DeploySet.form := unorderedRecord

instance : Faithful DeploySet.form :=
  faithfulRecord (by decide) (fun _ => rfl) (by simp [Exact]) (by simp [Sound, IsNull])

instance : Unordered EncodeMessageParams.form := unorderedRecord

instance : Faithful EncodeMessageParams.form :=
  faithfulRecord (by decide) (fun _ => rfl) (by simp [Exact]) (by simp [Sound, IsNull])

end Abi

section Processing

instance : HoldsValues SendMessageParams where
  Sound p := Sound p.abi

instance : HoldsValues WaitForTransactionParams where
  Sound p := Sound p.abi

instance : HoldsValues ProcessMessageParams where
  Sound p := Sound p.encodeParams

instance : Unordered SendMessageParams.form := unorderedRecord

instance : Faithful SendMessageParams.form :=
  faithfulRecord (by decide) (fun _ => rfl) (by simp [Exact]) (by simp [Sound, IsNull])

instance : Unordered WaitForTransactionParams.form := unorderedRecord

instance : Faithful WaitForTransactionParams.form :=
  faithfulRecord (by decide) (fun _ => rfl) (by simp [Exact]) (by simp [Sound, IsNull])

instance : Unordered ProcessMessageParams.form := unorderedRecord

instance : Faithful ProcessMessageParams.form :=
  faithfulRecord (by decide) (fun _ => rfl) (by simp [Exact]) (by simp [Sound, IsNull])

end Processing

section Address

instance : HoldsValues AddressFormat where
instance : HoldsValues ConvertAddressParams where

instance : Unordered AddressFormat.form := Tagged.unorderedChoice (fun _ _ => rfl) fun hsorts hpick => by
  dsimp only [AddressFormat.base64Fields] at hpick ⊢
  split at hpick
  · exact Tagged.pick_empty hsorts hpick
  · exact Tagged.pick_empty hsorts hpick
  · exact Tagged.pick_fields hsorts hpick
  · cases hpick

instance : AddressFormat.base64Fields.Faithful := inferInstanceAs (Fields.cons _ _).Faithful

instance : Faithful AddressFormat.form := Tagged.faithfulChoice (fun _ _ => rfl) fun a _ _ => by
  cases a with
  | accountId => exact .variant _ _ () rfl (by decide) trivial trivial fun _ _ _ => rfl
  | hex => exact .variant _ _ () rfl (by decide) trivial trivial fun _ _ _ => rfl
  | base64 url test bounce =>
    exact .variant _ _ (url, test, bounce, ()) rfl (by decide) (by simp [Exact]) (by simp [Sound])
      fun _ _ h => bind_eq_ok.2 ⟨_, h, rfl⟩

instance : Unordered ConvertAddressParams.form := unorderedRecord

instance : Faithful ConvertAddressParams.form :=
  faithfulRecord (by decide) (fun _ => rfl) (by simp [Exact]) (by simp [Sound])

end Address

end Api

end Switchboard
