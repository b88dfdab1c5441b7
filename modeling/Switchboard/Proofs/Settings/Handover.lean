import Switchboard.Settings.Validation
import Switchboard.Proofs.Client.Operations
import Switchboard.Proofs.Settings.Forms
/-!
Settings on their way to the engine. What the engine is handed reads as the settings that the client was given, except
that JSON has no infinity: a factor that is infinite passes the checks, is written as null and so is left out.
-/
namespace Switchboard

namespace Single

variable {s : Single}

theorem numeral_of_not_isReal (h : ¬s.IsReal) : s.numeral? = none := by
  simpa [IsReal] using h

/-- A positive number that is not real is infinite. -/
theorem infinite_of_isPositive (hpositive : s.isPositive = true) (hreal : ¬s.IsReal) : s.kind = .infinite false := by
  unfold isPositive at hpositive
  unfold IsReal numeral? at hreal
  split at hpositive
  case h_1 => cases hpositive
  case h_2 negative heq =>
    rw [heq]
    simpa using hpositive
  case h_3 heq => simp [heq] at hreal

end Single

namespace Settings

open Form

variable {s : Settings} {r : Reading} {f : Single}

/-- The factor by which the lifetime of messages grows, if it is set. -/
def growFactor? (s : Settings) : Option Single := s.abi.bind (·.messageExpirationTimeoutGrowFactor)

/-- The settings with that factor left out. -/
def withoutGrowFactor (s : Settings) : Settings :=
  { s with abi := s.abi.map fun a => { a with messageExpirationTimeoutGrowFactor := none } }

theorem isPositive_of_validate (hvalid : s.validate = .ok ()) (hf : f ∈ s.growFactor?) : f.isPositive = true := by
  obtain ⟨abi, habi, hfactor⟩ := Option.bind_eq_some_iff.1 hf
  obtain ⟨-, -, hvalid⟩ := bind_eq_ok.1 hvalid
  obtain ⟨-, -, hvalid⟩ := bind_eq_ok.1 hvalid
  simp only [habi, validatePart, Abi.validate, hfactor] at hvalid
  split at hvalid
  case isTrue h => exact h
  case isFalse => cases hvalid

/-- A number that is not real is written as null, and null is read as nothing. -/
theorem rereads_lost (name : String) (hf : ¬f.IsReal) : (Field.optional name .single).Rereads r (some f) none where
  written hd := by
    have hencode : Form.single.encode f = .null := by simp [single, Single.numeral_of_not_isReal hf]
    obtain rfl := Option.some.inj (hd.symm.trans (congrArg some hencode))
    exact ⟨rfl, .null, _, rfl⟩
  left h := nomatch h

theorem Abi.rereads_lost {a : Abi} (hroom : 1 ≤ r.room) (hf : a.messageExpirationTimeoutGrowFactor = some f)
    (hreal : ¬f.IsReal) : Abi.form.Rereads r a { a with messageExpirationTimeoutGrowFactor := none } := by
  obtain ⟨workchain, timeout, factor⟩ := a
  obtain rfl : factor = some f := hf
  obtain ⟨inner, henter, -⟩ := Reading.exists_enter hroom
  refine rereads_record (x := (workchain, timeout, none, ())) henter ?_
  exact Fields.rereads_cons (by decide) (Field.Total.rereads (Nat.zero_le _) (by simp [Exact]))
    (Fields.rereads_cons (by decide) (Field.Total.rereads (Nat.zero_le _) (by simp [Exact]))
      (Fields.rereads_cons (by decide) (Settings.rereads_lost _ hreal) Fields.rereads_done))

/-- All other settings are read back when the factor is lost. -/
theorem rereads_withoutGrowFactor (hroom : 3 ≤ r.room) (hf : f ∈ s.growFactor?) (hreal : ¬f.IsReal) :
    Settings.form.Rereads r s s.withoutGrowFactor := by
  obtain ⟨binding, network, crypto, abi, boc, proofs, path⟩ := s
  obtain ⟨a, rfl, hfactor⟩ := Option.bind_eq_some_iff.1 hf
  obtain ⟨inner, henter, hinner⟩ := Reading.exists_enter hroom
  have habi := Abi.rereads_lost (r := inner) (by omega) hfactor hreal
  have hother {α : Type} [HoldsFloats α] (field : Field α) [t : Field.Total field] (hdepth : t.depth ≤ 2) {a : α}
      (ha : Exact a) : field.Rereads inner a a := t.rereads (Nat.le_trans hdepth hinner) ha
  refine rereads_record
    (x := (binding, network, crypto, some { a with messageExpirationTimeoutGrowFactor := none }, boc, proofs, path, ()))
    henter ?_
  exact Fields.rereads_cons (by decide) (hother _ (by decide) fun _ _ => trivial)
    (Fields.rereads_cons (by decide) (hother _ (by decide) fun _ _ => trivial)
      (Fields.rereads_cons (by decide) (hother _ (by decide) fun _ _ => trivial)
        (Fields.rereads_cons (by decide) (Field.rereads_some habi nofun)
          (Fields.rereads_cons (by decide) (hother _ (by decide) fun _ _ => trivial)
            (Fields.rereads_cons (by decide) (hother _ (by decide) fun _ _ => trivial)
              (Fields.rereads_cons (by decide) (hother _ (by decide) fun _ _ => trivial) Fields.rereads_done))))))

theorem exact_of_isReal (hreal : ∀ f ∈ s.growFactor?, f.IsReal) (hread : ∀ f ∈ s.growFactor?, f.ReadsBack) : Exact s := by
  intro a ha f hf
  have hfactor : f ∈ s.growFactor? := Option.bind_eq_some_iff.2 ⟨a, ha, hf⟩
  exact ⟨hreal f hfactor, hread f hfactor⟩

end Settings

namespace Client

variable {s : Settings} {f : Single}

/-- The settings with the name of this library filled in where no other is given. -/
def signed (s : Settings) : Settings := { s with binding := s.binding <|> some ownBinding }

/-- What a client does with settings: its engine is handed one document, which reads as the settings; only an infinite
factor is missing from it. -/
structure Handover (w : World) (c : ClientId) (s : Settings) : Prop where
  /-- A client that refuses to make a context hands nothing over. -/
  refused : ∀ err, contextRefusal? (w.client c).lifecycle (configOf s) = some err →
    createContext c s w = (.error err, w)
  /-- Any other client hands the document over, once. -/
  handed : contextRefusal? (w.client c).lifecycle (configOf s) = none →
    (createContext c s w).2.engines = (configured c (configOf s) w).engines
  /-- The document reads as the settings if the factor is a real number or not set. -/
  kept : (∀ f ∈ s.growFactor?, f.IsReal) → Settings.form.read (Utf8.encode (configOf s)) = .ok (signed s)
  /-- Otherwise the factor is infinite, and the document reads as all the other settings. -/
  lost : ∀ f ∈ s.growFactor?, ¬f.IsReal → f.kind = .infinite false ∧
    Settings.form.read (Utf8.encode (configOf s)) = .ok (signed s).withoutGrowFactor

/-- Settings that pass the checks reach the engine as they are, apart from an infinite factor. -/
theorem handover_of_valid (hvalid : s.validate = .ok ()) (hread : ∀ f ∈ s.growFactor?, f.ReadsBack) (w : World)
    (c : ClientId) : Handover w c s where
  refused err hrefusal := createContextFrom_of_refusal hrefusal
  handed hrefusal := by
    obtain ⟨-, heffect⟩ := createContextFrom_of_accepted hrefusal
    rw [createContext, heffect]
    split <;> rfl
  kept hreal := by
    have hexact : Exact (signed s) := Settings.exact_of_isReal (s := s) hreal hread
    exact (Form.Total.rereads (r := .ofLanguage .json) (by decide) hexact).read_write
  lost f hf hreal := by
    have hinfinite := Single.infinite_of_isPositive (Settings.isPositive_of_validate hvalid hf) hreal
    exact ⟨hinfinite, (Settings.rereads_withoutGrowFactor (s := signed s) (by decide) hf hreal).read_write⟩

/-- Settings with a factor and an endpoint. -/
def growing : Settings := { network := some { endpoints := ["main"] }, abi := some ⟨none, none, some ⟨0x3FC00000⟩⟩ }

/-- They pass the checks, and a new client hands them to its engine. -/
theorem handover_of_valid_growing :
    growing.validate = .ok () ∧
      Handover { engines := [{}], clients := [⟨⟨0⟩, ⟨0⟩, ⟨0⟩, .uninitialized, 1⟩] } ⟨0⟩ growing := by
  have hvalid : growing.validate = .ok () := eq_ok_of_toOption (by decide +kernel)
  have hfloat : (⟨0x3FC00000⟩ : Single).ReadsBack :=
    (Single.readsBack_of_numeral (n := ⟨false, [1], [5], none⟩) (by decide +kernel)
      (eq_ok_of_toOption (by decide +kernel))).2
  refine ⟨hvalid, handover_of_valid hvalid (fun f hf => ?_) _ _⟩
  obtain rfl : (⟨0x3FC00000⟩ : Single) = f := by simpa [growing, Settings.growFactor?] using hf
  exact hfloat

/-- Settings with an infinite factor. -/
def endless : Settings := { abi := some ⟨none, none, some ⟨0x7F800000⟩⟩ }

/-- They are read from a text with a large number and pass the checks, but not all of them is in the document for the
engine. -/
theorem not_kept_of_infinite :
    Settings.form.read (Utf8.encode "\x7b\"abi\":\x7b\"message_expiration_timeout_grow_factor\":1e39\x7d\x7d") =
        .ok endless ∧
      endless.validate = .ok () ∧ Settings.form.read (Utf8.encode (configOf endless)) ≠ .ok (signed endless) := by
  have hread : Settings.form.read (Utf8.encode (configOf endless)) = .ok (signed endless).withoutGrowFactor :=
    eq_ok_of_toOption (by decide +kernel)
  refine ⟨eq_ok_of_toOption (by decide +kernel), eq_ok_of_toOption (by decide +kernel), fun hkept => ?_⟩
  have hlost : (signed endless).withoutGrowFactor ≠ signed endless := by decide +kernel
  exact hlost (Except.ok.inj (hread.symm.trans hkept))

end Client

end Switchboard
