import Switchboard.Settings.Basic
import Switchboard.Proofs.Form.Record
/-!
Settings are read back whatever they are, if the one float among them is.
-/
namespace Switchboard.Settings

open Form

instance : HoldsFloats QueriesProtocol where
instance : HoldsFloats Dictionary where
instance : HoldsFloats Binding where
instance : HoldsFloats Network where
instance : HoldsFloats Crypto where
instance : HoldsFloats Boc where
instance : HoldsFloats Proofs where

instance : HoldsFloats Abi where
  Exact a := Exact a.messageExpirationTimeoutGrowFactor

instance : HoldsFloats Settings where
  Exact s := Exact s.abi

instance : Total QueriesProtocol.form := totalNames fun p => by cases p <;> decide

instance : Total Dictionary.form := totalVia (fun _ _ => trivial) fun d => by cases d <;> rfl

instance : Total Binding.form :=
  totalRecord (by decide) (fun _ => rfl) (by simp [Exact])

instance : Total Network.form := totalRecord (by decide) (fun _ => rfl) (by simp [Exact])

instance : Total Crypto.form := totalRecord (by decide) (fun _ => rfl) (by simp [Exact])

instance : Total Abi.form := totalRecord (by decide) (fun _ => rfl) (by simp [Exact])

instance : Total Boc.form := totalRecord (by decide) (fun _ => rfl) (by simp [Exact])

instance : Total Proofs.form := totalRecord (by decide) (fun _ => rfl) (by simp [Exact])

instance : Total Settings.form := totalRecord (by decide) (fun _ => rfl) (by simp [Exact])

example : Total.depth Settings.form ≤ 127 := by decide

end Switchboard.Settings
