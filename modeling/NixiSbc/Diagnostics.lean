import Mathlib.Data.Nat.Notation

namespace NixiSbc.Diagnostics

/-- The error kinds that the modelled functions return, with their texts. -/
inductive Error
  | transport (text : String)
  | media (text : String)
  deriving DecidableEq

def paddedHex (width n : Nat) : String :=
  let digits := Nat.toDigits 16 n
  String.ofList (List.replicate (width - digits.length) '0' ++ digits)

def hex8 (n : UInt32) : String := paddedHex 8 n.toNat

def hexPrefixed (n : UInt32) : String := "0x" ++ paddedHex 0 n.toNat

example : hexPrefixed 0x2112A442 = "0x2112a442" := by decide
example : hex8 0xDEADBEEF = "deadbeef" := by decide
example : hex8 7 = "00000007" := by decide

end NixiSbc.Diagnostics
