import CrossPlan.Decimal.Numeral
import CrossPlan.Digest.Blake3
import CrossPlan.Json.Writing

/-!
# Fingerprints

A fingerprint is the digest of the compact JSON text of a plan, under a context of its own for each
kind of plan, so that plans of different kinds never share one.
-/

set_option autoImplicit false

namespace CrossPlan

inductive FingerprintDomain where
  | operatorPlan
  | executionPlan
  deriving DecidableEq, Repr

def FingerprintDomain.context : FingerprintDomain → String
  | .operatorPlan => "polyplan operator-plan fingerprint v1"
  | .executionPlan => "polyplan execution-plan fingerprint v1"

structure Fingerprint where
  bytes : List UInt8
  deriving DecidableEq

namespace Fingerprint

def ofJson (domain : FingerprintDomain) (value : Json) : Fingerprint :=
  ⟨Blake3.deriveKey domain.context value.write.toUTF8⟩

def hex (fingerprint : Fingerprint) : String :=
  String.ofList (fingerprint.bytes.flatMap fun byte =>
    [Json.hexDigit (byte.toNat / 16), Json.hexDigit (byte.toNat % 16)])

def short (fingerprint : Fingerprint) : String :=
  String.ofList (fingerprint.hex.toList.take 12)

/-- Whether a text writes the fingerprint, in small or capital digits. -/
def matchesHex (fingerprint : Fingerprint) (text : String) : Bool :=
  let digits := text.toList
  digits.length == 64 && digits.all (fun c => (Numeral.digit? 16 c).isSome) &&
    digits.map Char.toLower == fingerprint.hex.toList

end Fingerprint

end CrossPlan
