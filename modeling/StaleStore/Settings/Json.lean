import StaleStore.Json.Fields
import StaleStore.Json.Reader
import StaleStore.Settings

namespace StaleStore
namespace Settings

-- Numbers are written plainly from 0.00001 up to but without 1e16, whole ones end in a zero, and of two
-- last digits that are equally near the even one is written.
def jsonLayout : Binary64.Layout :=
  { Binary64.messageLayout with
    tie := .toEven
    plainFrom := some (-5)
    plainBelow := some 16
    wholeEnd := ['.', '0'] }

def jsonNumber (x : Binary64) : Json :=
  if x.isNaN || x.isInfinite then .null else .number (jsonLayout.render x)

def toJson (s : Settings) : Json :=
  .ofMembers
    [("delay_key_substring".toList, .text s.substring),
      ("delay_key_probability".toList, jsonNumber s.delayProbability),
      ("delay_key_msec".toList, .nat s.delayMillis.toNat),
      ("throttle_probability".toList, jsonNumber s.throttleProbability),
      ("failure_limit".toList, .nat s.failureLimit.toNat)]

def jsonProbability? (v : Json) : Option Binary64 := do (← v.numeral?).toScaled?

def override? (s : Settings) (substring delay millis throttle limit : Option Json) : Option Settings := do
  some
    { substring := ← substring.elim (some s.substring) (·.text?)
      delayProbability := ← delay.elim (some s.delayProbability) jsonProbability?
      delayMillis := ← millis.elim (some s.delayMillis) (·.uint64?)
      throttleProbability := ← throttle.elim (some s.throttleProbability) jsonProbability?
      failureLimit := ← limit.elim (some s.failureLimit) (·.uint64?) }

def ofJson? : Json → Option Settings
  | .array items =>
    if 5 < items.length then none
    else override? defaults items[0]? items[1]? items[2]? items[3]? items[4]?
  | .object members => do
    let fields ← Json.fields? members
    override? defaults (← fields.optional? "delay_key_substring".toList)
      (← fields.optional? delayProbabilityName) (← fields.optional? "delay_key_msec".toList)
      (← fields.optional? throttleProbabilityName) (← fields.optional? "failure_limit".toList)
  | _ => none

def readJson? (t : Text) : Option Settings := do ofJson? (← Json.read? t)

end Settings
end StaleStore
