import StaleStore.Settings
import StaleStore.Toml.Document

namespace StaleStore
namespace Settings

def documentText? : Toml → Option Text
  | .string t => some t
  | _ => none

def documentCount? : Toml → Option UInt64
  | .integer n => if 0 ≤ n then some (UInt64.ofNat n.toNat) else none
  | _ => none

def documentProbability? : Toml → Option Binary64
  | .float x => some x
  | .integer n => some (.withSign (n < 0) (.ofNat n.natAbs))
  | _ => none

def ofDocument? (root : Toml) : Option Settings := do
  let entry (name : Text) := Toml.entry? name root
  some
    { substring := ←
        (entry "delay_key_substring".toList).elim (some defaults.substring) documentText?
      delayProbability := ←
        (entry delayProbabilityName).elim (some defaults.delayProbability) documentProbability?
      delayMillis := ← (entry "delay_key_msec".toList).elim (some defaults.delayMillis) documentCount?
      throttleProbability := ←
        (entry throttleProbabilityName).elim (some defaults.throttleProbability) documentProbability?
      failureLimit := ← (entry "failure_limit".toList).elim (some defaults.failureLimit) documentCount? }

def readDocument (t : Text) : Except SettingsError ValidSettings :=
  match (Toml.read? t).bind ofDocument? with
  | some s => s.validated
  | none => .error .unreadable

end Settings
end StaleStore
