import StaleStore.Binary64.Reading
import StaleStore.Settings
import StaleStore.Text.Blank

namespace StaleStore

abbrev Environment := Text → Option ByteArray

namespace Environment

def text? (env : Environment) (name : Text) : Option Text :=
  ((env name).bind String.fromUTF8?).map String.toList

def number {α : Type} (env : Environment) (name : Text) (read? : Text → Option α) (default : α) :
    Except SettingsError α :=
  match env.text? name with
  | none => .ok default
  | some raw =>
    match read? (Text.trimBlank raw) with
    | some v => .ok v
    | none => .error (.invalidValue name raw)

end Environment

namespace Settings

def readEnvironment (env : Environment) : Except SettingsError ValidSettings := do
  let substring := (env.text? "FAILINJECT_INCONSISTENCY_KEY_SUBSTRING".toList).getD defaults.substring
  let delay ← env.number "FAILINJECT_INCONSISTENCY_PROBABILITY".toList Binary64.read?
    defaults.delayProbability
  let millis ← env.number "FAILINJECT_INCONSISTENCY_MSEC".toList Text.readUInt64? defaults.delayMillis
  let throttle ← env.number "FAILINJECT_THROTTLE_PROBABILITY".toList Binary64.read?
    defaults.throttleProbability
  let limit ← env.number "FAILINJECT_FAILURE_LIMIT".toList Text.readUInt64? defaults.failureLimit
  validated ⟨substring, delay, millis, throttle, limit⟩

end Settings
end StaleStore
