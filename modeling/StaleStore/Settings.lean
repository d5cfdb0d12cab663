import StaleStore.Binary64.Shortest
import StaleStore.Text.Quoted
import StaleStore.Time

namespace StaleStore

inductive SettingsError where
  | probabilityOutOfRange (name : Text) (value : Binary64)
  | invalidValue (source : Text) (value : Text)
  | unreadable
deriving DecidableEq, Repr

structure Settings where
  substring : Text
  delayProbability : Binary64
  delayMillis : UInt64
  throttleProbability : Binary64
  failureLimit : UInt64
deriving DecidableEq, Repr

def SettingsError.message : SettingsError → Text
  | .probabilityOutOfRange name value =>
    "probability out of range 0 to 1: ".toList ++ name ++ " = ".toList ++ value.toMessage
  | .invalidValue source value =>
    "invalid value for ".toList ++ source ++ ": ".toList ++ Text.quoted value
  | .unreadable => "failed to parse config".toList

structure ValidSettings extends Settings where
  delay_isProbability : delayProbability.IsProbability
  throttle_isProbability : throttleProbability.IsProbability
deriving DecidableEq

namespace Settings

def delayProbabilityName : Text := "delay_key_probability".toList
def throttleProbabilityName : Text := "throttle_probability".toList

def defaults : Settings where
  substring := "DELAY_LISTING_ME".toList
  delayProbability := .one
  delayMillis := 5000
  throttleProbability := .zero
  failureLimit := 0

def delayAll (window : Span) : Settings :=
  { defaults with substring := [], delayMillis := window.toMillis64 }

def noFaults : Settings :=
  { defaults with delayProbability := .zero, throttleProbability := .zero }

def withThrottle (s : Settings) (probability : Binary64) (limit : UInt64) : Settings :=
  { s with throttleProbability := probability, failureLimit := limit }

def matchAll : Text := ['*']

-- Both probabilities are checked, the delay probability first.
def validated (s : Settings) : Except SettingsError ValidSettings :=
  if delay : s.delayProbability.IsProbability then
    if throttle : s.throttleProbability.IsProbability then
      .ok { s with
        substring := if s.substring = matchAll then [] else s.substring
        delay_isProbability := delay
        throttle_isProbability := throttle }
    else .error (.probabilityOutOfRange throttleProbabilityName s.throttleProbability)
  else .error (.probabilityOutOfRange delayProbabilityName s.delayProbability)

def window (s : Settings) : Span := .ofMillis s.delayMillis

def describeDelay (millis : UInt64) (substring : Text) (delay throttle : Binary64) (limit : UInt64) : Text :=
  Text.decimal millis.toNat ++ " msec delay, substring ".toList ++ Text.quoted substring
    ++ ", delay probability ".toList ++ delay.toMessage
    ++ "; throttle probability ".toList ++ throttle.toMessage
    ++ "; failure limit ".toList ++ Text.decimal limit.toNat

def describe (s : Settings) : Text :=
  describeDelay s.delayMillis s.substring s.delayProbability s.throttleProbability s.failureLimit

end Settings
end StaleStore
