import Ridership.Decimal.Layout
import Ridership.Storage.Fault

/-!
# What can go wrong with forecasts
-/

namespace Ridership.Forecast

/-- A cause for not getting a forecast. -/
inductive ForecastError where
  /-- A distribution that no entry of reaches this probability. -/
  | invalidCdf (level : Float)
  /-- A line that does not read, at this byte of it. -/
  | malformedRecord (offset : Nat) (message : String)
  /-- Bytes that could not be had. -/
  | streamRead (cause : Storage.Fault)

/-- The words for an error. -/
def ForecastError.message : ForecastError → String
  | .invalidCdf level =>
      "invalid cdf: no entry reaches probability " ++ Decimal.plain.render level
  | .malformedRecord offset message =>
      s!"malformed record at byte {offset}: {message}"
  | .streamRead cause => s!"stream read failure: {cause.message}"

end Ridership.Forecast
