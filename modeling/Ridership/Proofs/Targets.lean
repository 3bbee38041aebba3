import Ridership.Proofs.Literals
import Ridership.Proofs.Utf8Text
import Ridership.Server.Http

/-!
# What the targets of a host are called

A target is taken apart at its slashes, and what stands between two of them
is unescaped, read as UTF-8 and, where an index has to be, read as a number.
None of this does anything to the name that a line goes by: it begins with a
slash, so no scheme is looked for, and the decimal digits of an index are
characters of one byte that stand for themselves. So the target with the
index of a line in digits leads to that line (`Route.of?_lineForecast`,
`readIndex?_repr`).

An index has to fit in 64 bits, or there is no such target.
-/

namespace Ridership.Server

open Decimal (foldl_toDigits leadingDigits_digits toDigits_isDigit toList_repr)

/-! ## Digits stand for themselves -/

variable {cs : List Char} (h : ∀ c ∈ cs, c.isDigit = true)

include h

theorem unescaped_digits : unescaped cs = Text.Utf8.bytesOf cs := by
  induction cs with
  | nil => rfl
  | cons c cs ih =>
      have hc : c.isDigit = true := h c List.mem_cons_self
      have hplain : c ≠ '%' := by
        rintro rfl
        exact absurd hc (by decide)
      rw [unescaped]
      · rw [ih fun d hd => h d (List.mem_cons_of_mem c hd), Text.Utf8.encode,
          String.toList_singleton, List.flatMap_singleton,
          Text.Utf8.bytesOf_cons]
      · rintro _ _ _ rfl
        exact absurd rfl hplain

theorem decode_digits : Text.Utf8.decode (unescaped cs) = .ok cs := by
  rw [unescaped_digits h, Text.Utf8.decode_bytesOf]

omit h

/-! ## Targets -/

/-- The digits of an index read as the index. -/
theorem readIndex?_repr {index : Nat} (hindex : index < widthSize 64) :
    readIndex? (toString index) = some index := by
  have hdigits := toDigits_isDigit index
  have hvalue : Decimal.ofDigits
      (Decimal.leadingDigits (Nat.toDigits 10 index)).1 = index := by
    rw [leadingDigits_digits hdigits, Decimal.ofDigits_eq, foldl_toDigits]
  have hfits : fitsUnsigned 64 index = true := by
    rw [fitsUnsigned, Bool.and_eq_true, decide_eq_true_eq, decide_eq_true_eq]
    omega
  have hplus : ∀ rest, Nat.toDigits 10 index ≠ '+' :: rest := by
    intro rest heq
    have := hdigits '+' (heq ▸ List.mem_cons_self)
    exact absurd this (by decide)
  have hsome : (Nat.toDigits 10 index).isEmpty = false := by
    rw [List.isEmpty_eq_false_iff]
    exact Nat.toDigits_ne_nil
  have hall : (Nat.toDigits 10 index).all Char.isDigit = true :=
    List.all_eq_true.mpr hdigits
  rw [readIndex?, toList_repr, decode_digits hdigits]
  dsimp only
  split
  · next rest heq => exact absurd heq (hplus rest)
  · rw [hsome, hall, hvalue, hfits]
    rfl

/-- The target that asks for the forecasts of a line. -/
def forecastTarget (index : Nat) : String :=
  "/lines/" ++ toString index ++ "/forecast"

theorem pathOfTarget_forecast (index : Nat) :
    pathOfTarget (forecastTarget index)
      = "/lines/".toList ++ (Nat.toDigits 10 index ++ "/forecast".toList) := by
  have hlist : (forecastTarget index).toList
      = "/lines/".toList ++ (Nat.toDigits 10 index ++ "/forecast".toList) := by
    rw [forecastTarget, String.toList_append, String.toList_append,
      List.append_assoc, toList_repr]
  -- No query and no fragment: neither of their marks is in the target.
  have hplain : ∀ c ∈ (forecastTarget index).toList, c ≠ '?' ∧ c ≠ '#' := by
    have hbefore : ∀ c ∈ "/lines/".toList, c ≠ '?' ∧ c ≠ '#' := by simp
    have hbehind : ∀ c ∈ "/forecast".toList, c ≠ '?' ∧ c ≠ '#' := by simp
    intro c hc
    rw [hlist, List.mem_append, List.mem_append] at hc
    rcases hc with hc | hc | hc
    · exact hbefore c hc
    · have hdigit := toDigits_isDigit index c hc
      constructor
      · rintro rfl
        exact absurd hdigit (by decide)
      · rintro rfl
        exact absurd hdigit (by decide)
    · exact hbehind c hc
  have htake : (forecastTarget index).toList.takeWhile
      (fun c => c ≠ '?' && c ≠ '#') = (forecastTarget index).toList :=
    List.takeWhile_eq_self_iff.mpr fun c hc => by simp [hplain c hc]
  unfold pathOfTarget
  rw [htake, hlist]
  rfl

theorem slash_not_mem_digits (index : Nat) : '/' ∉ Nat.toDigits 10 index := by
  intro hmem
  exact absurd (toDigits_isDigit index '/' hmem) (by decide)

theorem Route.of?_lineForecast (index : Nat) :
    Route.of? (forecastTarget index)
      = some (.lineForecast (toString index)) := by
  have hsplit : ("/lines/".toList
        ++ (Nat.toDigits 10 index ++ "/forecast".toList)).splitOn '/'
      = [[], "lines".toList, Nat.toDigits 10 index, "forecast".toList] := by
    have hfirst : "/lines/".toList
          ++ (Nat.toDigits 10 index ++ "/forecast".toList)
        = [] ++ '/' :: ("lines".toList ++ '/' :: (Nat.toDigits 10 index
          ++ '/' :: "forecast".toList)) := rfl
    rw [hfirst, List.splitOn_append_cons_self_of_not_mem List.not_mem_nil,
      List.splitOn_append_cons_self_of_not_mem (by decide),
      List.splitOn_append_cons_self_of_not_mem (slash_not_mem_digits index),
      List.splitOn_eq_singleton (by decide)]
  rw [Route.of?, pathOfTarget_forecast, hsplit,
    Nat.toString_eq_ofList_toDigits]
  rfl

end Ridership.Server
