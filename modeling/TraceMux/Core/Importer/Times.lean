/-
# Times of origin that do not fit

The parsers of the CSV importer and of the Tera Term importer know dates that a signed 64-bit
number of nanoseconds does not reach. Such a date is neither refused nor replaced by the time of
the import: the number wraps around, and the row gets a date of another century.
-/

import TraceMux.Core.Importer.Csv
import TraceMux.Core.Importer.TeraTerm
import TraceMux.Core.Log.Rfc3339

namespace TraceMux.Core.Importer.Times

open Base Core.Log List

/-- The time of origin that a parsed time should give: its instant if that fits, and otherwise the
time of the import, as for a text that is not recognised. -/
def originOf (parsed : Option ℤ) (now : ℤ) : ℤ := (parsed.filter fun ns => InI64 ns).getD now

theorem wrapped_eq_originOf_iff (parsed : Option ℤ) :
    (∀ now, (parsed.map wrapI64).getD now = originOf parsed now) ↔ ∀ ns ∈ parsed, InI64 ns := by
  cases parsed with
  | none => simp [originOf]
  | some ns =>
    simp only [originOf, Option.map_some, Option.getD_some, Option.mem_some_iff, forall_eq',
      Option.filter_some, decide_eq_true_eq]
    by_cases hfits : InI64 ns
    · refine iff_of_true (fun _ => ?_) hfits
      rw [if_pos hfits, Option.getD_some, wrapI64]
      obtain ⟨hlow, hhigh⟩ := hfits
      omega
    · -- The wrapped number cannot be every time of the import.
      refine iff_of_false (fun hall => ?_) hfits
      rw [if_neg hfits] at hall
      exact absurd ((hall 0).symm.trans (hall 1)) (by decide)

variable (parseRfc3339 : String → Option ℤ) (parseIsoMs parseIso : Text → Option ℤ)

def csvTime (cols : Csv.Columns) (row : List Text) : Option ℤ :=
  (cols.ts.bind (row[·]?)).bind fun s => parseRfc3339 (String.ofList s)

def bracketTime (inside : Text) : Option ℤ := (parseIsoMs inside).or (parseIso inside)

/-- In both importers a row or a line has the right time of origin, whenever it is imported, if
and only if the instant that it names fits. -/
theorem imported_origin_iff :
    (∀ (cols : Csv.Columns) (row : List Text),
      (∀ now, (Csv.importedRow parseRfc3339 cols row now).tsOriginNs =
          originOf (csvTime parseRfc3339 cols row) now) ↔
        ∀ ns ∈ csvTime parseRfc3339 cols row, InI64 ns) ∧
    ∀ inside rest : Text, ']' ∉ inside →
      ((∀ now, (TeraTerm.importedLine parseIsoMs parseIso
            ('[' :: (inside ++ ']' :: rest)) now).tsOriginNs =
          originOf (bracketTime parseIsoMs parseIso inside) now) ↔
        ∀ ns ∈ bracketTime parseIsoMs parseIso inside, InI64 ns) := by
  constructor
  · intro cols row
    rw [← wrapped_eq_originOf_iff, csvTime, Option.map_bind]
    rfl
  · intro inside rest hinside
    have hkeep : ∀ c ∈ inside, decide (c ≠ ']') = true := fun c hc =>
      decide_eq_true fun hne => hinside (hne ▸ hc)
    have htake : (inside ++ ']' :: rest).takeWhile (· ≠ ']') = inside := by
      rw [takeWhile_append_of_pos hkeep]
      exact append_nil inside
    rw [← wrapped_eq_originOf_iff, bracketTime]
    simp only [TeraTerm.importedLine, TeraTerm.splitLine, TeraTerm.parsePrefix]
    rw [if_pos (by simp), htake]
    rfl

/-- The year 2300 becomes 1715. -/
theorem imported_origin_wraps :
    csvTime parseRfc3339Ns { ts := some 0 } ["2300-01-01T00:00:00Z".toList] =
        some 10413792000000000000 ∧
      (Csv.importedRow parseRfc3339Ns { ts := some 0 } ["2300-01-01T00:00:00Z".toList]
        0).tsOriginNs = -8032952073709551616 ∧
      formatRfc3339Ns (-8032952073709551616) = "1715-06-13T00:25:26.290448384Z" := by
  decide

end TraceMux.Core.Importer.Times
