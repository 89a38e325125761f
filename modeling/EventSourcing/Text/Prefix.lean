/-!
# Prefixes

Taking a prefix off a list or a text. What is left is what has to be put behind the prefix to get
the whole back.
-/

namespace EventSourcing

theorem isPrefixOf?_eq_some_iff {α : Type} [BEq α] [LawfulBEq α] {p l rest : List α} :
    p.isPrefixOf? l = some rest ↔ l = p ++ rest := by
  induction p generalizing l with
  | nil =>
    show some l = some rest ↔ l = rest
    exact Option.some_inj
  | cons a p ih =>
    cases l with
    | nil =>
      show none = some rest ↔ _
      simp
    | cons b l =>
      show (if a == b then p.isPrefixOf? l else none) = some rest ↔ _
      simp only [List.cons_append, List.cons.injEq]
      by_cases hab : a = b
      · simp [hab, ih]
      · simp [hab, Ne.symm hab]

namespace Text

/-- The text after the prefix, if it starts with it. -/
def strip? (start s : String) : Option String :=
  (start.toList.isPrefixOf? s.toList).map String.ofList

/-- Whether the text starts with the prefix. -/
def hasPrefix (start s : String) : Bool := (strip? start s).isSome

theorem strip?_eq_some_iff {start s rest : String} :
    strip? start s = some rest ↔ s = start ++ rest := by
  simp only [strip?, Option.map_eq_some_iff, isPrefixOf?_eq_some_iff]
  constructor
  · rintro ⟨r, h, rfl⟩
    apply String.toList_inj.1
    simp [h]
  · rintro rfl
    exact ⟨rest.toList, by simp, by simp⟩

theorem hasPrefix_iff {start s : String} :
    hasPrefix start s = true ↔ ∃ rest, s = start ++ rest := by
  simp [hasPrefix, Option.isSome_iff_exists, strip?_eq_some_iff]

end Text

end EventSourcing
