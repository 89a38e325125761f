/-!
# Tables

A finite map as a list of pairs in the order in which the keys came in. The operations are described
through `get?` alone.
-/

namespace EventSourcing

abbrev Table (κ ν : Type) := List (κ × ν)

namespace Table

variable {κ ν : Type} [DecidableEq κ]

def get? (t : Table κ ν) (key : κ) : Option ν := (t.find? fun p => p.1 = key).map (·.2)

/-- Gives the key a new value in its place, or puts it at the end. -/
def insert (t : Table κ ν) (key : κ) (value : ν) : Table κ ν :=
  match t with
  | [] => [(key, value)]
  | p :: rest => if p.1 = key then (key, value) :: rest else p :: insert rest key value

def erase (t : Table κ ν) (key : κ) : Table κ ν := t.filter fun p => p.1 ≠ key

/-- Changes every value. -/
def mapValues (t : Table κ ν) (f : ν → ν) : Table κ ν := t.map fun p => (p.1, f p.2)

theorem get?_insert (t : Table κ ν) (key k : κ) (value : ν) :
    (t.insert key value).get? k = if k = key then some value else t.get? k := by
  induction t with
  | nil => by_cases h : k = key <;> simp [insert, get?, h, eq_comm]
  | cons p rest ih =>
    simp only [get?] at ih
    by_cases hp : p.1 = key
    · by_cases hk : k = key
      · simp [insert, get?, hp, hk]
      · simp [insert, get?, hp, hk, Ne.symm hk]
    · by_cases hk : p.1 = k
      · subst hk
        simp [insert, get?, hp]
      · simp [insert, get?, hp, hk, ih]

theorem get?_erase (t : Table κ ν) (key k : κ) :
    (t.erase key).get? k = if k = key then none else t.get? k := by
  induction t with
  | nil => simp [erase, get?]
  | cons p rest ih =>
    simp only [get?, erase] at ih
    by_cases hp : p.1 = key <;> by_cases hk : p.1 = k <;> grind [erase, get?]

theorem get?_mapValues (t : Table κ ν) (f : ν → ν) (k : κ) :
    (t.mapValues f).get? k = (t.get? k).map f := by
  induction t with
  | nil => rfl
  | cons p rest ih =>
    simp only [get?, mapValues] at ih
    by_cases hk : p.1 = k
    · simp [mapValues, get?, hk]
    · simpa [mapValues, get?, hk] using ih

end Table

end EventSourcing
