import EventSourcing.Proofs.Json.Scalar

/-!
# Documents

An object that is written with texts and integers of 64 bits as its members is read as the tree of
these members, in their order (`parse?_writeObject`).
-/

namespace EventSourcing.Json

/-! ## Scalars -/

/-- What is written for a member of an object. -/
inductive Scalar
  | text (value : String)
  | int (value : Int)

namespace Scalar

def write : Scalar → Bytes
  | .text s => writeText s
  | .int n => writeInt n

def tree : Scalar → Tree
  | .text s => .text (some s)
  | .int n => .number (.ofInt n)

end Scalar

/-- The members of an object as they are written. -/
def written (members : List (String × Scalar)) : List (String × Bytes) :=
  members.map fun m => (m.1, m.2.write)

/-- The members of an object as they are read. -/
def trees (members : List (String × Scalar)) : List (Option String × Tree) :=
  members.map fun m => (some m.1, m.2.tree)

/-! ## Running the machine over bytes -/

/-- The machine after all tokens of the bytes. -/
def Machine.run? (m : Machine) (bs : Bytes) : Option Machine :=
  (scan bs).bind fun tokens => tokens.foldlM Machine.step m

theorem scan_cons {b : UInt8} {bs rest : Bytes} {token : Token} (hb : isBlank b = false)
    (h : next? b bs = some (token, rest)) : scan (b :: bs) = (scan rest).map (token :: ·) := by
  rw [scan]
  have hdrop : (b :: bs).dropWhile isBlank = b :: bs := List.dropWhile_cons_of_neg (by simp [hb])
  split
  · rename_i heq
    rw [hdrop] at heq
    cases heq
  · rename_i heq
    rw [hdrop] at heq
    cases heq
    split
    · rename_i hnext
      rw [h] at hnext
      cases hnext
    · rename_i hnext
      rw [h] at hnext
      cases hnext
      rfl

theorem Machine.run?_cons (m : Machine) {b : UInt8} {bs rest : Bytes} {token : Token}
    (hb : isBlank b = false) (h : next? b bs = some (token, rest)) :
    m.run? (b :: bs) = (m.step token).bind fun m' => m'.run? rest := by
  rw [Machine.run?, scan_cons hb h]
  cases hscan : scan rest with
  | none =>
      cases hstep : m.step token <;> simp [Machine.run?, hscan]
  | some tokens =>
      simp [Machine.run?, hscan, List.foldlM_cons]

theorem parse?_eq_run? (bs : Bytes) :
    Tree.parse? bs =
      match Machine.run? ([], .value) bs with
      | some ([], .close value) => some value
      | _ => none := by
  rw [Tree.parse?, Machine.run?]
  cases scan bs <;> rfl

/-! ## Members -/

theorem run?_writeText (m : Machine) (s : String) (rest : Bytes) :
    m.run? (writeText s ++ rest) = (m.step (.text (some s))).bind fun m' => m'.run? rest := by
  rw [writeText, List.cons_append, List.cons_append, List.append_assoc, List.singleton_append]
  exact m.run?_cons (by decide) (next?_text s rest)

/-- A dash or a digit starts a number. -/
theorem next?_number {b : UInt8} (h : b = 0x2D ∨ isDigit b = true) (rest : Bytes) :
    isBlank b = false ∧
      next? b rest = (Numeral.read? (b :: rest)).map fun x => (.number x.1, x.2) := by
  have hne (c : UInt8) (hc : c ≠ 0x2D) (hdigit : isDigit c = false) : b ≠ c := by
    rintro rfl
    rcases h with h | h
    · exact hc h
    · exact absurd (h.symm.trans hdigit) (by decide)
  constructor
  · simp only [isBlank, hne 0x20 (by decide) (by decide), hne 0x09 (by decide) (by decide),
      hne 0x0A (by decide) (by decide), hne 0x0D (by decide) (by decide), decide_false,
      Bool.or_self]
  · simp only [next?, hne 0x5B (by decide) (by decide), hne 0x5D (by decide) (by decide),
      hne 0x7B (by decide) (by decide), hne 0x7D (by decide) (by decide),
      hne 0x2C (by decide) (by decide), hne 0x3A (by decide) (by decide),
      hne quote (by decide) (by decide), hne 0x74 (by decide) (by decide),
      hne 0x66 (by decide) (by decide), hne 0x6E (by decide) (by decide), if_false]

theorem run?_writeInt (m : Machine) (n : Int) {rest : Bytes} (h : EndsMember rest) :
    m.run? (writeInt n ++ rest) =
      (m.step (.number (.ofInt n))).bind fun m' => m'.run? rest := by
  have hread := read?_writeInt n h
  obtain ⟨b, bs, hbs, hb⟩ : ∃ b bs, writeInt n = b :: bs ∧ (b = 0x2D ∨ isDigit b = true) := by
    rw [writeInt_eq]
    split
    · exact ⟨_, _, rfl, .inl rfl⟩
    · cases hd : decimal n.natAbs with
      | nil => exact absurd hd (decimal_ne_nil _)
      | cons d ds =>
          have hlt := lt_of_mem_decimal (hd ▸ List.mem_cons_self : d ∈ decimal n.natAbs)
          exact ⟨_, _, rfl, .inr (isDigit_digitByte d hlt).1⟩
  rw [hbs, List.cons_append] at hread ⊢
  obtain ⟨hblank, hnext⟩ := next?_number hb (bs ++ rest)
  rw [hread] at hnext
  exact m.run?_cons hblank hnext

theorem run?_scalar (stack : List Frame) (value : Scalar) {rest : Bytes} (h : EndsMember rest) :
    Machine.run? (stack, .value) (value.write ++ rest) =
      Machine.run? (stack, .close value.tree) rest := by
  cases value with
  | text s => exact run?_writeText _ s rest
  | int n => exact run?_writeInt _ n h

theorem run?_member (done : List (Option String × Tree)) (stack : List Frame) (key : String)
    (value : Scalar) {rest : Bytes} (h : EndsMember rest) :
    Machine.run? (.object done :: stack, .key) (writeText key ++ 0x3A :: value.write ++ rest) =
      Machine.run? (.member done (some key) :: stack, .close value.tree) rest := by
  rw [List.append_assoc, List.cons_append, run?_writeText]
  show Machine.run? (.member done (some key) :: stack, .colon) _ = _
  rw [Machine.run?_cons _ (by decide) (show next? 0x3A _ = some (.colon, _) from rfl)]
  exact run?_scalar _ value h

theorem written_cons (m : String × Scalar) (ms : List (String × Scalar)) (rest : Bytes) :
    writeMembers (written (m :: ms)) ++ 0x7D :: rest = writeText m.1 ++ 0x3A :: m.2.write ++
      match ms with
      | [] => 0x7D :: rest
      | _ :: _ => 0x2C :: (writeMembers (written ms) ++ 0x7D :: rest) := by
  cases ms with
  | nil => rfl
  | cons m' ms =>
      show writeText m.1 ++ 0x3A :: m.2.write ++ 0x2C :: _ ++ _ = _
      rw [List.append_assoc, List.cons_append]
      rfl

/-- Members are gathered up to the closing brace. -/
theorem run?_writeMembers (m : String × Scalar) (ms : List (String × Scalar))
    (done : List (Option String × Tree)) (stack : List Frame) (rest : Bytes) :
    Machine.run? (.object done :: stack, .key) (writeMembers (written (m :: ms)) ++ 0x7D :: rest) =
      Machine.run? (stack, .close (.object (done.reverse ++ trees (m :: ms)))) rest := by
  induction ms generalizing m done with
  | nil =>
      rw [written_cons, run?_member done stack m.1 m.2 ⟨rest, .inr rfl⟩,
        Machine.run?_cons _ (by decide) (show next? 0x7D _ = some (.closeObject, _) from rfl)]
      show Machine.run? (stack, .close (.object ((some m.1, m.2.tree) :: done).reverse)) rest = _
      rw [List.reverse_cons]
      rfl
  | cons m' ms ih =>
      rw [written_cons, run?_member done stack m.1 m.2 ⟨_, .inl rfl⟩,
        Machine.run?_cons _ (by decide) (show next? 0x2C _ = some (.comma, _) from rfl)]
      show Machine.run? (.object ((some m.1, m.2.tree) :: done) :: stack, .key) _ = _
      rw [ih, List.reverse_cons, List.append_assoc]
      rfl

/-! ## Objects -/

theorem parse?_writeObject (members : List (String × Scalar)) :
    Tree.parse? (writeObject (written members)) = some (.object (trees members)) := by
  have hrun : Machine.run? ([], .value) (writeObject (written members)) =
      Machine.run? ([], .close (.object (trees members))) [] := by
    rw [writeObject, List.cons_append,
      Machine.run?_cons _ (by decide) (show next? 0x7B _ = some (.openObject, _) from rfl)]
    show Machine.run? ([.object []], .firstKey) _ = _
    cases members with
    | nil =>
        exact Machine.run?_cons _ (by decide) (show next? 0x7D _ = some (.closeObject, _) from rfl)
    -- The first key and a later one are read alike.
    | cons m ms =>
        have hfirst : Machine.run? ([.object []], .firstKey)
              (writeMembers (written (m :: ms)) ++ [0x7D]) =
            Machine.run? ([.object []], .key) (writeMembers (written (m :: ms)) ++ [0x7D]) := by
          rw [written_cons, List.append_assoc, run?_writeText, run?_writeText]
          rfl
        rw [hfirst, run?_writeMembers]
        rfl
  have hend (m : Machine) : m.run? [] = some m := by
    rw [Machine.run?, scan]
    rfl
  rw [parse?_eq_run?, hrun, hend]

end EventSourcing.Json
