import EventSourcing.Json.Tree
import EventSourcing.Json.Writer

/-!
# Strings and integers in JSON text

What is written for a text is read as this text, whatever characters it holds (`next?_text`), and
what is written for an integer of 64 bits is read as this integer (`read?_writeInt`,
`Numeral.toInt?_ofInt`).
-/

namespace EventSourcing.Json

/-! ## Strings -/

theorem hexUnit?_hexDigit : ∀ n, n < 0x20 →
    hexUnit? 0x30 0x30 (hexDigit (n / 16)) (hexDigit (n % 16)) = some n := by
  decide

theorem utf8EncodeChar_control : ∀ n, n < 0x20 →
    String.utf8EncodeChar (Char.ofNat n) = [n.toUInt8] := by
  decide

/-- A byte is escaped by a letter or as a unit, or it stands for itself. -/
theorem escape_cases (b : UInt8) :
    (∃ e, e ≠ 0x75 ∧ shortEscape? e = some b ∧ escape b = [backslash, e]) ∨
    (b.toNat < 0x20 ∧ escape b =
      [backslash, 0x75, 0x30, 0x30, hexDigit (b.toNat / 16), hexDigit (b.toNat % 16)]) ∨
    (b ≠ quote ∧ b ≠ backslash ∧ ¬ b < 0x20 ∧ escape b = [b]) := by
  unfold escape
  split
  · rename_i h
    have hu : b ≠ 0x75 := by
      rintro rfl
      exact absurd h (by decide)
    exact .inl ⟨b, hu, if_pos (h.imp_right .inl), rfl⟩
  split
  · subst b
    exact .inl ⟨_, by decide, rfl, rfl⟩
  split
  · subst b
    exact .inl ⟨_, by decide, rfl, rfl⟩
  split
  · subst b
    exact .inl ⟨_, by decide, rfl, rfl⟩
  split
  · subst b
    exact .inl ⟨_, by decide, rfl, rfl⟩
  split
  · subst b
    exact .inl ⟨_, by decide, rfl, rfl⟩
  rename_i hplain _ _ _ _ _
  rw [not_or] at hplain
  split
  · rename_i hlow
    exact .inr (.inl ⟨hlow, rfl⟩)
  · rename_i hlow
    exact .inr (.inr ⟨hplain.1, hplain.2, hlow, rfl⟩)

/-- A byte is written as one piece of a string, which stands for this byte. -/
theorem exists_piece (b : UInt8) : ∃ piece : Piece,
    (∀ rest, pieces? (escape b ++ rest) = (pieces? rest).map fun x => (piece :: x.1, x.2)) ∧
    ∀ ps, assemble? (piece :: ps) = (assemble? ps).map (b :: ·) := by
  have hq : backslash ≠ quote := by decide
  have hc : ¬ backslash < 0x20 := by decide
  rcases escape_cases b with ⟨e, hu, hshort, he⟩ | ⟨hlow, he⟩ | ⟨hquote, hback, hlow, he⟩
  · refine ⟨.byte b, fun rest => ?_, fun _ => rfl⟩
    rw [he, List.cons_append, pieces?.eq_def]
    simp only [List.cons_append, List.nil_append, if_neg hq, if_neg hc, if_true, if_neg hu, hshort]
    cases pieces? rest <;> rfl
  · refine ⟨.unit b.toNat, fun rest => ?_, fun ps => ?_⟩
    · rw [he, List.cons_append, pieces?.eq_def]
      simp only [List.cons_append, List.nil_append, if_neg hq, if_neg hc, if_true,
        hexUnit?_hexDigit _ hlow]
      cases pieces? rest <;> rfl
    -- Units this low are characters of one byte.
    · have hunit : b.toNat < 0xD800 := Nat.lt_trans hlow (by decide)
      rw [assemble?.eq_def]
      simp only [hunit, true_or, if_true, utf8EncodeChar_control _ hlow, Nat.toUInt8_eq,
        UInt8.ofNat_toNat]
      rfl
  · refine ⟨.byte b, fun rest => ?_, fun _ => rfl⟩
    rw [he, List.cons_append, pieces?.eq_def]
    simp only [List.nil_append, if_neg hquote, if_neg hback, if_neg hlow]
    cases pieces? rest <;> rfl

theorem exists_pieces (bs rest : Bytes) : ∃ ps,
    pieces? (bs.flatMap escape ++ quote :: rest) = some (ps, rest) ∧ assemble? ps = some bs := by
  induction bs with
  | nil =>
      refine ⟨[], ?_, rfl⟩
      rw [List.flatMap_nil, List.nil_append, pieces?.eq_def]
      exact if_pos rfl
  | cons b bs ih =>
      obtain ⟨ps, hread, hps⟩ := ih
      obtain ⟨piece, hpiece, hassemble⟩ := exists_piece b
      refine ⟨piece :: ps, ?_, by rw [hassemble, hps]; rfl⟩
      rw [List.flatMap_cons, List.append_assoc, hpiece, hread]
      rfl

theorem next?_text (s : String) (rest : Bytes) :
    next? quote ((Bytes.ofString s).flatMap escape ++ quote :: rest) =
      some (.text (some s), rest) := by
  obtain ⟨ps, hread, hps⟩ := exists_pieces (Bytes.ofString s) rest
  have hcontent : content? ps = some s := by
    rw [content?, hps]
    exact Bytes.text?_ofString s
  show (pieces? _).map (fun x => (Token.text (content? x.1), x.2)) = _
  rw [hread, Option.map_some, hcontent]

/-! ## Digits -/

/-- The digits of a number, the highest first. -/
def decimal (n : Nat) : List Nat := (Nat.toDigits 10 n).map Number.digitValue

/-- The byte that is written for a digit. -/
def digitByte (d : Nat) : UInt8 := (0x30 + d).toUInt8

theorem decimal_ne_nil (n : Nat) : decimal n ≠ [] := fun h =>
  Nat.toDigits_ne_nil (List.map_eq_nil_iff.1 h)

theorem ofDigits_decimal (n : Nat) : Number.ofDigits (decimal n) = n := by
  have h : Nat.ofDigitChars 10 (Nat.toDigits 10 n) 0 = n :=
    Nat.ofDigitChars_toDigits (by decide) (by decide)
  rw [Nat.ofDigitChars] at h
  rw [Number.ofDigits, decimal, List.foldl_map]
  simpa only [Nat.mul_comm 10, Number.digitValue] using h

theorem digitValue_bounds {c : Char} (h : c.isDigit = true) :
    Number.digitValue c < 10 ∧ 0x30 + Number.digitValue c = c.toNat := by
  simp only [Char.isDigit, Bool.and_eq_true, decide_eq_true_eq] at h
  have hlow : 0x30 ≤ c.toNat := h.1
  have hhigh : c.toNat ≤ 0x39 := h.2
  have hvalue : Number.digitValue c = c.toNat - 0x30 := rfl
  omega

theorem lt_of_mem_decimal {n d : Nat} (h : d ∈ decimal n) : d < 10 := by
  obtain ⟨c, hc, rfl⟩ := List.mem_map.1 h
  exact (digitValue_bounds (Nat.isDigit_of_mem_toDigits (by decide) (by decide) hc)).1

theorem isDigit_digitByte : ∀ d, d < 10 →
    isDigit (digitByte d) = true ∧ (digitByte d).toNat - 0x30 = d ∧ digitByte d ≠ 0x2D := by
  decide

/-- Only zero has a leading zero. -/
theorem decimal_zero_cons {n : Nat} {ds : List Nat} (h : decimal n = 0 :: ds) : ds = [] := by
  induction n using Nat.strongRecOn generalizing ds with
  | ind n ih =>
      by_cases hn : n < 10
      · rw [decimal, Nat.toDigits_of_lt_base hn] at h
        exact (List.cons.inj h).2.symm
      -- The leading digit is that of a tenth, which is not zero.
      · have hlast : decimal n = decimal (n / 10) ++ [Number.digitValue (n % 10).digitChar] := by
          rw [decimal, Nat.toDigits_of_base_le (by decide) (Nat.not_lt.1 hn), List.map_append]
          rfl
        rw [hlast] at h
        cases hhigh : decimal (n / 10) with
        | nil => exact absurd hhigh (decimal_ne_nil _)
        | cons d high =>
            rw [hhigh] at h
            obtain rfl : d = 0 := (List.cons.inj h).1
            obtain rfl := ih (n / 10) (by omega) hhigh
            have htenth := ofDigits_decimal (n / 10)
            rw [hhigh] at htenth
            have hzero : 0 = n / 10 := htenth
            omega

theorem ofString_repr (n : Nat) : Bytes.ofString n.repr = (decimal n).map digitByte := by
  have hbyte (c : Char) (hc : c ∈ Nat.toDigits 10 n) :
      String.utf8EncodeChar c = [digitByte (Number.digitValue c)] := by
    obtain ⟨hlt, heq⟩ := digitValue_bounds (Nat.isDigit_of_mem_toDigits (by decide) (by decide) hc)
    rw [digitByte, heq, String.utf8EncodeChar.eq_1]
    exact if_pos (show c.toNat ≤ 127 by omega)
  rw [Bytes.ofString, Nat.repr_eq_ofList_toDigits, String.toByteArray_ofList, List.utf8Encode,
    List.data_toByteArray, decimal, List.map_map, List.map_eq_flatMap]
  exact congrArg List.flatten (List.map_congr_left hbyte)

/-- An integer is written as its digits, behind a dash if it is negative. -/
theorem writeInt_eq (n : Int) :
    writeInt n = (if n < 0 then [0x2D] else []) ++ (decimal n.natAbs).map digitByte := by
  cases n with
  | ofNat m =>
      have h : ¬ Int.ofNat m < 0 := Int.not_lt.2 (Int.natCast_nonneg m)
      rw [if_neg h, List.nil_append]
      exact ofString_repr m
  | negSucc m =>
      have hdash : writeInt (.negSucc m) = 0x2D :: Bytes.ofString m.succ.repr := by
        show Bytes.ofString ("-" ++ m.succ.repr) = _
        simp only [Bytes.ofString, String.toByteArray_append, ByteArray.data_append,
          Array.toList_append]
        rfl
      rw [if_pos (Int.negSucc_lt_zero m), hdash, ofString_repr]
      rfl

/-! ## Integers -/

/-- Whether the bytes go on with what ends a member of an object. -/
def EndsMember (rest : Bytes) : Prop := ∃ tail, rest = 0x2C :: tail ∨ rest = 0x7D :: tail

theorem takeDigits_decimal (n : Nat) {rest : Bytes} (h : EndsMember rest) :
    takeDigits ((decimal n).map digitByte ++ rest) = (decimal n, rest) := by
  have hdigits : ∀ b ∈ (decimal n).map digitByte, isDigit b = true := by
    intro b hb
    obtain ⟨d, hd, rfl⟩ := List.mem_map.1 hb
    exact (isDigit_digitByte d (lt_of_mem_decimal hd)).1
  have hvalues : (decimal n).map (fun d => (digitByte d).toNat - 0x30) = decimal n := by
    refine (List.map_congr_left fun d hd => ?_).trans (List.map_id _)
    exact (isDigit_digitByte d (lt_of_mem_decimal hd)).2.1
  have hrest : rest.takeWhile isDigit = [] ∧ rest.dropWhile isDigit = rest := by
    obtain ⟨tail, rfl | rfl⟩ := h <;> exact ⟨rfl, rfl⟩
  rw [takeDigits, List.takeWhile_append_of_pos hdigits, List.dropWhile_append_of_pos hdigits,
    hrest.1, hrest.2, List.append_nil, List.map_map]
  exact congrArg (·, rest) hvalues

namespace Numeral

def ofInt (n : Int) : Numeral := ⟨decide (n < 0), decimal n.natAbs, [], none⟩

theorem fraction?_eq_nil {rest : Bytes} (h : EndsMember rest) :
    fraction? rest = some ([], rest) := by
  obtain ⟨tail, rfl | rfl⟩ := h <;> rfl

theorem exponent?_eq_none {rest : Bytes} (h : EndsMember rest) :
    exponent? rest = some (none, rest) := by
  obtain ⟨tail, rfl | rfl⟩ := h <;> rfl

/-- Digits whose number fits a word are gathered to the last one. -/
theorem gather_eq {n : Nat} {ds : List Nat} (count : Nat)
    (h : ds.foldl (fun n d => n * 10 + d) n ≤ Number.maxWord64) :
    gather n count ds = (ds.foldl (fun n d => n * 10 + d) n, count + ds.length) := by
  have hgrow (ds : List Nat) (n : Nat) : n ≤ ds.foldl (fun n d => n * 10 + d) n := by
    induction ds generalizing n with
    | nil => exact Nat.le_refl n
    | cons d ds ih => exact Nat.le_trans (by omega) (ih (n * 10 + d))
  induction ds generalizing n count with
  | nil => rfl
  | cons d ds ih =>
      have hle := Nat.le_trans (hgrow ds (n * 10 + d)) h
      rw [gather, if_neg (Nat.not_lt.2 hle), ih (count + 1) h, List.foldl_cons, List.length_cons,
        Nat.add_assoc, Nat.add_comm 1]

theorem toInt?_ofInt {n : Int} (h : n.natAbs ≤ Number.maxWord64) : (ofInt n).toInt? = some n := by
  have hvalue := ofDigits_decimal n.natAbs
  rw [Number.ofDigits] at hvalue
  have hgather : gather 0 0 (decimal n.natAbs) = (n.natAbs, (decimal n.natAbs).length) := by
    rw [gather_eq 0 (by rw [hvalue]; exact h), hvalue, Nat.zero_add]
  have hsign : ¬ (n < 0 ∧ n.natAbs = 0) := by omega
  simp only [toInt?, ofInt, hgather, Nat.lt_irrefl, ne_eq, not_true_eq_false, Option.isSome_none,
    Bool.false_eq_true, decide_eq_true_eq, hsign, or_self, if_false, Option.some.injEq]
  split
  · omega
  · omega

end Numeral

theorem read?_writeInt (n : Int) {rest : Bytes} (h : EndsMember rest) :
    Numeral.read? (writeInt n ++ rest) = some (.ofInt n, rest) := by
  have hfraction := Numeral.fraction?_eq_nil h
  have hexponent := Numeral.exponent?_eq_none h
  have hdigits := takeDigits_decimal n.natAbs h
  rw [writeInt_eq, Numeral.ofInt]
  cases hd : decimal n.natAbs with
  | nil => exact absurd hd (decimal_ne_nil _)
  | cons d ds =>
      rw [hd] at hdigits
      -- The reader takes a zero only if no digit follows it.
      have hzero (e : Nat) (es : List Nat) (he : d :: ds = 0 :: e :: es) : False := by
        cases decimal_zero_cons (hd.trans he)
      by_cases hn : n < 0
      · rw [if_pos hn, List.cons_append, List.cons_append, List.nil_append, Numeral.read?.eq_1]
        simp only [hdigits, hfraction, hexponent, Option.bind_eq_bind, Option.bind_some, hn,
          decide_true]
      · have hdash := (isDigit_digitByte d (lt_of_mem_decimal (hd ▸ List.mem_cons_self))).2.2
        have hno (tail : Bytes) (ht : (d :: ds).map digitByte ++ rest = 0x2D :: tail) : False :=
          hdash (List.cons.inj ht).1
        rw [if_neg hn, List.nil_append, Numeral.read?.eq_2 _ hno]
        simp only [hdigits, hfraction, hexponent, Option.bind_eq_bind, Option.bind_some, hn,
          decide_false]

end EventSourcing.Json
