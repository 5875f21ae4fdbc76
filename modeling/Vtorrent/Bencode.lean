import Mathlib

/-!
# Bencoded values

Byte strings are written as their length, a colon and their bytes; integers stand between
`i` and `e`, lists between `l` and `e`, dictionaries between `d` and `e`.  Numbers may have
leading zeros and the keys of a dictionary may come in any order and more than once, so that
the relation between bytes and values covers lenient readers as well as strict ones.
-/

namespace Bencode

/-- Integers are those of a machine word; a dictionary lists its entries as they are read. -/
inductive Value where
  | bytes (content : List UInt8)
  | int (number : Int64)
  | list (items : List Value)
  | dict (entries : List (List UInt8 × Value))

/-- The value under a key: a later entry replaces an earlier one. -/
def get (entries : List (List UInt8 × Value)) (key : List UInt8) : Option Value :=
  (entries.reverse.find? fun entry => entry.1 == key).map Prod.snd

def isDigit (byte : UInt8) : Bool := decide (48 ≤ byte) && decide (byte ≤ 57)

def decimal (digits : List UInt8) : Nat :=
  digits.foldl (fun value digit => 10 * value + (digit.toNat - 48)) 0

def Numeral (digits : List UInt8) (number : Nat) : Prop :=
  digits ≠ [] ∧ (∀ digit ∈ digits, isDigit digit = true) ∧ decimal digits = number

/-- The text between `i` and `e` stands for the integer. -/
inductive Written : List UInt8 → Int64 → Prop where
  | nonneg {digits : List UInt8} {magnitude : Nat} {number : Int64}
      (numeral : Numeral digits magnitude) (value : number.toInt = magnitude) :
      Written digits number
  | negative {digits : List UInt8} {magnitude : Nat} {number : Int64}
      (numeral : Numeral digits magnitude) (value : number.toInt = -magnitude) :
      Written (45 :: digits) number

/-- What a run of bytes can stand for: a value, or what stands inside a list or dictionary. -/
inductive Meaning where
  | value (value : Value)
  | items (items : List Value)
  | entries (entries : List (List UInt8 × Value))

/-- The bytes are an encoding of what they stand for. -/
inductive Reads : List UInt8 → Meaning → Prop where
  | bytes {digits content : List UInt8} (numeral : Numeral digits content.length) :
      Reads (digits ++ 58 :: content) (.value (.bytes content))
  | int {text : List UInt8} {number : Int64} (written : Written text number) :
      Reads (105 :: text ++ [101]) (.value (.int number))
  | list {inner : List UInt8} {items : List Value} (reads : Reads inner (.items items)) :
      Reads (108 :: inner ++ [101]) (.value (.list items))
  | dict {inner : List UInt8} {entries : List (List UInt8 × Value)}
      (reads : Reads inner (.entries entries)) :
      Reads (100 :: inner ++ [101]) (.value (.dict entries))
  | noItem : Reads [] (.items [])
  | item {first rest : List UInt8} {value : Value} {items : List Value}
      (head : Reads first (.value value)) (tail : Reads rest (.items items)) :
      Reads (first ++ rest) (.items (value :: items))
  | noEntry : Reads [] (.entries [])
  | entry {digits key first rest : List UInt8} {value : Value}
      {entries : List (List UInt8 × Value)} (numeral : Numeral digits key.length)
      (head : Reads first (.value value)) (tail : Reads rest (.entries entries)) :
      Reads ((digits ++ 58 :: key) ++ (first ++ rest)) (.entries ((key, value) :: entries))

/-- The bytes encode the value. -/
def Encodes (bytes : List UInt8) (value : Value) : Prop := Reads bytes (.value value)

/-! ## First bytes -/

theorem Numeral.digit {digits : List UInt8} {number : Nat} (numeral : Numeral digits number)
    {digit : UInt8} (member : digit ∈ digits) : 48 ≤ digit ∧ digit ≤ 57 := by
  have shown := numeral.2.1 digit member
  simpa [isDigit] using shown

theorem Numeral.exists_cons {digits : List UInt8} {number : Nat}
    (numeral : Numeral digits number) :
    ∃ first rest, digits = first :: rest ∧ 48 ≤ first ∧ first ≤ 57 := by
  obtain ⟨first, rest, rfl⟩ := List.exists_cons_of_ne_nil numeral.1
  exact ⟨first, rest, rfl, numeral.digit (by simp)⟩

/-- The text of an integer has no `e`. -/
theorem Written.ne_end {text : List UInt8} {number : Int64} (written : Written text number) :
    ∀ byte ∈ text, byte ≠ 101 := by
  rintro byte member rfl
  cases written with
  | nonneg numeral _ => exact absurd (numeral.digit member) (by decide)
  | negative numeral _ =>
      rcases List.mem_cons.mp member with minus | digit
      · exact absurd minus (by decide)
      · exact absurd (numeral.digit digit) (by decide)

theorem Encodes.exists_cons {bytes : List UInt8} {value : Value} (encodes : Encodes bytes value) :
    ∃ first rest, bytes = first :: rest ∧ first ≠ 101 := by
  cases encodes with
  | bytes numeral =>
      obtain ⟨first, rest, rfl, -, high⟩ := numeral.exists_cons
      refine ⟨first, _, rfl, ?_⟩
      rintro rfl
      exact absurd high (by decide)
  | int _ => exact ⟨105, _, rfl, by decide⟩
  | list _ => exact ⟨108, _, rfl, by decide⟩
  | dict _ => exact ⟨100, _, rfl, by decide⟩

/-! ## One entry under a key -/

/-- What stands inside a dictionary has one entry under the key, and its value is encoded by
the given bytes. -/
def SoleEntry (key inner : List UInt8) (entries : List (List UInt8 × Value))
    (bytes : List UInt8) (value : Value) : Prop :=
  ∃ before digits after earlier later,
    inner = before ++ ((digits ++ 58 :: key) ++ (bytes ++ after)) ∧
    Reads before (.entries earlier) ∧ Numeral digits key.length ∧ Encodes bytes value ∧
    Reads after (.entries later) ∧ entries = earlier ++ (key, value) :: later ∧
    key ∉ earlier.map Prod.fst ∧ key ∉ later.map Prod.fst

theorem get_eq_none {entries : List (List UInt8 × Value)} {key : List UInt8}
    (absent : key ∉ entries.map Prod.fst) : get entries key = none := by
  rw [get, Option.map_eq_none_iff, List.find?_eq_none]
  intro entry member named
  rw [beq_iff_eq] at named
  exact absent (List.mem_map.mpr ⟨entry, List.mem_reverse.mp member, named⟩)

theorem SoleEntry.get_eq {key inner bytes : List UInt8} {entries : List (List UInt8 × Value)}
    {value : Value} (sole : SoleEntry key inner entries bytes value) :
    get entries key = some value := by
  obtain ⟨before, digits, after, earlier, later, -, -, -, -, -, rfl, -, absent⟩ := sole
  have none := get_eq_none absent
  rw [get, Option.map_eq_none_iff] at none
  rw [get, List.reverse_append, List.reverse_cons, List.find?_append, List.find?_append, none]
  simp

theorem SoleEntry.cons {key inner bytes digits other first : List UInt8}
    {entries : List (List UInt8 × Value)} {value head : Value}
    (sole : SoleEntry key inner entries bytes value) (numeral : Numeral digits other.length)
    (encodes : Encodes first head) (differs : key ≠ other) :
    SoleEntry key ((digits ++ 58 :: other) ++ (first ++ inner)) ((other, head) :: entries)
      bytes value := by
  obtain ⟨before, places, after, earlier, later, rfl, reads, named, coded, rest, rfl, absent,
    absent'⟩ := sole
  refine ⟨(digits ++ 58 :: other) ++ (first ++ before), places, after, (other, head) :: earlier,
    later, by simp, .entry numeral encodes reads, named, coded, rest, rfl, ?_, absent'⟩
  rw [List.map_cons, List.mem_cons, not_or]
  exact ⟨differs, absent⟩

/-! ## A reader -/

def readBytes (data : List UInt8) : Option (List UInt8 × List UInt8) :=
  let digits := data.takeWhile isDigit
  match data.dropWhile isDigit with
  | 58 :: rest =>
      if digits ≠ [] ∧ decimal digits ≤ rest.length then
        some (rest.take (decimal digits), rest.drop (decimal digits))
      else none
  | _ => none

def readInt (text : List UInt8) : Option Int64 :=
  let negative := text.head? == some 45
  let digits := if negative then text.tail else text
  let magnitude : Int := decimal digits
  let number := if negative then -magnitude else magnitude
  if digits ≠ [] ∧ digits.all isDigit ∧ (Int64.ofInt number).toInt = number then
    some (Int64.ofInt number)
  else none

mutual

def readValue : Nat → List UInt8 → Option (Value × List UInt8)
  | 0, _ => none
  | fuel + 1, data =>
      match data with
      | 105 :: rest =>
          match rest.dropWhile (· != 101) with
          | [] => none
          | _ :: after =>
              (readInt (rest.takeWhile (· != 101))).map fun number => (.int number, after)
      | 108 :: rest => (readItems fuel rest).map fun read => (.list read.1, read.2)
      | 100 :: rest => (readEntries fuel rest).map fun read => (.dict read.1, read.2)
      | _ => (readBytes data).map fun read => (.bytes read.1, read.2)

def readItems : Nat → List UInt8 → Option (List Value × List UInt8)
  | 0, _ => none
  | fuel + 1, data =>
      match data with
      | 101 :: rest => some ([], rest)
      | _ =>
          (readValue fuel data).bind fun first =>
            (readItems fuel first.2).map fun read => (first.1 :: read.1, read.2)

def readEntries : Nat → List UInt8 → Option (List (List UInt8 × Value) × List UInt8)
  | 0, _ => none
  | fuel + 1, data =>
      match data with
      | 101 :: rest => some ([], rest)
      | _ =>
          (readBytes data).bind fun key => (readValue fuel key.2).bind fun first =>
            (readEntries fuel first.2).map fun read => ((key.1, first.1) :: read.1, read.2)

end

theorem readBytes_sound {data content rest : List UInt8}
    (read : readBytes data = some (content, rest)) :
    ∃ digits, Numeral digits content.length ∧ data = (digits ++ 58 :: content) ++ rest := by
  have whole := List.takeWhile_append_dropWhile (p := isDigit) (l := data)
  have digits : ∀ digit ∈ data.takeWhile isDigit, isDigit digit = true :=
    fun digit member => List.mem_takeWhile_imp member
  unfold readBytes at read
  dsimp only at read
  split at read
  · rename_i after split
    split at read
    · rename_i fits
      obtain ⟨rfl, rfl⟩ : after.take (decimal (data.takeWhile isDigit)) = content ∧
          after.drop (decimal (data.takeWhile isDigit)) = rest := by
        simpa using read
      refine ⟨data.takeWhile isDigit, ⟨fits.1, digits, ?_⟩, ?_⟩
      · rw [List.length_take, Nat.min_eq_left fits.2]
      · rw [List.append_assoc, List.cons_append, List.take_append_drop, ← split, whole]
    · cases read
  · cases read

theorem readInt_sound {text : List UInt8} {number : Int64} (read : readInt text = some number) :
    Written text number := by
  unfold readInt at read
  dsimp only at read
  by_cases negative : (text.head? == some 45) = true
  · obtain ⟨rest, rfl⟩ : ∃ rest, text = 45 :: rest := by
      cases text with
      | nil => cases negative
      | cons first rest => exact ⟨rest, by simpa using negative⟩
    simp only [negative, if_true, List.tail_cons, Option.ite_none_right_eq_some,
      Option.some_inj] at read
    obtain ⟨⟨nonempty, digits, fits⟩, rfl⟩ := read
    exact .negative ⟨nonempty, List.all_eq_true.mp digits, rfl⟩ fits
  · simp only [negative, Bool.false_eq_true, if_false, Option.ite_none_right_eq_some,
      Option.some_inj] at read
    obtain ⟨⟨nonempty, digits, fits⟩, rfl⟩ := read
    exact .nonneg ⟨nonempty, List.all_eq_true.mp digits, rfl⟩ fits

theorem read_sound (fuel : Nat) :
    (∀ data value rest, readValue fuel data = some (value, rest) →
      ∃ bytes, data = bytes ++ rest ∧ Reads bytes (.value value)) ∧
    (∀ data items rest, readItems fuel data = some (items, rest) →
      ∃ bytes, data = bytes ++ 101 :: rest ∧ Reads bytes (.items items)) ∧
    (∀ data entries rest, readEntries fuel data = some (entries, rest) →
      ∃ bytes, data = bytes ++ 101 :: rest ∧ Reads bytes (.entries entries)) := by
  induction fuel with
  | zero =>
      refine ⟨?_, ?_, ?_⟩ <;>
        · intro data value rest read
          cases read
  | succ fuel ih =>
      obtain ⟨values, lists, dicts⟩ := ih
      refine ⟨?_, ?_, ?_⟩
      · intro data value rest read
        unfold readValue at read
        split at read
        · rename_i text
          split at read
          · cases read
          · rename_i last after split
            obtain ⟨number, parsed, same⟩ := Option.map_eq_some_iff.mp read
            obtain ⟨rfl, rfl⟩ := Prod.mk.inj same
            have ended : last = 101 := by
              have stop := List.dropWhile_get_zero_not (fun byte : UInt8 => byte != 101) text
                (by rw [split]; simp)
              simpa [split] using stop
            refine ⟨_, ?_, .int (readInt_sound parsed)⟩
            have whole := List.takeWhile_append_dropWhile (p := (· != 101)) (l := text)
            rw [split, ended] at whole
            rw [List.append_assoc, List.cons_append, List.singleton_append, whole]
        · obtain ⟨⟨items, after⟩, inner, same⟩ := Option.map_eq_some_iff.mp read
          obtain ⟨rfl, rfl⟩ := Prod.mk.inj same
          obtain ⟨bytes, rfl, reads⟩ := lists _ _ _ inner
          exact ⟨_, by simp, .list reads⟩
        · obtain ⟨⟨entries, after⟩, inner, same⟩ := Option.map_eq_some_iff.mp read
          obtain ⟨rfl, rfl⟩ := Prod.mk.inj same
          obtain ⟨bytes, rfl, reads⟩ := dicts _ _ _ inner
          exact ⟨_, by simp, .dict reads⟩
        · obtain ⟨⟨content, after⟩, inner, same⟩ := Option.map_eq_some_iff.mp read
          obtain ⟨rfl, rfl⟩ := Prod.mk.inj same
          obtain ⟨digits, numeral, rfl⟩ := readBytes_sound inner
          exact ⟨_, rfl, .bytes numeral⟩
      · intro data items rest read
        unfold readItems at read
        split at read
        · cases read
          exact ⟨[], rfl, .noItem⟩
        · obtain ⟨⟨value, after⟩, first, read⟩ := Option.bind_eq_some_iff.mp read
          obtain ⟨⟨others, last⟩, inner, same⟩ := Option.map_eq_some_iff.mp read
          obtain ⟨rfl, rfl⟩ := Prod.mk.inj same
          obtain ⟨head, rfl, headReads⟩ := values _ _ _ first
          obtain ⟨tail, rfl, tailReads⟩ := lists _ _ _ inner
          exact ⟨head ++ tail, by simp, .item headReads tailReads⟩
      · intro data entries rest read
        unfold readEntries at read
        split at read
        · cases read
          exact ⟨[], rfl, .noEntry⟩
        · obtain ⟨⟨key, middle⟩, named, read⟩ := Option.bind_eq_some_iff.mp read
          obtain ⟨⟨value, after⟩, first, read⟩ := Option.bind_eq_some_iff.mp read
          obtain ⟨⟨others, last⟩, inner, same⟩ := Option.map_eq_some_iff.mp read
          obtain ⟨rfl, rfl⟩ := Prod.mk.inj same
          obtain ⟨digits, numeral, rfl⟩ := readBytes_sound named
          obtain ⟨head, rfl, headReads⟩ := values _ _ _ first
          obtain ⟨tail, rfl, tailReads⟩ := dicts _ _ _ inner
          exact ⟨_, by simp, .entry numeral headReads tailReads⟩

def read (data : List UInt8) : Except String Value :=
  match readValue (2 * data.length + 1) data with
  | some (value, _) => .ok value
  | none => .error "not a bencoded value"

def Sound (decode : List UInt8 → Except String Value) : Prop :=
  ∀ data value, decode data = .ok value → ∃ bytes rest, data = bytes ++ rest ∧ Encodes bytes value

theorem sound_read : Sound read := by
  intro data value decoded
  unfold read at decoded
  split at decoded
  · rename_i found rest shown
    cases decoded
    obtain ⟨bytes, same, reads⟩ := (read_sound _).1 data value rest shown
    exact ⟨bytes, rest, same, reads⟩
  · cases decoded

end Bencode
