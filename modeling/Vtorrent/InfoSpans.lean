import Vtorrent.Metainfo

/-!
# The span of the info dictionary

The walker that looks for the info dictionary knows nothing of values; where it succeeds on
encoded data, it skips exactly the bytes of each value, and the span it returns is that of
the only entry under the key.
-/

namespace Vtorrent

open Bencode

theorem takeWhile_append_stop {stop : UInt8} {before : Bytes} (after : Bytes)
    (others : ∀ byte ∈ before, byte ≠ stop) :
    (before ++ stop :: after).takeWhile (· != stop) = before := by
  rw [List.takeWhile_append_of_pos fun byte member => by simpa using others byte member]
  simp

theorem drop_add_length {data bytes rest : Bytes} {pos : Nat}
    (here : data.drop pos = bytes ++ rest) : data.drop (pos + bytes.length) = rest := by
  rw [← List.drop_drop, here, List.drop_left]

theorem getElem?_of_drop {data rest : Bytes} {pos : Nat} {first : UInt8}
    (here : data.drop pos = first :: rest) : data[pos]? = some first := by
  rw [← List.head?_drop, here, List.head?_cons]

theorem parseUsize_numeral {digits : Bytes} {number length : Nat}
    (numeral : Numeral digits number) (parsed : parseUsize digits = some length) :
    length = number := by
  obtain ⟨first, rest, rfl, low, high⟩ := numeral.exists_cons
  have unsigned : ((first :: rest).head? == some 43) = false := by
    rw [List.head?_cons, beq_eq_false_iff_ne]
    rintro same
    cases same
    exact absurd low (by decide)
  simp only [parseUsize, unsigned, Bool.false_eq_true, if_false, Option.ite_none_right_eq_some,
    Option.some_inj] at parsed
  rw [← parsed.2, numeral.2.2]

theorem skipString_eq_ok {data digits content rest : Bytes} {pos stop : Nat}
    (numeral : Numeral digits content.length)
    (here : data.drop pos = (digits ++ 58 :: content) ++ rest)
    (skipped : skipString data pos = .ok stop) :
    stop = pos + (digits ++ 58 :: content).length := by
  have text : (data.drop pos).takeWhile (· != 58) = digits := by
    rw [here, List.append_assoc, List.cons_append]
    apply takeWhile_append_stop
    rintro byte member rfl
    exact absurd (numeral.digit member) (by decide)
  simp only [skipString, text] at skipped
  obtain ⟨-, -, skipped⟩ := Checked.bind_eq_ok.mp skipped
  cases parsed : parseUsize digits with
  | none =>
      rw [parsed] at skipped
      cases skipped
  | some length =>
      rw [parsed] at skipped
      obtain ⟨-, -, skipped⟩ := Checked.bind_eq_ok.mp skipped
      obtain ⟨-, -, skipped⟩ := Checked.bind_eq_ok.mp skipped
      cases skipped
      rw [parseUsize_numeral numeral parsed, List.length_append, List.length_cons]
      omega

/-- Skipping what the bytes stand for ends where they end. -/
def Skips (data bytes : Bytes) : Meaning → Prop
  | .value _ => ∀ fuel pos rest stop, data.drop pos = bytes ++ rest →
      skipValue data fuel pos = .ok stop → stop = pos + bytes.length
  | .items _ => ∀ fuel pos rest stop, data.drop pos = bytes ++ 101 :: rest →
      skipItems data false fuel pos = .ok stop → stop = pos + bytes.length + 1
  | .entries _ => ∀ fuel pos rest stop, data.drop pos = bytes ++ 101 :: rest →
      skipItems data true fuel pos = .ok stop → stop = pos + bytes.length + 1

section Steps

variable {data : Bytes} {pos fuel stop : Nat}

theorem skipValue_digit {first : UInt8} (here : data[pos]? = some first) (low : 48 ≤ first)
    (high : first ≤ 57) : skipValue data (fuel + 1) pos = skipString data pos := by
  have other : ∀ byte : UInt8, 57 < byte → (first == byte) = false := fun byte above => by
    rw [beq_eq_false_iff_ne]
    rintro rfl
    exact absurd high (UInt8.not_le.mpr above)
  rw [skipValue, here]
  simp [other, isDigit, low, high]

theorem skipValue_int (here : data[pos]? = some 105)
    (skipped : skipValue data (fuel + 1) pos = .ok stop) :
    stop = pos + ((data.drop pos).takeWhile (· != 101)).length + 1 := by
  rw [skipValue, here] at skipped
  obtain ⟨-, -, skipped⟩ := Checked.bind_eq_ok.mp skipped
  cases skipped
  rfl

theorem skipValue_list (here : data[pos]? = some 108) :
    skipValue data (fuel + 1) pos = skipItems data false fuel (pos + 1) := by
  rw [skipValue, here]
  rfl

theorem skipValue_dict (here : data[pos]? = some 100) :
    skipValue data (fuel + 1) pos = skipItems data true fuel (pos + 1) := by
  rw [skipValue, here]
  rfl

theorem skipItems_end {keyed : Bool} (here : data[pos]? = some 101) :
    skipItems data keyed (fuel + 1) pos = .ok (pos + 1) := by
  rw [skipItems, here]
  rfl

theorem skipItems_next {keyed : Bool} {first : UInt8} (here : data[pos]? = some first)
    (more : first ≠ 101) (skipped : skipItems data keyed (fuel + 1) pos = .ok stop) :
    ∃ start next, (if keyed then skipString data pos else pure pos) = .ok start ∧
      skipValue data fuel start = .ok next ∧ skipItems data keyed fuel next = .ok stop := by
  have going : (first == 101) = false := by simpa using more
  rw [skipItems, here] at skipped
  simp only [going, Bool.false_eq_true, if_false] at skipped
  cases keyed <;>
    · obtain ⟨start, named, skipped⟩ := Checked.bind_eq_ok.mp skipped
      obtain ⟨next, value, rest⟩ := Checked.bind_eq_ok.mp skipped
      exact ⟨start, next, named, value, rest⟩

theorem lt_of_skipString (skipped : skipString data pos = .ok stop) : pos < stop := by
  unfold skipString at skipped
  obtain ⟨_, -, skipped⟩ := Checked.bind_eq_ok.mp skipped
  split at skipped
  · cases skipped
  · obtain ⟨_, -, skipped⟩ := Checked.bind_eq_ok.mp skipped
    obtain ⟨_, -, skipped⟩ := Checked.bind_eq_ok.mp skipped
    cases skipped
    omega

theorem le_of_named {keyed : Bool} {start : Nat}
    (named : (if keyed then skipString data pos else pure pos) = .ok start) : pos ≤ start := by
  cases keyed with
  | false =>
      cases named
      exact le_rfl
  | true => exact (lt_of_skipString named).le

end Steps

theorem lt_of_skip (data : Bytes) (fuel : Nat) :
    (∀ pos stop, skipValue data fuel pos = .ok stop → pos < stop) ∧
      ∀ keyed pos stop, skipItems data keyed fuel pos = .ok stop → pos < stop := by
  induction fuel with
  | zero =>
      constructor
      · intro pos stop skipped
        cases skipped
      · intro keyed pos stop skipped
        cases skipped
  | succ fuel ih =>
      obtain ⟨values, items⟩ := ih
      constructor
      · intro pos stop skipped
        rw [skipValue] at skipped
        split at skipped
        · cases skipped
        · split at skipped
          · obtain ⟨_, -, skipped⟩ := Checked.bind_eq_ok.mp skipped
            cases skipped
            omega
          · split at skipped
            · have inside := items _ _ _ skipped
              omega
            · split at skipped
              · exact lt_of_skipString skipped
              · cases skipped
      · intro keyed pos stop skipped
        cases here : data[pos]? with
        | none =>
            rw [skipItems, here] at skipped
            cases skipped
        | some first =>
            by_cases last : first = 101
            · rw [skipItems_end (last ▸ here)] at skipped
              cases skipped
              omega
            · obtain ⟨start, next, named, value, rest⟩ := skipItems_next here last skipped
              have after := values _ _ value
              have further := items _ _ _ rest
              have before := le_of_named named
              omega

/-- Fuel for two steps at each byte that is left is enough: more makes no difference. -/
theorem skip_enough (data : Bytes) (fuel : Nat) :
    (∀ more pos, 2 * (data.length - pos) < fuel → 2 * (data.length - pos) < more →
      skipValue data fuel pos = skipValue data more pos) ∧
    ∀ keyed more pos, 2 * (data.length - pos) + 1 < fuel →
      2 * (data.length - pos) + 1 < more →
      skipItems data keyed fuel pos = skipItems data keyed more pos := by
  induction fuel with
  | zero => exact ⟨fun _ _ enough => by omega, fun _ _ _ enough => by omega⟩
  | succ fuel ih =>
      obtain ⟨values, items⟩ := ih
      constructor
      · intro more pos enough enough'
        obtain ⟨more, rfl⟩ := Nat.exists_eq_succ_of_ne_zero (Nat.ne_zero_of_lt enough')
        rw [Nat.succ_eq_add_one, skipValue, skipValue]
        cases here : data[pos]? with
        | none => rfl
        | some first =>
            have inside := (List.getElem?_eq_some_iff.mp here).1
            dsimp only
            rw [items _ more (pos + 1) (by omega) (by omega)]
      · intro keyed more pos enough enough'
        obtain ⟨more, rfl⟩ := Nat.exists_eq_succ_of_ne_zero (Nat.ne_zero_of_lt enough')
        rw [Nat.succ_eq_add_one, skipItems, skipItems]
        cases here : data[pos]? with
        | none => rfl
        | some first =>
            have inside := (List.getElem?_eq_some_iff.mp here).1
            have rest : ∀ start, pos ≤ start →
                (skipValue data fuel start >>= skipItems data keyed fuel) =
                  (skipValue data more start >>= skipItems data keyed more) := by
              intro start later
              rw [values more start (by omega) (by omega)]
              cases skipped : skipValue data more start with
              | error error => rfl
              | ok next =>
                  have further := (lt_of_skip data more).1 start next skipped
                  exact items keyed more next (by omega) (by omega)
            dsimp only
            split
            · rfl
            · cases keyed with
              | false => exact rest pos le_rfl
              | true =>
                  change (skipString data pos >>= fun start => _) = skipString data pos >>= _
                  cases named : skipString data pos with
                  | error error => rfl
                  | ok start => exact rest start (lt_of_skipString named).le

theorem skips_of_reads (data : Bytes) {bytes : Bytes} {meaning : Meaning}
    (reads : Reads bytes meaning) : Skips data bytes meaning := by
  induction reads with
  | bytes numeral =>
      intro fuel pos rest stop here skipped
      obtain ⟨first, others, rfl, low, high⟩ := numeral.exists_cons
      cases fuel with
      | zero => cases skipped
      | succ fuel =>
          rw [skipValue_digit (getElem?_of_drop here) low high] at skipped
          exact skipString_eq_ok numeral here skipped
  | @int text number written =>
      intro fuel pos rest stop here skipped
      cases fuel with
      | zero => cases skipped
      | succ fuel =>
          have stops : (data.drop pos).takeWhile (· != 101) = 105 :: text := by
            rw [here, List.append_assoc]
            apply takeWhile_append_stop
            intro byte member
            rcases List.mem_cons.mp member with rfl | inside
            · decide
            · exact written.ne_end byte inside
          rw [skipValue_int (getElem?_of_drop here) skipped, stops]
          simp [Nat.add_assoc]
  | @list inner items _ ih =>
      intro fuel pos rest stop here skipped
      cases fuel with
      | zero => cases skipped
      | succ fuel =>
          rw [skipValue_list (getElem?_of_drop here)] at skipped
          have inside : data.drop (pos + 1) = inner ++ 101 :: rest := by
            rw [← List.drop_drop, here, List.append_assoc]
            rfl
          rw [ih fuel (pos + 1) rest stop inside skipped]
          simp only [List.length_append, List.length_cons, List.length_nil]
          omega
  | @dict inner entries _ ih =>
      intro fuel pos rest stop here skipped
      cases fuel with
      | zero => cases skipped
      | succ fuel =>
          rw [skipValue_dict (getElem?_of_drop here)] at skipped
          have inside : data.drop (pos + 1) = inner ++ 101 :: rest := by
            rw [← List.drop_drop, here, List.append_assoc]
            rfl
          rw [ih fuel (pos + 1) rest stop inside skipped]
          simp only [List.length_append, List.length_cons, List.length_nil]
          omega
  | noItem | noEntry =>
      intro fuel pos rest stop here skipped
      cases fuel with
      | zero => cases skipped
      | succ fuel =>
          rw [skipItems_end (getElem?_of_drop here)] at skipped
          cases skipped
          rfl
  | @item first others value items head tail ihHead ihTail =>
      intro fuel pos rest stop here skipped
      cases fuel with
      | zero => cases skipped
      | succ fuel =>
          obtain ⟨byte, after, rfl, differs⟩ := Encodes.exists_cons head
          obtain ⟨start, next, same, value, items⟩ :=
            skipItems_next (getElem?_of_drop (by rw [here]; rfl)) differs skipped
          cases same
          rw [List.append_assoc] at here
          obtain rfl := ihHead fuel pos _ next here value
          rw [ihTail fuel _ rest stop (drop_add_length here) items]
          simp only [List.length_append]
          omega
  | @entry digits key first others value entries numeral head tail ihHead ihTail =>
      intro fuel pos rest stop here skipped
      cases fuel with
      | zero => cases skipped
      | succ fuel =>
          obtain ⟨byte, after, rfl, low, high⟩ := numeral.exists_cons
          have differs : byte ≠ 101 := by
            rintro rfl
            exact absurd high (by decide)
          obtain ⟨start, next, named, value, items⟩ :=
            skipItems_next (getElem?_of_drop (by rw [here]; rfl)) differs skipped
          rw [List.append_assoc] at here
          obtain rfl := skipString_eq_ok numeral here named
          have middle := drop_add_length here
          rw [List.append_assoc] at middle
          obtain rfl := ihHead fuel _ _ next middle value
          rw [ihTail fuel _ rest stop (drop_add_length middle) items]
          simp only [List.length_append]
          omega

theorem byteSpan_of_drop {data bytes rest : Bytes} {pos : Nat}
    (here : data.drop pos = bytes ++ rest) : byteSpan data pos (pos + bytes.length) = bytes := by
  rw [byteSpan, List.drop_take, here, Nat.add_sub_cancel_left, List.take_left]

theorem dropWhile_append_stop {stop : UInt8} {before : Bytes} (after : Bytes)
    (others : ∀ byte ∈ before, byte ≠ stop) :
    (before ++ stop :: after).dropWhile (· != stop) = stop :: after := by
  rw [List.dropWhile_append_of_pos fun byte member => by simpa using others byte member]
  simp

theorem infoSpanFrom_entry {data digits key first rest : Bytes} {value : Value} {fuel pos : Nat}
    {span result : Option (Nat × Nat)} (numeral : Numeral digits key.length)
    (encodes : Encodes first value)
    (here : data.drop pos = (digits ++ 58 :: key) ++ (first ++ rest))
    (found : infoSpanFrom data (fuel + 1) pos span = .ok result) :
    let start := pos + (digits ++ 58 :: key).length
    let stop := start + first.length
    if key = infoKey then
      span = none ∧ infoSpanFrom data fuel stop (some (start, stop)) = .ok result
    else infoSpanFrom data fuel stop span = .ok result := by
  intro start stop
  obtain ⟨byte, after, rfl, low, high⟩ := numeral.exists_cons
  have going : (byte == 101) = false := by
    rw [beq_eq_false_iff_ne]
    rintro rfl
    exact absurd high (by decide)
  rw [infoSpanFrom, getElem?_of_drop (by rw [here]; rfl)] at found
  simp only [going, Bool.false_eq_true, if_false] at found
  obtain ⟨valStart, named, found⟩ := Checked.bind_eq_ok.mp found
  obtain rfl : valStart = start := skipString_eq_ok numeral here named
  obtain ⟨next, skipped, found⟩ := Checked.bind_eq_ok.mp found
  obtain rfl : next = stop :=
    skips_of_reads data encodes _ _ rest next (drop_add_length here) skipped
  obtain ⟨-, -, found⟩ := Checked.bind_eq_ok.mp found
  have content : ((byteSpan data pos start).dropWhile (· != 58)).tail = key := by
    rw [byteSpan_of_drop here, dropWhile_append_stop, List.tail_cons]
    rintro other member rfl
    exact absurd (numeral.digit member) (by decide)
  rw [content] at found
  by_cases info : key = infoKey
  · rw [if_pos info]
    rw [if_pos (by simpa using info)] at found
    obtain ⟨_, sole, found⟩ := Checked.bind_eq_ok.mp found
    exact ⟨by simpa using Checked.rejectIf_eq_ok.mp sole, found⟩
  · rw [if_neg info]
    rwa [if_neg (by simpa using info)] at found

theorem infoSpanFrom_enough (data : Bytes) {fuel more pos : Nat} (span : Option (Nat × Nat))
    (enough : data.length - pos < fuel) (enough' : data.length - pos < more) :
    infoSpanFrom data fuel pos span = infoSpanFrom data more pos span := by
  induction fuel generalizing more pos span with
  | zero => omega
  | succ fuel ih =>
      obtain ⟨more, rfl⟩ := Nat.exists_eq_succ_of_ne_zero (Nat.ne_zero_of_lt enough')
      rw [Nat.succ_eq_add_one, infoSpanFrom, infoSpanFrom]
      cases here : data[pos]? with
      | none => rfl
      | some first =>
          have inside := (List.getElem?_eq_some_iff.mp here).1
          dsimp only
          split
          · rfl
          · cases named : skipString data pos with
            | error error => rfl
            | ok start =>
                have later := lt_of_skipString named
                simp only [Checked.ok_bind]
                cases skipped : skipValue data (skipFuel data) start with
                | error error => rfl
                | ok stop =>
                    have further := (lt_of_skip data _).1 start stop skipped
                    simp only [Checked.ok_bind,
                      ih _ (show data.length - stop < fuel by omega)
                        (show data.length - stop < more by omega)]

theorem infoSpanFrom_end {data : Bytes} {fuel pos : Nat} {span result : Option (Nat × Nat)}
    (here : data[pos]? = some 101) (found : infoSpanFrom data fuel pos span = .ok result) :
    result = span := by
  cases fuel with
  | zero => cases found
  | succ fuel =>
      rw [infoSpanFrom, here] at found
      cases found
      rfl

theorem infoSpanFrom_found {data bytes rest : Bytes} {entries : List (Bytes × Value)}
    (reads : Reads bytes (.entries entries)) {fuel pos : Nat} {span : Nat × Nat}
    {result : Option (Nat × Nat)} (here : data.drop pos = bytes ++ 101 :: rest)
    (found : infoSpanFrom data fuel pos (some span) = .ok result) :
    result = some span ∧ infoKey ∉ entries.map Prod.fst := by
  generalize shown : Meaning.entries entries = meaning at reads
  induction reads generalizing entries fuel pos with
  | noEntry =>
      cases shown
      exact ⟨infoSpanFrom_end (getElem?_of_drop here) found, List.not_mem_nil⟩
  | @entry digits key first others value entries numeral head _ _ ih =>
      cases shown
      cases fuel with
      | zero => cases found
      | succ fuel =>
          rw [List.append_assoc, List.append_assoc first] at here
          have next := infoSpanFrom_entry numeral head here found
          dsimp only at next
          split at next
          · cases next.1
          · rename_i differs
            obtain ⟨same, absent⟩ := ih (drop_add_length (drop_add_length here)) next rfl
            refine ⟨same, ?_⟩
            rw [List.map_cons, List.mem_cons, not_or]
            exact ⟨Ne.symm differs, absent⟩
  | bytes | int | list | dict | noItem | item => cases shown

theorem infoSpanFrom_sole {data bytes rest : Bytes} {entries : List (Bytes × Value)}
    (reads : Reads bytes (.entries entries)) {fuel pos : Nat} {span : Nat × Nat}
    (here : data.drop pos = bytes ++ 101 :: rest)
    (found : infoSpanFrom data fuel pos none = .ok (some span)) :
    ∃ value, SoleEntry infoKey bytes entries (byteSpan data span.1 span.2) value := by
  generalize shown : Meaning.entries entries = meaning at reads
  induction reads generalizing entries fuel pos with
  | noEntry =>
      cases shown
      cases infoSpanFrom_end (getElem?_of_drop here) found
  | @entry digits key first others value entries numeral head tail _ ih =>
      cases shown
      cases fuel with
      | zero => cases found
      | succ fuel =>
          rw [List.append_assoc, List.append_assoc first] at here
          have next := infoSpanFrom_entry numeral head here found
          dsimp only at next
          split at next
          · rename_i info
            subst info
            have after := drop_add_length (drop_add_length here)
            obtain ⟨same, absent⟩ := infoSpanFrom_found tail after next.2
            cases same
            refine ⟨value, ?_⟩
            dsimp only
            rw [byteSpan_of_drop (drop_add_length here)]
            exact ⟨[], digits, others, [], entries, rfl, .noEntry, numeral, head, tail, rfl,
              List.not_mem_nil, absent⟩
          · rename_i differs
            obtain ⟨found, sole⟩ := ih (drop_add_length (drop_add_length here)) next rfl
            exact ⟨found, sole.cons numeral head (Ne.symm differs)⟩
  | bytes | int | list | dict | noItem | item => cases shown

theorem findInfoSpan_sole {inner rest : Bytes} {entries : List (Bytes × Value)}
    (reads : Reads inner (.entries entries)) {span : Nat × Nat}
    (found : findInfoSpan ((100 :: inner ++ [101]) ++ rest) = .ok span) :
    ∃ value, SoleEntry infoKey inner entries
      (byteSpan ((100 :: inner ++ [101]) ++ rest) span.1 span.2) value := by
  obtain ⟨_, -, found⟩ := Checked.bind_eq_ok.mp found
  obtain ⟨last, walked, found⟩ := Checked.bind_eq_ok.mp found
  cases last with
  | none => cases found
  | some last =>
      cases found
      have here : List.drop 1 ((100 :: inner ++ [101]) ++ rest) = inner ++ 101 :: rest := by
        simp
      exact infoSpanFrom_sole reads here walked

end Vtorrent
