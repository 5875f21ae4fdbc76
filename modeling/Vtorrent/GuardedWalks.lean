import Vtorrent.InfoSpans

/-!
# Walking over guarded bytes

The guard scans the tokens of a file with a counter and no stack; the walker that looks for the
info dictionary calls itself for each nested value.  The walker is run here with a stack of
limited depth, and it faults when it exceeds the stack, reads outside the data or does not
advance.
-/

namespace Vtorrent

open Bencode

inductive WalkFault where
  | stackExhausted
  | outOfBounds
  | stalled
  deriving DecidableEq

abbrev Walk (α : Type) := ExceptT MetainfoError (Except WalkFault) α

namespace Walk

def fault {α : Type} (reason : WalkFault) : Walk α := ExceptT.mk (.error reason)

/-- `data[start..stop]`. -/
def slice (data : Bytes) (start stop : Nat) : Walk Bytes :=
  if start ≤ stop ∧ stop ≤ data.length then pure (byteSpan data start stop)
  else fault .outOfBounds

def advancing (pos : Nat) (walk : Walk Nat) : Walk Nat := do
  let next ← walk
  if pos < next then pure next else fault .stalled

/-- `skip_string`. -/
def skipString (data : Bytes) (pos : Nat) : Walk Nat := do
  let tail ← slice data pos data.length
  rejectIf (tail.all (· != 58)) (MetainfoError.invalidMetainfo "Unterminated string length")
  let colon := (tail.takeWhile (· != 58)).length
  let text ← slice data pos (pos + colon)
  match parseUsize text with
  | none => throw (MetainfoError.invalidMetainfo "Invalid string length")
  | some length => do
      let pos := pos + colon + 1
      rejectIf (decide (2 ^ 64 ≤ pos + length))
        (MetainfoError.invalidMetainfo "String length overflow")
      rejectIf (decide (data.length < pos + length))
        (MetainfoError.invalidMetainfo "String exceeds input length")
      pure (pos + length)

/-- The loop of `skip_value` over the inside of a list or dictionary. -/
def skipItems (data : Bytes) (keyed : Bool) (skipValue : Nat → Walk Nat) : Nat → Nat → Walk Nat
  | 0, _ => fault .stalled
  | turns + 1, pos =>
      match data[pos]? with
      | none => throw (MetainfoError.invalidMetainfo "Truncated list or dict")
      | some first =>
          if first == 101 then pure (pos + 1)
          else do
            let start ← if keyed then advancing pos (skipString data pos) else pure pos
            let next ← advancing start (skipValue start)
            skipItems data keyed skipValue turns next

/-- `skip_value`, with the number of calls for which the stack has room. -/
def skipValue (data : Bytes) : Nat → Nat → Walk Nat
  | 0, _ => fault .stackExhausted
  | levels + 1, pos =>
      match data[pos]? with
      | none => throw (MetainfoError.invalidMetainfo "Truncated value")
      | some first =>
          if first == 105 then do
            let tail ← slice data pos data.length
            rejectIf (tail.all (· != 101)) (MetainfoError.invalidMetainfo "Unterminated integer")
            pure (pos + (tail.takeWhile (· != 101)).length + 1)
          else if first == 108 || first == 100 then
            skipItems data (first == 100) (skipValue data levels) (data.length + 1) (pos + 1)
          else if isDigit first then skipString data pos
          else throw (MetainfoError.invalidMetainfo "Invalid bencode value")

/-- The loop of `find_info_span` over the entries of the top-level dictionary. -/
def infoSpanFrom (data : Bytes) (levels : Nat) : Nat → Nat → Option (Nat × Nat) →
    Walk (Option (Nat × Nat))
  | 0, _, _ => fault .stalled
  | turns + 1, pos, span =>
      match data[pos]? with
      | none => throw (MetainfoError.invalidMetainfo "Truncated top-level dict")
      | some first =>
          if first == 101 then pure span
          else do
            let valStart ← advancing pos (skipString data pos)
            let stop ← advancing valStart (skipValue data levels valStart)
            let key ← slice data pos valStart
            rejectIf (key.all (· != 58)) (MetainfoError.invalidMetainfo "Invalid dict key")
            let name ← slice key ((key.takeWhile (· != 58)).length + 1) key.length
            if name == infoKey then do
              rejectIf span.isSome (MetainfoError.invalidMetainfo "duplicate 'info' key")
              infoSpanFrom data levels turns stop (some (valStart, stop))
            else infoSpanFrom data levels turns stop span

/-- `find_info_span`, with room for a number of nested calls of `skip_value`. -/
def findInfoSpan (levels : Nat) (data : Bytes) : Walk (Nat × Nat) := do
  rejectIf (data[0]? != some 100) (MetainfoError.invalidMetainfo "Root is not a dict")
  let span ← infoSpanFrom data levels (data.length + 1) 1 none
  match span with
  | none => throw (MetainfoError.invalidMetainfo "Missing 'info' key")
  | some span => pure span

/-- The walk does not fault, it returns the result, and a successful result has a property. -/
def Follows {α : Type} (walk : Walk α) (result : Except MetainfoError α) (after : α → Prop) :
    Prop :=
  walk.run = .ok result ∧ ∀ value, result = .ok value → after value

section Rules

variable {α β : Type} {walk : Walk α} {result : Except MetainfoError α} {after : α → Prop}

theorem follows_pure {value : α} (holds : after value) :
    Follows (pure value) (pure value) after := by
  refine ⟨rfl, ?_⟩
  rintro _ ⟨⟩
  exact holds

theorem follows_throw (error : MetainfoError) :
    Follows (throw error : Walk α) (throw error) after := by
  refine ⟨rfl, ?_⟩
  rintro _ ⟨⟩

theorem follows_rejectIf (condition : Bool) (error : MetainfoError) :
    Follows (rejectIf condition error) (rejectIf condition error) fun _ => condition = false := by
  cases condition with
  | false => exact follows_pure rfl
  | true => exact follows_throw error

theorem Follows.imp {further : α → Prop} (follows : Follows walk result after)
    (weaker : ∀ value, after value → further value) : Follows walk result further :=
  ⟨follows.1, fun value equal => weaker value (follows.2 value equal)⟩

theorem Follows.bind {further : β → Prop} {next : α → Walk β} {rest : α → Except MetainfoError β}
    (follows : Follows walk result after)
    (each : ∀ value, after value → Follows (next value) (rest value) further) :
    Follows (walk >>= next) (result >>= rest) further := by
  obtain ⟨ran, holds⟩ := follows
  cases result with
  | error error =>
      refine ⟨?_, ?_⟩
      · rw [ExceptT.run_bind, ran]
        rfl
      · rintro _ ⟨⟩
  | ok value =>
      have tail := each value (holds value rfl)
      refine ⟨?_, tail.2⟩
      rw [ExceptT.run_bind, ran]
      exact tail.1

theorem Follows.advancing {pos : Nat} {walk : Walk Nat} {result : Except MetainfoError Nat}
    {after : Nat → Prop} (follows : Follows walk result after)
    (forward : ∀ next, after next → pos < next) : Follows (advancing pos walk) result after := by
  have moved : Follows (Walk.advancing pos walk) (result >>= pure) after := by
    refine follows.bind fun next holds => ?_
    rw [if_pos (forward next holds)]
    exact follows_pure holds
  rwa [bind_pure] at moved

theorem slice_eq {data : Bytes} {start stop : Nat} (order : start ≤ stop)
    (inside : stop ≤ data.length) : slice data start stop = pure (byteSpan data start stop) :=
  if_pos ⟨order, inside⟩

end Rules

/-- The byte at which a scan stops lies inside, and the rest follows it. -/
theorem beyond_stop {bytes : Bytes} {stop : UInt8} (found : bytes.all (· != stop) = false) :
    (bytes.takeWhile (· != stop)).length < bytes.length ∧
      bytes.drop ((bytes.takeWhile (· != stop)).length + 1) =
        (bytes.dropWhile (· != stop)).tail := by
  have split := List.takeWhile_append_dropWhile (p := (· != stop)) (l := bytes)
  have some_left : bytes.dropWhile (· != stop) ≠ [] := by
    intro none
    rw [List.all_eq_true.mpr (List.dropWhile_eq_nil_iff.mp none)] at found
    cases found
  constructor
  · have sizes := congrArg List.length split
    rw [List.length_append] at sizes
    have positive := List.length_pos_of_ne_nil some_left
    omega
  · rw [← List.drop_drop]
    nth_rewrite 2 [← split]
    rw [List.drop_left, List.drop_one]

section Strings

variable {data : Bytes} {pos : Nat}

theorem slice_tail (inside : pos ≤ data.length) :
    slice data pos data.length = pure (data.drop pos) := by
  rw [slice_eq inside le_rfl, byteSpan, List.take_length]

theorem follows_skipString (inside : pos ≤ data.length) :
    Follows (skipString data pos) (Vtorrent.skipString data pos)
      fun stop => pos < stop ∧ stop ≤ data.length := by
  have colon : pos + ((data.drop pos).takeWhile (· != 58)).length ≤ data.length := by
    have short := (List.takeWhile_prefix (p := (· != 58)) (l := data.drop pos)).length_le
    rw [List.length_drop] at short
    omega
  have text : byteSpan data pos (pos + ((data.drop pos).takeWhile (· != 58)).length) =
      (data.drop pos).takeWhile (· != 58) := by
    rw [byteSpan, List.drop_take, Nat.add_sub_cancel_left]
    exact (List.prefix_iff_eq_take.mp (List.takeWhile_prefix _)).symm
  rw [skipString, Vtorrent.skipString, slice_tail inside, pure_bind]
  refine (follows_rejectIf _ _).bind fun _ _ => ?_
  dsimp only
  rw [slice_eq (Nat.le_add_right ..) colon, pure_bind, text]
  cases parseUsize ((data.drop pos).takeWhile (· != 58)) with
  | none => exact follows_throw _
  | some length =>
      refine (follows_rejectIf _ _).bind fun _ _ => ?_
      refine (follows_rejectIf _ _).bind fun _ fits => ?_
      rw [decide_eq_false_iff_not] at fits
      exact follows_pure ⟨by omega, by omega⟩

end Strings

/-- The guard accepts what is left of the data at a depth. -/
def Passes (maxDepth depth : Nat) (left : Bytes) : Prop :=
  ∃ fuel, depthOkFrom maxDepth fuel depth left = true

/-- What the guard does with the token that starts with a byte. -/
inductive Scans (maxDepth depth : Nat) (first : UInt8) (rest : Bytes) : Prop
  | container (opens : (first == 108 || first == 100) = true) (room : depth < maxDepth)
      (inside : Passes maxDepth (depth + 1) rest)
  | close (ends : first = 101) (outside : Passes maxDepth (depth - 1) rest)
  | int (starts : first = 105)
      (after : Passes maxDepth depth (rest.dropWhile (· != 101)).tail)
  | string {length : Nat} {after : Bytes} (digit : isDigit first = true)
      (colon : (first :: rest).dropWhile isDigit = 58 :: after)
      (parsed : parseUsize ((first :: rest).takeWhile isDigit) = some length)
      (passes : Passes maxDepth depth (after.drop length))

section Guard

variable {maxDepth depth : Nat} {first : UInt8} {rest : Bytes}

theorem Passes.scans (passes : Passes maxDepth depth (first :: rest)) :
    Scans maxDepth depth first rest := by
  obtain ⟨fuel, accepted⟩ := passes
  cases fuel with
  | zero => cases accepted
  | succ fuel =>
      rw [depthOkFrom] at accepted
      split at accepted
      · rename_i opens
        split at accepted
        · cases accepted
        · exact .container (by rwa [Bool.or_comm]) (by omega) ⟨fuel, accepted⟩
      · split at accepted
        · rename_i ends
          split at accepted
          · cases accepted
          · exact .close (by simpa using ends) ⟨fuel, accepted⟩
        · split at accepted
          · rename_i starts
            split at accepted
            · cases accepted
            · rename_i found
              refine .int (by simpa using starts) ⟨fuel, ?_⟩
              rw [found]
              exact accepted
          · split at accepted
            · rename_i digit
              split at accepted
              · rename_i colon
                split at accepted
                · cases accepted
                · rename_i parsed
                  split at accepted
                  · cases accepted
                  · exact .string digit colon parsed ⟨fuel, accepted⟩
              · cases accepted
            · cases accepted

end Guard

section Tokens

variable {data rest : Bytes} {maxDepth depth pos stop : Nat} {first : UInt8}

theorem parseUsize_of_not_digit (letter : isDigit first = false) (unsigned : first ≠ 43) :
    parseUsize (first :: rest) = none := by
  simp [parseUsize, letter, unsigned]

theorem exists_length_of_skipString (skipped : Vtorrent.skipString data pos = .ok stop) :
    ∃ length, parseUsize ((data.drop pos).takeWhile (· != 58)) = some length ∧
      stop = pos + ((data.drop pos).takeWhile (· != 58)).length + 1 + length := by
  obtain ⟨_, _, skipped⟩ := Checked.bind_eq_ok.mp skipped
  split at skipped
  · cases skipped
  · rename_i length parsed
    obtain ⟨_, _, skipped⟩ := Checked.bind_eq_ok.mp skipped
    obtain ⟨_, _, skipped⟩ := Checked.bind_eq_ok.mp skipped
    exact ⟨length, parsed, (Except.ok.inj skipped).symm⟩

theorem not_skipString_of_letter (here : data.drop pos = first :: rest) (more : first ≠ 58)
    (letter : isDigit first = false) (unsigned : first ≠ 43) :
    Vtorrent.skipString data pos ≠ .ok stop := by
  intro skipped
  obtain ⟨length, parsed, _⟩ := exists_length_of_skipString skipped
  have apart : (first != 58) = true := by simpa using more
  rw [here, List.takeWhile_cons, if_pos apart, parseUsize_of_not_digit letter unsigned] at parsed
  cases parsed

theorem Scans.skipString (scans : Scans maxDepth depth first rest)
    (here : data.drop pos = first :: rest)
    (skipped : Vtorrent.skipString data pos = .ok stop) :
    Passes maxDepth depth (data.drop stop) := by
  cases scans with
  | container opens _ _ =>
      have letter : first = 108 ∨ first = 100 := by simpa using opens
      rcases letter with rfl | rfl <;>
        exact absurd skipped (not_skipString_of_letter here (by decide) rfl (by decide))
  | close ends _ =>
      subst ends
      exact absurd skipped (not_skipString_of_letter here (by decide) rfl (by decide))
  | int starts _ =>
      subst starts
      exact absurd skipped (not_skipString_of_letter here (by decide) rfl (by decide))
  | @string length after digit colon parsed passes =>
      obtain ⟨other, again, rfl⟩ := exists_length_of_skipString skipped
      have split := List.takeWhile_append_dropWhile (p := isDigit) (l := first :: rest)
      rw [colon] at split
      have text : (data.drop pos).takeWhile (· != 58) = (first :: rest).takeWhile isDigit := by
        rw [here]
        nth_rewrite 1 [← split]
        apply takeWhile_append_stop
        rintro byte member rfl
        exact absurd (List.mem_takeWhile_imp member) (by decide)
      rw [text, parsed] at again
      obtain rfl := Option.some.inj again
      have beyond : data.drop (pos + ((first :: rest).takeWhile isDigit ++ [58]).length) =
          after := by
        apply drop_add_length
        rw [here, List.append_assoc]
        exact split.symm
      rw [List.length_append, List.length_singleton, ← Nat.add_assoc] at beyond
      rw [text, ← List.drop_drop, beyond]
      exact passes

theorem Scans.int_after (scans : Scans maxDepth depth 105 rest) :
    Passes maxDepth depth (rest.dropWhile (· != 101)).tail := by
  cases scans with
  | container opens _ _ => cases opens
  | close ends _ => cases ends
  | int _ after => exact after
  | string digit _ _ _ => cases digit

theorem Scans.close_outside (scans : Scans maxDepth depth 101 rest) :
    Passes maxDepth (depth - 1) rest := by
  cases scans with
  | container opens _ _ => cases opens
  | close _ outside => exact outside
  | int starts _ => cases starts
  | string digit _ _ _ => cases digit

theorem Scans.container_inside (scans : Scans maxDepth depth first rest)
    (opens : (first == 108 || first == 100) = true) :
    depth < maxDepth ∧ Passes maxDepth (depth + 1) rest := by
  cases scans with
  | container _ room inside => exact ⟨room, inside⟩
  | close ends _ =>
      subst ends
      cases opens
  | int starts _ =>
      subst starts
      cases opens
  | string digit _ _ _ =>
      have letter : first = 108 ∨ first = 100 := by simpa using opens
      rcases letter with rfl | rfl <;> cases digit

end Tokens

section Values

variable {data : Bytes} {maxDepth depth : Nat}

theorem drop_of_getElem? {pos : Nat} {first : UInt8} (here : data[pos]? = some first) :
    data.drop pos = first :: data.drop (pos + 1) := by
  obtain ⟨inside, same⟩ := List.getElem?_eq_some_iff.mp here
  rw [List.drop_eq_getElem_cons inside, same]

/-- Skipping ends inside the data, further on, where the guard passes at a depth. -/
def Lands (data : Bytes) (maxDepth depth pos stop : Nat) : Prop :=
  pos < stop ∧ stop ≤ data.length ∧ Passes maxDepth depth (data.drop stop)

/-- A call with room for `levels` nested calls skips the values that the guard passes. -/
def SkipsValues (data : Bytes) (maxDepth depth : Nat) (skip : Nat → Walk Nat) : Prop :=
  ∀ pos fuel, pos ≤ data.length → Passes maxDepth depth (data.drop pos) →
    2 * (data.length - pos) < fuel →
      Follows (skip pos) (Vtorrent.skipValue data fuel pos) (Lands data maxDepth depth pos)

theorem follows_key {pos : Nat} {first : UInt8} (keyed : Bool) (here : data[pos]? = some first)
    (passes : Passes maxDepth depth (data.drop pos)) :
    Follows (if keyed then advancing pos (skipString data pos) else pure pos)
      (if keyed then Vtorrent.skipString data pos else pure pos)
      fun start => pos ≤ start ∧ start ≤ data.length ∧
        Passes maxDepth depth (data.drop start) := by
  have inside := (List.getElem?_eq_some_iff.mp here).1
  cases keyed with
  | false => exact follows_pure ⟨le_rfl, inside.le, passes⟩
  | true =>
      have skips := (follows_skipString inside.le).advancing fun _ bounds => bounds.1
      refine ⟨skips.1, fun start skipped => ?_⟩
      obtain ⟨forward, within⟩ := skips.2 start skipped
      have tail := drop_of_getElem? here
      rw [tail] at passes
      exact ⟨forward.le, within, passes.scans.skipString tail skipped⟩

/-- The loop leaves the container at the depth outside it. -/
theorem follows_skipItems {skip : Nat → Walk Nat} (keyed : Bool)
    (skips : SkipsValues data maxDepth depth skip) :
    ∀ turns pos fuel, pos ≤ data.length → data.length - pos < turns →
      Passes maxDepth depth (data.drop pos) → 2 * (data.length - pos) + 1 < fuel →
      Follows (skipItems data keyed skip turns pos) (Vtorrent.skipItems data keyed fuel pos)
        (Lands data maxDepth (depth - 1) pos) := by
  intro turns
  induction turns with
  | zero => omega
  | succ turns ih =>
      intro pos fuel within left passes enough
      obtain ⟨fuel, rfl⟩ := Nat.exists_eq_succ_of_ne_zero (Nat.ne_zero_of_lt enough)
      rw [skipItems, Nat.succ_eq_add_one, Vtorrent.skipItems]
      cases here : data[pos]? with
      | none => exact follows_throw _
      | some first =>
          have inside := (List.getElem?_eq_some_iff.mp here).1
          dsimp only
          by_cases last : first = 101
          · subst last
            rw [drop_of_getElem? here] at passes
            exact follows_pure ⟨Nat.lt_succ_self _, inside, passes.scans.close_outside⟩
          · have going : (first == 101) = false := by simpa using last
            rw [going, if_neg Bool.false_ne_true, if_neg Bool.false_ne_true]
            have item : ∀ start, (pos ≤ start ∧ start ≤ data.length ∧
                Passes maxDepth depth (data.drop start)) →
                Follows (advancing start (skip start) >>= skipItems data keyed skip turns)
                  (Vtorrent.skipValue data fuel start >>= Vtorrent.skipItems data keyed fuel)
                  (Lands data maxDepth (depth - 1) pos) := by
              rintro start ⟨forward, bound, passes⟩
              have value := (skips start fuel bound passes (by omega)).advancing
                fun _ lands => lands.1
              refine value.bind ?_
              rintro next ⟨further, bound, passes⟩
              refine (ih next fuel bound (by omega) passes (by omega)).imp ?_
              rintro stop ⟨beyond, bound, passes⟩
              exact ⟨by omega, bound, passes⟩
            cases keyed with
            | false => exact (follows_key false here passes).bind item
            | true => exact (follows_key true here passes).bind item

/-- An integer ends behind its `e`. -/
theorem lands_int {pos : Nat} (here : data[pos]? = some 105)
    (passes : Passes maxDepth depth (data.drop pos))
    (ends : (data.drop pos).all (· != 101) = false) :
    Lands data maxDepth depth pos
      (pos + ((data.drop pos).takeWhile (· != 101)).length + 1) := by
  obtain ⟨inside, beyond⟩ := beyond_stop ends
  rw [List.length_drop] at inside
  refine ⟨by omega, by omega, ?_⟩
  have tail := drop_of_getElem? here
  rw [Nat.add_assoc, ← List.drop_drop, beyond, tail]
  rw [tail] at passes
  exact passes.scans.int_after

/-- A stack with room for the depth that is left is enough. -/
theorem skipsValues (levels : Nat) :
    ∀ depth, depth + levels = maxDepth + 1 → depth ≤ maxDepth →
      SkipsValues data maxDepth depth (skipValue data levels) := by
  induction levels with
  | zero =>
      intro depth room bound
      omega
  | succ levels ih =>
      intro depth room bound pos fuel within passes enough
      obtain ⟨fuel, rfl⟩ := Nat.exists_eq_succ_of_ne_zero (Nat.ne_zero_of_lt enough)
      rw [skipValue, Nat.succ_eq_add_one, Vtorrent.skipValue]
      cases here : data[pos]? with
      | none => exact follows_throw _
      | some first =>
          have inside := (List.getElem?_eq_some_iff.mp here).1
          have tail := drop_of_getElem? here
          have scans := (tail ▸ passes).scans
          dsimp only
          split
          · rename_i int
            obtain rfl : first = 105 := by simpa using int
            rw [slice_tail within, pure_bind]
            exact (follows_rejectIf _ _).bind fun _ ends =>
              follows_pure (lands_int here passes ends)
          · split
            · rename_i opens
              obtain ⟨deeper, passes⟩ := scans.container_inside opens
              have items := follows_skipItems (first == 100) (ih (depth + 1) (by omega) deeper)
                (data.length + 1) (pos + 1) fuel inside (by omega) passes (by omega)
              refine items.imp ?_
              rintro stop ⟨beyond, bound, passes⟩
              exact ⟨by omega, bound, passes⟩
            · split
              · have skips := follows_skipString within
                refine ⟨skips.1, fun stop skipped => ?_⟩
                obtain ⟨forward, bound⟩ := skips.2 stop skipped
                exact ⟨forward, bound, scans.skipString tail skipped⟩
              · exact follows_throw _

end Values

section Spans

variable {data : Bytes} {maxDepth : Nat}

theorem slice_name {key : Bytes} (colon : key.all (· != 58) = false) :
    slice key ((key.takeWhile (· != 58)).length + 1) key.length =
      pure (key.dropWhile (· != 58)).tail := by
  obtain ⟨inside, beyond⟩ := beyond_stop colon
  rw [slice_tail inside, beyond]

theorem follows_infoSpanFrom {levels : Nat}
    (skips : SkipsValues data maxDepth 1 (skipValue data levels)) :
    ∀ turns pos span, pos ≤ data.length → data.length - pos < turns →
      Passes maxDepth 1 (data.drop pos) →
      Follows (infoSpanFrom data levels turns pos span)
        (Vtorrent.infoSpanFrom data turns pos span) fun _ => True := by
  intro turns
  induction turns with
  | zero => omega
  | succ turns ih =>
      intro pos span within left passes
      rw [infoSpanFrom, Vtorrent.infoSpanFrom]
      cases here : data[pos]? with
      | none => exact follows_throw _
      | some first =>
          dsimp only
          split
          · exact follows_pure trivial
          · refine (follows_key true here passes).bind ?_
            rintro valStart ⟨forward, bound, passes⟩
            have value := (skips valStart (skipFuel data) bound passes
              (by rw [skipFuel]; omega)).advancing fun _ lands => lands.1
            refine value.bind ?_
            rintro stop ⟨further, bound', passes⟩
            rw [slice_eq forward bound, pure_bind]
            refine (follows_rejectIf _ _).bind fun _ colon => ?_
            rw [slice_name colon, pure_bind]
            split
            · refine (follows_rejectIf _ _).bind fun _ _ => ?_
              exact ih stop _ bound' (by omega) passes
            · exact ih stop span bound' (by omega) passes

end Spans

end Walk

/-- On bytes that the guard accepts for a depth, a walk with room for as many nested calls of
`skip_value` neither exhausts its stack nor reads outside the data nor stalls, and it returns
what `find_info_span` returns. -/
theorem guarded_walk_safe {data : Bytes} {maxDepth : Nat}
    (accepted : bencodeDepthOk data maxDepth = true) :
    (Walk.findInfoSpan maxDepth data).run = .ok (findInfoSpan data) := by
  have follows : Walk.Follows (Walk.findInfoSpan maxDepth data) (findInfoSpan data)
      fun _ => True := by
    refine (Walk.follows_rejectIf _ _).bind fun _ root => ?_
    have here : data[0]? = some 100 := by simpa using root
    have inside := (List.getElem?_eq_some_iff.mp here).1
    have passes : Walk.Passes maxDepth 0 (data.drop 0) := ⟨data.length + 1, accepted⟩
    rw [Walk.drop_of_getElem? here] at passes
    obtain ⟨room, passes⟩ := passes.scans.container_inside rfl
    have skips : Walk.SkipsValues data maxDepth 1 (Walk.skipValue data maxDepth) :=
      Walk.skipsValues maxDepth 1 (Nat.add_comm ..) room
    have spans := Walk.follows_infoSpanFrom skips (data.length + 1) 1 none inside (by omega) passes
    refine spans.bind fun span _ => ?_
    cases span with
    | none => exact Walk.follows_throw _
    | some span => exact Walk.follows_pure trivial
  exact follows.1

def nestedInfo : Bytes := "d4:infod1:ai1eee".toUTF8.toList

theorem guarded_walk_safe_nested :
    bencodeDepthOk nestedInfo 2 = true ∧
      (Walk.findInfoSpan 2 nestedInfo).run = .ok (findInfoSpan nestedInfo) ∧
      findInfoSpan nestedInfo = .ok (7, 15) ∧
      (Walk.findInfoSpan 1 nestedInfo).run = .error .stackExhausted :=
  ⟨by decide +kernel, guarded_walk_safe (by decide +kernel), by decide +kernel, by decide +kernel⟩

end Vtorrent
