import Vtorrent.MerklePaths

/-!
# Merkle trees in reused buffers

A tree can be reduced within the buffer of its leaves, each level overwriting the front of the
level below.  It can also be built into level buffers that an earlier, larger tree has left
behind.  Both give the levels of the tree that is built from nothing.
-/

namespace DuplicatingMerkle

variable {α : Type}

/-! ## Reducing in place -/

/-- Give an odd number of nodes a copy of the last one. -/
def padBuffer (empty : α) (buffer : List α) (length : Nat) : List α :=
  if length % 2 = 1 then
    let duplicate := buffer.getD (length - 1) empty
    if buffer.length = length then buffer ++ [duplicate] else buffer.set length duplicate
  else buffer

def combineAt (combine : α → α → α) (empty : α) (buffer : List α) (place : Nat) : List α :=
  buffer.set place
    (combine (buffer.getD (place * 2) empty) (buffer.getD (place * 2 + 1) empty))

/-- Reduce the first nodes of a buffer until one is left. -/
def reduceInPlace (combine : α → α → α) (empty : α) : Nat → List α → Nat → List α
  | 0, buffer, _ => buffer
  | fuel + 1, buffer, length =>
      if 1 < length then
        let half := (length + length % 2) / 2
        reduceInPlace combine empty fuel
          ((List.range half).foldl (combineAt combine empty) (padBuffer empty buffer length)) half
      else buffer

section InPlace

variable (combine : α → α → α) (empty : α)

theorem length_foldl_combineAt (buffer : List α) (places : List Nat) :
    (places.foldl (combineAt combine empty) buffer).length = buffer.length := by
  induction places generalizing buffer with
  | nil => rfl
  | cons place places ih => rw [List.foldl_cons, ih, combineAt, List.length_set]

/-- The nodes that a pass has reached are combined, the others are still there. -/
theorem getElem?_foldl_combineAt (buffer : List α) {count : Nat}
    (room : 2 * count ≤ buffer.length) (place : Nat) :
    ((List.range count).foldl (combineAt combine empty) buffer)[place]? =
      if place < count then
        some (combine (buffer.getD (place * 2) empty) (buffer.getD (place * 2 + 1) empty))
      else buffer[place]? := by
  induction count generalizing place with
  | zero => simp
  | succ count ih =>
      have earlier := ih (by omega)
      have unread : ∀ later, count ≤ later →
          ((List.range count).foldl (combineAt combine empty) buffer).getD later empty =
            buffer.getD later empty := by
        intro later beyond
        rw [List.getD_eq_getElem?_getD, earlier, if_neg (by omega),
          List.getD_eq_getElem?_getD]
      rw [List.range_succ, List.foldl_append, List.foldl_cons, List.foldl_nil, combineAt,
        unread _ (by omega), unread _ (by omega), List.getElem?_set, length_foldl_combineAt]
      by_cases here : count = place
      · subst here
        rw [if_pos rfl, if_pos (by omega), if_pos (by omega)]
      · rw [if_neg here, earlier]
        by_cases before : place < count
        · rw [if_pos before, if_pos (by omega)]
        · rw [if_neg before, if_neg (by omega)]

theorem getElem?_of_take {buffer nodes : List α} {place : Nat}
    (held : buffer.take nodes.length = nodes) (inside : place < nodes.length) :
    buffer[place]? = nodes[place]? :=
  calc buffer[place]? = (buffer.take nodes.length)[place]? :=
        (List.getElem?_take_of_lt inside).symm
    _ = nodes[place]? := by rw [held]

theorem padBuffer_spec {buffer nodes : List α} (held : buffer.take nodes.length = nodes)
    (nonempty : 0 < nodes.length) :
    2 * ((nodes.length + nodes.length % 2) / 2) ≤
        (padBuffer empty buffer nodes.length).length ∧
      ∀ place, place < (nodes.length + nodes.length % 2) / 2 →
        (padBuffer empty buffer nodes.length)[place * 2]? = nodes[2 * place]? ∧
        (padBuffer empty buffer nodes.length)[place * 2 + 1]? =
          nodes[min (2 * place + 1) (nodes.length - 1)]? := by
  have size : nodes.length ≤ buffer.length := by
    have := congrArg List.length held
    rw [List.length_take] at this
    omega
  have read : ∀ place, place < nodes.length → buffer[place]? = nodes[place]? :=
    fun _ inside => getElem?_of_take held inside
  have doubled : ∀ place, place * 2 = 2 * place := fun place => Nat.mul_comm _ _
  rcases Nat.mod_two_eq_zero_or_one nodes.length with even | odd
  · have same : padBuffer empty buffer nodes.length = buffer := by
      rw [padBuffer, if_neg (by omega)]
    rw [same]
    refine ⟨by omega, fun place inside => ⟨?_, ?_⟩⟩
    · rw [doubled, read _ (by omega)]
    · rw [doubled, read _ (by omega), min_eq_left (by omega)]
  · have last : buffer.getD (nodes.length - 1) empty = nodes.getD (nodes.length - 1) empty := by
      rw [List.getD_eq_getElem?_getD, read _ (by omega), List.getD_eq_getElem?_getD]
    have padded : ∀ place, place ≤ nodes.length →
        (padBuffer empty buffer nodes.length)[place]? =
          nodes[min place (nodes.length - 1)]? := by
      intro place inside
      rw [padBuffer, if_pos odd]
      dsimp only
      by_cases full : buffer.length = nodes.length
      · rw [if_pos full]
        by_cases there : place < nodes.length
        · rw [List.getElem?_append_left (by omega), read _ there, min_eq_left (by omega)]
        · have atEnd : place = buffer.length := by omega
          rw [atEnd, List.getElem?_concat_length, last, full, min_eq_right (by omega),
            List.getD_eq_getElem _ _ (by omega), List.getElem?_eq_getElem (by omega)]
      · rw [if_neg full, List.getElem?_set]
        by_cases there : place < nodes.length
        · rw [if_neg (by omega), read _ there, min_eq_left (by omega)]
        · have atEnd : nodes.length = place := by omega
          rw [if_pos atEnd, if_pos (by omega), last, min_eq_right (by omega),
            List.getD_eq_getElem _ _ (by omega), List.getElem?_eq_getElem (by omega)]
    refine ⟨?_, fun place inside => ⟨?_, ?_⟩⟩
    · have found := (padded nodes.length le_rfl).trans
        (List.getElem?_eq_getElem (by omega : min nodes.length (nodes.length - 1) < nodes.length))
      have := (List.getElem?_eq_some_iff.mp found).1
      omega
    · rw [padded _ (by omega), doubled, min_eq_left (by omega)]
    · rw [padded _ (by omega), doubled]

theorem take_pass {buffer nodes : List α} (held : buffer.take nodes.length = nodes)
    (nonempty : 0 < nodes.length) :
    ((List.range ((nodes.length + nodes.length % 2) / 2)).foldl (combineAt combine empty)
      (padBuffer empty buffer nodes.length)).take (level combine nodes).length =
        level combine nodes := by
  obtain ⟨room, read⟩ := padBuffer_spec empty held nonempty
  have count : (level combine nodes).length = (nodes.length + nodes.length % 2) / 2 := by
    rw [length_level]
    omega
  apply List.ext_getElem?
  intro place
  by_cases inside : place < (level combine nodes).length
  · rw [List.getElem?_take_of_lt inside, getElem?_foldl_combineAt combine empty _ room,
      if_pos (by omega)]
    obtain ⟨left, right⟩ := read place (by omega)
    rw [level, List.length_map] at inside
    have paired := List.getElem?_eq_getElem inside
    obtain ⟨first, second⟩ := getElem?_of_pairs paired
    rw [level, List.getElem?_map, paired, Option.map_some, List.getD_eq_getElem?_getD,
      List.getD_eq_getElem?_getD, left, right, first, second]
    rfl
  · rw [List.getElem?_eq_none (by rw [List.length_take]; omega),
      List.getElem?_eq_none (by omega)]

theorem getElem?_reduceInPlace (fuel : Nat) {buffer nodes : List α}
    (held : buffer.take nodes.length = nodes) (nonempty : 0 < nodes.length) :
    (reduceInPlace combine empty fuel buffer nodes.length)[0]? =
      (reduce combine fuel nodes)[0]? := by
  induction fuel generalizing buffer nodes with
  | zero => exact getElem?_of_take held nonempty
  | succ fuel ih =>
      rw [reduceInPlace, reduce]
      by_cases single : nodes.length ≤ 1
      · rw [if_neg (by omega), if_pos single, getElem?_of_take held nonempty]
      · have held' := take_pass combine empty held nonempty
        have count : (nodes.length + nodes.length % 2) / 2 = (level combine nodes).length := by
          rw [length_level]
          omega
        have nonempty' : 0 < (level combine nodes).length := by
          rw [length_level]
          omega
        rw [if_pos (by omega), if_neg single]
        dsimp only
        rw [count] at held' ⊢
        exact ih held' nonempty'

end InPlace

/-! ## Building into earlier levels -/

def rebuild (combine : α → α → α) : Nat → Nat → List (List α) → List (List α)
  | 0, place, buffers => buffers.take (place + 1)
  | fuel + 1, place, buffers =>
      let current := buffers.getD place []
      if current.length = 1 then buffers.take (place + 1)
      else
        let buffers := if buffers.length = place + 1 then buffers ++ [[]] else buffers
        rebuild combine fuel (place + 1) (buffers.set (place + 1) (level combine current))

theorem rebuild_eq (combine : α → α → α) (fuel : Nat) {place : Nat} {buffers : List (List α)}
    {nodes : List α} (held : buffers[place]? = some nodes) (nonempty : 0 < nodes.length) :
    rebuild combine fuel place buffers =
      buffers.take place ++ levels combine fuel nodes := by
  have through : buffers.take (place + 1) = buffers.take place ++ [nodes] := by
    rw [List.take_add_one, held]
    rfl
  induction fuel generalizing place buffers nodes with
  | zero => exact through
  | succ fuel ih =>
      have current : buffers.getD place [] = nodes := by
        rw [List.getD_eq_getElem?_getD, held]
        rfl
      have inside := (List.getElem?_eq_some_iff.mp held).1
      rw [rebuild, levels]
      dsimp only
      rw [current]
      by_cases single : nodes.length = 1
      · rw [if_pos single, if_pos (by omega), through]
      · rw [if_neg single]
        have extended : ∃ others, place + 1 < others.length ∧
            others.take (place + 1) = buffers.take (place + 1) ∧
            (if buffers.length = place + 1 then buffers ++ [[]] else buffers) = others := by
          by_cases full : buffers.length = place + 1
          · refine ⟨buffers ++ [[]], by simp [full], ?_, if_pos full⟩
            rw [List.take_append_of_le_length (by omega)]
          · exact ⟨buffers, by omega, rfl, if_neg full⟩
        obtain ⟨others, room, kept, same⟩ := extended
        have written : (others.set (place + 1) (level combine nodes))[place + 1]? =
            some (level combine nodes) := by
          rw [List.getElem?_set_self room]
        have below : (others.set (place + 1) (level combine nodes)).take (place + 1) =
            buffers.take place ++ [nodes] := by
          rw [List.take_set_of_le le_rfl, kept, through]
        rw [same, if_neg (by omega), ih written (by rw [length_level]; omega)]
        · rw [below, List.append_assoc]
          rfl
        · rw [List.take_add_one, written]
          rfl

end DuplicatingMerkle
