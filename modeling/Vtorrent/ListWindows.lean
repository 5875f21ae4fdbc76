import Mathlib.Data.List.Basic
import Mathlib.Data.List.Nodup
import Mathlib.Tactic.Ring

/-!
# Windows of a list

The items of a list from one place up to another.  Windows that follow each other join to one
window, and a window of a concatenation is the concatenation of two windows.
-/

namespace ListWindow

variable {α β : Type}

/-- The items from place `start` up to place `stop`. -/
def window (start stop : Nat) (items : List α) : List α :=
  (items.take stop).drop start

theorem length_window (start stop : Nat) (items : List α) :
    (window start stop items).length = min stop items.length - start := by
  simp [window]

@[simp]
theorem window_nil (start stop : Nat) : window start stop ([] : List α) = [] := by
  simp [window]

theorem window_of_le {start stop : Nat} (order : stop ≤ start) (items : List α) :
    window start stop items = [] := by
  apply List.eq_nil_of_length_eq_zero
  rw [length_window]
  omega

theorem window_of_length_le {start stop : Nat} {items : List α}
    (short : items.length ≤ start) : window start stop items = [] := by
  apply List.eq_nil_of_length_eq_zero
  rw [length_window]
  omega

theorem window_zero {stop : Nat} {items : List α} (whole : items.length ≤ stop) :
    window 0 stop items = items := by
  rw [window, List.drop_zero, List.take_of_length_le whole]

theorem window_congr {start stop stop' : Nat} {items : List α}
    (same : min stop items.length = min stop' items.length) :
    window start stop items = window start stop' items := by
  have taken : items.take stop = items.take stop' := by
    rw [List.take_eq_take_min, same, ← List.take_eq_take_min]
  rw [window, taken, window]

theorem window_append (start stop : Nat) (first second : List α) :
    window start stop (first ++ second) =
      window start stop first ++ window (start - first.length) (stop - first.length) second := by
  unfold window
  rw [List.take_append, List.drop_append, List.length_take]
  rcases Nat.le_total stop first.length with short | long
  · rw [Nat.sub_eq_zero_of_le short, List.take_zero, List.drop_nil, List.drop_nil]
  · rw [Nat.min_eq_right long]

theorem window_map (start stop : Nat) (items : List α) (convert : α → β) :
    window start stop (items.map convert) = (window start stop items).map convert := by
  simp [window, List.map_drop, List.map_take]

theorem window_range' (start stop count : Nat) :
    window start stop (List.range' 0 count) =
      List.range' start (min stop count - start) := by
  apply List.ext_getElem
  · simp [length_window]
  · intro place _ _
    simp [window]

theorem window_join {start middle stop : Nat} (first : start ≤ middle) (second : middle ≤ stop)
    (items : List α) :
    window start middle items ++ window middle stop items = window start stop items := by
  have early : items.take middle = (items.take stop).take middle := by
    rw [List.take_take, Nat.min_eq_left second]
  unfold window
  rw [early]
  generalize items.take stop = prior
  conv_rhs => rw [← List.take_append_drop middle prior]
  rw [List.drop_append, List.length_take, List.drop_drop]
  rcases Nat.le_total middle prior.length with inside | outside
  · rw [Nat.min_eq_left inside, Nat.sub_eq_zero_of_le first, Nat.add_zero]
  · have beyond : ∀ place, middle ≤ place → prior.drop place = [] := fun place order =>
      List.drop_of_length_le (outside.trans order)
    rw [beyond _ le_rfl, beyond _ (Nat.le_add_right _ _)]

theorem flatMap_window (size count : Nat) (items : List α) :
    (List.range count).flatMap (fun index => window (index * size) ((index + 1) * size) items) =
      window 0 (count * size) items := by
  induction count with
  | zero => simp [window]
  | succ count ih =>
      rw [List.range_succ, List.flatMap_append, ih, List.flatMap_cons, List.flatMap_nil,
        List.append_nil]
      exact window_join (Nat.zero_le _) (Nat.mul_le_mul_right _ (Nat.le_succ _)) items

end ListWindow
