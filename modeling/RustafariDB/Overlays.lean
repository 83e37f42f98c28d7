import Mathlib.Data.List.Basic

/-!
# Overwritten slices

A slice of a list is overwritten in place. As a function of the position the list is then
overlaid with the slice, so that after any writes a position holds what the last write that
covers it has put there.
-/

namespace Overlays

universe u
variable {α : Type u}

/-- The list with `ys` in the place of what is there from `offset` on. -/
def overwrite (xs : List α) (offset : Nat) (ys : List α) : List α :=
  xs.take offset ++ ys ++ xs.drop (offset + ys.length)

/-- The values at the positions of a list, and `d` behind its end. -/
def valueAt (d : α) (xs : List α) (i : Nat) : α := xs[i]?.getD d

def overlay (m : Nat → α) (offset : Nat) (ys : List α) (i : Nat) : α :=
  if offset ≤ i then ys[i - offset]?.getD (m i) else m i

variable {xs ys : List α} {offset : Nat}

theorem length_overwrite (within : offset + ys.length ≤ xs.length) :
    (overwrite xs offset ys).length = xs.length := by
  rw [overwrite, List.length_append, List.length_append, List.length_drop,
    List.length_take_of_le (by omega)]
  omega

theorem valueAt_overwrite (d : α) (within : offset + ys.length ≤ xs.length) :
    valueAt d (overwrite xs offset ys) = overlay (valueAt d xs) offset ys := by
  have front : (xs.take offset).length = offset := List.length_take_of_le (by omega)
  funext i
  rw [valueAt, overwrite, List.append_assoc, overlay]
  by_cases before : i < offset
  · rw [List.getElem?_append_left (by omega), List.getElem?_take_of_lt before,
      if_neg (by omega), valueAt]
  · rw [List.getElem?_append_right (by omega), front, if_pos (by omega)]
    by_cases inside : i - offset < ys.length
    · rw [List.getElem?_append_left inside, List.getElem?_eq_getElem inside]
      rfl
    · have position : offset + ys.length + (i - offset - ys.length) = i := by omega
      have past : ys[i - offset]? = none := List.getElem?_eq_none (by omega)
      rw [List.getElem?_append_right (by omega), List.getElem?_drop, position, past]
      rfl

/-- A slice within a list is read position by position. -/
theorem slice_eq_map (d : α) {start stop : Nat} (within : stop ≤ xs.length) :
    (xs.drop start).take (stop - start) =
      (List.range' start (stop - start)).map (valueAt d xs) := by
  refine List.ext_getElem? fun i => ?_
  rw [List.getElem?_take, List.getElem?_map, List.getElem?_drop]
  by_cases inside : i < stop - start
  · rw [if_pos inside, List.getElem?_range' inside, Nat.one_mul, Option.map_some, valueAt,
      List.getElem?_eq_getElem (by omega)]
    rfl
  · rw [if_neg inside, List.getElem?_eq_none (by rw [List.length_range']; omega)]
    rfl

end Overlays
