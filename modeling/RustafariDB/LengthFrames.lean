import Mathlib.Data.List.Basic
import Mathlib.Algebra.Order.Ring.Nat

/-!
# Length-prefixed frames

A frame is a payload behind its length, in little-endian bytes of a fixed width, which hold
the length modulo their number of values. A log is read frame by frame from its start, each
at its position, until what is left holds no whole frame.

Bytes that are read to their end are out of the way of what follows them. Where something
is left over, the next frame after it is not found at its position.
-/

namespace LengthFrames

section Numbers

/-- The low `w` bytes of a number, least significant first. -/
def toBytesLE : Nat → Nat → List UInt8
  | 0, _ => []
  | w + 1, n => UInt8.ofNat (n % 256) :: toBytesLE w (n / 256)

def ofBytesLE : List UInt8 → Nat
  | [] => 0
  | b :: bytes => b.toNat + 256 * ofBytesLE bytes

theorem length_toBytesLE (w n : Nat) : (toBytesLE w n).length = w := by
  induction w generalizing n with
  | zero => rfl
  | succ w ih => rw [toBytesLE, List.length_cons, ih]

theorem ofBytesLE_toBytesLE (w n : Nat) : ofBytesLE (toBytesLE w n) = n % 256 ^ w := by
  induction w generalizing n with
  | zero => rw [toBytesLE, ofBytesLE, Nat.pow_zero, Nat.mod_one]
  | succ w ih =>
    have low : (UInt8.ofNat (n % 256)).toNat = n % 256 :=
      UInt8.toNat_ofNat_of_lt' (Nat.mod_lt n (by omega))
    rw [toBytesLE, ofBytesLE, ih, low, Nat.pow_succ, Nat.mul_comm (256 ^ w), Nat.mod_mul]

/-- A number and its low part have the same bytes. -/
theorem toBytesLE_mod (w n : Nat) : toBytesLE w (n % 256 ^ w) = toBytesLE w n := by
  induction w generalizing n with
  | zero => rfl
  | succ w ih =>
    have low : n % (256 * 256 ^ w) % 256 = n % 256 := Nat.mod_mul_right_mod n 256 (256 ^ w)
    have high : n % (256 * 256 ^ w) / 256 = n / 256 % 256 ^ w :=
      Nat.mod_mul_right_div_self n 256 (256 ^ w)
    rw [Nat.pow_succ, Nat.mul_comm, toBytesLE, low, high, ih, toBytesLE]

end Numbers

section Frames
variable {w : Nat}

def frame (w : Nat) (payload : List UInt8) : List UInt8 :=
  toBytesLE w payload.length ++ payload

theorem length_frame (payload : List UInt8) :
    (frame w payload).length = w + payload.length := by
  rw [frame, List.length_append, length_toBytesLE]

/-- One frame off the front: its payload, and the bytes behind it. -/
def readFrame (w : Nat) (bytes : List UInt8) : Option (List UInt8 × List UInt8) :=
  let n := ofBytesLE (bytes.take w)
  if w + n ≤ bytes.length then some ((bytes.drop w).take n, bytes.drop (w + n)) else none

variable {bytes payload rest : List UInt8}

theorem readFrame_eq_some (h : readFrame w bytes = some (payload, rest)) :
    payload.length = ofBytesLE (bytes.take w) ∧ bytes.length = w + payload.length + rest.length ∧
      payload = (bytes.drop w).take payload.length ∧
      rest = bytes.drop (w + payload.length) := by
  rw [readFrame] at h
  by_cases whole : w + ofBytesLE (bytes.take w) ≤ bytes.length
  · rw [if_pos whole] at h
    cases h
    have long : ((bytes.drop w).take (ofBytesLE (bytes.take w))).length =
        ofBytesLE (bytes.take w) := by
      rw [List.length_take, List.length_drop]
      omega
    rw [long, List.length_drop]
    exact ⟨rfl, by omega, rfl, rfl⟩
  · rw [if_neg whole] at h
    cases h

theorem readFrame_eq_none : readFrame w bytes = none ↔
    bytes.length < w + ofBytesLE (bytes.take w) := by
  rw [readFrame]
  by_cases whole : w + ofBytesLE (bytes.take w) ≤ bytes.length
  · rw [if_pos whole]
    exact iff_of_false (by rintro ⟨⟩) (by omega)
  · rw [if_neg whole]
    exact iff_of_true rfl (by omega)

theorem readFrame_header (n : Nat) (body : List UInt8) :
    readFrame w (toBytesLE w n ++ body) = if n % 256 ^ w ≤ body.length then
      some (body.take (n % 256 ^ w), body.drop (n % 256 ^ w)) else none := by
  have header : (toBytesLE w n ++ body).take w = toBytesLE w n :=
    List.take_left' (length_toBytesLE w n)
  have behind : (toBytesLE w n ++ body).drop w = body :=
    List.drop_left' (length_toBytesLE w n)
  rw [readFrame, header, ofBytesLE_toBytesLE, List.length_append, length_toBytesLE,
    ← List.drop_drop, behind]
  by_cases whole : n % 256 ^ w ≤ body.length
  · rw [if_pos whole, if_pos (by omega)]
  · rw [if_neg whole, if_neg (by omega)]

/-- A frame gives as much of its payload as its header counts. -/
theorem readFrame_frame (payload rest : List UInt8) :
    readFrame w (frame w payload ++ rest) = some (payload.take (payload.length % 256 ^ w),
      payload.drop (payload.length % 256 ^ w) ++ rest) := by
  have counted : payload.length % 256 ^ w ≤ payload.length := Nat.mod_le _ _
  rw [frame, List.append_assoc, readFrame_header, List.length_append, if_pos (by omega),
    List.take_append_of_le_length counted, List.drop_append_of_le_length counted]

/-- Bytes behind a whole frame are not read with it. -/
theorem readFrame_append (h : readFrame w bytes = some (payload, rest)) (more : List UInt8) :
    readFrame w (bytes ++ more) = some (payload, rest ++ more) := by
  obtain ⟨counted, long, taken, left⟩ := readFrame_eq_some h
  have header : (bytes ++ more).take w = bytes.take w :=
    List.take_append_of_le_length (by omega)
  rw [readFrame, header, ← counted, List.length_append, if_pos (by omega)]
  have whole : (bytes ++ more).drop w = bytes.drop w ++ more :=
    List.drop_append_of_le_length (by omega)
  have tail : (bytes ++ more).drop (w + payload.length) = rest ++ more := by
    rw [List.drop_append_of_le_length (by omega), ← left]
  rw [tail, whole, List.take_append_of_le_length (by rw [List.length_drop]; omega), ← taken]

end Frames

section Reading
variable {w : Nat} [NeZero w]

/-- The frames of a log that starts at an offset, each with its own offset, and what is left. -/
def readFrames (w : Nat) [NeZero w] (offset : Nat) (bytes : List UInt8) :
    List (Nat × List UInt8) × List UInt8 :=
  match _ : readFrame w bytes with
  | none => ([], bytes)
  | some (payload, rest) =>
    let (later, left) := readFrames w (offset + w + payload.length) rest
    ((offset, payload) :: later, left)
termination_by bytes.length
decreasing_by
  rename_i h
  have long := (readFrame_eq_some h).2.1
  have pos := NeZero.pos w
  omega

variable {bytes payload rest : List UInt8}

theorem readFrames_of_none (h : readFrame w bytes = none) (offset : Nat) :
    readFrames w offset bytes = ([], bytes) := by
  rw [readFrames]
  split
  · rfl
  · rename_i found
    rw [h] at found
    cases found

theorem readFrames_of_some (h : readFrame w bytes = some (payload, rest)) (offset : Nat) :
    readFrames w offset bytes =
      ((offset, payload) :: (readFrames w (offset + w + payload.length) rest).1,
        (readFrames w (offset + w + payload.length) rest).2) := by
  rw [readFrames]
  split
  · rename_i none
    rw [h] at none
    cases none
  · rename_i found
    rw [h] at found
    cases found
    rfl

/-- Bytes hold no whole frame, or a frame and bytes with a property. -/
theorem reading_induction {P : List UInt8 → Prop}
    (none : ∀ bytes, readFrame w bytes = none → P bytes)
    (some : ∀ bytes payload rest, readFrame w bytes = some (payload, rest) → P rest → P bytes)
    (bytes : List UInt8) : P bytes := by
  induction long : bytes.length using Nat.strong_induction_on generalizing bytes with
  | _ n ih =>
    cases h : readFrame w bytes with
    | none => exact none bytes h
    | some found =>
      obtain ⟨payload, rest⟩ := found
      have shorter := (readFrame_eq_some h).2.1
      have pos := NeZero.pos w
      exact some bytes payload rest h (ih rest.length (by omega) rest rfl)

/-- What is left does not depend on where the bytes are. -/
theorem readFrames_snd (offset offset' : Nat) (bytes : List UInt8) :
    (readFrames w offset bytes).2 = (readFrames w offset' bytes).2 := by
  induction bytes using reading_induction (w := w) generalizing offset offset' with
  | none bytes h => rw [readFrames_of_none h, readFrames_of_none h]
  | some bytes payload rest h ih =>
    rw [readFrames_of_some h, readFrames_of_some h]
    exact ih _ _

/-- Every frame lies within the bytes. -/
theorem frame_within {offset : Nat} {e : Nat × List UInt8}
    (found : e ∈ (readFrames w offset bytes).1) :
    offset ≤ e.1 ∧ e.1 + w + e.2.length ≤ offset + bytes.length := by
  induction bytes using reading_induction (w := w) generalizing offset with
  | none bytes h =>
    rw [readFrames_of_none h] at found
    cases found
  | some bytes payload rest h ih =>
    have long := (readFrame_eq_some h).2.1
    rw [readFrames_of_some h] at found
    rcases List.mem_cons.mp found with rfl | later
    · exact ⟨Nat.le_refl _, by simp only; omega⟩
    · have within := ih later
      omega

/-- Bytes that are read to their end leave what follows them to itself. -/
theorem readFrames_append (offset : Nat) (whole : (readFrames w offset bytes).2 = [])
    (rest : List UInt8) :
    readFrames w offset (bytes ++ rest) =
      ((readFrames w offset bytes).1 ++ (readFrames w (offset + bytes.length) rest).1,
        (readFrames w (offset + bytes.length) rest).2) := by
  induction bytes using reading_induction (w := w) generalizing offset with
  | none bytes h =>
    rw [readFrames_of_none h] at whole ⊢
    cases whole
    rfl
  | some bytes payload rest' h ih =>
    have long := (readFrame_eq_some h).2.1
    have same : offset + w + payload.length + rest'.length = offset + bytes.length := by omega
    rw [readFrames_of_some h] at whole ⊢
    rw [readFrames_of_some (readFrame_append h rest), ih _ whole, same]
    rfl

/-- What is found behind such bytes is found in what follows. -/
theorem found_behind {offset : Nat} (whole : (readFrames w offset bytes).2 = [])
    {e : Nat × List UInt8} (found : e ∈ (readFrames w offset (bytes ++ rest)).1)
    (behind : offset + bytes.length ≤ e.1) :
    e ∈ (readFrames w (offset + bytes.length) rest).1 := by
  rw [readFrames_append offset whole] at found
  rcases List.mem_append.mp found with within | later
  · have ends := (frame_within within).2
    have pos := NeZero.pos w
    omega
  · exact later

/-- Behind bytes that are not read to their end nothing is found at its position. -/
theorem not_found_behind (offset : Nat) (left : (readFrames w offset bytes).2 ≠ [])
    (rest payload : List UInt8) :
    (offset + bytes.length, payload) ∉ (readFrames w offset (bytes ++ rest)).1 := by
  have pos := NeZero.pos w
  induction bytes using reading_induction (w := w) generalizing offset with
  | none bytes h =>
    rw [readFrames_of_none h] at left
    have some_byte : 0 < bytes.length := List.length_pos_of_ne_nil left
    have cut := readFrame_eq_none.mp h
    intro found
    cases h' : readFrame w (bytes ++ rest) with
    | none =>
      rw [readFrames_of_none h'] at found
      cases found
    | some first =>
      obtain ⟨payload', rest'⟩ := first
      have counted := (readFrame_eq_some h').1
      -- the frame that begins in the bytes ends behind them
      have past : bytes.length < w + payload'.length := by
        by_cases short : bytes.length < w
        · omega
        · rw [List.take_append_of_le_length (by omega)] at counted
          omega
      rw [readFrames_of_some h'] at found
      rcases List.mem_cons.mp found with same | later
      · have here := congrArg Prod.fst same
        simp only at here
        omega
      · have within := (frame_within later).1
        simp only at within
        omega
  | some bytes payload' rest' h ih =>
    have long := (readFrame_eq_some h).2.1
    rw [readFrames_of_some h] at left
    intro found
    rw [readFrames_of_some (readFrame_append h rest)] at found
    rcases List.mem_cons.mp found with same | later
    · have here := congrArg Prod.fst same
      simp only at here
      omega
    · refine ih _ left ?_
      have same : offset + w + payload'.length + rest'.length = offset + bytes.length := by omega
      rw [same]
      exact later

end Reading

section Logs
variable {w : Nat} {payloads : List (List UInt8)}

/-- The frames of payloads, one after another. -/
def frames (w : Nat) (payloads : List (List UInt8)) : List UInt8 :=
  (payloads.map (frame w)).flatten

theorem frames_cons (payload : List UInt8) (later : List (List UInt8)) :
    frames w (payload :: later) = frame w payload ++ frames w later := by
  rw [frames, List.map_cons, List.flatten_cons, frames]

/-- The payloads at the offsets of their frames. -/
def placed (w : Nat) (offset : Nat) : List (List UInt8) → List (Nat × List UInt8)
  | [] => []
  | payload :: later => (offset, payload) :: placed w (offset + w + payload.length) later

theorem placed_map_snd (offset : Nat) : (placed w offset payloads).map Prod.snd = payloads := by
  induction payloads generalizing offset with
  | nil => rfl
  | cons payload later ih => rw [placed, List.map_cons, ih]

theorem le_of_placed {offset : Nat} {e : Nat × List UInt8}
    (inside : e ∈ placed w offset payloads) : offset ≤ e.1 := by
  induction payloads generalizing offset with
  | nil => cases inside
  | cons payload later ih =>
    rcases List.mem_cons.mp inside with rfl | behind
    · exact Nat.le_refl offset
    · have further := ih behind
      omega

variable [NeZero w]

/-- A frame with its whole length in the header is read and nothing left. -/
theorem readFrames_frame {payload : List UInt8} (small : payload.length < 256 ^ w)
    (offset : Nat) : readFrames w offset (frame w payload) = ([(offset, payload)], []) := by
  have first : readFrame w (frame w payload) = some (payload, []) := by
    have read := readFrame_frame (w := w) payload []
    rwa [List.append_nil, Nat.mod_eq_of_lt small, List.take_length, List.drop_length] at read
  have nothing : readFrame w [] = none := by
    rw [readFrame_eq_none, List.length_nil]
    exact Nat.add_pos_left (NeZero.pos w) _
  rw [readFrames_of_some first, readFrames_of_none nothing]

/-- Frames of small payloads are read where they are placed. -/
theorem readFrames_frames (small : ∀ payload ∈ payloads, payload.length < 256 ^ w)
    (offset : Nat) (rest : List UInt8) :
    readFrames w offset (frames w payloads ++ rest) =
      (placed w offset payloads ++
          (readFrames w (offset + (frames w payloads).length) rest).1,
        (readFrames w (offset + (frames w payloads).length) rest).2) := by
  induction payloads generalizing offset with
  | nil => rfl
  | cons payload later ih =>
    obtain ⟨first, others⟩ := List.forall_mem_cons.mp small
    have read := readFrames_frame first offset
    have ends : offset + (frame w payload).length + (frames w later).length =
        offset + (frames w (payload :: later)).length := by
      rw [frames_cons, List.length_append]
      omega
    rw [frames_cons, List.append_assoc, readFrames_append offset (by rw [read]), read, ih others,
      ends, ← frames_cons, placed, length_frame, ← Nat.add_assoc]
    rfl

/-- A payload is read in its place only if its length is in the header. -/
theorem small_of_found {payload : List UInt8} {offset : Nat} {rest : List UInt8}
    (found : (offset, payload) ∈ (readFrames w offset (frame w payload ++ rest)).1) :
    payload.length < 256 ^ w := by
  have pos := NeZero.pos w
  rw [readFrames_of_some (readFrame_frame payload rest)] at found
  rcases List.mem_cons.mp found with same | later
  · have counted := congrArg (fun e => e.2.length) same
    simp only [List.length_take] at counted
    have bound : payload.length % 256 ^ w < 256 ^ w := Nat.mod_lt _ (Nat.pow_pos (by omega))
    omega
  · have within := (frame_within later).1
    simp only at within
    omega

/-- All payloads are read in their places exactly if their lengths are in the headers. -/
theorem all_found_iff (offset : Nat) (rest : List UInt8) :
    (∀ e ∈ placed w offset payloads, e ∈ (readFrames w offset (frames w payloads ++ rest)).1) ↔
      ∀ payload ∈ payloads, payload.length < 256 ^ w := by
  constructor
  · intro found
    induction payloads generalizing offset with
    | nil => exact fun _ none => absurd none List.not_mem_nil
    | cons payload later ih =>
      rw [frames_cons, List.append_assoc] at found
      have small := small_of_found (found _ List.mem_cons_self)
      have whole : (readFrames w offset (frame w payload)).2 = [] := by
        rw [readFrames_frame small]
      refine List.forall_mem_cons.mpr ⟨small, ih (offset + (frame w payload).length) ?_⟩
      intro e inside
      refine found_behind whole (found e (List.mem_cons_of_mem _ ?_)) (le_of_placed inside)
      rwa [length_frame, ← Nat.add_assoc] at inside
  · intro small e listed
    rw [readFrames_frames small]
    exact List.mem_append_left _ listed

theorem readFrames_nil (offset : Nat) : readFrames w offset [] = ([], []) := by
  refine readFrames_of_none (readFrame_eq_none.mpr ?_) offset
  exact Nat.add_pos_left (NeZero.pos w) _

/-- Frames of small payloads are read to their end. -/
theorem readFrames_small (small : ∀ payload ∈ payloads, payload.length < 256 ^ w)
    (offset : Nat) : readFrames w offset (frames w payloads) = (placed w offset payloads, []) := by
  have read := readFrames_frames small offset []
  rwa [List.append_nil, readFrames_nil, List.append_nil] at read

/-- A log of frames reads as its payloads and is read to its end exactly if their lengths are in
the headers. -/
theorem reads_payloads_iff (offset : Nat) :
    ((readFrames w offset (frames w payloads)).1.map Prod.snd = payloads ∧
        (readFrames w offset (frames w payloads)).2 = []) ↔
      ∀ payload ∈ payloads, payload.length < 256 ^ w := by
  constructor
  · rintro ⟨same, -⟩
    induction payloads generalizing offset with
    | nil => exact fun _ none => absurd none List.not_mem_nil
    | cons payload later ih =>
      have read := readFrames_of_some (readFrame_frame (w := w) payload (frames w later)) offset
      rw [frames_cons] at same
      have first := congrArg List.head? same
      rw [read, List.map_cons, List.head?_cons, List.head?_cons] at first
      have small : payload.length < 256 ^ w := by
        have counted := congrArg List.length (Option.some.inj first)
        have bound : payload.length % 256 ^ w < 256 ^ w :=
          Nat.mod_lt _ (Nat.pow_pos (by decide))
        rw [List.length_take] at counted
        omega
      have whole := readFrames_frame small offset
      rw [readFrames_append offset (by rw [whole]), whole] at same
      exact List.forall_mem_cons.mpr ⟨small, ih _ (List.cons.inj same).2⟩
  · intro small
    rw [readFrames_small small]
    exact ⟨placed_map_snd offset, rfl⟩

/-- In a log with bytes between the frames, all payloads are read in their places exactly if
their lengths are in the headers and nothing follows the bytes unless they are read to their
end. -/
theorem found_around_iff (before after : List (List UInt8)) (between : List UInt8) :
    (∀ e ∈ placed w 0 before ++ placed w ((frames w before).length + between.length) after,
        e ∈ (readFrames w 0 (frames w before ++ (between ++ frames w after))).1) ↔
      (∀ payload ∈ before ++ after, payload.length < 256 ^ w) ∧
        (after = [] ∨ (readFrames w 0 between).2 = []) := by
  constructor
  · intro found
    have small := (all_found_iff 0 (between ++ frames w after)).mp
      (fun e inside => found e (List.mem_append_left _ inside))
    have whole : (readFrames w 0 (frames w before)).2 = [] := by rw [readFrames_small small]
    have found_after : ∀ e ∈ placed w ((frames w before).length + between.length) after,
        e ∈ (readFrames w (frames w before).length (between ++ frames w after)).1 := by
      intro e inside
      have behind := le_of_placed inside
      have later := found_behind whole (found e (List.mem_append_right _ inside)) (by omega)
      rwa [Nat.zero_add] at later
    cases after with
    | nil => exact ⟨by rwa [List.append_nil], Or.inl rfl⟩
    | cons first after =>
      have ended : (readFrames w (frames w before).length between).2 = [] := by
        by_contra left
        exact not_found_behind _ left _ _ (found_after _ List.mem_cons_self)
      have small_after : ∀ payload ∈ first :: after, payload.length < 256 ^ w := by
        refine (all_found_iff ((frames w before).length + between.length) []).mp ?_
        intro e inside
        rw [List.append_nil]
        exact found_behind ended (found_after e inside) (le_of_placed inside)
      rw [readFrames_snd _ 0] at ended
      exact ⟨List.forall_mem_append.mpr ⟨small, small_after⟩, Or.inr ended⟩
  · rintro ⟨small, rest⟩ e inside
    obtain ⟨small_before, small_after⟩ := List.forall_mem_append.mp small
    rw [readFrames_frames small_before, Nat.zero_add]
    rcases List.mem_append.mp inside with first | later
    · exact List.mem_append_left _ first
    · refine List.mem_append_right _ ?_
      rcases rest with rfl | ended
      · cases later
      · rw [readFrames_append _ (by rwa [readFrames_snd _ 0]), readFrames_small small_after]
        exact List.mem_append_right _ later

/-- Part of a frame with its whole length in the header is not read to its end. -/
theorem left_of_cut {payload : List UInt8} (small : payload.length < 256 ^ w) {cut : Nat}
    (started : 0 < cut) (unfinished : cut < (frame w payload).length) :
    (readFrames w 0 ((frame w payload).take cut)).2 ≠ [] := by
  have long : ((frame w payload).take cut).length = cut := List.length_take_of_le unfinished.le
  rw [length_frame] at unfinished
  have torn : readFrame w ((frame w payload).take cut) = none := by
    rw [readFrame_eq_none, long, List.take_take]
    by_cases short : cut < w
    · omega
    · have header : (frame w payload).take w = toBytesLE w payload.length :=
        List.take_left' (length_toBytesLE w _)
      rw [Nat.min_eq_left (by omega), header, ofBytesLE_toBytesLE, Nat.mod_eq_of_lt small]
      exact unfinished
  rw [readFrames_of_none torn]
  rintro (empty : (frame w payload).take cut = [])
  rw [empty, List.length_nil] at long
  omega

end Logs

end LengthFrames
