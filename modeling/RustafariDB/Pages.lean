import RustafariDB.Overlays
import RustafariDB.Values

/-!
# Pages

`page.rs`: fixed buffers that are read and written in slices. A read checks only the end of
its range and a write a sum that can overflow; both then slice the buffer. Calls that do
neither go wrong as a byte array does, and return what it returns.
-/

namespace Pages

open Overlays Values

section Buffers

def pageSize : Nat := 8192

/-- Unique page identifier (file id + page number). -/
structure PageId where
  fileId : UInt32
  pageNo : UInt64
  deriving DecidableEq

structure Page where
  id : PageId
  data : List UInt8
  dirty : Bool
  size : data.length = pageSize

namespace Page

def new (id : PageId) : Page := ⟨id, List.replicate pageSize 0, false, List.length_replicate⟩

/-- `none` is the panic of a slice that ends before it starts. -/
def read (page : Page) (start stop : Nat) : Option (Except RustafariError (List UInt8)) :=
  if pageSize < stop then some (.error (.storage "read out of page bounds"))
  else if start ≤ stop then some (.ok ((page.data.drop start).take (stop - start)))
  else none

/-- `none` is the overflow of `offset + data.len()`. -/
def write (page : Page) (offset : Nat) (data : List UInt8) :
    Option (Except RustafariError Unit × Page) :=
  if 2 ^ 64 ≤ offset + data.length then none
  else if bounds : offset + data.length ≤ pageSize then
    some (.ok (), { page with
      data := overwrite page.data offset data
      dirty := true
      size := (length_overwrite (page.size ▸ bounds)).trans page.size })
  else some (.error (.storage "write out of page bounds"), page)

end Page

end Buffers

section Calls

inductive PageOp where
  | read (start stop : Nat)
  | write (offset : Nat) (data : List UInt8)

inductive Returned where
  | read (result : Except RustafariError (List UInt8))
  | write (result : Except RustafariError Unit)

def Page.call (page : Page) : PageOp → Option (Returned × Page)
  | .read start stop => (page.read start stop).map fun result => (.read result, page)
  | .write offset data => (page.write offset data).map fun e => (.write e.1, e.2)

def Page.calls (page : Page) : List PageOp → Option (List Returned × Page)
  | [] => some ([], page)
  | op :: ops => do
    let (returned, page) ← page.call op
    let (later, page) ← page.calls ops
    return (returned :: later, page)

/-- A page as it is meant: an array of bytes that refuses what is out of its bounds. -/
structure Bytes where
  content : Nat → UInt8
  dirty : Bool

namespace Bytes

def call (bytes : Bytes) : PageOp → Returned × Bytes
  | .read start stop =>
    if start ≤ stop ∧ stop ≤ pageSize then
      (.read (.ok ((List.range' start (stop - start)).map bytes.content)), bytes)
    else (.read (.error (.storage "read out of page bounds")), bytes)
  | .write offset data =>
    if offset + data.length ≤ pageSize then
      (.write (.ok ()), ⟨overlay bytes.content offset data, true⟩)
    else (.write (.error (.storage "write out of page bounds")), bytes)

def calls (bytes : Bytes) : List PageOp → List Returned × Bytes
  | [] => ([], bytes)
  | op :: ops =>
    let (returned, bytes) := bytes.call op
    let (later, bytes) := bytes.calls ops
    (returned :: later, bytes)

end Bytes

def Page.bytes (page : Page) : Bytes := ⟨valueAt 0 page.data, page.dirty⟩

/-- The calls neither panic nor overflow, return what the array returns, and leave the page
as they leave the array. -/
def Behaves (page : Page) (ops : List PageOp) : Prop :=
  ∃ page', page.calls ops = some ((page.bytes.calls ops).1, page') ∧
    page'.bytes = (page.bytes.calls ops).2 ∧ page'.id = page.id

/-- A range that is not inverted, unless its end is refused; a sum that is a `usize`. -/
def PageOp.Sliceable : PageOp → Prop
  | .read start stop => start ≤ stop ∨ pageSize < stop
  | .write offset data => offset + data.length < 2 ^ 64

end Calls

section Refinement
variable {page : Page} {op : PageOp} {ops : List PageOp}

/-- A read that does not panic reads the array, and a write that does not overflow writes it. -/
theorem call_of_sliceable (page : Page) (sliceable : op.Sliceable) :
    ∃ page', page.call op = some ((page.bytes.call op).1, page') ∧
      page'.bytes = (page.bytes.call op).2 ∧ page'.id = page.id := by
  have size := page.size
  cases op with
  | read start stop =>
    refine ⟨page, ?_, ?_, rfl⟩
    · rw [Page.call, Page.read, Bytes.call]
      by_cases large : pageSize < stop
      · rw [if_pos large, if_neg (by omega)]
        rfl
      · have ordered : start ≤ stop := Or.resolve_right sliceable large
        rw [if_neg large, if_pos ordered, if_pos ⟨ordered, by omega⟩,
          slice_eq_map 0 (by omega)]
        rfl
    · rw [Bytes.call]
      split <;> rfl
  | write offset data =>
    have small : offset + data.length < 2 ^ 64 := sliceable
    rw [Page.call, Page.write, Bytes.call, if_neg (by omega)]
    by_cases bounds : offset + data.length ≤ pageSize
    · rw [dif_pos bounds, if_pos bounds]
      refine ⟨_, rfl, ?_, rfl⟩
      rw [Page.bytes, Page.bytes, valueAt_overwrite 0 (by omega)]
    · rw [dif_neg bounds, if_neg bounds]
      exact ⟨page, rfl, rfl, rfl⟩

theorem call_of_not_sliceable (page : Page) (inverted : ¬op.Sliceable) : page.call op = none := by
  cases op with
  | read start stop =>
    obtain ⟨above, small⟩ := not_or.mp inverted
    rw [Page.call, Page.read, if_neg small, if_neg above]
    rfl
  | write offset data =>
    rw [Page.call, Page.write, if_pos (Nat.le_of_not_lt inverted)]
    rfl

theorem calls_cons (page : Page) (op : PageOp) (ops : List PageOp) :
    page.calls (op :: ops) = (page.call op).bind fun e =>
      (e.2.calls ops).map fun later => (e.1 :: later.1, later.2) := by
  rw [Page.calls]
  cases page.call op with
  | none => rfl
  | some e =>
    obtain ⟨returned, next⟩ := e
    change ((next.calls ops).bind fun later => _) = (next.calls ops).map _
    cases next.calls ops <;> rfl

/-- After a call that goes well the rest decides. -/
theorem behaves_cons {next : Page} (called : page.call op = some ((page.bytes.call op).1, next))
    (same : next.bytes = (page.bytes.call op).2) (id : next.id = page.id) :
    Behaves page (op :: ops) ↔ Behaves next ops := by
  have array : page.bytes.calls (op :: ops) =
      ((page.bytes.call op).1 :: (next.bytes.calls ops).1, (next.bytes.calls ops).2) := by
    rw [same]
    rfl
  rw [Behaves, Behaves, calls_cons, called, Option.bind_some, array, id]
  constructor
  · rintro ⟨page', mapped, left, kept⟩
    obtain ⟨later, found, pair⟩ := Option.map_eq_some_iff.mp mapped
    obtain ⟨returned, rfl⟩ := Prod.mk.inj pair
    refine ⟨later.2, ?_, left, kept⟩
    rw [found, ← (List.cons.inj returned).2]
  · rintro ⟨page', found, left, kept⟩
    exact ⟨page', by rw [found]; rfl, left, kept⟩

theorem page_behaves_iff (page : Page) (ops : List PageOp) :
    Behaves page ops ↔ ∀ op ∈ ops, op.Sliceable := by
  induction ops generalizing page with
  | nil => exact iff_of_true ⟨page, rfl, rfl, rfl⟩ (fun _ none => absurd none List.not_mem_nil)
  | cons op ops ih =>
    rw [List.forall_mem_cons]
    by_cases sliceable : op.Sliceable
    · obtain ⟨next, called, same, id⟩ := call_of_sliceable page sliceable
      rw [behaves_cons called same id, ih]
      exact (and_iff_right sliceable).symm
    · refine iff_of_false ?_ (fun all => sliceable all.1)
      rintro ⟨page', called, -, -⟩
      rw [calls_cons, call_of_not_sliceable page sliceable] at called
      cases called

end Refinement

/-- The end of an inverted range is within the page. -/
theorem inverted_read_panics : ¬Behaves (.new ⟨0, 0⟩) [.read 5 3] := by
  rintro ⟨page', called, -, -⟩
  rw [calls_cons, call_of_not_sliceable _ (by simp [PageOp.Sliceable, pageSize])] at called
  cases called

end Pages
