import RustafariDB.FloatLaws
import RustafariDB.SortedLists
import RustafariDB.Values

/-!
# The vector index

`vector.rs`: entries of row ids with their vectors and a search that computes all distances
and sorts them. Vectors are checked for their dimension and nothing else, so a distance can
be NaN, which the comparison of the sort takes for equal to every other.
-/

namespace VectorIndexing

open Floats FloatLaws RankedOrders SortedLists Values

section Numbers

/-- What the index asks of `f32`. -/
class VectorFloat (F : Type) where
  /-- The sum of no numbers. -/
  zero : F
  add : F → F → F
  sub : F → F → F
  /-- `powi(2)`. -/
  square : F → F
  sqrt : F → F
  partialCmp : F → F → Option Ordering

variable {F : Type} [VectorFloat F]

/-- Not even comparable to itself. -/
def isNaN (x : F) : Bool := (VectorFloat.partialCmp x x).isNone

/-- Numbers are totally ordered, and NaN is comparable to nothing. -/
class LawfulVectorFloat (F : Type) [VectorFloat F] : Prop where
  partialCmp_swap : ∀ a b : F,
    VectorFloat.partialCmp b a = (VectorFloat.partialCmp a b).map Ordering.swap
  partialCmp_trans : ∀ a b c : F, (VectorFloat.partialCmp a b).any Ordering.isLE = true →
    (VectorFloat.partialCmp b c).any Ordering.isLE = true →
    (VectorFloat.partialCmp a c).any Ordering.isLE = true
  comparable : ∀ a b : F, (VectorFloat.partialCmp a b).isSome = true ↔
    isNaN a = false ∧ isNaN b = false

end Numbers

section Index
variable {F : Type} [VectorFloat F]

open VectorFloat

def l2Distance (a b : List F) : F :=
  sqrt (((a.zip b).map (fun p => square (sub p.1 p.2))).foldl add zero)

omit [VectorFloat F] in
/-- The lock is left out. -/
structure VectorIndex (F : Type) where
  dimension : Nat
  entries : List (Nat × List F)

/-- The comparison of the sort. -/
def compareDistance (a b : Nat × F) : Ordering := (partialCmp a.2 b.2).getD .eq

namespace VectorIndex

def new (dimension : Nat) : VectorIndex F := ⟨dimension, []⟩

def insert (ix : VectorIndex F) (rowId : Nat) (vector : List F) :
    Except RustafariError (VectorIndex F) :=
  if vector.length ≠ ix.dimension then
    .error (.index ("vector dimension " ++ toString vector.length ++ " != index dimension " ++
      toString ix.dimension))
  else .ok { ix with entries := ix.entries ++ [(rowId, vector)] }

def withDist (ix : VectorIndex F) (query : List F) : List (Nat × F) :=
  ix.entries.map (fun e => (e.1, l2Distance query e.2))

/-- k-NN search by L2 distance; `none` is a panic of the sort. -/
def Search (ix : VectorIndex F) (query : List F) (topK : Nat)
    (outcome : Option (Except RustafariError (List (Nat × F)))) : Prop :=
  if query.length ≠ ix.dimension then
    outcome = some (.error (.index ("query dimension " ++ toString query.length ++
      " != index dimension " ++ toString ix.dimension)))
  else ∃ sorted, SortBy compareDistance (ix.withDist query) sorted ∧
    outcome = sorted.map (fun s => .ok (s.take topK))

end VectorIndex

end Index

section Binary32

instance : VectorFloat Float32 where
  zero := Float32.ofBits 0x80000000
  add := fun a b => a + b
  sub := fun a b => a - b
  square := fun x => x * x
  sqrt := Float32.sqrt
  partialCmp := orderingOf (fun a b => a < b) (fun a b => a == b)

def float32Rank (a : Float32) : Option (Int × Int × Int) := unpackedRank a.toModel.unpack

theorem float32_lt_iff (a b : Float32) :
    a < b ↔ a.toModel.unpack.lt b.toModel.unpack = true := decide_eq_true_iff

theorem float32_compare (a b : Float32) :
    VectorFloat.partialCmp a b = rankCompare float32Rank a b := by
  have ranked (a b : Float32) :
      a.toModel.unpack.compare b.toModel.unpack = rankCompare float32Rank a b :=
    unpacked_compare _ _
  refine orderingOf_eq (fun a b => ?_) (fun a b => ?_) a b
  · rw [← ranked, decide_eq_true_iff, float32_lt_iff, Float.Model.UnpackedFloat.lt, beq_iff_eq]
  · rw [← ranked]
    change (_ == some Ordering.eq) = true ↔ _
    rw [beq_iff_eq]

/-- The order of binary32 numbers is that of a rank. -/
instance : LawfulVectorFloat Float32 where
  partialCmp_swap a b := by
    rw [float32_compare, float32_compare, rankCompare_swap]
  partialCmp_trans a b c hab hbc := by
    rw [float32_compare] at hab hbc ⊢
    exact rankCompare_trans hab hbc
  comparable a b := by
    rw [isNaN, isNaN, float32_compare, float32_compare, float32_compare]
    simp only [rankCompare]
    cases float32Rank a <;> cases float32Rank b <;> simp

end Binary32

end VectorIndexing
