import Mathlib.Data.List.Basic
set_option autoImplicit false

/-! Values as blocks of bytes of one size, and reading a run of such blocks back
as a slice of values. -/

namespace Pprof.Memory

/-- How the values of `T` lie in memory. That the bytes of a value, read back,
denote it again is what a cast of raw bytes to a slice takes for granted. -/
class Layout (T : Type) where
  Byte : Type
  size_of : Nat
  toBytes : T → List Byte
  ofBytes : List Byte → T
  size_of_pos : 0 < size_of
  length_toBytes : ∀ x, (toBytes x).length = size_of
  ofBytes_toBytes : ∀ x, ofBytes (toBytes x) = x

export Layout (size_of toBytes ofBytes)

variable {T : Type} [Layout T]

def slice (bytes : List (Layout.Byte T)) : List T :=
  (List.range (bytes.length/size_of T)).map fun i =>
    ofBytes ((bytes.drop (i*size_of T)).take (size_of T))

theorem length_flatMap_toBytes (xs : List T) :
    (xs.flatMap toBytes).length = xs.length*size_of T := by
  induction xs with
  | nil => simp
  | cons x xs ih =>
    rw [List.flatMap_cons,List.length_append,ih,Layout.length_toBytes,List.length_cons,Nat.add_mul]
    omega

theorem chunk_flatMap_toBytes (xs : List T) (i : Nat) (h : i < xs.length) :
    ((xs.flatMap toBytes).drop (i*size_of T)).take (size_of T) = toBytes xs[i] := by
  induction xs generalizing i with
  | nil => simp at h
  | cons x xs ih =>
    have hx := Layout.length_toBytes x
    cases i with
    | zero => simp [hx]
    | succ i =>
      have hs : (i+1)*size_of T = (toBytes x).length+i*size_of T := by
        rw [hx,Nat.add_mul]
        omega
      rw [List.flatMap_cons,hs,← List.drop_drop,List.drop_left]
      exact ih i (by simpa using h)

theorem slice_flatMap_toBytes (xs : List T) : slice (xs.flatMap toBytes) = xs := by
  have hlen : (xs.flatMap toBytes).length/size_of T = xs.length := by
    rw [length_flatMap_toBytes,Nat.mul_div_cancel _ Layout.size_of_pos]
  apply List.ext_getElem
  · simp only [slice,List.length_map,List.length_range,hlen]
  · intro i h₁ h₂
    simp only [slice,List.getElem_map,List.getElem_range]
    rw [chunk_flatMap_toBytes xs i h₂,Layout.ofBytes_toBytes]

/-- A layout for any inhabited type: byte `i` of `x` is the pair of `x` and `i`. -/
@[reducible] def indexedLayout (T : Type) [Inhabited T] (size : Nat) (h : 0 < size) : Layout T where
  Byte := T × Nat
  size_of := size
  toBytes x := (List.range size).map fun i => (x,i)
  ofBytes bs := (bs.head?.map Prod.fst).getD default
  size_of_pos := h
  length_toBytes x := by simp
  ofBytes_toBytes x := by
    obtain ⟨n,rfl⟩ := Nat.exists_eq_succ_of_ne_zero (Nat.ne_of_gt h)
    simp [List.range_succ_eq_map]

end Pprof.Memory
