import Pprof.HashCounter
import Pprof.TempFdArray
set_option autoImplicit false

/-! `Collector` of `collector.rs`: what the hash counter evicts goes to the temporary
array, so that the entries of one key may be spread over a bucket, the buffer and the
file. -/

namespace Pprof
open Iteration Memory TempFile

variable {T : Type} [Layout (Entry T)] [Target]

structure Collector (T : Type) [Layout (Entry T)] [Target] where
  map : HashCounter T
  temp_array : TempFdArray (Entry T)

def Collector.new [Inhabited T] (fails : Bool) : Except IoError (Collector T) := do
  let temp_array ← TempFdArray.new fails
  pure ⟨default,temp_array⟩

/-- `fault` is what happens to the write, if this call comes to write at all. -/
def Collector.add [BEq T] [Hashable T] (c : Collector T) (key : T) (count : Int)
    (fault : Option Nat) : Except Panic (Except IoError Unit × Collector T) := do
  let (map,evict) ← c.map.add key count
  match evict with
  | some evict =>
    let (result,temp_array) := c.temp_array.push evict fault
    pure (result,⟨map,temp_array⟩)
  | none => pure (.ok (),⟨map,c.temp_array⟩)

def Collector.try_iter (c : Collector T) (fault : Option ReadFault) :
    Except IoError (Chain (Boxed (BucketIterator T)) (TempFdArrayIterator (Entry T))) := do
  let temp_iter ← c.temp_array.try_iter fault
  pure (chain c.map.iter temp_iter)

theorem collector_try_iter {c : Collector T} {xs : List (Entry T)} (h : c.temp_array.Holds xs) :
    ∃ it, c.try_iter none = .ok it ∧ collect it = c.map.live ++ (c.temp_array.buffered ++ xs) := by
  obtain ⟨it,hit,hc⟩ := h.try_iter
  refine ⟨chain c.map.iter it,bind_eq_ok.mpr ⟨it,hit,rfl⟩,?_⟩
  rw [collect_chain,collect_iter,hc]

theorem collector_add_cases [BEq T] [Hashable T] {c c' : Collector T} {key : T} {count : Int}
    {fault : Option Nat} {result : Except IoError Unit}
    (h : c.add key count fault = .ok (result,c')) :
    (c.map.add key count = .ok (c'.map,none) ∧ result = .ok () ∧ c'.temp_array = c.temp_array) ∨
      ∃ evict, c.map.add key count = .ok (c'.map,some evict) ∧
        c.temp_array.push evict fault = (result,c'.temp_array) := by
  obtain ⟨⟨map,evict⟩,hm,hp⟩ := bind_eq_ok.mp h
  cases evict with
  | none =>
    obtain ⟨rfl,rfl⟩ := Prod.mk.inj (pure_eq_ok.mp hp)
    exact .inl ⟨hm,rfl,rfl⟩
  | some evict =>
    obtain ⟨rfl,rfl⟩ := Prod.mk.inj (pure_eq_ok.mp hp)
    exact .inr ⟨evict,hm,rfl⟩

theorem collector_add_of_map [BEq T] [Hashable T] {c : Collector T} {key : T} {count : Int}
    (h : ∃ r, c.map.add key count = .ok r) (fault : Option Nat) :
    ∃ r, c.add key count fault = .ok r := by
  obtain ⟨⟨map,evict⟩,hm⟩ := h
  cases evict <;> exact ⟨_,bind_eq_ok.mpr ⟨_,hm,rfl⟩⟩

end Pprof
