import Pprof.Lib.Iter
import Pprof.Lib.Layout
import Pprof.Machine
set_option autoImplicit false

/-! `TempFdArray` of `collector.rs`: a buffer of `BUFFER_LENGTH` elements that is
appended to a temporary file as raw memory when an element finds it full. -/

namespace Pprof
open Iteration TempFile Memory

variable {T : Type} [Layout T]

structure TempFdArrayIterator (T : Type) [Layout T] where
  buffer : List T
  file_vec : List (Layout.Byte T)
  index : Nat

def TempFdArrayIterator.next (it : TempFdArrayIterator T) : Option (T × TempFdArrayIterator T) :=
  if h : it.index < it.buffer.length then
    some (it.buffer.get ⟨it.index,h⟩,{ it with index := it.index+1 })
  else
    let ts := slice it.file_vec
    if h : it.index-it.buffer.length < ts.length then
      some (ts.get ⟨it.index-it.buffer.length,h⟩,{ it with index := it.index+1 })
    else none

instance : Iter (TempFdArrayIterator T) T where
  next := TempFdArrayIterator.next
  remaining it := it.buffer.length+(slice it.file_vec).length-it.index
  next_remaining it x it' h := by
    unfold TempFdArrayIterator.next at h
    split at h
    · cases h
      simp only
      omega
    · simp only at h
      split at h <;> cases h
      simp only
      omega

theorem collect_temp (buffer : List T) (file_vec : List (Layout.Byte T)) (i : Nat) :
    collect (⟨buffer,file_vec,i⟩ : TempFdArrayIterator T) =
      (buffer ++ slice file_vec).drop i := by
  generalize hn : buffer.length+(slice file_vec).length-i = n
  induction n generalizing i with
  | zero =>
    have h₁ : ¬ i < buffer.length := by omega
    have h₂ : ¬ i-buffer.length < (slice file_vec).length := by omega
    have hx : Iter.next (⟨buffer,file_vec,i⟩ : TempFdArrayIterator T) = none := by
      simp [Iter.next,TempFdArrayIterator.next,h₁,h₂]
    rw [collect_none hx,List.drop_of_length_le (by rw [List.length_append]; omega)]
  | succ n ih =>
    have hl : i < (buffer ++ slice file_vec).length := by rw [List.length_append]; omega
    have hx : Iter.next (⟨buffer,file_vec,i⟩ : TempFdArrayIterator T) =
        some ((buffer ++ slice file_vec)[i],⟨buffer,file_vec,i+1⟩) := by
      by_cases h₁ : i < buffer.length
      · simp [Iter.next,TempFdArrayIterator.next,h₁]
      · have h₂ : i-buffer.length < (slice file_vec).length := by omega
        rw [List.getElem_append_right (by omega)]
        simp [Iter.next,TempFdArrayIterator.next,h₁,h₂]
    rw [collect_some hx,ih (i+1) (by omega),← List.drop_eq_getElem_cons hl]

variable [Target]

structure TempFdArray (T : Type) [Layout T] [Target] where
  file : NamedTempFile (Layout.Byte T)
  buffer : Vector T BUFFER_LENGTH
  buffer_index : Nat
  flush_n : Nat
  buffer_index_le : buffer_index ≤ BUFFER_LENGTH

def TempFdArray.new [Inhabited T] (fails : Bool) : Except IoError (TempFdArray T) := do
  let file ← NamedTempFile.new fails
  pure ⟨file,Vector.replicate BUFFER_LENGTH default,0,0,Nat.zero_le _⟩

/-- The index and the counter are updated before the write that can fail. -/
def TempFdArray.flush_buffer (a : TempFdArray T) (fault : Option Nat) :
    Except IoError Unit × TempFdArray T :=
  let buf := a.buffer.toList.flatMap toBytes
  let (result,file) := a.file.write_all buf fault
  (result,⟨file,a.buffer,0,a.flush_n+1,Nat.zero_le _⟩)

def TempFdArray.store (a : TempFdArray T) (entry : T) (h : a.buffer_index < BUFFER_LENGTH) :
    TempFdArray T :=
  ⟨a.file,a.buffer.set a.buffer_index entry h,a.buffer_index+1,a.flush_n,h⟩

theorem flush_buffer_index (a : TempFdArray T) (fault : Option Nat) :
    (a.flush_buffer fault).2.buffer_index < BUFFER_LENGTH := BUFFER_LENGTH_pos

def TempFdArray.push (a : TempFdArray T) (entry : T) (fault : Option Nat) :
    Except IoError Unit × TempFdArray T :=
  if h : a.buffer_index < BUFFER_LENGTH then (.ok (),a.store entry h)
  else
    match (a.flush_buffer fault).1 with
    | .error err => (.error err,(a.flush_buffer fault).2)
    | .ok () => (.ok (),(a.flush_buffer fault).2.store entry (flush_buffer_index a fault))

def TempFdArray.try_iter (a : TempFdArray T) (fault : Option ReadFault) :
    Except IoError (TempFdArrayIterator T) := do
  let size := BUFFER_LENGTH*a.flush_n*size_of T
  let file ← a.file.reopen fault
  let (file_vec,file) ← file.read_exact size fault
  let _ ← file.seek_end fault
  pure ⟨a.buffer.toList.take a.buffer_index,file_vec,0⟩

def TempFdArray.buffered (a : TempFdArray T) : List T := a.buffer.toList.take a.buffer_index

/-- The file holds the bytes of `xs`, all the blocks flushed so far, and nothing else. -/
structure TempFdArray.Holds (a : TempFdArray T) (xs : List T) : Prop where
  appending : a.file.Appending
  content : a.file.content = xs.flatMap toBytes
  length : xs.length = BUFFER_LENGTH*a.flush_n

/-- The file is shorter than the blocks that `flush_n` counts. -/
structure TempFdArray.Short (a : TempFdArray T) : Prop where
  appending : a.file.Appending
  content : a.file.content.length < BUFFER_LENGTH*a.flush_n*size_of T

theorem buffered_length (a : TempFdArray T) : a.buffered.length = a.buffer_index := by
  have hi := a.buffer_index_le
  simp [TempFdArray.buffered]
  omega

theorem buffered_store (a : TempFdArray T) (entry : T) (h : a.buffer_index < BUFFER_LENGTH) :
    (a.store entry h).buffered = a.buffered ++ [entry] := by
  simp only [TempFdArray.buffered,TempFdArray.store,Vector.toList_set]
  rw [List.take_add_one,List.take_set_of_le (Nat.le_refl _)]
  simp [h]

theorem buffered_full {a : TempFdArray T} (h : ¬ a.buffer_index < BUFFER_LENGTH) :
    a.buffered = a.buffer.toList := by
  apply List.take_of_length_le
  simp
  omega

theorem length_buffer_bytes (a : TempFdArray T) :
    (a.buffer.toList.flatMap toBytes).length = BUFFER_LENGTH*size_of T := by
  rw [length_flatMap_toBytes]
  simp

theorem push_room {a : TempFdArray T} (entry : T) (fault : Option Nat)
    (h : a.buffer_index < BUFFER_LENGTH) : a.push entry fault = (.ok (),a.store entry h) :=
  dif_pos h

theorem TempFdArray.Holds.flush_ok {a : TempFdArray T} {xs : List T} (h : a.Holds xs)
    (hfull : ¬ a.buffer_index < BUFFER_LENGTH) {fault : Option Nat}
    (hf : (a.flush_buffer fault).1 = .ok ()) :
    (a.flush_buffer fault).2.Holds (xs ++ a.buffered) := by
  obtain ⟨happ,hc⟩ := Appending.write_all_ok h.appending (Prod.ext hf rfl)
  refine ⟨happ,?_,?_⟩
  · exact hc.trans (by rw [h.content,List.flatMap_append,buffered_full hfull])
  · have hi := a.buffer_index_le
    simp only [TempFdArray.flush_buffer,List.length_append,buffered_length,h.length,Nat.mul_add]
    omega

theorem TempFdArray.Holds.push_ok {a a' : TempFdArray T} {xs : List T} (h : a.Holds xs) {entry : T}
    {fault : Option Nat} (hp : a.push entry fault = (.ok (),a')) :
    (a'.Holds xs ∧ a'.buffered = a.buffered ++ [entry]) ∨
      (a'.Holds (xs ++ a.buffered) ∧ a'.buffered = [entry]) := by
  by_cases hroom : a.buffer_index < BUFFER_LENGTH
  · rw [push_room entry fault hroom] at hp
    cases hp
    exact .inl ⟨⟨h.appending,h.content,h.length⟩,buffered_store a entry hroom⟩
  · cases hf : (a.flush_buffer fault).1 with
    | error err => simp [TempFdArray.push,hroom,hf] at hp
    | ok u =>
      have hh := h.flush_ok hroom hf
      simp only [TempFdArray.push,hroom,hf,dif_neg,not_false_eq_true] at hp
      cases hp
      refine .inr ⟨⟨hh.appending,hh.content,hh.length⟩,?_⟩
      rw [buffered_store]
      rfl

theorem TempFdArray.Holds.push_error {a a' : TempFdArray T} {xs : List T} (h : a.Holds xs)
    {entry : T} {fault : Option Nat} {err : IoError} (hp : a.push entry fault = (.error err,a')) :
    a'.Short := by
  by_cases hroom : a.buffer_index < BUFFER_LENGTH
  · rw [push_room entry fault hroom] at hp
    cases hp
  · cases hf : (a.flush_buffer fault).1 with
    | ok u => simp [TempFdArray.push,hroom,hf] at hp
    | error e =>
      simp only [TempFdArray.push,hroom,hf,dif_neg,not_false_eq_true] at hp
      cases hp
      obtain ⟨happ,hc⟩ := Appending.write_all_error h.appending (Prod.ext hf rfl)
      refine ⟨happ,?_⟩
      rw [length_buffer_bytes,h.content,length_flatMap_toBytes,h.length,← Nat.add_mul] at hc
      exact hc

/-- Once behind, the file stays behind: a flush writes one block at most and counts one. -/
theorem TempFdArray.Short.push {a a' : TempFdArray T} (h : a.Short) {entry : T}
    {fault : Option Nat} {r : Except IoError Unit} (hp : a.push entry fault = (r,a')) :
    a'.Short := by
  by_cases hroom : a.buffer_index < BUFFER_LENGTH
  · rw [push_room entry fault hroom] at hp
    cases hp
    exact ⟨h.appending,h.content⟩
  · have hflush : (a.flush_buffer fault).2.Short := by
      have hw : a.file.write_all (a.buffer.toList.flatMap toBytes) fault =
        ((a.flush_buffer fault).1,(a.flush_buffer fault).2.file) := rfl
      obtain ⟨happ,hc⟩ := Appending.write_all_le h.appending hw
      refine ⟨happ,?_⟩
      have hs := h.content
      rw [length_buffer_bytes] at hc
      have hm : BUFFER_LENGTH*(a.flush_n+1)*size_of T =
          BUFFER_LENGTH*a.flush_n*size_of T+BUFFER_LENGTH*size_of T := by
        rw [Nat.mul_add,Nat.add_mul,Nat.mul_one]
      change _ < BUFFER_LENGTH*(a.flush_n+1)*size_of T
      omega
    cases hf : (a.flush_buffer fault).1 with
    | ok u =>
      simp only [TempFdArray.push,hroom,hf,dif_neg,not_false_eq_true] at hp
      cases hp
      exact ⟨hflush.appending,hflush.content⟩
    | error e =>
      simp only [TempFdArray.push,hroom,hf,dif_neg,not_false_eq_true] at hp
      cases hp
      exact hflush

theorem push_none (a : TempFdArray T) (entry : T) : ∃ a', a.push entry none = (.ok (),a') := by
  by_cases hroom : a.buffer_index < BUFFER_LENGTH
  · exact ⟨_,push_room entry none hroom⟩
  · exact ⟨_,dif_neg hroom⟩

theorem TempFdArray.Holds.try_iter {a : TempFdArray T} {xs : List T} (h : a.Holds xs) :
    ∃ it, a.try_iter none = .ok it ∧ collect it = a.buffered ++ xs := by
  have hlen : a.file.content.length = BUFFER_LENGTH*a.flush_n*size_of T := by
    rw [h.content,length_flatMap_toBytes,h.length]
  refine ⟨⟨a.buffered,a.file.content,0⟩,?_,?_⟩
  · simp [TempFdArray.try_iter,NamedTempFile.reopen,File.read_exact,File.seek_end,
      TempFdArray.buffered,← hlen,bind,Except.bind,pure,Except.pure]
  · rw [collect_temp,h.content,slice_flatMap_toBytes,List.drop_zero]

theorem TempFdArray.Short.try_iter {a : TempFdArray T} (h : a.Short) :
    a.try_iter none = .error .unexpectedEof := by
  have hc := h.content
  have hn : ¬ BUFFER_LENGTH*a.flush_n*size_of T ≤ a.file.content.length := by omega
  simp [TempFdArray.try_iter,NamedTempFile.reopen,File.read_exact,hn,bind,Except.bind]

end Pprof
