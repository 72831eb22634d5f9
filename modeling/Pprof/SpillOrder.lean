import Pprof.Lib.Runs
import Pprof.TempFdArray
set_option autoImplicit false

/-! The order in which a `TempFdArray` gives its elements back: the block that is still in the
buffer comes first, and then the blocks in the file as they were flushed. -/

namespace Pprof
open Iteration Memory Runs TempFile

section Pushes
variable {T : Type} [Layout T] [Target]

def TempFdArray.pushStep (a : TempFdArray T) (call : T × Option Nat) : Option (TempFdArray T) :=
  match a.push call.1 call.2 with
  | (.ok (),a) => some a
  | (.error _,_) => none

/-- The flushes among `n` pushes. The buffer is flushed by the push after the one that fills it. -/
def flushes (n : Nat) : Nat := if n = 0 then 0 else (n+BUFFER_LENGTH-1)/BUFFER_LENGTH-1

theorem flushes_eq {n m i : Nat} (h : n = BUFFER_LENGTH*m+i) (hi : i ≤ BUFFER_LENGTH)
    (hlazy : n ≠ 0 → 0 < i) : flushes n = m := by
  have hB := BUFFER_LENGTH_pos
  by_cases hn : n = 0
  · have hm : BUFFER_LENGTH*m = 0 := by omega
    rw [flushes,if_pos hn]
    exact ((Nat.mul_eq_zero.mp hm).resolve_left (Nat.ne_of_gt hB)).symm
  · have hpos := hlazy hn
    have hdiv : (n+BUFFER_LENGTH-1)/BUFFER_LENGTH = m+1 := by
      apply Nat.div_eq_of_lt_le
      · rw [Nat.add_mul,Nat.mul_comm m]
        omega
      · rw [Nat.add_mul,Nat.add_mul,Nat.mul_comm m]
        omega
    rw [flushes,if_neg hn,hdiv]
    rfl

/-- The elements pushed so far are those in the file and then those in the buffer, which is
not left empty by a push. -/
structure TempFdArray.Pushed (a : TempFdArray T) (xs : List T) : Prop where
  holds : a.Holds (xs.take (BUFFER_LENGTH*a.flush_n))
  buffered : a.buffered = xs.drop (BUFFER_LENGTH*a.flush_n)
  stored : xs ≠ [] → a.buffered ≠ []

theorem TempFdArray.Holds.pushed {a : TempFdArray T} {ys : List T} (h : a.Holds ys)
    (hs : ys ++ a.buffered ≠ [] → a.buffered ≠ []) : a.Pushed (ys ++ a.buffered) := by
  refine ⟨?_,?_,hs⟩
  · rw [← h.length,List.take_left]
    exact h
  · rw [← h.length,List.drop_left]

theorem pushed_new [Inhabited T] {fails : Bool} {a : TempFdArray T}
    (h : TempFdArray.new fails = .ok a) : a.Pushed [] := by
  cases fails with
  | true => cases h
  | false =>
    cases h
    refine ⟨⟨rfl,by simp,by simp⟩,?_,fun h => absurd rfl h⟩
    simp [TempFdArray.buffered]

theorem TempFdArray.Pushed.push {a a' : TempFdArray T} {xs : List T} (h : a.Pushed xs)
    {call : T × Option Nat} (hs : a.pushStep call = some a') : a'.Pushed (xs ++ [call.1]) := by
  have hp : a.push call.1 call.2 = (.ok (),a') := by
    unfold TempFdArray.pushStep at hs
    split at hs
    · cases hs
      assumption
    · cases hs
  have hxs : xs = xs.take (BUFFER_LENGTH*a.flush_n) ++ a.buffered := by
    rw [h.buffered,List.take_append_drop]
  rcases h.holds.push_ok hp with ⟨hh,hb⟩ | ⟨hh,hb⟩
  · have hall : xs ++ [call.1] = xs.take (BUFFER_LENGTH*a.flush_n) ++ a'.buffered := by
      rw [hb,← List.append_assoc,← hxs]
    rw [hall]
    exact hh.pushed (by simp [hb])
  · rw [← hxs] at hh
    rw [← hb]
    exact hh.pushed (by simp [hb])

theorem pushed_run {a a' : TempFdArray T} {xs : List T} (h : a.Pushed xs)
    {calls : List (T × Option Nat)} (hr : run TempFdArray.pushStep a calls = some a') :
    a'.Pushed (xs ++ calls.map Prod.fst) := by
  induction calls generalizing a xs with
  | nil =>
    cases hr
    simpa using h
  | cons call calls ih =>
    obtain ⟨b,hb,hrest⟩ := run_cons_eq_some hr
    have hi := ih (h.push hb) hrest
    rwa [List.append_assoc] at hi

theorem TempFdArray.Pushed.flush_n {a : TempFdArray T} {xs : List T} (h : a.Pushed xs) :
    a.flush_n = flushes xs.length := by
  have hfile := h.holds.length
  have hbuffer := buffered_length a
  have hi := a.buffer_index_le
  rw [List.length_take] at hfile
  rw [h.buffered,List.length_drop] at hbuffer
  symm
  refine flushes_eq (i := a.buffer_index) (by omega) hi fun hn => ?_
  rw [← buffered_length]
  exact List.length_pos_iff.mpr (h.stored (List.length_pos_iff.mp (by omega)))

theorem try_iter_of_fault {a : TempFdArray T} {fault : Option ReadFault}
    {it : TempFdArrayIterator T} (h : a.try_iter fault = .ok it) : a.try_iter none = .ok it := by
  obtain ⟨file,hreopen,h⟩ := bind_eq_ok.mp h
  obtain ⟨⟨file_vec,file'⟩,hread,h⟩ := bind_eq_ok.mp h
  obtain ⟨file'',hseek,h⟩ := bind_eq_ok.mp h
  exact bind_eq_ok.mpr ⟨file,reopen_of_fault hreopen,
    bind_eq_ok.mpr ⟨(file_vec,file'),read_exact_of_fault hread,
      bind_eq_ok.mpr ⟨file'',seek_end_of_fault hseek,h⟩⟩⟩

theorem TempFdArray.Pushed.try_iter {a : TempFdArray T} {xs : List T} (h : a.Pushed xs)
    {fault : Option ReadFault} {it : TempFdArrayIterator T} (hit : a.try_iter fault = .ok it) :
    collect it = xs.drop (BUFFER_LENGTH*a.flush_n) ++ xs.take (BUFFER_LENGTH*a.flush_n) := by
  obtain ⟨it',hit',hc⟩ := h.holds.try_iter
  rw [try_iter_of_fault hit] at hit'
  cases hit'
  rw [hc,h.buffered]

/-- After any number of pushes each element comes back once, those in the buffer first and
those in the file after them, and then nothing more. -/
theorem pushes_come_back [Inhabited T] {fails : Bool} {a₀ a : TempFdArray T}
    (hnew : TempFdArray.new fails = .ok a₀) {calls : List (T × Option Nat)}
    (hrun : run TempFdArray.pushStep a₀ calls = some a) :
    a.flush_n = flushes calls.length ∧ (∃ it, a.try_iter none = .ok it) ∧
    ∀ fault it, a.try_iter fault = .ok it →
      collect it = (calls.map Prod.fst).drop (BUFFER_LENGTH*flushes calls.length) ++
        (calls.map Prod.fst).take (BUFFER_LENGTH*flushes calls.length) ∧
      (collect it).length = calls.length ∧ ∀ i, answer i it = (collect it)[i]? := by
  have h : a.Pushed (calls.map Prod.fst) := pushed_run (pushed_new hnew) hrun
  have hflush : a.flush_n = flushes calls.length := by
    rw [h.flush_n,List.length_map]
  obtain ⟨it,hit,-⟩ := h.holds.try_iter
  refine ⟨hflush,⟨it,hit⟩,fun fault it hit => ?_⟩
  have hc := h.try_iter hit
  rw [hflush] at hc
  refine ⟨hc,?_,fun i => answer_eq i it⟩
  rw [hc,List.length_append,List.length_drop,List.length_take,List.length_map]
  omega

end Pushes

@[reducible] def smallTarget : Target := ⟨128,2,false,Nat.succ_pos 1⟩

theorem flushes_small : @flushes smallTarget 5 = 2 := rfl

theorem pushes_come_back_five :
    letI := smallTarget
    letI := indexedLayout Nat 8 (Nat.succ_pos 7)
    ∃ (a₀ a : TempFdArray Nat) (it : TempFdArrayIterator Nat),
      TempFdArray.new false = .ok a₀ ∧
      run TempFdArray.pushStep a₀ [(10,none),(20,none),(30,some 16),(40,none),(50,none)] = some a ∧
      a.flush_n = 2 ∧ a.try_iter none = .ok it ∧ collect it = [50,10,20,30,40] ∧
      answer 5 it = none := by
  let _ := smallTarget
  let _ := indexedLayout Nat 8 (Nat.succ_pos 7)
  obtain ⟨a₀,hnew⟩ : ∃ a₀ : TempFdArray Nat, TempFdArray.new false = .ok a₀ := ⟨_,rfl⟩
  obtain ⟨a,hrun⟩ : ∃ a, run TempFdArray.pushStep a₀
      [(10,none),(20,none),(30,some 16),(40,none),(50,none)] = some a := by
    cases hnew
    exact ⟨_,rfl⟩
  obtain ⟨hflush,⟨it,hit⟩,hback⟩ := pushes_come_back hnew hrun
  obtain ⟨hc,-,hanswer⟩ := hback none it hit
  rw [← hflush,hflush.trans flushes_small] at hc
  have hfive : collect it = [50,10,20,30,40] := hc
  refine ⟨a₀,a,it,hnew,hrun,hflush.trans flushes_small,hit,hfive,?_⟩
  rw [hanswer,hfive]
  rfl

end Pprof
