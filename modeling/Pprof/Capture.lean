import Pprof.FramePointer
import Pprof.Profiler
set_option autoImplicit false

/-! What a handler run records of the interrupted stack: a prefix of bounded length, whatever
the unwinder offers and however long it would go on. -/

namespace Pprof
open Memory Visiting

section Closure
variable {F : Type} [Layout (Entry (UnresolvedFrames F))] [Target] [Frame F]

/-- The frames that the blocklist lets through, which it does not stop without the feature. -/
def Profiler.admits (p : Profiler F) (frame : F) : Bool :=
  !(Target.frame_pointer && p.is_blocklisted (ip frame))

/-- The closure that the handler passes to `trace`, over the buffer and the index. -/
def Profiler.callback (p : Profiler F) (frame : F) (c : List F × Nat) : Bool × List F × Nat :=
  if Target.frame_pointer && p.is_blocklisted (ip frame) then (false,c)
  else if c.2 < MAX_DEPTH then (true,c.1 ++ [frame],c.2+1)
  else (false,c)

theorem feed_callback (p : Profiler F) (frames bt : List F) (index : Nat) :
    (feed p.callback frames (bt,index)).1 =
      (bt ++ p.capture index frames,index+(p.capture index frames).length) := by
  induction frames generalizing bt index with
  | nil => simp [feed,Profiler.capture]
  | cons frame frames ih =>
    by_cases hb : Target.frame_pointer && p.is_blocklisted (ip frame)
    · simp [feed,Profiler.callback,Profiler.capture,hb]
    · by_cases hi : index < MAX_DEPTH
      · have hih := ih (bt ++ [frame]) (index+1)
        simp only [feed,Profiler.callback,Profiler.capture,if_neg hb,if_pos hi,hih,
          List.append_assoc,List.singleton_append,List.length_cons]
        congr 1
        omega
      · simp [feed,Profiler.callback,Profiler.capture,hb,hi]

theorem capture_eq (p : Profiler F) (frames : List F) (index : Nat) :
    p.capture index frames = (frames.takeWhile p.admits).take (MAX_DEPTH-index) := by
  induction frames generalizing index with
  | nil => simp [Profiler.capture]
  | cons frame frames ih =>
    by_cases hb : Target.frame_pointer && p.is_blocklisted (ip frame)
    · simp [Profiler.capture,Profiler.admits,hb]
    · by_cases hi : index < MAX_DEPTH
      · have hsub : MAX_DEPTH-index = MAX_DEPTH-(index+1)+1 := by omega
        have hadmit : p.admits frame = true := by
          rw [Profiler.admits,Bool.eq_false_iff.mpr hb]
          rfl
        rw [Profiler.capture,if_neg hb,if_pos hi,ih,List.takeWhile_cons_of_pos hadmit,hsub,
          List.take_succ_cons]
      · have hsub : MAX_DEPTH-index = 0 := by omega
        simp [Profiler.capture,hb,hi,hsub]

def room (c : List F × Nat) : Nat := MAX_DEPTH-c.2

theorem callback_accepts {p : Profiler F} {frame : F} {c : List F × Nat}
    (h : (p.callback frame c).1 = true) : room (p.callback frame c).2 < room c := by
  unfold room
  by_cases hb : Target.frame_pointer && p.is_blocklisted (ip frame)
  · simp [Profiler.callback,hb] at h
  · by_cases hi : c.2 < MAX_DEPTH
    · simp only [Profiler.callback,if_neg hb,if_pos hi]
      omega
    · simp [Profiler.callback,hb,hi] at h

theorem visit_callback {σ : Type} (p : Profiler F) (next : σ → Option (F × σ)) (s : σ) :
    ∃ bt calls, visit next p.callback (MAX_DEPTH+1) s ([],0) = some ((bt,bt.length),calls) ∧
      calls ≤ MAX_DEPTH+1 ∧ ∀ k, p.capture 0 (offered next (MAX_DEPTH+1+k) s) = bt := by
  have hends : ∃ r, visit next p.callback (MAX_DEPTH+1) s ([],0) = some r ∧
      r.2 ≤ room (([],0) : List F × Nat)+1 :=
    visit_ends (fun _ _ => callback_accepts) (Nat.lt_succ_self MAX_DEPTH)
  obtain ⟨⟨c,calls⟩,hv,hcalls⟩ := hends
  have hend : ∀ k, (p.capture 0 (offered next (MAX_DEPTH+1+k) s),
      (p.capture 0 (offered next (MAX_DEPTH+1+k) s)).length) = c := by
    intro k
    have hc := feed_callback p (offered next (MAX_DEPTH+1+k) s) [] 0
    rw [visit_eq_feed hv (by omega)] at hc
    simpa using hc.symm
  refine ⟨c.1,calls,?_,hcalls,fun k => congrArg Prod.fst (hend k)⟩
  rw [hv,← hend 0]

end Closure

section Bounded
variable {F : Type} [Layout (Entry (UnresolvedFrames F))] [Target] [Frame F] [DefaultHasher]
variable [Layout (Entry (UnresolvedFrames IpFrame))] [Symbolizer]

/-- Of any unwinder the handler records the frames before the first that is blocklisted, as
many as there is room for, and declines at the latest the one after. So the walk along the
frame pointers ends in any memory, and dereferences only what it has validated. -/
theorem backtrace_bounded {σ : Type} (p : Profiler F) (next : σ → Option (F × σ)) (s : σ)
    (q : Profiler IpFrame) (m : Surroundings) (ucontext : Option UContext) :
    (∃ bt calls, visit next p.callback (MAX_DEPTH+1) s ([],0) = some ((bt,bt.length),calls) ∧
      calls ≤ MAX_DEPTH+1 ∧ bt.length ≤ MAX_DEPTH ∧
      ∀ k, bt = ((offered next (MAX_DEPTH+1+k) s).takeWhile p.admits).take MAX_DEPTH ∧
        ∀ (at_ : Interrupted F) (fault : Option Nat),
          perf_signal_handler (.ok p)
            { at_ with trace := offered next (MAX_DEPTH+1+k) s } fault =
            if at_.addr.any p.is_blocklisted then .ok (.ok p)
            else do
              let p ← p.sample bt at_.thread_name at_.thread_id at_.sample_timestamp fault
              pure (.ok p)) ∧
      ∃ bt walk, m.trace q.callback (MAX_DEPTH+1) ucontext ([],0) = some ((bt,bt.length),walk) ∧
        ∀ it ∈ walk, ∀ ptr ∈ it.dereferenced, m.validate it.number ptr = true := by
  constructor
  · obtain ⟨bt,calls,hv,hcalls,hcapture⟩ := visit_callback p next s
    have hbt : ∀ k, bt =
        ((offered next (MAX_DEPTH+1+k) s).takeWhile p.admits).take MAX_DEPTH := by
      intro k
      rw [← hcapture k,capture_eq]
      rfl
    have hlen : bt.length ≤ MAX_DEPTH := by
      rw [hbt 0,List.length_take]
      omega
    refine ⟨bt,calls,hv,hcalls,hlen,fun k => ⟨hbt k,fun at_ fault => ?_⟩⟩
    simp only [perf_signal_handler,hcapture k]
  · cases ucontext with
    | none => exact ⟨[],[],rfl,by simp⟩
    | some ucontext =>
      obtain ⟨bt,calls,hv,-⟩ := visit_callback q m.next (0,ucontext.frame_pointer,0)
      have hloop : (m.loop q.callback (MAX_DEPTH+1) 0 ucontext.frame_pointer 0 ([],0)).map
          Prod.fst = some (bt,bt.length) := by
        rw [loop_visit,hv]
        rfl
      obtain ⟨r,hr,hrbt⟩ := Option.map_eq_some_iff.mp hloop
      refine ⟨bt,r.2,?_,loop_validated hr⟩
      rw [Surroundings.trace,hr,← hrbt]

end Bounded

end Pprof
