import Pprof.Interleaving
import Pprof.Sessions
import Pprof.SpillFailure
set_option autoImplicit false

/-! What the collector of a profiler holds when its writes may fail. The handler drops the
result of `add`, so that nobody is told of a lost entry; it is the file, short from then on,
that keeps the reports of the session from passing over it. -/

namespace Pprof
open Memory Runs TempFile

section Keeping
variable {F : Type} [Layout (Entry (UnresolvedFrames F))] [Target] [Frame F] [DefaultHasher]

theorem spillFails_none (profiler : Except Error (Profiler F)) (at_ : Interrupted F) :
    spillFails profiler at_ none = false := by
  cases profiler with
  | error err => rfl
  | ok p =>
    simp only [spillFails,List.any_eq_false,Profiler.addFails]
    intro frames _
    cases hadd : p.data.add frames 1 none with
    | error panic => simp [Except.toOption]
    | ok r =>
      obtain ⟨r,data⟩ := r
      obtain rfl := collector_add_none hadd
      simp [Except.toOption,Except.toBool]

theorem spillFails_of_not_taken {profiler : Except Error (Profiler F)} {at_ : Interrupted F}
    (h : taken profiler at_ = []) (fault : Option Nat) : spillFails profiler at_ fault = false := by
  cases profiler with
  | error err => rfl
  | ok p => simp [spillFails,h]

/-- The collector holds the samples, or its file is behind for good. -/
structure Profiler.Keeps (p : Profiler F) (samples : List (UnresolvedFrames F)) (lost : Bool) :
    Prop where
  holding : lost = false → Holding p samples
  short : lost = true → p.data.temp_array.Short

theorem Holding.keeps {p : Profiler F} {samples : List (UnresolvedFrames F)}
    (h : Holding p samples) : p.Keeps samples false := ⟨fun _ => h,nofun⟩

theorem sample_spill {p p' : Profiler F} {samples : List (UnresolvedFrames F)} {lost : Bool}
    (h : p.Keeps samples lost) {backtrace : List F} {thread_name : List UInt8}
    {thread_id : UInt64} {sample_timestamp : SystemTime} {u : UnresolvedFrames F}
    (hu : UnresolvedFrames.new backtrace thread_name thread_id sample_timestamp = .ok u)
    {fault : Option Nat}
    (hs : p.sample backtrace thread_name thread_id sample_timestamp fault = .ok p') :
    p'.Keeps (samples ++ [u]) (lost || p.addFails u fault) := by
  obtain ⟨v,hv,hs⟩ := bind_eq_ok.mp hs
  rw [hu] at hv
  cases hv
  obtain ⟨n,hn,hs⟩ := bind_eq_ok.mp hs
  obtain ⟨⟨r,data⟩,hadd,hs⟩ := bind_eq_ok.mp hs
  obtain rfl := pure_eq_ok.mp hs
  simp only [Profiler.addFails,hadd,Except.toOption,Option.any_some]
  cases lost with
  | true => exact ⟨by simp,fun _ => short_add (h.short rfl) hadd⟩
  | false =>
    have hh := h.holding rfl
    cases r with
    | error err =>
      obtain ⟨xs,hxs,-⟩ := hh.data.spilled
      exact ⟨by simp [Except.toBool],fun _ => failed_add_short (.inl ⟨xs,hxs⟩) hadd⟩
    | ok =>
      have hrange : InI32 (p.sample_counter+1) := by
        by_contra hc
        rw [addI32,if_neg hc] at hn
        cases hn
      rw [addI32,if_pos hrange,hh.sample_counter] at hn
      cases hn
      rw [hh.sample_counter] at hrange
      have hdata := hh.data.add hadd
      rw [history_snoc] at hdata
      refine ⟨fun _ => ⟨hdata,by simp,?_⟩,by simp [Except.toBool]⟩
      simp only [InI32,List.length_append,List.length_singleton] at hrange ⊢
      omega

theorem handler_spill {p : Profiler F} {samples : List (UnresolvedFrames F)} {lost : Bool}
    (h : p.Keeps samples lost) {at_ : Interrupted F} {fault : Option Nat}
    {profiler : Except Error (Profiler F)}
    (hh : perf_signal_handler (.ok p) at_ fault = .ok profiler) :
    ∃ p', profiler = .ok p' ∧ p'.running = p.running ∧
      p'.Keeps (samples ++ taken (.ok p) at_) (lost || spillFails (.ok p) at_ fault) := by
  obtain ⟨p',rfl,hrun,-⟩ := handler_keeps hh
  refine ⟨p',rfl,hrun,?_⟩
  unfold perf_signal_handler at hh
  unfold spillFails taken
  by_cases hb : at_.addr.any p.is_blocklisted
  · simp only [hb,if_true] at hh ⊢
    cases hh
    simpa using h
  · simp only [hb] at hh ⊢
    obtain ⟨q,hs,hp⟩ := bind_eq_ok.mp hh
    cases pure_eq_ok.mp hp
    obtain ⟨u,hu,-⟩ := bind_eq_ok.mp hs
    have hk := sample_spill h hu hs
    simp only [hu]
    simpa using hk

theorem Profiler.Keeps.of_data {p q : Profiler F} {samples : List (UnresolvedFrames F)}
    {lost : Bool} (h : p.Keeps samples lost) (hd : q.data = p.data)
    (hc : q.sample_counter = p.sample_counter) : q.Keeps samples lost := by
  refine ⟨fun hl => ?_,fun hl => ?_⟩
  · have hh := h.holding hl
    exact ⟨hd ▸ hh.data,hc.trans hh.sample_counter,hh.fits⟩
  · rw [hd]
    exact h.short hl

theorem Profiler.Keeps.unreadable {p : Profiler F} {samples : List (UnresolvedFrames F)}
    {lost : Bool} (h : p.Keeps samples lost) {fault : Option ReadFault}
    (hf : lost = true ∨ fault ≠ none) : ∃ err, p.data.try_iter fault = .error err := by
  cases fault with
  | none => exact ⟨_,short_try_iter (h.short (hf.resolve_right (by simp)))⟩
  | some fault =>
    cases ht : p.data.try_iter (some fault) with
    | error err => exact ⟨err,rfl⟩
    | ok it =>
      obtain ⟨temp,ht,-⟩ := bind_eq_ok.mp ht
      obtain ⟨file,ho,ht⟩ := bind_eq_ok.mp ht
      obtain ⟨⟨bytes,file'⟩,hr,ht⟩ := bind_eq_ok.mp ht
      obtain ⟨file'',hs,-⟩ := bind_eq_ok.mp ht
      cases fault <;>
        simp [NamedTempFile.reopen,File.read_exact,File.seek_end] at ho hr hs

variable {σ : Type} [Resolver]

theorem Profiler.Keeps.refused {p : Profiler F} {samples : List (UnresolvedFrames F)}
    {lost : Bool} (h : p.Keeps samples lost) {b : ReportBuilder F σ} (hb : b.profiler = .ok p)
    {fault : Option ReadFault} (hf : lost = true ∨ fault ≠ none) :
    (∃ err, b.build_unresolved fault = .ok (.error (.IoError err))) ∧
      ∀ s, ∃ err, b.build s fault = .ok (.error (.IoError err)) := by
  obtain ⟨err,he⟩ := h.unreadable hf
  exact ⟨⟨err,by simp only [ReportBuilder.build_unresolved,hb,he]⟩,
    fun s => ⟨err,by simp only [ReportBuilder.build,hb,he]⟩⟩

end Keeping

end Pprof
