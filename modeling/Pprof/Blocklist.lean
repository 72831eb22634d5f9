import Mathlib.Data.List.Infix
import Pprof.ProfilerGuard
set_option autoImplicit false

/-! `ProfilerGuardBuilder::blocklist` of `profiler.rs`: the segments of the libraries that are
not to be sampled, and what becomes of them in the handler. -/

namespace Pprof
open Memory Utf8

structure Segment where
  actual_virtual_memory_address : UInt64
  len : UInt64
  deriving DecidableEq

structure SharedLibrary where
  name : List UInt8
  segments : List Segment
  deriving DecidableEq

def contains (name blocked_name : List Char) : Bool :=
  name.tails.any fun tail => blocked_name.isPrefixOf tail

def in_blocklist (blocklist : List (List Char)) (shlib : SharedLibrary) : Bool :=
  match from_utf8 shlib.name with
  | some name => blocklist.any fun blocked_name => contains name blocked_name
  | none => false

def pushSegment (segments : List (UInt64 × UInt64)) (seg : Segment) :
    Except Panic (List (UInt64 × UInt64)) := do
  let start := seg.actual_virtual_memory_address
  let stop ← addUsize start.toNat seg.len.toNat
  pure (segments ++ [(start,UInt64.ofNat stop)])

/-- `libs` are the libraries that are loaded when it is called. -/
def ProfilerGuardBuilder.blocklist (b : ProfilerGuardBuilder) (libs : List SharedLibrary)
    (blocklist : List (List Char)) : Except Panic ProfilerGuardBuilder := do
  let blocklist_segments ← libs.foldlM (fun segments shlib =>
    if in_blocklist blocklist shlib then shlib.segments.foldlM pushSegment segments
    else pure segments) []
  pure { b with blocklist_segments }

def Segment.Contains (seg : Segment) (addr : UInt64) : Prop :=
  seg.actual_virtual_memory_address.toNat ≤ addr.toNat ∧
    addr.toNat < seg.actual_virtual_memory_address.toNat + seg.len.toNat

def Segment.Inside (seg : Segment) (addr : UInt64) : Prop :=
  seg.Contains addr ∧ seg.actual_virtual_memory_address ≠ addr

def Segment.Fits (seg : Segment) : Prop :=
  seg.actual_virtual_memory_address.toNat + seg.len.toNat < 2^64

def SharedLibrary.Named (shlib : SharedLibrary) (blocklist : List (List Char)) : Prop :=
  ∃ name, from_utf8 shlib.name = some name ∧ ∃ blocked_name ∈ blocklist, blocked_name <:+: name

def Blocked (libs : List SharedLibrary) (blocklist : List (List Char)) (seg : Segment) : Prop :=
  ∃ shlib ∈ libs, shlib.Named blocklist ∧ seg ∈ shlib.segments

theorem contains_iff {name blocked_name : List Char} :
    contains name blocked_name = true ↔ blocked_name <:+: name := by
  simp only [contains,List.any_eq_true,List.mem_tails,List.isPrefixOf_iff_prefix,
    List.infix_iff_prefix_suffix]
  exact exists_congr fun t => and_comm

theorem in_blocklist_iff {blocklist : List (List Char)} {shlib : SharedLibrary} :
    in_blocklist blocklist shlib = true ↔ shlib.Named blocklist := by
  unfold in_blocklist SharedLibrary.Named
  cases from_utf8 shlib.name with
  | none => simp
  | some name => simp [contains_iff]

def Segment.bounds (seg : Segment) : UInt64 × UInt64 :=
  (seg.actual_virtual_memory_address,
    UInt64.ofNat (seg.actual_virtual_memory_address.toNat + seg.len.toNat))

theorem push_fits {seg : Segment} (h : seg.Fits) (segments : List (UInt64 × UInt64)) :
    pushSegment segments seg = .ok (segments ++ [seg.bounds]) := by
  have hadd : addUsize seg.actual_virtual_memory_address.toNat seg.len.toNat =
      .ok (seg.actual_virtual_memory_address.toNat + seg.len.toNat) := if_pos h
  simp only [pushSegment,hadd]
  rfl

theorem push_overflows {seg : Segment} (h : ¬ seg.Fits) (segments : List (UInt64 × UInt64)) :
    pushSegment segments seg = .error .overflow := by
  have hadd : addUsize seg.actual_virtual_memory_address.toNat seg.len.toNat =
      .error .overflow := if_neg h
  simp only [pushSegment,hadd]
  rfl

theorem foldlM_pushes {ε α β : Type} {push : List β → α → Except ε (List β)} {f : α → β}
    {Fits : α → Prop} {err : ε} (hok : ∀ a, Fits a → ∀ bs, push bs a = .ok (bs ++ [f a]))
    (herr : ∀ a, ¬ Fits a → ∀ bs, push bs a = .error err) (l : List α) (bs : List β) :
    ((∀ a ∈ l, Fits a) → l.foldlM push bs = .ok (bs ++ l.map f)) ∧
      (¬ (∀ a ∈ l, Fits a) → l.foldlM push bs = .error err) := by
  induction l generalizing bs with
  | nil => simp [pure,Except.pure]
  | cons a l ih =>
    by_cases ha : Fits a
    · have hl := ih (bs ++ [f a])
      simp only [List.foldlM_cons,hok a ha,bind,Except.bind,List.forall_mem_cons,ha,true_and,
        List.map_cons]
      rw [List.append_assoc] at hl
      exact hl
    · simp [List.foldlM_cons,herr a ha,ha,bind,Except.bind]

def segmentsOf (libs : List SharedLibrary) (blocklist : List (List Char)) : List Segment :=
  (libs.filter (in_blocklist blocklist)).flatMap SharedLibrary.segments

theorem mem_segmentsOf {libs : List SharedLibrary} {blocklist : List (List Char)} {seg : Segment} :
    seg ∈ segmentsOf libs blocklist ↔ Blocked libs blocklist seg := by
  simp only [segmentsOf,Blocked,List.mem_flatMap,List.mem_filter,in_blocklist_iff,and_assoc]

theorem fold_segments (libs : List SharedLibrary) (blocklist : List (List Char))
    (segments : List (UInt64 × UInt64)) :
    libs.foldlM (fun segments shlib =>
        if in_blocklist blocklist shlib then shlib.segments.foldlM pushSegment segments
        else pure segments) segments =
      (segmentsOf libs blocklist).foldlM pushSegment segments := by
  induction libs generalizing segments with
  | nil => rfl
  | cons shlib libs ih =>
    by_cases hb : in_blocklist blocklist shlib
    · simp only [List.foldlM_cons,hb,if_true,segmentsOf,List.filter_cons_of_pos,
        List.flatMap_cons,List.foldlM_append]
      exact congrArg _ (funext fun segments => ih segments)
    · simp only [List.foldlM_cons,hb,segmentsOf,List.filter_cons_of_neg hb]
      exact ih segments

/-- It panics if the end of a segment is out of range. -/
theorem blocklist_eq (b : ProfilerGuardBuilder) (libs : List SharedLibrary)
    (blocklist : List (List Char)) :
    ((∀ seg, Blocked libs blocklist seg → seg.Fits) → b.blocklist libs blocklist =
      .ok { b with blocklist_segments := (segmentsOf libs blocklist).map Segment.bounds }) ∧
    (¬ (∀ seg, Blocked libs blocklist seg → seg.Fits) →
      b.blocklist libs blocklist = .error .overflow) := by
  obtain ⟨hok,herr⟩ := foldlM_pushes (fun _ h => push_fits h)
    (fun _ h => push_overflows h) (segmentsOf libs blocklist) []
  simp only [mem_segmentsOf] at hok herr
  simp only [ProfilerGuardBuilder.blocklist,fold_segments]
  refine ⟨fun h => ?_,fun h => ?_⟩
  · rw [hok h]
    rfl
  · rw [herr h]
    rfl

section Sampling
variable {F : Type} [Layout (Entry (UnresolvedFrames F))] [Target]

/-- The test of the handler leaves the first address of a segment out. -/
theorem is_blocklisted_iff {p : Profiler F} {segs : List Segment}
    (h : p.blocklist_segments = segs.map Segment.bounds) (hfits : ∀ seg ∈ segs, seg.Fits)
    (addr : UInt64) : p.is_blocklisted addr = true ↔ ∃ seg ∈ segs, seg.Inside addr := by
  simp only [Profiler.is_blocklisted,h,List.any_eq_true,List.mem_map,exists_exists_and_eq_and,
    Bool.and_eq_true,decide_eq_true_eq]
  refine exists_congr fun seg => and_congr_right fun hseg => ?_
  have hstop : (seg.bounds.2).toNat =
      seg.actual_virtual_memory_address.toNat + seg.len.toNat :=
    UInt64.toNat_ofNat_of_lt' (hfits seg hseg)
  have hne : seg.actual_virtual_memory_address ≠ addr ↔
      seg.actual_virtual_memory_address.toNat ≠ addr.toNat := not_congr UInt64.toNat_inj.symm
  rw [UInt64.lt_iff_toNat_lt,UInt64.lt_iff_toNat_lt,hstop]
  unfold Segment.Inside Segment.Contains
  rw [hne]
  simp only [Segment.bounds]
  omega

theorem configured_blocks {b b' : ProfilerGuardBuilder} {libs : List SharedLibrary}
    {blocklist : List (List Char)} (hb : b.blocklist libs blocklist = .ok b') (p : Profiler F)
    (addr : UInt64) : (b'.configure p).is_blocklisted addr = true ↔
      ∃ seg, Blocked libs blocklist seg ∧ seg.Inside addr := by
  obtain ⟨hok,herr⟩ := blocklist_eq b libs blocklist
  by_cases hfits : ∀ seg, Blocked libs blocklist seg → seg.Fits
  · rw [hok hfits] at hb
    cases hb
    have hiff := is_blocklisted_iff (p := { b with
      blocklist_segments := (segmentsOf libs blocklist).map Segment.bounds }.configure p) rfl
      (fun seg hseg => hfits seg (mem_segmentsOf.mp hseg)) addr
    simpa only [mem_segmentsOf] using hiff
  · rw [herr hfits] at hb
    cases hb

theorem blocked_not_sampled [Frame F] [DefaultHasher] {b b' : ProfilerGuardBuilder}
    {libs : List SharedLibrary} {blocklist : List (List Char)}
    (hb : b.blocklist libs blocklist = .ok b') {seg : Segment}
    (hseg : Blocked libs blocklist seg) {at_ : Interrupted F} {addr : UInt64}
    (ha : at_.addr = some addr) (hin : seg.Inside addr) (p : Profiler F) (fault : Option Nat) :
    perf_signal_handler (.ok (b'.configure p)) at_ fault = .ok (.ok (b'.configure p)) := by
  have hlisted := (configured_blocks hb p addr).mpr ⟨seg,hseg,hin⟩
  simp [perf_signal_handler,ha,hlisted]

/-- The blocklist that the builder computes is that of the libraries just if the ends of their
segments are in range and the address is not the first of a segment, unless it lies further
on in another one. -/
theorem blocklist_covers_iff (b : ProfilerGuardBuilder) (libs : List SharedLibrary)
    (blocklist : List (List Char)) (p : Profiler F) (addr : UInt64) :
    (∃ b', b.blocklist libs blocklist = .ok b' ∧ ((b'.configure p).is_blocklisted addr = true ↔
        ∃ seg, Blocked libs blocklist seg ∧ seg.Contains addr)) ↔
      (∀ seg, Blocked libs blocklist seg → seg.Fits) ∧
        ((∃ seg, Blocked libs blocklist seg ∧ seg.Contains addr ∧
            seg.actual_virtual_memory_address = addr) →
          ∃ seg, Blocked libs blocklist seg ∧ seg.Inside addr) := by
  obtain ⟨hok,herr⟩ := blocklist_eq b libs blocklist
  constructor
  · rintro ⟨b',hb',hcovers⟩
    refine ⟨?_,fun ⟨seg,hseg,hcontains,_⟩ => ?_⟩
    · by_contra hfits
      rw [herr hfits] at hb'
      cases hb'
    · exact (configured_blocks hb' p addr).mp (hcovers.mpr ⟨seg,hseg,hcontains⟩)
  · rintro ⟨hfits,hstart⟩
    refine ⟨_,hok hfits,(configured_blocks (hok hfits) p addr).trans ⟨?_,?_⟩⟩
    · exact fun ⟨seg,hseg,hinside⟩ => ⟨seg,hseg,hinside.1⟩
    · rintro ⟨seg,hseg,hcontains⟩
      by_cases hne : seg.actual_virtual_memory_address = addr
      · exact hstart ⟨seg,hseg,hcontains,hne⟩
      · exact ⟨seg,hseg,hcontains,hne⟩

end Sampling

def libc : SharedLibrary := ⟨[108,105,98,99,46,115,111],[⟨4096,8192⟩]⟩

theorem first_address_sampled :
    letI := plainTarget
    letI := plainLayout
    ∃ (p : Profiler PlainFrame) (b' : ProfilerGuardBuilder), Profiler.new false = .ok p ∧
      ProfilerGuardBuilder.default.blocklist [libc] [['l','i','b','c']] = .ok b' ∧
      Blocked [libc] [['l','i','b','c']] ⟨4096,8192⟩ ∧
      (⟨4096,8192⟩ : Segment).Contains 4096 ∧
      (b'.configure p).is_blocklisted 4096 = false := by
  let _ := plainTarget
  let _ := plainLayout
  obtain ⟨p,hp⟩ := profiler_new (F := PlainFrame)
  refine ⟨p,⟨99,false,[(4096,12288)]⟩,hp,rfl,?_,⟨by decide,by decide⟩,rfl⟩
  exact ⟨libc,List.mem_singleton_self _,in_blocklist_iff.mp (by decide),List.mem_singleton_self _⟩

end Pprof
