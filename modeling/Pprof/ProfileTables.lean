import Pprof.Lib.Interning
import Pprof.Protobuf
set_option autoImplicit false

/-! What the loops of `Report::pprof` build, in closed form: the symbols whose names come up
first, numbered from one, are the functions and the locations, and a stack is the list of the
numbers of its names. -/

namespace Pprof
open Assoc Interning Protos

def Known (strings : AssocMap String Nat) (s : String) : Prop := ∃ i, strings.get s = some i

def indexOf (strings : AssocMap String Nat) (s : String) : Nat := (strings.get s).getD 0

theorem Known.unwrap {strings : AssocMap String Nat} {s : String} (h : Known strings s) :
    unwrap (strings.get s) = .ok (indexOf strings s) := by
  obtain ⟨i,hi⟩ := h
  simp [Pprof.unwrap,indexOf,hi]

variable [Resolver]

def SymbolKnown (strings : AssocMap String Nat) (symbol : Symbol) : Prop :=
  Known strings symbol.get_name ∧ Known strings symbol.sys_name ∧
    Known strings symbol.get_filename

def StackKnown (strings : AssocMap String Nat) (key : Frames) : Prop :=
  Known strings key.thread_name_or_id ∧ ∀ symbol ∈ key.symbols, SymbolKnown strings symbol

def functionOf (strings : AssocMap String Nat) (i : Nat) (symbol : Symbol) : Function :=
  ⟨i+1,indexOf strings symbol.get_name,indexOf strings symbol.sys_name,
    indexOf strings symbol.get_filename⟩

def locationOf (i : Nat) (symbol : Symbol) : Location :=
  ⟨i+1,[⟨i+1,symbol.get_lineno.toNat⟩]⟩

structure Tables.Lists (strings : AssocMap String Nat) (firsts : List Symbol) (t : Tables) :
    Prop where
  fn_tbl : t.fn_tbl = firsts.mapIdx (functionOf strings)
  loc_tbl : t.loc_tbl = firsts.mapIdx locationOf
  functions : ∀ name,
    t.functions.get name = (position Symbol.get_name firsts name).map Nat.succ

def locationId (firsts : List Symbol) (symbol : Symbol) : Nat :=
  ((position Symbol.get_name firsts symbol.get_name).map Nat.succ).getD 0

theorem locate_ok {strings : AssocMap String Nat} {firsts : List Symbol} {t : Tables}
    (h : t.Lists strings firsts) {symbol : Symbol} (hs : SymbolKnown strings symbol) :
    ∃ t' i, t.locate strings symbol = .ok (t',i+1) ∧
      t'.Lists strings (intern Symbol.get_name firsts symbol) ∧
      position Symbol.get_name (intern Symbol.get_name firsts symbol) symbol.get_name = some i := by
  have hget := h.functions symbol.get_name
  cases hp : position Symbol.get_name firsts symbol.get_name with
  | some i =>
    rw [hp] at hget
    refine ⟨t,i,?_,by rwa [intern_known hp],by rw [intern_known hp,hp]⟩
    simp only [Tables.locate,hget,Option.map_some]
    rfl
  | none =>
    rw [hp] at hget
    obtain ⟨hname,hsys,hfile⟩ := hs
    have hlen : t.fn_tbl.length = firsts.length := by simp [h.fn_tbl]
    have hlocate : t.locate strings symbol =
        .ok (⟨t.fn_tbl ++ [functionOf strings firsts.length symbol],
          t.loc_tbl ++ [locationOf firsts.length symbol],
          (t.functions.insert symbol.get_name (firsts.length+1)).2⟩,firsts.length+1) := by
      simp only [Tables.locate,hget,Option.map_none,hname.unwrap,hsys.unwrap,hfile.unwrap,hlen,
        bind,Except.bind]
      rfl
    refine ⟨_,firsts.length,hlocate,?_,by rw [intern_new hp,position_snoc hp,if_pos rfl]⟩
    rw [intern_new hp]
    refine ⟨by simp [h.fn_tbl,List.mapIdx_append],by simp [h.loc_tbl,List.mapIdx_append],?_⟩
    intro name
    rw [get_insert,position_snoc hp,h.functions]
    by_cases hn : symbol.get_name = name <;> simp [hn]

theorem locationId_append {firsts : List Symbol} {symbol : Symbol} {i : Nat}
    (h : position Symbol.get_name firsts symbol.get_name = some i) (more : List Symbol) :
    locationId (firsts ++ more) symbol = i+1 := by
  simp [locationId,position_append h more]

/-- The numbers that a stack gets are those of the final tables, whatever is taken up later. -/
theorem locateAll_ok {strings : AssocMap String Nat} {firsts : List Symbol} {t : Tables}
    (h : t.Lists strings firsts) {symbols : List Symbol}
    (hs : ∀ symbol ∈ symbols, SymbolKnown strings symbol) :
    ∃ t' locs, t.locateAll strings symbols = .ok (t',locs) ∧
      t'.Lists strings (internAll Symbol.get_name firsts symbols) ∧
      ∀ more, locs =
        symbols.map (locationId (internAll Symbol.get_name firsts symbols ++ more)) := by
  induction symbols generalizing firsts t with
  | nil => exact ⟨t,[],rfl,h,fun _ => rfl⟩
  | cons symbol symbols ih =>
    obtain ⟨t₁,i,ht₁,h₁,hp⟩ := locate_ok h (hs symbol (by simp))
    obtain ⟨t',locs,ht',h',hlocs⟩ := ih h₁ fun x hx => hs x (by simp [hx])
    refine ⟨t',(i+1) :: locs,?_,h',fun more => ?_⟩
    · simp only [Tables.locateAll,ht₁,ht',bind,Except.bind]
      rfl
    · obtain ⟨later,hlater⟩ := internAll_extends (f := Symbol.get_name)
        (intern Symbol.get_name firsts symbol) symbols
      have hi := locationId_append hp (later ++ more)
      rw [← List.append_assoc,hlater] at hi
      rw [List.map_cons,hlocs more]
      exact congrArg (· :: _) hi.symm

def protoSample (strings : AssocMap String Nat) (timing : ReportTiming) (firsts : List Symbol)
    (entry : Frames × Int) : Protos.Sample :=
  ⟨entry.1.symbols.map (locationId firsts),
    [entry.2,Int.tdiv (entry.2*1000000000) timing.frequency.toInt],
    [⟨indexOf strings THREAD,indexOf strings entry.1.thread_name_or_id⟩]⟩

omit [Resolver] in
/-- A multiple of a billion is not the least number, so any frequency but zero divides it. -/
theorem count_nanos {count frequency : Int} (hfit : InI64 (count*1000000000))
    (hf : frequency ≠ 0) :
    divI64 (count*1000000000) frequency = .ok (Int.tdiv (count*1000000000) frequency) := by
  have hdiv : InI64 (Int.tdiv (count*1000000000) frequency) := by
    have habs := Int.natAbs_tdiv_le_natAbs (count*1000000000) frequency
    unfold InI64 at *
    omega
  simp only [divI64,if_neg hf,if_pos hdiv]

theorem sampleOf_ok {strings : AssocMap String Nat} {timing : ReportTiming}
    {entry : Frames × Int} (hthread : Known strings THREAD) (hk : StackKnown strings entry.1)
    (hfit : InI64 (entry.2*1000000000)) (hf : timing.frequency.toInt ≠ 0) (locs : List Nat) :
    sampleOf strings timing entry.1 entry.2 locs =
      .ok ⟨locs,[entry.2,Int.tdiv (entry.2*1000000000) timing.frequency.toInt],
        [⟨indexOf strings THREAD,indexOf strings entry.1.thread_name_or_id⟩]⟩ := by
  have hmul : mulI64 entry.2 1000000000 = .ok (entry.2*1000000000) := if_pos hfit
  simp only [sampleOf,hthread.unwrap,hk.1.unwrap,hmul,count_nanos hfit hf,bind,Except.bind]
  rfl

def occurrences (entries : List (Frames × Int)) : List Symbol :=
  entries.flatMap fun e => e.1.symbols

theorem samplesOf_ok {strings : AssocMap String Nat} {timing : ReportTiming}
    (hthread : Known strings THREAD) (hf : timing.frequency.toInt ≠ 0) {firsts : List Symbol}
    {t : Tables} (h : t.Lists strings firsts) {entries : List (Frames × Int)}
    (hk : ∀ e ∈ entries, StackKnown strings e.1)
    (hfit : ∀ e ∈ entries, InI64 (e.2*1000000000)) :
    ∃ t' samples, samplesOf strings timing t entries = .ok (t',samples) ∧
      t'.Lists strings (internAll Symbol.get_name firsts (occurrences entries)) ∧
      ∀ more, samples = entries.map (protoSample strings timing
        (internAll Symbol.get_name firsts (occurrences entries) ++ more)) := by
  induction entries generalizing firsts t with
  | nil => exact ⟨t,[],rfl,h,fun _ => rfl⟩
  | cons entry entries ih =>
    obtain ⟨t₁,locs,ht₁,h₁,hlocs⟩ := locateAll_ok h (hk entry (by simp)).2
    obtain ⟨t',samples,ht',h',hsamples⟩ := ih h₁ (fun e he => hk e (by simp [he]))
      fun e he => hfit e (by simp [he])
    have hcons : occurrences (entry :: entries) = entry.1.symbols ++ occurrences entries :=
      List.flatMap_cons
    rw [← internAll_append,← hcons] at h' hsamples
    obtain ⟨later,hlater⟩ := internAll_extends (f := Symbol.get_name)
      (internAll Symbol.get_name firsts entry.1.symbols) (occurrences entries)
    rw [← internAll_append,← hcons] at hlater
    have hsample : ∀ more, sampleOf strings timing entry.1 entry.2 locs =
        .ok (protoSample strings timing (internAll Symbol.get_name firsts
          (occurrences (entry :: entries)) ++ more) entry) := by
      intro more
      rw [hlocs (later ++ more),← List.append_assoc,hlater]
      exact sampleOf_ok hthread (hk entry (by simp)) (hfit entry (by simp)) hf _
    obtain ⟨sample,hs⟩ : ∃ sample, sampleOf strings timing entry.1 entry.2 locs = .ok sample :=
      ⟨_,hsample []⟩
    refine ⟨t',sample :: samples,?_,h',fun more => ?_⟩
    · simp only [samplesOf,ht₁,hs,ht',bind,Except.bind]
      rfl
    · have hsame := hs.symm.trans (hsample more)
      rw [Except.ok.inj hsame,hsamples more,List.map_cons]

variable {r : Report}

theorem strings_get (o : Iterated r) {s : String} (h : Known (indexed (str_tbl o)) s) :
    (str_tbl o)[indexOf (indexed (str_tbl o)) s]? = some s := by
  obtain ⟨i,hi⟩ := h
  rw [indexOf,hi]
  exact indexed_get hi

theorem known_of_dedup (o : Iterated r) {s : String} (h : s ∈ dedup_str o.keys) :
    Known (indexed (str_tbl o)) s := by
  apply indexed_of_mem
  simp [str_tbl,o.strings_perm.mem_iff,h]

theorem stacks_known (o : Iterated r) {e : Frames × Int} (he : e ∈ o.iter) :
    StackKnown (indexed (str_tbl o)) e.1 := by
  have hkey : e.1 ∈ o.keys :=
    o.keys_perm.mem_iff.mpr (List.mem_map_of_mem (o.iter_perm.mem_iff.mp he))
  have hmem : ∀ s ∈ stringsOf e.1, Known (indexed (str_tbl o)) s := by
    intro s hs
    apply known_of_dedup
    rw [dedup_str,List.mem_dedup]
    exact List.mem_append_left _ (List.mem_flatMap.mpr ⟨e.1,hkey,hs⟩)
  have hsymbol : ∀ symbol ∈ e.1.symbols, ∀ s,
      s ∈ [symbol.get_name,symbol.sys_name,symbol.get_filename] → s ∈ stringsOf e.1 :=
    fun symbol hin s hs => List.mem_cons_of_mem _ (List.mem_flatMap.mpr ⟨symbol,hin,hs⟩)
  refine ⟨hmem _ (by simp [stringsOf]),fun symbol hin => ⟨?_,?_,?_⟩⟩ <;>
    exact hmem _ (hsymbol symbol hin _ (by simp))

theorem constant_known (o : Iterated r) {s : String}
    (h : s ∈ [SAMPLES,COUNT,CPU,NANOSECONDS,THREAD]) : Known (indexed (str_tbl o)) s := by
  apply known_of_dedup
  rw [dedup_str,List.mem_dedup]
  exact List.mem_append_right _ h

def Iterated.firsts (o : Iterated r) : List Symbol :=
  internAll Symbol.get_name [] (occurrences o.iter)

def profileOf (o : Iterated r) : Profile :=
  let strings := indexed (str_tbl o)
  let time := ⟨indexOf strings CPU,indexOf strings NANOSECONDS⟩
  ⟨[⟨indexOf strings SAMPLES,indexOf strings COUNT⟩,time],
    o.iter.map (protoSample strings r.timing o.firsts),o.firsts.mapIdx locationOf,
    o.firsts.mapIdx (functionOf strings),str_tbl o,asI64 r.timing.start_time.nanos,
    asI64 r.timing.duration,some time,Int.tdiv 1000000000 r.timing.frequency.toInt⟩

structure Representable (r : Report) : Prop where
  frequency : r.timing.frequency ≠ 0
  nanos : ∀ e ∈ r.data.entries, InI64 (e.2*1000000000)

theorem pprof_eq (h : Representable r) (o : Iterated r) : r.pprof o = .ok (profileOf o) := by
  have hf : r.timing.frequency.toInt ≠ 0 := fun hz => h.frequency (Int32.toInt_inj.mp hz)
  have hempty : Tables.Lists (indexed (str_tbl o)) [] ⟨[],[],AssocMap.empty⟩ :=
    ⟨rfl,rfl,fun _ => rfl⟩
  obtain ⟨t,samples,ht,hlists,hsamples⟩ := samplesOf_ok
    (constant_known o (by simp)) hf hempty (fun e he => stacks_known o he)
    fun e he => h.nanos e (o.iter_perm.mem_iff.mp he)
  have hunit : InI64 (1*1000000000) := by decide
  have hperiod := count_nanos hunit hf
  rw [Int.one_mul] at hperiod
  have hone := hsamples []
  rw [List.append_nil] at hone
  have hs := (constant_known o (s := SAMPLES) (by simp)).unwrap
  have hc := (constant_known o (s := COUNT) (by simp)).unwrap
  have ht' := (constant_known o (s := CPU) (by simp)).unwrap
  have hn := (constant_known o (s := NANOSECONDS) (by simp)).unwrap
  simp only [Report.pprof,ht,hs,hc,ht',hn,hperiod,bind,Except.bind,hlists.fn_tbl,hlists.loc_tbl,
    hone]
  rfl

omit [Resolver] in
theorem sampleOf_fits {strings : AssocMap String Nat} {timing : ReportTiming} {key : Frames}
    {count : Int} {locs : List Nat} {sample : Protos.Sample}
    (h : sampleOf strings timing key count locs = .ok sample) : InI64 (count*1000000000) := by
  obtain ⟨thread,-,h⟩ := bind_eq_ok.mp h
  obtain ⟨str,-,h⟩ := bind_eq_ok.mp h
  obtain ⟨nanos,hmul,-⟩ := bind_eq_ok.mp h
  by_contra hfit
  rw [mulI64,if_neg hfit] at hmul
  cases hmul

theorem samplesOf_fits {strings : AssocMap String Nat} {timing : ReportTiming}
    {entries : List (Frames × Int)} {t : Tables} {result : Tables × List Protos.Sample}
    (h : samplesOf strings timing t entries = .ok result) :
    ∀ e ∈ entries, InI64 (e.2*1000000000) := by
  induction entries generalizing t result with
  | nil => simp
  | cons entry entries ih =>
    obtain ⟨key,count⟩ := entry
    obtain ⟨⟨t₁,locs⟩,-,h⟩ := bind_eq_ok.mp h
    obtain ⟨sample,hsample,h⟩ := bind_eq_ok.mp h
    obtain ⟨rest,hrest,-⟩ := bind_eq_ok.mp h
    intro e he
    rcases List.mem_cons.mp he with rfl | he
    · exact sampleOf_fits hsample
    · exact ih hrest e he

theorem representable_of_ok {o : Iterated r} {p : Profile} (h : r.pprof o = .ok p) :
    Representable r := by
  obtain ⟨⟨t,samples⟩,hsamples,h⟩ := bind_eq_ok.mp h
  obtain ⟨ty,-,h⟩ := bind_eq_ok.mp h
  obtain ⟨unit,-,h⟩ := bind_eq_ok.mp h
  obtain ⟨time_ty,-,h⟩ := bind_eq_ok.mp h
  obtain ⟨time_unit,-,h⟩ := bind_eq_ok.mp h
  obtain ⟨period,hperiod,-⟩ := bind_eq_ok.mp h
  refine ⟨fun hz => ?_,fun e he => samplesOf_fits hsamples e (o.iter_perm.mem_iff.mpr he)⟩
  have hzero : Int32.toInt 0 = 0 := rfl
  rw [hz,divI64,if_pos hzero] at hperiod
  cases hperiod

end Pprof
