import Pprof.Exports
set_option autoImplicit false

/-! `criterion.rs`: a benchmark harness that starts a profiler before a benchmark and writes
its report out afterwards. Every error is unwrapped, and the panic unwinds through whatever
the harness owns at that moment. -/

namespace Pprof
open Assoc FormalSum Memory Protos Runs TempFile

inductive Unwound where
  | panic (panic : Panic)
  | unwrap (err : Error)
  | expect (text : String)
  | os
  deriving DecidableEq

/-- The crates that draw and encode. `from_lines` may change the options that it is lent, and
may write a part before it fails. -/
class Exporters (O : Type) where
  default : O
  from_lines : O → List String → O × List UInt8 × Bool
  encode : Profile → Option (List UInt8)

inductive Output (O : Type) where
  | Flamegraph (options : Option O)
  | Protobuf
  | _Phantom

structure PProfProfiler (O : Type) where
  frequency : Int32
  output : Output O
  active_profiler : Option ProfilerGuard

variable {O : Type}

def PProfProfiler.new (frequency : Int32) (output : Output O) : PProfProfiler O :=
  ⟨frequency,output,none⟩

def Output.filename : Output O → String
  | .Flamegraph _ => "flamegraph.svg"
  | .Protobuf => "profile.pb"
  | ._Phantom => ""

def Path.join (dir file : String) : String :=
  if dir.isEmpty || dir.endsWith "/" then dir ++ file else dir ++ "/" ++ file

abbrev Files := String → Option (List UInt8)

def Files.write (files : Files) (path : String) (content : List UInt8) : Files := fun path' =>
  if path' = path then some content else files path'

@[simp] theorem write_path (files : Files) (path : String) (content : List UInt8) :
    files.write path content path = some content := if_pos rfl

def written (text : List UInt8) (fault : Option Nat) : List UInt8 × Bool :=
  match fault with
  | some n => if n < text.length then (text.take n,false) else (text,true)
  | none => (text,true)

section Calls
variable [Resolver] [Exporters O]

/-- A report without entries is not drawn, and its file stays empty. -/
def Report.flamegraph_with_options (r : Report) (o : Iterated r) (options : O)
    (fault : Option Nat) : Except Unwound Unit × O × List UInt8 :=
  let lines := folded_lines o.iter
  if lines.isEmpty then (.ok (),options,[])
  else
    let (options,text,drawn) := Exporters.from_lines options lines
    let (text,taken) := written text fault
    (if drawn && taken then .ok () else .error .os,options,text)

def Report.write_pprof (r : Report) (o : Iterated r) (codec : Profile → Option (List UInt8))
    (fault : Option Nat) : Except Unwound Unit × List UInt8 :=
  match r.pprof o with
  | .error panic => (.error (.panic panic),[])
  | .ok profile =>
    match codec profile with
    | none => (.error (.expect "Error while encoding protobuf"),[])
    | some content =>
      let (text,taken) := written content fault
      (if taken then .ok () else .error (.expect "Error while writing protobuf"),text)

structure StopCalls where
  create_dir_all : Bool
  create : Bool
  now : Clock
  read : Option ReadFault
  order : (r : Report) → Iterated r
  write : Option Nat
  drop : StopFaults

variable {F : Type} [Layout (Entry (UnresolvedFrames F))] [Target] [Frame F] [DefaultHasher]

def Output.export (output : Output O) (b : ReportBuilder F Unit) (calls : StopCalls) :
    Except Unwound Unit × Output O × List UInt8 :=
  match output with
  | ._Phantom => (.error (.panic .unreachable),output,[])
  | .Flamegraph options =>
    match b.build () calls.read with
    | .error panic => (.error (.panic panic),output,[])
    | .ok (.error err) => (.error (.unwrap err),output,[])
    | .ok (.ok r) =>
      let (result,after,text) := r.flamegraph_with_options (calls.order r)
        (options.getD Exporters.default) calls.write
      (result,.Flamegraph (options.map fun _ => after),text)
  | .Protobuf =>
    match b.build () calls.read with
    | .error panic => (.error (.panic panic),output,[])
    | .ok (.error err) => (.error (.unwrap err),output,[])
    | .ok (.ok r) =>
      let (result,text) := r.write_pprof (calls.order r) (Exporters.encode O) calls.write
      (result,output,text)

def ProfilerGuardBuilder.with_frequency (b : ProfilerGuardBuilder) (frequency : Int32) :
    ProfilerGuardBuilder := { b with frequency }

omit [Resolver] [Exporters O] [Frame F] [DefaultHasher] in
def ProfilerGuard.new (frequency : Int32) (w : World F) (faults : BuildFaults) (now : Clock) :
    Except Panic (Except Error ProfilerGuard) × World F :=
  (ProfilerGuardBuilder.default.with_frequency frequency).build w faults now

omit [Resolver] [Exporters O] [Frame F] [DefaultHasher] in
/-- An older guard would only be dropped once the new one is there. -/
def PProfProfiler.start_profiling (c : PProfProfiler O) (w : World F) (faults : BuildFaults)
    (now : Clock) (drop : StopFaults) : Except Unwound Unit × PProfProfiler O × World F :=
  match ProfilerGuard.new c.frequency w faults now with
  | (.ok (.ok guard),w) =>
    (.ok (),{ c with active_profiler := some guard },
      c.active_profiler.elim w fun old => old.drop w drop)
  | (.ok (.error err),w) => (.error (.unwrap err),c,w)
  | (.error panic,w) => (.error (.panic panic),c,w)

/-- The guard is taken before the report is built, so it is dropped on the way out however
the call ends. A guard without a profiler there is not. -/
def PProfProfiler.stop_profiling (c : PProfProfiler O) (w : World F) (files : Files)
    (benchmark_dir : String) (calls : StopCalls) :
    Except Unwound Unit × PProfProfiler O × World F × Files :=
  if calls.create_dir_all then (.error .os,c,w,files)
  else
    let output_path := Path.join benchmark_dir c.output.filename
    if calls.create then
      (.error (.expect ("File system error while creating " ++ output_path)),c,w,files)
    else
      let files := files.write output_path []
      match c.active_profiler, w.PROFILER with
      | some profiler, some lock =>
        let (result,output,text) := c.output.export (profiler.report lock calls.now) calls
        (result,{ c with output, active_profiler := none },profiler.drop w calls.drop,
          files.write output_path text)
      | _, _ => (.ok (),{ c with active_profiler := none },w,files)

/-- The harness in its process. The guards of the world are those of other users. -/
structure Bench (F O : Type) [Layout (Entry (UnresolvedFrames F))] [Target] where
  observed : Observed F
  harness : PProfProfiler O
  files : Files

inductive BenchOp (F : Type) where
  | start (faults : BuildFaults) (now : Clock) (drop : StopFaults)
  | stop (benchmark_dir : String) (calls : StopCalls)
  | other (op : Op F)

/-- A panic of the harness may be caught, and the calls go on. -/
def Bench.step (b : Bench F O) : BenchOp F → Option (Bench F O)
  | .start faults now drop =>
    let (_,harness,w) := b.harness.start_profiling b.observed.world faults now drop
    some { b with harness, observed := b.observed.dropped w }
  | .stop benchmark_dir calls =>
    let (_,harness,w,files) :=
      b.harness.stop_profiling b.observed.world b.files benchmark_dir calls
    some { harness, files, observed := b.observed.dropped w }
  | .other op => (b.observed.step op).map fun observed => { b with observed }

def World.beside (w : World F) (own : List ProfilerGuard) : World F :=
  { w with guards := own ++ w.guards }

def Observed.beside (c : Observed F) (own : List ProfilerGuard) : Observed F :=
  { c with world := c.world.beside own }

def Bench.whole (b : Bench F O) : Observed F :=
  b.observed.beside b.harness.active_profiler.toList

section Beside
omit [Frame F] [DefaultHasher] [Resolver] [Exporters O]

theorem build_beside (b : ProfilerGuardBuilder) (w : World F) (own : List ProfilerGuard)
    (faults : BuildFaults) (now : Clock) :
    b.build (w.beside own) faults now =
      ((b.build w faults now).1,(b.build w faults now).2.beside own) := by
  simp only [ProfilerGuardBuilder.build,World.beside]
  cases trigger_lazy w.PROFILER faults.create with
  | error err => rfl
  | ok p =>
    dsimp only
    rcases (b.configure p).start w.os faults.sigaction with ⟨err | ⟨⟩,q,os⟩
    · rfl
    · dsimp only
      cases Timer.new os b.frequency now with
      | error panic => rfl
      | ok r => rfl

theorem drop_beside (guard : ProfilerGuard) (w : World F) (own : List ProfilerGuard)
    (faults : StopFaults) :
    guard.drop (w.beside own) faults = (guard.drop w faults).beside own := by
  obtain ⟨profiler,os,guards⟩ := w
  rcases profiler with - | err | p <;> rfl

theorem dropped_same (c : Observed F) : c.dropped c.world = c := by
  cases h : c.world.running with
  | false => rw [dropped_kept (.inl h)]
  | true => rw [dropped_kept (.inr h)]

theorem dropped_beside (c : Observed F) (w : World F) (own own' : List ProfilerGuard) :
    (c.beside own).dropped (w.beside own') = (c.dropped w).beside own' := by
  unfold Observed.dropped
  change (if c.world.running && !w.running then _ else _) = _
  split <;> rfl

end Beside

omit [Resolver] [Exporters O] in
theorem observed_drop {c : Observed F} {i : Nat} {guard : ProfilerGuard}
    (h : c.world.guards[i]? = some guard) (faults : StopFaults) :
    c.step (.drop i faults) = some (c.dropped (guard.drop
      { c.world with guards := c.world.guards.eraseIdx i } faults)) := by
  simp only [Observed.step,World.step,h,Option.map_some]

/-- What another user does, with the guard of the harness in front of the user's own. -/
def Op.behind (n : Nat) : Op F → Op F
  | .build b faults now => .build b faults now
  | .drop i faults => .drop (n+i) faults
  | .report i => .report (n+i)
  | .signal at_ fault => .signal at_ fault
  | .sigaction act => .sigaction act

omit [Resolver] [Exporters O] in
theorem observed_beside {c c' : Observed F} {op : Op F} (own : List ProfilerGuard)
    (hs : c.step op = some c') :
    (c.beside own).step (op.behind own.length) = some (c'.beside own) := by
  obtain ⟨w',hw,rfl⟩ := Option.map_eq_some_iff.mp hs
  cases op with
  | build b faults now =>
    simp only [World.step] at hw
    simp only [Op.behind,Observed.beside,Observed.step,World.step,build_beside]
    rcases hb : b.build c.world faults now with ⟨panic | err | guard,w₁⟩ <;> rw [hb] at hw <;>
      cases hw <;> simp [World.beside]
  | drop i faults =>
    obtain ⟨guard,hi,rfl⟩ := step_drop hw
    have hi' : (own ++ c.world.guards)[own.length+i]? = some guard := by
      rw [List.getElem?_append_right (by omega)]
      simpa using hi
    have herase : (own ++ c.world.guards).eraseIdx (own.length+i) =
        own ++ c.world.guards.eraseIdx i := by
      rw [List.eraseIdx_append_of_length_le (by omega)]
      simp
    have hworld : ({ (c.beside own).world with
        guards := (c.beside own).world.guards.eraseIdx (own.length+i) } : World F) =
        World.beside { c.world with guards := c.world.guards.eraseIdx i } own := by
      simp [Observed.beside,World.beside,herase]
    rw [Op.behind,observed_drop (c := c.beside own) hi',hworld,drop_beside,dropped_beside]
  | report i =>
    obtain ⟨hi,rfl⟩ := step_report hw
    simp [Op.behind,Observed.beside,World.beside,Observed.step,World.step,hi]
  | signal at_ fault =>
    obtain ⟨profiler,profiler',hp,hact,hh,rfl⟩ := step_signal hw
    simp [Op.behind,Observed.beside,World.beside,Observed.step,World.step,hp,hact,hh]
  | sigaction act =>
    cases hw
    simp [Op.behind,Observed.beside,World.beside,Observed.step,World.step]

omit [Frame F] [DefaultHasher] [Resolver] [Exporters O] in
theorem running_of_build (b : ProfilerGuardBuilder) (w : World F) (faults : BuildFaults)
    (now : Clock) :
    (w.running = true → (b.build w faults now).2.running = true) ∧
      ∀ guard, (b.build w faults now).1 = .ok (.ok guard) → w.running = false := by
  have hrun : ∀ p, trigger_lazy w.PROFILER faults.create = .ok p → p.running = false →
      w.running = false := by
    intro p ht hp
    cases hw : w.PROFILER with
    | none => simp [World.running,hw]
    | some profiler =>
      rw [hw] at ht
      cases ht
      simp [World.running,hw,hp]
  rcases build_cases b w faults now with ⟨err,ht,hb⟩ | ⟨p,ht,⟨hp,hb⟩ | ⟨hp,-,hb⟩ | ⟨hp,-,-,hb⟩ |
    ⟨hp,-,-,timer,hb⟩⟩ <;> rw [hb]
  · refine ⟨fun hw => ?_,by simp⟩
    cases hp : w.PROFILER with
    | none => simp [World.running,hp] at hw
    | some profiler =>
      rw [hp] at ht
      cases ht
      simp [World.running,hp] at hw
  · exact ⟨fun _ => hp,by simp⟩
  · exact ⟨fun hw => absurd hw (by simp [hrun p ht hp]),by simp⟩
  · exact ⟨fun _ => rfl,by simp⟩
  · exact ⟨fun _ => rfl,fun _ _ => hrun p ht hp⟩

omit [Frame F] [DefaultHasher] [Resolver] [Exporters O] in
theorem start_profiling_cases (c : PProfProfiler O) (w : World F) (faults : BuildFaults)
    (now : Clock) (drop : StopFaults) :
    (∃ guard, (ProfilerGuard.new c.frequency w faults now).1 = .ok (.ok guard) ∧
      c.start_profiling w faults now drop = (.ok (),{ c with active_profiler := some guard },
        c.active_profiler.elim (ProfilerGuard.new c.frequency w faults now).2 fun old =>
          old.drop (ProfilerGuard.new c.frequency w faults now).2 drop)) ∨
    ((∀ guard, (ProfilerGuard.new c.frequency w faults now).1 ≠ .ok (.ok guard)) ∧
      ∃ err, c.start_profiling w faults now drop =
        (.error err,c,(ProfilerGuard.new c.frequency w faults now).2)) := by
  unfold PProfProfiler.start_profiling
  rcases ProfilerGuard.new c.frequency w faults now with ⟨panic | err | guard,w'⟩
  · exact .inr ⟨nofun,_,rfl⟩
  · exact .inr ⟨nofun,_,rfl⟩
  · exact .inl ⟨guard,rfl,rfl⟩

omit [Frame F] [DefaultHasher] [Resolver] [Exporters O] in
theorem owned_running {w : World F} (h : Owned w) (hrun : w.running = false) : w.guards = [] := by
  rcases h with hnil | ⟨timer,p,act,-,hp,hr,-⟩
  · exact hnil
  · simp [World.running,hp,hr] at hrun

theorem whole_start {b b' : Bench F O} (h : b.whole.Sound) {faults : BuildFaults} {now : Clock}
    {drop : StopFaults} (hs : b.step (.start faults now drop) = some b') :
    b.whole.step (.build (ProfilerGuardBuilder.default.with_frequency b.harness.frequency)
      faults now) = some b'.whole := by
  obtain ⟨c,harness,files⟩ := b
  have hcases := start_profiling_cases harness c.world faults now drop
  unfold ProfilerGuard.new at hcases
  simp only [Bench.step] at hs
  simp only [Bench.whole,Observed.step,World.step,Observed.beside,build_beside]
  generalize ProfilerGuardBuilder.default.with_frequency harness.frequency = B at hcases ⊢
  obtain ⟨hkept,hidle⟩ := running_of_build B c.world faults now
  have hguards := build_guards B c.world faults now
  rcases hbuild : B.build c.world faults now with ⟨r,w'⟩
  rw [hbuild] at hcases hkept hidle hguards
  simp only at hcases hkept hidle hguards
  rcases hcases with ⟨guard,rfl,hstart⟩ | ⟨hne,err,hstart⟩
  · have hrun := hidle guard rfl
    have hnone : harness.active_profiler.toList ++ c.world.guards = [] := owned_running h.owned hrun
    obtain ⟨hactive,hnil⟩ := List.append_eq_nil_iff.mp hnone
    have hactive : harness.active_profiler = none := by
      cases ha : harness.active_profiler with
      | none => rfl
      | some old => simp [ha] at hactive
    rw [hnil] at hguards
    simp only [hstart,hactive,Option.elim_none] at hs
    cases hs
    simp [dropped_kept (.inl hrun),hactive,World.beside,hguards]
  · simp only [hstart] at hs
    cases hs
    have hdropped : c.dropped w' = { c with world := w' } := dropped_kept (by
      cases hw : c.world.running with
      | false => exact .inl rfl
      | true => exact .inr (hkept hw))
    rcases r with panic | err' | guard
    · simp [hdropped]
    · simp [hdropped]
    · exact absurd rfl (hne guard)

omit [DefaultHasher] in
theorem stop_profiling_cases (c : PProfProfiler O) (w : World F) (files : Files)
    (benchmark_dir : String) (calls : StopCalls) :
    ((calls.create_dir_all = true ∨ calls.create = true) ∧
      ∃ err, c.stop_profiling w files benchmark_dir calls = (.error err,c,w,files)) ∨
    (calls.create_dir_all = false ∧ calls.create = false ∧
      (c.active_profiler = none ∨ w.PROFILER = none) ∧
      c.stop_profiling w files benchmark_dir calls =
        (.ok (),{ c with active_profiler := none },w,
          files.write (Path.join benchmark_dir c.output.filename) [])) ∨
    (calls.create_dir_all = false ∧ calls.create = false ∧
      ∃ profiler lock, c.active_profiler = some profiler ∧ w.PROFILER = some lock ∧
        c.stop_profiling w files benchmark_dir calls =
          ((c.output.export (profiler.report lock calls.now) calls).1,
            { c with
              output := (c.output.export (profiler.report lock calls.now) calls).2.1
              active_profiler := none },profiler.drop w calls.drop,
            (files.write (Path.join benchmark_dir c.output.filename) []).write
              (Path.join benchmark_dir c.output.filename)
              (c.output.export (profiler.report lock calls.now) calls).2.2)) := by
  unfold PProfProfiler.stop_profiling
  cases hdir : calls.create_dir_all with
  | true => exact .inl ⟨.inl rfl,_,rfl⟩
  | false =>
    cases hcreate : calls.create with
    | true => exact .inl ⟨.inr rfl,_,rfl⟩
    | false =>
      cases hactive : c.active_profiler with
      | none => exact .inr (.inl ⟨rfl,rfl,.inl rfl,rfl⟩)
      | some profiler =>
        cases hlock : w.PROFILER with
        | none => exact .inr (.inl ⟨rfl,rfl,.inr rfl,rfl⟩)
        | some lock => exact .inr (.inr ⟨rfl,rfl,profiler,lock,rfl,rfl,rfl⟩)

theorem whole_stop {b b' : Bench F O} (h : b.whole.Sound) {benchmark_dir : String}
    {calls : StopCalls} (hs : b.step (.stop benchmark_dir calls) = some b') :
    b'.whole = b.whole ∨ b.whole.step (.drop 0 calls.drop) = some b'.whole := by
  obtain ⟨c,⟨frequency,output,active⟩,files⟩ := b
  simp only [Bench.step] at hs
  rcases stop_profiling_cases ⟨frequency,output,active⟩ c.world files benchmark_dir calls with
    ⟨-,err,hstop⟩ | ⟨-,-,hnone,hstop⟩ | ⟨-,-,profiler,lock,hactive,hlock,hstop⟩
  · simp only [hstop,dropped_same] at hs
    cases hs
    exact .inl rfl
  · have hnone : active = none := by
      rcases hnone with hactive | hlock
      · exact hactive
      · rcases h.owned with hnil | ⟨_,_,_,-,hp,-⟩
        · cases active with
          | none => rfl
          | some profiler => cases hnil
        · cases hlock.symm.trans hp
    simp only [hstop,dropped_same] at hs
    cases hs
    exact .inl (by simp [Bench.whole,hnone])
  · have hactive : active = some profiler := hactive
    simp only [hstop] at hs
    cases hs
    have hfirst : (c.beside [profiler]).world.guards[0]? = some profiler := rfl
    have hd := dropped_beside c (profiler.drop c.world calls.drop) [profiler] []
    right
    simp only [Bench.whole,hactive,Option.toList_some,Option.toList_none]
    rw [observed_drop hfirst,← hd]
    rfl

def World.bench (w : World F) (frequency : Int32) (output : Output O) (files : Files) :
    Bench F O := ⟨w.observed,.new frequency output,files⟩

/-- Whatever is done with the harness could have been done with the guards alone. -/
theorem bench_run {w₀ : World F} (h₀ : w₀.Fresh) {frequency : Int32} {output : Output O}
    {files : Files} {ops : List (BenchOp F)} {b : Bench F O}
    (hr : run Bench.step (w₀.bench frequency output files) ops = some b) :
    ∃ calls, run Observed.step w₀.observed calls = some b.whole := by
  have hstep : ∀ (b : Bench F O) (op : BenchOp F) (b' : Bench F O),
      Reachable Observed.step w₀.observed b.whole → b.step op = some b' →
      Reachable Observed.step w₀.observed b'.whole := by
    rintro b op b' ⟨calls,hcalls⟩ hs
    have h := sound_observed_run h₀ hcalls
    cases op with
    | start faults now drop => exact ⟨_,(run_snoc hcalls _).trans (whole_start h hs)⟩
    | stop benchmark_dir stop =>
      rcases whole_stop h hs with hsame | hdrop
      · exact ⟨calls,hsame ▸ hcalls⟩
      · exact ⟨_,(run_snoc hcalls _).trans hdrop⟩
    | other op =>
      obtain ⟨c,hc,rfl⟩ := Option.map_eq_some_iff.mp hs
      exact ⟨_,(run_snoc hcalls _).trans (observed_beside _ hc)⟩
  exact Reachable.invariant (I := fun b => Reachable Observed.step w₀.observed b.whole) hstep
    ⟨[],rfl⟩ ⟨ops,hr⟩

section Exporting
variable {b : ReportBuilder F Unit} {calls : StopCalls} {r : Report}
omit [DefaultHasher]

theorem export_refused (output : Output O) {err : Error}
    (hb : b.build () calls.read = .ok (.error err)) :
    (∃ err, (output.export b calls).1 = .error err) ∧ (output.export b calls).2.2 = [] := by
  cases output with
  | Flamegraph options => simp [Output.export,hb]
  | Protobuf => simp [Output.export,hb]
  | _Phantom => simp [Output.export]

theorem export_protobuf (hb : b.build () calls.read = .ok (.ok r)) {p : Profile}
    (hp : r.pprof (calls.order r) = .ok p) :
    (((Output.Protobuf : Output O).export b calls).1 = .ok () →
      some ((Output.Protobuf : Output O).export b calls).2.2 = Exporters.encode O p) ∧
    ∀ content, Exporters.encode O p = some content → calls.write = none →
      ((Output.Protobuf : Output O).export b calls).1 = .ok () := by
  simp only [Output.export,hb,Report.write_pprof,hp]
  cases hcontent : Exporters.encode O p with
  | none => simp
  | some content =>
    refine ⟨fun hok => ?_,fun content' _ hwrite => by simp [hwrite,written]⟩
    cases hwrite : calls.write with
    | none => simp [written]
    | some n =>
      by_cases hn : n < content.length
      · simp [hwrite,written,hn] at hok
      · simp [written,hn]

theorem export_flamegraph (hb : b.build () calls.read = .ok (.ok r)) (options : Option O) :
    let lines := folded_lines (calls.order r).iter
    let drawn := Exporters.from_lines (options.getD Exporters.default) lines
    (((Output.Flamegraph options).export b calls).1 = .ok () →
      ((Output.Flamegraph options).export b calls).2.2 = if lines = [] then [] else drawn.2.1) ∧
    (lines = [] ∨ drawn.2.2 = true → calls.write = none →
      ((Output.Flamegraph options).export b calls).1 = .ok ()) := by
  intro lines drawn
  simp only [Output.export,hb,Report.flamegraph_with_options]
  by_cases hnil : folded_lines (calls.order r).iter = []
  · simp [lines,hnil]
  · have hempty : (folded_lines (calls.order r).iter).isEmpty = false := by simpa using hnil
    simp only [hempty,Bool.false_eq_true,if_false,lines,hnil,false_or]
    rcases hdrawn : Exporters.from_lines (options.getD Exporters.default)
      (folded_lines (calls.order r).iter) with ⟨after,text,ok⟩
    have hd : drawn = (after,text,ok) := hdrawn
    simp only [hd]
    cases hwrite : calls.write with
    | none => cases ok <;> simp [written]
    | some n =>
      by_cases hn : n < text.length
      · simp [written,hn]
      · simp [written,hn]

end Exporting

/-- What a stop that has its file leaves there: nothing if the samples of the session are not
all to be had, and else what the crates make of a profile, or of lines, that show each of them
under the stack of its representative. -/
theorem harness_exports {w₀ : World F} (h₀ : w₀.Fresh) {frequency : Int32} {output : Output O}
    {files : Files} {ops : List (BenchOp F)} {b : Bench F O}
    (hr : run Bench.step (w₀.bench frequency output files) ops = some b) {guard : ProfilerGuard}
    (hactive : b.harness.active_profiler = some guard) (benchmark_dir : String)
    (calls : StopCalls) (hdir : calls.create_dir_all = false) (hcreate : calls.create = false) :
    let stop := b.harness.stop_profiling b.observed.world b.files benchmark_dir calls
    let file := stop.2.2.2 (Path.join benchmark_dir b.harness.output.filename)
    (b.observed.lost = true ∨ calls.read ≠ none →
      (∃ err, stop.1 = .error err) ∧ file = some []) ∧
    (b.observed.lost = false → calls.read = none → ∃ reps,
      Represents b.observed.recorded reps ∧
      (b.harness.output = .Protobuf → ∃ p, p.WellFormed ∧
        (∀ q, total q p.decoded = reps.countP fun u => q (Frames.from u).shown) ∧
        (stop.1 = .ok () → file = Exporters.encode O p) ∧
        ∀ content, Exporters.encode O p = some content → calls.write = none →
          stop.1 = .ok ()) ∧
      ∀ options, b.harness.output = .Flamegraph options → ∃ lines,
        let drawn := Exporters.from_lines (options.getD Exporters.default) lines
        (∀ q, total q (lines.filterMap read_folded) =
          reps.countP fun u => q (Frames.from u).parts) ∧
        (lines = [] ↔ b.observed.recorded = []) ∧
        (stop.1 = .ok () → file = some (if lines = [] then [] else drawn.2.1)) ∧
        (lines = [] ∨ drawn.2.2 = true → calls.write = none → stop.1 = .ok ())) := by
  obtain ⟨ops',hrun⟩ := bench_run h₀ hr
  have hguard : guard ∈ b.whole.world.guards := by
    simp [Bench.whole,Observed.beside,World.beside,hactive]
  obtain ⟨p,timer,hp,hk,htimer,hfreq⟩ := session_of_guard h₀ hrun hguard
  have hp : b.observed.world.PROFILER = some (.ok p) := hp
  have hk : p.Keeps b.observed.recorded b.observed.lost := hk
  intro stop file
  rcases stop_profiling_cases b.harness b.observed.world b.files benchmark_dir calls with
    ⟨hfails,-⟩ | ⟨-,-,hnone,-⟩ | ⟨-,-,profiler,lock,hprofiler,hlock,hstop⟩
  · simp [hdir,hcreate] at hfails
  · simp [hactive,hp] at hnone
  · rw [hactive] at hprofiler
    rw [hp] at hlock
    cases hprofiler
    cases hlock
    have hresult : stop.1 = (b.harness.output.export (guard.report (.ok p) calls.now) calls).1 :=
      congrArg Prod.fst hstop
    have hfile : file =
        some (b.harness.output.export (guard.report (.ok p) calls.now) calls).2.2 := by
      change stop.2.2.2 _ = _
      rw [show stop = _ from hstop]
      exact write_path _ _ _
    rw [hresult,hfile]
    refine ⟨fun hfail => ?_,fun hlost hread => ?_⟩
    · obtain ⟨err,he⟩ := hk.unreadable hfail
      have hbuild : (guard.report (.ok p) calls.now : ReportBuilder F Unit).build () calls.read =
          .ok (.error (.IoError err)) := by
        simp only [ReportBuilder.build,ProfilerGuard.report,ReportBuilder.new,he]
      obtain ⟨herr,hnil⟩ := export_refused b.harness.output hbuild
      exact ⟨herr,by rw [hnil]⟩
    · obtain ⟨r,reps,hbuild,hreps,hempty,hexports⟩ := (hk.holding hlost).shown htimer hfreq
        calls.now none ()
      have hbuild : (guard.report (.ok p) calls.now : ReportBuilder F Unit).build () calls.read =
          .ok (.ok r) := hread ▸ hbuild
      obtain ⟨⟨profile,hprofile,hwf,hdecoded⟩,hlines⟩ := hexports (calls.order r)
      refine ⟨reps,hreps,fun hout => ?_,fun options hout => ?_⟩
      · rw [hout]
        exact ⟨profile,hwf,hdecoded,export_protobuf hbuild hprofile⟩
      · rw [hout]
        obtain ⟨htext,hok⟩ := export_flamegraph hbuild options
        refine ⟨folded_lines (calls.order r).iter,hlines,?_,fun h => congrArg some (htext h),hok⟩
        rw [← hempty,folded_lines,List.map_eq_nil_iff,← List.length_eq_zero_iff,
          (calls.order r).iter_perm.length_eq,List.length_eq_zero_iff]

omit [Frame F] [DefaultHasher] [Resolver] [Exporters O] in
theorem stop_itimer (p : Profiler F) (os : Os) (faults : StopFaults) :
    (p.stop os faults).2.2.itimer = os.itimer := by
  obtain ⟨data,counter,old,running,on_stack,segments⟩ := p
  obtain ⟨restore,create⟩ := faults
  cases running with
  | false => rfl
  | true =>
    cases old with
    | none => rfl
    | some act => cases restore <;> rfl

omit [Frame F] [DefaultHasher] [Resolver] [Exporters O] in
theorem drop_disarms {guard : ProfilerGuard} {timer : Timer} (h : guard.timer = some timer)
    (w : World F) (faults : StopFaults) : (guard.drop w faults).os.Disarmed := by
  obtain ⟨profiler,os,guards⟩ := w
  have hd := drop_disarmed os
  unfold Os.Disarmed at hd ⊢
  rcases profiler with - | err | p
  · simpa only [ProfilerGuard.drop,h] using hd
  · simpa only [ProfilerGuard.drop,h] using hd
  · simpa only [ProfilerGuard.drop,h,stop_itimer] using hd

theorem bench_frequency {w₀ : World F} {frequency : Int32} {output : Output O} {files : Files}
    {ops : List (BenchOp F)} {b : Bench F O}
    (hr : run Bench.step (w₀.bench frequency output files) ops = some b)
    (hactive : b.harness.active_profiler ≠ none) : b.harness.frequency ≠ 0 := by
  have hstep : ∀ (b : Bench F O) (op : BenchOp F) (b' : Bench F O),
      (b.harness.active_profiler ≠ none → b.harness.frequency ≠ 0) → b.step op = some b' →
      b'.harness.active_profiler ≠ none → b'.harness.frequency ≠ 0 := by
    intro b op b' h hs
    cases op with
    | start faults now drop =>
      simp only [Bench.step] at hs
      rcases start_profiling_cases b.harness b.observed.world faults now drop with
        ⟨guard,hnew,hstart⟩ | ⟨-,err,hstart⟩
      · simp only [hstart] at hs
        cases hs
        exact fun _ => (build_timed (Prod.ext hnew rfl)).1
      · simp only [hstart] at hs
        cases hs
        exact h
    | stop benchmark_dir calls =>
      simp only [Bench.step] at hs
      rcases stop_profiling_cases b.harness b.observed.world b.files benchmark_dir calls with
        ⟨-,err,hstop⟩ | ⟨-,-,-,hstop⟩ | ⟨-,-,profiler,lock,-,-,hstop⟩
      · simp only [hstop] at hs
        cases hs
        exact h
      · simp only [hstop] at hs
        cases hs
        exact fun hne => absurd rfl hne
      · simp only [hstop] at hs
        cases hs
        exact fun hne => absurd rfl hne
    | other op =>
      obtain ⟨c,-,rfl⟩ := Option.map_eq_some_iff.mp hs
      exact h
  exact Reachable.invariant
    (I := fun b : Bench F O => b.harness.active_profiler ≠ none → b.harness.frequency ≠ 0)
    hstep (fun hne => absurd rfl hne) ⟨ops,hr⟩ hactive

/-- A harness with a guard has the profiler to itself: a second start panics and puts only the
settings of the running session back to their defaults, a stop without a file changes nothing;
any other stop ends the session, and unless
the drop fails the next start begins a new one. -/
theorem harness_owns {w₀ : World F} (h₀ : w₀.Fresh) {frequency : Int32} {output : Output O}
    {files : Files} {ops : List (BenchOp F)} {b : Bench F O}
    (hr : run Bench.step (w₀.bench frequency output files) ops = some b) {guard : ProfilerGuard}
    (hactive : b.harness.active_profiler = some guard) :
    ∃ p act, b.observed.world.PROFILER = some (.ok p) ∧ p.running = true ∧
      p.old_sigaction = some act ∧ b.observed.world.guards = [] ∧
      (∀ faults now drop, b.harness.start_profiling b.observed.world faults now drop =
        (.error (.unwrap .Running),b.harness,{ b.observed.world with
          PROFILER := some (.ok ((ProfilerGuardBuilder.default.with_frequency
            b.harness.frequency).configure p)) })) ∧
      ∀ benchmark_dir calls,
        let stop := b.harness.stop_profiling b.observed.world b.files benchmark_dir calls
        (calls.create_dir_all = true ∨ calls.create = true →
          ∃ err, stop = (.error err,b.harness,b.observed.world,b.files)) ∧
        (calls.create_dir_all = false → calls.create = false →
          stop.2.1.active_profiler = none ∧ stop.2.2.1.os.Disarmed ∧
          (calls.drop = ⟨false,false⟩ → stop.2.2.1.running = false ∧
            stop.2.2.1.os.sigprof = act ∧ ∀ now drop,
              (stop.2.1.start_profiling stop.2.2.1 ⟨false,false⟩ now drop).1 = .ok ())) := by
  obtain ⟨ops',hrun⟩ := bench_run h₀ hr
  have hfreq := bench_frequency hr (by simp [hactive])
  have howned := (sound_observed_run h₀ hrun).owned
  have hwhole : b.whole.world.guards = guard :: b.observed.world.guards := by
    simp [Bench.whole,Observed.beside,World.beside,hactive]
  rcases howned with hnil | ⟨timer,p,act,hone,hp,hrunning,ha⟩
  · rw [hwhole] at hnil
    cases hnil
  rw [hwhole] at hone
  obtain ⟨rfl,hnil⟩ := List.cons.inj hone
  have hp : b.observed.world.PROFILER = some (.ok p) := hp
  refine ⟨p,act,hp,hrunning,ha,hnil,fun faults now drop => ?_,fun benchmark_dir calls => ?_⟩
  · have ht : trigger_lazy b.observed.world.PROFILER faults.create = .ok p := by
      rw [hp]
      rfl
    simp only [PProfProfiler.start_profiling,ProfilerGuard.new,build_running ht hrunning now]
  · intro stop
    rcases stop_profiling_cases b.harness b.observed.world b.files benchmark_dir calls with
      ⟨hfails,err,hstop⟩ | ⟨-,-,hnone,-⟩ | ⟨hdir,hcreate,profiler,lock,hprofiler,-,hstop⟩
    · refine ⟨fun _ => ⟨err,hstop⟩,fun hdir hcreate => ?_⟩
      simp [hdir,hcreate] at hfails
    · simp [hactive,hp] at hnone
    · rw [hactive] at hprofiler
      cases hprofiler
      have hstop : stop = _ := hstop
      refine ⟨fun hfails => by simp [hdir,hcreate] at hfails,fun _ _ => ?_⟩
      rw [hstop]
      have htimer : (⟨some timer⟩ : ProfilerGuard).timer = some timer := rfl
      refine ⟨rfl,drop_disarms htimer _ _,fun hclean => ?_⟩
      obtain ⟨data,hd,-⟩ := collector_new (T := UnresolvedFrames F)
      simp only [hclean,drop_started timer hp hrunning ha hd]
      refine ⟨rfl,trivial,fun now drop => ?_⟩
      obtain ⟨timer',hnext⟩ := build_guard
        (b := ProfilerGuardBuilder.default.with_frequency b.harness.frequency)
        (w := { b.observed.world with
          PROFILER := some (.ok { p with
            data, sample_counter := 0, old_sigaction := none, running := false })
          os := { Timer.drop b.observed.world.os with sigprof := act } })
        rfl rfl (show (⟨false,false⟩ : BuildFaults).sigaction = false from rfl) hfreq now
      simp only [PProfProfiler.start_profiling,ProfilerGuard.new,hnext]

end Calls

section Plain
variable [Layout (Entry (UnresolvedFrames PlainFrame))] [Target] [DefaultHasher] [Resolver]
variable {O : Type} [Exporters O]

theorem plain_bench (output : Output O) (files : Files) :
    ∃ (b : Bench PlainFrame O) (guard : ProfilerGuard),
      run Bench.step ((plainWorld : World PlainFrame).bench 99 output files)
        [.start ⟨false,false⟩ plainClock ⟨false,false⟩,.other (.signal plainInterrupted none)] =
          some b ∧
      b.harness = ⟨99,output,some guard⟩ ∧ b.observed.lost = false ∧
      b.observed.recorded.length = 1 := by
  obtain ⟨p,ht,hidle⟩ := plainWorld_trigger
  obtain ⟨timer,hb⟩ := build_guard (b := ProfilerGuardBuilder.default.with_frequency 99) ht hidle
    rfl (by decide) plainClock
  generalize hW : ({ (plainWorld : World PlainFrame) with
    PROFILER := some (.ok ((ProfilerGuardBuilder.default.with_frequency 99).started p
      (plainWorld : World PlainFrame).os))
    os := Os.setitimer { (plainWorld : World PlainFrame).os with
      sigprof := ((ProfilerGuardBuilder.default.with_frequency 99).configure p).handlerAction }
      ⟨interval 99,interval 99⟩ } : World PlainFrame) = w
  have hnew : ProfilerGuard.new 99 plainWorld ⟨false,false⟩ plainClock =
      (.ok (.ok ⟨some timer⟩),w) := hb.trans (by rw [← hW]; rfl)
  have hfirst : ((plainWorld : World PlainFrame).bench 99 output files).step
      (.start ⟨false,false⟩ plainClock ⟨false,false⟩) =
        some ⟨⟨w,[],false⟩,⟨99,output,some ⟨some timer⟩⟩,files⟩ := by
    simp only [Bench.step,World.bench,World.observed,PProfProfiler.start_profiling,
      PProfProfiler.new,hnew,Option.elim_none]
    rw [dropped_kept (.inl rfl)]
  have hrun₁ := run_cons_some hfirst []
  obtain ⟨calls,hcalls⟩ := bench_run plainWorld_fresh hrun₁
  obtain ⟨p₁,hprofiler⟩ : ∃ p₁, w.PROFILER = some (.ok p₁) := ⟨_,by rw [← hW]⟩
  have hhandler : w.os.sigprof.handler = .perf_signal_handler := by
    rw [← hW,setitimer_sigprof]
    rfl
  have hk := (sound_observed_run plainWorld_fresh hcalls).kept _ hprofiler fun _ => by
    simp [Bench.whole,Observed.beside,World.beside]
  obtain ⟨profiler,hhand⟩ := (hk.holding rfl).handler_total (by
    simp [Bench.whole,Observed.beside]) plainInterrupted (by decide)
  have hstep : w.step (.signal plainInterrupted none) =
      some { w with PROFILER := some profiler } := by
    simp only [World.step,hprofiler,hhandler,if_true,hhand]
  have hsecond : (⟨⟨w,[],false⟩,⟨99,output,some ⟨some timer⟩⟩,files⟩ : Bench PlainFrame O).step
      (.other (.signal plainInterrupted none)) = some
        ⟨⟨{ w with PROFILER := some profiler },[] ++ taken (.ok p₁) plainInterrupted,
          false || spillFails (.ok p₁) plainInterrupted none⟩,
          ⟨99,output,some ⟨some timer⟩⟩,files⟩ := by
    simp only [Bench.step,Observed.step,hstep,hprofiler,Option.map_some]
  rw [spillFails_none] at hsecond
  exact ⟨_,⟨some timer⟩,(run_snoc hrun₁ _).trans hsecond,rfl,rfl,rfl⟩

end Plain

@[reducible] def plainExporters : Exporters Unit where
  default := ()
  from_lines options lines := (options,lines.flatMap fun line => line.toUTF8.toList,true)
  encode profile := some (profile.string_table.flatMap fun s => s.toUTF8.toList)

theorem harness_owns_plain :
    letI := plainTarget
    letI := plainHasher
    letI := plainLayout
    letI := plainResolver
    letI := plainExporters
    ∃ (b : Bench PlainFrame Unit) (act : SigAction),
      run Bench.step ((plainWorld : World PlainFrame).bench 99 .Protobuf fun _ => none)
        [.start ⟨false,false⟩ plainClock ⟨false,false⟩,.other (.signal plainInterrupted none)] =
          some b ∧
      (b.harness.start_profiling b.observed.world ⟨false,false⟩ plainClock ⟨false,false⟩).1 =
        .error (.unwrap .Running) ∧
      (b.harness.stop_profiling b.observed.world b.files "target"
        ⟨false,false,plainClock,none,.inOrder,none,⟨false,false⟩⟩).2.2.1.os.sigprof = act := by
  let _ := plainTarget
  let _ := plainHasher
  let _ := plainLayout
  let _ := plainResolver
  let _ := plainExporters
  obtain ⟨b,guard,hrun,hharness,-⟩ := plain_bench (O := Unit) .Protobuf fun _ => none
  have hactive : b.harness.active_profiler = some guard := by rw [hharness]
  obtain ⟨p,act,-,-,-,-,hstart,hstop⟩ := harness_owns plainWorld_fresh hrun hactive
  obtain ⟨-,hends⟩ := hstop "target" ⟨false,false,plainClock,none,.inOrder,none,⟨false,false⟩⟩
  obtain ⟨-,-,hclean⟩ := hends rfl rfl
  exact ⟨b,act,hrun,by rw [hstart],(hclean rfl).2.1⟩

theorem harness_exports_plain :
    letI := plainTarget
    letI := plainHasher
    letI := plainLayout
    letI := plainResolver
    letI := plainExporters
    ∃ (b : Bench PlainFrame Unit) (p : Profile),
      run Bench.step ((plainWorld : World PlainFrame).bench 99 .Protobuf fun _ => none)
        [.start ⟨false,false⟩ plainClock ⟨false,false⟩,.other (.signal plainInterrupted none)] =
          some b ∧
      p.WellFormed ∧ total (fun _ => true) p.decoded = 1 ∧
      (b.harness.stop_profiling b.observed.world b.files "target"
        ⟨false,false,plainClock,none,.inOrder,none,⟨false,false⟩⟩).1 = .ok () := by
  let _ := plainTarget
  let _ := plainHasher
  let _ := plainLayout
  let _ := plainResolver
  let _ := plainExporters
  obtain ⟨b,guard,hrun,hharness,hlost,hlen⟩ := plain_bench (O := Unit) .Protobuf fun _ => none
  have hactive : b.harness.active_profiler = some guard := by rw [hharness]
  obtain ⟨-,hexact⟩ := harness_exports plainWorld_fresh hrun hactive "target"
    ⟨false,false,plainClock,none,.inOrder,none,⟨false,false⟩⟩ rfl rfl
  obtain ⟨reps,⟨hreps,-⟩,hprofile,-⟩ := hexact hlost rfl
  obtain ⟨p,hwf,hdecoded,-,hok⟩ := hprofile (by rw [hharness])
  refine ⟨b,p,hrun,hwf,(hdecoded _).trans ?_,hok _ rfl rfl⟩
  simp [hreps,hlen]

end Pprof
