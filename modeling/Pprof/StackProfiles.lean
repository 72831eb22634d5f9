import Pprof.Exports
import Pprof.SignalHandler
set_option autoImplicit false

/-! From the stack of an interrupted thread to the exports. What a profile shows depends on
what lies on the stacks alone, and not on the descriptors by which they were probed. -/

namespace Pprof
open ByteMemory Descriptors FormalSum Memory Protos Runs Visiting

/-- The callers on a stack, along its frame records, as long as a record can be read and does
not lie below the one before. -/
def callers (memory : UInt64 → Option UInt8) : Nat → UInt64 → UInt64 → List IpFrame
  | 0, _, _ => []
  | n+1, frame_pointer, last_frame_pointer =>
    if frame_pointer = 0 ∨ frame_pointer < last_frame_pointer then []
    else
      match read_ptr FramePointerLayout.pointee memory frame_pointer with
      | none => []
      | some record => ⟨record.ret⟩ :: callers memory n record.frame_pointer frame_pointer

def bareSurroundings (memory : UInt64 → Option UInt8) : Surroundings where
  read_ptr _ ptr := (read_ptr FramePointerLayout.pointee memory ptr).getD ⟨0,0⟩
  validate _ ptr := decide (ptr ≠ 0 ∧ Loadable memory ptr CHECK_LENGTH)

theorem bare_next (memory : UInt64 → Option UInt8) (i : Nat)
    (frame_pointer last_frame_pointer : UInt64) :
    ((bareSurroundings memory).next (i,frame_pointer,last_frame_pointer) = none ∧
      ∀ n, callers memory (n+1) frame_pointer last_frame_pointer = []) ∨
    ∃ record : FramePointerLayout,
      (bareSurroundings memory).next (i,frame_pointer,last_frame_pointer) =
        some (⟨record.ret⟩,i+1,record.frame_pointer,frame_pointer) ∧
      ∀ n, callers memory (n+1) frame_pointer last_frame_pointer =
        ⟨record.ret⟩ :: callers memory n record.frame_pointer frame_pointer := by
  by_cases hlast : last_frame_pointer ≠ 0 ∧ frame_pointer < last_frame_pointer
  · refine .inl ⟨if_pos hlast,fun n => ?_⟩
    rw [callers,if_pos (.inr hlast.2)]
  · by_cases hv : frame_pointer ≠ 0 ∧ Loadable memory frame_pointer CHECK_LENGTH
    · obtain ⟨record,-,hread⟩ := deref_read_ptr (t := FramePointerLayout.pointee) hv.2
      have hend : ¬ (frame_pointer = 0 ∨ frame_pointer < last_frame_pointer) := by
        rintro (h0 | hlt)
        · exact hv.1 h0
        · exact hlast (below_last.mpr hlt)
      have hok : ¬ (bareSurroundings memory).validate i frame_pointer = false := by
        simpa [bareSurroundings] using hv
      have hrecord : (bareSurroundings memory).read_ptr i frame_pointer = record := by
        simp only [bareSurroundings,hread,Option.getD_some]
      refine .inr ⟨record,?_,fun n => ?_⟩
      · simp only [Surroundings.next,if_neg hlast,if_neg hok,hrecord]
      · simp only [callers,if_neg hend,hread]
    · have hstop : (bareSurroundings memory).validate i frame_pointer = false :=
        decide_eq_false hv
      refine .inl ⟨?_,fun n => ?_⟩
      · simp only [Surroundings.next,if_neg hlast,if_pos hstop]
      · by_cases h0 : frame_pointer = 0
        · rw [callers,if_pos (.inl h0)]
        · have hnone : read_ptr FramePointerLayout.pointee memory frame_pointer = none := by
            rw [read_ptr_eq]
            exact congrArg (Option.map _) (load_of_not_loadable fun hl => hv ⟨h0,hl⟩)
          simp only [callers,hnone,ite_self]

theorem offered_callers (memory : UInt64 → Option UInt8) (n i : Nat)
    (frame_pointer last_frame_pointer : UInt64) :
    offered (bareSurroundings memory).next n (i,frame_pointer,last_frame_pointer) =
      callers memory n frame_pointer last_frame_pointer := by
  induction n generalizing i frame_pointer last_frame_pointer with
  | zero => rfl
  | succ n ih =>
    rcases bare_next memory i frame_pointer last_frame_pointer with
      ⟨hnext,hcallers⟩ | ⟨record,hnext,hcallers⟩
    · rw [hcallers,offered,hnext]
    · rw [hcallers,offered,hnext,← ih (i+1)]

section Fixed
variable {capacity : Nat} {memory : UInt64 → Option UInt8} {moments : Nat → Moment}
  {I : Nat → Process → Prop}

theorem loop_fixed {S : Type} (ha : Answers capacity moments I)
    (hfixed : ∀ i, (moments i).memory = memory) (cb : IpFrame → S → Bool × S) (n i : Nat)
    {s : Process} (h : I i s) (frame_pointer last_frame_pointer : UInt64) (c : S) :
    ∃ j s', I j s' ∧
      Process.loop capacity moments cb n i s frame_pointer last_frame_pointer c =
        ((bareSurroundings memory).loop cb n i frame_pointer last_frame_pointer c).map
          fun r => .ok (r.1,s') := by
  induction n generalizing i s frame_pointer last_frame_pointer c with
  | zero => exact ⟨i,s,h,rfl⟩
  | succ n ih =>
    by_cases hlast : last_frame_pointer ≠ 0 ∧ frame_pointer < last_frame_pointer
    · refine ⟨i,s,h,?_⟩
      simp only [Process.loop,Surroundings.loop,if_pos hlast,Option.map_some]
    · have hvalid := ha.valid i s frame_pointer h
      have hkept := ha.kept i s frame_pointer h
      rw [hfixed] at hvalid
      rcases hc : s.check capacity (moments i) frame_pointer with ⟨valid,s₁⟩
      rw [hc] at hvalid hkept
      have hsame : (bareSurroundings memory).validate i frame_pointer = valid := by
        rw [Bool.eq_iff_iff]
        exact decide_eq_true_iff.trans hvalid.symm
      cases valid with
      | false =>
        refine ⟨i+1,s₁,hkept,?_⟩
        simp only [Process.loop,Surroundings.loop,if_neg hlast,hc,hsame,if_true,Option.map_some]
      | true =>
        obtain ⟨layout,hd,hread⟩ := deref_read_ptr (t := FramePointerLayout.pointee)
          (hvalid.mp rfl).2
        have hlayout : (bareSurroundings memory).read_ptr i frame_pointer = layout := by
          simp only [bareSurroundings,hread,Option.getD_some]
        have hok : ¬ (bareSurroundings memory).validate i frame_pointer = false := by simp [hsame]
        rcases hcb : cb ⟨layout.ret⟩ c with ⟨go,c₁⟩
        cases go with
        | false =>
          refine ⟨i+1,s₁,hkept,?_⟩
          simp only [Process.loop,Surroundings.loop,if_neg hlast,hc,hfixed,hd,hlayout,if_neg hok,
            hcb,Option.map_some]
        | true =>
          obtain ⟨j,s',hs',hloop⟩ := ih (i+1) hkept layout.frame_pointer frame_pointer c₁
          refine ⟨j,s',hs',?_⟩
          simp only [Process.loop,Surroundings.loop,if_neg hlast,hc,hfixed,hd,hlayout,if_neg hok,
            hcb,hloop,Option.map_map,Function.comp_def]

end Fixed

/-- From the `i`-th call of a walk on: `validate` has its pipe, or it can make one as long as
nobody else is about. -/
inductive Process.Serves (moments : Nat → Moment) (pipes i : Nat) (s : Process) : Prop where
  | settled (h : s.Settled pipes)
  | alone (h : s.Unopened) (made : s.table.pipes = pipes)
      (calls : ∀ j, i ≤ j → (moments j).aside = [] ∧ s.CanOpen (moments j).call)

theorem alone_check {capacity pipes i : Nat} (hcap : CHECK_LENGTH ≤ capacity)
    {moments : Nat → Moment} {s : Process} (h : s.Unopened) (made : s.table.pipes = pipes)
    (calls : ∀ j, i ≤ j → (moments j).aside = [] ∧ s.CanOpen (moments j).call) (addr : UInt64) :
    ((s.check capacity (moments i) addr).1 = true ↔
      addr ≠ 0 ∧ Loadable (moments i).memory addr CHECK_LENGTH) ∧
      Process.Serves moments pipes (i+1) (s.check capacity (moments i) addr).2 := by
  obtain ⟨haside,hopen⟩ := calls i (Nat.le_refl i)
  obtain ⟨c,hc⟩ : ∃ c : Validate,
      c = { (moments i).call with access := ⟨addr,(moments i).memory⟩ } := ⟨_,rfl⟩
  have hcheck : s.check capacity (moments i) addr = s.validate capacity c := by
    rw [Process.check,haside,hc]
    rfl
  have haccess : c.access = ⟨addr,(moments i).memory⟩ := by rw [hc]
  have hcan : s.Opened ∨ s.CanOpen c := .inr (hc ▸ hopen)
  have hsound : s.Sound pipes := .unopened h made
  obtain ⟨hvalid,-⟩ := hsound.validate hcap c
  rw [haccess] at hvalid
  rw [hcheck]
  refine ⟨hvalid.trans ⟨fun hv => ⟨hv.1,hv.2.1⟩,fun hv => ⟨hv.1,hv.2,hcan⟩⟩,?_⟩
  by_cases h0 : addr = 0
  · rw [Process.validate,haccess,if_pos h0]
    exact .alone h made fun j hj => calls j (Nat.le_of_succ_le hj)
  · exact .settled (validate_settles hcap hsound (by rwa [haccess]) hcan)

theorem serves_check {capacity pipes i : Nat} (hcap : CHECK_LENGTH ≤ capacity)
    {moments : Nat → Moment} {s : Process} (h : s.Serves moments pipes i) (addr : UInt64) :
    ((s.check capacity (moments i) addr).1 = true ↔
      addr ≠ 0 ∧ Loadable (moments i).memory addr CHECK_LENGTH) ∧
      Process.Serves moments pipes (i+1) (s.check capacity (moments i) addr).2 := by
  cases h with
  | settled h =>
    obtain ⟨hvalid,hsettled⟩ := settled_check hcap h (moments i) addr
    exact ⟨hvalid,.settled hsettled⟩
  | alone h made calls => exact alone_check hcap h made calls addr

theorem serves_answers {capacity : Nat} (hcap : CHECK_LENGTH ≤ capacity)
    (moments : Nat → Moment) (pipes : Nat) :
    Answers capacity moments (Process.Serves moments pipes) where
  valid _ _ addr h := (serves_check hcap h addr).1
  kept _ _ addr h := (serves_check hcap h addr).2

theorem Process.Sound.serves {pipes : Nat} {s : Process} (h : s.Sound pipes)
    {moments : Nat → Moment}
    (hserved : s.Opened ∨ ∀ i, (moments i).aside = [] ∧ s.CanOpen (moments i).call) :
    s.Serves moments pipes 0 := by
  rcases hserved with hopened | hcan
  · exact .settled (h.settled hopened)
  · cases h with
    | unopened h made => exact .alone h made fun j _ => hcan j
    | opened piped made held => exact .settled ⟨piped,made,held⟩

section Walks
variable [Layout (Entry (UnresolvedFrames IpFrame))] [Target] [Symbolizer]
variable {σ : Type}

def TraceImpl.finds (impl : TraceImpl σ) (memory : UInt64 → Option UInt8)
    (ctx : Option SignalContext) (n : Nat) : List IpFrame :=
  match impl with
  | .frame_pointer => ctx.elim [] fun ctx => callers memory n ctx.frame_pointer 0
  | .framehop none => []
  | .framehop (some unwinder) => (get_regs_from_context ctx).elim [] fun start =>
      offered unwinder.native.frame n
        (unwinder.native.iter_frames start.2 start.1 (read_stack (bareStack memory)))

theorem walk_finds {capacity : Nat} {memory : UInt64 → Option UInt8} {moments : Nat → Moment}
    {I : Nat → Process → Prop} (ha : Answers capacity moments I)
    (hfixed : ∀ i, (moments i).memory = memory) {s : Process} (h : I 0 s) (impl : TraceImpl σ)
    (ctx : Option SignalContext) (p : Profiler IpFrame) {n : Nat} (hn : MAX_DEPTH < n) :
    ∃ bt s', impl.trace capacity moments p.callback n s ctx ([],0) =
      some (.ok ((bt,bt.length),s')) ∧ bt = p.capture 0 (impl.finds memory ctx n) := by
  cases impl with
  | frame_pointer =>
    cases ctx with
    | none => exact ⟨[],s,rfl,rfl⟩
    | some ctx =>
      obtain ⟨bt,calls,hv,hbt⟩ := visit_offered p (bareSurroundings memory).next
        (0,ctx.frame_pointer,0) hn
      rw [offered_callers] at hbt
      have hloop : ((bareSurroundings memory).loop p.callback n 0 ctx.frame_pointer 0
          ([],0)).map Prod.fst = some (bt,bt.length) := by
        rw [loop_visit,hv]
        rfl
      obtain ⟨r,hr,hrbt⟩ := Option.map_eq_some_iff.mp hloop
      obtain ⟨-,s',-,hs'⟩ := loop_fixed ha hfixed p.callback n 0 h ctx.frame_pointer 0
        (([],0) : List IpFrame × Nat)
      refine ⟨bt,s',?_,hbt⟩
      rw [hr] at hs'
      exact hs'.trans (by rw [Option.map_some,hrbt])
  | framehop unwinder =>
    cases unwinder with
    | none => exact ⟨[],s,rfl,rfl⟩
    | some unwinder =>
      obtain ⟨-,s',-,hs'⟩ := iter_frames_fixed ha hfixed unwinder p.callback n h ctx
        (([],0) : List IpFrame × Nat)
      cases hregs : get_regs_from_context ctx with
      | none =>
        refine ⟨[],s',?_,by simp [TraceImpl.finds,hregs,Profiler.capture]⟩
        simpa [TraceImpl.trace,FramehopUnwinder.iter_frames,hregs] using hs'
      | some start =>
        obtain ⟨bt,calls,hv,hbt⟩ := visit_offered p unwinder.native.frame
          (unwinder.native.iter_frames start.2 start.1 (read_stack (bareStack memory))) hn
        refine ⟨bt,s',?_,by simpa [TraceImpl.finds,hregs] using hbt⟩
        simpa [TraceImpl.trace,FramehopUnwinder.iter_frames,hregs,hv] using hs'

end Walks

section Whole
variable [Layout (Entry (UnresolvedFrames IpFrame))] [Target] [Symbolizer] [DefaultHasher]
variable {σ τ : Type}

def Interruption.memory (at_ : Interruption) : UInt64 → Option UInt8 := (at_.moments 0).memory

def Interruption.stack (at_ : Interruption) (impl : TraceImpl σ) (n : Nat) :
    Interrupted IpFrame where
  addr := at_.addr
  trace := impl.finds at_.memory at_.ucontext n
  thread_name := at_.name.toOption.getD []
  thread_id := at_.current_thread
  sample_timestamp := at_.sample_timestamp

def SystemEvent.op (impl : TraceImpl σ) (n : Nat) : SystemEvent → Option (Op IpFrame)
  | .call op => some op
  | .aside _ => none
  | .signal at_ =>
    if at_.unlocked then some (.signal (at_.stack impl n) at_.fault) else none

/-- The stack stays as it is during a walk, and if the pipe is yet to be made then it can be. -/
def System.Served (c : System) : SystemEvent → Prop
  | .signal at_ => at_.unlocked = true → (∀ i, (at_.moments i).memory = at_.memory) ∧
      (c.process.Opened ∨
        ∀ i, (at_.moments i).aside = [] ∧ c.process.CanOpen (at_.moments i).call)
  | _ => True

variable {capacity pipes n : Nat} {impl : TraceImpl σ}

theorem handler_stack (impl : TraceImpl σ) (hcap : CHECK_LENGTH ≤ capacity)
    (hn : MAX_DEPTH < n) {s : Process} (h : s.Sound pipes) {at_ : Interruption}
    (hfixed : ∀ i, (at_.moments i).memory = at_.memory)
    (hserved : s.Opened ∨ ∀ i, (at_.moments i).aside = [] ∧ s.CanOpen (at_.moments i).call)
    (p : Profiler IpFrame) :
    perf_signal_handler (.ok p) (s.interrupted capacity impl n p at_) at_.fault =
      perf_signal_handler (.ok p) (at_.stack impl n) at_.fault := by
  obtain ⟨bt,s',hwalk,hbt⟩ := walk_finds (serves_answers hcap at_.moments pipes) hfixed
    (h.serves hserved) impl at_.ucontext p hn
  have hcapture : p.capture 0 (s.interrupted capacity impl n p at_).trace =
      p.capture 0 (at_.stack impl n).trace := by
    simp only [Process.interrupted,hwalk]
    rw [hbt,capture_idem]
    rfl
  simp only [perf_signal_handler,hcapture]
  rfl

theorem system_told (hcap : CHECK_LENGTH ≤ capacity) (hn : MAX_DEPTH < n) (c : System)
    (e : SystemEvent) (c' : System) (h : c.Sound pipes) (hserved : c.Served e)
    (hs : c.step capacity impl n e = some c') :
    c'.Sound pipes ∧ run World.step c.world (e.op impl n).toList = some c'.world := by
  obtain ⟨hsound,hrun⟩ := system_step hcap hn c e c' h hs
  refine ⟨hsound,?_⟩
  cases e with
  | call op => exact hrun
  | aside e => exact hrun
  | signal at_ =>
    obtain ⟨world,process⟩ := c
    obtain ⟨PROFILER,os,guards⟩ := world
    cases PROFILER with
    | none => cases hs
    | some profiler =>
      by_cases hhandler : os.sigprof.handler = .perf_signal_handler
      · cases hu : at_.unlocked with
        | false => cases profiler <;> simpa [System.ops,SystemEvent.op,hu] using hrun
        | true =>
          obtain ⟨hfixed,hopen⟩ := hserved hu
          cases profiler with
          | error err =>
            simpa [System.ops,SystemEvent.op,hu,run_cons,World.step,hhandler,
              perf_signal_handler] using hrun
          | ok p =>
            have hstack := handler_stack impl hcap hn h.process hfixed hopen p
            simp only [System.ops,hu,if_true,run_cons,World.step,hstack] at hrun
            simpa [SystemEvent.op,hu,run_cons,World.step] using hrun
      · simp only [System.step,if_neg hhandler] at hs
        cases hs

/-- From the stacks of the interrupted threads to the exports: each run of the process is for
the profiler the run in which every signal that gets the lock comes with the frames that lie
on its stack, and the exports of a live guard show the representatives of these. -/
theorem profiles_show_stacks [Resolver] (hcap : CHECK_LENGTH ≤ capacity) (hn : MAX_DEPTH < n)
    {w₀ : World IpFrame} (h₀ : w₀.Fresh) {s₀ : Process} (hs₀ : s₀.Unopened)
    {es : List SystemEvent} {c : System}
    (hr : run (System.step capacity impl n) ⟨w₀,s₀⟩ es = some c)
    (hserved : Along (System.step capacity impl n) System.Served ⟨w₀,s₀⟩ es) :
    ∃ o : Observed IpFrame,
      run Observed.step w₀.observed (es.filterMap (SystemEvent.op impl n)) = some o ∧
      o.world = c.world ∧
      (o.lost = false → ∀ guard ∈ c.world.guards, ∀ (now : Clock)
        (processor : Option (Frames → Frames)) (s : τ), ∃ profiler r reps,
        c.world.PROFILER = some profiler ∧
        ReportBuilder.build { guard.report (σ := τ) profiler now with
          frames_post_processor := processor.map stateless } s none = .ok (.ok r) ∧
        Represents o.recorded reps ∧
        ∀ it : Iterated r,
          (∃ p, r.pprof it = .ok p ∧ p.WellFormed ∧ ∀ q, total q p.decoded =
            reps.countP fun u => q (processor.getD id (Frames.from u)).shown) ∧
          ∀ q, total q ((folded_lines it.iter).filterMap read_folded) =
            reps.countP fun u => q (processor.getD id (Frames.from u)).parts) := by
  obtain ⟨-,hrun⟩ := run_filterMap (fun c e c' => system_told hcap hn c e c')
    (system_sound h₀ hs₀) hserved hr
  have hadded := run_added observed_world w₀.observed (es.filterMap (SystemEvent.op impl n))
  rw [World.observed,hrun] at hadded
  obtain ⟨o,ho,hworld⟩ := Option.map_eq_some_iff.mp hadded
  refine ⟨o,ho,hworld,fun hlost guard hg now processor s => ?_⟩
  rw [← hworld] at hg ⊢
  obtain ⟨p,timer,hp,hk,htimer,hfreq⟩ := session_of_guard h₀ ho hg
  obtain ⟨r,reps,hbuild,hreps,-,hexports⟩ := (hk.holding hlost).shown htimer hfreq now processor s
  exact ⟨.ok p,r,reps,hp,hbuild,hreps,hexports⟩

end Whole

def oneCaller (addr : UInt64) : Option UInt8 :=
  if 4096 ≤ addr ∧ addr < 4112 then
    some (if addr = 4104 then 208 else if addr = 4105 then 7 else 0)
  else none

def firstSignal : Interruption := { ordinary with
  ucontext := some (interruptedAt 1000 4096)
  moments := fun _ => ⟨[],.interrupted,oneCaller⟩ }

theorem profiles_show_stacks_first :
    letI := plainTarget
    letI := plainHasher
    letI := plainResolver
    letI : Symbolizer := ⟨id,fun _ => []⟩
    letI : Layout (Entry (UnresolvedFrames IpFrame)) := indexedLayout _ 1096 (Nat.succ_pos 1095)
    ∃ (c : System) (o : Observed IpFrame) (guard : ProfilerGuard)
      (profiler : Except Error (Profiler IpFrame)) (r : Report) (p : Profile),
      run (System.step 65536 (.frame_pointer : TraceImpl Unit) 129) ⟨openWorld,.started⟩
        [.call plainBuild,.signal firstSignal] = some c ∧
      run Observed.step openWorld.observed [plainBuild,
        .signal (firstSignal.stack (.frame_pointer : TraceImpl Unit) 129) none] = some o ∧
      o.recorded.map UnresolvedFrames.frames = [[⟨2000⟩]] ∧ guard ∈ c.world.guards ∧
      ReportBuilder.build (guard.report (σ := Unit) profiler plainClock) () none = .ok (.ok r) ∧
      r.pprof (.inOrder r) = .ok p ∧ total (fun _ => true) p.decoded = 1 := by
  let _ := plainTarget
  let _ := plainHasher
  let _ := plainResolver
  let _ : Symbolizer := ⟨id,fun _ => []⟩
  let _ : Layout (Entry (UnresolvedFrames IpFrame)) := indexedLayout _ 1096 (Nat.succ_pos 1095)
  obtain ⟨w,p,hw,hp,hhandler,hblock,hcount,hguards⟩ := openWorld_build
  have hsound : System.Sound ⟨w,.started⟩ 0 := ⟨.unopened Process.started_unopened rfl,
    bounded_step _ _ _ (bounded_fresh openWorld_fresh) hw⟩
  have hfine : ¬ firstSignal.Fatal p := by simp [Interruption.Fatal,firstSignal,ordinary,hcount]
  obtain ⟨c,hsignal⟩ := system_signal_taken (.frame_pointer : TraceImpl Unit) (n := 129)
    (by decide : CHECK_LENGTH ≤ 65536) (by decide) hsound hp hhandler hfine
  have hcall : System.step 65536 (.frame_pointer : TraceImpl Unit) 129 ⟨openWorld,.started⟩
      (.call plainBuild) = some ⟨w,.started⟩ := by
    simp only [System.step,plainBuild]
    rw [← plainBuild,hw]
    rfl
  have hrun : run (System.step 65536 (.frame_pointer : TraceImpl Unit) 129)
      ⟨openWorld,.started⟩ [.call plainBuild,.signal firstSignal] = some c :=
    (run_cons_some hcall _).trans (run_cons_some hsignal [])
  have hserved : Along (System.step 65536 (.frame_pointer : TraceImpl Unit) 129) System.Served
      ⟨openWorld,.started⟩ [.call plainBuild,.signal firstSignal] := by
    refine .cons trivial hcall (.cons (fun _ => ⟨fun _ => rfl,.inr fun _ => ⟨rfl,?_⟩⟩) hsignal
      trivial)
    exact rfl
  obtain ⟨o,ho,hworld,hshow⟩ := profiles_show_stacks (τ := Unit) (by decide) (by decide)
    openWorld_fresh Process.started_unopened hrun hserved
  have hevents : [SystemEvent.call plainBuild,.signal firstSignal].filterMap
      (SystemEvent.op (.frame_pointer : TraceImpl Unit) 129) = [plainBuild,
        .signal (firstSignal.stack (.frame_pointer : TraceImpl Unit) 129) none] := rfl
  rw [hevents] at ho
  have htrace : (firstSignal.stack (.frame_pointer : TraceImpl Unit) 129).trace = [⟨2000⟩] := by
    decide
  have htaken : (taken (.ok p) (firstSignal.stack (.frame_pointer : TraceImpl Unit) 129)).map
      UnresolvedFrames.frames = [[⟨2000⟩]] := by
    have hcapture : p.capture 0 [⟨2000⟩] = [⟨2000⟩] := by
      rw [capture_eq]
      rfl
    have haddr : (firstSignal.stack (.frame_pointer : TraceImpl Unit) 129).addr.any
        p.is_blocklisted = false := by
      simp [Interruption.stack,firstSignal,Interruption.addr,Profiler.is_blocklisted,hblock]
    simp only [taken,haddr,htrace,hcapture]
    rfl
  obtain ⟨hrecorded,hlost,hsame⟩ : o.recorded = taken (.ok p)
      (firstSignal.stack (.frame_pointer : TraceImpl Unit) 129) ∧ o.lost = false ∧
      o.world.guards = w.guards := by
    obtain ⟨o₁,h₁,h₂⟩ := run_cons_eq_some ho
    obtain ⟨w₁,hw₁,rfl⟩ := Option.map_eq_some_iff.mp h₁
    obtain rfl : w₁ = w := Option.some.inj (hw₁.symm.trans hw)
    obtain ⟨o₂,h₃,h₄⟩ := run_cons_eq_some h₂
    cases h₄
    obtain ⟨w₂,hw₂,rfl⟩ := Option.map_eq_some_iff.mp h₃
    obtain ⟨profiler,profiler',-,-,-,rfl⟩ := step_signal hw₂
    simp only [hp,plainBuild,World.observed,List.nil_append,Bool.false_or,spillFails_none]
    exact ⟨trivial,trivial,trivial⟩
  obtain ⟨guard,hguard⟩ : ∃ guard, guard ∈ c.world.guards := by
    rw [← hworld,hsame]
    exact List.exists_mem_of_length_pos (by rw [hguards]; exact Nat.one_pos)
  obtain ⟨profiler,r,reps,-,hbuild,⟨hreps,-⟩,hexports⟩ :=
    hshow hlost guard hguard plainClock none ()
  obtain ⟨⟨q,hq,-,htotal⟩,-⟩ := hexports (.inOrder r)
  refine ⟨c,o,guard,profiler,r,q,hrun,ho,hrecorded ▸ htaken,hguard,hbuild,hq,(htotal _).trans ?_⟩
  have hlen : o.recorded.length = 1 := by
    have h := congrArg List.length htaken
    rwa [List.length_map,← hrecorded] at h
  simp [hreps,hlen]

end Pprof
