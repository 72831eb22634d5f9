import Pprof.Attribution
import Pprof.Flamegraph
import Pprof.ProfileDecoding
import Pprof.ReportFaults
set_option autoImplicit false

/-! From the samples of a session to what its exporters show. Neither the collector, nor the
hash map of the report, nor the tables of the profile, nor the lines of the flamegraph lose a
sample or show it twice, and none of them panics. -/

namespace Pprof
open Assoc FormalSum Iteration Ledger Memory Protos Runs TempFile

section Shown
variable [Resolver]

/-- A stack as a profile shows it: the names from the leaf on, and the labels. -/
def Frames.shown (key : Frames) : List String × List (String × String) :=
  (key.symbols.map Symbol.get_name,[(THREAD,key.thread_name_or_id)])

/-- A stack as the reader of the folded lines gets it. -/
def Frames.parts (key : Frames) : List String := (key.stack_text.splitOn ';').map String.ofList

theorem parts_of_separable {key : Frames} (h : key.Separable) : key.parts = key.folded := by
  rw [Frames.parts,(separable_iff key).mpr h,List.map_map]
  simp

theorem names_of_stack {a b : Frames} (h : a.stack = b.stack) :
    a.frames.map (fun symbols => symbols.map Symbol.get_name) =
        b.frames.map (fun symbols => symbols.map Symbol.get_name) ∧
      a.thread_name_or_id = b.thread_name_or_id := by
  obtain ⟨hframes,hthread⟩ := Prod.mk.inj h
  obtain ⟨hname,hid⟩ := Prod.mk.inj hthread
  have hnames : ∀ frames : List (List Symbol),
      frames.map (fun symbols => symbols.map Symbol.get_name) =
        (frames.map fun symbols => symbols.map Symbol.raw_name).map fun names =>
          names.map fun name => demangle (Utf8.from_utf8_lossy name) := by
    intro frames
    rw [List.map_map]
    refine List.map_congr_left fun symbols _ => ?_
    simp only [Function.comp,List.map_map]
    rfl
  refine ⟨by rw [hnames,hnames,hframes],?_⟩
  simp only [Frames.thread_name_or_id,hname,hid]

theorem shown_of_stack {a b : Frames} (h : a.stack = b.stack) : a.shown = b.shown := by
  obtain ⟨hnames,hthread⟩ := names_of_stack h
  have hflat := congrArg List.flatten hnames
  simp only [← List.map_flatten] at hflat
  simp only [Frames.shown,Frames.symbols,hflat,hthread]

theorem parts_of_stack {a b : Frames} (h : a.stack = b.stack) : a.parts = b.parts := by
  obtain ⟨hnames,hthread⟩ := names_of_stack h
  have hfolded : ∀ key : Frames, key.folded = key.thread_name_or_id ::
      (key.frames.map fun symbols => symbols.map Symbol.get_name).reverse.flatMap
        List.reverse := by
    intro key
    simp only [Frames.folded,← List.map_reverse,List.flatMap_map]
  simp only [Frames.parts,Frames.stack_text,hfolded,hnames,hthread]

def Protos.Profile.decoded (p : Profile) :
    List ((List String × List (String × String)) × Int) :=
  p.sample.filterMap fun s => (p.decode s).map fun (names,value,labels) =>
    ((names,labels),value.getD 0)

theorem decoded_perm {r : Report} (h : Representable r) (o : Iterated r) :
    ∃ p, r.pprof o = .ok p ∧ p.WellFormed ∧
      p.decoded.Perm (r.data.entries.map fun e => (e.1.shown,e.2)) := by
  obtain ⟨p,hp,hwf,hperm⟩ := pprof_decodes h o
  refine ⟨p,hp,hwf,?_⟩
  have hd := hperm.filterMap (f := fun d : Option (List String × Option Int ×
    List (String × String)) => d.map fun d => ((d.1,d.2.2),d.2.1.getD 0))
  rw [List.filterMap_map,List.filterMap_map] at hd
  have hentries : r.data.entries.map (fun e => (e.1.shown,e.2)) =
      r.data.entries.filterMap ((fun d : Option (List String × Option Int ×
        List (String × String)) => d.map fun d => ((d.1,d.2.2),d.2.1.getD 0)) ∘ fun e =>
        some (e.1.symbols.map Symbol.get_name,some e.2,[(THREAD,e.1.thread_name_or_id)])) := by
    rw [← List.filterMap_eq_map]
    rfl
  rw [hentries]
  exact hd

theorem read_folded_lines (iter : List (Frames × Int)) :
    (folded_lines iter).filterMap read_folded = iter.map fun e => (e.1.parts,e.2) := by
  rw [folded_lines,List.filterMap_map,← List.filterMap_eq_map]
  exact List.filterMap_congr fun e _ => read_folded_line e.1 e.2

omit [Resolver] in
theorem total_perm {α : Type} {l m : List (α × ℤ)} (h : l.Perm m) (q : α → Bool) :
    total q l = total q m := weigh_eq_of_formalSum_eq (formalSum_perm h) _

omit [Resolver] in
theorem total_map {α β : Type} (q : β → Bool) (f : α → β) (l : List (α × ℤ)) :
    total q (l.map fun e => (f e.1,e.2)) = total (fun a => q (f a)) l := weigh_map _ f l

theorem exports_total {r : Report} (h : Representable r) (o : Iterated r) :
    (∃ p, r.pprof o = .ok p ∧ p.WellFormed ∧
      ∀ q, total q p.decoded = total (fun key => q key.shown) r.data.entries) ∧
    ∀ q, total q ((folded_lines o.iter).filterMap read_folded) =
      total (fun key => q key.parts) r.data.entries := by
  obtain ⟨p,hp,hwf,hperm⟩ := decoded_perm h o
  refine ⟨⟨p,hp,hwf,fun q => ?_⟩,fun q => ?_⟩
  · rw [total_perm hperm,total_map]
  · rw [read_folded_lines,total_map,total_perm o.iter_perm]

end Shown

def stateless {σ : Type} (f : Frames → Frames) (key : Frames) (s : σ) : Frames × σ := (f key,s)

section Samples
variable {F : Type} [Layout (Entry (UnresolvedFrames F))] [Target] [Frame F] [DefaultHasher]
variable [Resolver] {σ : Type}

omit [Layout (Entry (UnresolvedFrames F))] [Target] [DefaultHasher] in
theorem processed_stateless (processor : Option (Frames → Frames))
    (es : List (Entry (UnresolvedFrames F))) (s : σ) :
    processed (processor.map stateless) es s =
      (es.map Entry.pair).map fun e => (processor.getD id (Frames.from e.1),e.2) := by
  induction es with
  | nil => rfl
  | cons e es ih => cases processor <;> simp_all [processed,Entry.pair,stateless]

theorem Holding.exported {p : Profiler F} {samples : List (UnresolvedFrames F)}
    (h : Holding p samples) {b : ReportBuilder F σ} (hb : b.profiler = .ok p)
    {processor : Option (Frames → Frames)}
    (hf : b.frames_post_processor = processor.map stateless) (s : σ) :
    ∃ r reps, b.build s none = .ok (.ok r) ∧ Represents samples reps ∧
      (∀ e ∈ r.data.entries, 0 < e.2 ∧ e.2 ≤ samples.length) ∧
      ∀ q : Frames → Bool, (∀ a b : Frames, a.stack = b.stack → q a = q b) →
        total q r.data.entries = reps.countP fun u => q (processor.getD id (Frames.from u)) := by
  obtain ⟨r,it,hr,-,hes,ht,hpos,hsum⟩ := build_ok hb h.data (history_pos samples) h.sum_fits s
  obtain ⟨booked,hbooked,hform⟩ := hes.booked
  obtain ⟨reps,rfl,hreps⟩ := booked_history hbooked
  have hentries : ∀ e ∈ r.data.entries, 0 < e.2 :=
    ht.pos (fun _ => BEq.rfl) (processed_pos b.frames_post_processor hpos s)
  refine ⟨r,reps,hr,hreps,fun e he => ⟨hentries e he,?_⟩,fun q hq => ?_⟩
  · have hall : total (fun _ => true) r.data.entries = samples.length := by
      rw [Balances.total_eq ht fun _ _ _ => rfl,total]
      simp only [if_true,← sum_counts,processed_counts,hsum,history_sum]
    obtain ⟨l₁,l₂,hl⟩ := List.append_of_mem he
    have h₁ : 0 ≤ total (fun _ => true) l₁ :=
      total_nonneg fun x hx => Int.le_of_lt (hentries x (by simp [hl,hx]))
    have h₂ : 0 ≤ total (fun _ => true) l₂ :=
      total_nonneg fun x hx => Int.le_of_lt (hentries x (by simp [hl,hx]))
    rw [hl,total_append,total_cons,if_pos rfl] at hall
    omega
  · have hkeys := Balances.total_eq ht (p := q) fun a b hab =>
      hq a b (Prod.mk.inj (frames_beq.mp hab)).1
    rw [hkeys,hf,processed_stateless,
      total_map q fun u : UnresolvedFrames F => processor.getD id (Frames.from u),total,
      weigh_eq_of_formalSum_eq hform,← history_total]
    rfl

def World.Timed (w : World F) : Prop :=
  ∀ guard ∈ w.guards, ∃ timer, guard.timer = some timer ∧ timer.frequency ≠ 0

omit [Frame F] [DefaultHasher] [Resolver] in
theorem build_timed {b : ProfilerGuardBuilder} {w w' : World F} {faults : BuildFaults}
    {now : Clock} {guard : ProfilerGuard}
    (h : b.build w faults now = (.ok (.ok guard),w')) :
    b.frequency ≠ 0 ∧ ∃ timer, guard.timer = some timer ∧ timer.frequency = b.frequency := by
  unfold ProfilerGuardBuilder.build at h
  split at h
  · cases h
  · split at h
    · cases h
    · split at h
      · rename_i timer os ht
        cases h
        unfold Timer.new at ht
        split at ht
        · cases ht
        · rename_i hz
          cases ht
          exact ⟨hz,_,rfl,rfl⟩
      · cases h

omit [Frame F] [DefaultHasher] [Resolver] in
theorem build_guards (b : ProfilerGuardBuilder) (w : World F) (faults : BuildFaults)
    (now : Clock) : (b.build w faults now).2.guards = w.guards := by
  rcases build_cases b w faults now with ⟨err,-,hb⟩ | ⟨p,-,⟨-,hb⟩ | ⟨-,-,hb⟩ | ⟨-,-,-,hb⟩ |
    ⟨-,-,-,timer,hb⟩⟩ <;> rw [hb]

omit [Resolver] in
theorem timed_step (w : World F) (op : Op F) (w' : World F) (h : w.Timed)
    (hs : w.step op = some w') : w'.Timed := by
  cases op with
  | build b faults now =>
    have hguards := build_guards b w faults now
    simp only [World.step] at hs
    split at hs
    · rename_i guard w₁ hb
      rw [hb] at hguards
      cases hs
      intro g hg
      rcases List.mem_append.mp hg with hg | hg
      · rw [hguards] at hg
        exact h g hg
      · rw [List.mem_singleton.mp hg]
        obtain ⟨hfreq,timer,htimer,heq⟩ := build_timed hb
        exact ⟨timer,htimer,heq ▸ hfreq⟩
    · rename_i result w₁ _ hb
      rw [hb] at hguards
      cases hs
      intro g hg
      rw [hguards] at hg
      exact h g hg
  | drop i faults =>
    obtain ⟨guard,-,rfl⟩ := step_drop hs
    intro g hg
    rw [drop_guards] at hg
    exact h g (List.mem_of_mem_eraseIdx hg)
  | report i =>
    obtain ⟨-,rfl⟩ := step_report hs
    exact h
  | signal at_ fault =>
    obtain ⟨profiler,profiler',-,-,-,rfl⟩ := step_signal hs
    exact h
  | sigaction act =>
    cases hs
    exact h

omit [Resolver] in
theorem timed_run {w₀ w : World F} (h₀ : w₀.Fresh) {ops : List (Op F)}
    (hr : run World.step w₀ ops = some w) : w.Timed := by
  have hempty : w₀.Timed := by simp [World.Timed,h₀.guards]
  exact Reachable.invariant timed_step hempty ⟨ops,hr⟩

omit [Resolver] in
theorem session_of_guard {w₀ : World F} (h₀ : w₀.Fresh) {ops : List (Op F)} {c : Observed F}
    (hr : run Observed.step w₀.observed ops = some c) {guard : ProfilerGuard}
    (hg : guard ∈ c.world.guards) :
    ∃ p timer, c.world.PROFILER = some (.ok p) ∧ p.Keeps c.recorded c.lost ∧
      guard.timer = some timer ∧ timer.frequency ≠ 0 := by
  have hs := sound_observed_run h₀ hr
  have hworld := run_added observed_world w₀.observed ops
  rw [hr] at hworld
  obtain ⟨timer,htimer,hfreq⟩ := timed_run h₀ hworld.symm guard hg
  have hne : c.world.guards ≠ [] := List.ne_nil_of_mem hg
  rcases hs.owned with hnil | ⟨_,p,act,-,hp,-⟩
  · exact absurd hnil hne
  · exact ⟨p,timer,hp,hs.kept p hp fun _ => hne,htimer,hfreq⟩

/-- No count is too large for the profile: the samples were counted in 32 bits. -/
theorem Holding.shown {p : Profiler F} {samples : List (UnresolvedFrames F)}
    (h : Holding p samples) {guard : ProfilerGuard} {timer : Timer}
    (htimer : guard.timer = some timer) (hfreq : timer.frequency ≠ 0) (now : Clock)
    (processor : Option (Frames → Frames)) (s : σ) :
    ∃ r reps, ReportBuilder.build { guard.report (σ := σ) (.ok p) now with
        frames_post_processor := processor.map stateless } s none = .ok (.ok r) ∧
      Represents samples reps ∧ (r.data.entries = [] ↔ samples = []) ∧
      ∀ o : Iterated r,
        (∃ p, r.pprof o = .ok p ∧ p.WellFormed ∧ ∀ q, total q p.decoded =
          reps.countP fun u => q (processor.getD id (Frames.from u)).shown) ∧
        ∀ q, total q ((folded_lines o.iter).filterMap read_folded) =
          reps.countP fun u => q (processor.getD id (Frames.from u)).parts := by
  obtain ⟨r,reps,hbuild,hreps,hbound,htotal⟩ := h.exported
    (b := { guard.report (.ok p) now with frames_post_processor := processor.map stateless })
    rfl rfl s
  have hrep : Representable r := by
    refine ⟨?_,fun e he => ?_⟩
    · have htiming : r.timing = timer.timing now := by
        obtain ⟨it,hit,-⟩ := h.data.try_iter
        simp only [ReportBuilder.build,ProfilerGuard.report,ReportBuilder.new,hit,htimer] at hbuild
        obtain ⟨data,-,hd⟩ := bind_eq_ok.mp hbuild
        cases pure_eq_ok.mp hd
        rfl
      rw [htiming]
      exact hfreq
    · obtain ⟨hpos,hle⟩ := hbound e he
      have hfits := h.fits
      unfold InI64
      omega
  have hempty : r.data.entries = [] ↔ samples = [] := by
    constructor
    · intro hnil
      have hall := htotal (fun _ => true) fun _ _ _ => rfl
      rw [hnil,total_nil] at hall
      have hlen := hreps.1
      simp only [List.countP_true] at hall
      exact List.length_eq_zero_iff.mp (by omega)
    · rintro rfl
      refine List.eq_nil_iff_forall_not_mem.mpr fun e he => ?_
      obtain ⟨hpos,hle⟩ := hbound e he
      simp only [List.length_nil] at hle
      omega
  refine ⟨r,reps,hbuild,hreps,hempty,fun o => ?_⟩
  obtain ⟨⟨profile,hprofile,hwf,hdecoded⟩,hlines⟩ := exports_total hrep o
  refine ⟨⟨profile,hprofile,hwf,fun q => ?_⟩,fun q => ?_⟩
  · rw [hdecoded,htotal (fun key => q key.shown) fun a b hab => by rw [shown_of_stack hab]]
  · rw [hlines,htotal (fun key => q key.parts) fun a b hab => by rw [parts_of_stack hab]]

/-- A session's samples, whatever else fails, as they are found again in what the two
exporters make of its reports, each under the stack of its representative. -/
theorem exports_exact {w₀ : World F} (h₀ : w₀.Fresh) {ops : List (Op F)} {c : Observed F}
    (hr : run Observed.step w₀.observed ops = some c) {guard : ProfilerGuard}
    (hg : guard ∈ c.world.guards) (hlost : c.lost = false) (now : Clock)
    (processor : Option (Frames → Frames)) (s : σ) :
    ∃ profiler r reps, c.world.PROFILER = some profiler ∧
      ReportBuilder.build { guard.report (σ := σ) profiler now with
        frames_post_processor := processor.map stateless } s none = .ok (.ok r) ∧
      Represents c.recorded reps ∧
      ∀ o : Iterated r,
        (∃ p, r.pprof o = .ok p ∧ p.WellFormed ∧ ∀ q, total q p.decoded =
          reps.countP fun u => q (processor.getD id (Frames.from u)).shown) ∧
        ∀ q, total q ((folded_lines o.iter).filterMap read_folded) =
          reps.countP fun u => q (processor.getD id (Frames.from u)).parts := by
  obtain ⟨p,timer,hp,hk,htimer,hfreq⟩ := session_of_guard h₀ hr hg
  obtain ⟨r,reps,hbuild,hreps,-,hexports⟩ := (hk.holding hlost).shown htimer hfreq now processor s
  exact ⟨.ok p,r,reps,hp,hbuild,hreps,hexports⟩

theorem Holding.agree {p : Profiler F} {samples : List (UnresolvedFrames F)}
    (h : Holding p samples) {b : ReportBuilder F σ} (hb : b.profiler = .ok p)
    {processor : Option (Frames → Frames)}
    (hf : b.frames_post_processor = processor.map stateless)
    (hcongr : ∀ a ∈ samples, ∀ b ∈ samples, (a == b) = true →
      (processor.getD id (Frames.from a)).stack = (processor.getD id (Frames.from b)).stack)
    (s : σ) :
    ∃ u r, b.build_unresolved none = .ok (.ok u) ∧ b.build s none = .ok (.ok r) ∧
      u.timing = r.timing ∧
      ∀ q : List (List (List UInt8)) × String × UInt64 → Bool,
        total (fun key => q (processor.getD id (Frames.from key)).stack) u.data.entries =
          samples.countP (fun a => q (processor.getD id (Frames.from a)).stack) ∧
        total (fun key => q key.stack) r.data.entries =
          samples.countP fun a => q (processor.getD id (Frames.from a)).stack := by
  obtain ⟨u,es,hu,hes,htu⟩ := build_unresolved_ok hb h.data (history_pos samples) h.sum_fits
  obtain ⟨r,it,hr,-,hes',htr,-⟩ := build_ok hb h.data (history_pos samples) h.sum_fits s
  obtain ⟨it',hit,-⟩ := h.data.try_iter
  have htiming : u.timing = r.timing := by
    simp only [ReportBuilder.build_unresolved,ReportBuilder.build,hb,hit] at hu hr
    obtain ⟨data,-,hd⟩ := bind_eq_ok.mp hu
    obtain ⟨data',-,hd'⟩ := bind_eq_ok.mp hr
    cases pure_eq_ok.mp hd
    cases pure_eq_ok.mp hd'
    rfl
  refine ⟨u,r,hu,hr,htiming,fun q => ?_⟩
  have hentries : ∀ es : List (UnresolvedFrames F × ℤ), Balances sameSlot (history samples) es →
      total (fun a => q (processor.getD id (Frames.from a)).stack) es =
        samples.countP fun a => q (processor.getD id (Frames.from a)).stack := by
    intro es hes
    rw [← history_total]
    refine hes.weigh_eq fun a ha b hb hab => ?_
    rw [history_keys] at ha hb
    simp only [hcongr a ha b hb (sameSlot_beq hab)]
  have hmem : ∀ a ∈ es.map Prod.fst, a ∈ samples := by
    intro a ha
    obtain ⟨e,he,rfl⟩ := List.mem_map.mp ha
    have hkey := hes.mem he
    rwa [history_keys] at hkey
  constructor
  · rw [← hentries es hes]
    refine htu.weigh_eq fun a ha b hb hab => ?_
    simp only [hcongr a (hmem a ha) b (hmem b hb) hab]
  · have hkeys := Balances.total_eq htr (p := fun key => q key.stack) fun a b hab => by
      rw [(Prod.mk.inj (frames_beq.mp hab)).1]
    rw [hkeys,hf,processed_stateless,
      total_map (fun key : Frames => q key.stack)
        fun a : UnresolvedFrames F => processor.getD id (Frames.from a)]
    exact hentries _ hes'

/-- After any run the two reports of a live guard are refused alike, or they agree: the keys of
the unresolved one, converted, count what the resolved one counts, for any set of stacks, as
long as samples that are equal convert alike. -/
theorem reports_agree {w₀ : World F} (h₀ : w₀.Fresh) {ops : List (Op F)} {c : Observed F}
    (hr : run Observed.step w₀.observed ops = some c) {guard : ProfilerGuard}
    (hg : guard ∈ c.world.guards) (now : Clock) (processor : Option (Frames → Frames))
    (hcongr : ∀ a ∈ c.recorded, ∀ b ∈ c.recorded, (a == b) = true →
      (processor.getD id (Frames.from a)).stack = (processor.getD id (Frames.from b)).stack)
    (s : σ) (fault : Option ReadFault) :
    ∃ profiler, c.world.PROFILER = some profiler ∧
      let b : ReportBuilder F σ := { guard.report (σ := σ) profiler now with
        frames_post_processor := processor.map stateless }
      (c.lost = true ∨ fault ≠ none → ∃ err,
        b.build_unresolved fault = .ok (.error (.IoError err)) ∧
        b.build s fault = .ok (.error (.IoError err))) ∧
      (c.lost = false → fault = none → ∃ u r, b.build_unresolved fault = .ok (.ok u) ∧
        b.build s fault = .ok (.ok r) ∧ u.timing = r.timing ∧
        ∀ q : List (List (List UInt8)) × String × UInt64 → Bool,
          total (fun key => q (processor.getD id (Frames.from key)).stack) u.data.entries =
            c.recorded.countP (fun a => q (processor.getD id (Frames.from a)).stack) ∧
          total (fun key => q key.stack) r.data.entries =
            c.recorded.countP fun a => q (processor.getD id (Frames.from a)).stack) := by
  obtain ⟨p,-,hp,hk,-,-⟩ := session_of_guard h₀ hr hg
  refine ⟨.ok p,hp,fun hfail => ?_,?_⟩
  · obtain ⟨err,he⟩ := hk.unreadable hfail
    refine ⟨err,?_,?_⟩
    · simp only [ReportBuilder.build_unresolved,ProfilerGuard.report,ReportBuilder.new,he]
    · simp only [ReportBuilder.build,ProfilerGuard.report,ReportBuilder.new,he]
  · rintro hlost rfl
    exact (hk.holding hlost).agree rfl rfl hcongr s

end Samples

theorem exports_exact_plain :
    letI := plainTarget
    letI := plainHasher
    letI := plainLayout
    letI := plainResolver
    ∃ (r : Report) (p : Profile), r.pprof (.inOrder r) = .ok p ∧ p.WellFormed ∧
      total (fun _ => true) p.decoded = 1 ∧
      total (fun _ => true) ((folded_lines r.data.entries).filterMap read_folded) = 1 := by
  let _ := plainTarget
  let _ := plainHasher
  let _ := plainLayout
  let _ := plainResolver
  obtain ⟨c,timer,hrun,hg,hlost,hlen⟩ := plainWorld_sampled
  have hguard : (⟨some timer⟩ : ProfilerGuard) ∈ c.world.guards := by simp [hg]
  obtain ⟨profiler,r,reps,-,-,⟨hreps,-⟩,hexports⟩ := exports_exact plainWorld_fresh hrun hguard
    hlost plainClock none ()
  obtain ⟨⟨p,hp,hwf,hdecoded⟩,hlines⟩ := hexports (.inOrder r)
  refine ⟨r,p,hp,hwf,(hdecoded _).trans ?_,(hlines _).trans ?_⟩
  · simp [hreps,hlen]
  · simp [hreps,hlen]

theorem reports_agree_plain :
    letI := plainTarget
    letI := plainHasher
    letI := plainLayout
    letI := plainResolver
    ∃ (b : ReportBuilder PlainFrame Unit) (u : UnresolvedReport PlainFrame) (r : Report),
      b.build_unresolved none = .ok (.ok u) ∧ b.build () none = .ok (.ok r) ∧
      total (fun _ => true) u.data.entries = 1 ∧ total (fun _ => true) r.data.entries = 1 := by
  let _ := plainTarget
  let _ := plainHasher
  let _ := plainLayout
  let _ := plainResolver
  obtain ⟨c,timer,hrun,hg,hlost,hlen⟩ := plainWorld_sampled
  have hguard : (⟨some timer⟩ : ProfilerGuard) ∈ c.world.guards := by simp [hg]
  obtain ⟨a,ha⟩ := List.length_eq_one_iff.mp hlen
  have hcongr : ∀ x ∈ c.recorded, ∀ y ∈ c.recorded, (x == y) = true →
      ((none : Option (Frames → Frames)).getD id (Frames.from x)).stack =
        ((none : Option (Frames → Frames)).getD id (Frames.from y)).stack := by
    intro x hx y hy _
    rw [ha] at hx hy
    rw [List.mem_singleton.mp hx,List.mem_singleton.mp hy]
  obtain ⟨profiler,-,-,hagree⟩ := reports_agree plainWorld_fresh hrun hguard plainClock none
    hcongr () none
  obtain ⟨u,r,hu,hr,-,hcount⟩ := hagree hlost rfl
  obtain ⟨hunresolved,hresolved⟩ := hcount fun _ => true
  exact ⟨_,u,r,hu,hr,hunresolved.trans (by simp [hlen]),hresolved.trans (by simp [hlen])⟩

end Pprof
