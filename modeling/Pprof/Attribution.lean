import Pprof.Sessions
set_option autoImplicit false

/-! Under which stacks a report counts the samples. Equal samples share an entry, and an
entry is converted with the frames and the thread name of the sample that it was made
for, so a sample can be counted under the stack of an earlier one. -/

namespace Pprof
open Assoc FormalSum Iteration Ledger Memory Runs TempFile

section First
variable {T : Type} [Layout (Entry T)] [Target] [BEq T] [Hashable T]

structure OnlyFirst (a : T) (c : Collector T) : Prop where
  entry : ∃ e, e ∈ (c.map.buckets.get (bucketOf a)).live
  items : ∀ i, ∀ e ∈ (c.map.buckets.get i).live, e.item = a
  buffered : c.temp_array.buffered = []
  holds : c.temp_array.Holds []

theorem OnlyFirst.start [EquivBEq T] {c c' : Collector T} (h : c.Records []) {a : T} {count : Int}
    {fault : Option Nat} (ha : c.add a count fault = .ok (.ok (),c')) : OnlyFirst a c' := by
  obtain ⟨hlive,hbuf,hxs⟩ := records_nil_empty h
  rcases collector_add_cases ha with ⟨hm,-,ht⟩ | ⟨evict,hm,-⟩
  · obtain ⟨hadd,hother,-⟩ := HashCounter.add_ok hm
    rw [hlive] at hadd
    obtain ⟨-,-,hl⟩ | ⟨i,old,he,-⟩ := hadd.of_miss (by simp)
    · refine ⟨⟨⟨a,count⟩,by simp [hl]⟩,fun i e he => ?_,by rw [ht,hbuf],by rw [ht]; exact hxs⟩
      by_cases hi : i = bucketOf a
      · rw [hi,hl] at he
        simp only [List.nil_append,List.mem_singleton] at he
        rw [he]
      · rw [hother i hi,hlive] at he
        cases he
    · cases he
  · obtain ⟨hadd,-⟩ := HashCounter.add_ok hm
    rw [hlive] at hadd
    cases hadd.evicted evict (by simp)

omit [BEq T] in
theorem OnlyFirst.try_iter {c : Collector T} {a : T} (h : OnlyFirst a c) :
    ∃ it, c.try_iter none = .ok it ∧ ∀ e ∈ collect it, e.item = a := by
  obtain ⟨it,hit,hc⟩ := collector_try_iter h.holds
  refine ⟨it,hit,fun e he => ?_⟩
  rw [hc,h.buffered,List.append_nil,List.append_nil] at he
  obtain ⟨i,hi⟩ := mem_live_bucket he
  exact h.items i e hi

theorem OnlyFirst.add [EquivBEq T] {c c' : Collector T} {a k : T} (h : OnlyFirst a c)
    (hk : sameSlot a k = true) {count : Int} {fault : Option Nat} {r : Except IoError Unit}
    (ha : c.add k count fault = .ok (r,c')) : OnlyFirst a c' := by
  have hbucket : bucketOf a = bucketOf k := by
    simp only [sameSlot,Bool.and_eq_true,decide_eq_true_eq] at hk
    exact hk.2
  obtain ⟨e₀,he₀⟩ := h.entry
  have hit : (e₀.item == k) = true := by
    rw [h.items _ e₀ he₀]
    exact sameSlot_beq hk
  have hadded : ∀ {evict}, c.map.add k count = .ok (c'.map,evict) → evict = none ∧
      (∃ e, e ∈ (c'.map.buckets.get (bucketOf a)).live) ∧
      ∀ i, ∀ e ∈ (c'.map.buckets.get i).live, e.item = a := by
    intro evict hm
    obtain ⟨hadd,hother,-⟩ := HashCounter.add_ok hm
    rw [← hbucket] at hadd hother
    generalize hl : (c'.map.buckets.get (bucketOf a)).live = l' at *
    cases hadd with
    | hit e he =>
      refine ⟨rfl,⟨bump k count e₀,List.mem_map_of_mem he₀⟩,fun i e he => ?_⟩
      by_cases hi : i = bucketOf a
      · rw [hi,hl] at he
        obtain ⟨x,hx,rfl⟩ := List.mem_map.mp he
        have hxa := h.items _ x hx
        unfold bump
        split <;> exact hxa
      · rw [hother i hi] at he
        exact h.items i e he
    | append hne =>
      rw [hne e₀ he₀] at hit
      cases hit
    | evict i old hne =>
      rw [hne e₀ he₀] at hit
      cases hit
  rcases collector_add_cases ha with ⟨hm,-,ht⟩ | ⟨evict,hm,-⟩
  · obtain ⟨-,hentry,hitems⟩ := hadded hm
    exact ⟨hentry,hitems,by rw [ht,h.buffered],by rw [ht]; exact h.holds⟩
  · cases (hadded hm).1

end First

section Stacks
variable {F : Type} [Frame F]

/-- Every sample is represented by one that equals it and was taken no later. -/
def Represents (samples reps : List (UnresolvedFrames F)) : Prop :=
  reps.length = samples.length ∧
    ∀ (i : Nat) (h₁ : i < samples.length) (h₂ : i < reps.length),
      (samples[i] == reps[i]) = true ∧ reps[i] ∈ samples.take (i+1)

theorem booked_history [DefaultHasher] {samples : List (UnresolvedFrames F)}
    {booked : List (UnresolvedFrames F × ℤ)} (h : Booked sameSlot (history samples) booked) :
    ∃ reps, booked = history reps ∧ Represents samples reps := by
  obtain ⟨hlen,hget⟩ := h.get
  have hl : (history samples).length = samples.length := by simp [history]
  refine ⟨booked.map Prod.fst,?_,by rw [List.length_map,hlen,hl],?_⟩
  · apply List.ext_getElem
    · simp [history]
    · intro i h₁ h₂
      obtain ⟨-,hone,-⟩ := hget i (by omega) h₁
      simp only [history,List.getElem_map] at hone ⊢
      exact Prod.ext rfl hone
  · intro i h₁ h₂
    obtain ⟨hsame,-,hmem⟩ := hget i (by omega) (by simpa using h₂)
    rw [List.map_take,history_keys] at hmem
    simp only [history,List.getElem_map] at hsame ⊢
    exact ⟨sameSlot_beq hsame,hmem⟩

theorem Represents.map_eq {β : Type} {samples reps : List (UnresolvedFrames F)}
    (h : Represents samples reps) {f : UnresolvedFrames F → β}
    (hf : ∀ a ∈ samples, ∀ b ∈ samples, (a == b) = true → f a = f b) :
    reps.map f = samples.map f := by
  obtain ⟨hlen,hget⟩ := h
  apply List.ext_getElem
  · simpa using hlen
  · intro i h₁ h₂
    simp only [List.length_map] at h₁ h₂
    obtain ⟨hsame,hmem⟩ := hget i h₂ h₁
    simp only [List.getElem_map]
    exact (hf _ (List.getElem_mem h₂) _ (List.mem_of_mem_take hmem) hsame).symm

variable [Layout (Entry (UnresolvedFrames F))] [Target] [DefaultHasher] [Resolver] {σ : Type}

def stackCount (r : Report) (stack : List (List (List UInt8)) × String × UInt64) : ℤ :=
  total (fun f => f.stack == stack) r.data.entries

theorem Holding.by_stack {p : Profiler F} {samples : List (UnresolvedFrames F)}
    (h : Holding p samples) (s : σ) :
    ∃ r it, (reportBuilder p none).build s none = .ok (.ok r) ∧ p.data.try_iter none = .ok it ∧
      Balances sameSlot (history samples) ((collect it).map Entry.pair) ∧
      ∀ stack, stackCount r stack =
        total (fun u => (Frames.from u).stack == stack) ((collect it).map Entry.pair) := by
  obtain ⟨r,it,hr,hit,hes,ht,-⟩ := build_ok (b := reportBuilder p none) rfl h.data
    (history_pos samples) h.sum_fits s
  refine ⟨r,it,hr,hit,hes,fun stack => ?_⟩
  have hkeys : total (fun f => f.stack == stack) r.data.entries =
      total (fun f => f.stack == stack) (processed none (collect it) s) := by
    apply Balances.total_eq ht
    intro a b hab
    rw [(Prod.mk.inj (frames_beq.mp hab)).1]
  rw [stackCount,hkeys,processed_none,total,weigh_map]
  rfl

theorem Holding.attributed {p : Profiler F} {samples : List (UnresolvedFrames F)}
    (h : Holding p samples) (s : σ) :
    ∃ r reps, (reportBuilder p none).build s none = .ok (.ok r) ∧ Represents samples reps ∧
      ∀ stack, stackCount r stack = reps.countP fun u => (Frames.from u).stack == stack := by
  obtain ⟨r,it,hr,-,hes,hcount⟩ := h.by_stack s
  obtain ⟨booked,hb,hform⟩ := hes.booked
  obtain ⟨reps,rfl,hreps⟩ := booked_history hb
  refine ⟨r,reps,hr,hreps,fun stack => ?_⟩
  rw [hcount stack,total,weigh_eq_of_formalSum_eq hform,← history_total]
  rfl

/-- A report counts each sample under what its representative converts to. So the counts
are those of the samples' own stacks wherever equal samples convert alike. -/
theorem samples_attributed {p₀ : Profiler F} (hnew : Profiler.new false = .ok p₀) (os : Os)
    {ops : List (SessionOp F σ)} (hs : Sessions false ops) (hn : Countable [] ops) (s : σ) :
    ∃ p os' r reps, run sessionStep (p₀,os) ops = some (p,os') ∧
      (reportBuilder p none).build s none = .ok (.ok r) ∧
      Represents (recorded [] ops) reps ∧
      (∀ stack, stackCount r stack = reps.countP fun u => (Frames.from u).stack == stack) ∧
      ((∀ a ∈ recorded [] ops, ∀ b ∈ recorded [] ops, (a == b) = true →
          (Frames.from a).stack = (Frames.from b).stack) →
        ∀ stack, stackCount r stack =
          (recorded [] ops).countP fun u => (Frames.from u).stack == stack) := by
  obtain ⟨⟨p,os'⟩,on,hrun,h⟩ := recording_run (s := (p₀,os)) (recording_new hnew) hs hn
  obtain ⟨r,reps,hr,hreps,hcount⟩ := h.attributed s
  refine ⟨p,os',r,reps,hrun,hr,hreps,hcount,fun hcongr stack => ?_⟩
  have hmap := hreps.map_eq (f := fun u => (Frames.from u).stack) hcongr
  have hstack : ∀ l : List (UnresolvedFrames F),
      (l.countP fun u => (Frames.from u).stack == stack) =
      (l.map fun u => (Frames.from u).stack).countP (· == stack) := fun l => by
    rw [List.countP_map]
    rfl
  rw [hcount stack,hstack,hstack,hmap]

omit [Resolver] in
theorem OnlyFirst.run {c c' : Collector (UnresolvedFrames F)} {a : Sample F}
    (h : OnlyFirst a.captured c) {xs : List (Sample F)}
    (hx : ∀ x ∈ xs, (a.captured == x.captured) = true)
    (hr : run Collector.step c (xs.map fun x => .add x.captured 1) = some c') :
    OnlyFirst a.captured c' := by
  induction xs generalizing c with
  | nil =>
    cases hr
    exact h
  | cons x xs ih =>
    obtain ⟨c₁,hstep,hrest⟩ := run_cons_eq_some hr
    have hsame : sameSlot a.captured x.captured = true := by
      rw [sameSlot_of_lawful]
      exact hx x (by simp)
    refine ih ?_ (fun y hy => hx y (by simp [hy])) hrest
    simp only [Collector.step] at hstep
    split at hstep
    · rename_i hadd
      cases hstep
      exact h.add hsame hadd
    · cases hstep

theorem class_counted_under_first {p₀ : Profiler F} (hnew : Profiler.new false = .ok p₀) (os : Os)
    {a : Sample F} {xs : List (Sample F)} (hx : ∀ x ∈ xs, (a.captured == x.captured) = true)
    (hlen : xs.length+1 < 2^31) (s : σ) :
    ∃ p os' r, run (sessionStep (σ := σ)) (p₀,os) (.start :: .sample a :: xs.map .sample) =
        some (p,os') ∧
      (reportBuilder p none).build s none = .ok (.ok r) ∧
      ∀ stack, (Frames.from a.captured).stack ≠ stack → stackCount r stack = 0 := by
  obtain ⟨p₁,os₁,hstart,hdata,h₁⟩ := recording_start (recording_new hnew) os
  obtain ⟨p₂,hsample,hadd,h₂⟩ := recording_sample h₁ a (by simp)
  have hfirst := OnlyFirst.start h₁.data hadd
  have hcount₀ : ([] ++ [a.captured]).length + xs.length < 2^31 := by
    simp
    omega
  obtain ⟨⟨p,os'⟩,hrun,hadds,h⟩ := samples_added (σ := σ) (s := (p₂,os₁)) h₂ hcount₀
  have hf : OnlyFirst a.captured p.data := hfirst.run hx hadds
  obtain ⟨r,it,hr,hit,-,hcount⟩ := h.by_stack s
  refine ⟨p,os',r,?_,hr,fun stack hstack => ?_⟩
  · have hstep₁ : sessionStep (σ := σ) (p₀,os) .start = some (p₁,os₁) := by
      simp only [sessionStep,hstart]
    have hstep₂ : sessionStep (σ := σ) (p₁,os₁) (.sample a) = some (p₂,os₁) := by
      simp only [sessionStep,hsample]
    rw [run_cons_some hstep₁,run_cons_some hstep₂,hrun]
  · obtain ⟨it',hit',hitems⟩ := hf.try_iter
    rw [hit] at hit'
    cases hit'
    rw [hcount stack]
    apply total_eq_zero
    intro e he
    obtain ⟨x,hx,rfl⟩ := List.mem_map.mp he
    have hxa := hitems x hx
    simp only [Entry.pair,hxa,beq_eq_false_iff_ne]
    exact hstack

end Stacks

/-- One function at two places, where the second shows another name: code that was inlined
there, say. -/
def inlinedOps : List (SessionOp PlainFrame Unit) :=
  [.start,.sample (plainSample 4097 4096 [97]),.sample (plainSample 4098 4096 [98])]

theorem samples_attributed_inlined :
    letI := plainTarget
    letI := plainHasher
    letI := plainResolver
    letI := plainLayout
    ∃ (p₀ p : Profiler PlainFrame) (os os' : Os) (r : Report)
      (reps : List (UnresolvedFrames PlainFrame)), Profiler.new false = .ok p₀ ∧
      run sessionStep (p₀,os) inlinedOps = some (p,os') ∧
      (reportBuilder p none).build () none = .ok (.ok r) ∧
      Represents (recorded [] inlinedOps) reps ∧
      ∀ stack, stackCount r stack = reps.countP fun u => (Frames.from u).stack == stack := by
  let _ := plainTarget
  let _ := plainHasher
  let _ := plainResolver
  let _ := plainLayout
  obtain ⟨p₀,hnew⟩ := profiler_new (F := PlainFrame)
  have hs : Sessions false inlinedOps := by simp [Sessions,inlinedOps]
  obtain ⟨p,os',r,reps,hrun,hr,hreps,hcount,-⟩ := samples_attributed hnew plainOs
    hs (countable_of_length (by decide)) ()
  exact ⟨p₀,p,plainOs,os',r,reps,hnew,hrun,hr,hreps,hcount⟩

/-- The second sample is counted under the stack of the first, and no key shows its own. -/
theorem sample_misattributed :
    letI := plainTarget
    letI := plainHasher
    letI := plainResolver
    letI := plainLayout
    ∃ (p₀ p : Profiler PlainFrame) (os os' : Os) (r : Report), Profiler.new false = .ok p₀ ∧
      run sessionStep (p₀,os) inlinedOps = some (p,os') ∧
      (reportBuilder p none).build () none = .ok (.ok r) ∧
      let stack := (Frames.from (plainSample 4098 4096 [98]).captured).stack
      stackCount r stack = 0 ∧
        (recorded [] inlinedOps).countP (fun u => (Frames.from u).stack == stack) = 1 := by
  let _ := plainTarget
  let _ := plainHasher
  let _ := plainResolver
  let _ := plainLayout
  obtain ⟨p₀,hnew⟩ := profiler_new (F := PlainFrame)
  have hx : ∀ x ∈ [plainSample 4098 4096 [98]],
      ((plainSample 4097 4096 [97]).captured == x.captured) = true := by decide
  obtain ⟨p,os',r,hrun,hr,hcount⟩ := class_counted_under_first hnew plainOs hx (by decide) ()
  exact ⟨p₀,p,plainOs,os',r,hnew,hrun,hr,hcount _ (by decide),by decide⟩

end Pprof
