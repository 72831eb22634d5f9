import Pprof.Sessions
set_option autoImplicit false

/-! How often a report lists a stack. The keys of a report are told apart by their times as
well, so a stack has as many keys as there are times among the entries that show it. An entry
has the time of the sample that it was made for. -/

namespace Pprof
open Assoc FormalSum Iteration Ledger Memory Runs TempFile

def Report.ListsOnce (r : Report) : Prop :=
  r.data.entries.Pairwise fun a b => a.1.stack ≠ b.1.stack

def OneTimeEach (keys : List (Frames × Int)) : Prop :=
  ∀ a ∈ keys, ∀ b ∈ keys, a.1.stack = b.1.stack → a.1.sample_timestamp = b.1.sample_timestamp

theorem tallies_key {K : Type} [BEq K] [EquivBEq K] {l : List (K × Int)} {m : AssocMap K Int}
    (h : Tallies l m) (hpos : ∀ a ∈ l, 0 < a.2) {a : K × Int} (ha : a ∈ l) :
    ∃ e ∈ m.entries, (e.1 == a.1) = true := by
  cases hg : m.get a.1 with
  | none =>
    have hzero := (h.total_eq a.1).symm.trans (total_of_get_none hg)
    have hlt := total_pos (p := (· == a.1)) hpos
      ⟨a.1,List.mem_map_of_mem ha,BEq.rfl⟩
    omega
  | some value =>
    obtain ⟨e,he,hk,-⟩ := get_eq_some_mem hg
    exact ⟨e,he,hk⟩

theorem listsOnce_iff {l : List (Frames × Int)} {r : Report} (h : Tallies l r.data)
    (hpos : ∀ a ∈ l, 0 < a.2) : r.ListsOnce ↔ OneTimeEach l := by
  constructor
  · intro honce a ha b hb hab
    obtain ⟨x,hx,hxa⟩ := tallies_key h hpos ha
    obtain ⟨y,hy,hyb⟩ := tallies_key h hpos hb
    obtain ⟨hxs,hxt⟩ := Prod.mk.inj (frames_beq.mp hxa)
    obtain ⟨hys,hyt⟩ := Prod.mk.inj (frames_beq.mp hyb)
    by_cases hxy : x = y
    · rw [← hxt,← hyt,hxy]
    · have hsymm : Std.Symm fun a b : Frames × Int => a.1.stack ≠ b.1.stack :=
        ⟨fun _ _ hne => hne.symm⟩
      have hne : x.1.stack ≠ y.1.stack := honce.forall hx hy hxy
      exact absurd (hxs.trans (hab.trans hys.symm)) hne
  · intro htime
    refine r.data.distinct.imp_of_mem fun {a b} ha hb hne hab => ?_
    obtain ⟨x,hx,hxa⟩ := List.mem_map.mp (h.mem ha)
    obtain ⟨y,hy,hyb⟩ := List.mem_map.mp (h.mem hb)
    have ht : a.1.sample_timestamp = b.1.sample_timestamp := by
      rw [← hxa,← hyb] at hab ⊢
      exact htime x hx y hy hab
    have heq : (a.1 == b.1) = true := frames_beq.mpr (Prod.ext hab ht)
    rw [hne] at heq
    cases heq

section Misses
variable {T : Type} [Layout (Entry T)] [Target] [BEq T] [Hashable T]

/-- Of keys that are added one by one, those that find no entry and get one: a key does so once
more when its entry has been evicted. -/
def misses (c : Collector T) : List T → List T
  | [] => []
  | key :: keys =>
    match c.step (.add key 1) with
    | none => []
    | some c' =>
      if c.map.live.any (·.item == key) then misses c' keys else key :: misses c' keys

def Collector.EntriesOf (c : Collector T) (keys : List T) : Prop :=
  ∃ xs, c.temp_array.Holds xs ∧
    ((c.map.live ++ (c.temp_array.buffered ++ xs)).map Entry.item).Perm keys

omit [Layout (Entry T)] [Target] [Hashable T] in
theorem Added.items {key : T} {count : Int} {l l' : List (Entry T)} {evict : Option (Entry T)}
    (h : Added key count l l' evict) :
    (l'.map Entry.item ++ evict.toList.map Entry.item).Perm
      (l.map Entry.item ++ if l.any (·.item == key) then [] else [key]) := by
  cases h with
  | hit e he hk =>
    have hany : l.any (·.item == key) = true := List.any_eq_true.mpr ⟨e,he,hk⟩
    have hitem : Entry.item ∘ bump key count = Entry.item := by
      funext x
      unfold Function.comp bump
      split <;> rfl
    simp [hany,hitem]
  | append hne =>
    have hany : l.any (·.item == key) = false := List.any_eq_false.mpr (by simpa using hne)
    simp [hany]
  | evict i old hne _ hi =>
    have hany : l.any (·.item == key) = false := List.any_eq_false.mpr (by simpa using hne)
    obtain ⟨l₁,l₂,hl,hset⟩ := set_split hi ⟨key,count⟩
    rw [hset,hany,hl]
    simp only [List.map_append,List.map_cons,Option.toList_some,List.map_nil,List.append_assoc,
      List.cons_append]
    refine List.Perm.append_left _ ?_
    have hlast := List.perm_append_singleton key (l₂.map Entry.item)
    exact (List.perm_append_singleton old.item _).trans (hlast.symm.cons old.item)

variable [EquivBEq T] [LawfulHashable T]

omit [Layout (Entry T)] [Target] [EquivBEq T] in
theorem Arranged.any_bucket {c : HashCounter T} (h : Arranged c) (key : T) :
    (c.buckets.get (bucketOf key)).live.any (·.item == key) = c.live.any (·.item == key) := by
  rw [Bool.eq_iff_iff,List.any_eq_true,List.any_eq_true]
  constructor
  · rintro ⟨e,he,hk⟩
    exact ⟨e,bucket_mem he,hk⟩
  · rintro ⟨e,he,hk⟩
    exact ⟨e,h.mem_bucket he hk,hk⟩

theorem entriesOf_step {c c' : Collector T} {keys : List T} (harr : Arranged c.map)
    (h : c.EntriesOf keys) {key : T} (hs : c.step (.add key 1) = some c') :
    Arranged c'.map ∧
      c'.EntriesOf (keys ++ if c.map.live.any (·.item == key) then [] else [key]) := by
  simp only [Collector.step] at hs
  split at hs
  · rename_i hadd
    cases hs
    obtain ⟨xs,hxs,hperm⟩ := h
    obtain ⟨evict,xs',hm,hxs',hspill⟩ := collector_add_ok hxs hadd
    obtain ⟨hadded,-,l₁,l₂,hl,hl'⟩ := HashCounter.add_ok hm
    refine ⟨harr.add hm,xs',hxs',?_⟩
    have hitems := hadded.items
    rw [harr.any_bucket] at hitems
    have hspilled := hspill.map Entry.item
    rw [hl] at hperm
    rw [hl']
    simp only [List.map_append,← Multiset.coe_eq_coe,← Multiset.coe_add] at hitems hspilled hperm ⊢
    calc _ = (((c'.map.buckets.get (bucketOf key)).live.map Entry.item : Multiset T) +
            (evict.toList.map Entry.item : Multiset T)) +
          ((l₁.map Entry.item : Multiset T) + (l₂.map Entry.item : Multiset T) +
            ((c.temp_array.buffered.map Entry.item : Multiset T) +
              (xs.map Entry.item : Multiset T))) := by
          rw [hspilled]
          abel
      _ = _ := by
          rw [hitems,← hperm]
          abel
  · cases hs

theorem entriesOf_run {c c' : Collector T} {keys later : List T} (harr : Arranged c.map)
    (h : c.EntriesOf keys) (hr : run Collector.step c (later.map (.add · 1)) = some c') :
    c'.EntriesOf (keys ++ misses c later) := by
  induction later generalizing c keys with
  | nil =>
    cases hr
    simpa [misses] using h
  | cons key later ih =>
    obtain ⟨c₁,hs,hrest⟩ := run_cons_eq_some hr
    obtain ⟨harr₁,h₁⟩ := entriesOf_step harr h hs
    have hi := ih harr₁ h₁ hrest
    simp only [misses,hs]
    split
    · rename_i hany
      simpa [hany] using hi
    · rename_i hany
      simpa [hany] using hi

end Misses

section Listing
variable {F σ : Type} [Layout (Entry (UnresolvedFrames F))] [Target] [Frame F] [DefaultHasher]
variable [Resolver]

theorem Holding.lists_once {p : Profiler F} {samples : List (UnresolvedFrames F)}
    (h : Holding p samples) (processor : Option (Frames → σ → Frames × σ)) (s : σ) :
    ∃ it r, p.data.try_iter none = .ok it ∧
      (reportBuilder p processor).build s none = .ok (.ok r) ∧
      (r.ListsOnce ↔ OneTimeEach (processed processor (collect it) s)) := by
  obtain ⟨r,it,hr,hit,-,ht,hpos,-⟩ := build_ok (b := reportBuilder p processor) rfl h.data
    (history_pos samples) h.sum_fits s
  exact ⟨it,r,hit,hr,listsOnce_iff ht (processed_pos processor hpos s)⟩

/-- After any sessions a report lists each stack once just if the entries of the collector
that show one stack, once converted and processed, have one time. -/
theorem report_lists_once_iff {p₀ : Profiler F} (hnew : Profiler.new false = .ok p₀) (os : Os)
    {ops : List (SessionOp F σ)} (hs : Sessions false ops) (hn : Countable [] ops) :
    ∃ p os' it, run sessionStep (p₀,os) ops = some (p,os') ∧ p.data.try_iter none = .ok it ∧
      ∀ (processor : Option (Frames → σ → Frames × σ)) (s : σ),
        ∃ r, (reportBuilder p processor).build s none = .ok (.ok r) ∧
          (r.ListsOnce ↔ OneTimeEach (processed processor (collect it) s)) := by
  obtain ⟨⟨p,os'⟩,on,hrun,h⟩ := recording_run (s := (p₀,os)) (recording_new hnew) hs hn
  obtain ⟨it,hit,-⟩ := h.data.try_iter
  refine ⟨p,os',it,hrun,hit,fun processor s => ?_⟩
  obtain ⟨it',r,hit',hr,hiff⟩ := h.lists_once processor s
  rw [hit] at hit'
  cases hit'
  exact ⟨r,hr,hiff⟩

theorem session_adds {s s' : Profiler F × Os} {on : Bool} {taken : List (UnresolvedFrames F)}
    {c₀ : Collector (UnresolvedFrames F)} (hc₀ : Collector.new false = .ok c₀)
    (h : Recording s.1 on taken) (hd : run Collector.step c₀ (taken.map (.add · 1)) = some s.1.data)
    {op : SessionOp F σ} {ops : List (SessionOp F σ)} (hs : Sessions on (op :: ops))
    (hstep : sessionStep s op = some s') :
    run Collector.step c₀ ((recorded taken [op]).map (.add · 1)) = some s'.1.data := by
  cases op with
  | start =>
    obtain ⟨rfl,-⟩ := hs
    obtain ⟨p,os,hstart,hsame,-⟩ := recording_start h s.2
    simp only [sessionStep,hstart,Option.some.injEq] at hstep
    subst hstep
    rw [h.idle rfl,← hsame] at hd
    exact hd
  | sample x =>
    simp only [sessionStep] at hstep
    split at hstep
    · rename_i p hsample
      cases hstep
      obtain ⟨u,hu,hsample⟩ := bind_eq_ok.mp hsample
      rw [x.new_captured] at hu
      cases hu
      obtain ⟨n,-,hsample⟩ := bind_eq_ok.mp hsample
      obtain ⟨⟨r,data⟩,hadd,hsample⟩ := bind_eq_ok.mp hsample
      obtain rfl := pure_eq_ok.mp hsample
      obtain rfl := collector_add_none hadd
      have hlast : s.1.data.step (.add x.captured 1) = some data := by
        simp only [Collector.step,hadd]
      simp only [recorded,List.map_append,List.map_cons,List.map_nil]
      exact (run_snoc hd _).trans hlast
    · cases hstep
  | build_unresolved =>
    simp only [sessionStep] at hstep
    split at hstep <;> cases hstep
    exact hd
  | build processor x =>
    simp only [sessionStep] at hstep
    split at hstep <;> cases hstep
    exact hd
  | stop =>
    obtain ⟨rfl,-⟩ := hs
    obtain ⟨act,ha⟩ := h.old_sigaction rfl
    simp only [sessionStep,stop_ok h.running ha s.2 hc₀,Option.some.injEq] at hstep
    subst hstep
    rfl

theorem session_run_adds {s s' : Profiler F × Os} {on : Bool} {taken : List (UnresolvedFrames F)}
    {c₀ : Collector (UnresolvedFrames F)} (hc₀ : Collector.new false = .ok c₀)
    (h : Recording s.1 on taken) (hd : run Collector.step c₀ (taken.map (.add · 1)) = some s.1.data)
    {ops : List (SessionOp F σ)} (hs : Sessions on ops) (hrun : run sessionStep s ops = some s') :
    run Collector.step c₀ ((recorded taken ops).map (.add · 1)) = some s'.1.data := by
  induction ops generalizing s on taken with
  | nil =>
    cases hrun
    exact hd
  | cons op ops ih =>
    obtain ⟨t,ht,hrest⟩ := run_cons_eq_some hrun
    obtain ⟨on',hs',h'⟩ := recording_step h hs ht
    rw [recorded_cons]
    exact ih h' (session_adds hc₀ h hd hs ht) hs' hrest

/-- Without a post-processor a report lists each stack once just if the samples that found no
entry and show one stack have one time. A stack finds none twice if it was evicted between. -/
theorem lists_once_of_misses {p₀ : Profiler F} (hnew : Profiler.new false = .ok p₀) (os : Os)
    {ops : List (SessionOp F σ)} (hs : Sessions false ops) (hn : Countable [] ops) (s : σ) :
    ∃ p os' r, run sessionStep (p₀,os) ops = some (p,os') ∧
      (reportBuilder p none).build s none = .ok (.ok r) ∧
      (r.ListsOnce ↔ ∀ a ∈ misses p₀.data (recorded [] ops),
        ∀ b ∈ misses p₀.data (recorded [] ops), (Frames.from a).stack = (Frames.from b).stack →
          a.sample_timestamp = b.sample_timestamp) := by
  obtain ⟨⟨p,os'⟩,on,hrun,h⟩ := recording_run (s := (p₀,os)) (recording_new hnew) hs hn
  obtain ⟨it,r,hit,hr,hiff⟩ := h.lists_once none s
  obtain ⟨c₀,hc₀,hrec⟩ := collector_new (T := UnresolvedFrames F)
  have hdata : p₀.data = c₀ := by
    simp only [Profiler.new,hc₀] at hnew
    cases hnew
    rfl
  have hadds := session_run_adds hc₀ (recording_new hnew) (by rw [hdata]; rfl) hs hrun
  obtain ⟨hlive,hbuf,hxs⟩ := records_nil_empty hrec
  have hnone : c₀.map.live = [] := by
    apply List.eq_nil_iff_forall_not_mem.mpr
    intro e he
    obtain ⟨i,hi⟩ := mem_live_bucket he
    rw [hlive i] at hi
    cases hi
  have hempty : c₀.EntriesOf [] := ⟨[],hxs,by simp [hnone,hbuf]⟩
  obtain ⟨xs,hxs,hperm⟩ := entriesOf_run hrec.slots.arranged hempty hadds
  refine ⟨p,os',r,hrun,hr,?_⟩
  obtain ⟨it',hit',hcollect⟩ := collector_try_iter hxs
  rw [hit] at hit'
  cases hit'
  have hmem : ∀ u, u ∈ misses p₀.data (recorded [] ops) ↔ ∃ e ∈ collect it, e.item = u := by
    intro u
    rw [hdata,← List.nil_append (misses _ _),← hperm.mem_iff,← hcollect,List.mem_map]
  rw [hiff,processed_none]
  constructor
  · intro htime a ha b hb hab
    obtain ⟨x,hx,rfl⟩ := (hmem a).mp ha
    obtain ⟨y,hy,rfl⟩ := (hmem b).mp hb
    exact htime _ (List.mem_map_of_mem (List.mem_map_of_mem hx)) _
      (List.mem_map_of_mem (List.mem_map_of_mem hy)) hab
  · intro htime a ha b hb hab
    obtain ⟨v,hv,rfl⟩ := List.mem_map.mp ha
    obtain ⟨x,hx,rfl⟩ := List.mem_map.mp hv
    obtain ⟨w,hw,rfl⟩ := List.mem_map.mp hb
    obtain ⟨y,hy,rfl⟩ := List.mem_map.mp hw
    exact htime _ ((hmem _).mpr ⟨x,hx,rfl⟩) _ ((hmem _).mpr ⟨y,hy,rfl⟩) hab

end Listing

def firstSample : Sample PlainFrame := plainSample 1 1 [97]

def firstAgain : Sample PlainFrame := { firstSample with sample_timestamp := ⟨1,0⟩ }

/-- Five stacks of one bucket and then the first of them once more, a second later: it was
evicted to make room for the fifth. -/
def evictedSamples : List (Sample PlainFrame) :=
  [firstSample,plainSample 2 2 [98],plainSample 3 3 [99],plainSample 4 4 [100],
    plainSample 5 5 [101],firstAgain]

def evictedOps : List (SessionOp PlainFrame Unit) := .start :: evictedSamples.map .sample

theorem evicted_entries :
    letI := plainTarget
    letI := plainHasher
    letI := plainLayout
    ∃ c₀ c : Collector (UnresolvedFrames PlainFrame), Collector.new false = .ok c₀ ∧
      run Collector.step c₀ (evictedSamples.map fun x => .add x.captured 1) = some c ∧
      c.temp_array.buffered[0]? = some ⟨firstSample.captured,1⟩ ∧
      (c.map.buckets.get (bucketOf firstSample.captured)).live[0]? =
        some ⟨firstAgain.captured,1⟩ := by
  let _ := plainTarget
  let _ := plainHasher
  let _ := plainLayout
  exact ⟨_,_,rfl,rfl,rfl,rfl⟩

theorem report_lists_once_iff_evicted :
    letI := plainTarget
    letI := plainHasher
    letI := plainResolver
    letI := plainLayout
    ∃ (p₀ p : Profiler PlainFrame) (os os' : Os), Profiler.new false = .ok p₀ ∧
      run sessionStep (p₀,os) evictedOps = some (p,os') ∧
      ∃ it r, p.data.try_iter none = .ok it ∧
        (reportBuilder p none).build () none = .ok (.ok r) ∧
        (r.ListsOnce ↔ OneTimeEach (processed none (collect it) ())) := by
  let _ := plainTarget
  let _ := plainHasher
  let _ := plainResolver
  let _ := plainLayout
  obtain ⟨p₀,hnew⟩ := profiler_new (F := PlainFrame)
  have hs : Sessions false evictedOps := by simp [Sessions,evictedOps,evictedSamples]
  obtain ⟨p,os',it,hrun,hit,hbuild⟩ := report_lists_once_iff hnew plainOs hs
    (countable_of_length (by decide))
  obtain ⟨r,hr,hiff⟩ := hbuild none ()
  exact ⟨p₀,p,plainOs,os',hnew,hrun,it,r,hit,hr,hiff⟩

theorem evicted_stack_listed_twice :
    letI := plainTarget
    letI := plainHasher
    letI := plainResolver
    letI := plainLayout
    ∃ (p₀ p : Profiler PlainFrame) (os os' : Os) (r : Report), Profiler.new false = .ok p₀ ∧
      run sessionStep (p₀,os) evictedOps = some (p,os') ∧
      (reportBuilder p none).build () none = .ok (.ok r) ∧ ¬ r.ListsOnce := by
  let _ := plainTarget
  let _ := plainHasher
  let _ := plainResolver
  let _ := plainLayout
  obtain ⟨c₀,c,hc₀,hc,hfirst,hagain⟩ := evicted_entries
  have hnew : Profiler.new false = .ok (⟨c₀,0,none,false,false,[]⟩ : Profiler PlainFrame) := by
    simp only [Profiler.new,hc₀]
  generalize hp₀ : (⟨c₀,0,none,false,false,[]⟩ : Profiler PlainFrame) = p₀ at hnew
  obtain ⟨p₁,os₁,hstart,hdata,h₁⟩ := recording_start (recording_new hnew) plainOs
  have hlen : ([] : List (UnresolvedFrames PlainFrame)).length + evictedSamples.length < 2^31 := by
    decide
  obtain ⟨⟨p,os'⟩,hrun,hadds,h⟩ := samples_added (σ := Unit) (s := (p₁,os₁)) h₁ hlen
  have hp : p.data = c := by
    simp only [hdata,← hp₀,hc,Option.some.injEq] at hadds
    exact hadds.symm
  obtain ⟨it,r,hit,hr,hiff⟩ := h.toHolding.lists_once none ()
  have hstep : sessionStep (σ := Unit) (p₀,plainOs) .start = some (p₁,os₁) := by
    simp only [sessionStep,hstart]
  have hops : run sessionStep (p₀,plainOs) evictedOps = some (p,os') := by
    rw [evictedOps,run_cons_some hstep,hrun]
  refine ⟨p₀,p,plainOs,os',r,hnew,hops,hr,fun honce => ?_⟩
  obtain ⟨xs,hxs,-⟩ := h.data.spilled
  obtain ⟨it',hit',hcollect⟩ := collector_try_iter hxs
  rw [hit] at hit'
  cases hit'
  simp only [hp] at hcollect
  have hin₁ : (⟨firstSample.captured,1⟩ : Entry _) ∈ collect it := by
    rw [hcollect]
    simp [List.mem_of_getElem? hfirst]
  have hin₂ : (⟨firstAgain.captured,1⟩ : Entry _) ∈ collect it := by
    rw [hcollect]
    simp [bucket_mem (List.mem_of_getElem? hagain)]
  have htime := hiff.mp honce
  rw [processed_none] at htime
  have hkeys := htime _ (List.mem_map_of_mem (List.mem_map_of_mem hin₁)) _
    (List.mem_map_of_mem (List.mem_map_of_mem hin₂)) rfl
  have hsec : (0 : Int) = 1 := congrArg SystemTime.tv_sec hkeys
  omega

end Pprof
