import Pprof.CollectorCounts
set_option autoImplicit false

/-! What a failed write of the spill buffer leaves behind. The buffer index and the
count of flushed blocks are changed before the write, and `try_iter` asks the file for
as many blocks as are counted. -/

namespace Pprof
open FormalSum Iteration Memory Runs TempFile

section Failure
variable {T : Type} [Layout (Entry T)] [Target]

theorem short_try_iter {c : Collector T} (h : c.temp_array.Short) :
    c.try_iter none = .error .unexpectedEof := by
  unfold Collector.try_iter
  rw [h.try_iter]
  rfl

variable [BEq T] [Hashable T]

structure AddCall (T : Type) where
  key : T
  count : Int
  fault : Option Nat

/-- The caller goes on after an I/O error; a panic ends the run. -/
def Collector.addStep (c : Collector T) (call : AddCall T) : Option (Collector T) :=
  match c.add call.key call.count call.fault with
  | .ok (_,c) => some c
  | .error _ => none

/-- With reads succeeding `c'` still yields what `c` yields, if not more. -/
def KeepsTotals (c c' : Collector T) : Prop :=
  ∃ it', c'.try_iter none = .ok it' ∧ ∀ it, c.try_iter none = .ok it → ∀ k,
    total (· == k) ((collect it).map Entry.pair) ≤ total (· == k) ((collect it').map Entry.pair)

theorem addStep_eq_some {c c' : Collector T} {call : AddCall T}
    (h : c.addStep call = some c') :
    ∃ r, c.add call.key call.count call.fault = .ok (r,c') := by
  unfold Collector.addStep at h
  split at h
  · rename_i r c₁ ha
    cases h
    exact ⟨r,ha⟩
  · cases h

theorem short_add {c c' : Collector T} (h : c.temp_array.Short) {key : T} {count : Int}
    {fault : Option Nat} {r : Except IoError Unit} (ha : c.add key count fault = .ok (r,c')) :
    c'.temp_array.Short := by
  rcases collector_add_cases ha with ⟨-,-,ht⟩ | ⟨evict,-,hp⟩
  · rw [ht]
    exact h
  · exact h.push hp

def FileState (c : Collector T) : Prop := (∃ xs, c.temp_array.Holds xs) ∨ c.temp_array.Short

theorem failed_add_short {c c' : Collector T} (h : FileState c) {key : T} {count : Int}
    {fault : Option Nat} {err : IoError} (ha : c.add key count fault = .ok (.error err,c')) :
    c'.temp_array.Short := by
  rcases h with ⟨xs,hxs⟩ | hs
  · rcases collector_add_cases ha with ⟨-,hr,-⟩ | ⟨evict,-,hp⟩
    · cases hr
    · exact hxs.push_error hp
  · exact short_add hs ha

theorem fileState_step {c c' : Collector T} (h : FileState c) {call : AddCall T}
    (hs : c.addStep call = some c') : FileState c' := by
  obtain ⟨r,ha⟩ := addStep_eq_some hs
  cases r with
  | error err => exact .inr (failed_add_short h ha)
  | ok u =>
    rcases h with ⟨xs,hxs⟩ | hshort
    · obtain ⟨evict,xs',-,hxs',-⟩ := collector_add_ok hxs ha
      exact .inl ⟨xs',hxs'⟩
    · exact .inr (short_add hshort ha)

theorem short_run {c c' : Collector T} (h : c.temp_array.Short) {calls : List (AddCall T)}
    (hrun : run Collector.addStep c calls = some c') : c'.temp_array.Short := by
  refine Reachable.invariant (I := fun c => c.temp_array.Short) ?_ h ⟨calls,hrun⟩
  intro c call c' hc hs
  obtain ⟨r,ha⟩ := addStep_eq_some hs
  exact short_add hc ha

/-- After a failed write nothing that was collected can be read any more, now or after
any further adds. -/
theorem failed_add_loses [Inhabited T] {c₀ c c₁ c₂ : Collector T}
    (hnew : Collector.new false = .ok c₀) {before after : List (AddCall T)}
    (hc : run Collector.addStep c₀ before = some c) {key : T} {count : Int}
    {fault : Option Nat} {err : IoError} (ha : c.add key count fault = .ok (.error err,c₁))
    (hafter : run Collector.addStep c₁ after = some c₂) : ¬ KeepsTotals c c₂ := by
  have h₀ : FileState c₀ := by
    obtain ⟨c,hn,h⟩ := collector_new (T := T)
    rw [hnew] at hn
    cases hn
    obtain ⟨xs,hxs,-⟩ := h.spilled
    exact .inl ⟨xs,hxs⟩
  have hstate : FileState c := by
    refine Reachable.invariant (I := FileState) ?_ h₀ ⟨before,hc⟩
    intro c call c' h hs
    exact fileState_step h hs
  have hshort := short_run (failed_add_short hstate ha) hafter
  rintro ⟨it',hit,-⟩
  rw [short_try_iter hshort] at hit
  cases hit

section OneBucket
variable {key : Nat → T} {i : Fin BUCKETS}

structure Filled (key : Nat → T) (i : Fin BUCKETS) (n : Nat) (c : Collector T) : Prop where
  holds : ∃ xs, c.temp_array.Holds xs
  length : (c.map.buckets.get i).live.length = min n BUCKETS_ASSOCIATIVITY
  items : ∀ e ∈ (c.map.buckets.get i).live, ∃ m, m < n ∧ e.item = key m
  buffer_index : c.temp_array.buffer_index = n-BUCKETS_ASSOCIATIVITY

theorem filled_zero {c : Collector T} (h : c.Records []) : Filled key i 0 c := by
  obtain ⟨hlive,hbuf,hxs⟩ := records_nil_empty h
  have hidx := buffered_length c.temp_array
  rw [hbuf] at hidx
  exact ⟨⟨[],hxs⟩,by simp [hlive],by simp [hlive],hidx.symm⟩

variable (hne : ∀ m n, m ≠ n → (key m == key n) = false) (hb : ∀ n, bucketOf (key n) = i)
include hne hb

theorem Filled.miss {n : Nat} {c : Collector T} (h : Filled key i n c) :
    ∀ e ∈ (c.map.buckets.get (bucketOf (key n))).live, (e.item == key n) = false := by
  rw [hb n]
  intro e he
  obtain ⟨m,hm,he⟩ := h.items e he
  rw [he]
  exact hne m n (Nat.ne_of_lt hm)

theorem Filled.add_total {n : Nat} {c : Collector T} (h : Filled key i n c)
    (fault : Option Nat) : ∃ r, c.add (key n) 1 fault = .ok r := by
  apply collector_add_of_map
  apply HashCounter.add_total
  intro e he hk
  rw [h.miss hne hb e he] at hk
  cases hk

omit hne [BEq T] in
theorem Filled.items_next {n : Nat} {c : Collector T} (h : Filled key i n c) (count : Int)
    {l : List (Entry T)}
    (hl : ∀ e ∈ l, e ∈ (c.map.buckets.get (bucketOf (key n))).live ∨ e = ⟨key n,count⟩) :
    ∀ e ∈ l, ∃ m, m < n+1 ∧ e.item = key m := by
  rw [hb n] at hl
  intro e he
  rcases hl e he with he | rfl
  · obtain ⟨m,hm,hk⟩ := h.items e he
    exact ⟨m,by omega,hk⟩
  · exact ⟨n,by omega,rfl⟩

theorem Filled.next {n : Nat} {c : Collector T} (h : Filled key i n c)
    (hn : n < BUCKETS_ASSOCIATIVITY+BUFFER_LENGTH) :
    ∃ c', c.addStep ⟨key n,1,none⟩ = some c' ∧ Filled key i (n+1) c' := by
  obtain ⟨⟨result,c'⟩,ha⟩ := h.add_total hne hb none
  have hlen := h.length
  have hidx := h.buffer_index
  obtain ⟨xs,hxs⟩ := h.holds
  have hmiss := h.miss hne hb
  have hs : c.addStep ⟨key n,1,none⟩ = some c' := by simp only [Collector.addStep,ha]
  rcases collector_add_cases ha with ⟨hm,rfl,ht⟩ | ⟨evict,hm,hp⟩
  · obtain ⟨hadd,-⟩ := HashCounter.add_ok hm
    obtain ⟨-,hlt,hl⟩ | ⟨j,old,he,-⟩ := hadd.of_miss hmiss
    · have hitems := h.items_next hb 1 (l := (c'.map.buckets.get (bucketOf (key n))).live)
        (by simp [hl])
      rw [hb n] at hl hlt hitems
      refine ⟨c',hs,⟨⟨xs,?_⟩,?_,hitems,?_⟩⟩
      · rw [ht]
        exact hxs
      · rw [hl,List.length_append,List.length_singleton]
        omega
      · rw [ht]
        omega
    · cases he
  · obtain ⟨hadd,-⟩ := HashCounter.add_ok hm
    obtain ⟨he,-⟩ | ⟨j,old,-,hfull,hl⟩ := hadd.of_miss hmiss
    · cases he
    · have hitems := h.items_next hb 1 (l := (c'.map.buckets.get (bucketOf (key n))).live)
        (by rw [hl]; exact fun e he => List.mem_or_eq_of_mem_set he)
      rw [hb n] at hl hfull hitems
      have hroom : c.temp_array.buffer_index < BUFFER_LENGTH := by omega
      rw [push_room evict none hroom] at hp
      obtain ⟨rfl,hstore⟩ := Prod.mk.inj hp
      obtain ⟨evict,xs',-,hxs',-⟩ := collector_add_ok hxs ha
      refine ⟨c',hs,⟨⟨xs',hxs'⟩,?_,hitems,?_⟩⟩
      · rw [hl,List.length_set]
        omega
      · rw [← hstore]
        change c.temp_array.buffer_index+1 = n+1-BUCKETS_ASSOCIATIVITY
        omega

theorem filled_run {c : Collector T} (h : Filled key i 0 c) {n : Nat}
    (hn : n ≤ BUCKETS_ASSOCIATIVITY+BUFFER_LENGTH) :
    ∃ c', run Collector.addStep c ((List.range n).map fun m => ⟨key m,1,none⟩) = some c' ∧
      Filled key i n c' := by
  induction n with
  | zero => exact ⟨c,rfl,h⟩
  | succ n ih =>
    obtain ⟨c₁,hrun,h₁⟩ := ih (by omega)
    obtain ⟨c₂,hs,h₂⟩ := h₁.next hne hb (by omega)
    refine ⟨c₂,?_,h₂⟩
    rw [List.range_succ,List.map_append,List.map_singleton,run_snoc hrun]
    exact hs

theorem Filled.fails {c : Collector T} {n : Nat} (h : Filled key i n c)
    (hn : n = BUCKETS_ASSOCIATIVITY+BUFFER_LENGTH) :
    ∃ c', c.add (key n) 1 (some 0) = .ok (.error .write,c') := by
  obtain ⟨⟨result,c'⟩,ha⟩ := h.add_total hne hb (some 0)
  have hlen := h.length
  have hidx := h.buffer_index
  have hpos := BUFFER_LENGTH_pos
  have hmiss := h.miss hne hb
  rcases collector_add_cases ha with ⟨hm,-,-⟩ | ⟨evict,hm,hp⟩
  · obtain ⟨hadd,-⟩ := HashCounter.add_ok hm
    obtain ⟨-,hlt,-⟩ | ⟨j,old,he,-⟩ := hadd.of_miss hmiss
    · rw [hb n] at hlt
      omega
    · cases he
  · have hroom : ¬ c.temp_array.buffer_index < BUFFER_LENGTH := by omega
    have hbytes : 0 < (c.temp_array.buffer.toList.flatMap toBytes).length := by
      rw [length_buffer_bytes]
      exact Nat.mul_pos hpos Layout.size_of_pos
    have hf : (c.temp_array.flush_buffer (some 0)).1 = .error .write := by
      simp only [TempFdArray.flush_buffer,NamedTempFile.write_all,if_pos hbytes]
    simp only [TempFdArray.push,hroom,hf,dif_neg,not_false_eq_true] at hp
    obtain ⟨rfl,-⟩ := Prod.mk.inj hp
    exact ⟨c',ha⟩

theorem fill_then_fail [Inhabited T] :
    ∃ c₀ c c₁ : Collector T, Collector.new false = .ok c₀ ∧
      run Collector.addStep c₀ ((List.range (BUCKETS_ASSOCIATIVITY+BUFFER_LENGTH)).map fun n =>
        ⟨key n,1,none⟩) = some c ∧
      c.add (key (BUCKETS_ASSOCIATIVITY+BUFFER_LENGTH)) 1 (some 0) = .ok (.error .write,c₁) ∧
      ∃ xs, c.temp_array.Holds xs := by
  obtain ⟨c₀,hnew,hrec⟩ := collector_new (T := T)
  obtain ⟨c,hrun,hfill⟩ := filled_run hne hb (filled_zero hrec) (Nat.le_refl _)
  obtain ⟨c₁,ha⟩ := hfill.fails hne hb rfl
  exact ⟨c₀,c,c₁,hnew,hrun,ha,hfill.holds⟩

end OneBucket

end Failure

theorem bucketOf_multiple (n : Nat) : bucketOf (n*BUCKETS) = ⟨0,BUCKETS_pos⟩ := by
  apply Fin.ext
  change (n*BUCKETS)%2^64%BUCKETS = 0
  rw [show BUCKETS = 4096 from rfl]
  omega

theorem multiple_ne (m n : Nat) (h : m ≠ n) : (m*BUCKETS == n*BUCKETS) = false := by
  rw [beq_eq_false_iff_ne]
  intro he
  exact h (Nat.eq_of_mul_eq_mul_right BUCKETS_pos he)

theorem failed_add_loses_nat :
    letI : Target := ⟨128,239,true,Nat.succ_pos 238⟩
    letI : Layout (Entry Nat) := indexedLayout (Entry Nat) 1096 (Nat.succ_pos 1095)
    ∃ c₀ c c₁ : Collector Nat, Collector.new false = .ok c₀ ∧
      run Collector.addStep c₀ ((List.range 243).map fun n => ⟨n*BUCKETS,1,none⟩) = some c ∧
      c.add (243*BUCKETS) 1 (some 0) = .ok (.error .write,c₁) ∧ ¬ KeepsTotals c c₁ := by
  let _ : Target := ⟨128,239,true,Nat.succ_pos 238⟩
  let _ : Layout (Entry Nat) := indexedLayout (Entry Nat) 1096 (Nat.succ_pos 1095)
  obtain ⟨c₀,c,c₁,hnew,hrun,ha,-⟩ := fill_then_fail multiple_ne bucketOf_multiple
  exact ⟨c₀,c,c₁,hnew,hrun,ha,failed_add_loses hnew hrun ha (run_nil c₁)⟩

/-- The buffer has 239 slots where an entry takes 1096 bytes. The 243 adds before the
one that fails are of different keys of one bucket, all with count one. -/
theorem collected_unreadable_nat :
    letI : Target := ⟨128,239,true,Nat.succ_pos 238⟩
    letI : Layout (Entry Nat) := indexedLayout (Entry Nat) 1096 (Nat.succ_pos 1095)
    ∃ (c₀ c c₁ : Collector Nat) (it : _), Collector.new false = .ok c₀ ∧
      run Collector.addStep c₀ ((List.range 243).map fun n => ⟨n*BUCKETS,1,none⟩) = some c ∧
      c.try_iter none = .ok it ∧
      c.add (243*BUCKETS) 1 (some 0) = .ok (.error .write,c₁) ∧
      c₁.try_iter none = .error .unexpectedEof := by
  let _ : Target := ⟨128,239,true,Nat.succ_pos 238⟩
  let _ : Layout (Entry Nat) := indexedLayout (Entry Nat) 1096 (Nat.succ_pos 1095)
  obtain ⟨c₀,c,c₁,hnew,hrun,ha,xs,hxs⟩ := fill_then_fail multiple_ne bucketOf_multiple
  obtain ⟨it,hit,-⟩ := collector_try_iter hxs
  exact ⟨c₀,c,c₁,it,hnew,hrun,hit,ha,short_try_iter (failed_add_short (.inl ⟨xs,hxs⟩) ha)⟩

end Pprof
