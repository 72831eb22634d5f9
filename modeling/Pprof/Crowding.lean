import Pprof.HeavyKeys
set_option autoImplicit false

/-! When the collector begins to spill. Until a bucket is given more keys than it has slots the
counter in memory is an exact table of counts, and the file is not touched. -/

namespace Pprof
open DistinctKeys FormalSum Iteration Memory Runs TempFile

section Crowding
variable {T : Type} [BEq T] [Hashable T]

def keysIn (i : Fin BUCKETS) (hist : List (T × ℤ)) : List T :=
  (hist.map Prod.fst).filter fun key => bucketOf key = i

/-- Some bucket was given more keys than it has slots. -/
def Crowded (hist : List (T × ℤ)) : Prop :=
  ∃ i, BUCKETS_ASSOCIATIVITY < (firsts (keysIn i hist)).length

omit [BEq T] in
theorem keysIn_same (key : T) (count : ℤ) (hist : List (T × ℤ)) :
    keysIn (bucketOf key) (hist ++ [(key,count)]) = keysIn (bucketOf key) hist ++ [key] := by
  simp [keysIn]

omit [BEq T] in
theorem keysIn_other {key : T} {i : Fin BUCKETS} (h : bucketOf key ≠ i) (count : ℤ)
    (hist : List (T × ℤ)) : keysIn i (hist ++ [(key,count)]) = keysIn i hist := by
  simp [keysIn,h]

theorem Crowded.snoc {hist : List (T × ℤ)} (h : Crowded hist) (a : T × ℤ) :
    Crowded (hist ++ [a]) := by
  obtain ⟨i,hi⟩ := h
  obtain ⟨key,count⟩ := a
  refine ⟨i,Nat.lt_of_lt_of_le hi ?_⟩
  by_cases hk : bucketOf key = i
  · subst hk
    rw [keysIn_same,firsts_snoc]
    split
    · exact Nat.le_refl _
    · simp
  · rw [keysIn_other hk]

theorem Crowded.append {hist : List (T × ℤ)} (h : Crowded hist) (later : List (T × ℤ)) :
    Crowded (hist ++ later) := by
  induction later generalizing hist with
  | nil => simpa using h
  | cons a later ih =>
    rw [List.append_cons]
    exact ih (h.snoc a)

omit [BEq T] [Hashable T] in
theorem length_firsts_le [BEq T] (keys : List T) : (firsts keys).length ≤ keys.length := by
  induction keys using List.reverseRecOn with
  | nil => exact Nat.le_refl _
  | append_singleton keys k ih =>
    rw [firsts_snoc,List.length_append,List.length_singleton]
    split
    · omega
    · rw [List.length_append,List.length_singleton]
      omega

theorem Crowded.lt_length {hist : List (T × ℤ)} (h : Crowded hist) :
    BUCKETS_ASSOCIATIVITY < hist.length := by
  obtain ⟨i,hi⟩ := h
  have hfirsts := length_firsts_le (keysIn i hist)
  have hkeys : (keysIn i hist).length ≤ hist.length := by
    have hle := List.length_filter_le (fun key => decide (bucketOf key = i)) (hist.map Prod.fst)
    rwa [List.length_map] at hle
  omega

variable [LawfulHashable T]

theorem any_keysIn (key : T) (hist : List (T × ℤ)) :
    (keysIn (bucketOf key) hist).any (· == key) = occurs key hist := by
  rw [Bool.eq_iff_iff]
  simp only [keysIn,occurs,List.any_eq_true,List.mem_filter,List.mem_map,decide_eq_true_eq]
  constructor
  · rintro ⟨k,⟨⟨a,ha,rfl⟩,-⟩,hk⟩
    exact ⟨a,ha,hk⟩
  · rintro ⟨a,ha,hk⟩
    exact ⟨a.1,⟨⟨a,ha,rfl⟩,bucketOf_congr hk⟩,hk⟩

variable [EquivBEq T]

/-- The counter is the table of the counts: each key has its slot from its first `add` on. -/
structure Tabulates (hist : List (T × ℤ)) (c : HashCounter T) : Prop where
  arranged : Arranged c
  items : ∀ i, (c.buckets.get i).live.map Entry.item = firsts (keysIn i hist)
  counts : ∀ i, ∀ e ∈ (c.buckets.get i).live, e.count = total (· == e.item) hist

omit [LawfulHashable T] [EquivBEq T] in
theorem tabulates_default [Inhabited T] : Tabulates [] (default : HashCounter T) := by
  refine ⟨arranged_default,fun i => ?_,fun i e he => ?_⟩
  · rw [live_default]
    rfl
  · rw [live_default] at he
    cases he

variable {hist : List (T × ℤ)} {c c' : HashCounter T} {key : T} {count : ℤ}

theorem Tabulates.any_live (h : Tabulates hist c) (key : T) :
    ((c.buckets.get (bucketOf key)).live.any fun e => e.item == key) = occurs key hist := by
  have hmap : ((c.buckets.get (bucketOf key)).live.map Entry.item).any (· == key) =
      occurs key hist := by rw [h.items,any_firsts,any_keysIn]
  rw [← hmap,List.any_map]
  rfl

omit [LawfulHashable T] [EquivBEq T] in
theorem Tabulates.count_other (h : Tabulates hist c) {i : Fin BUCKETS} {e : Entry T}
    (he : e ∈ (c.buckets.get i).live) (hk : (key == e.item) = false) :
    e.count = total (· == e.item) (hist ++ [(key,count)]) := by
  rw [total_snoc,hk]
  simpa using h.counts i e he

theorem Tabulates.added (h : Tabulates hist c) {l' : List (Entry T)} {evict : Option (Entry T)}
    (hadd : Added key count (c.buckets.get (bucketOf key)).live l' evict) :
    (evict = none ∧ l'.map Entry.item = firsts (keysIn (bucketOf key) (hist ++ [(key,count)])) ∧
      ∀ e ∈ l', e.count = total (· == e.item) (hist ++ [(key,count)])) ∨
    evict ≠ none ∧
      BUCKETS_ASSOCIATIVITY < (firsts (keysIn (bucketOf key) (hist ++ [(key,count)]))).length := by
  have hitems := h.items (bucketOf key)
  have hany := any_firsts (keysIn (bucketOf key) hist) key
  rw [any_keysIn] at hany
  have habsent : (∀ e ∈ (c.buckets.get (bucketOf key)).live, (e.item == key) = false) →
      occurs key hist = false := by
    intro hne
    rw [← h.any_live,List.any_eq_false]
    intro e he
    simp [hne e he]
  rw [keysIn_same,firsts_snoc,hany]
  cases hadd with
  | hit e he hk =>
    have hocc : occurs key hist = true := by
      rw [← h.any_live]
      exact List.any_eq_true.mpr ⟨e,he,hk⟩
    refine .inl ⟨rfl,?_,fun x hx => ?_⟩
    · rw [if_pos hocc,← hitems,List.map_map]
      refine List.map_congr_left fun x _ => ?_
      simp only [Function.comp_apply,bump]
      split <;> rfl
    · obtain ⟨y,hy,rfl⟩ := List.mem_map.mp hx
      unfold bump
      by_cases hyk : y.item == key
      · rw [if_pos hyk]
        simp only [total_snoc,BEq.comm (a := key),hyk,if_true]
        rw [h.counts _ y hy]
      · rw [if_neg hyk]
        exact h.count_other hy (by rw [BEq.comm]; simpa using hyk)
  | append hne =>
    have hocc := habsent hne
    refine .inl ⟨rfl,?_,fun x hx => ?_⟩
    · rw [hocc,List.map_append,hitems]
      rfl
    · rcases List.mem_append.mp hx with hx | hx
      · exact h.count_other hx (by rw [BEq.comm]; exact hne x hx)
      · rw [List.mem_singleton.mp hx]
        rw [total_snoc,total_of_absent hocc]
        simp
  | evict i old hne hlen =>
    have hocc := habsent hne
    refine .inr ⟨by simp,?_⟩
    rw [hocc,← hitems]
    simp [hlen]

theorem Tabulates.add (h : Tabulates hist c) {evict : Option (Entry T)}
    (ha : c.add key count = .ok (c',evict)) :
    (evict = none ∧ Tabulates (hist ++ [(key,count)]) c') ∨
    evict ≠ none ∧ Crowded (hist ++ [(key,count)]) := by
  obtain ⟨hadd,hother,-⟩ := HashCounter.add_ok ha
  have harr := h.arranged.add ha
  rcases h.added hadd with ⟨hnone,hitems,hcounts⟩ | ⟨hsome,hcrowd⟩
  · refine .inl ⟨hnone,harr,fun j => ?_,fun j e he => ?_⟩ <;> by_cases hj : bucketOf key = j
    · rw [← hj]
      exact hitems
    · rw [hother j (Ne.symm hj),keysIn_other hj]
      exact h.items j
    · rw [← hj] at he
      exact hcounts e he
    · rw [hother j (Ne.symm hj)] at he
      refine h.count_other he ?_
      rw [← Bool.not_eq_true]
      intro hk
      exact hj ((bucketOf_congr hk).trans (h.arranged.placed j e he))
  · exact .inr ⟨hsome,_,hcrowd⟩

omit [LawfulHashable T] [EquivBEq T] in
theorem Tabulates.not_crowded (h : Tabulates hist c) : ¬ Crowded hist := by
  rintro ⟨i,hi⟩
  rw [← h.items,List.length_map,live_length] at hi
  have hle := (c.buckets.get i).length_le
  omega

theorem Tabulates.evicts_iff (h : Tabulates hist c) {evict : Option (Entry T)}
    (ha : c.add key count = .ok (c',evict)) :
    evict ≠ none ↔ Crowded (hist ++ [(key,count)]) := by
  rcases h.add ha with ⟨hnone,ht⟩ | ⟨hsome,hcrowd⟩
  · exact ⟨fun hne => absurd hnone hne,fun hc => absurd hc ht.not_crowded⟩
  · exact ⟨fun _ => hcrowd,fun _ => hsome⟩

end Crowding

section Spilling
variable {T : Type} [BEq T] [Hashable T] [EquivBEq T] [LawfulHashable T] [Layout (Entry T)]
  [Target]

theorem tabulates_addStep {hist : List (T × ℤ)} {c c' : Collector T} (h : Tabulates hist c.map)
    {call : AddCall T} {r : Except IoError Unit}
    (ha : c.add call.key call.count call.fault = .ok (r,c'))
    (hc : ¬ Crowded (hist ++ [call.pair])) :
    r = .ok () ∧ c'.temp_array = c.temp_array ∧ Tabulates (hist ++ [call.pair]) c'.map := by
  rcases collector_add_cases ha with ⟨hm,hr,ht⟩ | ⟨evict,hm,-⟩
  · rcases h.add hm with ⟨-,htab⟩ | ⟨hne,-⟩
    · exact ⟨hr,ht,htab⟩
    · exact absurd rfl hne
  · exact absurd ((h.evicts_iff hm).mp (by simp)) hc

theorem tabulates_run {hist : List (T × ℤ)} {c c' : Collector T} (h : Tabulates hist c.map)
    {calls : List (AddCall T)} (hr : run Collector.addStep c calls = some c')
    (hc : ¬ Crowded (hist ++ calls.map AddCall.pair)) :
    c'.temp_array = c.temp_array ∧ Tabulates (hist ++ calls.map AddCall.pair) c'.map := by
  induction calls generalizing c hist with
  | nil =>
    cases hr
    simpa using h
  | cons call calls ih =>
    obtain ⟨c₁,hs,hrest⟩ := run_cons_eq_some hr
    obtain ⟨r,ha⟩ := addStep_eq_some hs
    have hcons : hist ++ (call :: calls).map AddCall.pair =
        hist ++ [call.pair] ++ calls.map AddCall.pair := by simp
    rw [hcons] at hc ⊢
    have hnow : ¬ Crowded (hist ++ [call.pair]) := fun h => hc (h.append _)
    obtain ⟨-,ht,htab⟩ := tabulates_addStep h ha hnow
    obtain ⟨ht',htab'⟩ := ih htab hrest hc
    exact ⟨ht'.trans ht,htab'⟩

omit [LawfulHashable T] in
theorem Tabulates.add_total {hist : List (T × ℤ)} {c : Collector T} (h : Tabulates hist c.map)
    {key : T} {count : ℤ} (hrange : InIsize (total (· == key) hist+count))
    (fault : Option Nat) : ∃ r, c.add key count fault = .ok r := by
  apply collector_add_of_map
  apply HashCounter.add_total
  intro e he hk
  have hsame : (fun x => x == e.item) = (· == key) := by
    funext x
    exact BEq.congr_right hk
  rwa [h.counts _ e he,hsame]

omit [Layout (Entry T)] [Target] in
theorem Tabulates.read {hist : List (T × ℤ)} {c : HashCounter T} (h : Tabulates hist c) (key : T) :
    (c.live.filter fun e => e.item == key).map Entry.count =
      if occurs key hist then [total (· == key) hist] else [] := by
  have hany := h.any_live key
  cases ho : occurs key hist with
  | true =>
    rw [ho] at hany
    obtain ⟨e,he,hk⟩ := List.any_eq_true.mp hany
    have hcount : e.count = total (· == key) hist := by
      have hsame : (fun x => x == e.item) = (· == key) := by
        funext x
        exact BEq.congr_right hk
      rw [h.counts _ e he,hsame]
    rw [filter_eq_single h.arranged.distinct_live (bucket_mem he) hk]
    simp [hcount]
  | false =>
    rw [ho] at hany
    have hnil : (c.live.filter fun e => e.item == key) = [] := by
      rw [List.filter_eq_nil_iff]
      intro e he hk
      rw [List.any_eq_false] at hany
      exact hany e (h.arranged.mem_bucket he hk) hk
    simp [hnil]

/-- Until a bucket is given more keys than it has slots nothing is spilled, so that no write can
fail, and what is read is exact. The next `add` evicts if and only if it crowds a bucket, and
succeeds if it does not and its sum stays in range. -/
theorem exact_until_crowded [Inhabited T] {c₀ c : Collector T}
    (hnew : Collector.new false = .ok c₀) {calls : List (AddCall T)}
    (hr : run Collector.addStep c₀ calls = some c)
    (hc : ¬ Crowded (calls.map AddCall.pair)) :
    c.temp_array = c₀.temp_array ∧
    (∃ it, c.try_iter none = .ok it ∧ ∀ key,
      ((collect it).filter fun e => e.item == key).map Entry.count =
        if occurs key (calls.map AddCall.pair) then [total (· == key) (calls.map AddCall.pair)]
        else []) ∧
    ∀ call : AddCall T,
      (∀ (r : Except IoError Unit) (c' : Collector T),
        c.add call.key call.count call.fault = .ok (r,c') →
          ((∃ old, c.map.add call.key call.count = .ok (c'.map,some old)) ↔
            Crowded (calls.map AddCall.pair ++ [call.pair])) ∧
          (¬ Crowded (calls.map AddCall.pair ++ [call.pair]) →
            r = .ok () ∧ c'.temp_array = c₀.temp_array)) ∧
      (¬ Crowded (calls.map AddCall.pair ++ [call.pair]) →
        InIsize (total (· == call.key) (calls.map AddCall.pair)+call.count) →
          ∃ c', c.add call.key call.count call.fault = .ok (.ok (),c')) := by
  obtain ⟨c₁,h₁,hrec⟩ := collector_new (T := T)
  rw [hnew] at h₁
  cases h₁
  obtain ⟨-,hbuf,hholds⟩ := records_nil_empty hrec
  have hmap : c₀.map = default := by
    cases hnew
    rfl
  have hzero : Tabulates [] c₀.map := by
    rw [hmap]
    exact tabulates_default
  obtain ⟨ht,htab⟩ := tabulates_run hzero hr hc
  refine ⟨ht,?_,fun call => ⟨fun r c' ha => ⟨?_,fun hnc => ?_⟩,fun hnc hrange => ?_⟩⟩
  · rw [← ht] at hholds hbuf
    obtain ⟨it,hit,hcollect⟩ := collector_try_iter hholds
    refine ⟨it,hit,fun key => ?_⟩
    rw [hcollect,hbuf,List.append_nil,List.append_nil]
    exact htab.read key
  · rcases collector_add_cases ha with ⟨hm,-⟩ | ⟨old,hm,-⟩
    · have hiff := htab.evicts_iff hm
      rw [hm]
      exact ⟨fun ⟨old,he⟩ => by simp at he,fun hcr => absurd rfl (hiff.mpr hcr)⟩
    · exact ⟨fun _ => (htab.evicts_iff hm).mp (by simp),fun _ => ⟨old,hm⟩⟩
  · obtain ⟨hok,hsame,-⟩ := tabulates_addStep htab ha hnc
    exact ⟨hok,hsame.trans ht⟩
  · obtain ⟨⟨r,c'⟩,ha⟩ := htab.add_total hrange call.fault
    obtain ⟨rfl,-⟩ := tabulates_addStep htab ha hnc
    exact ⟨c',ha⟩

end Spilling

theorem exact_until_crowded_nat :
    letI : Target := ⟨128,2,false,Nat.two_pos⟩
    letI : Layout (Entry Nat) := indexedLayout (Entry Nat) 1 Nat.one_pos
    ∃ (c₀ c : Collector Nat) (it : _), Collector.new false = .ok c₀ ∧
      run Collector.addStep c₀ [⟨0,2,some 0⟩,⟨4096,1,some 0⟩,⟨0,3,some 0⟩] = some c ∧
      c.try_iter none = .ok it ∧
      ((collect it).filter fun e => e.item == 0).map Entry.count = [5] := by
  let _ : Target := ⟨128,2,false,Nat.two_pos⟩
  let _ : Layout (Entry Nat) := indexedLayout (Entry Nat) 1 Nat.one_pos
  obtain ⟨c₀,hnew,-⟩ := collector_new (T := Nat)
  obtain ⟨c,hrun⟩ : ∃ c, run Collector.addStep c₀ [⟨0,2,some 0⟩,⟨4096,1,some 0⟩,⟨0,3,some 0⟩] =
      some c := by
    cases hnew
    exact ⟨_,rfl⟩
  have hc : ¬ Crowded ([⟨0,2,some 0⟩,⟨4096,1,some 0⟩,⟨0,3,some 0⟩].map
      (AddCall.pair (T := Nat))) := fun hc => absurd hc.lt_length (by decide)
  obtain ⟨-,⟨it,hit,hread⟩,-⟩ := exact_until_crowded hnew hrun hc
  exact ⟨c₀,c,it,hnew,hrun,hit,(hread 0).trans rfl⟩

end Pprof
