import Pprof.SpillFailure
import Pprof.SpillOrder
set_option autoImplicit false

/-! Eviction by the least count keeps what is added most. A key that always has more than its
share of its bucket stays in the bucket, and its count in one entry. -/

namespace Pprof
open DistinctKeys FormalSum Iteration Memory Runs TempFile

section Bucket
variable {T : Type} [BEq T] [Hashable T]

def bucketTotal (key : T) (hist : List (T × ℤ)) : ℤ :=
  total (fun k => decide (bucketOf k = bucketOf key)) hist

def occurs (key : T) (hist : List (T × ℤ)) : Bool := hist.any fun a => a.1 == key

/-- From its first `add` on, always more than one part in `BUCKETS_ASSOCIATIVITY` of what was
added to the bucket was added for the key. -/
def Heavy (key : T) (hist : List (T × ℤ)) : Prop :=
  ∀ pre ∈ hist.inits, occurs key pre = true →
    bucketTotal key pre < BUCKETS_ASSOCIATIVITY*total (· == key) pre

instance (key : T) (hist : List (T × ℤ)) : Decidable (Heavy key hist) := by
  unfold Heavy
  infer_instance

theorem Heavy.start {key : T} {hist later : List (T × ℤ)} (h : Heavy key (hist ++ later)) :
    Heavy key hist := by
  intro pre hpre
  rw [List.mem_inits] at hpre
  exact h pre ((List.mem_inits _ _).mpr (hpre.trans (List.prefix_append _ _)))

theorem Heavy.now {key : T} {hist : List (T × ℤ)} (h : Heavy key hist)
    (ho : occurs key hist = true) :
    bucketTotal key hist < BUCKETS_ASSOCIATIVITY*total (· == key) hist :=
  h hist ((List.mem_inits _ _).mpr (List.prefix_refl _)) ho

structure HeldBucket (key : T) (hist : List (T × ℤ)) (l : List (Entry T)) : Prop where
  weight : (l.map Entry.count).sum ≤ bucketTotal key hist
  positive : ∀ e ∈ l, 0 < e.count
  live : occurs key hist = true →
    ∃ e ∈ l, (e.item == key) = true ∧ e.count = total (· == key) hist
  absent : occurs key hist = false → ∀ e ∈ l, (e.item == key) = false

omit [Hashable T] in
theorem occurs_snoc (key k : T) (count : ℤ) (hist : List (T × ℤ)) :
    occurs key (hist ++ [(k,count)]) = (occurs key hist || k == key) := by
  simp [occurs]

omit [Hashable T] in
theorem total_of_absent {key : T} {hist : List (T × ℤ)} (h : occurs key hist = false) :
    total (· == key) hist = 0 := by
  apply total_eq_zero
  intro e he
  simp only [occurs,List.any_eq_false] at h
  simpa using h e he

omit [BEq T] [Hashable T] in
theorem least_le_sum {l : List (Entry T)} {n : ℤ} (h : ∀ e ∈ l, n ≤ e.count) :
    l.length*n ≤ (l.map Entry.count).sum := by
  have hle := List.card_nsmul_le_sum (l.map Entry.count) n (by
    intro x hx
    obtain ⟨e,he,rfl⟩ := List.mem_map.mp hx
    exact h e he)
  simpa using hle

omit [BEq T] in
theorem bucketTotal_same {key k : T} (h : bucketOf k = bucketOf key) (count : ℤ)
    (hist : List (T × ℤ)) : bucketTotal key (hist ++ [(k,count)]) = bucketTotal key hist+count := by
  simp [bucketTotal,total_cons,h]

omit [BEq T] in
theorem bucketTotal_other {key k : T} (h : bucketOf k ≠ bucketOf key) (count : ℤ)
    (hist : List (T × ℤ)) : bucketTotal key (hist ++ [(k,count)]) = bucketTotal key hist := by
  simp [bucketTotal,total_cons,h]

theorem HeldBucket.other [LawfulHashable T] {key k : T} {hist : List (T × ℤ)} {l : List (Entry T)}
    (h : HeldBucket key hist l) (hk : bucketOf k ≠ bucketOf key) (count : ℤ) :
    HeldBucket key (hist ++ [(k,count)]) l := by
  have hne : (k == key) = false := by
    rw [← Bool.not_eq_true]
    exact fun he => hk (bucketOf_congr he)
  have htotal : total (· == key) (hist ++ [(k,count)]) = total (· == key) hist := by
    simp [total_cons,hne]
  refine ⟨?_,h.positive,?_,?_⟩
  · rw [bucketTotal_other hk]
    exact h.weight
  · rw [occurs_snoc,hne,Bool.or_false,htotal]
    exact h.live
  · rw [occurs_snoc,hne,Bool.or_false]
    exact h.absent

omit [Hashable T] in
theorem total_snoc (key k : T) (count : ℤ) (hist : List (T × ℤ)) :
    total (· == key) (hist ++ [(k,count)]) =
      total (· == key) hist+(if k == key then count else 0) := by simp [total_cons]

variable [EquivBEq T]

/-- The count of the evicted entry is the least of a full bucket, which the heavy key's cannot
be. -/
theorem HeldBucket.spares {key : T} {hist : List (T × ℤ)} {l : List (Entry T)}
    (h : HeldBucket key hist l) (hd : Distinct Entry.item l) (hheavy : Heavy key hist)
    (hlen : l.length = BUCKETS_ASSOCIATIVITY) {old : Entry T} (hold : old ∈ l)
    (hmin : ∀ e ∈ l, old.count ≤ e.count) : (old.item == key) = false := by
  rw [← Bool.not_eq_true]
  intro hk
  have ho : occurs key hist = true := by
    by_contra hno
    rw [h.absent (by simpa using hno) old hold] at hk
    cases hk
  obtain ⟨e,he,hek,hcount⟩ := h.live ho
  have hsame : e = old := by
    obtain ⟨l₁,l₂,hl,h₁,h₂⟩ := hd.split hold hk
    rw [hl] at he
    rcases List.mem_append.mp he with he | he
    · rw [h₁ e he] at hek
      cases hek
    · rcases List.mem_cons.mp he with he | he
      · exact he
      · rw [h₂ e he] at hek
        cases hek
  have hsum := least_le_sum hmin
  have hnow := hheavy.now ho
  have hweight := h.weight
  rw [hlen,← hsame,hcount] at hsum
  omega

theorem HeldBucket.hit {key k : T} {count : ℤ} {hist : List (T × ℤ)} {l₁ l₂ : List (Entry T)}
    {e : Entry T} (h : HeldBucket key hist (l₁ ++ e :: l₂)) (hk : bucketOf k = bucketOf key)
    (hpos : 0 < count) (he : (e.item == k) = true)
    (hne : ∀ x ∈ l₁ ++ l₂, (x.item == k) = false) :
    HeldBucket key (hist ++ [(k,count)]) (l₁ ++ ⟨e.item,e.count+count⟩ :: l₂) := by
  have hcongr : (e.item == key) = (k == key) := BEq.congr_left he
  have hmem : ∀ x, x ∈ l₁ ++ ⟨e.item,e.count+count⟩ :: l₂ ↔
      x ∈ l₁ ++ l₂ ∨ x = ⟨e.item,e.count+count⟩ := by
    intro x
    simp only [List.mem_append,List.mem_cons]
    grind
  have hold : ∀ x ∈ l₁ ++ l₂, x ∈ l₁ ++ e :: l₂ := by
    intro x hx
    simp only [List.mem_append,List.mem_cons] at hx ⊢
    grind
  refine ⟨?_,?_,?_,?_⟩
  · have hw := h.weight
    rw [bucketTotal_same hk]
    simp only [List.map_append,List.map_cons,List.sum_append,List.sum_cons] at hw ⊢
    omega
  · intro x hx
    rcases (hmem x).mp hx with hx | rfl
    · exact h.positive x (hold x hx)
    · have hp := h.positive e (by simp)
      simp only
      omega
  · intro ho
    cases hkk : k == key with
    | true =>
      have hocc : occurs key hist = true := by
        by_contra hno
        have hf := h.absent (by simpa using hno) e (by simp)
        rw [hcongr,hkk] at hf
        cases hf
      obtain ⟨x,hx,hxk,hcount⟩ := h.live hocc
      have hxe : x = e := by
        rcases List.mem_append.mp hx with hx | hx
        · have hf := hne x (List.mem_append_left _ hx)
          rw [BEq.congr_right hkk,hxk] at hf
          cases hf
        · rcases List.mem_cons.mp hx with hx | hx
          · exact hx
          · have hf := hne x (List.mem_append_right _ hx)
            rw [BEq.congr_right hkk,hxk] at hf
            cases hf
      refine ⟨⟨e.item,e.count+count⟩,by simp,hcongr.trans hkk,?_⟩
      rw [total_snoc,hkk,← hcount,hxe]
      simp
    | false =>
      rw [occurs_snoc,hkk,Bool.or_false] at ho
      obtain ⟨x,hx,hxk,hcount⟩ := h.live ho
      have hxe : x ≠ e := by
        rintro rfl
        rw [hcongr,hkk] at hxk
        cases hxk
      refine ⟨x,(hmem x).mpr (.inl ?_),hxk,?_⟩
      · simp only [List.mem_append,List.mem_cons] at hx ⊢
        grind
      · rw [total_snoc,hkk,hcount]
        simp
  · intro ho x hx
    rw [occurs_snoc,Bool.or_eq_false_iff] at ho
    rcases (hmem x).mp hx with hx | rfl
    · exact h.absent ho.1 x (hold x hx)
    · exact hcongr.trans ho.2

theorem HeldBucket.new {key k : T} {count : ℤ} {hist : List (T × ℤ)} {l m : List (Entry T)}
    (h : HeldBucket key hist l) (l₁ : List (Entry T)) (hk : bucketOf k = bucketOf key)
    (hpos : 0 < count)
    (hmiss : ∀ e ∈ l, (e.item == k) = false) (hsub : ∀ e ∈ l₁, e ∈ l)
    (hstay : ∀ e ∈ l, (e.item == key) = true → e ∈ l₁)
    (hm : ∀ e, e ∈ m ↔ e ∈ l₁ ∨ e = ⟨k,count⟩)
    (hsum : (m.map Entry.count).sum ≤ (l.map Entry.count).sum+count) :
    HeldBucket key (hist ++ [(k,count)]) m := by
  refine ⟨?_,?_,?_,?_⟩
  · rw [bucketTotal_same hk]
    have hw := h.weight
    omega
  · intro e he
    rcases (hm e).mp he with he | rfl
    · exact h.positive e (hsub e he)
    · exact hpos
  · intro ho
    cases hkk : k == key with
    | true =>
      have hno : occurs key hist = false := by
        rw [← Bool.not_eq_true]
        intro hocc
        obtain ⟨e,he,hek,-⟩ := h.live hocc
        have hf := hmiss e he
        rw [BEq.congr_right hkk,hek] at hf
        cases hf
      refine ⟨⟨k,count⟩,(hm _).mpr (.inr rfl),hkk,?_⟩
      rw [total_snoc,hkk,total_of_absent hno]
      simp
    | false =>
      rw [occurs_snoc,hkk,Bool.or_false] at ho
      obtain ⟨e,he,hek,hcount⟩ := h.live ho
      refine ⟨e,(hm e).mpr (.inl (hstay e he hek)),hek,?_⟩
      rw [total_snoc,hkk,hcount]
      simp
  · intro ho e he
    rw [occurs_snoc,Bool.or_eq_false_iff] at ho
    rcases (hm e).mp he with he | rfl
    · exact h.absent ho.1 e (hsub e he)
    · exact ho.2

theorem HeldBucket.added {key k : T} {count : ℤ} {hist : List (T × ℤ)}
    {l l' : List (Entry T)} {evict : Option (Entry T)} (h : HeldBucket key hist l)
    (hd : Distinct Entry.item l) (hheavy : Heavy key hist) (hk : bucketOf k = bucketOf key)
    (hpos : 0 < count) (ha : Added k count l l' evict) :
    HeldBucket key (hist ++ [(k,count)]) l' ∧
      ∀ e ∈ evict.toList, (e.item == key) = false := by
  cases ha with
  | hit e he hek =>
    refine ⟨?_,by simp⟩
    obtain ⟨l₁,l₂,rfl,h₁,h₂⟩ := hd.split he hek
    have hbump : (l₁ ++ e :: l₂).map (bump k count) = l₁ ++ ⟨e.item,e.count+count⟩ :: l₂ :=
      map_under hek h₁ h₂ fun x => ⟨x.item,x.count+count⟩
    rw [hbump]
    refine h.hit hk hpos hek fun x hx => ?_
    rcases List.mem_append.mp hx with hx | hx
    · exact h₁ x hx
    · exact h₂ x hx
  | append hmiss hlt =>
    exact ⟨h.new l hk hpos hmiss (fun e he => he) (fun e he _ => he) (by simp) (by simp),by simp⟩
  | evict i old hmiss hlen hi hmin =>
    have hmem : old ∈ l := List.mem_of_getElem? hi
    have hspared := h.spares hd hheavy hlen hmem hmin
    have hold := h.positive old hmem
    obtain ⟨l₁,l₂,rfl,hs⟩ := set_split hi ⟨k,count⟩
    rw [hs]
    refine ⟨?_,by simpa using hspared⟩
    refine h.new (l₁ ++ l₂) hk hpos hmiss ?_ ?_ ?_ ?_
    · intro e he
      simp only [List.mem_append,List.mem_cons] at he ⊢
      grind
    · intro e he hek
      simp only [List.mem_append,List.mem_cons] at he ⊢
      grind
    · intro e
      simp only [List.mem_append,List.mem_cons]
      grind
    · simp only [List.map_append,List.map_cons,List.sum_append,List.sum_cons]
      omega

end Bucket

section Spills
variable {T : Type} [BEq T] [Hashable T] [EquivBEq T] [LawfulHashable T] [Layout (Entry T)]
  [Target]

def AddCall.pair (call : AddCall T) : T × ℤ := (call.key,call.count)

structure HeavyKept (key : T) (hist : List (T × ℤ)) (c : Collector T) : Prop where
  arranged : Arranged c.map
  bucket : HeldBucket key hist (c.map.buckets.get (bucketOf key)).live
  spilled : (∃ xs, c.temp_array.Holds xs ∧
      ∀ e ∈ c.temp_array.buffered ++ xs, (e.item == key) = false) ∨ c.temp_array.Short

omit [EquivBEq T] [LawfulHashable T] in
theorem heavyKept_new [Inhabited T] {c : Collector T} (h : Collector.new false = .ok c)
    (key : T) : HeavyKept key [] c := by
  obtain ⟨c₁,h₁,hr⟩ := collector_new (T := T)
  rw [h] at h₁
  cases h₁
  obtain ⟨hlive,hbuf,hholds⟩ := records_nil_empty hr
  refine ⟨hr.slots.arranged,?_,.inl ⟨[],hholds,by simp [hbuf]⟩⟩
  rw [hlive]
  exact ⟨by simp [bucketTotal],by simp,by simp [occurs],by simp⟩

theorem HeavyKept.bucket_step {key : T} {hist : List (T × ℤ)} {c : Collector T}
    (h : HeavyKept key hist c) (hheavy : Heavy key hist) {call : AddCall T}
    (hpos : 0 < call.count) {map : HashCounter T} {evict : Option (Entry T)}
    (hm : c.map.add call.key call.count = .ok (map,evict)) :
    HeldBucket key (hist ++ [call.pair]) (map.buckets.get (bucketOf key)).live ∧
      ∀ e ∈ evict.toList, (e.item == key) = false := by
  obtain ⟨hadd,hother,-⟩ := HashCounter.add_ok hm
  by_cases hk : bucketOf call.key = bucketOf key
  · rw [hk] at hadd
    exact h.bucket.added (h.arranged.distinct _) hheavy hk hpos hadd
  · refine ⟨?_,fun e he => ?_⟩
    · rw [hother _ (Ne.symm hk)]
      exact h.bucket.other hk call.count
    · have hplaced := h.arranged.placed _ e (hadd.evicted e he)
      rw [← Bool.not_eq_true]
      intro hek
      exact hk (hplaced.symm.trans (bucketOf_congr hek))

theorem HeavyKept.step {key : T} {hist : List (T × ℤ)} {c c' : Collector T}
    (h : HeavyKept key hist c) (hheavy : Heavy key hist) {call : AddCall T}
    (hpos : 0 < call.count) (hs : c.addStep call = some c') :
    HeavyKept key (hist ++ [call.pair]) c' := by
  obtain ⟨r,ha⟩ := addStep_eq_some hs
  rcases collector_add_cases ha with ⟨hm,-,ht⟩ | ⟨evict,hm,hp⟩
  · obtain ⟨hbucket,-⟩ := h.bucket_step hheavy hpos hm
    refine ⟨h.arranged.add hm,hbucket,?_⟩
    rw [ht]
    exact h.spilled
  · obtain ⟨hbucket,hevict⟩ := h.bucket_step hheavy hpos hm
    refine ⟨h.arranged.add hm,hbucket,?_⟩
    rcases h.spilled with ⟨xs,hxs,hnone⟩ | hshort
    · cases r with
      | error err => exact .inr (hxs.push_error hp)
      | ok u =>
        obtain ⟨xs',hxs',hperm⟩ := push_ok_perm hxs hp
        refine .inl ⟨xs',hxs',fun e he => ?_⟩
        rcases List.mem_cons.mp (hperm.mem_iff.mp he) with rfl | he
        · exact hevict e (by simp)
        · exact hnone e he
    · exact .inr (hshort.push hp)

theorem heavyKept_run {key : T} {hist : List (T × ℤ)} {c c' : Collector T}
    (h : HeavyKept key hist c) {calls : List (AddCall T)}
    (hheavy : Heavy key (hist ++ calls.map AddCall.pair)) (hpos : ∀ call ∈ calls, 0 < call.count)
    (hr : run Collector.addStep c calls = some c') :
    HeavyKept key (hist ++ calls.map AddCall.pair) c' := by
  induction calls generalizing c hist with
  | nil =>
    cases hr
    simpa using h
  | cons call calls ih =>
    obtain ⟨c₁,hs,hrest⟩ := run_cons_eq_some hr
    have h₁ := h.step hheavy.start (hpos call (by simp)) hs
    have hcons : hist ++ (call :: calls).map AddCall.pair =
        hist ++ [call.pair] ++ calls.map AddCall.pair := by simp
    rw [hcons] at hheavy ⊢
    exact ih h₁ hheavy (fun x hx => hpos x (by simp [hx])) hrest

omit [Hashable T] [LawfulHashable T] [Layout (Entry T)] [Target] in
theorem filter_eq_single {l : List (Entry T)} (hd : Distinct Entry.item l) {key : T}
    {e : Entry T} (he : e ∈ l) (hk : (e.item == key) = true) :
    (l.filter fun x => x.item == key) = [e] := by
  obtain ⟨l₁,l₂,rfl,h₁,h₂⟩ := hd.split he hk
  have hnil : ∀ m : List (Entry T), (∀ x ∈ m, (x.item == key) = false) →
      (m.filter fun x => x.item == key) = [] := by
    intro m hm
    rw [List.filter_eq_nil_iff]
    intro x hx
    simp [hm x hx]
  rw [List.filter_append,List.filter_cons_of_pos (by simpa using hk),hnil l₁ h₁,hnil l₂ h₂]
  rfl

omit [BEq T] [Hashable T] [EquivBEq T] [LawfulHashable T] in
theorem collector_try_iter_of_fault {c : Collector T} {fault : Option ReadFault}
    {it : Chain (Boxed (BucketIterator T)) (TempFdArrayIterator (Entry T))}
    (h : c.try_iter fault = .ok it) : c.try_iter none = .ok it := by
  obtain ⟨temp,ht,hp⟩ := bind_eq_ok.mp h
  exact bind_eq_ok.mpr ⟨temp,try_iter_of_fault ht,hp⟩

/-- Whatever writes fail: of a key that is heavy throughout there is one entry, in its bucket,
with all that was added for it. Whoever can read the collector finds this entry alone. -/
theorem heavy_key_kept [Inhabited T] {c₀ c : Collector T} (hnew : Collector.new false = .ok c₀)
    {calls : List (AddCall T)} (hr : run Collector.addStep c₀ calls = some c)
    (hpos : ∀ call ∈ calls, 0 < call.count) {key : T}
    (hheavy : Heavy key (calls.map AddCall.pair))
    (ho : ∃ call ∈ calls, (call.key == key) = true) :
    ∃ e, e.count = total (· == key) (calls.map AddCall.pair) ∧
      (c.map.live.filter fun x => x.item == key) = [e] ∧
      ∀ fault it, c.try_iter fault = .ok it →
        ((collect it).filter fun x => x.item == key) = [e] := by
  have h := heavyKept_run (heavyKept_new hnew key) hheavy hpos hr
  rw [List.nil_append] at h
  have hoccurs : occurs key (calls.map AddCall.pair) = true := by
    obtain ⟨call,hmem,hk⟩ := ho
    simp only [occurs,List.any_map,List.any_eq_true]
    exact ⟨call,hmem,hk⟩
  obtain ⟨e,he,hek,hcount⟩ := h.bucket.live hoccurs
  have hlive := filter_eq_single h.arranged.distinct_live (bucket_mem he) hek
  refine ⟨e,hcount,hlive,fun fault it hit => ?_⟩
  have hread := collector_try_iter_of_fault hit
  rcases h.spilled with ⟨xs,hxs,hnone⟩ | hshort
  · obtain ⟨it',hit',hc⟩ := collector_try_iter hxs
    rw [hread] at hit'
    cases hit'
    have hnil : ((c.temp_array.buffered ++ xs).filter fun x => x.item == key) = [] := by
      rw [List.filter_eq_nil_iff]
      intro x hx
      simp [hnone x hx]
    rw [hc,List.filter_append,hlive,hnil]
    rfl
  · rw [short_try_iter hshort] at hread
    cases hread

end Spills

/-- Key 0 against four others of its bucket, one of which has to go. -/
theorem heavy_key_kept_nat :
    letI : Target := ⟨128,2,false,Nat.two_pos⟩
    letI : Layout (Entry Nat) := indexedLayout (Entry Nat) 1 Nat.one_pos
    ∃ (c₀ c : Collector Nat) (it : _) (e : Entry Nat), Collector.new false = .ok c₀ ∧
      run Collector.addStep c₀ [⟨0,2,none⟩,⟨4096,1,none⟩,⟨8192,1,none⟩,⟨12288,1,none⟩,
        ⟨16384,1,some 0⟩,⟨0,3,none⟩] = some c ∧
      c.try_iter none = .ok it ∧ ((collect it).filter fun x => x.item == 0) = [e] ∧
      e.count = 5 := by
  let _ : Target := ⟨128,2,false,Nat.two_pos⟩
  let _ : Layout (Entry Nat) := indexedLayout (Entry Nat) 1 Nat.one_pos
  obtain ⟨c₀,hnew,-⟩ := collector_new (T := Nat)
  obtain ⟨c,hrun,hread⟩ : ∃ c, run Collector.addStep c₀ [⟨0,2,none⟩,⟨4096,1,none⟩,⟨8192,1,none⟩,
      ⟨12288,1,none⟩,⟨16384,1,some 0⟩,⟨0,3,none⟩] = some c ∧ ∃ it, c.try_iter none = .ok it := by
    cases hnew
    exact ⟨_,rfl,_,rfl⟩
  obtain ⟨it,hit⟩ := hread
  have hheavy : Heavy 0 ([⟨0,2,none⟩,⟨4096,1,none⟩,⟨8192,1,none⟩,⟨12288,1,none⟩,
      ⟨16384,1,some 0⟩,⟨0,3,none⟩].map (AddCall.pair (T := Nat))) := by decide
  obtain ⟨e,hcount,-,hsingle⟩ := heavy_key_kept hnew hrun (by simp) hheavy
    ⟨⟨0,2,none⟩,by simp,rfl⟩
  exact ⟨c₀,c,it,e,hnew,hrun,hit,hsingle none it hit,hcount.trans rfl⟩

end Pprof
